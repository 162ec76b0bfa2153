import Argus.Foundations.Counters
import Mathlib.Data.Set.Function

/-!
# Flows of the kernel collector

`Collector.Flows` reads the cumulative counters of a kernel map and reports what came on top
since the last reading. The tracker behind it, `Delta`, knows a flow by its addresses in their
sixteen-byte form, its ports and its direction, but not by its family: an IPv4 socket and a
socket of the IPv4-mapped IPv6 address share a key, and the tracker compares the counter of the
one with the counter of the other. `flows_add_up_iff` says that this is all that can go wrong.
-/

namespace Argus

open Foundations

/-! ### Flows -/

/-- Sixteen bytes: a raw address of the kernel, or a `net.IP` in its long form. -/
abbrev Address : Type := Vector UInt8 16

/-- `flowKey`. -/
structure FlowKey where
  source : Address
  dest : Address
  sourcePort : UInt16
  destPort : UInt16
  family : UInt8
  direction : UInt8
  deriving DecidableEq

/-- `Flow`. -/
structure Flow where
  source : Address
  dest : Address
  sourcePort : UInt16
  destPort : UInt16
  direction : UInt8
  count : ℕ

/-- `net.IPv4`: the IPv4-mapped form. -/
def ipv4 (a b c d : UInt8) : Address :=
  #v[0, 0, 0, 0, 0, 0, 0, 0, 0, 0, 0xff, 0xff, a, b, c, d]

/-- `address`. -/
def address (raw : Address) (family : UInt8) : Address :=
  if family = 4 then ipv4 raw[0] raw[1] raw[2] raw[3] else raw

/-- The flow of an entry of the kernel map. -/
def FlowKey.flow (k : FlowKey) (count : ℕ) : Flow where
  source := address k.source k.family
  dest := address k.dest k.family
  sourcePort := k.sourcePort
  destPort := k.destPort
  direction := k.direction
  count := count

/-- `byte(p>>8), byte(p)`. -/
def portBytes (p : UInt16) : List UInt8 := [(p >>> 8).toUInt8, p.toUInt8]

/-- `flowKeyString`. -/
def flowKeyString (f : Flow) : List UInt8 :=
  f.source.toList ++ f.dest.toList ++
    (portBytes f.sourcePort ++ portBytes f.destPort ++ [f.direction])

/-! ### The tracker -/

/-- What `Apply` reports of a flow. -/
def increment (previous : ℕ) (f : Flow) : List Flow :=
  let nonzero : Flow → List Flow := fun f => if f.count = 0 then [] else [f]
  if f.count ≤ previous then
    -- the counter was reset, or did not move
    if f.count = previous then [] else nonzero f
  else nonzero { f with count := f.count - previous }

/-- `Delta.Apply`, of the previous counters, which are zero for other keys: the current counters
and what is reported. -/
def Delta.apply (previous : List UInt8 → ℕ) (flows : List Flow) : (List UInt8 → ℕ) × List Flow :=
  flows.foldl (fun st flow =>
    (Function.update st.1 (flowKeyString flow) flow.count,
      st.2 ++ increment (previous (flowKeyString flow)) flow)) (fun _ => 0, [])

/-- `Collector.Flows` of a reading of the map. -/
def collectFlows (previous : List UInt8 → ℕ) (r : Reading FlowKey) :
    (List UInt8 → ℕ) × List Flow :=
  Delta.apply previous (r.map fun e => e.1.flow e.2)

/-- The windows that `Flows` returns for readings one after the other. -/
def windows (previous : List UInt8 → ℕ) : List (Reading FlowKey) → List (List Flow)
  | [] => []
  | r :: readings =>
    let (current, out) := collectFlows previous r
    out :: windows current readings

/-- The counts returned in all windows of a new collector. -/
def reported (readings : List (Reading FlowKey)) : ℕ :=
  ((windows (fun _ => 0) readings).flatten.map Flow.count).sum

/-- The counters that were read last. -/
def lastTotal (readings : List (Reading FlowKey)) : ℕ := (readings.getLast?.getD []).total

/-! ### Keys of the tracker -/

/-- Two entries of the kernel map that are one flow to the tracker. -/
def SameFlow (a b : FlowKey) : Prop :=
  address a.source a.family = address b.source b.family ∧
    address a.dest a.family = address b.dest b.family ∧
      a.sourcePort = b.sourcePort ∧ a.destPort = b.destPort ∧ a.direction = b.direction

theorem portBytes_inj {p q : UInt16} : portBytes p = portBytes q ↔ p = q := by
  refine ⟨fun h => ?_, congrArg _⟩
  rw [portBytes, portBytes, List.cons.injEq, List.cons.injEq] at h
  have hhigh := congrArg UInt8.toNat h.1
  have hlow := congrArg UInt8.toNat h.2.1
  have hp := p.toNat_lt
  have hq := q.toNat_lt
  refine UInt16.toNat_inj.mp ?_
  simp [Nat.shiftRight_eq_div_pow] at hhigh hlow
  omega

theorem flowKeyString_inj {a b : FlowKey} {m n : ℕ} :
    flowKeyString (a.flow m) = flowKeyString (b.flow n) ↔ SameFlow a b := by
  constructor
  · intro h
    simp only [flowKeyString, List.append_assoc] at h
    obtain ⟨hsource, h⟩ := List.append_inj h (by simp)
    obtain ⟨hdest, h⟩ := List.append_inj h (by simp)
    obtain ⟨hsourcePort, h⟩ := List.append_inj h rfl
    obtain ⟨hdestPort, h⟩ := List.append_inj h rfl
    exact ⟨Vector.toList_inj.mp hsource, Vector.toList_inj.mp hdest,
      portBytes_inj.mp hsourcePort, portBytes_inj.mp hdestPort, List.singleton_inj.mp h⟩
  · rintro ⟨hsource, hdest, hsourcePort, hdestPort, hdirection⟩
    simp only [flowKeyString, FlowKey.flow, hsource, hdest, hsourcePort, hdestPort, hdirection]

/-! ### What a reading reports and leaves -/

theorem collectFlows_eq (previous : List UInt8 → ℕ) (r : Reading FlowKey) :
    collectFlows previous r =
      (r.foldl (fun m e => Function.update m (flowKeyString (e.1.flow e.2)) e.2) (fun _ => 0),
        r.flatMap fun e => increment (previous (flowKeyString (e.1.flow e.2))) (e.1.flow e.2)) := by
  suffices ∀ (st : (List UInt8 → ℕ) × List Flow), (r.map fun e => e.1.flow e.2).foldl
      (fun st flow => (Function.update st.1 (flowKeyString flow) flow.count,
        st.2 ++ increment (previous (flowKeyString flow)) flow)) st =
      (r.foldl (fun m e => Function.update m (flowKeyString (e.1.flow e.2)) e.2) st.1, st.2 ++
        r.flatMap fun e => increment (previous (flowKeyString (e.1.flow e.2))) (e.1.flow e.2)) by
    simpa [collectFlows, Delta.apply] using this (fun _ => 0, [])
  induction r with
  | nil => simp
  | cons e r ih =>
    intro st
    rw [List.map_cons, List.foldl_cons, ih]
    simp [FlowKey.flow]

/-- A counter that has not fallen is reported by what it has above the previous one. -/
theorem count_increment {previous : ℕ} {f : Flow} (h : previous ≤ f.count) :
    ((increment previous f).map Flow.count).sum = f.count - previous := by
  simp only [increment]
  rcases h.eq_or_lt with heq | hlt
  · rw [if_pos heq.ge, if_pos heq.symm, heq]
    simp
  · rw [if_neg (not_le.mpr hlt), if_neg (Nat.sub_ne_zero_of_lt hlt)]
    simp

/-- The flows of a set of entries have keys of their own. -/
def Distinct (K : Set FlowKey) : Prop := ∀ a ∈ K, ∀ b ∈ K, SameFlow a b → a = b

/-- The tracker holds the counters of a reading. -/
def Tracks (K : Set FlowKey) (previous : List UInt8 → ℕ) (r : Reading FlowKey) : Prop :=
  ∀ k ∈ K, ∀ n, previous (flowKeyString (k.flow n)) = r.counter k

theorem tracks_collectFlows {K : Set FlowKey} (hK : Distinct K) {r : Reading FlowKey}
    (hr : r.keys.Nodup) (hmem : ∀ e ∈ r, e.1 ∈ K) (previous : List UInt8 → ℕ) :
    Tracks K (collectFlows previous r).1 r := by
  intro k hk n
  rw [collectFlows_eq]
  suffices ∀ m : List UInt8 → ℕ,
      r.foldl (fun m e => Function.update m (flowKeyString (e.1.flow e.2)) e.2) m
        (flowKeyString (k.flow n)) =
      if k ∈ r.keys then r.counter k else m (flowKeyString (k.flow n)) by
    simp only [this]
    split_ifs with hkr
    · rfl
    · rw [Reading.counter_of_notMem hkr]
  induction r with
  | nil => exact fun m => rfl
  | cons e r ih =>
    intro m
    obtain ⟨k', c⟩ := e
    obtain ⟨hnotin, hr⟩ := List.nodup_cons.mp hr
    obtain ⟨he, hmem⟩ := List.forall_mem_cons.mp hmem
    rw [List.foldl_cons, ih hr hmem, Reading.counter_cons, Function.update_apply]
    have hsame : SameFlow k k' ↔ k = k' :=
      ⟨hK k hk k' he, fun h => by rw [h]; exact ⟨rfl, rfl, rfl, rfl, rfl⟩⟩
    simp only [flowKeyString_inj, hsame, Reading.keys, List.map_cons, List.mem_cons]
    by_cases hkk : k = k'
    · subst hkk
      simp [show k ∉ List.map Prod.fst r from hnotin]
    · simp only [if_neg hkk, or_iff_right hkk]

/-- The windows of a tracker that holds the counters of a reading. -/
theorem sum_windows {K : Set FlowKey} (hK : Distinct K) :
    ∀ (readings : List (Reading FlowKey)) (r : Reading FlowKey) (previous : List UInt8 → ℕ),
      Tracks K previous r → (∀ r' ∈ r :: readings, r'.keys.Nodup) →
      (∀ r' ∈ readings, ∀ e ∈ r', e.1 ∈ K) → (r :: readings).IsChain Reading.Grows →
        ((windows previous readings).flatten.map Flow.count).sum + r.total =
          lastTotal (r :: readings) := by
  intro readings
  induction readings with
  | nil => intro r previous _ _ _ _; simp [windows, lastTotal]
  | cons r' readings ih =>
    intro r previous htracks hnodup hmem hchain
    obtain ⟨hr, hnodup⟩ := List.forall_mem_cons.mp hnodup
    obtain ⟨hr', -⟩ := List.forall_mem_cons.mp hnodup
    obtain ⟨hmem', hmem⟩ := List.forall_mem_cons.mp hmem
    obtain ⟨hgrows, hchain⟩ := List.isChain_cons_cons.mp hchain
    have hrest := ih r' _ (tracks_collectFlows hK hr' hmem' previous) hnodup hmem hchain
    have hwindow : ((collectFlows previous r').2.map Flow.count).sum =
        (r'.map fun e => e.2 - r.counter e.1).sum := by
      rw [collectFlows_eq, List.map_flatMap, List.flatMap, List.sum_flatten, List.map_map]
      refine congrArg List.sum (List.map_congr_left fun e he => ?_)
      have hle : r.counter e.1 ≤ e.2 := by
        rw [← Reading.counter_of_mem hr' he]
        exact hgrows.counter_le hr hr' e.1
      rw [Function.comp_apply, htracks e.1 (hmem' e he)]
      exact count_increment (f := e.1.flow e.2) hle
    have hsum := Reading.sum_increments hr hr' hgrows
    have hlast : lastTotal (r :: r' :: readings) = lastTotal (r' :: readings) := rfl
    rw [windows, List.flatten_cons, List.map_append, List.sum_append, hwindow, hlast, ← hrest]
    omega

/-! ### The accounting -/

/-- Readings of a map whose keys stay and whose counters do not fall. -/
structure Cumulative (readings : List (Reading FlowKey)) : Prop where
  nodup : ∀ r ∈ readings, r.keys.Nodup
  grows : readings.IsChain Reading.Grows

/-- With keys of their own for all flows, the reported counts add up to the last counters. -/
theorem reported_eq_lastTotal {K : Set FlowKey} (hK : Distinct K)
    {readings : List (Reading FlowKey)} (hcum : Cumulative readings)
    (hmem : ∀ r ∈ readings, ∀ e ∈ r, e.1 ∈ K) : reported readings = lastTotal readings := by
  have hchain : ([] :: readings).IsChain Reading.Grows := by
    cases readings with
    | nil => exact List.isChain_singleton _
    | cons r readings =>
      exact List.isChain_cons_cons.mpr ⟨fun _ he => absurd he List.not_mem_nil, hcum.grows⟩
  have hsum := sum_windows hK readings [] (fun _ => 0) (fun _ _ _ => rfl)
    (List.forall_mem_cons.mpr ⟨List.nodup_nil, hcum.nodup⟩) hmem hchain
  have hlast : lastTotal ([] :: readings) = lastTotal readings := by
    cases readings <;> rfl
  rw [hlast] at hsum
  exact hsum

/-- **When flows add up.** In every sequence of readings over some kernel keys the reported
counts add up to the last counters, if and only if no two of the keys are one flow to the
tracker. -/
theorem flows_add_up_iff (K : Set FlowKey) :
    (∀ readings, Cumulative readings → (∀ r ∈ readings, ∀ e ∈ r, e.1 ∈ K) →
      reported readings = lastTotal readings) ↔ Distinct K := by
  constructor
  · intro h a ha b hb hsame
    by_contra hne
    -- the two counters stay at 1 and 2
    have hreading : Cumulative [[(a, 1), (b, 2)], [(a, 1), (b, 2)]] := by
      refine ⟨fun r hr => ?_, ?_⟩
      · obtain rfl : r = [(a, 1), (b, 2)] := by simpa using hr
        simpa [Reading.keys] using hne
      · refine List.isChain_pair.mpr fun e he => ⟨e.2, le_rfl, he⟩
    have hkeys : ∀ r ∈ [[(a, 1), (b, 2)], [(a, 1), (b, 2)]], ∀ e ∈ r, e.1 ∈ K := by
      intro r hr e he
      obtain rfl : r = [(a, 1), (b, 2)] := by simpa using hr
      rcases List.mem_pair.mp he with rfl | rfl
      · exact ha
      · exact hb
    have heq := h _ hreading hkeys
    have hkey : flowKeyString (b.flow 2) = flowKeyString (a.flow 1) :=
      (flowKeyString_inj.mpr hsame).symm
    have hcurrent : ∀ previous : List UInt8 → ℕ,
        (collectFlows previous [(a, 1), (b, 2)]).1 (flowKeyString (a.flow 1)) = 2 := by
      intro previous
      rw [collectFlows_eq]
      change Function.update _ (flowKeyString (b.flow 2)) 2 (flowKeyString (a.flow 1)) = 2
      rw [hkey, Function.update_self]
    have hout : ∀ previous : List UInt8 → ℕ,
        ((collectFlows previous [(a, 1), (b, 2)]).2.map Flow.count).sum =
          ((increment (previous (flowKeyString (a.flow 1))) (a.flow 1)).map Flow.count).sum +
          ((increment (previous (flowKeyString (a.flow 1))) (b.flow 2)).map Flow.count).sum := by
      intro previous
      simp [collectFlows_eq, hkey]
    simp only [reported, windows, List.flatten_cons, List.flatten_nil, List.append_nil,
      List.map_append, List.sum_append, hout, hcurrent] at heq
    simp [increment, FlowKey.flow, lastTotal, Reading.total] at heq
  · exact fun hK readings hcum hmem => reported_eq_lastTotal hK hcum hmem

/-- A connection from 10.0.0.2 to port 8080 of 10.0.0.3, over IPv4. -/
def ipv4Key : FlowKey where
  source := #v[10, 0, 0, 2, 0, 0, 0, 0, 0, 0, 0, 0, 0, 0, 0, 0]
  dest := #v[10, 0, 0, 3, 0, 0, 0, 0, 0, 0, 0, 0, 0, 0, 0, 0]
  sourcePort := 0
  destPort := 8080
  family := 4
  direction := 0

/-- The same connection from an IPv6 socket, with the IPv4-mapped addresses. -/
def mappedKey : FlowKey where
  source := ipv4 10 0 0 2
  dest := ipv4 10 0 0 3
  sourcePort := 0
  destPort := 8080
  family := 6
  direction := 0

/-- Between two readings that are the same, one connection is reported again. -/
theorem mapped_flow_counted_again : ¬ ∀ readings : List (Reading FlowKey), Cumulative readings →
    reported readings = lastTotal readings := by
  intro h
  refine absurd (h [[(ipv4Key, 1), (mappedKey, 2)], [(ipv4Key, 1), (mappedKey, 2)]] ?_) ?_
  · refine ⟨fun r hr => ?_, List.isChain_pair.mpr fun e he => ⟨e.2, le_rfl, he⟩⟩
    obtain rfl : r = [(ipv4Key, 1), (mappedKey, 2)] := by simpa using hr
    decide
  · decide +kernel

end Argus
