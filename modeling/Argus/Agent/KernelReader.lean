import Argus.Agent.KernelProgram

/-!
# Counts per flow, and the reader

As long as the map has lost no count, every flow counts the connections that were traced of it,
less the programs that are still to count one and the failed updates. The reader goes over the map
while it counts on, and yet its readings are cumulative: `reported_between` says that the agent
has reported, in all windows together, no more than was counted and no less than had been counted
when the last complete iteration began.
-/

namespace Argus

open Foundations

/-! ### Counts per flow -/

/-- The tracepoints of a flow. -/
def tracedOf (key : FlowKey) (traced : List Tracepoint) : ℕ :=
  traced.countP fun tp => tp.key = some key

/-- What holds of the flows while no count is lost. -/
structure FlowInv (s : KernelWorld) : Prop where
  found : ∀ key existing, (⟨some key, countFound existing⟩ : KernelTask) ∈ s.running →
    s.memory.flows.Holds existing key
  counted : ∀ key, s.memory.flows.reading.counter key + owing key s.running +
    s.failed.count key = tracedOf key s.traced

variable {s s' : KernelWorld} {l₁ l₂ : List KernelTask} {t t' : KernelTask}

theorem owing_replace (key : FlowKey) (l₁ l₂ : List KernelTask) (t t' : KernelTask) :
    owing key (l₁ ++ t' :: l₂) +
        (if t.key = some key && (nextOp t.program).any KernelOp.counts then 1 else 0) =
      owing key (l₁ ++ t :: l₂) +
        if t'.key = some key && (nextOp t'.program).any KernelOp.counts then 1 else 0 :=
  countP_replace (fun t => t.key = some key && (nextOp t.program).any KernelOp.counts) l₁ l₂ t t'

theorem flowInv_initial : FlowInv KernelWorld.initial :=
  ⟨fun _ _ h => absurd h List.not_mem_nil, fun _ => rfl⟩

theorem FlowInv.trace (h : FlowInv s) (tp : Tracepoint) :
    FlowInv { s with
      running := ⟨tp.key, tp.program⟩ :: s.running, traced := s.traced ++ [tp] } := by
  have hentry := entry_program tp
  refine ⟨fun key existing hmem => ?_, fun key => ?_⟩
  · rcases List.mem_cons.mp hmem with heq | hmem
    · rw [← heq] at hentry
      cases hentry
    · exact h.found key existing hmem
  · have howes : (decide (tp.key = some key) && (nextOp tp.program).any KernelOp.counts) =
        decide (tp.key = some key) := by
      generalize ht : (⟨tp.key, tp.program⟩ : KernelTask) = t at hentry
      have hkey : tp.key = t.key := congrArg KernelTask.key ht
      have hprogram : tp.program = t.program := congrArg KernelTask.program ht
      rw [hkey, hprogram]
      cases hentry <;> simp [KernelOp.counts]
    have hcounted := h.counted key
    rw [owing, List.countP_cons, howes]
    rw [owing] at hcounted
    rw [tracedOf, List.countP_append, List.countP_singleton, ← tracedOf, ← hcounted]
    dsimp only
    omega

/-- A call loses no count that was lost before. -/
theorem KernelCall.lost_le {m m' : KernelMemory} {keys : List FlowKey}
    (h : KernelCall m t m' t' keys) : m.flows.lost ≤ m'.flows.lost := by
  cases h with
  | added key existing => exact SharedTally.lost_le_add ..
  | inserted key id hid =>
    rw [SharedTally.lost_insert]
    exact Nat.le_add_right ..
  | found => exact le_rfl
  | missing => exact le_rfl
  | failed => exact le_rfl
  | bumped => exact le_rfl

/-- What a call counts while no count is lost: what the program is no longer to count. -/
theorem KernelCall.counter {m m' : KernelMemory} {keys : List FlowKey}
    (h : KernelCall m t m' t' keys) (hwf : m.flows.WellFormed) (hlost : m'.flows.lost = 0)
    (hfound : ∀ key existing, t = ⟨some key, countFound existing⟩ →
      m.flows.Holds existing key) (key : FlowKey) :
    m'.flows.reading.counter key + keys.count key +
        (if t'.key = some key && (nextOp t'.program).any KernelOp.counts then 1 else 0) =
      m.flows.reading.counter key +
        if t.key = some key && (nextOp t.program).any KernelOp.counts then 1 else 0 := by
  cases h with
  | found key' existing hfind => simp [KernelOp.counts]
  | missing key' hfind => simp [KernelOp.counts]
  | added key' existing =>
    rw [SharedTally.counter_add hwf (hfound key' existing rfl)]
    simp [KernelOp.counts]
  | inserted key' id hid =>
    rw [SharedTally.lost_insert] at hlost
    rw [SharedTally.counter_insert hwf (Nat.eq_zero_of_add_eq_zero_left hlost)]
    simp [KernelOp.counts]
  | failed key' =>
    simp [KernelOp.counts, List.count_singleton]
  | bumped key' slot hslot => simp [KernelOp.counts]

theorem KernelCall.holds {m m' : KernelMemory} {keys : List FlowKey}
    (h : KernelCall m t m' t' keys) (hwf : m.flows.WellFormed) (hlost : m'.flows.lost = 0)
    {id : ℕ} {key : FlowKey} (hholds : m.flows.Holds id key) : m'.flows.Holds id key := by
  cases h with
  | added key' existing => exact hholds.add
  | inserted key' id' hid =>
    rw [SharedTally.lost_insert] at hlost
    exact hholds.insert hwf (Nat.eq_zero_of_add_eq_zero_left hlost)
  | found => exact hholds
  | missing => exact hholds
  | failed => exact hholds
  | bumped => exact hholds

theorem FlowInv.found_of (h : FlowInv s) (running : s.running = l₁ ++ t :: l₂) :
    ∀ key existing, t = ⟨some key, countFound existing⟩ →
      s.memory.flows.Holds existing key := by
  rintro key existing rfl
  refine h.found key existing ?_
  rw [running]
  exact List.mem_append_right _ List.mem_cons_self

theorem FlowInv.call {m : KernelMemory} {keys : List FlowKey} (h : FlowInv s)
    (hwf : s.memory.flows.WellFormed) (running : s.running = l₁ ++ t :: l₂)
    (hcall : KernelCall s.memory t m t' keys) (hlost : m.flows.lost = 0) :
    FlowInv { s with memory := m, running := l₁ ++ t' :: l₂, failed := s.failed ++ keys } := by
  have hfound := h.found_of running
  refine ⟨fun key existing hmem => ?_, fun key => ?_⟩
  · rcases List.mem_append.mp hmem with hmem | hmem
    · refine hcall.holds hwf hlost (h.found key existing ?_)
      rw [running]
      exact List.mem_append_left _ hmem
    · rcases List.mem_cons.mp hmem with rfl | hmem
      · -- the program has just found the entry
        generalize ht' : (⟨some key, countFound existing⟩ : KernelTask) = t' at hcall
        cases hcall with
        | found key' existing' hfind =>
          cases ht'
          exact SharedTally.exists_of_find? hfind
        | missing => cases ht'
        | added => cases ht'
        | inserted => cases ht'
        | failed => cases ht'
        | bumped => cases ht'
      · refine hcall.holds hwf hlost (h.found key existing ?_)
        rw [running]
        exact List.mem_append_right _ (List.mem_cons_of_mem _ hmem)
  · have hcounter := hcall.counter hwf hlost hfound key
    have howing := owing_replace key l₁ l₂ t t'
    have hcounted := h.counted key
    rw [running] at hcounted
    simp only [List.count_append]
    omega

theorem FlowInv.exit {key : Option FlowKey} (h : FlowInv s)
    (running : s.running = l₁ ++ ⟨key, .ret ()⟩ :: l₂) :
    FlowInv { s with running := l₁ ++ l₂ } := by
  refine ⟨fun key' existing hmem => h.found key' existing ?_, fun key' => ?_⟩
  · rw [running]
    rcases List.mem_append.mp hmem with hmem | hmem
    · exact List.mem_append_left _ hmem
    · exact List.mem_append_right _ (List.mem_cons_of_mem _ hmem)
  · have hcounted := h.counted key'
    rw [running, owing, List.countP_append, List.countP_cons_of_neg (by simp),
      ← List.countP_append] at hcounted
    exact hcounted

/-- No step takes a lost count back. -/
theorem KernelStep.lost_le (hstep : KernelStep s s') (h : KernelInv s) :
    s.memory.flows.lost ≤ s'.memory.flows.lost := by
  cases hstep with
  | call running effect => exact (kernelCall_of_stage (h.stage running) effect).lost_le
  | evict key => exact (Nat.le_add_right ..).trans_eq (SharedTally.lost_evict ..).symm
  | trace => exact le_rfl
  | exit => exact le_rfl
  | begin => exact le_rfl
  | read => exact le_rfl
  | abort => exact le_rfl
  | finish => exact le_rfl

theorem KernelStep.flowInv (hstep : KernelStep s s') (hinv : KernelInv s) (h : FlowInv s)
    (hlost : s'.memory.flows.lost = 0) : FlowInv s' := by
  cases hstep with
  | trace tp => exact h.trace tp
  | call running effect =>
    have hcall := kernelCall_of_stage (hinv.stage running) effect
    exact h.call hinv.wellFormed running hcall hlost
  | exit running => exact h.exit running
  | evict key =>
    rw [SharedTally.lost_evict] at hlost
    have hevict := SharedTally.evict_eq hinv.wellFormed (Nat.eq_zero_of_add_eq_zero_left hlost)
    refine ⟨fun key' existing hmem => ?_, fun key' => ?_⟩
    · rw [hevict]
      exact h.found key' existing hmem
    · rw [hevict]
      exact h.counted key'
  | begin => exact ⟨h.found, h.counted⟩
  | read pass there => exact ⟨h.found, h.counted⟩
  | abort => exact ⟨h.found, h.counted⟩
  | finish pass once => exact ⟨h.found, h.counted⟩

/-! ### The reader -/

theorem KernelCall.grows {m m' : KernelMemory} {keys : List FlowKey}
    (h : KernelCall m t m' t' keys) (hwf : m.flows.WellFormed) (hlost : m'.flows.lost = 0)
    (hfound : ∀ key existing, t = ⟨some key, countFound existing⟩ →
      m.flows.Holds existing key) : m.flows.reading.Grows m'.flows.reading := by
  refine hwf.grows fun key => ?_
  cases h with
  | added key' existing =>
    rw [SharedTally.counter_add hwf (hfound key' existing rfl)]
    exact Nat.le_add_right ..
  | inserted key' id hid =>
    rw [SharedTally.lost_insert] at hlost
    rw [SharedTally.counter_insert hwf (Nat.eq_zero_of_add_eq_zero_left hlost)]
    exact Nat.le_add_right ..
  | found => exact le_rfl
  | missing => exact le_rfl
  | failed => exact le_rfl
  | bumped => exact le_rfl

/-- Without losses no counter falls. -/
theorem KernelStep.grows (hstep : KernelStep s s') (hinv : KernelInv s) (h : FlowInv s)
    (hlost : s'.memory.flows.lost = 0) :
    s.memory.flows.reading.Grows s'.memory.flows.reading := by
  cases hstep with
  | call running effect =>
    have hcall := kernelCall_of_stage (hinv.stage running) effect
    exact hcall.grows hinv.wellFormed hlost (h.found_of running)
  | evict key =>
    rw [SharedTally.lost_evict] at hlost
    rw [SharedTally.evict_eq hinv.wellFormed (Nat.eq_zero_of_add_eq_zero_left hlost)]
    exact .rfl
  | trace => exact .rfl
  | exit => exact .rfl
  | begin => exact .rfl
  | read => exact .rfl
  | abort => exact .rfl
  | finish => exact .rfl

/-- The flows that were traced. -/
def KernelWorld.tracedKeys (s : KernelWorld) : Set FlowKey :=
  {key | ∃ tp ∈ s.traced, tp.key = some key}

/-- The last complete reading. -/
def KernelWorld.latest (s : KernelWorld) : Reading FlowKey := s.readings.getLast?.getD []

/-- What holds of an iteration while no count is lost: it reads counters between those of its
beginning and those of now. -/
structure PassInv (s : KernelWorld) (p : KernelPass) : Prop where
  since : s.latest.Grows p.due
  nodup : p.due.keys.Nodup
  grown : p.due.Grows s.memory.flows.reading
  lower : ∀ e ∈ p.entries, p.due.counter e.1 ≤ e.2
  upper : p.entries.Grows s.memory.flows.reading

/-- What holds of the reader while no count is lost. -/
structure ReaderInv (s : KernelWorld) : Prop where
  pass : ∀ p, s.pass = some p → PassInv s p
  cumulative : Cumulative s.readings
  begun : s.begun ≤ s.latest.total
  latest : s.latest.Grows s.memory.flows.reading
  traced : ∀ r ∈ s.readings, ∀ e ∈ r, e.1 ∈ s.tracedKeys

/-- An entry of the map has been traced. -/
theorem FlowInv.mem_tracedKeys (h : FlowInv s) (hwf : s.memory.flows.WellFormed) {key : FlowKey}
    (hkey : key ∈ s.memory.flows.reading.keys) : key ∈ s.tracedKeys := by
  have hne := hwf.mem_keys_iff.mp hkey
  have hpos : 0 < tracedOf key s.traced := by
    have hcounted := h.counted key
    omega
  obtain ⟨tp, htp, heq⟩ := List.countP_pos_iff.mp hpos
  exact ⟨tp, htp, of_decide_eq_true heq⟩

theorem readerInv_initial : ReaderInv KernelWorld.initial where
  pass p h := (Option.some_ne_none p h.symm).elim
  cumulative := ⟨fun _ h => absurd h List.not_mem_nil, List.isChain_nil⟩
  begun := le_rfl
  latest _ h := absurd h List.not_mem_nil
  traced _ h := absurd h List.not_mem_nil

/-- The reader after a step of the kernel. -/
theorem ReaderInv.of_grows (h : ReaderInv s) (hpass : s'.pass = s.pass)
    (hbegun : s'.begun = s.begun) (hreadings : s'.readings = s.readings)
    (htraced : s.traced ⊆ s'.traced)
    (hgrows : s.memory.flows.reading.Grows s'.memory.flows.reading) : ReaderInv s' := by
  have hlatest : s'.latest = s.latest := by rw [KernelWorld.latest, hreadings, KernelWorld.latest]
  refine ⟨fun p hp => ?_, ?_, ?_, ?_, ?_⟩
  · obtain ⟨hsince, hnodup, hgrown, hlower, hupper⟩ := h.pass p (hpass ▸ hp)
    exact ⟨hlatest ▸ hsince, hnodup, hgrown.trans hgrows, hlower, hupper.trans hgrows⟩
  · rw [hreadings]
    exact h.cumulative
  · rw [hbegun, hlatest]
    exact h.begun
  · rw [hlatest]
    exact h.latest.trans hgrows
  · rw [hreadings]
    intro r hr e he
    obtain ⟨tp, htp, heq⟩ := h.traced r hr e he
    exact ⟨tp, htraced htp, heq⟩

theorem ReaderInv.begin (h : ReaderInv s) (hwf : s.memory.flows.WellFormed) :
    ReaderInv { s with pass := some ⟨s.memory.flows.reading, []⟩ } := by
  refine ⟨fun p hp => ?_, h.cumulative, h.begun, h.latest, h.traced⟩
  cases hp
  exact ⟨h.latest, hwf.keys, .rfl, fun _ he => absurd he List.not_mem_nil,
    fun _ he => absurd he List.not_mem_nil⟩

theorem ReaderInv.read (h : ReaderInv s) (hwf : s.memory.flows.WellFormed) {p : KernelPass}
    {key : FlowKey} (hp : s.pass = some p) (hkey : key ∈ s.memory.flows.reading.keys) :
    ReaderInv { s with
      pass := some
        { p with entries := p.entries ++ [(key, s.memory.flows.reading.counter key)] } } := by
  refine ⟨fun p' hp' => ?_, h.cumulative, h.begun, h.latest, h.traced⟩
  cases hp'
  obtain ⟨hsince, hnodup, hgrown, hlower, hupper⟩ := h.pass p hp
  refine ⟨hsince, hnodup, hgrown, fun e he => ?_, fun e he => ?_⟩
  · rcases List.mem_append.mp he with he | he
    · exact hlower e he
    · cases List.mem_singleton.mp he
      exact hgrown.counter_le hnodup hwf.keys key
  · rcases List.mem_append.mp he with he | he
    · exact hupper e he
    · cases List.mem_singleton.mp he
      exact ⟨_, le_rfl, Reading.mem_of_counter_ne_zero (hwf.mem_keys_iff.mp hkey)⟩

/-- A complete iteration has read every counter that there was when it began. -/
theorem PassInv.grows {p : KernelPass} (h : PassInv s p) (hdue : p.due.keys ⊆ p.entries.keys) :
    p.due.Grows p.entries := by
  intro e he
  obtain ⟨e', he', heq⟩ := List.mem_map.mp (hdue (List.mem_map_of_mem he))
  have hle := h.lower e' he'
  rw [heq, Reading.counter_of_mem h.nodup he] at hle
  exact ⟨e'.2, hle, heq ▸ he'⟩

theorem ReaderInv.finish (h : ReaderInv s) (hinv : KernelInv s) (hflow : FlowInv s)
    {p : KernelPass} (hp : s.pass = some p) (hnodup : p.entries.keys.Nodup)
    (hdue : p.due.keys ⊆ p.entries.keys) :
    ReaderInv { s with
      pass := none, begun := p.due.total, readings := s.readings ++ [p.entries] } := by
  have hpass := h.pass p hp
  have hgrows := hpass.grows hdue
  have hlatest : KernelWorld.latest { s with
      pass := none, begun := p.due.total, readings := s.readings ++ [p.entries] } = p.entries := by
    rw [KernelWorld.latest, List.getLast?_concat, Option.getD_some]
  refine ⟨fun p' hp' => (Option.some_ne_none p' hp'.symm).elim, ⟨?_, ?_⟩, ?_, ?_, ?_⟩
  · intro r hr
    rcases List.mem_append.mp hr with hr | hr
    · exact h.cumulative.nodup r hr
    · cases List.mem_singleton.mp hr
      exact hnodup
  · refine List.isChain_append.mpr ⟨h.cumulative.grows, List.isChain_singleton _, ?_⟩
    intro r hr r' hr'
    cases hr'
    have hsince := hpass.since
    rw [KernelWorld.latest, Option.mem_def.mp hr] at hsince
    exact hsince.trans hgrows
  · rw [hlatest]
    exact hgrows.total_le hpass.nodup hnodup
  · rw [hlatest]
    exact hpass.upper
  · intro r hr e he
    rcases List.mem_append.mp hr with hr | hr
    · exact h.traced r hr e he
    · cases List.mem_singleton.mp hr
      obtain ⟨c, -, hc⟩ := hpass.upper e he
      exact hflow.mem_tracedKeys hinv.wellFormed (List.mem_map.mpr ⟨_, hc, rfl⟩)

/-- **One step of the reader and the kernel.** -/
theorem KernelStep.readerInv (hstep : KernelStep s s') (hinv : KernelInv s) (hflow : FlowInv s)
    (h : ReaderInv s) (hlost : s'.memory.flows.lost = 0) : ReaderInv s' := by
  have hgrows := hstep.grows hinv hflow hlost
  cases hstep with
  | trace tp => exact h.of_grows rfl rfl rfl (List.subset_append_left ..) hgrows
  | call running effect => exact h.of_grows rfl rfl rfl (List.Subset.refl _) hgrows
  | exit running => exact h.of_grows rfl rfl rfl (List.Subset.refl _) hgrows
  | evict key => exact h.of_grows rfl rfl rfl (List.Subset.refl _) hgrows
  | begin => exact h.begin hinv.wellFormed
  | read pass there => exact h.read hinv.wellFormed pass there
  | abort =>
    exact ⟨fun p hp => (Option.some_ne_none p hp.symm).elim, h.cumulative, h.begun, h.latest,
      h.traced⟩
  | finish pass once =>
    obtain ⟨hnodup, hdue⟩ := once hlost
    exact h.finish hinv hflow pass hnodup hdue

/-- **Every run without losses.** -/
theorem KernelWorld.Reachable.lossless (h : s.Reachable) (hlost : s.memory.flows.lost = 0) :
    FlowInv s ∧ ReaderInv s := by
  induction h with
  | refl => exact ⟨flowInv_initial, readerInv_initial⟩
  | tail hrun hstep ih =>
    have hinv := Reachable.inv hrun
    obtain ⟨hflow, hreader⟩ := ih (Nat.le_zero.mp ((hstep.lost_le hinv).trans_eq hlost))
    exact ⟨hstep.flowInv hinv hflow hlost, hstep.readerInv hinv hflow hreader hlost⟩

/-! ### Addresses -/

theorem getElem_readInto (ctx : TraceContext) (f : AddressField) {i : ℕ} (hi : i < 16)
    (h : f.offset + i < 40) : (ctx.readInto f)[i] = ctx.addresses[f.offset + i] := by
  simp [TraceContext.readInto]

theorem getElem_saddr (ctx : TraceContext) {i : ℕ} (hi : i < 4) :
    (ctx.readInto .saddr)[i] = ctx.saddr[i] := by
  rw [getElem_readInto ctx .saddr (by omega) (by rw [AddressField.offset]; omega)]
  simp only [AddressField.offset, TraceContext.addresses]
  grind

theorem getElem_daddr (ctx : TraceContext) {i : ℕ} (hi : i < 4) :
    (ctx.readInto .daddr)[i] = ctx.daddr[i] := by
  rw [getElem_readInto ctx .daddr (by omega) (by rw [AddressField.offset]; omega)]
  simp only [AddressField.offset, TraceContext.addresses]
  grind

-- an IPv4 address is read with the bytes that follow it, which the agent leaves out
theorem address_saddr (ctx : TraceContext) : address (ctx.readInto .saddr) 4 =
    ipv4 ctx.saddr[0] ctx.saddr[1] ctx.saddr[2] ctx.saddr[3] := by
  simp only [address, if_true, getElem_saddr, Nat.reduceLT]

theorem address_daddr (ctx : TraceContext) : address (ctx.readInto .daddr) 4 =
    ipv4 ctx.daddr[0] ctx.daddr[1] ctx.daddr[2] ctx.daddr[3] := by
  simp only [address, if_true, getElem_daddr, Nat.reduceLT]

theorem address_saddrV6 (ctx : TraceContext) :
    address (ctx.readInto .saddrV6) 6 = ctx.saddrV6 := by
  rw [address, if_neg (by decide)]
  refine Vector.ext fun i hi => ?_
  rw [getElem_readInto ctx .saddrV6 hi (by rw [AddressField.offset]; omega)]
  simp only [AddressField.offset, TraceContext.addresses]
  grind

theorem address_daddrV6 (ctx : TraceContext) :
    address (ctx.readInto .daddrV6) 6 = ctx.daddrV6 := by
  rw [address, if_neg (by decide)]
  refine Vector.ext fun i hi => ?_
  rw [getElem_readInto ctx .daddrV6 hi (by rw [AddressField.offset]; omega)]
  simp only [AddressField.offset, TraceContext.addresses]
  grind

/-- The addresses and ports of a flow are those of a context. -/
def TraceContext.Shows (ctx : TraceContext) (f : Flow) : Prop :=
  f.sourcePort = ctx.sport ∧ f.destPort = ctx.dport ∧
    (ctx.family = afInet ∧
        f.source = ipv4 ctx.saddr[0] ctx.saddr[1] ctx.saddr[2] ctx.saddr[3] ∧
        f.dest = ipv4 ctx.daddr[0] ctx.daddr[1] ctx.daddr[2] ctx.daddr[3] ∨
      ctx.family = afInet6 ∧ f.source = ctx.saddrV6 ∧ f.dest = ctx.daddrV6)

/-- A flow tells of a tracepoint: a connection that is being opened or accepted, or a
retransmission. -/
def Tracepoint.Shows : Tracepoint → Flow → Prop
  | .setState ctx, f => ctx.protocol = ipprotoTcp ∧ ctx.toTraceContext.Shows f ∧
    (f.direction = flowOut ∧ ctx.newstate = tcpSynSent ∨
      f.direction = flowIn ∧ ctx.oldstate = tcpListen ∧ ctx.newstate = tcpSynRecv)
  | .retransmit ctx, f => ctx.Shows f ∧ f.direction = flowRetransmit

theorem shows_of_accountContext {ctx : TraceContext} {direction : UInt8} {key : FlowKey}
    (h : soughtKey (accountContext ctx direction) = some key) (n : ℕ) :
    ctx.Shows (key.flow n) ∧ (key.flow n).direction = direction := by
  rw [accountContext] at h
  split_ifs at h with h4 h6
  · cases h
    exact ⟨⟨rfl, rfl, .inl ⟨h4, address_saddr ctx, address_daddr ctx⟩⟩, rfl⟩
  · cases h
    exact ⟨⟨rfl, rfl, .inr ⟨h6, address_saddrV6 ctx, address_daddrV6 ctx⟩⟩, rfl⟩
  · cases h

/-- The flow of a tracepoint tells of it. -/
theorem shows_of_key {tp : Tracepoint} {key : FlowKey} (h : tp.key = some key) (n : ℕ) :
    tp.Shows (key.flow n) := by
  rw [Tracepoint.key] at h
  cases tp with
  | retransmit ctx => exact shows_of_accountContext h n
  | setState ctx =>
    rw [Tracepoint.program, inetSockSetState] at h
    split_ifs at h with hprotocol hout hin
    · cases h
    · obtain ⟨hshows, hdirection⟩ := shows_of_accountContext h n
      exact ⟨not_not.mp hprotocol, hshows, .inl ⟨hdirection, hout⟩⟩
    · obtain ⟨hshows, hdirection⟩ := shows_of_accountContext h n
      exact ⟨not_not.mp hprotocol, hshows, .inr ⟨hdirection, hin⟩⟩
    · cases h

/-! ### What is in the map -/

/-- The programs and the readers know none but traced flows. -/
structure GenuineInv (s : KernelWorld) : Prop where
  running : ∀ t ∈ s.running, ∀ key, t.key = some key → key ∈ s.tracedKeys
  flows : ∀ c ∈ s.memory.flows.cells, c.key ∈ s.tracedKeys
  pass : ∀ p, s.pass = some p → ∀ e ∈ p.entries, e.1 ∈ s.tracedKeys
  readings : ∀ r ∈ s.readings, ∀ e ∈ r, e.1 ∈ s.tracedKeys

theorem genuineInv_initial : GenuineInv KernelWorld.initial where
  running _ h := absurd h List.not_mem_nil
  flows _ h := absurd h List.not_mem_nil
  pass p h := (Option.some_ne_none p h.symm).elim
  readings _ h := absurd h List.not_mem_nil

/-- An entry after a call was there before, or is one of the flow that the program accounts for. -/
theorem KernelCall.cells {m m' : KernelMemory} {keys : List FlowKey}
    (h : KernelCall m t m' t' keys) (c : Cell FlowKey) (hc : c ∈ m'.flows.cells) :
    (∃ c' ∈ m.flows.cells, c'.key = c.key) ∨ t.key = some c.key := by
  cases h with
  | added key existing =>
    have hkeys : c.key ∈ (m.flows.add existing).reading.keys := by
      rw [SharedTally.keys_eq]
      exact List.mem_map_of_mem hc
    rw [SharedTally.keys_add, SharedTally.keys_eq] at hkeys
    exact .inl (List.mem_map.mp hkeys)
  | inserted key id hid =>
    rcases List.mem_cons.mp hc with rfl | hc
    · exact .inr rfl
    · exact .inl ⟨c, (SharedTally.mem_others.mp hc).1, rfl⟩
  | found => exact .inl ⟨c, hc, rfl⟩
  | missing => exact .inl ⟨c, hc, rfl⟩
  | failed => exact .inl ⟨c, hc, rfl⟩
  | bumped => exact .inl ⟨c, hc, rfl⟩

theorem KernelCall.key_eq {m m' : KernelMemory} {keys : List FlowKey}
    (h : KernelCall m t m' t' keys) : t'.key = t.key := by
  cases h <;> rfl

theorem GenuineInv.call {m : KernelMemory} {keys : List FlowKey} (h : GenuineInv s)
    (running : s.running = l₁ ++ t :: l₂) (hcall : KernelCall s.memory t m t' keys) :
    GenuineInv { s with memory := m, running := l₁ ++ t' :: l₂, failed := s.failed ++ keys } := by
  have hrunning := h.running
  rw [running] at hrunning
  have ht := hrunning t (List.mem_append_right _ List.mem_cons_self)
  refine ⟨fun t'' hmem => ?_, fun c hc => ?_, h.pass, h.readings⟩
  · rcases List.mem_append.mp hmem with hmem | hmem
    · exact hrunning t'' (List.mem_append_left _ hmem)
    · rcases List.mem_cons.mp hmem with rfl | hmem
      · rw [hcall.key_eq]
        exact ht
      · exact hrunning t'' (List.mem_append_right _ (List.mem_cons_of_mem _ hmem))
  · rcases hcall.cells c hc with ⟨c', hc', heq⟩ | hkey
    · exact heq ▸ h.flows c' hc'
    · exact ht c.key hkey

theorem KernelStep.genuineInv (hstep : KernelStep s s') (hinv : KernelInv s)
    (h : GenuineInv s) : GenuineInv s' := by
  cases hstep with
  | trace tp =>
    -- a key that was traced stays traced
    have hmono : ∀ key ∈ s.tracedKeys,
        key ∈ ({ s with
          running := ⟨tp.key, tp.program⟩ :: s.running
          traced := s.traced ++ [tp] } : KernelWorld).tracedKeys := by
      rintro key ⟨tp', htp', heq⟩
      exact ⟨tp', List.mem_append_left _ htp', heq⟩
    refine ⟨fun t ht key hkey => ?_, fun c hc => hmono _ (h.flows c hc),
      fun p hp e he => hmono _ (h.pass p hp e he),
      fun r hr e he => hmono _ (h.readings r hr e he)⟩
    rcases List.mem_cons.mp ht with rfl | ht
    · exact ⟨tp, List.mem_append_right _ (List.mem_singleton_self _), hkey⟩
    · exact hmono _ (h.running t ht key hkey)
  | call running effect =>
    exact h.call running (kernelCall_of_stage (hinv.stage running) effect)
  | exit running =>
    refine ⟨fun t ht => h.running t ?_, h.flows, h.pass, h.readings⟩
    rw [running]
    rcases List.mem_append.mp ht with ht | ht
    · exact List.mem_append_left _ ht
    · exact List.mem_append_right _ (List.mem_cons_of_mem _ ht)
  | evict key =>
    exact ⟨h.running, fun c hc => h.flows c (SharedTally.mem_others.mp hc).1, h.pass, h.readings⟩
  | begin =>
    refine ⟨h.running, h.flows, fun p hp e he => ?_, h.readings⟩
    cases hp
    exact absurd he List.not_mem_nil
  | @read p key pass there =>
    refine ⟨h.running, h.flows, fun p' hp' e he => ?_, h.readings⟩
    cases hp'
    rcases List.mem_append.mp he with he | he
    · exact h.pass p pass e he
    · rw [SharedTally.keys_eq] at there
      obtain ⟨c, hc, rfl⟩ := List.mem_map.mp there
      cases List.mem_singleton.mp he
      exact h.flows c hc
  | abort =>
    exact ⟨h.running, h.flows, fun p hp => (Option.some_ne_none p hp.symm).elim, h.readings⟩
  | @finish p pass once =>
    refine ⟨h.running, h.flows, fun p hp => (Option.some_ne_none p hp.symm).elim, fun r hr => ?_⟩
    rcases List.mem_append.mp hr with hr | hr
    · exact h.readings r hr
    · cases List.mem_singleton.mp hr
      exact h.pass p pass

theorem KernelWorld.Reachable.genuineInv (h : s.Reachable) : GenuineInv s := by
  induction h with
  | refl => exact genuineInv_initial
  | tail hrun hstep ih => exact hstep.genuineInv (Reachable.inv hrun) ih

/-! ### What the agent reports -/

theorem mem_increment {previous : ℕ} {f g : Flow} (h : f ∈ increment previous g) :
    ∃ n, f = { g with count := n } := by
  simp only [increment] at h
  split_ifs at h
  · exact absurd h List.not_mem_nil
  · exact absurd h List.not_mem_nil
  · exact ⟨g.count, List.mem_singleton.mp h⟩
  · exact absurd h List.not_mem_nil
  · exact ⟨_, List.mem_singleton.mp h⟩

theorem mem_windows {readings : List (Reading FlowKey)} {previous : List UInt8 → ℕ}
    {w : List Flow} (hw : w ∈ windows previous readings) {f : Flow} (hf : f ∈ w) :
    ∃ r ∈ readings, ∃ e ∈ r, ∃ n, f = e.1.flow n := by
  induction readings generalizing previous with
  | nil => exact absurd hw List.not_mem_nil
  | cons r readings ih =>
    rw [windows, collectFlows_eq] at hw
    rcases List.mem_cons.mp hw with rfl | hw
    · obtain ⟨e, he, hf⟩ := List.mem_flatMap.mp hf
      obtain ⟨n, rfl⟩ := mem_increment hf
      exact ⟨r, List.mem_cons_self, e, he, n, rfl⟩
    · obtain ⟨r', hr', hrest⟩ := ih hw
      exact ⟨r', List.mem_cons_of_mem _ hr', hrest⟩

/-- **No flow is made up.** In every interleaving, whatever the map loses and however the reader
meets it, each flow that the agent reports shows the addresses, the ports and the direction of a
connection or a retransmission that was traced. -/
theorem reported_genuine (h : s.Reachable) {w : List Flow}
    (hw : w ∈ windows (fun _ => 0) s.readings) {f : Flow} (hf : f ∈ w) :
    ∃ tp ∈ s.traced, tp.Shows f := by
  obtain ⟨r, hr, e, he, n, rfl⟩ := mem_windows hw hf
  obtain ⟨tp, htp, hkey⟩ := h.genuineInv.readings r hr e he
  exact ⟨tp, htp, shows_of_key hkey n⟩

/-- **What is counted of a flow.** As long as the map has lost no count, the entry of a flow counts
its tracepoints, but for the failed updates and the programs that are still to count one. -/
theorem counter_eq (h : s.Reachable) (hlost : s.memory.flows.lost = 0) (key : FlowKey) :
    s.memory.flows.reading.counter key + owing key s.running + s.failed.count key =
      tracedOf key s.traced :=
  (h.lossless hlost).1.counted key

/-- **What is reported.** As long as the map has lost no count, and if no two of the traced flows
are one flow to the tracker, the windows of the agent add up to no more than what the map counts,
and to no less than what it counted when the last complete iteration began. -/
theorem reported_between (h : s.Reachable) (hlost : s.memory.flows.lost = 0)
    (hdistinct : Distinct s.tracedKeys) :
    s.begun ≤ reported s.readings ∧ reported s.readings ≤ s.memory.flows.total := by
  obtain ⟨-, hreader⟩ := h.lossless hlost
  have hreported := reported_eq_lastTotal hdistinct hreader.cumulative hreader.traced
  have hlatest : lastTotal s.readings = s.latest.total := rfl
  rw [hreported, hlatest]
  refine ⟨hreader.begun, hreader.latest.total_le ?_ h.inv.wellFormed.keys⟩
  rw [KernelWorld.latest]
  cases hlast : s.readings.getLast? with
  | none => exact List.nodup_nil
  | some r => exact hreader.cumulative.nodup r (List.mem_of_getLast? hlast)

/-- A connection from 10.0.0.2 to port 8080 of 10.0.0.3 that is being opened. -/
def openedContext : SetStateContext where
  sport := 0
  dport := 8080
  family := afInet
  saddr := #v[10, 0, 0, 2]
  daddr := #v[10, 0, 0, 3]
  saddrV6 := ipv4 10 0 0 2
  daddrV6 := ipv4 10 0 0 3
  protocol := ipprotoTcp
  oldstate := 7
  newstate := tcpSynSent

/-- The flow of the connection. -/
def openedKey : FlowKey where
  source := openedContext.readInto .saddr
  dest := openedContext.readInto .daddr
  sourcePort := 0
  destPort := 8080
  family := 4
  direction := flowOut

/-- The connection is counted, and then read. -/
def openedWorld : KernelWorld where
  memory := ⟨⟨[⟨0, openedKey, 1⟩], 0, 0, 0⟩, fun slot => if slot = .events then 1 else 0⟩
  running := []
  traced := [.setState openedContext]
  failed := []
  pass := none
  begun := 1
  readings := [[(openedKey, 1)]]

/-- A call of a program that runs alone. -/
theorem KernelWorld.Reachable.alone {key : Option FlowKey} {o : KernelOp}
    {k : o.Answer → KernelM Unit} (h : s.Reachable) (running : s.running = [⟨key, .call o k⟩])
    (r : o.Answer) {m : KernelMemory} (effect : kernelEffect s.memory o r m) :
    KernelWorld.Reachable { s with
      memory := m, running := [⟨key, k r⟩], failed := s.failed ++ failedKeys o r } :=
  h.tail (.call (running.trans (List.nil_append _).symm) effect)

theorem reachable_openedWorld : openedWorld.Reachable := by
  let fresh : KernelMemory := ⟨.empty, fun _ => 0⟩
  let flows : SharedTally FlowKey := ⟨[⟨0, openedKey, 1⟩], 0, 0, 0⟩
  let stats : StatSlot → ℕ := Function.update fresh.stats .events 1
  have hentered : KernelWorld.Reachable ⟨fresh, [⟨some openedKey, account openedKey⟩],
      [.setState openedContext], [], none, 0, []⟩ :=
    .single (.trace .initial (.setState openedContext))
  have hmissing := hentered.alone rfl none (m := fresh) ⟨rfl, rfl⟩
  have hinserted := hmissing.alone rfl false (m := ⟨flows, fresh.stats⟩) ⟨0, List.not_mem_nil, rfl⟩
  have hcounted := hinserted.alone rfl () (m := ⟨flows, stats⟩) rfl
  have hexit := hcounted.tail (.exit (List.nil_append _).symm)
  have hbegin := hexit.tail (.begin _)
  have hread := hbegin.tail (.read rfl List.mem_cons_self)
  have hfinish := hread.tail (.finish rfl fun _ => ⟨List.nodup_singleton _, List.Subset.refl _⟩)
  have hstats : stats = fun slot => if slot = .events then 1 else 0 := by
    funext slot
    exact Function.update_apply ..
  rw [openedWorld, ← hstats]
  exact hfinish

theorem distinct_openedWorld : Distinct openedWorld.tracedKeys := by
  rintro a ⟨tp, htp, ha⟩ b ⟨tp', htp', hb⟩ -
  cases List.mem_singleton.mp htp
  cases List.mem_singleton.mp htp'
  exact Option.some_inj.mp (ha.symm.trans hb)

/-- One of one. -/
theorem events_conserved_opened :
    openedWorld.memory.flows.total + openedWorld.memory.flows.lost = 1 ∧
      openedWorld.traced.countP (fun tp => tp.key.isSome) = 1 :=
  ⟨(events_conserved reachable_openedWorld).1,
    (events_conserved reachable_openedWorld).2.1.symm⟩

theorem counter_eq_opened : tracedOf openedKey openedWorld.traced = 1 :=
  (counter_eq reachable_openedWorld rfl openedKey).symm

theorem reported_between_opened : reported openedWorld.readings = 1 :=
  have h := reported_between reachable_openedWorld rfl distinct_openedWorld
  le_antisymm h.2 h.1

theorem reported_genuine_opened :
    (Tracepoint.setState openedContext).Shows (openedKey.flow 1) := by
  obtain ⟨tp, htp, hshows⟩ := reported_genuine reachable_openedWorld
    (w := [openedKey.flow 1]) (List.mem_singleton_self _) (List.mem_singleton_self _)
  cases List.mem_singleton.mp htp
  exact hshows

end Argus
