import Argus.Agent.Delivery
import Argus.Foundations.History

/-!
# The order of batches

A call of `sendBatch` first replays the spool, then posts its own batch, whatever became of the
replay. So an older batch is overtaken when something cuts the replay short: the hub answers a
batch of the spool with 503 five times and then accepts the new one. `ordered_of_clean` says
that there is no other way: where the drain of a call whose post the hub accepts is not cut
short, no batch is accepted before the batches that were in the spool when its call began.

The invariant is about the spool: a batch that began after another one lies behind it
(`Queue`), and every attempt comes after the earlier batches are settled, unless the drain of
its call was cut short (`InOrder`).
-/

namespace Argus

open Foundations AgentState Program

/-! ### What a log shows -/

/-- The id that an event is about. -/
def AgentEvent.about : AgentEvent → Option String
  | started id _ => some id
  | posted _ id => some id
  | accepted _ id => some id
  | answered _ b _ => some b.batchID
  | removed id => some id
  | interrupted => none

/-- The hub accepted the batch, or it was removed from the spool. -/
def Resolved (id : String) (log : List AgentEvent) : Prop :=
  (∃ c, .accepted c id ∈ log) ∨ .removed id ∈ log

/-- The call for a batch began, with the batches that were in the spool then resolved by now. -/
def Cleared (id : String) (log : List AgentEvent) : Prop :=
  ∀ spooled, .started id spooled ∈ log → ∀ earlier ∈ spooled, Resolved earlier log

/-- Something that ends a drain happened in the call for a batch. -/
def Cut (id : String) (log : List AgentEvent) : Prop :=
  ∃ pre spooled post, log = pre ++ .started id spooled :: post ∧ .interrupted ∈ post

/-- The call for a batch began. -/
def Began (id : String) (log : List AgentEvent) : Prop := ∃ spooled, .started id spooled ∈ log

/-- No batch is accepted before a batch that was in the spool when its call began. -/
def Ordered (log : List AgentEvent) : Prop :=
  Always (fun pre e => ∀ c id, e = .accepted c id → Cleared id pre) log

/-- Where the hub accepts a batch that its own call posted, nothing had cut the drain of the call
short before the post. -/
def Clean (log : List AgentEvent) : Prop :=
  ∀ id, .accepted .caller id ∈ log →
    Always (fun pre e => e = .posted .caller id → ¬ Cut id pre) log

theorem Resolved.mono {id : String} {log log' : List AgentEvent} (h : Resolved id log)
    (hlog : log <+: log') : Resolved id log' :=
  h.imp (fun ⟨c, hc⟩ => ⟨c, hlog.subset hc⟩) fun h => hlog.subset h

theorem Cut.mono {id : String} {log log' : List AgentEvent} (h : Cut id log) (hlog : log <+: log') :
    Cut id log' := by
  obtain ⟨pre, spooled, post, rfl, hpost⟩ := h
  obtain ⟨rest, rfl⟩ := hlog
  exact ⟨pre, spooled, post ++ rest, by simp, List.mem_append_left _ hpost⟩

theorem Began.mono {id : String} {log log' : List AgentEvent} (h : Began id log)
    (hlog : log <+: log') : Began id log' :=
  h.imp fun _ hspooled => hlog.subset hspooled

/-- What ends a drain in a call that began cuts it short. -/
theorem Began.cut {id : String} {log log' : List AgentEvent} (h : Began id log)
    (hlog : log ++ [.interrupted] <+: log') : Cut id log' := by
  obtain ⟨spooled, hspooled⟩ := h
  obtain ⟨pre, post, rfl⟩ := List.append_of_mem hspooled
  refine Cut.mono ⟨pre, spooled, post ++ [.interrupted], by simp, ?_⟩ hlog
  exact List.mem_append_right _ List.mem_cons_self

/-! ### The invariant -/

/-- Nothing is known of a batch yet. -/
def Unknown (id : String) (s : AgentState) : Prop :=
  (∀ n, s.idAt n ≠ some id) ∧ ∀ e ∈ s.log, e.about ≠ some id

/-- A batch that was in the spool when the call of another began is resolved, or lies before
every file of the other. -/
def Queue (s : AgentState) : Prop :=
  ∀ id spooled, .started id spooled ∈ s.log → ∀ earlier ∈ spooled,
    Resolved earlier s.log ∨ ∃ n, s.idAt n = some earlier ∧ ∀ m, s.idAt m = some id → n < m

/-- An attempt is sent when the earlier batches are resolved, or the drain was cut short. -/
def InOrder (log : List AgentEvent) : Prop :=
  Always (fun pre e => ∀ c id, e = .posted c id → Cleared id pre ∨ c = .caller ∧ Cut id pre) log

/-- What holds between the calls and during one, where the calls for the ids `ids` are still to
come. -/
structure SpoolInv (ids : List String) (s : AgentState) : Prop where
  queue : Queue s
  inOrder : InOrder s.log
  /-- What the hub accepts was posted. -/
  sent : Always (fun pre e => ∀ c id, e = .accepted c id → .posted c id ∈ pre) s.log
  /-- A call begins with a new id. -/
  fresh : Always (fun pre e => ∀ id spooled, e = .started id spooled →
    ∀ e' ∈ pre, e'.about ≠ some id) s.log
  unknown : ∀ id ∈ ids, Unknown id s

/-- **Order from the invariant.** -/
theorem SpoolInv.ordered {ids : List String} {s : AgentState} (h : SpoolInv ids s)
    (hclean : Clean s.log) : Ordered s.log := by
  rintro pre e post hlog c id rfl
  have hposted : .posted c id ∈ pre := h.sent pre _ post hlog c id rfl
  obtain ⟨p, q, rfl⟩ := List.append_of_mem hposted
  have hsplit : s.log = p ++ .posted c id :: (q ++ .accepted c id :: post) := by
    rw [hlog, List.append_assoc, List.cons_append]
  rcases h.inOrder p _ _ hsplit c id rfl with hcleared | ⟨rfl, hcut⟩
  · intro spooled hspooled earlier hearlier
    rcases List.mem_append.mp hspooled with hp | hq
    · exact (hcleared spooled hp earlier hearlier).mono (List.prefix_append _ _)
    · -- the call began before anything was posted for it
      rcases List.mem_cons.mp hq with hq | hq
      · exact nomatch hq
      · obtain ⟨q₁, q₂, rfl⟩ := List.append_of_mem hq
        have hstart : s.log = (p ++ .posted c id :: q₁) ++
            .started id spooled :: (q₂ ++ .accepted c id :: post) := by
          rw [hsplit]
          simp
        exact absurd rfl (h.fresh _ _ _ hstart id spooled rfl (.posted c id) (by simp))
  · have haccepted : .accepted .caller id ∈ s.log := by
      rw [hsplit]
      simp
    exact absurd hcut (hclean id haccepted p _ _ hsplit rfl)

/-! ### What an operation keeps -/

/-- Events were recorded, and no call began. -/
def Grows (s s' : AgentState) : Prop :=
  ∃ events, s'.log = s.log ++ events ∧ ∀ e ∈ events, ∀ id spooled, e ≠ .started id spooled

theorem Grows.refl (s : AgentState) : Grows s s := ⟨[], by simp, fun _ h => nomatch h⟩

theorem Grows.trans {s₁ s₂ s₃ : AgentState} (h₁ : Grows s₁ s₂) (h₂ : Grows s₂ s₃) :
    Grows s₁ s₃ := by
  obtain ⟨events₁, hlog₁, hev₁⟩ := h₁
  obtain ⟨events₂, hlog₂, hev₂⟩ := h₂
  refine ⟨events₁ ++ events₂, by rw [hlog₂, hlog₁, List.append_assoc], fun e he => ?_⟩
  exact (List.mem_append.mp he).elim (hev₁ e) (hev₂ e)

theorem Grows.beginning {s s' : AgentState} (h : Grows s s') : s.log <+: s'.log := by
  obtain ⟨events, hlog, -⟩ := h
  exact ⟨events, hlog.symm⟩

theorem grows_record {s : AgentState} {e : AgentEvent} (h : ∀ id spooled, e ≠ .started id spooled) :
    Grows s (s.record e) :=
  ⟨[e], rfl, fun _ he => List.mem_singleton.mp he ▸ h⟩

theorem grows_recordIf {s : AgentState} {p : Bool} {e : AgentEvent}
    (h : ∀ id spooled, e ≠ .started id spooled) : Grows s (s.recordIf p e) := by
  rw [AgentState.recordIf]
  split_ifs
  · exact grows_record h
  · exact Grows.refl s

theorem grows_drop (s : AgentState) (n : ℕ) : Grows s (s.drop n) := by
  rw [AgentState.drop]
  split
  · exact ⟨_, rfl, fun _ he => List.mem_singleton.mp he ▸ fun _ _ h => AgentEvent.noConfusion h⟩
  · exact Grows.refl s

theorem Cleared.grows {id : String} {s s' : AgentState} (h : Cleared id s.log)
    (hgrows : Grows s s') : Cleared id s'.log := by
  intro spooled hspooled earlier hearlier
  obtain ⟨events, hlog, hev⟩ := hgrows
  have hbefore : .started id spooled ∈ s.log := by
    rw [hlog] at hspooled
    rcases List.mem_append.mp hspooled with h | h
    · exact h
    · exact absurd rfl (hev _ h id spooled)
  exact (h spooled hbefore earlier hearlier).mono ⟨events, hlog.symm⟩

/-- What must hold for an event to happen. -/
def MayHappen (ids : List String) (s : AgentState) : AgentEvent → Prop
  | .started _ _ => False
  | .posted c id => id ∉ ids ∧ (Cleared id s.log ∨ c = .caller ∧ Cut id s.log)
  | .accepted c id => .posted c id ∈ s.log
  | .answered _ b _ => b.batchID ∉ ids
  | .removed id => id ∉ ids
  | .interrupted => True

/-- The invariant is kept by an event, and by a change of the files that leaves the ids to come
out of the spool and the other batches in their order. -/
theorem SpoolInv.extend {ids : List String} {s : AgentState} (h : SpoolInv ids s)
    {e : AgentEvent} (he : MayHappen ids s e) {dir : SortedMap ℕ SpoolFile}
    (hqueue : Queue ⟨dir, s.log ++ [e]⟩)
    (hdir : ∀ id ∈ ids, ∀ n, AgentState.idAt ⟨dir, s.log ++ [e]⟩ n ≠ some id) :
    SpoolInv ids ⟨dir, s.log ++ [e]⟩ where
  queue := hqueue
  inOrder := by
    refine always_concat.mpr ⟨h.inOrder, ?_⟩
    rintro c id rfl
    exact he.2
  sent := by
    refine always_concat.mpr ⟨h.sent, ?_⟩
    rintro c id rfl
    exact he
  fresh := by
    refine always_concat.mpr ⟨h.fresh, ?_⟩
    rintro id spooled rfl
    exact False.elim he
  unknown id hid := by
    refine ⟨hdir id hid, fun e' he' => ?_⟩
    rcases List.mem_append.mp he' with he' | he'
    · exact (h.unknown id hid).2 e' he'
    · obtain rfl := List.mem_singleton.mp he'
      rintro hsome
      cases e' with
      | started id' _ => exact he
      | posted c id' =>
        obtain rfl := Option.some.inj hsome
        exact he.1 hid
      | accepted c id' =>
        obtain rfl := Option.some.inj hsome
        exact (h.unknown _ hid).2 _ he rfl
      | answered c b r =>
        obtain rfl := Option.some.inj hsome
        exact he hid
      | removed id' =>
        obtain rfl := Option.some.inj hsome
        exact he hid
      | interrupted => exact nomatch hsome

/-- A call that began before an event began before. -/
theorem started_of_concat {ids : List String} {s : AgentState} {e : AgentEvent} {id : String}
    {spooled : List String} (he : MayHappen ids s e) (h : .started id spooled ∈ s.log ++ [e]) :
    .started id spooled ∈ s.log := by
  rcases List.mem_append.mp h with h | h
  · exact h
  · obtain rfl := List.mem_singleton.mp h
    exact False.elim he

theorem SpoolInv.record {ids : List String} {s : AgentState} (h : SpoolInv ids s)
    {e : AgentEvent} (he : MayHappen ids s e) : SpoolInv ids (s.record e) := by
  refine h.extend he ?_ fun id hid n => (h.unknown id hid).1 n
  intro id spooled hspooled earlier hearlier
  exact (h.queue id spooled (started_of_concat he hspooled) earlier hearlier).imp_left
    fun h => h.mono (List.prefix_append _ _)

theorem SpoolInv.recordIf {ids : List String} {s : AgentState} (h : SpoolInv ids s) {p : Bool}
    {e : AgentEvent} (he : MayHappen ids s e) : SpoolInv ids (s.recordIf p e) := by
  rw [AgentState.recordIf]
  split_ifs
  · exact h.record he
  · exact h

theorem idAt_erase {s : AgentState} {n k : ℕ} {log : List AgentEvent} :
    AgentState.idAt ⟨s.dir.erase n, log⟩ k = if k = n then none else s.idAt k := by
  rw [AgentState.idAt, AgentState.idAt, SortedMap.get?_erase]
  split_ifs <;> rfl

theorem SpoolInv.drop {ids : List String} {s : AgentState} (h : SpoolInv ids s) (n : ℕ) :
    SpoolInv ids (s.drop n) := by
  have hunknown : ∀ id ∈ ids, ∀ log m, AgentState.idAt ⟨s.dir.erase n, log⟩ m ≠ some id := by
    intro id hid log m
    rw [idAt_erase]
    split_ifs
    · exact nofun
    · exact (h.unknown id hid).1 m
  have hbehind : ∀ id log m k, (∀ m, s.idAt m = some id → k < m) →
      AgentState.idAt ⟨s.dir.erase n, log⟩ m = some id → k < m := by
    intro id log m k hk hm
    rw [idAt_erase] at hm
    split_ifs at hm
    exact hk m hm
  rw [AgentState.drop]
  split
  · next removed hremoved =>
    have he : MayHappen ids s (.removed removed) := fun hid => (h.unknown _ hid).1 n hremoved
    refine h.extend he ?_ fun id hid => hunknown id hid _
    intro id spooled hspooled earlier hearlier
    rcases h.queue id spooled (started_of_concat he hspooled) earlier hearlier with
      hres | ⟨k, hk, hlt⟩
    · exact .inl (hres.mono (List.prefix_append _ _))
    · by_cases hkn : k = n
      · -- the earlier batch itself is removed
        subst hkn
        obtain rfl := Option.some.inj (hremoved.symm.trans hk)
        exact .inl (.inr (List.mem_append_right _ List.mem_cons_self))
      · refine .inr ⟨k, ?_, fun m hm => hbehind id _ m k hlt hm⟩
        rw [idAt_erase, if_neg hkn, hk]
  · next hnone =>
    refine ⟨?_, h.inOrder, h.sent, h.fresh, fun id hid => ⟨hunknown id hid _, (h.unknown id hid).2⟩⟩
    intro id spooled hspooled earlier hearlier
    refine (h.queue id spooled hspooled earlier hearlier).imp_right ?_
    rintro ⟨k, hk, hlt⟩
    have hkn : k ≠ n := by
      rintro rfl
      exact nomatch hnone.symm.trans hk
    exact ⟨k, by rw [idAt_erase, if_neg hkn, hk], fun m hm => hbehind id _ m k hlt hm⟩

/-- A file is put behind all others. -/
theorem SpoolInv.store {ids : List String} {s : AgentState} (h : SpoolInv ids s) {n : ℕ}
    {f : SpoolFile} (hlast : ∀ k ∈ s.dir.keys, k < n)
    (hf : ∀ item, f.item = some item → item.batchID ∉ ids) : SpoolInv ids (s.store n f) := by
  rw [AgentState.store]
  split_ifs
  swap
  · exact h
  have hid : ∀ k, AgentState.idAt ⟨s.dir.insert n f, s.log⟩ k =
      if n = k then f.item.map fun item => item.batchID else s.idAt k := by
    intro k
    rw [AgentState.idAt, AgentState.idAt, SortedMap.get?_insert]
    split_ifs <;> rfl
  refine ⟨?_, h.inOrder, h.sent, h.fresh, fun id hids => ⟨fun k => ?_, (h.unknown id hids).2⟩⟩
  · intro id spooled hspooled earlier hearlier
    refine (h.queue id spooled hspooled earlier hearlier).imp_right ?_
    rintro ⟨k, hk, hlt⟩
    have hkey : k ∈ s.dir.keys := by
      obtain ⟨item, hitem, -⟩ := Option.map_eq_some_iff.mp hk
      obtain ⟨f, hf, -⟩ := Option.bind_eq_some_iff.mp hitem
      exact SortedMap.mem_keys.mpr ⟨f, hf⟩
    refine ⟨k, by rw [hid, if_neg (hlast k hkey).ne', hk], fun m hm => ?_⟩
    rw [hid] at hm
    split_ifs at hm with hmn
    · exact hmn ▸ hlast k hkey
    · exact hlt m hm
  · rw [hid]
    split_ifs
    · intro hsome
      obtain ⟨item, hitem, rfl⟩ := Option.map_eq_some_iff.mp hsome
      exact hf item hitem hids
    · exact (h.unknown id hids).1 k

/-- A call begins with an id that is not known yet. -/
theorem SpoolInv.start {id : String} {ids : List String} {s : AgentState}
    (h : SpoolInv (id :: ids) s) (hid : id ∉ ids) :
    SpoolInv ids (s.record (.started id s.spooled)) := by
  have hnew := h.unknown id List.mem_cons_self
  constructor
  · intro id' spooled hspooled earlier hearlier
    rcases List.mem_append.mp hspooled with hspooled | hspooled
    · exact (h.queue id' spooled hspooled earlier hearlier).imp_left
        fun h => h.mono (List.prefix_append _ _)
    · cases List.mem_singleton.mp hspooled
      obtain ⟨n, -, hn⟩ := List.mem_filterMap.mp hearlier
      exact .inr ⟨n, hn, fun m hm => absurd hm (hnew.1 m)⟩
  · refine always_concat.mpr ⟨h.inOrder, ?_⟩
    exact fun c id h => nomatch h
  · refine always_concat.mpr ⟨h.sent, ?_⟩
    exact fun c id h => nomatch h
  · refine always_concat.mpr ⟨h.fresh, ?_⟩
    intro id' spooled heq
    cases heq
    exact hnew.2
  · intro id' hid'
    have hold := h.unknown id' (List.mem_cons_of_mem _ hid')
    refine ⟨hold.1, fun e he => ?_⟩
    rcases List.mem_append.mp he with he | he
    · exact hold.2 e he
    · cases List.mem_singleton.mp he
      intro hsome
      exact hid (Option.some.inj hsome ▸ hid')

/-! ### A hub that accepts late -/

/-- The hub accepted attempts that were sent before. -/
def Later (s s₀ : AgentState) : Prop :=
  ∃ late : List (Ctx × String), (∀ a ∈ late, .posted a.1 a.2 ∈ s.log) ∧
    s₀ = ⟨s.dir, s.log ++ late.map fun a => .accepted a.1 a.2⟩

/-- As `agentEffect`, where the hub may accept an attempt that it got at any later time. -/
def lateEffect (Healthy : Prop) : Effect AgentState AgentOp AgentOp.Answer :=
  fun s o r s' => ∃ s₀, Later s s₀ ∧ agentEffect Healthy s₀ o r s'

theorem Later.refl (s : AgentState) : Later s s := ⟨[], by simp, by simp⟩

theorem Later.dir {s s₀ : AgentState} (h : Later s s₀) : s₀.dir = s.dir := by
  obtain ⟨late, -, rfl⟩ := h
  rfl

theorem Later.idAt {s s₀ : AgentState} (h : Later s s₀) (n : ℕ) : s₀.idAt n = s.idAt n := by
  obtain ⟨late, -, rfl⟩ := h
  rfl

theorem Later.grows {s s₀ : AgentState} (h : Later s s₀) : Grows s s₀ := by
  obtain ⟨late, -, rfl⟩ := h
  refine ⟨_, rfl, fun e he => ?_⟩
  obtain ⟨a, -, rfl⟩ := List.mem_map.mp he
  exact fun _ _ h => AgentEvent.noConfusion h

theorem Later.lastAnswer {s s₀ : AgentState} (h : Later s s₀) :
    Argus.lastAnswer s₀.log = Argus.lastAnswer s.log := by
  obtain ⟨late, -, rfl⟩ := h
  rw [Argus.lastAnswer, List.foldl_append, List.foldl_map, List.foldl_fixed]
  rfl

theorem SpoolInv.later {ids : List String} {s s₀ : AgentState} (h : SpoolInv ids s)
    (hlater : Later s s₀) : SpoolInv ids s₀ := by
  obtain ⟨late, hlate, rfl⟩ := hlater
  induction late generalizing s with
  | nil => simpa using h
  | cons a late ih =>
    obtain ⟨ha, hrest⟩ := List.forall_mem_cons.mp hlate
    have := ih (h.record (e := .accepted a.1 a.2) ha)
      fun a ha => List.mem_append_left _ (hrest a ha)
    simpa [AgentState.record] using this

/-! ### Posting, replaying and putting -/

/-- When the attempts of a batch may be sent. -/
def Ready (c : Ctx) (id : String) (s : AgentState) : Prop :=
  Cleared id s.log ∨ c = .caller ∧ Cut id s.log

theorem Ready.grows {c : Ctx} {id : String} {s s' : AgentState} (h : Ready c id s)
    (hgrows : Grows s s') : Ready c id s' :=
  h.imp (fun h => h.grows hgrows) fun h => ⟨h.1, h.2.mono hgrows.beginning⟩

/-- Something that ends a drain was recorded in the call for a batch. -/
theorem Began.cut_record {id : String} {s₀ s : AgentState} (h : Began id s₀.log)
    (hgrows : Grows s₀ s) : Cut id (s.record .interrupted).log :=
  (h.mono hgrows.beginning).cut (List.prefix_refl _)

/-- An operation of a post keeps the invariant and the files. -/
structure KeepsFiles (ids : List String) (s s' : AgentState) : Prop where
  inv : SpoolInv ids s'
  dir : s'.dir = s.dir
  grows : Grows s s'

theorem KeepsFiles.trans {ids : List String} {s₁ s₂ s₃ : AgentState} (h₁ : KeepsFiles ids s₁ s₂)
    (h₂ : KeepsFiles ids s₂ s₃) : KeepsFiles ids s₁ s₃ :=
  ⟨h₂.inv, h₂.dir.trans h₁.dir, h₁.grows.trans h₂.grows⟩

section Post

variable {Healthy : Prop} {ids : List String} {c : Ctx} {b : Batch} {cid : String}
  {s : AgentState}

theorem KeepsFiles.interrupted {s₀ : AgentState} (h : SpoolInv ids s) (hlater : Later s s₀)
    (p : Bool) :
    KeepsFiles ids s (s₀.recordIf p .interrupted) where
  inv := (h.later hlater).recordIf trivial
  dir := by simp [hlater.dir]
  grows := hlater.grows.trans (grows_recordIf fun _ _ h => AgentEvent.noConfusion h)

/-- A context that is done ends a drain. -/
theorem wp_ctxErr_inOrder (h : SpoolInv ids s) (hbegan : Began cid s.log) :
    (ctxErr c).wp (lateEffect Healthy) (SpoolInv ids)
      (fun err s' => KeepsFiles ids s s' ∧ (err.isSome = true → Cut cid s'.log)) s := by
  rintro err _ ⟨s₀, hlater, -, rfl⟩
  have hkept : KeepsFiles ids s (s₀.recordIf err.isSome .interrupted) := .interrupted h hlater _
  refine ⟨hkept.inv, hkept, fun hsome => ?_⟩
  rw [hsome]
  exact hbegan.cut_record hlater.grows

/-- So does a wait that is broken off. -/
theorem wp_retryWait_inOrder (h : SpoolInv ids s) (hbegan : Began cid s.log) :
    (retryWait c).wp (lateEffect Healthy) (SpoolInv ids)
      (fun waited s' => KeepsFiles ids s s' ∧ (waited = false → Cut cid s'.log)) s := by
  rintro waited _ ⟨s₀, hlater, rfl⟩
  have hkept : KeepsFiles ids s (s₀.recordIf (!waited) .interrupted) := .interrupted h hlater _
  refine ⟨hkept.inv, hkept, fun hbroken => ?_⟩
  rw [hbroken]
  exact hbegan.cut_record hlater.grows

/-- An attempt that is accepted is the last answer, and the last attempt of a replay that fails for
the moment ends the drain. -/
theorem wp_postOnce_inOrder {attempt : ℕ} (h : SpoolInv ids s) (hid : b.batchID ∉ ids)
    (hready : Ready c b.batchID s) (hbegan : Began cid s.log) :
    (postOnce c attempt b).wp (lateEffect Healthy) (SpoolInv ids)
      (fun r s' => KeepsFiles ids s s' ∧ (r = none → lastAnswer s'.log = some none) ∧
        (c = .replay → attempt = retryAttempts → retryable r = true → Cut cid s'.log)) s := by
  rintro r _ ⟨s₀, hlater, accepted, -, -, -, rfl⟩
  have hposted : SpoolInv ids (s₀.record (.posted c b.batchID)) :=
    (h.later hlater).record ⟨hid, hready.grows hlater.grows⟩
  have haccepted : SpoolInv ids
      ((s₀.record (.posted c b.batchID)).recordIf accepted (.accepted c b.batchID)) :=
    hposted.recordIf (List.mem_append_right _ List.mem_cons_self)
  have hanswered : KeepsFiles ids s (((s₀.record (.posted c b.batchID)).recordIf accepted
      (.accepted c b.batchID)).record (.answered c b r)) := by
    refine ⟨haccepted.record (e := .answered c b r) hid, by simp [hlater.dir], ?_⟩
    refine ((hlater.grows.trans (grows_record ?_)).trans (grows_recordIf ?_)).trans
      (grows_record ?_)
    all_goals exact fun _ _ h => AgentEvent.noConfusion h
  have hlast : lastAnswer (((s₀.record (.posted c b.batchID)).recordIf accepted
      (.accepted c b.batchID)).record (.answered c b r)).log = some r := by
    simp [lastAnswer, AgentState.record]
  generalize ((s₀.record (.posted c b.batchID)).recordIf accepted
    (.accepted c b.batchID)).record (.answered c b r) = s₁ at hanswered hlast ⊢
  have hkept : KeepsFiles ids s₁ (s₁.recordIf (retryable r && decide (c = .replay ∧
      attempt = retryAttempts)) .interrupted) :=
    .interrupted hanswered.inv (Later.refl s₁) _
  refine ⟨hkept.inv, hanswered.trans hkept, ?_, ?_⟩
  · rintro rfl
    exact hlast
  · rintro rfl rfl hretry
    rw [hretry]
    exact hbegan.cut_record hanswered.grows

/-- A post keeps the invariant and the files. An accepted replay is the last answer, and a replay
that fails for the moment ends the drain. -/
theorem wp_postLoop_inOrder {n : ℕ} {last : Option PostErr} (h : SpoolInv ids s)
    (hid : b.batchID ∉ ids) (hready : Ready c b.batchID s) (hbegan : Began cid s.log)
    (hfirst : last = none → n = retryAttempts)
    (hend : n = 0 → c = .replay → Cut cid s.log) :
    (postLoop c b n last).wp (lateEffect Healthy) (SpoolInv ids)
      (fun r s' => SpoolInv ids s' ∧ s'.dir = s.dir ∧ Grows s s' ∧
        (r = none → lastAnswer s'.log = some none) ∧
        (c = .replay → retryable r = true → Cut cid s'.log)) s := by
  induction n generalizing last s with
  | zero =>
    refine ⟨h, rfl, Grows.refl s, ?_, fun hc _ => hend rfl hc⟩
    rintro rfl
    exact absurd (hfirst rfl) (by decide)
  | succ n ih =>
    rw [postLoop]
    refine wp_seq (wp_ctxErr_inOrder h hbegan) ?_
    rintro err s₁ ⟨hkept₁, hdone⟩
    have hbegan₁ := hbegan.mono hkept₁.grows.beginning
    cases err with
    | some err =>
      refine ⟨hkept₁.inv, hkept₁.dir, hkept₁.grows, ?_, fun _ _ => hdone rfl⟩
      intro hnone
      rcases last with - | last <;> exact absurd hnone (by simp)
    | none =>
      -- what follows the wait between two attempts
      suffices hrest : ∀ waited s₂, KeepsFiles ids s₁ s₂ →
          (waited = false → retryAttempts - n > 1 ∧ Cut cid s₂.log) →
          (if (!waited) = true then pure last else (do
            let r ← postOnce c (retryAttempts - n) b
            if r = none ∨ (!retryable r) = true then pure r else postLoop c b n r) :
              AgentM (Option PostErr)).wp (lateEffect Healthy) (SpoolInv ids)
            (fun r s' => SpoolInv ids s' ∧ s'.dir = s.dir ∧ Grows s s' ∧
              (r = none → lastAnswer s'.log = some none) ∧
              (c = .replay → retryable r = true → Cut cid s'.log)) s₂ by
        dsimp only
        split_ifs with hlater
        · refine wp_seq (wp_retryWait_inOrder hkept₁.inv hbegan₁) ?_
          rintro waited s₂ ⟨hkept₂, hbroken⟩
          exact hrest waited s₂ hkept₂ fun hfalse => ⟨hlater, hbroken hfalse⟩
        · exact hrest true s₁ ⟨hkept₁.inv, rfl, Grows.refl s₁⟩ fun hfalse => Bool.noConfusion hfalse
      intro waited s₂ hkept₂ hbroken
      have hkept₂ := hkept₁.trans hkept₂
      cases waited with
      | false =>
        refine ⟨hkept₂.inv, hkept₂.dir, hkept₂.grows, ?_, fun _ _ => (hbroken rfl).2⟩
        rintro rfl
        have hwaited := (hbroken rfl).1
        have hfirst := hfirst rfl
        rw [retryAttempts] at hfirst hwaited
        omega
      | true =>
        refine wp_seq (wp_postOnce_inOrder hkept₂.inv hid (hready.grows hkept₂.grows)
          (hbegan.mono hkept₂.grows.beginning)) ?_
        rintro r s₃ ⟨hkept₃, hanswer, hlast⟩
        have hkept₃ := hkept₂.trans hkept₃
        split_ifs with hfinal
        · refine ⟨hkept₃.inv, hkept₃.dir, hkept₃.grows, hanswer, fun _ hretry => ?_⟩
          rcases hfinal with rfl | hfinal
          · exact absurd hretry Bool.false_ne_true
          · rw [hretry] at hfinal
            exact absurd hfinal (by simp)
        · obtain ⟨hsome, hretry⟩ := not_or.mp hfinal
          have hretry : retryable r = true := by simpa using hretry
          refine wp_post (ih hkept₃.inv (hready.grows hkept₃.grows)
            (hbegan.mono hkept₃.grows.beginning) (fun hr => absurd hr hsome) ?_) ?_
          · -- the last attempt
            rintro rfl hc
            exact hlast hc rfl hretry
          · rintro r' s' ⟨h', hdir', hgrows', hres⟩
            exact ⟨h', hdir'.trans hkept₃.dir, hkept₃.grows.trans hgrows', hres⟩

end Post

/-- The oldest item is that of the first file. Where none can be had, the drain ends. -/
theorem wp_front_inOrder {Healthy : Prop} {ids : List String} {cid : String} {fuel : ℕ}
    {s : AgentState} (h : SpoolInv ids s) (hbegan : Began cid s.log) :
    (front fuel).wp (lateEffect Healthy) (SpoolInv ids)
      (fun r s' => SpoolInv ids s' ∧ Grows s s' ∧ (r = none → Cut cid s'.log) ∧
        (r = some none → s'.dir.keys = []) ∧
        ∀ n item, r = some (some (n, item)) →
          s'.idAt n = some item.batchID ∧ ∀ k ∈ s'.dir.keys, n ≤ k) s := by
  induction fuel generalizing s with
  | zero =>
    rintro r _ ⟨_, _, hr⟩
    exact nomatch r
  | succ fuel ih =>
    rw [front]
    simp only [call_bind, ret_bind, wp_call]
    rintro names s₁ ⟨s₀, hlater, hnames, rfl⟩
    have h₁ : SpoolInv ids (s₀.recordIf names.isNone .interrupted) :=
      (h.later hlater).recordIf trivial
    refine ⟨h₁, ?_⟩
    rcases names with - | (- | ⟨n, names⟩)
    · -- the directory is not read
      exact ⟨h₁, hlater.grows.trans (grows_record fun _ _ h => AgentEvent.noConfusion h),
        fun _ => hbegan.cut_record hlater.grows, by simp, by simp⟩
    · -- nothing is spooled
      have hkeys : s₀.dir.keys = [] := by
        rcases hnames with hnames | ⟨hnames, -⟩
        · exact (Option.some.inj hnames).symm
        · exact absurd hnames (by simp)
      exact ⟨h₁, hlater.grows, by simp, fun _ => hkeys, by simp⟩
    · -- the oldest file is read
      have hkeys : n :: names = s₀.dir.keys := by
        rcases hnames with hnames | ⟨hnames, -⟩
        · exact Option.some.inj hnames
        · exact absurd hnames (by simp)
      have h₁ : SpoolInv ids s₀ := h₁
      rintro read s₂ ⟨s₀', hlater', hread, rfl⟩
      have hgrows₀ : Grows s s₀' := hlater.grows.trans hlater'.grows
      have h₂ : SpoolInv ids (s₀'.recordIf read.isNone .interrupted) :=
        (h₁.later hlater').recordIf trivial
      refine ⟨h₂, ?_⟩
      rcases read with - | (- | item)
      · -- it is not read
        exact ⟨h₂, hgrows₀.trans (grows_record fun _ _ h => AgentEvent.noConfusion h),
          fun _ => hbegan.cut_record hgrows₀, by simp, by simp⟩
      · -- it is corrupt
        have h₂ : SpoolInv ids s₀' := h₂
        rintro renamed s₃ ⟨s₀'', hlater'', hE⟩
        have hgrows₃ : Grows s s₀'' := hgrows₀.trans hlater''.grows
        cases renamed with
        | false =>
          obtain ⟨-, rfl⟩ := hE
          have h₃ := (h₂.later hlater'').record (e := .interrupted) trivial
          exact ⟨h₃, h₃, hgrows₃.trans (grows_record fun _ _ h => AgentEvent.noConfusion h),
            fun _ => hbegan.cut_record hgrows₃, by simp, by simp⟩
        | true =>
          obtain rfl : s₃ = s₀''.drop n := hE
          have h₃ := (h₂.later hlater'').drop n
          have hgrows := hgrows₃.trans (grows_drop s₀'' n)
          refine ⟨h₃, wp_post (ih h₃ (hbegan.mono hgrows.beginning)) ?_⟩
          rintro r s' ⟨h', hgrows', hres⟩
          exact ⟨h', hgrows.trans hgrows', hres⟩
      · -- it holds an item
        refine ⟨h₂, hgrows₀, by simp, by simp, fun m item' heq => ?_⟩
        cases heq
        rcases hread with hread | ⟨hread, -⟩
        swap
        · exact absurd hread (by simp)
        obtain ⟨f, hf, hitem⟩ := Option.map_eq_some_iff.mp hread.symm
        refine ⟨?_, fun k hk => ?_⟩
        · change AgentState.idAt s₀' n = _
          rw [AgentState.idAt, hf, Option.bind_some, hitem, Option.map_some]
        · change k ∈ s₀'.dir.keys at hk
          rw [hlater'.dir, dir_recordIf] at hk
          have hsorted := s₀.dir.sorted_keys
          rw [← hkeys] at hk hsorted
          rcases List.mem_cons.mp hk with rfl | hk
          · exact le_rfl
          · exact ((List.pairwise_cons.mp hsorted).1 k hk).le

/-- The batches before the first file of the spool are resolved. -/
theorem SpoolInv.cleared_of_first {ids : List String} {s : AgentState} (h : SpoolInv ids s)
    {n : ℕ} {id : String} (hn : s.idAt n = some id) (hfirst : ∀ k ∈ s.dir.keys, n ≤ k) :
    Cleared id s.log := by
  intro spooled hspooled earlier hearlier
  rcases h.queue id spooled hspooled earlier hearlier with hres | ⟨k, hk, hlt⟩
  · exact hres
  · obtain ⟨item, hitem, -⟩ := Option.map_eq_some_iff.mp hk
    obtain ⟨f, hf, -⟩ := Option.bind_eq_some_iff.mp hitem
    exact absurd (hfirst k (SortedMap.mem_keys.mpr ⟨f, hf⟩)) (not_le.mpr (hlt n hn))

/-- With an empty spool all earlier batches are resolved. -/
theorem SpoolInv.cleared_of_empty {ids : List String} {s : AgentState} (h : SpoolInv ids s)
    (hempty : s.dir.keys = []) (id : String) : Cleared id s.log := by
  intro spooled hspooled earlier hearlier
  rcases h.queue id spooled hspooled earlier hearlier with hres | ⟨k, hk, -⟩
  · exact hres
  · obtain ⟨item, hitem, -⟩ := Option.map_eq_some_iff.mp hk
    obtain ⟨f, hf, -⟩ := Option.bind_eq_some_iff.mp hitem
    have := SortedMap.mem_keys.mpr ⟨f, hf⟩
    rw [hempty] at this
    exact nomatch this

/-- A drain that is not cut short leaves an empty spool. -/
theorem wp_drainLoop_inOrder {Healthy : Prop} {ids : List String} {cid : String} {fuel : ℕ}
    {s : AgentState} (h : SpoolInv ids s) (hbegan : Began cid s.log) :
    (drainLoop fuel).wp (lateEffect Healthy) (SpoolInv ids)
      (fun _ s' => SpoolInv ids s' ∧ Grows s s' ∧ (Cut cid s'.log ∨ s'.dir.keys = [])) s := by
  induction fuel generalizing s with
  | zero =>
    rintro r _ ⟨_, _, hr⟩
    exact nomatch r
  | succ fuel ih =>
    rw [drainLoop]
    refine wp_seq (wp_front_inOrder h hbegan) ?_
    rintro found s₁ ⟨h₁, hgrows₁, hnone, hempty, hfound⟩
    match found with
    | none => exact ⟨h₁, hgrows₁, .inl (hnone rfl)⟩
    | some none => exact ⟨h₁, hgrows₁, .inr (hempty rfl)⟩
    | some (some (n, item)) =>
      obtain ⟨hn, hfirst⟩ := hfound n item rfl
      have hid : item.batchID ∉ ids := fun hid => (h₁.unknown _ hid).1 n hn
      have hbegan₁ := hbegan.mono hgrows₁.beginning
      refine wp_seq (wp_postLoop_inOrder h₁ hid (.inl (h₁.cleared_of_first hn hfirst)) hbegan₁
        (fun _ => rfl) nofun) ?_
      rintro err s₂ ⟨h₂, -, hgrows₂, hlast, hretry⟩
      have hgrows₂ := hgrows₁.trans hgrows₂
      -- the file is removed and the loop goes on, or stays
      have hdropped : ∀ s₀, Later s₂ s₀ → SpoolInv ids (s₀.drop n) ∧
          (drainLoop fuel).wp (lateEffect Healthy) (SpoolInv ids) (fun _ s' =>
            SpoolInv ids s' ∧ Grows s s' ∧ (Cut cid s'.log ∨ s'.dir.keys = [])) (s₀.drop n) := by
        intro s₀ hlater
        have h₃ := (h₂.later hlater).drop n
        have hgrows := (hgrows₂.trans hlater.grows).trans (grows_drop s₀ n)
        refine ⟨h₃, wp_post (ih h₃ (hbegan.mono hgrows.beginning)) ?_⟩
        rintro _ s' ⟨h', hgrows', hres⟩
        exact ⟨h', hgrows.trans hgrows', hres⟩
      split_ifs with hacc hperm
      · subst hacc
        rintro removed s₃ ⟨s₀, hlater, hE⟩
        cases removed with
        | true =>
          obtain rfl : s₃ = s₀.drop n := hE
          exact hdropped s₀ hlater
        | false =>
          obtain ⟨-, rfl⟩ := hE
          have h₃ : SpoolInv ids (s₀.recordIf (decide (lastAnswer s₀.log = some none))
            .interrupted) := (h₂.later hlater).recordIf trivial
          have hgrows := hgrows₂.trans hlater.grows
          rw [hlater.lastAnswer, hlast rfl] at h₃ ⊢
          exact ⟨h₃, h₃, hgrows.trans (grows_record fun _ _ h => AgentEvent.noConfusion h),
            .inl (hbegan.cut_record hgrows)⟩
      · rintro removed s₃ ⟨s₀, hlater, hE⟩
        cases removed with
        | true =>
          obtain rfl : s₃ = s₀.drop n := hE
          exact hdropped s₀ hlater
        | false =>
          obtain ⟨-, rfl⟩ := hE
          have h₃ : SpoolInv ids (s₀.recordIf (decide (lastAnswer s₀.log = some none))
            .interrupted) := (h₂.later hlater).recordIf trivial
          have hgrows : Grows s (s₀.recordIf (decide (lastAnswer s₀.log = some none))
              .interrupted) :=
            (hgrows₂.trans hlater.grows).trans
              (grows_recordIf fun _ _ h => AgentEvent.noConfusion h)
          refine ⟨h₃, wp_post (ih h₃ (hbegan.mono hgrows.beginning)) ?_⟩
          rintro _ s' ⟨h', hgrows', hres⟩
          exact ⟨h', hgrows.trans hgrows', hres⟩
      · exact ⟨h₂, hgrows₂, .inl (hretry rfl (by simpa using hperm))⟩

theorem wp_drain_inOrder {Healthy : Prop} {ids : List String} {cid : String} {fuel : ℕ}
    {s : AgentState} (h : SpoolInv ids s) (hbegan : Began cid s.log) :
    (drain fuel).wp (lateEffect Healthy) (SpoolInv ids)
      (fun _ s' => SpoolInv ids s' ∧ Grows s s' ∧ (Cut cid s'.log ∨ s'.dir.keys = [])) s := by
  rw [drain]
  simp only [call_bind, ret_bind, wp_call]
  rintro err s₁ ⟨s₀, hlater, -, rfl⟩
  have h₁ : SpoolInv ids (s₀.recordIf err.isSome .interrupted) := (h.later hlater).recordIf trivial
  have hgrows : Grows s (s₀.recordIf err.isSome .interrupted) :=
    hlater.grows.trans (grows_recordIf fun _ _ h => AgentEvent.noConfusion h)
  refine ⟨h₁, ?_⟩
  cases err with
  | some err => exact ⟨h₁, hgrows, .inl (hbegan.cut_record hlater.grows)⟩
  | none =>
    refine wp_post (wp_drainLoop_inOrder h₁ (hbegan.mono hgrows.beginning)) ?_
    rintro _ s' ⟨h', hgrows', hres⟩
    exact ⟨h', hgrows.trans hgrows', hres⟩

/-- An operation of `makeRoom`. -/
def AgentOp.MakesRoom : AgentOp → Prop
  | .stat _ => True
  | .remove _ => True
  | _ => False

/-- Making room drops files of the spool only. -/
theorem wp_makeRoom_inOrder {Healthy : Prop} {ids : List String} {maxBytes incoming : ℤ}
    {names : List ℕ} {s : AgentState} (h : SpoolInv ids s) (hkeys : ∀ k ∈ s.dir.keys, k ∈ names) :
    (makeRoom maxBytes incoming names).wp (lateEffect Healthy) (SpoolInv ids)
      (fun _ s' => SpoolInv ids s' ∧ ∀ k ∈ s'.dir.keys, k ∈ names) s := by
  refine wp_mono (fun _ h => h.1) (fun _ _ h => h) (wp_of_calls
    (J := fun s' => SpoolInv ids s' ∧ ∀ k ∈ s'.dir.keys, k ∈ names)
    (P := AgentOp.MakesRoom) (calls_makeRoom (fun _ => trivial) (fun _ => trivial) names) ?_
    ⟨h, hkeys⟩)
  rintro s o r s' ho ⟨s₀, hlater, hE⟩ ⟨h, hsub⟩
  have h := h.later hlater
  have hsub : ∀ k ∈ s₀.dir.keys, k ∈ names := fun k hk => hsub k (hlater.dir ▸ hk)
  match o, r, hE, ho with
  | .stat n, r, hE, _ =>
    obtain ⟨-, rfl⟩ := hE
    exact ⟨h, hsub⟩
  | .remove n, false, hE, _ =>
    obtain ⟨-, rfl⟩ := hE
    exact ⟨h.recordIf trivial, fun k hk => hsub k (by rwa [dir_recordIf] at hk)⟩
  | .remove n, true, hE, _ =>
    obtain rfl : s' = s₀.drop n := hE
    exact ⟨h.drop n, fun k hk => hsub k (mem_keys_drop.mp hk).1⟩

/-- The next number of a file. -/
def nextNumber (names : List ℕ) : ℕ := names.getLast?.getD 0 + 1

theorem lt_nextNumber {m : SortedMap ℕ SpoolFile} {k : ℕ} (hk : k ∈ m.keys) :
    k < nextNumber m.keys := by
  have hlast := List.getLast?_eq_some_getLast (List.ne_nil_of_mem hk)
  rw [nextNumber, hlast]
  exact Nat.lt_succ_of_le (SortedMap.le_getLast_of_mem_keys hk hlast)

/-- The next number lies behind the files of the spool. -/
theorem wp_relist_inOrder {Healthy : Prop} {ids : List String} {names : List ℕ} {s : AgentState}
    (h : SpoolInv ids s) (hkeys : ∀ k ∈ s.dir.keys, k < nextNumber names) :
    (relist names).wp (lateEffect Healthy) (SpoolInv ids)
      (fun r s' => SpoolInv ids s' ∧ ∀ names', r = some names' →
        ∀ k ∈ s'.dir.keys, k < nextNumber names') s := by
  have hkeep : ∀ s' : AgentState, s'.dir = s.dir → ∀ names', some names = some names' →
      ∀ k ∈ s'.dir.keys, k < nextNumber names' := by
    rintro s' hdir names' heq k hk
    cases heq
    exact hkeys k (hdir ▸ hk)
  rw [relist]
  split
  · exact ⟨h, hkeep s rfl⟩
  · rintro size s₁ ⟨s₀, hlater, -, rfl⟩
    have h₁ := h.later hlater
    refine ⟨h₁, ?_⟩
    cases size with
    | some size => exact ⟨h₁, hkeep s₁ hlater.dir⟩
    | none =>
      rintro names' s₂ ⟨s₀, hlater', hnames', rfl⟩
      have h₂ : SpoolInv ids (s₀.recordIf names'.isNone .interrupted) :=
        (h₁.later hlater').recordIf trivial
      refine ⟨h₂, h₂, ?_⟩
      rintro names'' heq k hk
      rcases hnames' with hnames' | ⟨hnames', -⟩
      · obtain rfl := Option.some.inj (heq.symm.trans hnames')
        exact lt_nextNumber (by rwa [dir_recordIf] at hk)
      · exact absurd (heq.symm.trans hnames') (by simp)

/-- A file is written behind the files of the spool. -/
theorem wp_writeFile_inOrder {Healthy : Prop} {ids : List String} {n : ℕ} {f : SpoolFile}
    {s : AgentState} (h : SpoolInv ids s) (hf : ∀ item, f.item = some item → item.batchID ∉ ids)
    (hlast : ∀ k ∈ s.dir.keys, k < n) :
    (writeFile n f >>= fun written => if written = true then renameFile n f else pure false :
      AgentM Bool).wp (lateEffect Healthy) (SpoolInv ids) (fun _ s' => SpoolInv ids s') s := by
  rintro written s₁ ⟨s₀, hlater, -, rfl⟩
  have h₁ := h.later hlater
  refine ⟨h₁, ?_⟩
  cases written with
  | false => exact h₁
  | true =>
    rintro renamed s₂ ⟨s₀, hlater', hE⟩
    have h₂ := h₁.later hlater'
    cases renamed with
    | false =>
      obtain ⟨-, rfl⟩ := hE
      exact ⟨h₂, h₂⟩
    | true =>
      obtain rfl : s₂ = s₀.store n f := hE
      have hlast' : ∀ k ∈ s₀.dir.keys, k < n := fun k hk => hlast k
        (by rwa [hlater'.dir, hlater.dir] at hk)
      exact ⟨h₂.store hlast' hf, h₂.store hlast' hf⟩

/-- A batch is put behind the files of the spool. -/
theorem wp_put_inOrder {Healthy : Prop} {ids : List String} {maxBytes : ℕ} {b : Batch}
    {s : AgentState} (h : SpoolInv ids s) (hid : b.batchID ∉ ids) :
    (put maxBytes b).wp (lateEffect Healthy) (SpoolInv ids) (fun _ s' => SpoolInv ids s') s := by
  unfold put
  split_ifs
  · exact h
  simp only [call_bind, ret_bind, wp_call]
  rintro queuedAt s₁ ⟨s₀, hlater, rfl⟩
  have h₁ := h.later hlater
  have hfile : ∀ item, (SpoolItem.mk b queuedAt).toFile.item = some item → item.batchID ∉ ids := by
    rintro item heq
    obtain rfl := Option.some.inj heq
    exact hid
  generalize (SpoolItem.mk b queuedAt).toFile = file at hfile ⊢
  refine ⟨h₁, ?_⟩
  split_ifs
  · exact h₁
  rintro names s₂ ⟨s₀, hlater', hnames, rfl⟩
  have h₂ : SpoolInv ids (s₀.recordIf names.isNone .interrupted) :=
    (h₁.later hlater').recordIf trivial
  refine ⟨h₂, ?_⟩
  cases names with
  | none => exact h₂
  | some names =>
    obtain rfl : names = s₀.dir.keys := by
      rcases hnames with hnames | ⟨hnames, -⟩
      · exact Option.some.inj hnames
      · exact absurd hnames (by simp)
    refine wp_seq (wp_makeRoom_inOrder h₂ fun _ hk => hk) ?_
    rintro room s₃ ⟨h₃, hsub⟩
    cases room with
    | false => exact h₃
    | true =>
      refine wp_seq (wp_relist_inOrder h₃ fun k hk => lt_nextNumber (hsub k hk)) ?_
      rintro names' s₄ ⟨h₄, hlast⟩
      cases names' with
      | none => exact h₄
      | some names' => exact wp_writeFile_inOrder h₄ hfile (hlast names' rfl)

/-- The batches of a call are sent in order. -/
theorem wp_sendBatch_inOrder {Healthy : Prop} {ids : List String} {maxBytes fuel : ℕ} {b : Batch}
    {s : AgentState} (h : SpoolInv ids s) (hid : b.batchID ∉ ids)
    (hbegan : Began b.batchID s.log) :
    (sendBatch fuel (some maxBytes) b).wp (lateEffect Healthy) (SpoolInv ids)
      (fun _ s' => SpoolInv ids s') s := by
  unfold sendBatch
  simp only [Option.isSome_some, if_true]
  refine wp_seq (wp_drain_inOrder h hbegan) ?_
  rintro _ s₁ ⟨h₁, hgrows₁, hdrained⟩
  have hready : Ready .caller b.batchID s₁ :=
    hdrained.symm.imp (fun hempty => h₁.cleared_of_empty hempty b.batchID) fun hcut => ⟨rfl, hcut⟩
  refine wp_seq (wp_postLoop_inOrder h₁ hid hready (hbegan.mono hgrows₁.beginning)
    (fun _ => rfl) nofun) ?_
  rintro err s₂ ⟨h₂, -, -, -, -⟩
  split_ifs
  · exact h₂
  · exact wp_seq (wp_put_inOrder h₂ hid) fun _ _ h => h

theorem wp_sendAll {Healthy : Prop} {maxBytes : ℕ} {calls : List (ℕ × Batch)} {s : AgentState}
    (h : SpoolInv (calls.map fun call => call.2.batchID) s)
    (hnodup : (calls.map fun call => call.2.batchID).Nodup) :
    (sendAll maxBytes calls).wp (lateEffect Healthy) (SpoolInv []) (fun _ _ => True) s := by
  induction calls generalizing s with
  | nil => trivial
  | cons call calls ih =>
    obtain ⟨fuel, b⟩ := call
    obtain ⟨hid, hnodup⟩ := List.nodup_cons.mp hnodup
    have hforget : ∀ {ids s}, SpoolInv ids s → SpoolInv [] s := fun h =>
      { h with unknown := fun _ hid => absurd hid (by simp) }
    rw [sendAll]
    rintro _ s₁ ⟨s₀, hlater, rfl⟩
    have h₁ := (h.later hlater).start hid
    have hbegan : Began b.batchID (s₀.record (.started b.batchID s₀.spooled)).log :=
      ⟨s₀.spooled, List.mem_append_right _ List.mem_cons_self⟩
    refine ⟨hforget h₁, wp_seq (wp_mono (fun _ => hforget) (fun _ _ h => h)
      (wp_sendBatch_inOrder h₁ hid hbegan)) ?_⟩
    exact fun _ s' h' => ih h' hnodup

/-- **The order of batches.** In every run of calls on a client, with any answers of the hub and
any faults of the files, no batch is accepted before the batches that were in the spool when its
call began are accepted or removed, as long as the drains of the calls whose posts the hub accepts
are not cut short. -/
theorem ordered_of_clean {maxBytes : ℕ} {calls : List (ℕ × Batch)} {dir : SortedMap ℕ SpoolFile}
    {p : AgentM Unit} {s : AgentState} (hnodup : (calls.map fun call => call.2.batchID).Nodup)
    (hnew : ∀ call ∈ calls, ∀ n, AgentState.idAt ⟨dir, []⟩ n ≠ some call.2.batchID)
    (hrun : Steps (lateEffect False) (sendAll maxBytes calls, ⟨dir, []⟩) (p, s))
    (hclean : Clean s.log) : Ordered s.log := by
  have hstart : SpoolInv (calls.map fun call => call.2.batchID) ⟨dir, []⟩ := by
    refine ⟨fun _ _ h => (nomatch h), always_nil, always_nil, always_nil, fun id hid => ?_⟩
    obtain ⟨call, hcall, rfl⟩ := List.mem_map.mp hid
    exact ⟨hnew call hcall, nofun⟩
  have hinv : SpoolInv [] s := (wp_of_steps (J := SpoolInv [])
    { hstart with unknown := fun _ hid => nomatch hid } (wp_sendAll hstart hnodup) hrun).1
  exact hinv.ordered hclean

theorem lateEffect_of_agentEffect {Healthy : Prop} {s s' : AgentState} {o : AgentOp} {r : o.Answer}
    (h : agentEffect Healthy s o r s') : lateEffect Healthy s o r s' :=
  ⟨s, ⟨[], nofun, by simp⟩, h⟩

/-- A spool with the batch of `sampleBatch`. -/
def sampleSpool : SortedMap ℕ SpoolFile :=
  SortedMap.empty.insert 1 ⟨120, some ⟨sampleBatch, ⟨0⟩⟩⟩

/-- The batch of a later call. -/
def laterBatch : Batch := { sampleBatch with batchID := "b2" }

theorem laterBatch_new : ∀ call ∈ [(5, laterBatch)], ∀ n,
    AgentState.idAt ⟨sampleSpool, []⟩ n ≠ some call.2.batchID := by
  intro call hcall n
  rw [List.mem_singleton.mp hcall, AgentState.idAt, sampleSpool, SortedMap.get?_insert]
  split_ifs
  · decide
  · exact nofun

theorem clean_of_uninterrupted {log : List AgentEvent} (h : .interrupted ∉ log) : Clean log := by
  rintro id - pre e post rfl rfl ⟨p, spooled, q, rfl, hq⟩
  exact h (List.mem_append_left _ (List.mem_append_right _ (List.mem_cons_of_mem _ hq)))

/-- The hub accepts the batch of the spool, then the later one. -/
theorem ordered_of_clean_accepting : ∃ s : AgentState,
    Steps (lateEffect False) (sendAll 2000 [(5, laterBatch)], ⟨sampleSpool, []⟩) (.ret (), s) ∧
      .accepted .caller "b2" ∈ s.log ∧ Ordered s.log := by
  have hrun : (sendAll 2000 [(5, laterBatch)]).replay (scripted none (fun _ => none) ⟨0⟩)
      ⟨sampleSpool, []⟩ = some ((), ⟨sampleSpool.erase 1, [.started "b2" ["b1"],
        .posted .replay "b1", .accepted .replay "b1", .answered .replay sampleBatch none,
        .removed "b1", .posted .caller "b2", .accepted .caller "b2",
        .answered .caller laterBatch none]⟩) := rfl
  have hsteps := steps_of_replay (E := lateEffect False) (fun s o r s' hs =>
    lateEffect_of_agentEffect (agentEffect_of_scripted (fun b => by simp) s o r s' hs)) hrun
  exact ⟨_, hsteps, by simp, ordered_of_clean (by simp) laterBatch_new hsteps
    (clean_of_uninterrupted (by simp))⟩

/-- What happens before the later batch is accepted, when the hub answers the batch in the spool
with 503. -/
def attemptsBefore : List AgentEvent :=
  .started "b2" ["b1"] :: ((List.replicate 5 [.posted .replay "b1",
    .answered .replay sampleBatch (some (.status 503))]).flatten ++
      [.interrupted, .posted .caller "b2"])

/-- A batch is overtaken when the hub answers its replay with 503. -/
theorem overtaken : ¬ ∀ (maxBytes : ℕ) (calls : List (ℕ × Batch)) (dir : SortedMap ℕ SpoolFile)
    (p : AgentM Unit) (s : AgentState), (calls.map fun call => call.2.batchID).Nodup →
      (∀ call ∈ calls, ∀ n, AgentState.idAt ⟨dir, []⟩ n ≠ some call.2.batchID) →
      Steps (lateEffect False) (sendAll maxBytes calls, ⟨dir, []⟩) (p, s) → Ordered s.log := by
  intro h
  have hrun : (sendAll 2000 [(5, laterBatch)]).replay
      (scripted none (fun b => if b.batchID = "b1" then some (.status 503) else none) ⟨0⟩)
        ⟨sampleSpool, []⟩ = some ((), ⟨sampleSpool, attemptsBefore ++
          [.accepted .caller "b2", .answered .caller laterBatch none]⟩) := rfl
  have hsteps := steps_of_replay (E := lateEffect False) (fun s o r s' hs =>
    lateEffect_of_agentEffect (agentEffect_of_scripted
      (fun b => by split_ifs <;> simp) s o r s' hs)) hrun
  have hresolved := h 2000 [(5, laterBatch)] sampleSpool _ _ (by simp) laterBatch_new hsteps
    attemptsBefore (.accepted .caller "b2") _ rfl .caller "b2" rfl ["b1"] List.mem_cons_self "b1"
    List.mem_cons_self
  simp [Resolved, attemptsBefore] at hresolved

end Argus