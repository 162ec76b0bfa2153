import Argus.Agent.Delivery
import Argus.Foundations.History

/-!
# What is removed from the spool

A drain removes a file directly after the hub has answered with a status below 300, and then it is
the file of the batch that was answered. `SpoolHolds` says so of the log, together with where the
batches come from: what is posted and what lies in the spool are batches that `sendBatch` was
called with. Every call of `sendBatch` keeps it.
-/

namespace Argus

open Foundations AgentState Program

/-! ### The log and the spool -/

/-- The last event is not the answer of a hub that took a batch. -/
def Quiet (log : List AgentEvent) : Prop := ∀ c b, log.getLast? ≠ some (.answered c b none)

/-- What is removed directly after a batch was taken is that batch. -/
def RemovesTaken (pre : List AgentEvent) (e : AgentEvent) : Prop :=
  ∀ id c b, e = .removed id → pre.getLast? = some (.answered c b none) → id = b.batchID

/-- The batches in the spool and in the log are known ones, and what is removed directly after a
batch was taken is that batch. -/
structure SpoolHolds (Known : Batch → Prop) (s : AgentState) : Prop where
  spooled : ∀ n f item, s.dir.get? n = some f → f.item = some item → Known item.toBatch
  answered : ∀ c b r, .answered c b r ∈ s.log → Known b
  removed : Always RemovesTaken s.log

variable {Known : Batch → Prop} {s s' : AgentState}

theorem quiet_concat {log : List AgentEvent} {e : AgentEvent}
    (he : ∀ c b, e ≠ .answered c b none) : Quiet (log ++ [e]) := by
  intro c b hlast
  rw [List.getLast?_concat] at hlast
  exact he c b (Option.some.inj hlast)

theorem Quiet.recordIf (h : Quiet s.log) (p : Bool) {e : AgentEvent}
    (he : ∀ c b, e ≠ .answered c b none) : Quiet (s.recordIf p e).log := by
  rw [AgentState.recordIf]
  split_ifs
  · exact quiet_concat he
  · exact h

/-- An event of a known batch. -/
theorem SpoolHolds.record (h : SpoolHolds Known s) {e : AgentEvent}
    (hknown : ∀ c b r, e = .answered c b r → Known b) (htaken : RemovesTaken s.log e) :
    SpoolHolds Known (s.record e) where
  spooled := h.spooled
  answered c b r hmem := (List.mem_append.mp hmem).elim (h.answered c b r) fun hmem =>
    hknown c b r (List.mem_singleton.mp hmem).symm
  removed := always_concat.mpr ⟨h.removed, htaken⟩

/-- An event that is neither an answer nor a removal. -/
theorem SpoolHolds.recordIf (h : SpoolHolds Known s) {e : AgentEvent} (p : Bool)
    (hanswered : ∀ c b r, e ≠ .answered c b r) (hremoved : ∀ id, e ≠ .removed id) :
    SpoolHolds Known (s.recordIf p e) := by
  rw [AgentState.recordIf]
  split_ifs
  · exact h.record (fun c b r he => absurd he (hanswered c b r))
      fun id _ _ he => absurd he (hremoved id)
  · exact h

theorem SpoolHolds.interrupted (h : SpoolHolds Known s) (p : Bool) :
    SpoolHolds Known (s.recordIf p .interrupted) :=
  h.recordIf p (by rintro _ _ _ ⟨⟩) (by rintro _ ⟨⟩)

theorem SpoolHolds.drop (h : SpoolHolds Known s) {n : ℕ}
    (htaken : ∀ id, s.idAt n = some id → RemovesTaken s.log (.removed id)) :
    SpoolHolds Known (s.drop n) := by
  have herase : SpoolHolds Known ⟨s.dir.erase n, s.log⟩ := by
    refine ⟨fun k f item hf => h.spooled k f item ?_, h.answered, h.removed⟩
    rw [SortedMap.get?_erase] at hf
    split_ifs at hf
    exact hf
  rw [AgentState.drop]
  split
  · next id hid => exact herase.record (by rintro _ _ _ ⟨⟩) (htaken id hid)
  · exact herase

theorem SpoolHolds.store (h : SpoolHolds Known s) {n : ℕ} {f : SpoolFile}
    (hf : ∀ item, f.item = some item → Known item.toBatch) : SpoolHolds Known (s.store n f) := by
  rw [AgentState.store]
  split_ifs
  · refine ⟨fun k f' item hf' => ?_, h.answered, h.removed⟩
    rw [SortedMap.get?_insert] at hf'
    split_ifs at hf'
    · obtain rfl := Option.some.inj hf'
      exact hf item
    · exact h.spooled k f' item hf'
  · exact h

/-! ### Operations -/

/-- An operation of a post of known batches. -/
def AgentOp.Posts (Known : Batch → Prop) : AgentOp → Prop
  | .ctxErr _ => True
  | .wait _ => True
  | .postOnce _ _ b => Known b
  | _ => False

/-- An operation on the files, that puts known batches into the spool. -/
def AgentOp.Files (Known : Batch → Prop) : AgentOp → Prop
  | .postOnce .. => False
  | .start _ => False
  | .rename _ f => ∀ item, f.item = some item → Known item.toBatch
  | _ => True

/-- What a post keeps. -/
theorem SpoolHolds.posts (h : SpoolHolds Known s) {o : AgentOp} {r : o.Answer}
    (ho : o.Posts Known) (hE : agentEffect False s o r s') :
    SpoolHolds Known s' ∧ s'.dir = s.dir := by
  cases o with
  | ctxErr c =>
    obtain ⟨-, rfl⟩ := hE
    exact ⟨h.interrupted _, dir_recordIf ..⟩
  | wait c =>
    obtain rfl := hE
    exact ⟨h.interrupted _, dir_recordIf ..⟩
  | postOnce c attempt b =>
    obtain ⟨accepted, -, -, -, rfl⟩ := hE
    have hposted : SpoolHolds Known (s.record (.posted c b.batchID)) :=
      h.record (fun _ _ _ he => nomatch he) fun _ _ _ he => nomatch he
    have hanswered := (hposted.recordIf accepted (e := .accepted c b.batchID) nofun nofun).record
      (e := .answered c b r) (by rintro c b r ⟨⟩; exact ho) fun _ _ _ he => nomatch he
    exact ⟨hanswered.interrupted _, by simp⟩
  | _ => exact False.elim ho

/-- What an operation on the files keeps, when no batch was taken directly before. -/
theorem SpoolHolds.files (h : SpoolHolds Known s) (hquiet : Quiet s.log) {o : AgentOp}
    {r : o.Answer} (ho : o.Files Known) (hE : agentEffect False s o r s') :
    SpoolHolds Known s' ∧ Quiet s'.log := by
  have htaken : ∀ id, RemovesTaken s.log (.removed id) := fun id _ c b _ hlast =>
    absurd hlast (hquiet c b)
  -- a file that goes had been taken, as no answer came in between
  have hdrop : ∀ n, SpoolHolds Known (s.drop n) ∧ Quiet (s.drop n).log := by
    refine fun n => ⟨h.drop fun id _ => htaken id, ?_⟩
    rw [AgentState.drop]
    split
    · exact quiet_concat (by rintro _ _ ⟨⟩)
    · exact hquiet
  have hinterrupted : ∀ p, SpoolHolds Known (s.recordIf p .interrupted) ∧
      Quiet (s.recordIf p .interrupted).log := fun p =>
    ⟨h.interrupted p, hquiet.recordIf p (by rintro _ _ ⟨⟩)⟩
  cases o with
  | ctxErr c =>
    obtain ⟨-, rfl⟩ := hE
    exact hinterrupted _
  | wait c =>
    obtain rfl := hE
    exact hinterrupted _
  | now =>
    obtain rfl := hE
    exact ⟨h, hquiet⟩
  | names =>
    obtain ⟨-, rfl⟩ := hE
    exact hinterrupted _
  | stat n =>
    obtain ⟨-, rfl⟩ := hE
    exact ⟨h, hquiet⟩
  | readFile n =>
    obtain ⟨-, rfl⟩ := hE
    exact hinterrupted _
  | renameBad n =>
    cases r with
    | false =>
      obtain ⟨-, rfl⟩ := hE
      exact hinterrupted true
    | true =>
      obtain rfl : s' = s.drop n := hE
      exact hdrop n
  | remove n =>
    cases r with
    | false =>
      obtain ⟨-, rfl⟩ := hE
      exact hinterrupted _
    | true =>
      obtain rfl : s' = s.drop n := hE
      exact hdrop n
  | writeFile n f =>
    obtain ⟨-, rfl⟩ := hE
    exact ⟨h, hquiet⟩
  | rename n f =>
    cases r with
    | false =>
      obtain ⟨-, rfl⟩ := hE
      exact ⟨h, hquiet⟩
    | true =>
      obtain rfl : s' = s.store n f := hE
      refine ⟨h.store ho, ?_⟩
      rw [AgentState.store]
      split_ifs <;> exact hquiet
  | cutOff => cases r
  | postOnce _ _ _ | start _ => exact False.elim ho

/-- The answer of an attempt says that the batch was taken. -/
def AgentOp.Takes (b : Batch) : (o : AgentOp) → o.Answer → Prop
  | .postOnce _ _ b', r => b' = b ∧ r = none
  | _, _ => False

theorem mem_recordIf {p : Bool} {e e' : AgentEvent} (h : e ∈ (s.recordIf p e').log) :
    e ∈ s.log ∨ e = e' := by
  rw [AgentState.recordIf] at h
  split_ifs at h
  · exact (List.mem_append.mp h).imp_right List.mem_singleton.mp
  · exact .inl h

/-- A batch that is known to be taken was so before, or is so by this answer. -/
theorem mem_log_of_effect {c : Ctx} {b : Batch} {o : AgentOp} {r : o.Answer}
    (hE : agentEffect False s o r s') (hmem : .answered c b none ∈ s'.log) :
    .answered c b none ∈ s.log ∨ o.Takes b r := by
  -- the other operations record something else, or nothing
  have hinterrupted : ∀ p, .answered c b none ∈ (s.recordIf p .interrupted).log →
      .answered c b none ∈ s.log := fun _ h => (mem_recordIf h).resolve_right (by rintro ⟨⟩)
  have hdrop : ∀ n, .answered c b none ∈ (s.drop n).log → .answered c b none ∈ s.log := by
    intro n h
    rw [AgentState.drop] at h
    split at h
    · exact (List.mem_append.mp h).resolve_right fun h => by cases List.mem_singleton.mp h
    · exact h
  cases o with
  | postOnce c' attempt b' =>
    obtain ⟨accepted, -, -, -, rfl⟩ := hE
    have hlast := List.mem_append.mp ((mem_recordIf hmem).resolve_right (by rintro ⟨⟩))
    rcases hlast with hmem | hmem
    · have hposted := (mem_recordIf hmem).resolve_right (by rintro ⟨⟩)
      exact .inl ((List.mem_append.mp hposted).resolve_right fun h => by
        cases List.mem_singleton.mp h)
    · cases List.mem_singleton.mp hmem
      exact .inr ⟨rfl, rfl⟩
  | ctxErr _ | names | readFile _ =>
    obtain ⟨-, rfl⟩ := hE
    exact .inl (hinterrupted _ hmem)
  | wait _ =>
    obtain rfl := hE
    exact .inl (hinterrupted _ hmem)
  | stat _ | writeFile _ _ =>
    obtain ⟨-, rfl⟩ := hE
    exact .inl hmem
  | now =>
    obtain rfl := hE
    exact .inl hmem
  | renameBad n =>
    cases r with
    | false =>
      obtain ⟨-, rfl⟩ := hE
      exact .inl (hinterrupted true hmem)
    | true =>
      obtain rfl : s' = s.drop n := hE
      exact .inl (hdrop n hmem)
  | remove n =>
    cases r with
    | false =>
      obtain ⟨-, rfl⟩ := hE
      exact .inl (hinterrupted _ hmem)
    | true =>
      obtain rfl : s' = s.drop n := hE
      exact .inl (hdrop n hmem)
  | rename n f =>
    cases r with
    | false =>
      obtain ⟨-, rfl⟩ := hE
      exact .inl hmem
    | true =>
      obtain rfl : s' = s.store n f := hE
      rw [AgentState.store] at hmem
      split_ifs at hmem <;> exact .inl hmem
  | start id =>
    obtain rfl := hE
    exact .inl ((List.mem_append.mp hmem).resolve_right fun h => by
      cases List.mem_singleton.mp h)
  | cutOff => cases r

/-! ### Programs -/

/-- What a post leaves: the files, and a last event that tells whether the batch was taken. -/
structure PostDone (Known : Batch → Prop) (c : Ctx) (b : Batch) (s : AgentState)
    (r : Option PostErr) (s' : AgentState) : Prop where
  holds : SpoolHolds Known s'
  dir : s'.dir = s.dir
  taken : r = none → s'.log.getLast? = some (.answered c b none)
  quiet : r ≠ none → Quiet s'.log

/-- After an attempt the last event tells whether the batch was taken. -/
theorem last_of_postOnce {c : Ctx} {attempt : ℕ} {b : Batch} {r : Option PostErr}
    (hE : agentEffect False s (.postOnce c attempt b) r s') :
    (r = none → s'.log.getLast? = some (.answered c b none)) ∧ (r ≠ none → Quiet s'.log) := by
  obtain ⟨accepted, -, -, -, rfl⟩ := hE
  refine ⟨?_, fun hr => Quiet.recordIf (quiet_concat fun c' b' he => hr ?_) _ nofun⟩
  · rintro rfl
    exact List.getLast?_concat
  · cases he
    rfl

theorem wp_postLoop_holds {c : Ctx} {b : Batch} {n : ℕ} {last : Option PostErr}
    (h : SpoolHolds Known s) (hb : Known b) (hfirst : last = none → n = retryAttempts)
    (hquiet : last ≠ none → Quiet s.log) :
    (postLoop c b n last).wp (agentEffect False) (SpoolHolds Known) (PostDone Known c b s) s := by
  induction n generalizing last s with
  | zero =>
    have hlast : last ≠ none := fun hnone => absurd (hfirst hnone) (by decide)
    exact ⟨h, rfl, fun hnone => absurd hnone hlast, hquiet⟩
  | succ n ih =>
    rw [postLoop]
    simp only [call_bind, ret_bind, wp_call]
    intro err s₁ hE
    obtain ⟨h₁, hdir₁⟩ := h.posts (o := .ctxErr c) trivial hE
    obtain ⟨-, rfl⟩ := hE
    refine ⟨h₁, ?_⟩
    cases err with
    | some err =>
      refine ⟨h₁, hdir₁, fun hnone => ?_, fun _ => quiet_concat (by rintro _ _ ⟨⟩)⟩
      cases last <;> cases hnone
    | none =>
      -- the attempt itself, after which the loop ends or goes on
      have hattempt : ∀ s₂ : AgentState, SpoolHolds Known s₂ → s₂.dir = s.dir →
          (Program.call (AgentOp.postOnce c (retryAttempts - n) b) fun r =>
            if r = none ∨ (!retryable r) = true then Program.ret r else postLoop c b n r).wp
              (agentEffect False) (SpoolHolds Known) (PostDone Known c b s) s₂ := by
        intro s₂ h₂ hdir₂ r s₃ hE
        obtain ⟨h₃, hdir₃⟩ := h₂.posts (o := .postOnce c (retryAttempts - n) b) hb hE
        obtain ⟨htaken, hfailed⟩ := last_of_postOnce hE
        refine ⟨h₃, ?_⟩
        beta_reduce
        split_ifs with hfinal
        · exact ⟨h₃, hdir₃.trans hdir₂, htaken, hfailed⟩
        · have hr : r ≠ none := fun hr => hfinal (.inl hr)
          refine wp_post (ih h₃ (fun hnone => absurd hnone hr) hfailed) fun r' s' hdone => ?_
          exact { hdone with dir := hdone.dir.trans (hdir₃.trans hdir₂) }
      simp only
      split_ifs with hretry
      · intro waited s₂ hE
        obtain ⟨h₂, hdir₂⟩ := h₁.posts (o := .wait c) trivial hE
        obtain rfl := hE
        refine ⟨h₂, ?_⟩
        cases waited with
        | false =>
          -- there is no wait before the first attempt
          have hlast : last ≠ none := fun hnone => by
            have hn := hfirst hnone
            rw [retryAttempts] at hn hretry
            omega
          exact ⟨h₂, hdir₂.trans hdir₁, fun hnone => absurd hnone hlast,
            fun _ => quiet_concat (by rintro _ _ ⟨⟩)⟩
        | true => exact hattempt _ h₂ (hdir₂.trans hdir₁)
      · exact hattempt _ h₁ hdir₁

theorem wp_post_holds {c : Ctx} {b : Batch} (h : SpoolHolds Known s) (hb : Known b) :
    (post c b).wp (agentEffect False) (SpoolHolds Known) (PostDone Known c b s) s :=
  wp_postLoop_holds h hb (fun _ => rfl) fun hne => absurd rfl hne

/-- What `front` finds is in its file. -/
theorem wp_front_holds {fuel : ℕ} (h : SpoolHolds Known s) :
    (front fuel).wp (agentEffect False) (SpoolHolds Known) (fun r s' => SpoolHolds Known s' ∧
      ∀ n item, r = some (some (n, item)) →
        ∃ f, s'.dir.get? n = some f ∧ f.item = some item) s := by
  induction fuel generalizing s with
  | zero => exact fun cut => cut.elim
  | succ fuel ih =>
    rw [front]
    simp only [call_bind, ret_bind, wp_call]
    rintro names s₁ ⟨-, rfl⟩
    have h₁ := h.interrupted names.isNone
    refine ⟨h₁, ?_⟩
    rcases names with - | - | ⟨n, rest⟩
    · exact ⟨h₁, by rintro _ _ ⟨⟩⟩
    · exact ⟨h₁, by rintro _ _ ⟨⟩⟩
    · rintro item s₂ ⟨hitem, rfl⟩
      have h₂ := h₁.interrupted item.isNone
      refine ⟨h₂, ?_⟩
      rcases item with - | - | item
      · exact ⟨h₂, by rintro _ _ ⟨⟩⟩
      · -- a file without an item is not in the log when it goes
        have hread := hitem.resolve_right fun hnone => absurd hnone.1 (Option.some_ne_none _)
        intro renamed s₃ hE
        have h₃ : SpoolHolds Known s₃ := by
          cases renamed with
          | false =>
            obtain ⟨-, rfl⟩ := hE
            exact h₂.interrupted true
          | true =>
            obtain rfl := hE
            refine h₂.drop fun id hid => ?_
            obtain ⟨f, hf, hnone⟩ := Option.map_eq_some_iff.mp hread.symm
            obtain ⟨item, hitem, -⟩ := Option.map_eq_some_iff.mp hid
            obtain ⟨f', hf', hitem⟩ := Option.bind_eq_some_iff.mp hitem
            obtain rfl := Option.some.inj (hf.symm.trans hf')
            cases hnone.symm.trans hitem
        refine ⟨h₃, ?_⟩
        cases renamed with
        | false => exact ⟨h₃, by rintro _ _ ⟨⟩⟩
        | true => exact ih h₃
      · refine ⟨h₂, fun n' item' heq => ?_⟩
        obtain ⟨rfl, rfl⟩ := Prod.mk.inj (Option.some.inj (Option.some.inj heq))
        have hread := hitem.resolve_right fun hnone => absurd hnone.1 (Option.some_ne_none _)
        exact Option.map_eq_some_iff.mp hread.symm

/-- Removing a file, directly after its batch was taken or when nothing was. -/
theorem SpoolHolds.remove (h : SpoolHolds Known s) {n : ℕ} {removed : Bool}
    (htaken : ∀ id, s.idAt n = some id → RemovesTaken s.log (.removed id))
    (hE : agentEffect False s (.remove n) removed s') : SpoolHolds Known s' := by
  cases removed with
  | false =>
    obtain ⟨-, rfl⟩ := hE
    exact h.interrupted _
  | true =>
    obtain rfl : s' = s.drop n := hE
    exact h.drop htaken

theorem wp_drainLoop_holds {fuel : ℕ} (h : SpoolHolds Known s) :
    (drainLoop fuel).wp (agentEffect False) (SpoolHolds Known)
      (fun _ s' => SpoolHolds Known s') s := by
  induction fuel generalizing s with
  | zero => exact fun cut => nomatch cut
  | succ fuel ih =>
    rw [drainLoop]
    refine wp_seq (wp_front_holds h) ?_
    rintro found s₁ ⟨h₁, hfound⟩
    match found with
    | none => exact h₁
    | some none => exact h₁
    | some (some (n, item)) =>
      obtain ⟨f, hf, hitem⟩ := hfound n item rfl
      refine wp_seq (wp_post_holds h₁ (h₁.spooled n f item hf hitem)) ?_
      intro err s₂ hdone
      -- the file still holds the batch that was posted
      have hid : s₂.idAt n = some item.batchID := by
        rw [AgentState.idAt, hdone.dir, hf, Option.bind_some, hitem]
        rfl
      split_ifs with htaken hrejected
      · intro removed s₃ hE
        have h₃ := hdone.holds.remove (fun id hid' => by
          rintro id' c b ⟨⟩ hlast
          obtain rfl := Option.some.inj (hid.symm.trans hid')
          cases (hdone.taken htaken).symm.trans hlast
          rfl) hE
        refine ⟨h₃, ?_⟩
        cases removed with
        | false => exact h₃
        | true => exact ih h₃
      · intro removed s₃ hE
        have h₃ := hdone.holds.remove (fun id _ id' c b _ hlast =>
          absurd hlast (hdone.quiet htaken c b)) hE
        exact ⟨h₃, ih h₃⟩
      · exact hdone.holds

theorem calls_relist (names : List ℕ) : (relist names).Calls (AgentOp.Files Known) := by
  rw [relist]
  cases names.getLast? with
  | none => trivial
  | some last =>
    refine ⟨trivial, fun size => ?_⟩
    cases size with
    | some size => trivial
    | none => exact ⟨trivial, fun _ => trivial⟩

/-- `Put` works on files, and puts its batch into the spool. -/
theorem calls_put {maxBytes : ℕ} {b : Batch} (hb : Known b) :
    (put maxBytes b).Calls (AgentOp.Files Known) := by
  unfold put
  split_ifs
  · exact calls_ret
  simp only [call_bind, ret_bind]
  refine ⟨trivial, fun queuedAt => ?_⟩
  beta_reduce
  have hfile : ∀ item, (SpoolItem.mk b queuedAt).toFile.item = some item →
      Known item.toBatch := by
    rintro item heq
    obtain rfl := Option.some.inj heq
    exact hb
  generalize (SpoolItem.mk b queuedAt).toFile = file at hfile ⊢
  split_ifs
  · exact calls_ret
  refine ⟨trivial, fun names => ?_⟩
  cases names with
  | none => exact calls_ret
  | some names =>
    refine (calls_makeRoom (fun _ => trivial) (fun _ => trivial) names).bind fun room => ?_
    cases room with
    | false => exact calls_ret
    | true =>
      refine (calls_relist names).bind fun names => ?_
      cases names with
      | none => exact calls_ret
      | some names =>
        refine ⟨trivial, fun written => ?_⟩
        cases written with
        | false => exact calls_ret
        | true => exact ⟨hfile, fun _ => trivial⟩

theorem wp_put_holds {maxBytes : ℕ} {b : Batch} (h : SpoolHolds Known s) (hquiet : Quiet s.log)
    (hb : Known b) : (put maxBytes b).wp (agentEffect False) (SpoolHolds Known)
      (fun _ s' => SpoolHolds Known s') s := by
  have hstep : ∀ s o r s', o.Files Known → agentEffect False s o r s' →
      SpoolHolds Known s ∧ Quiet s.log → SpoolHolds Known s' ∧ Quiet s'.log :=
    fun _ _ _ _ ho hE h => h.1.files h.2 ho hE
  exact wp_mono (fun _ => And.left) (fun _ _ => And.left)
    (wp_of_calls (calls_put hb) hstep ⟨h, hquiet⟩)

/-- **A call with a spool.** -/
theorem wp_sendBatch_holds {fuel maxBytes : ℕ} {b : Batch} (h : SpoolHolds Known s)
    (hb : Known b) : (sendBatch fuel (some maxBytes) b).wp (agentEffect False) (SpoolHolds Known)
      (fun _ s' => SpoolHolds Known s') s := by
  have hdrain : (drain fuel).wp (agentEffect False) (SpoolHolds Known)
      (fun _ s' => SpoolHolds Known s') s := by
    intro err s₁ hE
    obtain ⟨h₁, -⟩ := h.posts (o := .ctxErr .caller) trivial hE
    refine ⟨h₁, ?_⟩
    cases err with
    | none => exact wp_drainLoop_holds h₁
    | some err => exact h₁
  unfold sendBatch
  simp only [Option.isSome_some, if_true]
  refine wp_seq hdrain fun _ s₁ h₁ => ?_
  refine wp_seq (wp_post_holds h₁ hb) fun err s₂ hdone => ?_
  split_ifs with hfinal
  · exact hdone.holds
  · have herr : err ≠ none := fun hnone => hfinal (.inl hnone)
    exact wp_seq (wp_put_holds hdone.holds (hdone.quiet herr) hb) fun _ _ h => h

/-- A call without a spool posts its batch. -/
theorem calls_sendBatch_none {fuel : ℕ} {b : Batch} (hb : Known b) :
    (sendBatch fuel none b).Calls (AgentOp.Posts Known) := by
  unfold sendBatch
  simp only [Option.isSome_none, Bool.false_eq_true, if_false, pure_def]
  exact (calls_post trivial trivial fun _ => hb).bind fun _ => trivial

end Argus
