import Argus.Agent.Drain

/-!
# What a drain works off

A drain takes the files of the spool from the front, one after the other. `drain_works_off` says
which ones it is done with, whatever the surroundings answer: those before some place, of which the
readable ones have been settled, each with one answer of the hub and in the order of the spool,
while nothing behind that place has been touched, and none at all when the context of the caller is
done before it begins. `drain_empties` is the other half: with a hub
that settles one of five attempts the place is the end of the spool.
-/

namespace Argus

open Foundations Program

/-! ### Settled batches -/

/-- The batch that a call settles: the hub has taken it, or refuses it for good. -/
def AgentCall.settles : AgentCall → Option Batch
  | ⟨.postOnce _ _ b, r⟩ => if retryable r then none else some b
  | _ => none

/-- The batches that are settled, in the order of the calls. -/
def settled (calls : List AgentCall) : List Batch := calls.filterMap AgentCall.settles

@[simp] theorem settled_nil : settled [] = [] := rfl

@[simp] theorem settled_append (calls calls' : List AgentCall) :
    settled (calls ++ calls') = settled calls ++ settled calls' := List.filterMap_append ..

theorem settled_cons_of_none {c : AgentCall} (h : c.settles = none) (calls : List AgentCall) :
    settled (c :: calls) = settled calls := List.filterMap_cons_none h

theorem settled_postOnce (c : Ctx) (attempt : ℕ) (b : Batch) (r : Option PostErr)
    (calls : List AgentCall) : settled (⟨.postOnce c attempt b, r⟩ :: calls) =
      (if retryable r then [] else [b]) ++ settled calls := by
  rw [settled, List.filterMap_cons, AgentCall.settles]
  cases retryable r <;> rfl

/-- The batch of a file that can be read. -/
def SpoolFile.batch (f : SpoolFile) : Option Batch := f.item.map SpoolItem.toBatch

/-- The batches of files, in their order. -/
def batchesOf (files : List (ℕ × SpoolFile)) : List Batch := files.filterMap fun e => e.2.batch

/-- Among the calls of a program are only answers that are given. -/
theorem Outcomes.answer_of_mem_trace {w : Outcomes} {α : Type} {p : AgentM α} {s : DrainState}
    {c : AgentCall} (h : c ∈ p.trace w.answer s) : ∃ s₁ s₂, w.answer s₁ c.1 = some (c.2, s₂) := by
  induction p generalizing s with
  | ret a => exact absurd h List.not_mem_nil
  | call o k ih =>
    cases hanswer : w.answer s o with
    | none =>
      rw [trace, hanswer] at h
      exact absurd h List.not_mem_nil
    | some rs =>
      rw [trace_call hanswer] at h
      rcases List.mem_cons.mp h with rfl | h
      · exact ⟨s, rs.2, hanswer⟩
      · exact ih rs.1 h

/-! ### One post -/

/-- What a part of a post comes to: an error that is transient, or the settled batch. -/
structure Outcomes.Settles (w : Outcomes) (b : Batch) (p : AgentM (Option PostErr)) (s : DrainState)
    (err : Option PostErr) (s' : DrainState) : Prop where
  replay : p.replay w.answer s = some (err, s')
  dir : s'.dir = s.dir
  settled : settled (p.trace w.answer s) = if retryable err then [] else [b]

theorem Outcomes.settles_ret {w : Outcomes} {err : Option PostErr} (h : retryable err = true)
    (b : Batch) (s : DrainState) : w.Settles b (.ret err) s err s :=
  ⟨rfl, rfl, by rw [trace_ret, settled_nil, if_pos h]⟩

/-- A call that settles nothing, then the rest. -/
theorem Outcomes.settles_call {w : Outcomes} {b : Batch} {o : AgentOp}
    {k : o.Answer → AgentM (Option PostErr)} {s s₁ s' : DrainState} {r : o.Answer}
    {err : Option PostErr} (h : w.answer s o = some (r, s₁)) (hdir : s₁.dir = s.dir)
    (hcall : AgentCall.settles ⟨o, r⟩ = none) (hk : w.Settles b (k r) s₁ err s') :
    w.Settles b (.call o k) s err s' where
  replay := (replay_call h).trans hk.replay
  dir := hk.dir.trans hdir
  settled := by rw [trace_call h, settled_cons_of_none hcall, hk.settled]

/-- A look at the context of the replay while there is time. -/
theorem Outcomes.settles_live {w : Outcomes} {b : Batch}
    {k : Option CtxErr → AgentM (Option PostErr)} {s s' : DrainState} {err : Option PostErr}
    (h : w.ended s.calls = false) (hk : w.Settles b (k none) s.next err s') :
    w.Settles b (.call (.ctxErr .replay) k) s err s' :=
  Outcomes.settles_call (w.answer_replay h) rfl rfl hk

/-- A wait, then the rest. -/
theorem Outcomes.settles_wait {w : Outcomes} {b : Batch} {k : Bool → AgentM (Option PostErr)}
    {s s' : DrainState} {err : Option PostErr} {waited : Bool} (h : w.waits s.calls = waited)
    (hk : w.Settles b (k waited) s.next err s') :
    w.Settles b (.call (.wait .replay) k) s err s' :=
  Outcomes.settles_call (congrArg (fun r => some (r, s.next)) h) rfl rfl hk

/-- An attempt: its answer settles the batch, or is transient and the loop goes on. -/
theorem Outcomes.settles_attempt {w : Outcomes} {b : Batch} {n attempt : ℕ} {s : DrainState}
    (h : retryable (w.hub s.calls) = true → ∃ err s',
      w.Settles b (postLoop .replay b n (w.hub s.calls)) s.next err s') :
    ∃ err s', w.Settles b (postOnce .replay attempt b >>= fun last =>
      if last = none ∨ (!retryable last) = true then pure last else postLoop .replay b n last)
      s err s' := by
  have hanswer : w.answer s (.postOnce .replay attempt b) = some (w.hub s.calls, s.next) := rfl
  have hsettled : ∀ p : AgentM (Option PostErr), settled
      ((⟨.postOnce .replay attempt b, w.hub s.calls⟩ : AgentCall) :: p.trace w.answer s.next) =
        (if retryable (w.hub s.calls) then [] else [b]) ++ settled (p.trace w.answer s.next) :=
    fun p => settled_postOnce ..
  simp only [call_bind, ret_bind]
  cases hhub : retryable (w.hub s.calls) with
  | true =>
    obtain ⟨err, s', hrest⟩ := h hhub
    have hgoes : ¬ (w.hub s.calls = none ∨ (!retryable (w.hub s.calls)) = true) := by
      rintro (hnone | hperm)
      · rw [hnone] at hhub
        exact absurd hhub (by decide)
      · rw [hhub] at hperm
        exact absurd hperm (by decide)
    refine ⟨err, s', ?_, hrest.dir, ?_⟩
    · rw [replay_call hanswer, if_neg hgoes]
      exact hrest.replay
    · rw [trace_call hanswer, if_neg hgoes, hsettled, if_pos hhub, List.nil_append, hrest.settled]
  | false =>
    have hstops : w.hub s.calls = none ∨ (!retryable (w.hub s.calls)) = true := by
      rw [hhub]
      exact .inr rfl
    refine ⟨w.hub s.calls, s.next, ?_, rfl, ?_⟩
    · rw [replay_call hanswer, if_pos hstops]
      rfl
    · rw [trace_call hanswer, if_pos hstops, hsettled, hhub]
      rfl

/-- The loop of a post with transient failures so far. -/
theorem Outcomes.settles_postLoop (w : Outcomes) (b : Batch) {n : ℕ} {last : Option PostErr}
    (h : retryable last = true ∨ last = none ∧ n = retryAttempts) (s : DrainState) :
    ∃ err s', w.Settles b (postLoop .replay b n last) s err s' := by
  induction n generalizing last s with
  | zero =>
    rcases h with h | ⟨-, h⟩
    · exact ⟨last, s, Outcomes.settles_ret h b s⟩
    · exact absurd h (by decide)
  | succ n ih =>
    rw [postLoop]
    simp only [call_bind, ret_bind]
    -- what a context that is done leaves is no permanent error
    have hover : retryable (last.or (some .transport)) = true := by
      rcases h with h | ⟨rfl, -⟩
      · cases last with
        | none => rfl
        | some err => exact h
      · rfl
    cases hended : w.ended s.calls with
    | true =>
      exact ⟨_, _, Outcomes.settles_call (w.answer_replay hended) rfl rfl
        (Outcomes.settles_ret hover b s.next)⟩
    | false =>
      have hattempt : ∀ s : DrainState, ∃ err s', w.Settles b
          (postOnce .replay (retryAttempts - n) b >>= fun last =>
            if last = none ∨ (!retryable last) = true then pure last
            else postLoop .replay b n last) s err s' :=
        fun s => Outcomes.settles_attempt fun hhub => ih (.inl hhub) s.next
      by_cases hlater : retryAttempts - n > 1
      · -- a later attempt waits first
        have hlast : retryable last = true := by
          rcases h with h | ⟨-, h⟩
          · exact h
          · exact absurd hlater (by omega)
        cases hwaits : w.waits s.next.calls with
        | false =>
          refine ⟨last, s.next.next, Outcomes.settles_live hended ?_⟩
          simp only [if_pos hlater]
          exact Outcomes.settles_wait hwaits (Outcomes.settles_ret hlast b s.next.next)
        | true =>
          obtain ⟨err, s', hrest⟩ := hattempt s.next.next
          refine ⟨err, s', Outcomes.settles_live hended ?_⟩
          simp only [if_pos hlater]
          exact Outcomes.settles_wait hwaits hrest
      · obtain ⟨err, s', hrest⟩ := hattempt s.next
        refine ⟨err, s', Outcomes.settles_live hended ?_⟩
        simp only [if_neg hlater]
        exact hrest

/-- **One post settles its batch, or it fails for the moment.** -/
theorem Outcomes.settles_post (w : Outcomes) (b : Batch) (s : DrainState) :
    ∃ err s', w.Settles b (post .replay b) s err s' :=
  w.settles_postLoop b (.inr ⟨rfl, rfl⟩) s

/-! ### The front of the spool -/

/-- What `front` leaves of the spool: corrupt files have gone from its front, nothing is settled,
and the item is that of the first file that is left. -/
structure FrontFiles (w : Outcomes) (p : AgentM (Option (Option (ℕ × SpoolItem)))) (s : DrainState)
    (r : Option (Option (ℕ × SpoolItem))) (s' : DrainState) : Prop where
  gone : ∃ bad, s.dir.entries = bad ++ s'.dir.entries ∧ batchesOf bad = []
  quiet : settled (p.trace w.answer s) = []
  found : ∀ n item, r = some (some (n, item)) →
    ∃ file rest, s'.dir.entries = (n, file) :: rest ∧ file.item = some item
  empty : r = some none → s'.dir.entries = []
  works : (∀ k, w.works k = true) → r ≠ none

namespace FrontFiles

variable {w : Outcomes} {s s₁ s' : DrainState} {r : Option (Option (ℕ × SpoolItem))}

/-- An error, which a file operation was the reason for. -/
theorem failed {k : ℕ} (h : w.works k = false) : FrontFiles w (.ret none) s none s where
  gone := ⟨[], rfl, rfl⟩
  quiet := rfl
  found _ _ h := absurd h (by simp)
  empty h := absurd h (by simp)
  works hworks := absurd (hworks k) (by rw [h]; decide)

theorem call {o : AgentOp} {k : o.Answer → AgentM (Option (Option (ℕ × SpoolItem)))}
    {answer : o.Answer} (h : w.answer s o = some (answer, s₁)) (hdir : s₁.dir = s.dir)
    (hquiet : AgentCall.settles ⟨o, answer⟩ = none) (hk : FrontFiles w (k answer) s₁ r s') :
    FrontFiles w (.call o k) s r s' :=
  { hk with
    gone := hdir ▸ hk.gone
    quiet := by rw [trace_call h, settled_cons_of_none hquiet, hk.quiet] }

end FrontFiles

theorem entries_of_keys {dir : SortedMap ℕ SpoolFile} {n : ℕ} {ks : List ℕ}
    (h : dir.keys = n :: ks) : ∃ file rest, dir.entries = (n, file) :: rest ∧
      dir.get? n = some file := by
  obtain ⟨⟨m, file⟩, rest, hentries, rfl, -⟩ := List.map_eq_cons_iff.mp h
  exact ⟨file, rest, hentries, SortedMap.mem_entries.mp (hentries ▸ List.mem_cons_self)⟩

theorem front_files {w : Outcomes} {fuel : ℕ} {s s' : DrainState}
    {r : Option (Option (ℕ × SpoolItem))} (h : (front fuel).replay w.answer s = some (r, s')) :
    FrontFiles w (front fuel) s r s' := by
  induction fuel generalizing s with
  | zero => exact absurd h (by simp [front, cutOff, replay, Outcomes.answer])
  | succ fuel ih =>
    rw [front] at h ⊢
    simp only [call_bind, ret_bind] at h ⊢
    have hnames : w.answer s .names =
      some (if w.works s.calls then some s.dir.keys else none, s.next) := rfl
    rw [replay_call hnames] at h
    cases hlist : w.works s.calls with
    | false =>
      rw [hlist] at hnames h
      obtain ⟨rfl, rfl⟩ := Prod.mk.inj (Option.some.inj h)
      exact .call hnames rfl rfl (.failed hlist)
    | true =>
      rw [hlist] at hnames h
      refine .call hnames rfl rfl ?_
      cases hkeys : s.dir.keys with
      | nil =>
        simp only [if_true, hkeys] at h ⊢
        obtain ⟨rfl, rfl⟩ := Prod.mk.inj (Option.some.inj h)
        have hentries : s.dir.entries = [] := List.map_eq_nil_iff.mp hkeys
        exact ⟨⟨[], rfl, rfl⟩, rfl, fun _ _ hr => absurd hr (by simp), fun _ => hentries,
          fun _ => by simp⟩
      | cons n ks =>
        simp only [if_true, hkeys] at h ⊢
        obtain ⟨file, rest, hentries, hfile⟩ := entries_of_keys hkeys
        have hread : w.answer s.next (.readFile n) =
            some (if w.works s.next.calls then some file.item else none, s.next.next) := by
          rw [Outcomes.answer, DrainState.dir_next, hfile, Option.map_some]
        rw [replay_call hread] at h
        cases hworks : w.works s.next.calls with
        | false =>
          rw [hworks] at hread h
          obtain ⟨rfl, rfl⟩ := Prod.mk.inj (Option.some.inj h)
          exact .call hread rfl rfl (.failed hworks)
        | true =>
          rw [hworks] at hread h
          refine .call hread rfl rfl ?_
          cases hitem : file.item with
          | some item =>
            simp only [if_true, hitem] at h ⊢
            obtain ⟨rfl, rfl⟩ := Prod.mk.inj (Option.some.inj h)
            refine ⟨⟨[], rfl, rfl⟩, rfl, fun m item' hr => ?_, fun hr => absurd hr (by simp),
              fun _ => by simp⟩
            obtain ⟨rfl, rfl⟩ := Prod.mk.inj (Option.some.inj (Option.some.inj hr))
            exact ⟨file, rest, hentries, hitem⟩
          | none =>
            simp only [if_true, hitem] at h ⊢
            -- a corrupt file goes out of the way, or the round ends
            have hrename : w.answer s.next.next (.renameBad n) = some
              (if w.works s.next.next.calls then (true, s.next.next.drop n)
                else (false, s.next.next.next)) := rfl
            cases hmoved : w.works s.next.next.calls with
            | false =>
              rw [hmoved] at hrename
              rw [replay_call hrename] at h
              obtain ⟨rfl, rfl⟩ := Prod.mk.inj (Option.some.inj h)
              exact .call hrename rfl rfl (.failed hmoved)
            | true =>
              rw [hmoved] at hrename
              rw [replay_call hrename] at h
              have hrest := ih h
              have hgone : (s.next.next.drop n).dir.entries = rest :=
                SortedMap.entries_erase_head hentries
              obtain ⟨bad, hbad, hnone⟩ := hrest.gone
              refine ⟨⟨(n, file) :: bad, ?_, ?_⟩, ?_, hrest.found, hrest.empty, hrest.works⟩
              · rw [List.cons_append, ← hbad, hgone]
                exact hentries
              · rw [batchesOf, List.filterMap_cons_none (by rw [SpoolFile.batch, hitem]; rfl)]
                exact hnone
              · rw [trace_call hrename, settled_cons_of_none rfl]
                exact hrest.quiet

/-! ### The loop -/

/-- The first file holds a batch whose post fails for the moment. -/
def Outcomes.Unsettled (w : Outcomes) (files : List (ℕ × SpoolFile)) : Prop :=
  ∃ e ∈ files.head?, ∃ item, e.2.item = some item ∧ ∃ s err s',
    (post .replay item.toBatch).replay w.answer s = some (err, s') ∧ retryable err = true

/-- What is worked off of some files: those before a place are gone, their batches are settled, one
after the other, and the rest is there. Unless a file operation fails the rest is nothing, or its
first batch fails for the moment. -/
structure Outcomes.WorksOff (w : Outcomes) (files : List (ℕ × SpoolFile)) (calls : List AgentCall)
    (rest : List (ℕ × SpoolFile)) : Prop where
  split : ∃ gone, files = gone ++ rest ∧ settled calls = batchesOf gone
  stops : (∀ k, w.works k = true) → rest = [] ∨ w.Unsettled rest

/-- Before what is worked off other files have gone. -/
theorem Outcomes.WorksOff.append {w : Outcomes} {files rest : List (ℕ × SpoolFile)}
    {calls : List AgentCall} (h : w.WorksOff files calls rest) {gone : List (ℕ × SpoolFile)}
    {before : List AgentCall} (hbefore : settled before = batchesOf gone) :
    w.WorksOff (gone ++ files) (before ++ calls) rest := by
  obtain ⟨gone', hsplit, hsettled⟩ := h.split
  refine ⟨⟨gone ++ gone', ?_, ?_⟩, h.stops⟩
  · rw [hsplit, List.append_assoc]
  · rw [settled_append, hbefore, hsettled, batchesOf, batchesOf, batchesOf, List.filterMap_append]

/-- A settled batch is removed, and the loop goes on. -/
theorem drainNext_of_settled {w : Outcomes} {fuel n : ℕ} {err : Option PostErr} {s : DrainState}
    (h : retryable err = false)
    (hremoved : ⟨.remove n, false⟩ ∉ (drainNext fuel n err).trace w.answer s) :
    (drainNext fuel n err).replay w.answer s = (drainLoop fuel).replay w.answer (s.drop n) ∧
      (drainNext fuel n err).trace w.answer s =
        ⟨.remove n, true⟩ :: (drainLoop fuel).trace w.answer (s.drop n) := by
  -- accepted or refused for good, the first thing is the removal
  obtain ⟨k, hk, hgoes⟩ : ∃ k : Bool → AgentM Unit,
      drainNext fuel n err = .call (.remove n) k ∧ k true = drainLoop fuel := by
    rw [drainNext]
    by_cases hnone : err = none
    · rw [if_pos hnone]
      exact ⟨_, rfl, rfl⟩
    · rw [if_neg hnone, h]
      exact ⟨_, rfl, rfl⟩
  have hremove : w.answer s (.remove n) =
    some (if w.works s.calls then (true, s.drop n) else (false, s.next)) := rfl
  rw [hk] at hremoved ⊢
  cases hworks : w.works s.calls with
  | false =>
    rw [hworks] at hremove
    rw [trace_call hremove] at hremoved
    exact absurd List.mem_cons_self hremoved
  | true =>
    rw [hworks] at hremove
    rw [replay_call hremove, trace_call hremove, hgoes]
    exact ⟨rfl, rfl⟩

/-- A batch that fails for the moment ends the loop. -/
theorem drainNext_of_retryable {err : Option PostErr} (h : retryable err = true) (fuel n : ℕ) :
    drainNext fuel n err = pure () := by
  have hnone : err ≠ none := by
    rintro rfl
    exact absurd h (by decide)
  rw [drainNext, if_neg hnone, h]
  rfl

theorem drainLoop_worksOff {w : Outcomes} {fuel : ℕ} {s s' : DrainState}
    (h : (drainLoop fuel).replay w.answer s = some ((), s'))
    (hremoved : ∀ n, ⟨.remove n, false⟩ ∉ (drainLoop fuel).trace w.answer s) :
    w.WorksOff s.dir.entries ((drainLoop fuel).trace w.answer s) s'.dir.entries := by
  induction fuel generalizing s with
  | zero => exact absurd h (by simp [drainLoop, cutOff, replay, Outcomes.answer])
  | succ fuel ih =>
    rw [drainLoop_succ, replay_bind] at h
    rw [drainLoop_succ, trace_bind] at hremoved ⊢
    cases hrun : (front fuel).replay w.answer s with
    | none =>
      rw [hrun] at h
      exact absurd h (by simp)
    | some run =>
      obtain ⟨r, s₁⟩ := run
      have hfront := front_files hrun
      -- the corrupt files in front are gone, and none of them was a batch
      obtain ⟨bad, hbad, hnone⟩ := hfront.gone
      have hquiet : settled ((front fuel).trace w.answer s) = batchesOf bad := by
        rw [hfront.quiet, hnone]
      rw [hrun] at h hremoved
      simp only [Option.bind_some, Option.elim_some] at h hremoved ⊢
      rw [hbad]
      refine Outcomes.WorksOff.append ?_ hquiet
      obtain - | - | ⟨n, item⟩ := r
      · obtain rfl : s₁ = s' := (Prod.mk.inj (Option.some.inj h)).2
        exact ⟨⟨[], rfl, rfl⟩, fun hworks => absurd rfl (hfront.works hworks)⟩
      · obtain rfl : s₁ = s' := (Prod.mk.inj (Option.some.inj h)).2
        exact ⟨⟨[], rfl, rfl⟩, fun _ => .inl (hfront.empty rfl)⟩
      obtain ⟨file, rest, hentries, hitem⟩ := hfront.found n item rfl
      have hbatch : batchesOf [(n, file)] = [item.toBatch] := by
        rw [batchesOf, List.filterMap_cons, SpoolFile.batch, hitem]
        rfl
      obtain ⟨err, s₂, hpost⟩ := w.settles_post item.toBatch s₁
      have hnext : drainFound fuel (some (some (n, item))) =
        post .replay item.toBatch >>= drainNext fuel n := rfl
      rw [hnext, replay_bind, hpost.replay] at h
      rw [hnext, trace_bind, hpost.replay] at hremoved ⊢
      simp only [Option.bind_some, Option.elim_some] at h hremoved ⊢
      cases hretry : retryable err with
      | true =>
        rw [drainNext_of_retryable hretry] at h ⊢
        obtain rfl : s₂ = s' := (Prod.mk.inj (Option.some.inj h)).2
        refine ⟨⟨[], ?_, ?_⟩, fun _ => .inr ?_⟩
        · rw [hpost.dir]
          rfl
        · rw [pure_def, trace_ret, List.append_nil, hpost.settled, if_pos hretry]
          rfl
        · rw [hpost.dir, hentries]
          exact ⟨_, rfl, item, hitem, s₁, err, s₂, hpost.replay, hretry⟩
      | false =>
        have hkept : ⟨.remove n, false⟩ ∉ (drainNext fuel n err).trace w.answer s₂ := fun hmem =>
          hremoved n (List.mem_append_right _ (List.mem_append_right _ hmem))
        obtain ⟨hreplay, htrace⟩ := drainNext_of_settled hretry hkept
        have hdir : (s₂.drop n).dir.entries = rest := by
          rw [DrainState.dir_drop, hpost.dir]
          exact SortedMap.entries_erase_head hentries
        rw [hreplay] at h
        rw [htrace] at hremoved ⊢
        have hrest := ih h fun m hmem => hremoved m
          (List.mem_append_right _ (List.mem_append_right _ (List.mem_cons_of_mem _ hmem)))
        have hsettled : settled ((post .replay item.toBatch).trace w.answer s₁ ++
            [⟨.remove n, true⟩]) = batchesOf [(n, file)] := by
          rw [settled_append, hpost.settled, hretry, hbatch]
          rfl
        rw [hdir] at hrest
        rw [hentries, List.append_cons]
        exact hrest.append hsettled

/-- A drain whose file operations work removes what it tries to. -/
theorem Outcomes.remove_of_works {w : Outcomes} (hworks : ∀ k, w.works k = true) {α : Type}
    {p : AgentM α} {s : DrainState} (n : ℕ) : ⟨.remove n, false⟩ ∉ p.trace w.answer s := by
  intro hmem
  obtain ⟨s₁, s₂, hanswer⟩ := Outcomes.answer_of_mem_trace hmem
  have hremove : w.answer s₁ (.remove n) = some (true, s₁.drop n) := by
    rw [Outcomes.answer, hworks]
    rfl
  have hfailed : w.answer s₁ (.remove n) = some (false, s₂) := hanswer
  rw [hremove] at hfailed
  exact absurd (Prod.mk.inj (Option.some.inj hfailed)).1 (by decide)

/-! ### The whole drain -/

/-- **Key result: a drain works off the spool from the front.** Whatever the surroundings answer,
as long as no removal fails and the context of the caller lives: the files before some place are
gone, the readable ones of them have been settled, each by one answer and in the order of the spool,
and the rest is untouched. With file operations that work the drain is at the end of the spool then,
or at a batch that fails for the moment. When the context of the caller is done the drain asks for
no more than that, and nothing is touched. -/
theorem drain_works_off {w : Outcomes} {dir : SortedMap ℕ SpoolFile} {fuel : ℕ} {s' : DrainState}
    (h : (drain fuel).replay w.answer ⟨dir, 0⟩ = some ((), s'))
    (hremoved : ∀ n, ⟨.remove n, false⟩ ∉ w.drainCalls dir fuel) :
    (w.parent = none → w.WorksOff dir.entries (w.drainCalls dir fuel) s'.dir.entries) ∧
      (w.parent ≠ none → s'.dir = dir ∧ w.drainCalls dir fuel = [⟨.ctxErr .caller, w.parent⟩]) := by
  have hasked : w.answer ⟨dir, 0⟩ (.ctxErr .caller) = some (w.parent, ⟨dir, 1⟩) := rfl
  rw [Outcomes.drainCalls, drain] at hremoved ⊢
  rw [drain] at h
  simp only [call_bind, ret_bind, trace_call hasked, replay_call hasked] at h hremoved ⊢
  cases hparent : w.parent with
  | none =>
    rw [hparent] at h hremoved
    have hloop := drainLoop_worksOff h fun n hmem => hremoved n (List.mem_cons_of_mem _ hmem)
    have hnothing : settled [⟨.ctxErr .caller, none⟩] = batchesOf [] := rfl
    exact ⟨fun _ => hloop.append hnothing, fun hdone => absurd rfl hdone⟩
  | some err =>
    rw [hparent] at h
    cases h
    exact ⟨fun hlive => absurd hlive (Option.some_ne_none err), fun _ => ⟨rfl, rfl⟩⟩

/-- A spool with a corrupt file between two batches. -/
def mixedSpool : SortedMap ℕ SpoolFile :=
  SortedMap.ofList [(1, stuckFile), (2, ⟨7, none⟩), (3, stuckFile)]

/-- A hub that is there for the first five calls, and then busy. -/
def goneOutcomes : Outcomes where
  parent := none
  ended _ := false
  waits _ := false
  hub k := if k < 5 then none else some (.status 503)
  works _ := true

/-- The drain of this spool leaves its last file. -/
theorem drain_works_off_gone : ∃ s' : DrainState, s'.dir.keys = [3] ∧
    goneOutcomes.WorksOff mixedSpool.entries (goneOutcomes.drainCalls mixedSpool 4)
      s'.dir.entries := by
  obtain ⟨s', hrun, hkeys⟩ : ∃ s', (drain 4).replay goneOutcomes.answer ⟨mixedSpool, 0⟩ =
    some ((), s') ∧ s'.dir.keys = [3] := ⟨_, rfl, rfl⟩
  exact ⟨s', hkeys, (drain_works_off hrun
    fun n => Outcomes.remove_of_works (fun _ => rfl) n).1 rfl⟩

/-! ### A hub that settles what it gets -/

/-- Of what comes after an attempt: its answer settles the batch, or one of the later ones does. -/
theorem Outcomes.settled_attempt {w : Outcomes} {b : Batch} {n : ℕ} {r : Option PostErr}
    {s : DrainState} (h : retryable r = true → ∃ err s',
      (postLoop .replay b n r).replay w.answer s = some (err, s') ∧ retryable err = false) :
    ∃ err s', (if r = none ∨ (!retryable r) = true then pure r
      else postLoop .replay b n r : AgentM (Option PostErr)).replay w.answer s = some (err, s') ∧
        retryable err = false := by
  split_ifs with hsettled
  · refine ⟨r, s, rfl, ?_⟩
    rcases hsettled with rfl | hperm
    · rfl
    · simpa using hperm
  · rw [not_or, Bool.not_eq_true, Bool.not_eq_false'] at hsettled
    exact h hsettled.2

/-- Later attempts of a post: one of them settles the batch. -/
theorem Outcomes.settled_postLoop {w : Outcomes} {b : Batch} (hended : ∀ k, w.ended k = false)
    (hwaits : ∀ k, w.waits k = true) {n : ℕ} (hn : n < retryAttempts) {last : Option PostErr}
    {s : DrainState} (hhub : ∃ j < n, retryable (w.hub (s.calls + 2 + 3 * j)) = false) :
    ∃ err s', (postLoop .replay b n last).replay w.answer s = some (err, s') ∧
      retryable err = false := by
  induction n generalizing last s with
  | zero =>
    obtain ⟨j, hj, -⟩ := hhub
    exact absurd hj (Nat.not_lt_zero j)
  | succ n ih =>
    have hlater : retryAttempts - n > 1 := by omega
    have hlive : w.answer s (.ctxErr .replay) = some (none, s.next) := w.answer_replay (hended _)
    have hwait : w.answer s.next (.wait .replay) = some (true, s.next.next) :=
      congrArg (fun r => some (r, s.next.next)) (hwaits _)
    have hpost : w.answer s.next.next (.postOnce .replay (retryAttempts - n) b) =
      some (w.hub (s.calls + 2), s.next.next.next) := rfl
    rw [postLoop]
    simp only [call_bind, ret_bind, if_pos hlater]
    rw [replay_call hlive, replay_call hwait]
    refine (Exists.imp fun _ => Exists.imp fun _ => And.imp_left (replay_call hpost).trans)
      (Outcomes.settled_attempt fun hretry => ih (by omega) ?_)
    -- the first of them was not the one
    obtain ⟨j, hj, hsettled⟩ := hhub
    cases j with
    | zero =>
      have hsettled' : retryable (w.hub (s.calls + 2)) = false := hsettled
      rw [hsettled'] at hretry
      exact absurd hretry (by decide)
    | succ j =>
      refine ⟨j, by omega, ?_⟩
      have hcalls : s.next.next.next.calls + 2 + 3 * j = s.calls + 2 + 3 * (j + 1) := by
        simp only [DrainState.calls_next]
        omega
      rw [hcalls]
      exact hsettled

/-- A hub that settles one of five attempts settles every post. -/
theorem Outcomes.settled_post {w : Outcomes} (hended : ∀ k, w.ended k = false)
    (hwaits : ∀ k, w.waits k = true)
    (hhub : ∀ k, ∃ j < retryAttempts, retryable (w.hub (k + 3 * j)) = false) (b : Batch)
    (s : DrainState) : ∃ err s', (post .replay b).replay w.answer s = some (err, s') ∧
      retryable err = false := by
  have hfirst : ¬ retryAttempts - 4 > 1 := by decide
  have hlive : w.answer s (.ctxErr .replay) = some (none, s.next) := w.answer_replay (hended _)
  have hpost : w.answer s.next (.postOnce .replay (retryAttempts - 4) b) =
    some (w.hub (s.calls + 1), s.next.next) := rfl
  rw [post, show retryAttempts = 4 + 1 from rfl, postLoop]
  simp only [call_bind, ret_bind, if_neg hfirst]
  rw [replay_call hlive]
  refine (Exists.imp fun _ => Exists.imp fun _ => And.imp_left (replay_call hpost).trans)
    (Outcomes.settled_attempt fun hretry => Outcomes.settled_postLoop hended hwaits (by decide) ?_)
  obtain ⟨j, hj, hsettled⟩ := hhub (s.calls + 1)
  cases j with
  | zero =>
    have hsettled' : retryable (w.hub (s.calls + 1)) = false := hsettled
    rw [hsettled'] at hretry
    exact absurd hretry (by decide)
  | succ j =>
    refine ⟨j, Nat.lt_of_succ_lt_succ hj, ?_⟩
    have hcalls : s.next.next.calls + 2 + 3 * j = s.calls + 1 + 3 * (j + 1) := by
      simp only [DrainState.calls_next]
      omega
    rw [hcalls]
    exact hsettled

/-- **Key result: a healthy hub gets the whole spool.** When the context of the caller lives, files
can be read and removed, the replays have time, and of five attempts one is not answered with a
transient failure, a drain returns with an empty spool: every batch that could be read has been
settled, once and in order. -/
theorem drain_empties {w : Outcomes} (dir : SortedMap ℕ SpoolFile) (hparent : w.parent = none)
    (hworks : ∀ k, w.works k = true) (hended : ∀ k, w.ended k = false)
    (hwaits : ∀ k, w.waits k = true)
    (hhub : ∀ k, ∃ j < retryAttempts, retryable (w.hub (k + 3 * j)) = false) :
    ∃ fuel s', (drain fuel).replay w.answer ⟨dir, 0⟩ = some ((), s') ∧ s'.dir.entries = [] ∧
      settled (w.drainCalls dir fuel) = batchesOf dir.entries := by
  have hnever : ¬ Repeats ((drainLoop (dir.keys.length + 2)).trace w.answer ⟨dir, 1⟩) := by
    rintro ⟨n, before, after, hcalls, -⟩
    have hmem : (⟨.remove n, false⟩ : AgentCall) ∈
        (drainLoop (dir.keys.length + 2)).trace w.answer ⟨dir, 1⟩ := by
      rw [hcalls]
      exact List.mem_append_right _ List.mem_cons_self
    exact Outcomes.remove_of_works hworks n hmem
  have hlive : w.answer ⟨dir, 0⟩ (.ctxErr .caller) = some (none, ⟨dir, 1⟩) := by
    rw [Outcomes.answer, hparent]
    rfl
  obtain ⟨⟨⟨⟩, s'⟩, hloop⟩ := Option.isSome_iff_exists.mp
    (drainLoop_returns w _ ⟨dir, 1⟩ hnever (Nat.lt_succ_self _))
  have hrun : (drain (dir.keys.length + 2)).replay w.answer ⟨dir, 0⟩ = some ((), s') :=
    (replay_call hlive).trans hloop
  have hoff := drainLoop_worksOff hloop fun n => Outcomes.remove_of_works hworks n
  have hempty : s'.dir.entries = [] := by
    rcases hoff.stops hworks with hnil | ⟨e, -, item, -, s₁, err, s₂, hpost, hretry⟩
    · exact hnil
    · obtain ⟨err', s₃, hsettled, hfinal⟩ := w.settled_post hended hwaits hhub item.toBatch s₁
      rw [hpost] at hsettled
      rw [(Prod.mk.inj (Option.some.inj hsettled)).1, hfinal] at hretry
      exact absurd hretry (by decide)
  obtain ⟨gone, hsplit, hbatches⟩ := hoff.split
  refine ⟨dir.keys.length + 2, s', hrun, hempty, ?_⟩
  have hcalls : w.drainCalls dir (dir.keys.length + 2) =
    ⟨.ctxErr .caller, none⟩ :: (drainLoop (dir.keys.length + 2)).trace w.answer ⟨dir, 1⟩ :=
    trace_call hlive
  rw [hempty, List.append_nil] at hsplit
  rw [hcalls, settled_cons_of_none rfl, hbatches]
  exact congrArg batchesOf hsplit.symm

/-- A hub that is busy at every other call. -/
def busyOutcomes : Outcomes where
  parent := none
  ended _ := false
  waits _ := true
  hub k := if k % 2 = 0 then some (.status 503) else none
  works _ := true

/-- Of two attempts, three calls apart, this hub takes one. -/
theorem busyOutcomes_hub (k : ℕ) :
    ∃ j < retryAttempts, retryable (busyOutcomes.hub (k + 3 * j)) = false := by
  by_cases hk : k % 2 = 0
  · have hodd : ¬ (k + 3 * 1) % 2 = 0 := by omega
    have hhub : busyOutcomes.hub (k + 3 * 1) = none := if_neg hodd
    exact ⟨1, by decide, by rw [hhub]; rfl⟩
  · have hhub : busyOutcomes.hub (k + 3 * 0) = none := if_neg hk
    exact ⟨0, by decide, by rw [hhub]; rfl⟩

/-- Its drain of that spool comes to the end. -/
theorem drain_empties_busy : ∃ fuel s',
    (drain fuel).replay busyOutcomes.answer ⟨mixedSpool, 0⟩ = some ((), s') ∧ s'.dir.entries = [] ∧
      settled (busyOutcomes.drainCalls mixedSpool fuel) = batchesOf mixedSpool.entries :=
  drain_empties mixedSpool rfl (fun _ => rfl) (fun _ => rfl) (fun _ => rfl) busyOutcomes_hub

end Argus
