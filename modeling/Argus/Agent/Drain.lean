import Argus.Agent.Client
import Argus.Foundations.SortedMap

/-!
# The end of a drain

`drain` of the agent's client, on its own: which items it posts, and whether it comes to an end.
Every outcome is the environment's: of each file operation, of each attempt to post, and of each
context. The outcomes are given by the number of the call that they are for, so that every sequence
of outcomes is among them.

The loop of `drain` has no counter. A round of it either returns or is done with a file, except
where the hub has rejected an item for good and its file cannot be removed: the loop goes on, and
the same file is in front again. `drain_returns_iff` says that nothing else can go wrong.
-/

namespace Argus

open Foundations Program

/-! ### Outcomes -/

/-- A call of the agent and its answer. -/
abbrev AgentCall : Type := Σ o : AgentOp, o.Answer

/-- What the surroundings of a drain do: the caller's context, and for the number of a call whether
the time of a replay is over, whether a wait comes to its end, the answer to an attempt, and whether
a file operation succeeds. -/
structure Outcomes where
  parent : Option CtxErr
  ended : ℕ → Bool
  waits : ℕ → Bool
  hub : ℕ → Option PostErr
  works : ℕ → Bool

/-- The spool directory, and the number of calls so far. -/
structure DrainState where
  dir : SortedMap ℕ SpoolFile
  calls : ℕ

namespace DrainState

/-- One more call, which changes nothing. -/
def next (s : DrainState) : DrainState := { s with calls := s.calls + 1 }

/-- One more call, after which a file is gone. -/
def drop (s : DrainState) (n : ℕ) : DrainState := ⟨s.dir.erase n, s.calls + 1⟩

@[simp] theorem dir_next (s : DrainState) : s.next.dir = s.dir := rfl

@[simp] theorem dir_drop (s : DrainState) (n : ℕ) : (s.drop n).dir = s.dir.erase n := rfl

@[simp] theorem calls_next (s : DrainState) : s.next.calls = s.calls + 1 := rfl

@[simp] theorem calls_drop (s : DrainState) (n : ℕ) : (s.drop n).calls = s.calls + 1 := rfl

end DrainState

/-- The answer to a call, and the state after it. A drain makes no other calls than these. -/
def Outcomes.answer (w : Outcomes) (s : DrainState) :
    (o : AgentOp) → Option (o.Answer × DrainState)
  | .ctxErr .caller => some (w.parent, s.next)
  | .ctxErr .replay => some (if w.ended s.calls then some .deadlineExceeded else none, s.next)
  | .wait _ => some (w.waits s.calls, s.next)
  | .postOnce .. => some (w.hub s.calls, s.next)
  | .names => some (if w.works s.calls then some s.dir.keys else none, s.next)
  | .readFile n =>
    some (if w.works s.calls then (s.dir.get? n).map SpoolFile.item else none, s.next)
  | .renameBad n => some (if w.works s.calls then (true, s.drop n) else (false, s.next))
  | .remove n => some (if w.works s.calls then (true, s.drop n) else (false, s.next))
  | _ => none

/-! ### What is posted -/

namespace AgentCall

/-- The file that was read last, after a call. -/
def file (file : Option ℕ) (c : AgentCall) : Option ℕ :=
  match c.1 with
  | .readFile n => some n
  | _ => file

/-- Whether a call is the first attempt of a post. -/
def posts (c : AgentCall) : Bool :=
  match c.1 with
  | .postOnce _ attempt _ => attempt == 1
  | _ => false

/-- Whether a call removes a file, or tries to. -/
def removes (c : AgentCall) : Bool :=
  match c.1 with
  | .remove _ => true
  | _ => false

end AgentCall

/-- The files whose items are posted, when `file` was read last before the calls. The attempts
inside `post` count as one. -/
def posted : Option ℕ → List AgentCall → List ℕ
  | _, [] => []
  | file, c :: calls => (if c.posts then file.toList else []) ++ posted (c.file file) calls

/-- A file is read from the front of the spool, and there is time to post its item. -/
def ReadAgain (n : ℕ) (calls : List AgentCall) : Prop :=
  ∃ names item, [⟨.names, some names⟩, ⟨.readFile n, some (some item)⟩,
    ⟨.ctxErr .replay, none⟩] <+: calls

/-- A file that could not be removed is read again with the calls that follow. -/
def Repeats (calls : List AgentCall) : Prop :=
  ∃ n before after, calls = before ++ ⟨.remove n, false⟩ :: after ∧ ReadAgain n after

theorem posted_append (file : Option ℕ) (calls calls' : List AgentCall) :
    posted file (calls ++ calls') =
      posted file calls ++ posted (calls.foldl AgentCall.file file) calls' := by
  induction calls generalizing file with
  | nil => rfl
  | cons c calls ih => rw [List.cons_append, posted, posted, ih, List.append_assoc]; rfl

/-- Nothing is posted without a first attempt. -/
theorem posted_eq_nil {file : Option ℕ} {calls : List AgentCall}
    (h : ∀ c ∈ calls, c.posts = false) : posted file calls = [] := by
  induction calls generalizing file with
  | nil => rfl
  | cons c calls ih =>
    rw [posted, h c List.mem_cons_self, ih fun c hc => h c (List.mem_cons_of_mem _ hc)]
    rfl

theorem repeats_nil : ¬ Repeats [] := by
  rintro ⟨n, before, after, h, -⟩
  exact absurd h.symm (by simp)

/-- Calls that remove nothing do not matter. -/
theorem repeats_append_iff {calls calls' : List AgentCall}
    (h : ∀ c ∈ calls, c.removes = false) : Repeats (calls ++ calls') ↔ Repeats calls' := by
  induction calls with
  | nil => rfl
  | cons c calls ih =>
    rw [← ih fun c hc => h c (List.mem_cons_of_mem _ hc)]
    constructor
    · rintro ⟨n, before, after, heq, hagain⟩
      cases before with
      | nil =>
        have hc := h c List.mem_cons_self
        rw [(List.cons.inj heq).1] at hc
        exact absurd hc (by simp [AgentCall.removes])
      | cons _ before => exact ⟨n, before, after, (List.cons.inj heq).2, hagain⟩
    · rintro ⟨n, before, after, heq, hagain⟩
      exact ⟨n, c :: before, after, congrArg (List.cons c) heq, hagain⟩

theorem repeats_remove_iff {n : ℕ} {ok : Bool} {calls : List AgentCall} :
    Repeats (⟨.remove n, ok⟩ :: calls) ↔ (ok = false ∧ ReadAgain n calls) ∨ Repeats calls := by
  constructor
  · rintro ⟨m, before, after, heq, hagain⟩
    cases before with
    | nil =>
      have hcall := (List.cons.inj heq).1
      obtain ⟨rfl⟩ : AgentOp.remove n = AgentOp.remove m := congrArg Sigma.fst hcall
      refine .inl ⟨eq_of_heq (Sigma.mk.inj hcall).2, ?_⟩
      rw [(List.cons.inj heq).2]
      exact hagain
    | cons _ before => exact .inr ⟨m, before, after, (List.cons.inj heq).2, hagain⟩
  · rintro (⟨rfl, hagain⟩ | ⟨m, before, after, rfl, hagain⟩)
    · exact ⟨n, [], calls, rfl, hagain⟩
    · exact ⟨m, _ :: before, after, rfl, hagain⟩

/-! ### One post -/

/-- A call that neither removes a file, nor reads one, nor is a first attempt. -/
def AgentCall.Idle (c : AgentCall) : Prop :=
  c.posts = false ∧ c.removes = false ∧ ∀ file, c.file file = file

theorem AgentCall.idle_of_mem_cons {c : AgentCall} {calls : List AgentCall} (hc : c.Idle)
    (h : ∀ c ∈ calls, AgentCall.Idle c) : ∀ c' ∈ c :: calls, AgentCall.Idle c' := by
  intro c' hc'
  rcases List.mem_cons.mp hc' with rfl | hc'
  · exact hc
  · exact h c' hc'

/-- What a replay's context says. -/
theorem Outcomes.answer_replay {w : Outcomes} {s : DrainState} {ended : Bool}
    (h : w.ended s.calls = ended) : w.answer s (.ctxErr .replay) =
      some (if ended then some .deadlineExceeded else none, s.next) := by
  rw [Outcomes.answer, h]

/-- A program comes to its end in idle calls and leaves the spool as it is. -/
def Outcomes.Idles {α : Type} (w : Outcomes) (p : AgentM α) (s : DrainState) : Prop :=
  (∀ c ∈ p.trace w.answer s, AgentCall.Idle c) ∧
    ∃ a s', p.replay w.answer s = some (a, s') ∧ s'.dir = s.dir

theorem Outcomes.idles_ret {α : Type} (w : Outcomes) (a : α) (s : DrainState) :
    w.Idles (.ret a : AgentM α) s := ⟨fun _ hc => absurd hc List.not_mem_nil, a, s, rfl, rfl⟩

theorem Outcomes.idles_call {α : Type} {w : Outcomes} {o : AgentOp} {k : o.Answer → AgentM α}
    {s s' : DrainState} {r : o.Answer} (h : w.answer s o = some (r, s')) (hdir : s'.dir = s.dir)
    (hidle : AgentCall.Idle ⟨o, r⟩) (hk : w.Idles (k r) s') : w.Idles (.call o k) s := by
  obtain ⟨htrace, a, s'', hreplay, hdir'⟩ := hk
  rw [Outcomes.Idles, trace_call h, replay_call h]
  exact ⟨AgentCall.idle_of_mem_cons hidle htrace, a, s'', hreplay, hdir'.trans hdir⟩

/-- What comes after an attempt idles if what is left of the loop does. -/
theorem Outcomes.idles_attempt {w : Outcomes} {b : Batch} {n : ℕ} {s : DrainState}
    {r : Option PostErr} (h : w.Idles (postLoop .replay b n r) s) :
    w.Idles (if r = none ∨ (!retryable r) = true then pure r else postLoop .replay b n r) s := by
  split_ifs
  · exact w.idles_ret r s
  · exact h

/-- What is left of a post after its first attempt comes to an end, and makes no first attempt. -/
theorem idles_postLoop (w : Outcomes) (b : Batch) {n : ℕ} (hn : n < retryAttempts)
    (last : Option PostErr) (s : DrainState) : w.Idles (postLoop .replay b n last) s := by
  induction n generalizing last s with
  | zero => exact w.idles_ret last s
  | succ n ih =>
    have hlater : retryAttempts - n > 1 := by omega
    have hattempt : ((retryAttempts - n == 1) : Bool) = false := beq_false_of_ne (by omega)
    rw [postLoop]
    simp only [call_bind, ret_bind, if_pos hlater]
    cases hended : w.ended s.calls with
    | true =>
      exact Outcomes.idles_call (w.answer_replay hended) rfl ⟨rfl, rfl, fun _ => rfl⟩
        (w.idles_ret _ _)
    | false =>
      refine Outcomes.idles_call (w.answer_replay hended) rfl ⟨rfl, rfl, fun _ => rfl⟩ ?_
      refine Outcomes.idles_call (r := w.waits s.next.calls) rfl rfl ⟨rfl, rfl, fun _ => rfl⟩ ?_
      cases w.waits s.next.calls with
      | false => exact w.idles_ret _ _
      | true =>
        refine Outcomes.idles_call (r := w.hub s.next.next.calls) rfl rfl
          ⟨hattempt, rfl, fun _ => rfl⟩ ?_
        exact Outcomes.idles_attempt (ih (by omega) _ _)

/-- **One post.** When the time of the replay is over at once nothing is posted and the result is
the time-out; otherwise there is a first attempt, then idle calls. -/
theorem post_round (w : Outcomes) (b : Batch) (s : DrainState) :
    ∃ err s' rest, (post .replay b).replay w.answer s = some (err, s') ∧ s'.dir = s.dir ∧
      (∀ c ∈ rest, AgentCall.Idle c) ∧
      if w.ended s.calls then err = some .transport ∧
        (post .replay b).trace w.answer s = ⟨.ctxErr .replay, some .deadlineExceeded⟩ :: rest
      else ∃ r, (post .replay b).trace w.answer s =
        ⟨.ctxErr .replay, none⟩ :: ⟨.postOnce .replay 1 b, r⟩ :: rest := by
  have hfirst : ¬ retryAttempts - 4 > 1 := by decide
  rw [post, show retryAttempts = 4 + 1 from rfl, postLoop]
  simp only [call_bind, ret_bind, if_neg hfirst]
  cases hended : w.ended s.calls with
  | true =>
    refine ⟨some .transport, s.next, [], ?_, rfl, fun c hc => absurd hc List.not_mem_nil, rfl, ?_⟩
    · exact replay_call (w.answer_replay hended)
    · exact trace_call (w.answer_replay hended)
  | false =>
    have hnext := idles_postLoop w b (n := 4) (by decide) (w.hub s.next.calls) s.next.next
    obtain ⟨hidle, err, s', hreplay, hdir⟩ := Outcomes.idles_attempt hnext
    refine ⟨err, s', _, ?_, hdir, hidle, w.hub s.next.calls, ?_⟩
    · exact (replay_call (w.answer_replay hended)).trans hreplay
    · rw [trace_call (w.answer_replay hended)]
      refine congrArg (List.cons _) ?_
      have hcall : w.answer s.next (.postOnce .replay (retryAttempts - 4) b) =
        some (w.hub s.next.calls, s.next.next) := rfl
      exact trace_call hcall

/-! ### The front of the spool -/

/-- The oldest file of a directory is readable and holds an item. -/
def InFront (dir : SortedMap ℕ SpoolFile) (n : ℕ) (item : SpoolItem) : Prop :=
  ∃ ks file, dir.keys = n :: ks ∧ dir.get? n = some file ∧ file.item = some item

/-- What a part of `front` does from a state: it posts nothing and removes nothing, it comes to an
end when there is `enough` fuel, it only takes files away from the front, and the item it gives is
the one of the file that is then in front. -/
structure FrontRound (w : Outcomes) (p : AgentM (Option (Option (ℕ × SpoolItem)))) (enough : Prop)
    (s : DrainState) : Prop where
  quiet : ∀ c ∈ p.trace w.answer s, AgentCall.posts c = false ∧ AgentCall.removes c = false
  ends : enough → (p.replay w.answer s).isSome
  suffix : ∀ r s', p.replay w.answer s = some (r, s') → s'.dir.keys <:+ s.dir.keys
  inFront : ∀ n item s', p.replay w.answer s = some (some (some (n, item)), s') →
    InFront s'.dir n item ∧ ∀ file, (p.trace w.answer s).foldl AgentCall.file file = some n

namespace FrontRound

variable {w : Outcomes} {enough : Prop} {s s' : DrainState}

/-- Nothing is given. -/
theorem ret {r : Option (Option (ℕ × SpoolItem))} (hr : ∀ found, r ≠ some (some found)) :
    FrontRound w (.ret r) enough s where
  quiet _ hc := absurd hc List.not_mem_nil
  ends _ := rfl
  suffix r' s' h := by
    obtain ⟨-, rfl⟩ := Prod.mk.inj (Option.some.inj h)
    exact List.suffix_rfl
  inFront n item s' h := absurd (Prod.mk.inj (Option.some.inj h)).1 (hr (n, item))

theorem mono {p : AgentM (Option (Option (ℕ × SpoolItem)))} {enough' : Prop}
    (h : FrontRound w p enough s) (himp : enough' → enough) : FrontRound w p enough' s :=
  { h with ends := fun hfuel => h.ends (himp hfuel) }

/-- One call, then the rest. -/
theorem call {o : AgentOp} {k : o.Answer → AgentM (Option (Option (ℕ × SpoolItem)))}
    {r : o.Answer} (h : w.answer s o = some (r, s')) (hdir : s'.dir.keys <:+ s.dir.keys)
    (hquiet : AgentCall.posts ⟨o, r⟩ = false ∧ AgentCall.removes ⟨o, r⟩ = false)
    (hk : FrontRound w (k r) enough s') : FrontRound w (.call o k) enough s where
  quiet c hc := by
    rw [trace_call h] at hc
    rcases List.mem_cons.mp hc with rfl | hc
    · exact hquiet
    · exact hk.quiet c hc
  ends hfuel := by
    rw [replay_call h]
    exact hk.ends hfuel
  suffix r' s'' hrun := by
    rw [replay_call h] at hrun
    exact (hk.suffix r' s'' hrun).trans hdir
  inFront n item s'' hrun := by
    rw [replay_call h] at hrun
    obtain ⟨hfront, hfile⟩ := hk.inFront n item s'' hrun
    refine ⟨hfront, fun file => ?_⟩
    rw [trace_call h]
    exact hfile _

/-- The file in front is read and gives its item. -/
theorem read {n : ℕ} {item : SpoolItem}
    {k : Option (Option SpoolItem) → AgentM (Option (Option (ℕ × SpoolItem)))}
    (h : w.answer s (.readFile n) = some (some (some item), s')) (hdir : s'.dir = s.dir)
    (hfront : InFront s.dir n item) (hk : k (some (some item)) = .ret (some (some (n, item)))) :
    FrontRound w (.call (.readFile n) k) enough s where
  quiet c hc := by
    rw [trace_call h, hk, trace_ret] at hc
    rw [List.mem_singleton.mp hc]
    exact ⟨rfl, rfl⟩
  ends _ := by
    rw [replay_call h, hk]
    rfl
  suffix r s'' hrun := by
    rw [replay_call h, hk] at hrun
    obtain ⟨-, rfl⟩ := Prod.mk.inj (Option.some.inj hrun)
    rw [hdir]
  inFront m item' s'' hrun := by
    rw [replay_call h, hk] at hrun
    obtain ⟨hr, rfl⟩ := Prod.mk.inj (Option.some.inj hrun)
    obtain ⟨rfl, rfl⟩ := Prod.mk.inj (Option.some.inj (Option.some.inj hr))
    refine ⟨hdir ▸ hfront, fun file => ?_⟩
    rw [trace_call h, hk]
    rfl

end FrontRound

/-- **The front of the spool.** -/
theorem front_round (w : Outcomes) (fuel : ℕ) (s : DrainState) :
    FrontRound w (front fuel) (s.dir.keys.length < fuel) s := by
  induction fuel generalizing s with
  | zero =>
    refine ⟨fun c hc => absurd hc List.not_mem_nil, fun h => absurd h (Nat.not_lt_zero _), ?_, ?_⟩
    · exact fun r s' h => absurd h (by simp [front, cutOff, replay, Outcomes.answer])
    · exact fun n item s' h => absurd h (by simp [front, cutOff, replay, Outcomes.answer])
  | succ fuel ih =>
    rw [front]
    simp only [call_bind, ret_bind]
    have hnames : w.answer s .names =
      some (if w.works s.calls then some s.dir.keys else none, s.next) := rfl
    refine .call hnames List.suffix_rfl ⟨rfl, rfl⟩ ?_
    cases w.works s.calls with
    | false => exact .ret fun found => by simp
    | true =>
      cases hkeys : s.dir.keys with
      | nil => exact .ret fun found => by simp
      | cons n ks =>
        obtain ⟨file, hfile⟩ := SortedMap.mem_keys.mp (hkeys ▸ List.mem_cons_self : n ∈ s.dir.keys)
        have hread : w.answer s.next (.readFile n) =
            some (if w.works s.next.calls then some file.item else none, s.next.next) := by
          rw [Outcomes.answer, DrainState.dir_next, hfile, Option.map_some]
        cases hworks : w.works s.next.calls with
        | false =>
          rw [hworks] at hread
          exact .call hread List.suffix_rfl ⟨rfl, rfl⟩ (.ret fun found => by simp)
        | true =>
          rw [hworks] at hread
          cases hitem : file.item with
          | some item =>
            rw [hitem] at hread
            exact .read hread rfl ⟨ks, file, hkeys, hfile, hitem⟩ rfl
          | none =>
            rw [hitem] at hread
            refine .call hread List.suffix_rfl ⟨rfl, rfl⟩ ?_
            -- a corrupt file goes out of the way, or the round ends
            have hrename : w.answer s.next.next (.renameBad n) = some
              (if w.works s.next.next.calls then (true, s.next.next.drop n)
                else (false, s.next.next.next)) := rfl
            cases hmoved : w.works s.next.next.calls with
            | false =>
              rw [hmoved] at hrename
              exact .call hrename List.suffix_rfl ⟨rfl, rfl⟩ (.ret fun found => by simp)
            | true =>
              rw [hmoved] at hrename
              have hgone : (s.next.next.drop n).dir.keys = ks := SortedMap.keys_erase_head hkeys
              have hshort : (n :: ks).length < fuel + 1 →
                (s.next.next.drop n).dir.keys.length < fuel := by
                rw [hgone, List.length_cons]
                omega
              refine .call hrename ?_ ⟨rfl, rfl⟩ ((ih _).mono hshort)
              rw [hgone]
              exact hkeys ▸ List.suffix_cons n ks

/-! ### One round -/

/-- The rest of a round after the post of the item of a file. -/
def drainNext (fuel n : ℕ) (err : Option PostErr) : AgentM Unit := do
  if err = none then
    if ← removeFile n then drainLoop fuel else pure ()
  else if !retryable err then do
    let _ ← removeFile n
    drainLoop fuel
  else pure ()

/-- The rest of a round after `front`. -/
def drainFound (fuel : ℕ) : Option (Option (ℕ × SpoolItem)) → AgentM Unit
  | some (some (n, item)) => post .replay item.toBatch >>= drainNext fuel n
  | _ => pure ()

theorem drainLoop_succ (fuel : ℕ) : drainLoop (fuel + 1) = front fuel >>= drainFound fuel := by
  rw [drainLoop]
  refine congrArg (front fuel >>= ·) (funext fun r => ?_)
  obtain - | - | ⟨n, item⟩ := r <;> rfl

/-- After the post the round ends, or the file is removed and the loop goes on, or it is not and
the loop ends or goes on. -/
inductive DrainNext (w : Outcomes) (fuel n : ℕ) (err : Option PostErr) (s : DrainState)
    (p : AgentM Unit) : Prop
  | ends (htrace : p.trace w.answer s = [] ∨ p.trace w.answer s = [⟨.remove n, false⟩])
      (hreplay : (p.replay w.answer s).isSome)
  | goes (ok : Bool) (s' : DrainState) (herr : retryable err = false)
      (htrace : p.trace w.answer s =
        ⟨.remove n, ok⟩ :: (drainLoop fuel).trace w.answer s')
      (hreplay : p.replay w.answer s = (drainLoop fuel).replay w.answer s')
      (hdir : s'.dir = if ok then s.dir.erase n else s.dir)

theorem drainNext_cases (w : Outcomes) (fuel n : ℕ) (err : Option PostErr) (s : DrainState) :
    DrainNext w fuel n err s (drainNext fuel n err) := by
  have hremove : w.answer s (.remove n) =
    some (if w.works s.calls then (true, s.drop n) else (false, s.next)) := rfl
  rw [drainNext]
  simp only [call_bind, ret_bind]
  split_ifs with hnone hperm
  · have herr : retryable err = false := by rw [hnone]; rfl
    cases hworks : w.works s.calls with
    | false =>
      rw [hworks] at hremove
      refine .ends (.inr (trace_call hremove)) ?_
      rw [replay_call hremove]
      rfl
    | true =>
      rw [hworks] at hremove
      exact .goes true (s.drop n) herr (trace_call hremove) (replay_call hremove) rfl
  · have herr : retryable err = false := by simpa using hperm
    cases hworks : w.works s.calls with
    | false =>
      rw [hworks] at hremove
      exact .goes false s.next herr (trace_call hremove) (replay_call hremove) rfl
    | true =>
      rw [hworks] at hremove
      exact .goes true (s.drop n) herr (trace_call hremove) (replay_call hremove) rfl
  · exact .ends (.inl rfl) rfl

theorem posted_eq_nil_of_idle {file : Option ℕ} {calls : List AgentCall}
    (h : ∀ c ∈ calls, AgentCall.Idle c) : posted file calls = [] :=
  posted_eq_nil fun c hc => (h c hc).1

/-- What a post of the item of a file shows. -/
structure PostRound (w : Outcomes) (b : Batch) (s : DrainState) (err : Option PostErr)
    (s' : DrainState) : Prop where
  replay : (post .replay b).replay w.answer s = some (err, s')
  dir : s'.dir = s.dir
  quiet : ∀ c ∈ (post .replay b).trace w.answer s, AgentCall.removes c = false
  posted : ∀ n, posted (some n) ((post .replay b).trace w.answer s) =
    if w.ended s.calls then [] else [n]
  live : retryable err = false → w.ended s.calls = false

theorem exists_postRound (w : Outcomes) (b : Batch) (s : DrainState) :
    ∃ err s', PostRound w b s err s' := by
  obtain ⟨err, s', rest, hreplay, hdir, hidle, hcalls⟩ := post_round w b s
  refine ⟨err, s', hreplay, hdir, fun c hc => ?_, fun n => ?_, fun hperm => ?_⟩
  · split_ifs at hcalls with hended
    · rw [hcalls.2] at hc
      rcases List.mem_cons.mp hc with rfl | hc
      · rfl
      · exact (hidle c hc).2.1
    · obtain ⟨r, htrace⟩ := hcalls
      rw [htrace] at hc
      rcases List.mem_cons.mp hc with rfl | hc
      · rfl
      rcases List.mem_cons.mp hc with rfl | hc
      · rfl
      · exact (hidle c hc).2.1
  · split_ifs at hcalls ⊢ with hended
    · rw [hcalls.2]
      exact posted_eq_nil_of_idle (AgentCall.idle_of_mem_cons ⟨rfl, rfl, fun _ => rfl⟩ hidle)
    · obtain ⟨r, htrace⟩ := hcalls
      rw [htrace]
      exact congrArg (List.cons n) (posted_eq_nil_of_idle hidle)
  · split_ifs at hcalls with hended
    · rw [hcalls.1] at hperm
      exact absurd hperm (by decide)
    · simpa using hended

/-- A round of the loop, with its calls and its result: it is the last one, or it ends in the
removal of the file whose item it posted and the loop goes on. -/
inductive DrainRound (w : Outcomes) (fuel : ℕ) (s : DrainState) (calls : List AgentCall)
    (result : Option (Unit × DrainState)) : Prop
  | ends (hrepeats : ¬ Repeats calls) (hnodup : ∀ file, (posted file calls).Nodup)
      (hmem : ∀ file, ∀ n ∈ posted file calls, n ∈ s.dir.keys)
      (hresult : s.dir.keys.length < fuel → result.isSome)
  | goes (n : ℕ) (item : SpoolItem) (ok : Bool) (before : List AgentCall)
      (dir : SortedMap ℕ SpoolFile) (s' : DrainState)
      (hquiet : ∀ c ∈ before, AgentCall.removes c = false)
      (hposted : ∀ file, posted file before = [n]) (hfront : InFront dir n item)
      (hsuffix : dir.keys <:+ s.dir.keys) (hdir : s'.dir = if ok then dir.erase n else dir)
      (htrace : calls = before ++ ⟨.remove n, ok⟩ :: (drainLoop fuel).trace w.answer s')
      (hresult : result = (drainLoop fuel).replay w.answer s')

/-- Calls of which only the last one may remove a file do not show that a file is read again. -/
theorem not_repeats_concat {calls last : List AgentCall} {n : ℕ}
    (h : ∀ c ∈ calls, AgentCall.removes c = false)
    (hlast : last = [] ∨ last = [⟨.remove n, false⟩]) :
    ¬ Repeats (calls ++ last) := by
  rw [repeats_append_iff h]
  rcases hlast with rfl | rfl
  · exact repeats_nil
  · rw [repeats_remove_iff]
    rintro (⟨-, names, item, hprefix⟩ | hrepeats)
    · exact absurd (List.prefix_nil.mp hprefix) (by simp)
    · exact repeats_nil hrepeats

/-- **One round.** -/
theorem drainLoop_round (w : Outcomes) (fuel : ℕ) (s : DrainState) :
    DrainRound w fuel s ((drainLoop (fuel + 1)).trace w.answer s)
      ((drainLoop (fuel + 1)).replay w.answer s) := by
  have hfront := front_round w fuel s
  have hquiet : ∀ c ∈ (front fuel).trace w.answer s, AgentCall.removes c = false :=
    fun c hc => (hfront.quiet c hc).2
  have hnone : ∀ file, posted file ((front fuel).trace w.answer s) = [] :=
    fun file => posted_eq_nil fun c hc => (hfront.quiet c hc).1
  -- without an item the calls of `front` are all
  have hends : ∀ result : Option (Unit × DrainState),
      (s.dir.keys.length < fuel → result.isSome) →
        DrainRound w fuel s ((front fuel).trace w.answer s ++ []) result := by
    intro result hresult
    refine .ends (not_repeats_concat (n := 0) hquiet (.inl rfl)) ?_ ?_ hresult
    · intro file
      rw [List.append_nil, hnone]
      exact List.nodup_nil
    · intro file n hn
      rw [List.append_nil, hnone] at hn
      exact absurd hn List.not_mem_nil
  rw [drainLoop_succ, trace_bind, replay_bind]
  cases hrun : (front fuel).replay w.answer s with
  | none =>
    refine hends _ fun hfuel => ?_
    have hsome := hfront.ends hfuel
    rw [hrun] at hsome
    exact absurd hsome (by decide)
  | some run =>
    obtain ⟨found, s₁⟩ := run
    obtain - | - | ⟨n, item⟩ := found
    · exact hends _ fun _ => rfl
    · exact hends _ fun _ => rfl
    obtain ⟨hin, hfile⟩ := hfront.inFront n item s₁ hrun
    have hsuffix := hfront.suffix _ s₁ hrun
    have hmem : n ∈ s.dir.keys := by
      obtain ⟨ks, file, hkeys, -⟩ := hin
      exact hsuffix.subset (hkeys ▸ List.mem_cons_self)
    obtain ⟨err, s₂, hpost⟩ := exists_postRound w item.toBatch s₁
    have hbefore : ∀ c ∈ (front fuel).trace w.answer s ++
        (post .replay item.toBatch).trace w.answer s₁, AgentCall.removes c = false := by
      intro c hc
      rcases List.mem_append.mp hc with hc | hc
      · exact hquiet c hc
      · exact hpost.quiet c hc
    have hposted : ∀ file, posted file ((front fuel).trace w.answer s ++
        (post .replay item.toBatch).trace w.answer s₁) = if w.ended s₁.calls then [] else [n] := by
      intro file
      rw [posted_append, hnone, hfile, List.nil_append, hpost.posted]
    have hnext : (drainFound fuel (some (some (n, item)))) =
      post .replay item.toBatch >>= drainNext fuel n := rfl
    simp only [Option.bind_some, Option.elim_some, hnext, trace_bind, replay_bind, hpost.replay]
    rw [← List.append_assoc]
    rcases drainNext_cases w fuel n err s₂ with
      ⟨htrace, hreplay⟩ | ⟨ok, s', herr, htrace, hreplay, hdir⟩
    · have hlast : ∀ file, posted file ((drainNext fuel n err).trace w.answer s₂) = [] := by
        intro file
        rcases htrace with h | h <;> rw [h] <;> rfl
      refine .ends (not_repeats_concat hbefore htrace) ?_ ?_ fun _ => hreplay
      · intro file
        rw [posted_append, hposted, hlast, List.append_nil]
        split_ifs
        · exact List.nodup_nil
        · exact List.nodup_cons.mpr ⟨List.not_mem_nil, List.nodup_nil⟩
      · intro file m hm
        rw [posted_append, hposted, hlast, List.append_nil] at hm
        split_ifs at hm
        · exact absurd hm List.not_mem_nil
        · exact List.mem_singleton.mp hm ▸ hmem
    · refine .goes n item ok _ s₁.dir s' hbefore ?_ hin hsuffix ?_ (congrArg _ htrace) hreplay
      · intro file
        rw [hposted, hpost.live herr]
        rfl
      · rw [hdir, hpost.dir]

/-! ### A file that is in front again -/

/-- With the time over there is no post. -/
theorem not_readAgain_of_over {n : ℕ} {c c' : AgentCall} {err : CtxErr} {calls : List AgentCall} :
    ¬ ReadAgain n (c :: c' :: ⟨.ctxErr .replay, some err⟩ :: calls) := by
  rintro ⟨names, item, hprefix⟩
  have htail := (List.cons_prefix_cons.mp (List.cons_prefix_cons.mp hprefix).2).2
  have hlive := eq_of_heq (Sigma.mk.inj (List.cons_prefix_cons.mp htail).1).2
  exact absurd hlive (by simp)

theorem not_readAgain_of_length {n : ℕ} {calls : List AgentCall} (h : calls.length < 3) :
    ¬ ReadAgain n calls := by
  rintro ⟨names, item, hprefix⟩
  exact absurd hprefix.length_le (by simpa using h)

/-- What happens to an item that is in front: it is posted, or the drain ends. -/
inductive Again (w : Outcomes) (fuel n : ℕ) (s : DrainState) : Prop
  | posts (hagain : ReadAgain n ((drainLoop fuel).trace w.answer s))
      (hposted : ∀ file, n ∈ posted file ((drainLoop fuel).trace w.answer s))
  | ends (hagain : ¬ ReadAgain n ((drainLoop fuel).trace w.answer s))
      (hposted : ∀ file, posted file ((drainLoop fuel).trace w.answer s) = [])
      (hrepeats : ¬ Repeats ((drainLoop fuel).trace w.answer s))
      (hresult : 1 < fuel → ((drainLoop fuel).replay w.answer s).isSome)

/-- `front` gives the item that is in front, or an error. -/
theorem front_of_inFront (w : Outcomes) (fuel : ℕ) {n : ℕ} {item : SpoolItem} {s : DrainState}
    (h : InFront s.dir n item) :
    (∃ s' calls, (front (fuel + 1)).trace w.answer s = calls ∧
      (front (fuel + 1)).replay w.answer s = some (none, s') ∧ calls.length < 3 ∧
      ∀ c ∈ calls, AgentCall.posts c = false ∧ AgentCall.removes c = false) ∨
    ∃ s' names, (front (fuel + 1)).trace w.answer s =
        [⟨.names, some names⟩, ⟨.readFile n, some (some item)⟩] ∧
      (front (fuel + 1)).replay w.answer s = some (some (some (n, item)), s') := by
  obtain ⟨ks, file, hkeys, hfile, hitem⟩ := h
  have hquiet := (front_round w (fuel + 1) s).quiet
  have hnames : w.answer s .names =
    some (if w.works s.calls then some s.dir.keys else none, s.next) := rfl
  have hread : w.answer s.next (.readFile n) =
      some (if w.works s.next.calls then some (some item) else none, s.next.next) := by
    rw [Outcomes.answer, DrainState.dir_next, hfile, Option.map_some, hitem]
  rw [front] at hquiet ⊢
  simp only [call_bind, ret_bind] at hquiet ⊢
  rw [trace_call hnames, replay_call hnames]
  rw [trace_call hnames] at hquiet
  cases hlist : w.works s.calls with
  | false =>
    rw [hlist] at hquiet
    exact .inl ⟨s.next, _, rfl, rfl, (show 1 < 3 by decide), hquiet⟩
  | true =>
    rw [hlist] at hquiet
    simp only [if_true, hkeys] at hquiet ⊢
    rw [trace_call hread, replay_call hread]
    rw [trace_call hread] at hquiet
    cases hworks : w.works s.next.calls with
    | false =>
      rw [hworks] at hquiet
      exact .inl ⟨s.next.next, _, rfl, rfl, (show 2 < 3 by decide), hquiet⟩
    | true => exact .inr ⟨s.next.next, n :: ks, rfl, rfl⟩

theorem again_cases (w : Outcomes) (fuel : ℕ) {n : ℕ} {item : SpoolItem} {s : DrainState}
    (h : InFront s.dir n item) : Again w fuel n s := by
  have hcut : (drainLoop fuel).trace w.answer s = [] → fuel ≤ 1 → Again w fuel n s := by
    intro htrace hfuel
    refine .ends ?_ ?_ ?_ fun hlt => absurd hlt (by omega)
    · rw [htrace]
      exact not_readAgain_of_length (by decide)
    · intro file
      rw [htrace]
      rfl
    · rw [htrace]
      exact repeats_nil
  obtain _ | _ | fuel := fuel
  · exact hcut rfl (by omega)
  · exact hcut rfl (by omega)
  have htrace := trace_bind w.answer (front (fuel + 1)) (drainFound (fuel + 1)) s
  have hreplay := replay_bind w.answer (front (fuel + 1)) (drainFound (fuel + 1)) s
  rw [← drainLoop_succ] at htrace hreplay
  rcases front_of_inFront w fuel h with ⟨s', calls, hcalls, hrun, hlength, hquiet⟩ |
    ⟨s', names, hcalls, hrun⟩
  · -- an error ends the drain
    rw [hrun, hcalls] at htrace
    rw [hrun] at hreplay
    have hall : (drainLoop (fuel + 1 + 1)).trace w.answer s = calls :=
      htrace.trans (List.append_nil calls)
    refine .ends ?_ ?_ ?_ fun _ => by rw [hreplay]; rfl
    · rw [hall]
      exact not_readAgain_of_length hlength
    · intro file
      rw [hall]
      exact posted_eq_nil fun c hc => (hquiet c hc).1
    · rw [hall, ← List.append_nil calls]
      exact not_repeats_concat (n := 0) (fun c hc => (hquiet c hc).2) (.inl rfl)
  · have hfound : drainFound (fuel + 1) (some (some (n, item))) =
      post .replay item.toBatch >>= drainNext (fuel + 1) n := rfl
    obtain ⟨err, s'', rest, hpost, -, hidle, hcalls'⟩ := post_round w item.toBatch s'
    rw [hrun, hcalls, Option.elim_some, hfound, trace_bind, hpost, Option.elim_some] at htrace
    rw [hrun, Option.bind_some, hfound, replay_bind, hpost, Option.bind_some] at hreplay
    split_ifs at hcalls' with hended
    · obtain ⟨rfl, hover⟩ := hcalls'
      rw [hover] at htrace
      -- a time-out is not permanent, so that the drain ends
      rcases drainNext_cases w (fuel + 1) n (some .transport) s'' with
        ⟨hnext, hsome⟩ | ⟨_, _, herr, -⟩
      · have hall : ∀ c ∈ ⟨.ctxErr .replay, some .deadlineExceeded⟩ :: rest, AgentCall.Idle c :=
          AgentCall.idle_of_mem_cons ⟨rfl, rfl, fun _ => rfl⟩ hidle
        have hlast : ∀ file,
            posted file ((drainNext (fuel + 1) n (some .transport)).trace w.answer s'') = [] := by
          intro file
          rcases hnext with h | h <;> rw [h] <;> rfl
        refine .ends ?_ ?_ ?_ fun _ => by rw [hreplay]; exact hsome
        · rw [htrace]
          exact not_readAgain_of_over
        · intro file
          rw [htrace, posted_append, posted_append, posted_eq_nil_of_idle hall, hlast]
          rfl
        · rw [htrace, ← List.append_assoc]
          refine not_repeats_concat (fun c hc => ?_) hnext
          rcases List.mem_append.mp hc with hc | hc
          · exact ((front_round w (fuel + 1) s).quiet c (hcalls ▸ hc)).2
          · exact (hall c hc).2.1
      · exact absurd herr (by decide)
    · obtain ⟨r, hlive⟩ := hcalls'
      rw [hlive] at htrace
      refine .posts ?_ fun file => ?_
      · rw [htrace]
        exact ⟨names, item, _, rfl⟩
      · rw [htrace]
        exact List.mem_cons_self

/-! ### The whole drain -/

theorem posted_round {n : ℕ} {before : List AgentCall} {file : Option ℕ}
    (h : posted file before = [n]) (ok : Bool) (rest : List AgentCall) :
    ∃ file', posted file (before ++ ⟨.remove n, ok⟩ :: rest) = n :: posted file' rest :=
  ⟨_, by rw [posted_append, h]; rfl⟩

theorem keys_of_inFront {dir : SortedMap ℕ SpoolFile} {n : ℕ} {item : SpoolItem}
    (h : InFront dir n item) : dir.keys = n :: (dir.erase n).keys := by
  obtain ⟨ks, file, hkeys, -⟩ := h
  rw [SortedMap.keys_erase_head hkeys, hkeys]

theorem notMem_keys_erase (dir : SortedMap ℕ SpoolFile) (n : ℕ) : n ∉ (dir.erase n).keys := by
  rw [SortedMap.mem_keys]
  rintro ⟨file, hfile⟩
  rw [SortedMap.get?_erase, if_pos rfl] at hfile
  exact absurd hfile (by simp)

/-- When no file is read again the items that are posted are different ones of the spool. -/
theorem nodup_posted (w : Outcomes) (fuel : ℕ) (s : DrainState)
    (h : ¬ Repeats ((drainLoop fuel).trace w.answer s)) (file : Option ℕ) :
    (posted file ((drainLoop fuel).trace w.answer s)).Nodup ∧
      ∀ n ∈ posted file ((drainLoop fuel).trace w.answer s), n ∈ s.dir.keys := by
  induction fuel generalizing s file with
  | zero => exact ⟨List.nodup_nil, fun n hn => absurd hn List.not_mem_nil⟩
  | succ fuel ih =>
    rcases drainLoop_round w fuel s with ⟨-, hnodup, hmem, -⟩ |
      ⟨n, item, ok, before, dir, s', hquiet, hposted, hfront, hsuffix, hdir, htrace, -⟩
    · exact ⟨hnodup file, hmem file⟩
    obtain ⟨file', hround⟩ := posted_round (hposted file) ok
      ((drainLoop fuel).trace w.answer s')
    rw [htrace, repeats_append_iff hquiet, repeats_remove_iff, not_or] at h
    rw [htrace, hround]
    have hkeys := keys_of_inFront hfront
    have hn : n ∈ s.dir.keys := hsuffix.subset (hkeys ▸ List.mem_cons_self)
    cases ok with
    | true =>
      have hdir' : s'.dir = dir.erase n := hdir
      obtain ⟨hnodup, hmem⟩ := ih s' h.2 file'
      rw [hdir'] at hmem
      refine ⟨List.nodup_cons.mpr ⟨fun hn => notMem_keys_erase dir n (hmem n hn), hnodup⟩, ?_⟩
      intro m hm
      rcases List.mem_cons.mp hm with rfl | hm
      · exact hn
      · exact hsuffix.subset (hkeys ▸ List.mem_cons_of_mem n (hmem m hm))
    | false =>
      have hdir' : s'.dir = dir := hdir
      rcases again_cases w fuel (hdir' ▸ hfront : InFront s'.dir n item) with
        ⟨hagain, -⟩ | ⟨-, hrest, -, -⟩
      · exact absurd ⟨rfl, hagain⟩ h.1
      · rw [hrest file']
        refine ⟨List.nodup_cons.mpr ⟨List.not_mem_nil, List.nodup_nil⟩, fun m hm => ?_⟩
        rw [List.mem_singleton.mp hm]
        exact hn

/-- When no file is read again the loop comes to its end: every round but the last takes a file
away. -/
theorem drainLoop_returns (w : Outcomes) (fuel : ℕ) (s : DrainState)
    (h : ¬ Repeats ((drainLoop fuel).trace w.answer s)) (hfuel : s.dir.keys.length + 1 < fuel) :
    ((drainLoop fuel).replay w.answer s).isSome := by
  induction fuel generalizing s with
  | zero => exact absurd hfuel (Nat.not_lt_zero _)
  | succ fuel ih =>
    rcases drainLoop_round w fuel s with ⟨-, -, -, hresult⟩ |
      ⟨n, item, ok, before, dir, s', hquiet, -, hfront, hsuffix, hdir, htrace, hresult⟩
    · exact hresult (Nat.lt_of_succ_lt_succ hfuel)
    rw [htrace, repeats_append_iff hquiet, repeats_remove_iff, not_or] at h
    rw [hresult]
    have hlength := congrArg List.length (keys_of_inFront hfront)
    have hle := hsuffix.length_le
    rw [List.length_cons] at hlength
    cases ok with
    | true =>
      have hdir' : s'.dir = dir.erase n := hdir
      exact ih s' h.2 (by rw [hdir']; omega)
    | false =>
      have hdir' : s'.dir = dir := hdir
      rcases again_cases w fuel (hdir' ▸ hfront : InFront s'.dir n item) with
        ⟨hagain, -⟩ | ⟨-, -, -, hends⟩
      · exact absurd ⟨rfl, hagain⟩ h.1
      · exact hends (by omega)

/-- A file that is read again is posted again. -/
theorem not_nodup_posted (w : Outcomes) (fuel : ℕ) (s : DrainState)
    (h : Repeats ((drainLoop fuel).trace w.answer s)) (file : Option ℕ) :
    ¬ (posted file ((drainLoop fuel).trace w.answer s)).Nodup := by
  induction fuel generalizing s file with
  | zero => exact absurd h repeats_nil
  | succ fuel ih =>
    rcases drainLoop_round w fuel s with ⟨hrepeats, -⟩ |
      ⟨n, item, ok, before, dir, s', hquiet, hposted, hfront, -, hdir, htrace, -⟩
    · exact absurd h hrepeats
    obtain ⟨file', hround⟩ := posted_round (hposted file) ok
      ((drainLoop fuel).trace w.answer s')
    rw [htrace, repeats_append_iff hquiet, repeats_remove_iff] at h
    rw [htrace, hround, List.nodup_cons]
    rintro ⟨hn, hnodup⟩
    rcases h with ⟨rfl, hagain⟩ | hrest
    · have hdir' : s'.dir = dir := hdir
      rcases again_cases w fuel (hdir' ▸ hfront : InFront s'.dir n item) with
        ⟨-, hposts⟩ | ⟨hnot, -⟩
      · exact hn (hposts file')
      · exact hnot hagain
    · exact ih s' hrest file' hnodup

/-- The calls of a drain of a spool. -/
def Outcomes.drainCalls (w : Outcomes) (dir : SortedMap ℕ SpoolFile) (fuel : ℕ) :
    List AgentCall :=
  (drain fuel).trace w.answer ⟨dir, 0⟩

/-- **Key result.** A drain returns and posts each item of the spool at most once exactly when no
file that could not be removed is read again with the next calls: then there is no end, or an item
is posted twice. -/
theorem drain_returns_iff (w : Outcomes) (dir : SortedMap ℕ SpoolFile) :
    ((∃ fuel, ((drain fuel).replay w.answer ⟨dir, 0⟩).isSome) ∧
        ∀ fuel, (posted none (w.drainCalls dir fuel)).Nodup) ↔
      ∀ fuel, ¬ Repeats (w.drainCalls dir fuel) := by
  have hparent : w.answer ⟨dir, 0⟩ (.ctxErr .caller) = some (w.parent, ⟨dir, 1⟩) := rfl
  simp only [Outcomes.drainCalls, drain, call_bind, ret_bind, trace_call hparent,
    replay_call hparent]
  have hquiet : ∀ err, ∀ c ∈ [(⟨.ctxErr .caller, err⟩ : AgentCall)],
      AgentCall.removes c = false := by
    intro err c hc
    rw [List.mem_singleton.mp hc]
    rfl
  cases w.parent with
  | some err =>
    -- the caller's context is over
    refine iff_of_true ⟨⟨0, rfl⟩, fun _ => List.nodup_nil⟩ fun fuel => ?_
    exact not_repeats_concat (n := 0) (hquiet (some err)) (.inl rfl)
  | none =>
    have hloop : ∀ fuel, Repeats (⟨.ctxErr .caller, none⟩ ::
        (drainLoop fuel).trace w.answer ⟨dir, 1⟩) ↔
          Repeats ((drainLoop fuel).trace w.answer ⟨dir, 1⟩) :=
      fun fuel => @repeats_append_iff _ ((drainLoop fuel).trace w.answer ⟨dir, 1⟩) (hquiet none)
    constructor
    · rintro ⟨-, hnodup⟩ fuel hrepeats
      exact not_nodup_posted w fuel _ ((hloop fuel).mp hrepeats) none (hnodup fuel)
    · intro h
      have hnever := fun fuel => mt (hloop fuel).mpr (h fuel)
      refine ⟨⟨dir.keys.length + 2, ?_⟩, fun fuel => ?_⟩
      · exact drainLoop_returns w _ ⟨dir, 1⟩ (hnever _) (Nat.lt_succ_self _)
      · exact (nodup_posted w fuel ⟨dir, 1⟩ (hnever fuel) none).1

/-- A spool of one file whose batch the hub rejects for good, in a directory in which nothing can be
removed: every fifth call fails, which is the removal. -/
def stuckOutcomes : Outcomes where
  parent := none
  ended _ := false
  waits _ := true
  hub _ := some (.status 400)
  works k := k % 5 != 0

/-- The file. -/
def stuckFile : SpoolFile :=
  ({ path := "/api/v1/logs/batch", batchID := "b", body := .arr [], queuedAt := ⟨0⟩ } :
    SpoolItem).toFile

/-- The spool. -/
def stuckSpool : SortedMap ℕ SpoolFile := SortedMap.ofList [(1, stuckFile)]

theorem stuckSpool_front (k : ℕ) (item : SpoolItem) (hitem : stuckFile.item = some item)
    (h₁ : k % 5 ≠ 0) (h₂ : (k + 1) % 5 ≠ 0) (fuel : ℕ) :
    (front (fuel + 1)).replay stuckOutcomes.answer ⟨stuckSpool, k⟩ =
      some (some (some (1, item)), ⟨stuckSpool, k + 2⟩) := by
  have hnames : stuckOutcomes.answer ⟨stuckSpool, k⟩ .names =
      some (some stuckSpool.keys, ⟨stuckSpool, k + 1⟩) := by
    simp [Outcomes.answer, stuckOutcomes, h₁, DrainState.next]
  have hread : stuckOutcomes.answer ⟨stuckSpool, k + 1⟩ (.readFile 1) =
      some (some (some item), ⟨stuckSpool, k + 2⟩) := by
    have hfile : stuckSpool.get? 1 = some stuckFile := rfl
    simp [Outcomes.answer, stuckOutcomes, h₂, DrainState.next, hfile, hitem]
  rw [front]
  simp only [call_bind, ret_bind]
  rw [replay_call hnames]
  exact replay_call hread

/-- A round of this drain ends where it began. -/
theorem stuckSpool_round (fuel k : ℕ) (hk : k % 5 = 1) :
    (drainLoop (fuel + 2)).replay stuckOutcomes.answer ⟨stuckSpool, k⟩ =
      (drainLoop (fuel + 1)).replay stuckOutcomes.answer ⟨stuckSpool, k + 5⟩ := by
  obtain ⟨item, hitem⟩ : ∃ item, stuckFile.item = some item := ⟨_, rfl⟩
  have hpost : (post .replay item.toBatch).replay stuckOutcomes.answer ⟨stuckSpool, k + 2⟩ =
    some (some (.status 400), ⟨stuckSpool, k + 4⟩) := rfl
  have hremove : stuckOutcomes.answer ⟨stuckSpool, k + 4⟩ (.remove 1) =
      some (false, ⟨stuckSpool, k + 5⟩) := by
    have hfails : (k + 4) % 5 = 0 := by omega
    simp [Outcomes.answer, stuckOutcomes, hfails, DrainState.next]
  have hnext : drainNext (fuel + 1) 1 (some (.status 400)) =
    .call (.remove 1) fun _ => drainLoop (fuel + 1) := rfl
  have hfound : drainFound (fuel + 1) (some (some (1, item))) =
    post .replay item.toBatch >>= drainNext (fuel + 1) 1 := rfl
  rw [drainLoop_succ, replay_bind, stuckSpool_front k item hitem (by omega) (by omega),
    Option.bind_some, hfound, replay_bind, hpost, Option.bind_some, hnext]
  exact replay_call hremove

/-- The drain of this spool posts the batch over and over again. -/
theorem drain_stuck :
    (¬ ∃ fuel, ((drain fuel).replay stuckOutcomes.answer ⟨stuckSpool, 0⟩).isSome) ∧
      ¬ ∀ fuel, (posted none (stuckOutcomes.drainCalls stuckSpool fuel)).Nodup := by
  have hloop : ∀ fuel k, k % 5 = 1 →
      (drainLoop fuel).replay stuckOutcomes.answer ⟨stuckSpool, k⟩ = none := by
    intro fuel
    induction fuel with
    | zero => exact fun k hk => rfl
    | succ fuel ih =>
      intro k hk
      cases fuel with
      | zero => rfl
      | succ fuel =>
        rw [stuckSpool_round fuel k hk]
        exact ih (k + 5) (by omega)
  constructor
  · rintro ⟨fuel, hreturns⟩
    have hparent : stuckOutcomes.answer ⟨stuckSpool, 0⟩ (.ctxErr .caller) =
      some (none, ⟨stuckSpool, 1⟩) := rfl
    simp only [drain, call_bind, ret_bind] at hreturns
    rw [replay_call hparent, hloop fuel 1 rfl] at hreturns
    exact absurd hreturns (by decide)
  · intro h
    have htwice := h 4
    revert htwice
    decide +kernel

end Argus
