import Argus.Agent.Client
import Argus.Foundations.SortedMap

/-!
# What the agent's client works against

The directory of the spool and the hub, as a relation between an operation of the client and
its answers. The hub may take an attempt or not, and the agent may learn of it or see any error;
a context may end at any time; files fail only where `Healthy` does not hold. The log records
which calls began, what was posted, accepted and answered, what was removed from the spool, and
what cut a drain short.
-/

namespace Argus

open Foundations

/-- What is recorded. -/
inductive AgentEvent
  /-- A call of `sendBatch` for the id began, with these ids in the spool. -/
  | started (id : String) (spooled : List String)
  /-- An attempt was sent. -/
  | posted (c : Ctx) (id : String)
  /-- The hub accepted a batch. -/
  | accepted (c : Ctx) (id : String)
  /-- An attempt was answered. -/
  | answered (c : Ctx) (b : Batch) (r : Option PostErr)
  /-- A batch was removed from the spool. -/
  | removed (id : String)
  /-- Something happened that ends a drain: a context was done, a file could not be used, or
  the last attempt of a replay failed for the moment. -/
  | interrupted

/-- The last answer of the hub. -/
def lastAnswer (log : List AgentEvent) : Option (Option PostErr) :=
  log.foldl (fun last e => match e with
    | .answered _ _ r => some r
    | _ => last) none

/-- The spool directory, and the log of what happened. -/
structure AgentState where
  dir : SortedMap ℕ SpoolFile
  log : List AgentEvent

namespace AgentState

/-- Record an event. -/
def record (s : AgentState) (e : AgentEvent) : AgentState := { s with log := s.log ++ [e] }

/-- Record an event if it happened. -/
def recordIf (s : AgentState) (b : Bool) (e : AgentEvent) : AgentState :=
  if b then s.record e else s

/-- The id of a file's item. -/
def idAt (s : AgentState) (n : ℕ) : Option String :=
  ((s.dir.get? n).bind SpoolFile.item).map fun item => item.batchID

/-- Remove a file. -/
def drop (s : AgentState) (n : ℕ) : AgentState :=
  match s.idAt n with
  | some id => { s with dir := s.dir.erase n }.record (.removed id)
  | none => { s with dir := s.dir.erase n }

/-- The files that are listed have a name of sixteen digits. -/
def nameLimit : ℕ := 10 ^ 16

/-- Put a file under a number. With more digits it is never listed. -/
def store (s : AgentState) (n : ℕ) (f : SpoolFile) : AgentState :=
  if n < nameLimit then { s with dir := s.dir.insert n f } else s

/-- The ids in the spool, oldest first. -/
def spooled (s : AgentState) : List String := s.dir.keys.filterMap s.idAt

end AgentState

open AgentState

/-- The answers to an operation, and the state after them. -/
def agentEffect (Healthy : Prop) : Effect AgentState AgentOp AgentOp.Answer
  | s, .ctxErr c => fun r s' =>
    (c = .replay → r ≠ some CtxErr.canceled) ∧ s' = s.recordIf (Option.isSome r) .interrupted
  | s, .wait _ => fun r s' => s' = s.recordIf (!r) .interrupted
  | s, .postOnce c attempt b => fun r s' => ∃ accepted : Bool,
    (r = none → accepted = true) ∧ (∀ code, r = some (PostErr.status code) → 300 ≤ code) ∧
      (c = .replay → r ≠ some PostErr.canceled) ∧
      s' = (((s.record (.posted c b.batchID)).recordIf accepted (.accepted c b.batchID)).record
        (.answered c b r)).recordIf
          (retryable r && decide (c = .replay ∧ attempt = retryAttempts)) .interrupted
  | s, .now => fun _ s' => s' = s
  | s, .names => fun r s' => (r = some s.dir.keys ∨ r = none ∧ ¬ Healthy) ∧
    s' = s.recordIf (Option.isNone r) .interrupted
  | s, .stat n => fun r s' =>
    (r = (s.dir.get? n).map SpoolFile.size ∨ r = none ∧ ¬ Healthy) ∧ s' = s
  | s, .readFile n => fun r s' =>
    (r = (s.dir.get? n).map SpoolFile.item ∨ r = none ∧ ¬ Healthy) ∧
      s' = s.recordIf (Option.isNone r) .interrupted
  | s, .renameBad n => fun r s' => if r = true then s' = s.drop n
    else ¬ Healthy ∧ s' = s.record .interrupted
  | s, .remove n => fun r s' => if r = true then s' = s.drop n
    -- the drain goes on past a rejected batch whose file stays
    else ¬ Healthy ∧ s' = s.recordIf (decide (lastAnswer s.log = some none)) .interrupted
  | s, .writeFile _ _ => fun r s' => (r = false → ¬ Healthy) ∧ s' = s
  | s, .rename n f => fun r s' => if r = true then s' = s.store n f else ¬ Healthy ∧ s' = s
  | s, .start id => fun _ s' => s' = s.record (.started id s.spooled)
  | _, .cutOff => fun r _ => nomatch r

/-! ### A world that follows a script -/

/-- The caller's context is as given, the hub answers each batch in its way, the clock stands
still, and files do not fail. -/
def scripted (caller : Option CtxErr) (hub : Batch → Option PostErr) (clock : Time) :
    AgentState → (o : AgentOp) → Option (o.Answer × AgentState)
  | s, .ctxErr .caller => some (caller, s.recordIf caller.isSome .interrupted)
  | s, .ctxErr .replay => some (none, s)
  | s, .wait _ => some (true, s)
  | s, .postOnce c attempt b => some (hub b,
    (((s.record (.posted c b.batchID)).recordIf (hub b).isNone (.accepted c b.batchID)).record
      (.answered c b (hub b))).recordIf
        (retryable (hub b) && decide (c = .replay ∧ attempt = retryAttempts)) .interrupted)
  | s, .now => some (clock, s)
  | s, .names => some (some s.dir.keys, s)
  | s, .stat n => some ((s.dir.get? n).map SpoolFile.size, s)
  | s, .readFile n => some ((s.dir.get? n).map SpoolFile.item,
    s.recordIf ((s.dir.get? n).map SpoolFile.item).isNone .interrupted)
  | s, .renameBad n => some (true, s.drop n)
  | s, .remove n => some (true, s.drop n)
  | s, .writeFile _ _ => some (true, s)
  | s, .rename n f => some (true, s.store n f)
  | s, .start id => some ((), s.record (.started id s.spooled))
  | _, .cutOff => none

/-- A script is one way in which the world may answer. -/
theorem agentEffect_of_scripted {Healthy : Prop} {caller : Option CtxErr}
    {hub : Batch → Option PostErr} {clock : Time}
    (hhub : ∀ b, hub b ≠ some .canceled ∧ ∀ code, hub b = some (.status code) → 300 ≤ code)
    (s : AgentState) (o : AgentOp) (r : o.Answer) (s' : AgentState)
    (h : scripted caller hub clock s o = some (r, s')) : agentEffect Healthy s o r s' := by
  cases o with
  | ctxErr c =>
    cases c with
    | caller =>
      cases h
      exact ⟨fun hc => (nomatch hc), rfl⟩
    | replay =>
      cases h
      exact ⟨fun _ hr => (nomatch hr), rfl⟩
  | postOnce c attempt b =>
    cases h
    exact ⟨(hub b).isNone, fun hr => by rw [hr]; rfl, (hhub b).2, fun _ => (hhub b).1, rfl⟩
  | names =>
    cases h
    exact ⟨.inl rfl, rfl⟩
  | stat n =>
    cases h
    exact ⟨.inl rfl, rfl⟩
  | readFile n =>
    cases h
    exact ⟨.inl rfl, rfl⟩
  | writeFile n f =>
    cases h
    exact ⟨fun hr => (nomatch hr), rfl⟩
  | cutOff => exact nomatch r
  | wait _ | now | renameBad _ | remove _ | rename _ _ | start _ =>
    cases h
    rfl

end Argus
