import Argus.Foundations.Fates
import Argus.Foundations.Program
import Mathlib.Tactic.SplitIfs

/-!
# Transactions

A database session that runs its statements in transactions: what a transaction has written is
seen by others when it is committed, and not at all when it is rolled back. A statement may fail
for its content, by `apply`. Every operation but a rollback has a fate by its number: it may fail,
or be carried out while its answer is lost.

`execAll` runs a list of statements up to the first error and `transaction` puts a program between
a begin and a commit. `run_transaction` says what a transaction of statements leaves: all of them
when every operation is answered, and else nothing, unless it is the answer of the commit alone that
is lost.
-/

namespace Foundations

/-- The operations of a session, with statements `S`. -/
inductive TxOp (S : Type)
  | begin
  | exec (s : S)
  | commit
  | rollback

/-- The answers: `false` and `none` are errors, and a statement has a result. -/
abbrev TxOp.Answer (ρ : Type) {S : Type} : TxOp S → Type
  | begin => Bool
  | exec _ => Option ρ
  | commit => Bool
  | rollback => Unit

/-- A program over a session. -/
abbrev TxM (S ρ α : Type) : Type := Program (TxOp S) (TxOp.Answer ρ) α

/-- A session: what is committed, what the open transaction sees, and the operations so far. -/
structure TxSession (σ : Type) where
  committed : σ
  working : Option σ
  count : ℕ

section Sessions

variable {σ S ρ : Type}

/-- The answers of a database in which the operations have these fates. A commit ends its
transaction, whatever becomes of it. -/
def txAnswer (apply : σ → S → Option (ρ × σ)) (fate : ℕ → Fate) (s : TxSession σ) :
    (o : TxOp S) → TxOp.Answer ρ o × TxSession σ
  | .begin =>
    match fate s.count with
    | .answered => (true, ⟨s.committed, some s.committed, s.count + 1⟩)
    | _ => (false, { s with count := s.count + 1 })
  | .exec st =>
    match fate s.count, s.working.bind fun w => apply w st with
    | .answered, some (r, w) => (some r, ⟨s.committed, some w, s.count + 1⟩)
    | .unanswered, some (_, w) => (none, ⟨s.committed, some w, s.count + 1⟩)
    | _, _ => (none, { s with count := s.count + 1 })
  | .commit =>
    match fate s.count with
    | .answered => (true, ⟨s.working.getD s.committed, none, s.count + 1⟩)
    | .unanswered => (false, ⟨s.working.getD s.committed, none, s.count + 1⟩)
    | .failed => (false, ⟨s.committed, none, s.count + 1⟩)
  | .rollback => ((), { s with working := none })

/-- Begin a transaction. -/
abbrev beginTx : TxM S ρ Bool := .call .begin .ret

/-- Run a statement. -/
abbrev execTx (s : S) : TxM S ρ (Option ρ) := .call (.exec s) .ret

/-- Commit. -/
abbrev commitTx : TxM S ρ Bool := .call .commit .ret

/-- Roll back. -/
abbrev rollbackTx : TxM S ρ Unit := .call .rollback .ret

/-- Run statements up to the first error. A statement that cannot be made is an error too. -/
def execAll : List (Option S) → TxM S ρ Bool
  | [] => pure true
  | none :: _ => pure false
  | some s :: rest => do
    match ← execTx s with
    | none => pure false
    | some _ => execAll rest

/-- A program in a transaction of its own. -/
def transaction (body : TxM S ρ Bool) : TxM S ρ Bool := do
  if ← beginTx then
    if ← body then commitTx
    else
      rollbackTx
      pure false
  else pure false

/-- What statements leave, if none of them fails for its content. -/
def applyAll (apply : σ → S → Option (ρ × σ)) (w : σ) : List (Option S) → Option σ
  | [] => some w
  | none :: _ => none
  | some s :: rest => (apply w s).bind fun r => applyAll apply r.2 rest

/-- The operations of a transaction of `n` statements, the first of them number `i`, are answered
up to the commit, and the answer of the commit is lost. -/
def CommitLost (fate : ℕ → Fate) (i n : ℕ) : Prop :=
  (∀ j < n + 1, fate (i + j) = .answered) ∧ fate (i + n + 1) = .unanswered

instance (fate : ℕ → Fate) (i n : ℕ) : Decidable (CommitLost fate i n) :=
  inferInstanceAs (Decidable (_ ∧ _))

/-- What a transaction of statements leaves when it ends in an error. -/
def leftByError (apply : σ → S → Option (ρ × σ)) (fate : ℕ → Fate) (i : ℕ) (l : List (Option S))
    (c : σ) : σ :=
  if CommitLost fate i l.length then (applyAll apply c l).getD c else c

variable {apply : σ → S → Option (ρ × σ)} {fate : ℕ → Fate}

/-- A transaction whose commit is not reached leaves nothing. -/
theorem leftByError_of_ne {i : ℕ} {l : List (Option S)} {c : σ} {j : ℕ} (hj : j < l.length + 1)
    (hfate : fate (i + j) ≠ .answered) : leftByError apply fate i l c = c :=
  if_neg fun hlost => hfate (hlost.1 j hj)

/-- A transaction with a statement that fails for its content leaves nothing. -/
theorem leftByError_of_none {i : ℕ} {l : List (Option S)} {c : σ} (h : applyAll apply c l = none) :
    leftByError apply fate i l c = c := by
  rw [leftByError, h, Option.getD_none, ite_self]

/-- Where every operation is answered, an error leaves nothing. -/
theorem leftByError_of_answered (h : ∀ i, fate i = .answered) (i : ℕ) (l : List (Option S))
    (c : σ) :
    leftByError apply fate i l c = c :=
  if_neg fun hlost => absurd ((h _).symm.trans hlost.2) (by decide)

theorem execAll_append (l l' : List (Option S)) :
    (execAll (l ++ l') : TxM S ρ Bool) =
      (do if ← execAll l then execAll l' else pure false) := by
  induction l with
  | nil => rfl
  | cons st l ih =>
    cases st with
    | none => rfl
    | some s =>
      refine congrArg (Program.call (TxOp.exec s)) (funext fun r => ?_)
      cases r with
      | none => rfl
      | some r => exact ih

theorem applyAll_append (w : σ) (l l' : List (Option S)) :
    applyAll apply w (l ++ l') = (applyAll apply w l).bind fun w => applyAll apply w l' := by
  induction l generalizing w with
  | nil => rfl
  | cons st l ih =>
    cases st with
    | none => rfl
    | some s =>
      rw [List.cons_append, applyAll, applyAll, Option.bind_assoc]
      exact congrArg (Option.bind (apply w s)) (funext fun r => ih r.2)

/-- An operation of a list of them is not answered. -/
theorem exists_succ_ne {n i : ℕ} (h : ∃ j < n, fate (i + 1 + j) ≠ .answered) :
    ∃ j < n + 1, fate (i + j) ≠ .answered := by
  obtain ⟨j, hj, hfate⟩ := h
  refine ⟨j + 1, Nat.succ_lt_succ hj, ?_⟩
  rwa [Nat.add_comm j 1, ← Nat.add_assoc]

theorem forall_lt_succ_fate {n i : ℕ} (h : fate i = .answered)
    (hrest : ∀ j < n, fate (i + 1 + j) = .answered) : ∀ j < n + 1, fate (i + j) = .answered := by
  rintro (- | j) hj
  · exact h
  · rw [Nat.add_comm j 1, ← Nat.add_assoc]
    exact hrest j (Nat.lt_of_succ_lt_succ hj)

variable (apply) in
/-- An operation that is not answered is an error. -/
theorem exec_of_ne (c w : σ) {i : ℕ} (h : fate i ≠ .answered) (s : S) :
    ∃ w', txAnswer apply fate ⟨c, some w, i⟩ (.exec s) = (none, ⟨c, some w', i + 1⟩) := by
  rw [txAnswer]
  rcases hfate : fate i with - | - | -
  · exact absurd hfate h
  · exact ⟨w, by simp⟩
  · rcases hstep : apply w s with - | r
    · exact ⟨w, by simp [hstep]⟩
    · exact ⟨r.2, by simp [hstep]⟩

variable (apply fate) in
/-- **Statements in a transaction.** All of them are run when each is answered and none fails for
its content; else there is an error. What is committed does not change. -/
theorem run_execAll (c w : σ) (i : ℕ) (l : List (Option S)) :
    (∃ w', applyAll apply w l = some w' ∧ (∀ j < l.length, fate (i + j) = .answered) ∧
      (execAll l).run (txAnswer apply fate) ⟨c, some w, i⟩ =
        (true, ⟨c, some w', i + l.length⟩)) ∨
    ((applyAll apply w l = none ∨ ∃ j < l.length, fate (i + j) ≠ .answered) ∧ ∃ w' i',
      (execAll l).run (txAnswer apply fate) ⟨c, some w, i⟩ = (false, ⟨c, some w', i'⟩)) := by
  induction l generalizing w i with
  | nil => exact .inl ⟨w, rfl, fun j hj => absurd hj (Nat.not_lt_zero j), rfl⟩
  | cons st l ih =>
    cases st with
    | none => exact .inr ⟨.inl rfl, w, i, rfl⟩
    | some s =>
      rw [execAll, applyAll]
      simp only [Program.call_bind, Program.ret_bind, Program.run_call]
      by_cases hi : fate i ≠ .answered
      · obtain ⟨w', hanswer⟩ := exec_of_ne apply c w hi s
        refine .inr ⟨.inr ⟨0, Nat.succ_pos _, hi⟩, w', i + 1, ?_⟩
        rw [hanswer]
        rfl
      replace hi := Decidable.not_not.mp hi
      cases hstep : apply w s with
      | none =>
        refine .inr ⟨.inl rfl, w, i + 1, ?_⟩
        simp [txAnswer, hi, hstep]
      | some r =>
        have hanswer : txAnswer apply fate ⟨c, some w, i⟩ (.exec s) =
            (some r.1, ⟨c, some r.2, i + 1⟩) := by
          simp [txAnswer, hi, hstep]
        rw [hanswer, Option.bind_some]
        -- the statements after this one, counted from the next operation
        rcases ih r.2 (i + 1) with ⟨w', happly, hok, hrun⟩ | ⟨hfail, w', i', hrun⟩
        · refine .inl ⟨w', happly, forall_lt_succ_fate hi hok, ?_⟩
          rw [List.length_cons, Nat.add_comm l.length 1, ← Nat.add_assoc]
          exact hrun
        · exact .inr ⟨hfail.imp id exists_succ_ne, w', i', hrun⟩

variable (apply fate) in
/-- **A transaction of statements.** It leaves all of them and is no error when every operation is
answered, the begin and the commit among them. Else it is an error, and leaves nothing unless the
answer of its commit is lost. -/
theorem run_transaction (c : σ) (i : ℕ) (l : List (Option S)) :
    (∃ c', applyAll apply c l = some c' ∧ (∀ j < l.length + 2, fate (i + j) = .answered) ∧
      (transaction (execAll l)).run (txAnswer apply fate) ⟨c, none, i⟩ =
        (true, ⟨c', none, i + l.length + 2⟩)) ∨
    ((applyAll apply c l = none ∨ ∃ j < l.length + 2, fate (i + j) ≠ .answered) ∧ ∃ i',
      (transaction (execAll l)).run (txAnswer apply fate) ⟨c, none, i⟩ =
        (false, ⟨leftByError apply fate i l c, none, i'⟩)) := by
  rw [transaction]
  simp only [Program.call_bind, Program.ret_bind, Program.run_call]
  by_cases hbegin : fate i ≠ .answered
  · have hlost : ¬ CommitLost fate i l.length := fun h => hbegin (h.1 0 (Nat.succ_pos _))
    refine .inr ⟨.inr ⟨0, Nat.succ_pos _, hbegin⟩, i + 1, ?_⟩
    rw [leftByError, if_neg hlost]
    rcases hfate : fate i with - | - | -
    · exact absurd hfate hbegin
    · simp [txAnswer, hfate]
    · simp [txAnswer, hfate]
  replace hbegin := Decidable.not_not.mp hbegin
  have hanswer : txAnswer apply fate ⟨c, none, i⟩ (.begin : TxOp S) =
      (true, ⟨c, some c, i + 1⟩) := by
    simp [txAnswer, hbegin]
  rw [hanswer, if_pos rfl, Program.run_bind]
  rcases run_execAll apply fate c c (i + 1) l with
    ⟨w', happly, hok, hrun⟩ | ⟨hfail, w', i', hrun⟩
  · rw [hrun]
    simp only [if_true, Program.run_call, Program.run_ret]
    -- everything before the commit was answered
    have hbefore : ∀ j < l.length + 1, fate (i + j) = .answered := forall_lt_succ_fate hbegin hok
    have hlast : i + 1 + l.length = i + l.length + 1 := by omega
    rw [hlast]
    rcases hcommit : fate (i + l.length + 1) with - | - | -
    · refine .inl ⟨w', happly, fun j hj => ?_, by simp [txAnswer, hcommit]⟩
      rcases Nat.lt_succ_iff_lt_or_eq.mp hj with hj | rfl
      · exact hbefore j hj
      · exact hcommit
    · have hlost : ¬ CommitLost fate i l.length := fun h =>
        absurd (hcommit.symm.trans h.2) (by decide)
      refine .inr ⟨.inr ⟨l.length + 1, by omega, ?_⟩, i + l.length + 2, ?_⟩
      · rw [← Nat.add_assoc, hcommit]
        decide
      · simp [txAnswer, hcommit, leftByError, hlost]
    · have hlost : CommitLost fate i l.length := ⟨hbefore, hcommit⟩
      refine .inr ⟨.inr ⟨l.length + 1, by omega, ?_⟩, i + l.length + 2, ?_⟩
      · rw [← Nat.add_assoc, hcommit]
        decide
      · simp [txAnswer, hcommit, leftByError, hlost, happly]
  · -- some statement fails, so that nothing is committed
    have hleft : leftByError apply fate i l c = c := by
      rcases hfail with hnone | hj
      · exact leftByError_of_none hnone
      · obtain ⟨j, hj, hfate⟩ := exists_succ_ne hj
        exact leftByError_of_ne hj hfate
    refine .inr ⟨hfail.imp id fun hj => ?_, i', ?_⟩
    · obtain ⟨j, hj, hfate⟩ := exists_succ_ne hj
      exact ⟨j, Nat.lt_succ_of_lt hj, hfate⟩
    · rw [hrun, hleft]
      rfl

end Sessions

end Foundations
