import Mathlib.Logic.Relation

/-!
# Programs over operations

`Program O R α` is the free monad over a signature of operations: a finite tree that calls
`o : O`, continues with the answer `R o`, and returns an `α`. The same tree is read in two
ways. A *sequential* reading answers every operation from a state (`Program.run`). A
*relational* reading takes the answers from an environment `E : Effect σ O R` that relates a
state, an operation, an answer and a next state; one call is one `Step`, so that trees of
several threads can be interleaved by whoever owns the state.

Facts about the relational reading are proved with `Program.wp E J p Q s`: from the state `s`
every call of `p` lands in a state satisfying the invariant `J`, and every return satisfies
the postcondition `Q`. The rules `wp_bind`, `wp_mono` and `wp_of_steps` are all that a user
needs: the first two take a program apart, the last one turns a proved `wp` into a statement
about every partial run.

There is no unbounded loop in the tree. A loop is a recursion on a fuel whose exhausted case
calls an operation without answers, so that a cut-off run is stuck and returns nothing.
-/

namespace Foundations

/-- A program over the operations `O`, where `R o` are the answers to `o`. -/
inductive Program (O : Type) (R : O → Type) (α : Type) : Type
  | ret (a : α) : Program O R α
  | call (o : O) (k : R o → Program O R α) : Program O R α

/-- An environment: which answer an operation may get in a state, and the state after it. -/
abbrev Effect (σ : Type) (O : Type) (R : O → Type) : Type := σ → (o : O) → R o → σ → Prop

namespace Program

variable {O : Type} {R : O → Type} {σ α β γ : Type}

/-- Sequencing: graft `f` on the leaves of a program. -/
def bind : Program O R α → (α → Program O R β) → Program O R β
  | ret a, f => f a
  | call o k, f => call o fun r => (k r).bind f

instance : Monad (Program O R) where
  pure := ret
  bind := bind

/-- The program that makes one call and returns its answer. -/
def perform (o : O) : Program O R (R o) := call o ret

@[simp] theorem pure_def (a : α) : (pure a : Program O R α) = ret a := rfl

@[simp] theorem ret_bind (a : α) (f : α → Program O R β) : (ret a >>= f) = f a := rfl

@[simp] theorem call_bind (o : O) (k : R o → Program O R α) (f : α → Program O R β) :
    (call o k >>= f) = call o fun r => k r >>= f := rfl

@[simp] theorem perform_bind (o : O) (f : R o → Program O R β) :
    (perform o >>= f) = call o f := rfl

theorem bind_assoc (p : Program O R α) (f : α → Program O R β) (g : β → Program O R γ) :
    (p >>= f) >>= g = p >>= fun a => f a >>= g := by
  induction p with
  | ret a => rfl
  | call o k ih => exact congrArg (call o) (funext fun r => ih r)

/-! ### The sequential reading -/

/-- Run a program against a state that answers every operation. -/
def run (answer : σ → (o : O) → R o × σ) : Program O R α → σ → α × σ
  | ret a, s => (a, s)
  | call o k, s => (k (answer s o).1).run answer (answer s o).2

@[simp] theorem run_ret (answer : σ → (o : O) → R o × σ) (a : α) (s : σ) :
    (ret a : Program O R α).run answer s = (a, s) := rfl

@[simp] theorem run_call (answer : σ → (o : O) → R o × σ) (o : O) (k : R o → Program O R α)
    (s : σ) : (call o k).run answer s = (k (answer s o).1).run answer (answer s o).2 := rfl

theorem run_bind (answer : σ → (o : O) → R o × σ) (p : Program O R α)
    (f : α → Program O R β) (s : σ) :
    (p >>= f).run answer s = (f (p.run answer s).1).run answer (p.run answer s).2 := by
  induction p generalizing s with
  | ret a => rfl
  | call o k ih => exact ih (answer s o).1 (answer s o).2

/-! ### The relational reading -/

/-- One call, answered by the environment. -/
inductive Step (E : Effect σ O R) : Program O R α × σ → Program O R α × σ → Prop
  | call {o : O} {k : R o → Program O R α} {s : σ} {r : R o} {s' : σ} (h : E s o r s') :
      Step E (.call o k, s) (k r, s')

/-- A partial run: finitely many calls. -/
abbrev Steps (E : Effect σ O R) : Program O R α × σ → Program O R α × σ → Prop :=
  Relation.ReflTransGen (Step E)

/-- From `s`, every call of the program keeps `J` and every return satisfies `Q`. -/
def wp (E : Effect σ O R) (J : σ → Prop) : Program O R α → (α → σ → Prop) → σ → Prop
  | ret a, Q, s => Q a s
  | call o k, Q, s => ∀ r s', E s o r s' → J s' ∧ (k r).wp E J Q s'

variable {E : Effect σ O R} {J : σ → Prop}

@[simp] theorem wp_ret {a : α} {Q : α → σ → Prop} {s : σ} :
    (ret a : Program O R α).wp E J Q s ↔ Q a s := Iff.rfl

@[simp] theorem wp_call {o : O} {k : R o → Program O R α} {Q : α → σ → Prop} {s : σ} :
    (call o k).wp E J Q s ↔ ∀ r s', E s o r s' → J s' ∧ (k r).wp E J Q s' := Iff.rfl

/-- **Sequencing rule.** -/
theorem wp_bind {p : Program O R α} {f : α → Program O R β} {Q : β → σ → Prop} {s : σ} :
    (p >>= f).wp E J Q s ↔ p.wp E J (fun a s' => (f a).wp E J Q s') s := by
  induction p generalizing s with
  | ret a => exact Iff.rfl
  | call o k ih =>
    refine forall_congr' fun r => forall_congr' fun s' => imp_congr_right fun _ => ?_
    exact and_congr_right fun _ => ih r

/-- **Consequence rule.** -/
theorem wp_mono {J' : σ → Prop} {p : Program O R α} {Q Q' : α → σ → Prop} {s : σ}
    (hJ : ∀ s, J s → J' s) (hQ : ∀ a s, Q a s → Q' a s) (h : p.wp E J Q s) :
    p.wp E J' Q' s := by
  induction p generalizing s with
  | ret a => exact hQ a s h
  | call o k ih => exact fun r s' hE => ⟨hJ s' (h r s' hE).1, ih r (h r s' hE).2⟩

/-- Consequence in the postcondition only. -/
theorem wp_post {p : Program O R α} {Q Q' : α → σ → Prop} {s : σ}
    (h : p.wp E J Q s) (hQ : ∀ a s, Q a s → Q' a s) : p.wp E J Q' s :=
  wp_mono (fun _ => id) hQ h

/-- Sequencing with a stated intermediate assertion. -/
theorem wp_seq {p : Program O R α} {f : α → Program O R β} {P : α → σ → Prop}
    {Q : β → σ → Prop} {s : σ} (hp : p.wp E J P s)
    (hf : ∀ a s', P a s' → (f a).wp E J Q s') : (p >>= f).wp E J Q s :=
  wp_bind.mpr (wp_post hp hf)

/-- One step of a safe program keeps the invariant and leaves a safe program. -/
theorem wp_step {p p' : Program O R α} {Q : α → σ → Prop} {s s' : σ}
    (h : p.wp E J Q s) (hstep : Step E (p, s) (p', s')) : J s' ∧ p'.wp E J Q s' := by
  cases hstep with
  | call hE => exact h _ _ hE

/-- **Soundness.** Every partial run of a safe program stays inside the invariant, and what
is left to run is safe. -/
theorem wp_of_steps {p p' : Program O R α} {Q : α → σ → Prop} {s s' : σ} (hs : J s)
    (h : p.wp E J Q s) (hrun : Steps E (p, s) (p', s')) : J s' ∧ p'.wp E J Q s' := by
  suffices ∀ c, Steps E (p, s) c → J c.2 ∧ c.1.wp E J Q c.2 from this _ hrun
  intro c hc
  induction hc with
  | refl => exact ⟨hs, h⟩
  | tail _ hstep ih =>
    obtain ⟨_, ih⟩ := ih
    exact wp_step ih hstep

/-- A returning run of a safe program ends in its postcondition. -/
theorem wp_of_returns {p : Program O R α} {Q : α → σ → Prop} {s s' : σ} {a : α} (hs : J s)
    (h : p.wp E J Q s) (hrun : Steps E (p, s) (ret a, s')) : Q a s' :=
  (wp_of_steps hs h hrun).2

/-! ### Programs that make certain calls only -/

/-- Every call in the program satisfies `P`. -/
def Calls (P : O → Prop) : Program O R α → Prop
  | ret _ => True
  | call o k => P o ∧ ∀ r, (k r).Calls P

@[simp] theorem calls_ret {P : O → Prop} {a : α} : (ret a : Program O R α).Calls P := trivial

theorem Calls.mono {P P' : O → Prop} {p : Program O R α} (h : p.Calls P)
    (hP : ∀ o, P o → P' o) : p.Calls P' := by
  induction p with
  | ret a => trivial
  | call o k ih => exact ⟨hP o h.1, fun r => ih r (h.2 r)⟩

theorem Calls.bind {P : O → Prop} {p : Program O R α} {f : α → Program O R β}
    (hp : p.Calls P) (hf : ∀ a, (f a).Calls P) : (p >>= f).Calls P := by
  induction p with
  | ret a => exact hf a
  | call o k ih => exact ⟨hp.1, fun r => ih r (hp.2 r)⟩

/-- **Invariant rule.** What every call keeps, the program keeps. -/
theorem wp_of_calls {P : O → Prop} {p : Program O R α} (hp : p.Calls P)
    (hstep : ∀ s o r s', P o → E s o r s' → J s → J s') {s : σ} (hs : J s) :
    p.wp E J (fun _ s' => J s') s := by
  induction p generalizing s with
  | ret a => exact hs
  | call o k ih =>
    intro r s' hE
    have hs' := hstep s o r s' hp.1 hE hs
    exact ⟨hs', ih r (hp.2 r) hs'⟩

/-! ### Runs against given answers -/

/-- Run a program against answers that may be missing. -/
def replay (answer : σ → (o : O) → Option (R o × σ)) : Program O R α → σ → Option (α × σ)
  | ret a, s => some (a, s)
  | call o k, s => (answer s o).bind fun rs => (k rs.1).replay answer rs.2

theorem replay_bind (answer : σ → (o : O) → Option (R o × σ)) (p : Program O R α)
    (f : α → Program O R β) (s : σ) :
    (p >>= f).replay answer s = (p.replay answer s).bind fun r => (f r.1).replay answer r.2 := by
  induction p generalizing s with
  | ret a => rfl
  | call o k ih =>
    rw [call_bind, replay, replay, Option.bind_assoc]
    exact congrArg (Option.bind (answer s o)) (funext fun rs => ih rs.1 rs.2)

/-- What every answer keeps, such a run keeps. -/
theorem keeps_of_replay {answer : σ → (o : O) → Option (R o × σ)}
    (hstep : ∀ s o r s', answer s o = some (r, s') → J s → J s') {p : Program O R α} {s s' : σ}
    {a : α} (hrun : p.replay answer s = some (a, s')) (hs : J s) : J s' := by
  induction p generalizing s with
  | ret b =>
    obtain ⟨-, rfl⟩ := Prod.mk.inj (Option.some.inj hrun)
    exact hs
  | call o k ih =>
    obtain ⟨⟨r, s₁⟩, hr, hrest⟩ := Option.bind_eq_some_iff.mp hrun
    exact ih r hrest (hstep s o r s₁ hr hs)

/-- The calls of such a run with their answers, up to the end or to a missing answer. -/
def trace (answer : σ → (o : O) → Option (R o × σ)) : Program O R α → σ → List (Σ o, R o)
  | ret _, _ => []
  | call o k, s => (answer s o).elim [] fun rs => ⟨o, rs.1⟩ :: (k rs.1).trace answer rs.2

@[simp] theorem trace_ret (answer : σ → (o : O) → Option (R o × σ)) (a : α) (s : σ) :
    (ret a : Program O R α).trace answer s = [] := rfl

theorem trace_call {answer : σ → (o : O) → Option (R o × σ)} {o : O} {k : R o → Program O R α}
    {s s' : σ} {r : R o} (h : answer s o = some (r, s')) :
    (call o k).trace answer s = ⟨o, r⟩ :: (k r).trace answer s' := by
  rw [trace, h]
  rfl

theorem replay_call {answer : σ → (o : O) → Option (R o × σ)} {o : O} {k : R o → Program O R α}
    {s s' : σ} {r : R o} (h : answer s o = some (r, s')) :
    (call o k).replay answer s = (k r).replay answer s' := by
  rw [replay, h]
  rfl

/-- What follows is only called when a program comes to its end. -/
theorem trace_bind (answer : σ → (o : O) → Option (R o × σ)) (p : Program O R α)
    (f : α → Program O R β) (s : σ) :
    (p >>= f).trace answer s = p.trace answer s ++
      (p.replay answer s).elim [] fun r => (f r.1).trace answer r.2 := by
  induction p generalizing s with
  | ret a => rfl
  | call o k ih =>
    rw [call_bind, trace, trace, replay]
    cases answer s o with
    | none => rfl
    | some rs => exact congrArg (List.cons ⟨o, rs.1⟩) (ih rs.1 rs.2)

/-- A program that is answered as the environment may answer has a run to the end. -/
theorem steps_of_replay {answer : σ → (o : O) → Option (R o × σ)}
    (h : ∀ s o r s', answer s o = some (r, s') → E s o r s') {p : Program O R α} {s s' : σ} {a : α}
    (hrun : p.replay answer s = some (a, s')) : Steps E (p, s) (ret a, s') := by
  induction p generalizing s with
  | ret b =>
    obtain ⟨rfl, rfl⟩ := Prod.mk.inj (Option.some.inj hrun)
    exact Relation.ReflTransGen.refl
  | call o k ih =>
    obtain ⟨⟨r, s₁⟩, hr, hrest⟩ := Option.bind_eq_some_iff.mp hrun
    exact Relation.ReflTransGen.head (Step.call (h s o r s₁ hr)) (ih r hrest)

end Program

end Foundations
