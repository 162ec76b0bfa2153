import Mathlib.Algebra.BigOperators.Group.List.Basic
import Mathlib.Algebra.GroupWithZero.Nat
import Mathlib.Data.List.Infix
import Mathlib.Tactic.SplitIfs

/-!
# Bounded queues

A queue, oldest element first, whose elements have sizes and may not be larger together than a
limit. `Keeps` says that the fewest oldest elements go that have to: what is left is the longest
end of the queue that fits. `fit` drops elements one by one until that is so (`keeps_fit`). An
element is put at the end and then the rest is made to fit, or room is made for it before
(`fit_append`); both come to the same.

`Runs` are the runs of a system of labelled steps with outputs, and `Runs.simulates` carries a
simulation of the steps to the runs.
-/

namespace Foundations

/-! ### Queues -/

namespace BoundedQueue

variable {α : Type} (size : α → ℕ)

/-- The size of all elements. -/
def total (q : List α) : ℕ := (q.map size).sum

/-- Drop the oldest elements until the others fit. -/
def fit (limit : ℕ) : List α → List α
  | [] => []
  | x :: q => if total size (x :: q) ≤ limit then x :: q else fit limit q

/-- Of a queue only an end is kept that fits, and every other end that fits is shorter. -/
structure Keeps (limit : ℕ) (q kept : List α) : Prop where
  suffix : kept <:+ q
  fits : total size kept ≤ limit
  longest : ∀ q', q' <:+ q → total size q' ≤ limit → q' <:+ kept

/-- Drop the oldest elements until there is room for more. -/
def makeRoom (limit incoming : ℕ) : List α → List α
  | [] => []
  | x :: q => if limit < total size (x :: q) + incoming then makeRoom limit incoming q else x :: q

/-- The elements that go for it. -/
def evicted (limit incoming : ℕ) : List α → List α
  | [] => []
  | x :: q => if limit < total size (x :: q) + incoming then x :: evicted limit incoming q else []

variable {size} {limit : ℕ}

@[simp] theorem total_nil : total size [] = 0 := rfl

@[simp] theorem total_cons (x : α) (q : List α) : total size (x :: q) = size x + total size q := by
  rw [total, List.map_cons, List.sum_cons, total]

@[simp] theorem total_append (q q' : List α) :
    total size (q ++ q') = total size q + total size q' := by
  rw [total, List.map_append, List.sum_append, total, total]

theorem fit_suffix (q : List α) : fit size limit q <:+ q := by
  induction q with
  | nil => exact List.suffix_refl _
  | cons x q ih =>
    rw [fit]
    split_ifs
    · exact List.suffix_refl _
    · exact ih.trans (List.suffix_cons x q)

theorem total_fit_le (q : List α) : total size (fit size limit q) ≤ limit := by
  induction q with
  | nil => exact Nat.zero_le _
  | cons x q ih =>
    rw [fit]
    split_ifs with h
    · exact h
    · exact ih

/-- The fewest are dropped: every end of the queue that fits is an end of what is kept. -/
theorem fit_longest {q q' : List α} (h : q' <:+ q) (hle : total size q' ≤ limit) :
    q' <:+ fit size limit q := by
  induction q with
  | nil => exact h
  | cons x q ih =>
    rw [fit]
    split_ifs with hfit
    · exact h
    · rcases List.suffix_cons_iff.mp h with rfl | h
      · exact absurd hle hfit
      · exact ih h

theorem keeps_fit (q : List α) : Keeps size limit q (fit size limit q) where
  suffix := fit_suffix q
  fits := total_fit_le q
  longest _ h hle := fit_longest h hle

/-- Room is made before the element is there, or after. -/
theorem fit_append {x : α} (hx : size x ≤ limit) (q : List α) :
    fit size limit (q ++ [x]) = makeRoom size limit (size x) q ++ [x] := by
  induction q with
  | nil =>
    rw [List.nil_append, fit, if_pos (by simpa using hx)]
    rfl
  | cons y q ih =>
    have hone : total size [x] = size x := List.sum_singleton
    have htotal : total size (y :: (q ++ [x])) = total size (y :: q) + size x := by
      rw [← List.cons_append, total_append, hone]
    rw [List.cons_append, fit, makeRoom, htotal, ih]
    split_ifs with h h' h'
    · omega
    · rfl
    · rfl
    · omega

theorem makeRoom_suffix (incoming : ℕ) (q : List α) : makeRoom size limit incoming q <:+ q := by
  induction q with
  | nil => exact List.suffix_refl _
  | cons x q ih =>
    rw [makeRoom]
    split_ifs
    · exact ih.trans (List.suffix_cons x q)
    · exact List.suffix_refl _

/-- What goes and what stays. -/
theorem evicted_append_makeRoom (incoming : ℕ) (q : List α) :
    evicted size limit incoming q ++ makeRoom size limit incoming q = q := by
  induction q with
  | nil => rfl
  | cons x q ih =>
    rw [evicted, makeRoom]
    split_ifs
    · rw [List.cons_append, ih]
    · rfl

end BoundedQueue

/-! ### Runs with outputs -/

section Runs

variable {ι σ τ ω : Type}

/-- The runs of a system: the labels of the steps, the state before, the outputs of the steps and
the state after. -/
inductive Runs (step : ι → σ → ω → σ → Prop) : List ι → σ → List ω → σ → Prop
  | nil (s : σ) : Runs step [] s [] s
  | cons {i : ι} {is : List ι} {s s' s'' : σ} {o : ω} {os : List ω} (h : step i s o s')
      (hs : Runs step is s' os s'') : Runs step (i :: is) s (o :: os) s''

/-- **Simulation.** A function between the states that takes steps to steps takes runs to runs. -/
theorem Runs.simulates {step : ι → σ → ω → σ → Prop} {step' : ι → τ → ω → τ → Prop} {f : σ → τ}
    (h : ∀ i s o s', step i s o s' → step' i (f s) o (f s')) {is : List ι} {s s' : σ}
    {os : List ω} (hrun : Runs step is s os s') : Runs step' is (f s) os (f s') := by
  induction hrun with
  | nil s => exact .nil (f s)
  | cons hstep _ ih => exact .cons (h _ _ _ _ hstep) ih

end Runs

end Foundations
