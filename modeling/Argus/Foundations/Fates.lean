import Mathlib.Data.Nat.Notation

/-!
# Fates of operations

An operation on something remote is answered, fails without an effect, or is carried out while its
answer is lost. Of a list of operations that is left at the first error, `answeredOps` are those
that were answered and `lostOp` is the one, if there is one, that was carried out all the same.
The lemmas say what they are of a list and of two lists one after the other.
-/

namespace Foundations

/-- What becomes of an operation. -/
inductive Fate
  | answered
  /-- It has no effect. -/
  | failed
  /-- It is carried out, and its answer is lost. -/
  | unanswered
  deriving DecidableEq

section Sequences

variable {α β : Type} {fate : α → Fate} {a : α} {l l' : List α}

/-- The operations before the first one that is not answered. -/
def answeredOps (fate : α → Fate) (l : List α) : List α :=
  l.takeWhile fun a => decide (fate a = .answered)

/-- The first operation that is not answered, if it is carried out. -/
def lostOp (fate : α → Fate) (l : List α) : Option α :=
  (l.find? fun a => decide (fate a ≠ .answered)).filter fun a => decide (fate a = .unanswered)

@[simp]
theorem answeredOps_nil : answeredOps fate [] = [] := rfl

@[simp]
theorem lostOp_nil : lostOp fate [] = none := rfl

theorem answeredOps_cons (h : fate a = .answered) (l : List α) :
    answeredOps fate (a :: l) = a :: answeredOps fate l :=
  List.takeWhile_cons_of_pos (decide_eq_true h)

theorem answeredOps_cons_of_ne (h : fate a ≠ .answered) (l : List α) :
    answeredOps fate (a :: l) = [] :=
  List.takeWhile_cons_of_neg (by simpa using h)

theorem lostOp_cons (h : fate a = .answered) (l : List α) :
    lostOp fate (a :: l) = lostOp fate l := by
  rw [lostOp, List.find?_cons_of_neg (by simpa using h), lostOp]

theorem lostOp_cons_of_ne (h : fate a ≠ .answered) (l : List α) :
    lostOp fate (a :: l) = if fate a = .unanswered then some a else none := by
  rw [lostOp, List.find?_cons_of_pos (by simpa using h), Option.filter_some]
  simp only [decide_eq_true_eq]

/-- Behind operations that are all answered the list goes on. -/
theorem answeredOps_append (h : ∀ a ∈ l, fate a = .answered) :
    answeredOps fate (l ++ l') = l ++ answeredOps fate l' := by
  induction l with
  | nil => rfl
  | cons a l ih =>
    obtain ⟨ha, hl⟩ := List.forall_mem_cons.mp h
    rw [List.cons_append, answeredOps_cons ha, ih hl, List.cons_append]

theorem lostOp_append (h : ∀ a ∈ l, fate a = .answered) :
    lostOp fate (l ++ l') = lostOp fate l' := by
  induction l with
  | nil => rfl
  | cons a l ih =>
    obtain ⟨ha, hl⟩ := List.forall_mem_cons.mp h
    rw [List.cons_append, lostOp_cons ha, ih hl]

/-- Behind an error the list does not go on. -/
theorem answeredOps_append_of_not (h : ¬ ∀ a ∈ l, fate a = .answered) :
    answeredOps fate (l ++ l') = answeredOps fate l := by
  induction l with
  | nil => exact absurd (fun a ha => absurd ha List.not_mem_nil) h
  | cons a l ih =>
    rw [List.cons_append]
    by_cases ha : fate a = .answered
    · rw [answeredOps_cons ha, answeredOps_cons ha,
        ih fun hl => h (List.forall_mem_cons.mpr ⟨ha, hl⟩)]
    · rw [answeredOps_cons_of_ne ha, answeredOps_cons_of_ne ha]

theorem lostOp_append_of_not (h : ¬ ∀ a ∈ l, fate a = .answered) :
    lostOp fate (l ++ l') = lostOp fate l := by
  induction l with
  | nil => exact absurd (fun a ha => absurd ha List.not_mem_nil) h
  | cons a l ih =>
    rw [List.cons_append]
    by_cases ha : fate a = .answered
    · rw [lostOp_cons ha, lostOp_cons ha, ih fun hl => h (List.forall_mem_cons.mpr ⟨ha, hl⟩)]
    · rw [lostOp_cons_of_ne ha, lostOp_cons_of_ne ha]

theorem answeredOps_of_all (h : ∀ a ∈ l, fate a = .answered) : answeredOps fate l = l := by
  have happend : answeredOps fate (l ++ []) = l ++ answeredOps fate [] := answeredOps_append h
  rwa [List.append_nil, answeredOps_nil, List.append_nil] at happend

theorem lostOp_of_all (h : ∀ a ∈ l, fate a = .answered) : lostOp fate l = none := by
  have happend : lostOp fate (l ++ []) = lostOp fate [] := lostOp_append h
  rwa [List.append_nil, lostOp_nil] at happend

/-- Operations that stand for others have their fates. -/
theorem answeredOps_map (f : β → α) (l : List β) :
    answeredOps fate (l.map f) = (answeredOps (fun b => fate (f b)) l).map f := by
  rw [answeredOps, List.takeWhile_map, answeredOps]
  rfl

theorem lostOp_map (f : β → α) (l : List β) :
    lostOp fate (l.map f) = (lostOp (fun b => fate (f b)) l).map f := by
  rw [lostOp, List.find?_map, lostOp]
  exact Option.filter_map

theorem mem_of_mem_answeredOps (h : a ∈ answeredOps fate l) : a ∈ l :=
  (List.takeWhile_sublist _).subset h

/-- What is lost is an operation of the list. -/
theorem mem_of_lostOp (h : lostOp fate l = some a) : a ∈ l :=
  List.mem_of_find?_eq_some (Option.filter_eq_some_iff.mp h).1

end Sequences

end Foundations
