import Mathlib.Data.List.Basic
import Mathlib.Data.List.Infix

/-!
# Notices of a switch

A switch is set when something is lost and reset when it is back, or joins anew. Each change is
told in a notice, and those who decide on a change tell it later. `Coherent` is the law of the
notices in the order of the changes: it goes with the position of the switch, and it is kept by
every change. When a notice overtakes only notices that say the same (`cons_append_of_forall_eq`),
the order in which they are told is that of the changes.
-/

namespace Foundations

/-- What is told of a change. -/
inductive Notice
  | lost
  | back
  | joined
  deriving DecidableEq

/-- Notices that make sense: what is lost twice has been back or has joined in between, and what is
back was lost and has neither been back nor joined since. -/
structure Told (l : List Notice) : Prop where
  lost : ∀ l₁ l₂ l₃, l = l₁ ++ .lost :: (l₂ ++ .lost :: l₃) → ∃ n ∈ l₂, n ≠ .lost
  back : ∀ l₁ l₂, l = l₁ ++ .back :: l₂ → ∃ l₃ l₄, l₁ = l₃ ++ .lost :: l₄ ∧ ∀ n ∈ l₄, n = .lost

/-- Notices that lead to a position of the switch. -/
structure Coherent (l : List Notice) (on : Bool) : Prop where
  told : Told l
  last : l.getLast? = some .lost ↔ on = true

/-- The beginning of notices that make sense. -/
theorem Told.of_append {l l' : List Notice} (h : Told (l ++ l')) : Told l := by
  refine ⟨fun l₁ l₂ l₃ heq => ?_, fun l₁ l₂ heq => ?_⟩
  · exact h.lost l₁ l₂ (l₃ ++ l') (by rw [heq]; simp)
  · exact h.back l₁ (l₂ ++ l') (by rw [heq]; simp)

theorem coherent_nil : Coherent [] false := by
  refine ⟨⟨fun l₁ l₂ l₃ heq => ?_, fun l₁ l₂ heq => ?_⟩, by simp⟩
  · exact absurd heq (by simp)
  · exact absurd heq (by simp)

/-- A list that ends in a member ends there, or the member is before the end. -/
theorem concat_eq_append_cons {α : Type} {l l₁ l₂ : List α} {x y : α}
    (h : l ++ [x] = l₁ ++ y :: l₂) :
    (l₂ = [] ∧ l = l₁ ∧ x = y) ∨ ∃ l₃, l₂ = l₃ ++ [x] ∧ l = l₁ ++ y :: l₃ := by
  rcases List.eq_nil_or_concat l₂ with rfl | ⟨l₃, z, rfl⟩
  · obtain ⟨rfl, hx⟩ := List.append_inj' h rfl
    exact .inl ⟨rfl, rfl, (List.cons.inj hx).1⟩
  · rw [List.concat_eq_append, ← List.cons_append, ← List.append_assoc] at h
    obtain ⟨rfl, hx⟩ := List.append_inj' h rfl
    obtain rfl := (List.cons.inj hx).1
    exact .inr ⟨l₃, List.concat_eq_append, rfl⟩

/-- A notice is added to others that make sense. -/
theorem Told.concat {l : List Notice} {n : Notice} (h : Told l)
    (hlost : n = .lost → l.getLast? ≠ some .lost) (hback : n = .back → l.getLast? = some .lost) :
    Told (l ++ [n]) := by
  refine ⟨fun l₁ l₂ l₃ heq => ?_, fun l₁ l₂ heq => ?_⟩
  · rw [← List.cons_append, ← List.append_assoc] at heq
    rcases concat_eq_append_cons heq with ⟨-, rfl, rfl⟩ | ⟨l₄, -, rfl⟩
    · -- the last notice before is not that it is lost
      have hne := hlost rfl
      by_contra hall
      push Not at hall
      refine hne ?_
      rcases List.eq_nil_or_concat l₂ with rfl | ⟨l₅, m, rfl⟩
      · simp
      · rw [hall m (by simp), List.concat_eq_append, ← List.cons_append, ← List.append_assoc]
        exact List.getLast?_concat
    · exact h.lost l₁ l₂ l₄ (by simp)
  · rcases concat_eq_append_cons heq with ⟨-, rfl, rfl⟩ | ⟨l₃, -, rfl⟩
    · obtain ⟨l₃, rfl⟩ := List.getLast?_eq_some_iff.mp (hback rfl)
      exact ⟨l₃, [], rfl, fun n hn => absurd hn List.not_mem_nil⟩
    · exact h.back l₁ l₃ rfl

/-- The switch is set. -/
theorem Coherent.lost {l : List Notice} (h : Coherent l false) : Coherent (l ++ [.lost]) true :=
  ⟨h.told.concat (fun _ hlast => absurd (h.last.mp hlast) (by decide)) (fun heq => by simp at heq),
    by simp⟩

/-- The switch is reset. -/
theorem Coherent.back {l : List Notice} (h : Coherent l true) : Coherent (l ++ [.back]) false :=
  ⟨h.told.concat (fun heq => by simp at heq) (fun _ => h.last.mpr rfl), by simp⟩

/-- The switch is reset, whatever it was. -/
theorem Coherent.joined {l : List Notice} {on : Bool} (h : Coherent l on) :
    Coherent (l ++ [.joined]) false :=
  ⟨h.told.concat (fun heq => by simp at heq) (fun heq => by simp at heq), by simp⟩

/-- What overtakes only its like comes first all the same. -/
theorem cons_append_of_forall_eq {α : Type} {l : List α} {x : α} (h : ∀ y ∈ l, y = x)
    (l' : List α) : x :: (l ++ l') = l ++ x :: l' := by
  induction l with
  | nil => rfl
  | cons y l ih =>
    obtain ⟨rfl, hl⟩ := List.forall_mem_cons.mp h
    rw [List.cons_append, ih hl, List.cons_append]

end Foundations
