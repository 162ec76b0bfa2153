import Mathlib.Data.List.Induction
import Mathlib.Data.List.Infix

/-!
# Histories

A history is the list of what happened, oldest first. Safety properties of a history judge each
event by what happened before it: `Always P log`. They are proved event by event
(`always_concat`), and what holds of a history holds of its beginnings (`Always.of_beginning`).
-/

namespace Foundations

variable {ε : Type}

/-- Each event has the property `P` in view of the events before it. -/
def Always (P : List ε → ε → Prop) (log : List ε) : Prop :=
  ∀ pre e post, log = pre ++ e :: post → P pre e

variable {P : List ε → ε → Prop}

theorem always_nil : Always P [] := fun pre e post h => by simp at h

/-- What holds of a history holds of its beginnings. -/
theorem Always.of_beginning {log log' : List ε} (h : Always P log') (hpre : log <+: log') :
    Always P log := by
  obtain ⟨rest, rfl⟩ := hpre
  rintro pre e post rfl
  exact h pre e (post ++ rest) (by simp)

/-- A history is extended by an event that has the property in view of it. -/
theorem always_concat {log : List ε} {e : ε} :
    Always P (log ++ [e]) ↔ Always P log ∧ P log e := by
  refine ⟨fun h => ⟨h.of_beginning (List.prefix_append _ _), h log e [] rfl⟩, ?_⟩
  rintro ⟨h, he⟩ pre e' post hsplit
  induction post using List.reverseRecOn with
  | nil =>
    obtain ⟨rfl, heq⟩ := List.append_inj' hsplit rfl
    cases heq
    exact he
  | append_singleton post last _ =>
    rw [← List.cons_append, ← List.append_assoc] at hsplit
    exact h pre e' post (List.append_inj' hsplit rfl).1

end Foundations
