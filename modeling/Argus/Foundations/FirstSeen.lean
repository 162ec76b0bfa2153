import Mathlib.Data.List.Nodup

/-!
# Loops over what has not been seen

A loop over groups of candidates keeps a set of the keys that it has taken. In each group it takes
one candidate after the other, and leaves the group at the first one whose key has been taken.
No key is taken twice (`nodup_takeGroups`), and when the candidates have different keys to begin
with, nothing is left out (`takeGroups_eq_flatten`).
-/

namespace Foundations

variable {α κ : Type}

/-- What the loop has taken so far. -/
structure Taken (α κ : Type) where
  seen : List κ := []
  out : List α := []

namespace Taken

/-- The keys that have been seen are those of what has been taken, each once. -/
structure Keyed (key : α → κ) (t : Taken α κ) : Prop where
  seen : ∀ k, k ∈ t.seen ↔ k ∈ t.out.map key
  nodup : (t.out.map key).Nodup

theorem keyed_nothing {key : α → κ} : Keyed key (⟨[], []⟩ : Taken α κ) :=
  ⟨fun _ => Iff.rfl, List.nodup_nil⟩

variable [DecidableEq κ] (key : α → κ)

/-- Take the candidates of a group up to the first one whose key has been taken. -/
def takeGroup (t : Taken α κ) : List α → Taken α κ
  | [] => t
  | a :: group =>
    if key a ∈ t.seen then t
    else takeGroup ⟨key a :: t.seen, t.out ++ [a]⟩ group

/-- The loop over the groups. -/
def takeGroups (t : Taken α κ) (groups : List (List α)) : Taken α κ :=
  groups.foldl (takeGroup key) t

variable {key} {t : Taken α κ}

theorem Keyed.takeGroup (h : t.Keyed key) (group : List α) : (t.takeGroup key group).Keyed key := by
  induction group generalizing t with
  | nil => exact h
  | cons a group ih =>
    rw [Taken.takeGroup]
    split_ifs with hseen
    · exact h
    · refine ih ⟨fun k => ?_, ?_⟩
      · rw [List.map_append, List.mem_append, List.mem_cons, h.seen, or_comm, List.map_singleton,
          List.mem_singleton]
      · rw [List.map_append, List.map_singleton, ← List.concat_eq_append, List.nodup_concat]
        exact ⟨mt (h.seen _).mpr hseen, h.nodup⟩

theorem Keyed.takeGroups (h : t.Keyed key) (groups : List (List α)) :
    (t.takeGroups key groups).Keyed key := by
  induction groups generalizing t with
  | nil => exact h
  | cons group groups ih => exact ih (h.takeGroup group)

/-- No key is taken twice. -/
theorem nodup_takeGroups (groups : List (List α)) :
    (((⟨[], []⟩ : Taken α κ).takeGroups key groups).out.map key).Nodup :=
  (keyed_nothing.takeGroups groups).nodup

/-- A group whose keys are new is taken as a whole. -/
theorem Keyed.out_takeGroup (h : t.Keyed key) {group : List α}
    (hnew : ((t.out ++ group).map key).Nodup) : (t.takeGroup key group).out = t.out ++ group := by
  induction group generalizing t with
  | nil => exact (List.append_nil _).symm
  | cons a group ih =>
    have hunseen : key a ∉ t.seen := by
      rw [List.map_append, List.map_cons] at hnew
      rw [h.seen]
      exact fun hmem => (List.disjoint_of_nodup_append hnew) hmem List.mem_cons_self
    have hsplit : t.out ++ a :: group = t.out ++ [a] ++ group := List.append_cons _ _ _
    have hnext := h.takeGroup [a]
    rw [Taken.takeGroup, if_neg hunseen] at hnext ⊢
    rw [hsplit] at hnew ⊢
    exact ih hnext hnew

/-- **Nothing is left out** of candidates with different keys. -/
theorem takeGroups_eq_flatten {groups : List (List α)} (h : (groups.flatten.map key).Nodup) :
    ((⟨[], []⟩ : Taken α κ).takeGroups key groups).out = groups.flatten := by
  suffices ∀ t : Taken α κ, t.Keyed key → ((t.out ++ groups.flatten).map key).Nodup →
      (t.takeGroups key groups).out = t.out ++ groups.flatten from
    this ⟨[], []⟩ keyed_nothing h
  clear h
  induction groups with
  | nil => exact fun t _ _ => (List.append_nil _).symm
  | cons group groups ih =>
    intro t ht hnodup
    rw [List.flatten_cons, ← List.append_assoc] at hnodup ⊢
    have hgroup : ((t.out ++ group).map key).Nodup := by
      rw [List.map_append] at hnodup
      exact hnodup.of_append_left
    have hout := ht.out_takeGroup hgroup
    rw [← hout] at hnodup ⊢
    exact ih _ (ht.takeGroup group) hnodup

end Taken

end Foundations
