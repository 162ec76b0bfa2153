import Mathlib.Data.Prod.Lex
import Mathlib.Order.Bounds.Basic

/-!
# The extent of intervals

The extent of some intervals goes from the least start to the greatest end. In a list that is sorted
by start, and by end where the starts agree, the first interval has the least start
(`isLeast_start`), but the last one has the greatest end only if some interval that starts last also
ends last (`isGreatest_stop_iff`).
-/

namespace Foundations

variable {ι α : Type} [LinearOrder α] (start stop : ι → α)

/-- Sorted by start, and by end among those that start together. -/
def StartSorted (l : List ι) : Prop :=
  l.Pairwise fun a b => toLex (start a, stop a) ≤ toLex (start b, stop b)

variable {start stop}

theorem start_le_of_lex_le {a b : ι} (h : toLex (start a, stop a) ≤ toLex (start b, stop b)) :
    start a ≤ start b := by
  rcases Prod.Lex.le_iff.mp h with h | ⟨h, -⟩
  · exact le_of_lt h
  · exact le_of_eq h

/-- The first of a sorted list starts first. -/
theorem isLeast_start {l : List ι} (h : StartSorted start stop l) {x : ι}
    (hx : l.head? = some x) : IsLeast {t | ∃ s ∈ l, start s = t} (start x) := by
  obtain ⟨l, rfl⟩ := List.head?_eq_some_iff.mp hx
  refine ⟨⟨x, List.mem_cons_self, rfl⟩, ?_⟩
  rintro t ⟨s, hs, rfl⟩
  rcases List.mem_cons.mp hs with rfl | hs
  · exact le_refl _
  · exact start_le_of_lex_le ((List.pairwise_cons.mp h).1 s hs)

/-- The last of a sorted list comes after all in the order of the list. -/
theorem lex_le_getLast {l : List ι} (h : StartSorted start stop l) {z : ι}
    (hz : l.getLast? = some z) {s : ι} (hs : s ∈ l) :
    toLex (start s, stop s) ≤ toLex (start z, stop z) := by
  obtain ⟨l, rfl⟩ := List.getLast?_eq_some_iff.mp hz
  rcases List.mem_append.mp hs with hs | hs
  · exact (List.pairwise_append.mp h).2.2 s hs z (List.mem_singleton_self z)
  · rw [List.mem_singleton.mp hs]

/-- **When the last one ends last.** If some interval is the last both to start and to end. -/
theorem isGreatest_stop_iff {l : List ι} (h : StartSorted start stop l) {z : ι}
    (hz : l.getLast? = some z) : IsGreatest {t | ∃ s ∈ l, stop s = t} (stop z) ↔
      ∃ s ∈ l, ∀ t ∈ l, start t ≤ start s ∧ stop t ≤ stop s := by
  have hmem : z ∈ l := List.mem_of_getLast? hz
  constructor
  · rintro ⟨-, hgreatest⟩
    exact ⟨z, hmem, fun t ht => ⟨start_le_of_lex_le (lex_le_getLast h hz ht),
      hgreatest ⟨t, ht, rfl⟩⟩⟩
  · rintro ⟨s, hs, hlast⟩
    -- the interval that is last in both comes before the last one only by a tie
    have hstop : stop s ≤ stop z := by
      rcases Prod.Lex.le_iff.mp (lex_le_getLast h hz hs) with hlt | ⟨-, hle⟩
      · exact absurd (hlast z hmem).1 (not_le.mpr hlt)
      · exact hle
    refine ⟨⟨z, hmem, rfl⟩, ?_⟩
    rintro t ⟨u, hu, rfl⟩
    exact (hlast u hu).2.trans hstop

end Foundations
