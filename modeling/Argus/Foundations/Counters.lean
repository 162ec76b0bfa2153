import Mathlib.Algebra.BigOperators.Group.Finset.Basic
import Mathlib.Algebra.Order.BigOperators.Group.Finset
import Mathlib.Algebra.GroupWithZero.Nat
import Mathlib.Data.List.Nodup

/-!
# Readings of cumulative counters

Counters are read from time to time. A `Reading` lists the keys that there are with their
counters. As long as keys stay and counters do not fall (`Reading.Grows`), the increments of a
reading are what its total has above the total of the reading before (`sum_increments`), so that
the increments of all readings add up to the last total.
-/

namespace Foundations

variable {κ : Type} [DecidableEq κ]

/-- Keys and their counters. -/
abbrev Reading (κ : Type) : Type := List (κ × ℕ)

namespace Reading

/-- The counter of a key, zero for a key that is not there. -/
def counter (r : Reading κ) (k : κ) : ℕ := (r.lookup k).getD 0

/-- The sum of the counters. -/
def total (r : Reading κ) : ℕ := (r.map Prod.snd).sum

/-- The keys. -/
def keys (r : Reading κ) : List κ := r.map Prod.fst

/-- Every key is still there, with a counter that has not fallen. -/
def Grows (r r' : Reading κ) : Prop := ∀ e ∈ r, ∃ c, e.2 ≤ c ∧ (e.1, c) ∈ r'

theorem counter_cons (k k' : κ) (c : ℕ) (r : Reading κ) :
    counter ((k, c) :: r) k' = if k' = k then c else counter r k' := by
  rw [counter, counter, List.lookup_cons]
  split_ifs with h
  · simp [h]
  · rw [beq_false_of_ne h]

/-- A key that is not there counts nothing. -/
theorem counter_of_notMem {r : Reading κ} {k : κ} (h : k ∉ r.keys) : r.counter k = 0 := by
  induction r with
  | nil => rfl
  | cons e r ih =>
    rw [keys, List.map_cons, List.mem_cons, not_or] at h
    rw [counter_cons, if_neg h.1, ih h.2]

/-- Where no key is listed twice, an entry shows the counter of its key. -/
theorem counter_of_mem {r : Reading κ} (hr : r.keys.Nodup) {e : κ × ℕ} (he : e ∈ r) :
    r.counter e.1 = e.2 := by
  induction r with
  | nil => exact absurd he List.not_mem_nil
  | cons e' r ih =>
    obtain ⟨hnotin, hr⟩ := List.nodup_cons.mp hr
    rw [counter_cons]
    rcases List.mem_cons.mp he with rfl | he
    · rw [if_pos rfl]
    · rw [if_neg, ih hr he]
      rintro heq
      exact hnotin (heq ▸ List.mem_map_of_mem he)

/-- The total is the sum over the keys. -/
theorem sum_counter {r : Reading κ} (hr : r.keys.Nodup) :
    ∑ k ∈ r.keys.toFinset, r.counter k = r.total := by
  rw [List.sum_toFinset _ hr, keys, List.map_map, total]
  exact congrArg List.sum (List.map_congr_left fun e he => counter_of_mem hr he)

theorem Grows.counter_le {r r' : Reading κ} (h : Grows r r') (hr : r.keys.Nodup)
    (hr' : r'.keys.Nodup) (k : κ) : r.counter k ≤ r'.counter k := by
  by_cases hk : k ∈ r.keys
  · obtain ⟨e, he, rfl⟩ := List.mem_map.mp hk
    obtain ⟨c, hle, hc⟩ := h e he
    rw [counter_of_mem hr he]
    exact hle.trans (counter_of_mem hr' hc).ge
  · rw [counter_of_notMem hk]
    exact Nat.zero_le _

/-- **Increments.** What the entries of a reading have above the reading before adds up to what
its total has above the total before. -/
theorem sum_increments {r r' : Reading κ} (hr : r.keys.Nodup) (hr' : r'.keys.Nodup)
    (h : Grows r r') : (r'.map fun e => e.2 - r.counter e.1).sum + r.total = r'.total := by
  have hsub : r.keys.toFinset ⊆ r'.keys.toFinset := by
    intro k hk
    obtain ⟨e, he, rfl⟩ := List.mem_map.mp (List.mem_toFinset.mp hk)
    obtain ⟨c, -, hc⟩ := h e he
    exact List.mem_toFinset.mpr (List.mem_map.mpr ⟨_, hc, rfl⟩)
  have hold : ∑ k ∈ r'.keys.toFinset, r.counter k = r.total := by
    rw [← sum_counter hr]
    refine (Finset.sum_subset hsub fun k _ hk => counter_of_notMem fun hmem => hk ?_).symm
    exact List.mem_toFinset.mpr hmem
  have hnew : (r'.map fun e => e.2 - r.counter e.1).sum =
      ∑ k ∈ r'.keys.toFinset, (r'.counter k - r.counter k) := by
    rw [List.sum_toFinset _ hr', keys, List.map_map]
    refine congrArg List.sum (List.map_congr_left fun e he => ?_)
    rw [Function.comp_apply, counter_of_mem hr' he]
  rw [hnew, ← hold, ← Finset.sum_add_distrib, ← sum_counter hr']
  exact Finset.sum_congr rfl fun k _ => Nat.sub_add_cancel (h.counter_le hr hr' k)

end Reading

/-- Some of the summands are all that count. -/
theorem sum_filter_eq_sum_iff {ρ : Type} (p : ρ → Bool) (f : ρ → ℕ) (l : List ρ) :
    ((l.filter p).map f).sum = (l.map f).sum ↔ ∀ x ∈ l, f x ≠ 0 → p x = true := by
  have hsum := ((List.filter_append_perm p l).map f).sum_eq
  rw [List.map_append, List.sum_append] at hsum
  rw [← hsum, Nat.left_eq_add, List.sum_eq_zero_iff_forall_eq_nat, List.forall_mem_map]
  constructor
  · intro h x hx hne
    by_contra hp
    exact hne (h x (List.mem_filter.mpr ⟨hx, by simpa using hp⟩))
  · intro h x hx
    obtain ⟨hx, hp⟩ := List.mem_filter.mp hx
    by_contra hne
    exact absurd (h x hx hne) (by simpa using hp)

end Foundations
