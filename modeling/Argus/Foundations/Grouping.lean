import Argus.Foundations.SortedMap
import Mathlib.Algebra.BigOperators.Group.Finset.Piecewise
import Mathlib.Algebra.GroupWithZero.Nat

/-!
# Grouping by a key

A loop puts every row into the group of its key, and a group begins with the first of its rows. What
is added up over the groups is what the rows add (`sum_values_group`), whatever the keys are.
-/

namespace Foundations.SortedMap

variable {κ α ρ : Type} [LinearOrder κ]

/-- Add a row to the group of its key, a new one if there is none. -/
def groupInto (key : ρ → κ) (new : κ → α) (add : α → ρ → α) (m : SortedMap κ α) (r : ρ) :
    SortedMap κ α :=
  m.insert (key r) (add ((m.get? (key r)).getD (new (key r))) r)

/-- The groups of a list of rows. -/
def group (key : ρ → κ) (new : κ → α) (add : α → ρ → α) (rows : List ρ) : SortedMap κ α :=
  rows.foldl (groupInto key new add) ∅

variable {key : ρ → κ} {new : κ → α} {add : α → ρ → α}

/-- A group is made of the rows with its key, in their order. -/
theorem get?_group (rows : List ρ) (k : κ) :
    (group key new add rows).get? k =
      if (rows.filter fun r => key r = k) = [] then none
      else some ((rows.filter fun r => key r = k).foldl add (new k)) := by
  have hfold := @get?_foldl_keyed _ _ _ _ (groupInto key new add) key
    (fun o r => some (add (o.getD (new (key r))) r)) (fun m r => get?_insert_self _ _ _)
    (fun m r k hk => get?_insert_of_ne hk) k (fun r => decide (key r = k))
    (fun r => decide_eq_true_iff) rows ∅
  have hkey : ∀ r ∈ rows.filter fun r => key r = k, key r = k := fun r hr =>
    of_decide_eq_true (List.mem_filter.mp hr).2
  have hsome : ∀ (l : List ρ) (a : α),
      l.foldl (fun o r => some (add (Option.getD o (new (key r))) r)) (some a) =
        some (l.foldl add a) := by
    intro l
    induction l with
    | nil => exact fun a => rfl
    | cons r l ih => exact fun a => ih (add a r)
  rw [group, hfold, get?_empty]
  cases hl : rows.filter fun r => key r = k with
  | nil => rw [if_pos rfl, List.foldl_nil]
  | cons r l =>
    rw [hl] at hkey
    rw [if_neg (List.cons_ne_nil r l), List.foldl_cons, hsome, Option.getD_none,
      hkey r List.mem_cons_self, List.foldl_cons]

/-- A group that begins with what its first row makes. -/
theorem get?_foldl_first {step : SortedMap κ α → ρ → SortedMap κ α} {first : ρ → α}
    (hstep : ∀ m r, step m r = m.insert (key r) (add ((m.get? (key r)).getD (first r)) r))
    (rows : List ρ) (k : κ) : (rows.foldl step ∅).get? k =
      (rows.filter fun r => key r = k).head?.map fun r =>
        (rows.filter fun r => key r = k).foldl add (first r) := by
  have hfold := @get?_foldl_keyed _ _ _ _ step key
    (fun o r => some (add (o.getD (first r)) r))
    (fun m r => by rw [hstep, get?_insert_self])
    (fun m r k hk => by rw [hstep, get?_insert_of_ne hk]) k (fun r => decide (key r = k))
    (fun r => decide_eq_true_iff) rows ∅
  have hsome : ∀ (l : List ρ) (a : α),
      l.foldl (fun o r => some (add (Option.getD o (first r)) r)) (some a) =
        some (l.foldl add a) := by
    intro l
    induction l with
    | nil => exact fun a => rfl
    | cons r l ih => exact fun a => ih (add a r)
  rw [hfold, get?_empty]
  cases rows.filter fun r => key r = k with
  | nil => rfl
  | cons r l => rw [List.foldl_cons, hsome, Option.getD_none, List.head?_cons, Option.map_some,
      List.foldl_cons]

/-- The groups are those of the keys of the rows. -/
theorem mem_keys_group {rows : List ρ} {k : κ} :
    k ∈ (group key new add rows).keys ↔ ∃ r ∈ rows, key r = k := by
  rw [mem_keys, get?_group]
  have hne : (rows.filter fun r => key r = k) ≠ [] ↔ ∃ r ∈ rows, key r = k := by
    simp [List.filter_eq_nil_iff]
  rw [← hne]
  split_ifs with h
  · simp [h]
  · simp [h]

/-- What holds of a new group and stays when a row is added holds of all groups. -/
theorem forall_group {P : κ → α → Prop} (hnew : ∀ k, P k (new k))
    (hadd : ∀ a r, P (key r) a → P (key r) (add a r)) {rows : List ρ} {k : κ} {a : α}
    (h : (group key new add rows).get? k = some a) : P k a := by
  have hfold : ∀ (l : List ρ) (b : α), (∀ r ∈ l, key r = k) → P k b → P k (l.foldl add b) := by
    intro l
    induction l with
    | nil => exact fun b _ hb => hb
    | cons r l ih =>
      intro b hl hb
      obtain ⟨hr, hl⟩ := List.forall_mem_cons.mp hl
      exact ih _ hl (hr ▸ hadd b r (hr ▸ hb))
  rw [get?_group] at h
  split_ifs at h
  rw [← Option.some.inj h]
  exact hfold _ _ (fun r hr => of_decide_eq_true (List.mem_filter.mp hr).2) (hnew k)

/-- Rows that can be added to a group in either order can be added to the groups so. -/
theorem groupInto_comm (hadd : ∀ a r r', add (add a r) r' = add (add a r') r) (m : SortedMap κ α)
    (r r' : ρ) : groupInto key new add (groupInto key new add m r) r' =
      groupInto key new add (groupInto key new add m r') r := by
  refine ext fun k => ?_
  simp only [groupInto, get?_insert]
  by_cases hsame : key r = key r'
  · simp only [hsame, if_true, Option.getD_some, hadd]
    by_cases hk : key r' = k
    · rw [if_pos hk, if_pos hk]
    · rw [if_neg hk, if_neg hk, if_neg hk, if_neg hk]
  · simp only [hsame, Ne.symm hsame, if_false]
    by_cases hk : key r = k
    · rw [if_neg (fun h => hsame (hk.trans h.symm)), if_pos hk, if_pos hk]
    · rw [if_neg hk, if_neg hk]

/-- Then the order of the rows does not matter. -/
theorem group_perm (hadd : ∀ a r r', add (add a r) r' = add (add a r') r) {rows rows' : List ρ}
    (h : rows.Perm rows') : group key new add rows = group key new add rows' :=
  h.foldl_eq' (fun r _ r' _ m => groupInto_comm hadd m r r') ∅

section Sums

variable {M : Type} [AddCommMonoid M] {f : α → M} {w : ρ → M}

/-- A new entry is added to the sum, the old one under its key is not. -/
theorem sum_values_insert (m : SortedMap κ α) (k : κ) (x : α) :
    ((m.get? k).toList.map f).sum + ((m.insert k x).values.map f).sum =
      f x + (m.values.map f).sum := by
  have hperm := ((m.perm_entries_insert k x).map fun e => f e.2).sum_eq
  rw [List.map_append, List.sum_append, List.map_cons, List.sum_cons, List.map_map] at hperm
  rw [values, values, List.map_map, List.map_map]
  exact hperm

/-- **Key result.** Over the groups a quantity that each row adds to sums up to what the rows
add. -/
theorem sum_values_group [IsCancelAdd M] (hnew : ∀ k, f (new k) = 0)
    (hadd : ∀ a r, f (add a r) = f a + w r) (rows : List ρ) :
    ((group key new add rows).values.map f).sum = (rows.map w).sum := by
  induction rows using List.reverseRecOn with
  | nil => rfl
  | append_singleton rows r ih =>
    have hstep : group key new add (rows ++ [r]) =
        groupInto key new add (group key new add rows) r := by
      rw [group, List.foldl_append, List.foldl_cons, List.foldl_nil, group]
    have hold : f ((((group key new add rows).get? (key r))).getD (new (key r))) =
        (((group key new add rows).get? (key r)).toList.map f).sum := by
      cases (group key new add rows).get? (key r) with
      | none => exact hnew _
      | some a => exact List.sum_singleton.symm
    have hsum := sum_values_insert (f := f) (group key new add rows) (key r)
      (add (((group key new add rows).get? (key r)).getD (new (key r))) r)
    rw [hadd, hold, ih, add_assoc] at hsum
    rw [hstep, groupInto, add_left_cancel hsum, List.map_append, List.sum_append, List.map_cons,
      List.map_nil, List.sum_singleton, add_comm]

/-- A sum over rows is the sum, over keys that include those of the rows, of the sums over the rows
of a key. -/
theorem sum_fibers {rows : List ρ} (keys : Finset κ) (hkeys : ∀ r ∈ rows, key r ∈ keys) :
    ∑ k ∈ keys, ((rows.filter fun r => key r = k).map w).sum = (rows.map w).sum := by
  induction rows with
  | nil => exact Finset.sum_const_zero
  | cons r rows ih =>
    obtain ⟨hr, hrows⟩ := List.forall_mem_cons.mp hkeys
    have hcons : ∀ k, (((r :: rows).filter fun r => key r = k).map w).sum =
        (if key r = k then w r else 0) + ((rows.filter fun r => key r = k).map w).sum := by
      intro k
      by_cases hk : key r = k
      · rw [List.filter_cons_of_pos (by simpa using hk), List.map_cons, List.sum_cons, if_pos hk]
      · rw [List.filter_cons_of_neg (by simpa using hk), if_neg hk, zero_add]
    rw [Finset.sum_congr rfl fun k _ => hcons k, Finset.sum_add_distrib, Finset.sum_ite_eq,
      if_pos hr, ih hrows, List.map_cons, List.sum_cons]

theorem mem_of_get?_tally {keys : List κ} {k : κ} {n : ℕ} (h : (tally keys).get? k = some n) :
    k ∈ keys := by
  rw [get?_tally] at h
  split_ifs at h with hzero
  exact List.count_pos_iff.mp (Nat.pos_of_ne_zero hzero)

/-- The counts of some keys sum up to the number of times that they occur. -/
theorem sum_filter_tally (p : κ → Bool) (keys : List κ) :
    (((tally keys).entries.filter fun e => p e.1).map Prod.snd).sum = keys.countP p := by
  induction keys using List.reverseRecOn with
  | nil => rfl
  | append_singleton keys d ih =>
    have hperm := (((tally keys).perm_entries_insert d (((tally keys).get? d).getD 0 + 1)).filter
      fun e => p e.1).map Prod.snd |>.sum_eq
    rw [List.filter_append, List.map_append, List.sum_append, ← tally_concat] at hperm
    rw [List.countP_append, ← ih, List.countP_singleton]
    cases hp : p d with
    | false =>
      rw [List.filter_cons_of_neg (by simp [hp])] at hperm
      have hold : ((((tally keys).get? d).toList.map (Prod.mk d)).filter fun e => p e.1) = [] := by
        rw [List.filter_eq_nil_iff]
        simp [hp]
      rw [hold, List.map_nil, List.sum_nil, Nat.zero_add] at hperm
      simpa using hperm
    | true =>
      rw [List.filter_cons_of_pos (by simp [hp]), List.map_cons, List.sum_cons] at hperm
      have hold : (((((tally keys).get? d).toList.map (Prod.mk d)).filter fun e => p e.1).map
          Prod.snd).sum = ((tally keys).get? d).getD 0 := by
        cases (tally keys).get? d with
        | none => rfl
        | some n => simp [hp]
      rw [hold] at hperm
      simp only [if_true]
      omega

end Sums

end Foundations.SortedMap
