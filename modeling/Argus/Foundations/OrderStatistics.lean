import Mathlib.Algebra.Order.Floor.Ring
import Mathlib.Data.List.Sort
import Mathlib.Tactic.Linarith

/-!
# Order statistics

In a sorted list the elements with a property that goes down with the key stand first, so that
the element at a rank has it exactly when the rank is smaller than their number
(`getElem_iff_lt_countP`). Counting does not depend on the order of a list; hence bounds, the
independence of the order and monotonicity of the element at a rank.

Between two ranks `interpolate` goes along a line; it is monotone where the elements are.
-/

namespace Foundations

/-! ### The element at a rank -/

section Ranks

variable {α κ : Type} [LinearOrder κ] {key : α → κ} {l l' s s' : List α} {k : ℕ}

/-- **The rank law.** An element of a sorted list has a downward closed property if and only if more
elements than its rank have it. -/
theorem getElem_iff_lt_countP {p : α → Bool} (hs : s.Pairwise fun a b => key a ≤ key b)
    (hp : ∀ a b, key a ≤ key b → p b = true → p a = true) (hk : k < s.length) :
    p s[k] = true ↔ k < s.countP p := by
  induction s generalizing k with
  | nil => exact absurd hk (Nat.not_lt_zero k)
  | cons x s ih =>
    obtain ⟨hx, hs⟩ := List.pairwise_cons.mp hs
    by_cases hpx : p x = true
    · rw [List.countP_cons_of_pos hpx]
      rcases k with - | k
      · exact iff_of_true hpx (Nat.succ_pos _)
      · rw [List.getElem_cons_succ, ih hs (Nat.lt_of_succ_lt_succ hk), Nat.succ_lt_succ_iff]
    -- then no element after it has the property either
    · have hnone : ∀ y ∈ x :: s, ¬ p y = true := by
        intro y hy
        rcases List.mem_cons.mp hy with rfl | hy
        · exact hpx
        · exact fun hpy => hpx (hp x y (hx y hy) hpy)
      rw [List.countP_eq_zero.mpr hnone]
      exact iff_of_false (hnone _ (List.getElem_mem hk)) (Nat.not_lt_zero k)

/-- More elements than its rank are at most the element. -/
theorem lt_countP_le (hs : s.Pairwise fun a b => key a ≤ key b) (hperm : s.Perm l)
    (hk : k < s.length) : k < l.countP fun a => decide (key a ≤ key s[k]) := by
  rw [← hperm.countP_eq]
  refine (getElem_iff_lt_countP hs (fun a b hab hb => ?_) hk).mp (decide_eq_true le_rfl)
  exact decide_eq_true (hab.trans (of_decide_eq_true hb))

/-- No more elements than its rank are smaller than the element. -/
theorem countP_lt_le (hs : s.Pairwise fun a b => key a ≤ key b) (hperm : s.Perm l)
    (hk : k < s.length) : (l.countP fun a => decide (key a < key s[k])) ≤ k := by
  rw [← hperm.countP_eq, ← not_lt]
  intro hlt
  have hself := (getElem_iff_lt_countP hs
    (fun a b hab hb => decide_eq_true (hab.trans_lt (of_decide_eq_true hb))) hk).mpr hlt
  exact lt_irrefl _ (of_decide_eq_true hself)

/-- Where no element gets smaller, no more of them are at most a bound. -/
theorem countP_le_of_forall₂ (hle : List.Forall₂ (fun a b => key a ≤ key b) l l') (x : κ) :
    (l'.countP fun a => decide (key a ≤ x)) ≤ l.countP fun a => decide (key a ≤ x) := by
  induction hle with
  | nil => exact Nat.le_refl 0
  | cons hab _ ih =>
    rw [List.countP_cons, List.countP_cons]
    refine Nat.add_le_add ih ?_
    split_ifs with hb ha
    · exact Nat.le_refl 1
    · exact absurd (decide_eq_true (hab.trans (of_decide_eq_true hb))) ha
    · exact Nat.zero_le 1
    · exact Nat.le_refl 0

/-- Where no element gets smaller, the element at a rank does not. -/
theorem key_getElem_mono (hs : s.Pairwise fun a b => key a ≤ key b) (hperm : s.Perm l)
    (hs' : s'.Pairwise fun a b => key a ≤ key b) (hperm' : s'.Perm l')
    (hle : List.Forall₂ (fun a b => key a ≤ key b) l l') (hk : k < s.length)
    (hk' : k < s'.length) : key s[k] ≤ key s'[k] := by
  have hlt := (lt_countP_le hs' hperm' hk').trans_le (countP_le_of_forall₂ hle (key s'[k]))
  rw [← hperm.countP_eq] at hlt
  exact of_decide_eq_true ((getElem_iff_lt_countP hs (fun a b hab hb =>
    decide_eq_true (hab.trans (of_decide_eq_true hb))) hk).mpr hlt)

/-- The element at a rank has the same key whatever the order of the list. -/
theorem key_getElem_perm (hs : s.Pairwise fun a b => key a ≤ key b)
    (hs' : s'.Pairwise fun a b => key a ≤ key b) (hperm : s.Perm s') (hk : k < s.length)
    (hk' : k < s'.length) : key s[k] = key s'[k] := by
  have hrefl : ∀ l : List α, List.Forall₂ (fun a b => key a ≤ key b) l l :=
    fun l => List.forall₂_same.mpr fun _ _ => le_rfl
  exact le_antisymm (key_getElem_mono hs hperm hs' (.refl _) (hrefl _) hk hk')
    (key_getElem_mono hs' (.refl _) hs hperm (hrefl _) hk' hk)

end Ranks

/-! ### Between two ranks -/

section Interpolation

variable {K : Type} [Field K] [LinearOrder K] [IsStrictOrderedRing K] [FloorRing K] {f : ℤ → K}
  {r r' : K}

/-- Between the values at the two ranks next to `r`. -/
def interpolate (f : ℤ → K) (r : K) : K := f ⌊r⌋ + (f ⌈r⌉ - f ⌊r⌋) * (r - ⌊r⌋)

theorem le_interpolate (h : f ⌊r⌋ ≤ f ⌈r⌉) : f ⌊r⌋ ≤ interpolate f r := by
  have hpos : 0 ≤ (f ⌈r⌉ - f ⌊r⌋) * (r - ⌊r⌋) :=
    mul_nonneg (sub_nonneg.mpr h) (sub_nonneg.mpr (Int.floor_le r))
  rw [interpolate]
  linarith

theorem interpolate_le (h : f ⌊r⌋ ≤ f ⌈r⌉) : interpolate f r ≤ f ⌈r⌉ := by
  have hone : r - ⌊r⌋ ≤ 1 := by
    have := (Int.lt_floor_add_one r).le
    linarith
  have hle : (f ⌈r⌉ - f ⌊r⌋) * (r - ⌊r⌋) ≤ (f ⌈r⌉ - f ⌊r⌋) * 1 :=
    mul_le_mul_of_nonneg_left hone (sub_nonneg.mpr h)
  rw [interpolate]
  linarith

/-- **Key result.** Interpolation is monotone in the rank, inside and across the ranks. -/
theorem interpolate_mono {n : ℤ} (hf : ∀ i j, 0 ≤ i → i ≤ j → j ≤ n → f i ≤ f j) (hr : 0 ≤ r)
    (hle : r ≤ r') (hn : r' ≤ n) : interpolate f r ≤ interpolate f r' := by
  have hfloor : 0 ≤ ⌊r⌋ := Int.floor_nonneg.mpr hr
  have hfloors : ⌊r⌋ ≤ ⌊r'⌋ := Int.floor_mono hle
  have hceils : ⌈r⌉ ≤ ⌈r'⌉ := Int.ceil_mono hle
  have hceil : ⌈r'⌉ ≤ n := Int.ceil_le.mpr hn
  have hends : f ⌊r⌋ ≤ f ⌈r⌉ := hf _ _ hfloor (Int.floor_le_ceil r) (hceils.trans hceil)
  have hends' : f ⌊r'⌋ ≤ f ⌈r'⌉ :=
    hf _ _ (hfloor.trans hfloors) (Int.floor_le_ceil r') hceil
  by_cases hacross : ⌈r⌉ ≤ ⌊r'⌋
  -- a rank lies between them
  · calc interpolate f r ≤ f ⌈r⌉ := interpolate_le hends
      _ ≤ f ⌊r'⌋ := hf _ _ (hfloor.trans (Int.floor_le_ceil r)) hacross
        ((Int.floor_le_ceil r').trans hceil)
      _ ≤ interpolate f r' := le_interpolate hends'
  -- otherwise both lie on the same line
  · have hstep : ⌈r⌉ ≤ ⌊r⌋ + 1 := Int.ceil_le_floor_add_one r
    have hstep' : ⌈r'⌉ ≤ ⌊r'⌋ + 1 := Int.ceil_le_floor_add_one r'
    have hsame : ⌊r'⌋ = ⌊r⌋ := by omega
    have hsame' : ⌈r'⌉ = ⌈r⌉ := by omega
    have hslope : (f ⌈r⌉ - f ⌊r⌋) * (r - ⌊r⌋) ≤ (f ⌈r⌉ - f ⌊r⌋) * (r' - ⌊r⌋) :=
      mul_le_mul_of_nonneg_left (by linarith) (sub_nonneg.mpr hends)
    rw [interpolate, interpolate, hsame, hsame']
    linarith

end Interpolation

end Foundations
