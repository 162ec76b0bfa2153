import Mathlib.Order.Lattice
import Mathlib.Order.Nat

/-!
# Sorting by exchange

Two nested loops over an array: the outer one takes every position in turn, the inner one goes
over the positions after it and exchanges where the key there is smaller. After the inner loop the
least key of the rest stands at the position, and what stands before it stays.
-/

namespace Foundations

variable {α κ : Type} [LinearOrder κ] (key : α → κ)

/-- Exchange the elements at two positions where the key at the second is smaller. -/
def exchange (i : ℕ) (out : Array α) (j : ℕ) : Array α :=
  if h : i < out.size ∧ j < out.size then
    if key out[j] < key out[i] then out.swap i j h.1 h.2 else out
  else out

/-- The inner loop: `for j := i + 1; j < i + 1 + n; j++`. -/
def exchangeAll (i n : ℕ) (out : Array α) : Array α :=
  (List.range' (i + 1) n).foldl (exchange key i) out

/-- The two loops, where the outer one makes `n` rounds. -/
def exchangeRounds (n : ℕ) (out : Array α) : Array α :=
  (List.range n).foldl (fun out i => exchangeAll key i (out.size - (i + 1)) out) out

variable {key}

/-! ### One exchange -/

theorem exchange_perm (i j : ℕ) (out : Array α) : (exchange key i out j).Perm out := by
  rw [exchange]
  split_ifs
  · exact Array.swap_perm _ _
  · exact .refl _
  · exact .refl _

/-- Only the two positions change. -/
theorem getElem?_exchange {i j k : ℕ} (out : Array α) (hi : k ≠ i) (hj : k ≠ j) :
    (exchange key i out j)[k]? = out[k]? := by
  rw [exchange]
  split_ifs
  · rw [Array.getElem?_swap, if_neg (Ne.symm hj), if_neg (Ne.symm hi)]
  · rfl
  · rfl

/-- After an exchange the smaller key stands first. -/
theorem exchange_spec {i j : ℕ} {out : Array α} (hij : i < j) (hj : j < out.size) :
    ∃ x y, (exchange key i out j)[i]? = some x ∧ (exchange key i out j)[j]? = some y ∧
      key x ≤ key y ∧ (∃ z, out[i]? = some z ∧ key x ≤ key z) := by
  have hi : i < out.size := Nat.lt_trans hij hj
  rw [exchange, dif_pos ⟨hi, hj⟩]
  split_ifs with hlt
  · refine ⟨out[j], out[i], ?_, ?_, hlt.le, out[i], Array.getElem?_eq_getElem hi, hlt.le⟩
    · rw [Array.getElem?_swap, if_neg hij.ne', if_pos rfl]
    · rw [Array.getElem?_swap, if_pos rfl]
  · exact ⟨out[i], out[j], Array.getElem?_eq_getElem hi, Array.getElem?_eq_getElem hj,
      not_lt.mp hlt, out[i], Array.getElem?_eq_getElem hi, le_rfl⟩

/-- What stands behind a position comes from behind it. -/
theorem exists_getElem?_of_exchange {i j k : ℕ} {out : Array α} {y : α} (hij : i < j) (hk : i ≤ k)
    (h : (exchange key i out j)[k]? = some y) : ∃ k', i ≤ k' ∧ out[k']? = some y := by
  rw [exchange] at h
  split_ifs at h
  · rw [Array.getElem?_swap] at h
    split_ifs at h
    · exact ⟨i, Nat.le_refl i, by rw [← h]; exact Array.getElem?_eq_getElem _⟩
    · exact ⟨j, hij.le, by rw [← h]; exact Array.getElem?_eq_getElem _⟩
    · exact ⟨k, hk, h⟩
  · exact ⟨k, hk, h⟩
  · exact ⟨k, hk, h⟩

/-! ### The inner loop -/

theorem exchangeAll_succ (i n : ℕ) (out : Array α) :
    exchangeAll key i (n + 1) out = exchange key i (exchangeAll key i n out) (i + 1 + n) := by
  rw [exchangeAll, List.range'_1_concat, List.foldl_append, List.foldl_cons, List.foldl_nil,
    exchangeAll]

theorem exchangeAll_perm (i n : ℕ) (out : Array α) : (exchangeAll key i n out).Perm out := by
  induction n with
  | zero => exact .refl _
  | succ n ih =>
    rw [exchangeAll_succ]
    exact (exchange_perm _ _ _).trans ih

/-- The inner loop leaves what stands before the position. -/
theorem getElem?_exchangeAll_of_lt {i k : ℕ} (n : ℕ) (out : Array α) (hk : k < i) :
    (exchangeAll key i n out)[k]? = out[k]? := by
  induction n with
  | zero => rfl
  | succ n ih => rw [exchangeAll_succ, getElem?_exchange _ (by omega) (by omega), ih]

theorem exists_getElem?_of_exchangeAll {i k n : ℕ} {out : Array α} {y : α} (hk : i ≤ k)
    (h : (exchangeAll key i n out)[k]? = some y) : ∃ k', i ≤ k' ∧ out[k']? = some y := by
  induction n generalizing k with
  | zero => exact ⟨k, hk, h⟩
  | succ n ih =>
    rw [exchangeAll_succ] at h
    obtain ⟨k', hk', h'⟩ := exists_getElem?_of_exchange (by omega) hk h
    exact ih hk' h'

/-- No key at the next `n` positions is smaller than the one at the position. -/
def LeastAt (key : α → κ) (i n : ℕ) (out : Array α) : Prop :=
  ∃ x, out[i]? = some x ∧ ∀ k y, i < k → k < i + 1 + n → out[k]? = some y → key x ≤ key y

/-- The inner loop brings the least key to the position. -/
theorem leastAt_exchangeAll {i n : ℕ} {out : Array α} (h : i + n < out.size) :
    LeastAt key i n (exchangeAll key i n out) := by
  induction n with
  | zero =>
    exact ⟨out[i], Array.getElem?_eq_getElem h, fun k y hk hk' _ => by omega⟩
  | succ n ih =>
    obtain ⟨x, hx, hleast⟩ := ih (by omega)
    have hsize : i + 1 + n < (exchangeAll key i n out).size := by
      rw [(exchangeAll_perm i n out).size_eq]
      omega
    rw [exchangeAll_succ]
    obtain ⟨x', y', hx', hy', hle, z, hz, hxz⟩ :=
      @exchange_spec _ _ _ key i _ _ (by omega) hsize
    obtain rfl : z = x := Option.some.inj (hz.symm.trans hx)
    refine ⟨x', hx', fun k y hk hkn hy => ?_⟩
    rcases Nat.lt_or_ge k (i + 1 + n) with hlt | hge
    · rw [getElem?_exchange _ (by omega) (by omega)] at hy
      exact hxz.trans (hleast k y hk hlt hy)
    · obtain rfl : k = i + 1 + n := by omega
      obtain rfl : y' = y := Option.some.inj (hy'.symm.trans hy)
      exact hle

/-! ### The outer loop -/

/-- The first `n` positions have the least keys in order. -/
def SettledTo (key : α → κ) (n : ℕ) (out : Array α) : Prop :=
  ∀ a b x y, a < n → a < b → out[a]? = some x → out[b]? = some y → key x ≤ key y

/-- One round settles one more position. -/
theorem SettledTo.exchangeAll {i : ℕ} {out : Array α} (h : SettledTo key i out)
    (hi : i < out.size) :
    SettledTo key (i + 1) (exchangeAll key i (out.size - (i + 1)) out) := by
  intro a b x y ha hab hx hy
  rcases Nat.lt_or_ge a i with hlt | hge
  -- an earlier position keeps its element, and the others come from behind it
  · rw [getElem?_exchangeAll_of_lt _ _ hlt] at hx
    rcases Nat.lt_or_ge b i with hbi | hbi
    · rw [getElem?_exchangeAll_of_lt _ _ hbi] at hy
      exact h a b x y hlt hab hx hy
    · obtain ⟨b', hb', hy'⟩ := exists_getElem?_of_exchangeAll hbi hy
      exact h a b' x y hlt (by omega) hx hy'
  · obtain rfl : a = i := by omega
    obtain ⟨x', hx', hleast⟩ := @leastAt_exchangeAll _ _ _ key a (out.size - (a + 1)) out (by omega)
    obtain rfl : x' = x := Option.some.inj (hx'.symm.trans hx)
    have hb : b < out.size := by
      have hlt := (Array.getElem?_eq_some_iff.mp hy).1
      rwa [(exchangeAll_perm _ _ _).size_eq] at hlt
    exact hleast b y hab (by omega) hy

theorem exchangeRounds_succ (n : ℕ) (out : Array α) :
    exchangeRounds key (n + 1) out =
      exchangeAll key n ((exchangeRounds key n out).size - (n + 1)) (exchangeRounds key n out) := by
  rw [exchangeRounds, List.range_succ, List.foldl_append, List.foldl_cons, List.foldl_nil,
    exchangeRounds]

theorem exchangeRounds_perm (n : ℕ) (out : Array α) : (exchangeRounds key n out).Perm out := by
  induction n with
  | zero => exact .refl _
  | succ n ih =>
    rw [exchangeRounds_succ]
    exact (exchangeAll_perm _ _ _).trans ih

/-- The rounds settle as many positions. -/
theorem settledTo_exchangeRounds {n : ℕ} {out : Array α} (h : n ≤ out.size) :
    SettledTo key n (exchangeRounds key n out) := by
  induction n with
  | zero => exact fun a b x y ha => absurd ha (Nat.not_lt_zero a)
  | succ n ih =>
    rw [exchangeRounds_succ]
    exact (ih (by omega)).exchangeAll (by rw [(exchangeRounds_perm n out).size_eq]; omega)

/-- **The loops sort.** No later key is smaller than an earlier one. -/
theorem pairwise_exchangeRounds (out : Array α) :
    (exchangeRounds key out.size out).toList.Pairwise fun a b => key a ≤ key b := by
  rw [List.pairwise_iff_getElem]
  intro a b ha hb hab
  have hlt : a < out.size := by
    rwa [Array.length_toList, (exchangeRounds_perm _ _).size_eq] at ha
  exact settledTo_exchangeRounds (le_refl out.size) a b _ _ hlt hab
    (Array.getElem?_toList ▸ List.getElem?_eq_getElem ha)
    (Array.getElem?_toList ▸ List.getElem?_eq_getElem hb)

end Foundations
