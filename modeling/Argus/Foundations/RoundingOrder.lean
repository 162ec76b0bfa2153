import Argus.Foundations.Rounding

/-!
# Rounding and order

Rounding to a binary format keeps the order of numbers that are not negative
(`Format.nearest_mono`), does not cross a power of two that the format has
(`Format.zpow_le_nearest`, `Format.nearest_le_zpow`), and commutes with doubling where no digit is
lost (`Format.nearest_two_mul`).
-/

namespace Foundations

theorem roundHalfEven_mono {q r : ℚ} (h : q ≤ r) : roundHalfEven q ≤ roundHalfEven r := by
  rcases (Int.floor_le_floor h).lt_or_eq with hlt | heq
  · calc roundHalfEven q ≤ ⌈q⌉ := roundHalfEven_le_ceil q
      _ ≤ ⌊q⌋ + 1 := Int.ceil_le_floor_add_one q
      _ ≤ ⌊r⌋ := hlt
      _ ≤ roundHalfEven r := floor_le_roundHalfEven r
  · rw [roundHalfEven, roundHalfEven, heq]
    split_ifs <;> first | omega | (exfalso; linarith)

namespace Format

variable {F : Format} {q r : ℚ} {k : ℤ}

private theorem two_pos (e : ℤ) : (0 : ℚ) < 2 ^ e := zpow_pos (by norm_num) e

private theorem le_log_iff {x : ℤ} (hq : 0 < q) : x ≤ Int.log 2 q ↔ 2 ^ x ≤ q := by
  simpa using (Int.zpow_le_iff_le_log (b := 2) (by norm_num) hq).symm

private theorem log_zpow (k : ℤ) : Int.log 2 ((2 : ℚ) ^ k) = k := by
  simpa using Int.log_zpow (b := 2) (R := ℚ) (by norm_num) k

/-- A power of two in units of the last kept bit. -/
private theorem zpow_div_zpow {e : ℤ} (h : e ≤ k) :
    (2 : ℚ) ^ k / 2 ^ e = ((2 ^ (k - e).toNat : ℤ) : ℚ) := by
  rw [← zpow_sub₀ (by norm_num)]
  push_cast
  rw [← zpow_natCast, Int.toNat_of_nonneg (by omega)]

/-- The last kept bit of a number up to a power of two is not above it. -/
theorem exponent_le (hp : 0 < F.precision) (hq : 0 < q) (hle : q ≤ 2 ^ k) (hk : F.emin ≤ k) :
    F.exponent q ≤ k := by
  have hlog : Int.log 2 q ≤ k := by
    have hmono := Int.log_mono_right (b := 2) hq hle
    rwa [log_zpow] at hmono
  rw [exponent, abs_of_pos hq]
  omega

theorem nearest_zero : F.nearest 0 = 0 := by
  rw [nearest, zero_div, ← Int.cast_zero, roundHalfEven_intCast, Int.cast_zero, zero_mul]

/-- Rounding does not cross a power of two upwards. -/
theorem nearest_le_zpow (hp : 0 < F.precision) (hq : 0 ≤ q) (hle : q ≤ 2 ^ k) (hk : F.emin ≤ k) :
    F.nearest q ≤ 2 ^ k := by
  rcases hq.eq_or_lt with rfl | hq
  · rw [nearest_zero]
    exact (two_pos k).le
  have he := exponent_le hp hq hle hk
  have hscaled : q / 2 ^ F.exponent q ≤ ((2 ^ (k - F.exponent q).toNat : ℤ) : ℚ) := by
    rw [← zpow_div_zpow he]
    exact div_le_div_of_nonneg_right hle (two_pos _).le
  have hround := roundHalfEven_mono hscaled
  rw [roundHalfEven_intCast] at hround
  rw [nearest, ← le_div_iff₀ (two_pos _), zpow_div_zpow he]
  exact_mod_cast hround

/-- Rounding does not cross a power of two downwards. -/
theorem zpow_le_nearest (hp : 0 < F.precision) (hle : 2 ^ k ≤ q) (hk : F.emin ≤ k) :
    2 ^ k ≤ F.nearest q := by
  have hq : 0 < q := (two_pos k).trans_le hle
  have hlog : k ≤ Int.log 2 q := by
    have hmono := Int.log_mono_right (b := 2) (two_pos k) hle
    rwa [log_zpow] at hmono
  have he : F.exponent q ≤ Int.log 2 q := by
    rw [exponent, abs_of_pos hq]
    omega
  have hscaled : ((2 ^ (Int.log 2 q - F.exponent q).toNat : ℤ) : ℚ) ≤ q / 2 ^ F.exponent q := by
    rw [← zpow_div_zpow he]
    exact div_le_div_of_nonneg_right (Int.zpow_log_le_self (by norm_num) hq) (two_pos _).le
  have hround := roundHalfEven_mono hscaled
  rw [roundHalfEven_intCast] at hround
  refine (zpow_le_zpow_right₀ (by norm_num) hlog).trans ?_
  rw [nearest, ← div_le_iff₀ (two_pos _), zpow_div_zpow he]
  exact_mod_cast hround

/-- **Rounding keeps the order.** -/
theorem nearest_mono (hp : 0 < F.precision) (hq : 0 ≤ q) (h : q ≤ r) :
    F.nearest q ≤ F.nearest r := by
  rcases hq.eq_or_lt with rfl | hq
  · rw [nearest_zero]
    refine mul_nonneg ?_ (two_pos _).le
    have hround := roundHalfEven_mono (div_nonneg h (two_pos (F.exponent r)).le)
    have hzero := roundHalfEven_intCast 0
    rw [Int.cast_zero] at hzero
    rw [hzero] at hround
    exact_mod_cast hround
  have hr : 0 < r := hq.trans_le h
  have hlog : Int.log 2 q ≤ Int.log 2 r := Int.log_mono_right hq h
  by_cases he : F.exponent q = F.exponent r
  · rw [nearest, nearest, he]
    refine mul_le_mul_of_nonneg_right ?_ (two_pos _).le
    exact_mod_cast roundHalfEven_mono (div_le_div_of_nonneg_right h (two_pos _).le)
  · -- a power of two lies between them
    rw [exponent, exponent, abs_of_pos hq, abs_of_pos hr] at he
    have hbetween : q ≤ 2 ^ Int.log 2 r := by
      have hlt := Int.lt_zpow_succ_log_self (b := 2) (by norm_num) q
      refine hlt.le.trans (zpow_le_zpow_right₀ (by norm_num) ?_)
      omega
    have hemin : F.emin ≤ Int.log 2 r := by omega
    exact (nearest_le_zpow hp hq.le hbetween hemin).trans
      (zpow_le_nearest hp (Int.zpow_log_le_self (by norm_num) hr) hemin)

/-- Rounding commutes with doubling above the least power of two. -/
theorem nearest_two_mul (hq : 2 ^ (F.emin + F.precision) ≤ q) :
    F.nearest (2 * q) = 2 * F.nearest q := by
  have hpos : 0 < q := (two_pos _).trans_le hq
  have hlog : Int.log 2 (2 * q) = Int.log 2 q + 1 := by
    refine eq_of_forall_le_iff fun x => ?_
    rw [le_log_iff (by positivity), ← sub_le_iff_le_add, le_log_iff hpos,
      zpow_sub_one₀ (by norm_num), ← div_eq_mul_inv, div_le_iff₀ (by norm_num), mul_comm q]
  have hmin : F.emin + F.precision ≤ Int.log 2 q := by
    have hmono := Int.log_mono_right (b := 2) (two_pos _) hq
    rwa [log_zpow] at hmono
  have he : F.exponent (2 * q) = F.exponent q + 1 := by
    rw [exponent, exponent, abs_of_pos hpos, abs_of_pos (by positivity), hlog]
    omega
  have hstep : (2 : ℚ) ^ (F.exponent q + 1) = 2 * 2 ^ F.exponent q := by
    rw [zpow_add₀ (by norm_num), zpow_one, mul_comm]
  rw [nearest, nearest, he, hstep, mul_div_mul_left _ _ (by norm_num), mul_left_comm]

end Format

end Foundations
