import Mathlib.Algebra.Order.Floor.Ring
import Mathlib.Algebra.Order.Round
import Mathlib.Data.Int.Log
import Mathlib.Data.Rat.Floor
import Mathlib.Tactic.FieldSimp
import Mathlib.Tactic.GCongr
import Mathlib.Tactic.Linarith
import Mathlib.Tactic.Positivity
import Mathlib.Tactic.Ring

/-!
# Rounding to a binary format

A binary floating point format keeps the integers `m` with `|m| < 2 ^ p` times a power of two
`2 ^ e` with `emin ≤ e`, up to an overflow threshold. `Format.round` rounds a rational to the
nearest such number, ties to the even `m`, and overflows to an infinity.

The fact that users need is `Format.round_eq_self_iff`: rounding is the identity exactly on
the numbers of the format. For integers, `Format.representable_int` restates this with
natural exponents.
-/

namespace Foundations

/-- An extended number: a rational, or one of two infinities. -/
inductive Extended
  | finite (q : ℚ)
  | infinite (negative : Bool)
  deriving DecidableEq, Repr

/-- The integer nearest to a rational, the even one of two equally near. -/
def roundHalfEven (q : ℚ) : ℤ :=
  if q - ⌊q⌋ < 1 / 2 then ⌊q⌋
  else if 1 / 2 < q - ⌊q⌋ then ⌊q⌋ + 1
  else if ⌊q⌋ % 2 = 0 then ⌊q⌋ else ⌊q⌋ + 1

theorem roundHalfEven_intCast (n : ℤ) : roundHalfEven n = n := by
  rw [roundHalfEven, Int.floor_intCast, sub_self, if_pos (by norm_num)]

/-- Rounding moves by less than one, and never past an integer. -/
theorem floor_le_roundHalfEven (q : ℚ) : ⌊q⌋ ≤ roundHalfEven q := by
  rw [roundHalfEven]
  split_ifs <;> omega

theorem roundHalfEven_le_ceil (q : ℚ) : roundHalfEven q ≤ ⌈q⌉ := by
  have hfloor : ⌊q⌋ ≤ ⌈q⌉ := Int.floor_le_ceil q
  rcases eq_or_ne q ⌊q⌋ with hq | hq
  · rw [hq, roundHalfEven_intCast, Int.ceil_intCast]
  · have hlt : ⌊q⌋ < ⌈q⌉ := by
      have : (⌊q⌋ : ℚ) < q := lt_of_le_of_ne (Int.floor_le q) (Ne.symm hq)
      exact Int.lt_ceil.mpr this
    rw [roundHalfEven]
    split_ifs <;> omega

/-- A binary format: `precision` bits of significand, exponents from `emin`, overflow from
`2 ^ emax`. -/
structure Format where
  precision : ℕ
  emin : ℤ
  emax : ℤ
  deriving DecidableEq, Repr

namespace Format

variable (F : Format)

/-- The numbers of the format, without its bound above. -/
def Representable (q : ℚ) : Prop :=
  ∃ (m : ℤ) (e : ℤ), |m| < 2 ^ F.precision ∧ F.emin ≤ e ∧ q = m * 2 ^ e

/-- The exponent of the last kept bit of `q`. -/
def exponent (q : ℚ) : ℤ := max (Int.log 2 |q| - (F.precision - 1)) F.emin

/-- `q` rounded to the last kept bit. -/
def nearest (q : ℚ) : ℚ := roundHalfEven (q / 2 ^ F.exponent q) * 2 ^ F.exponent q

/-- Rounding into the format. -/
def round : Extended → Extended
  | .finite q =>
    if |F.nearest q| < 2 ^ F.emax then .finite (F.nearest q) else .infinite (decide (q < 0))
  | .infinite s => .infinite s

private theorem two_zpow_pos (e : ℤ) : (0 : ℚ) < 2 ^ e := zpow_pos (by norm_num) e

/-- The scaled significand has at most `precision` bits, or is the next power of two. -/
private theorem abs_significand_le (q : ℚ) :
    |roundHalfEven (q / 2 ^ F.exponent q)| ≤ 2 ^ F.precision := by
  have hpos := two_zpow_pos (F.exponent q)
  have hlog : |q| < (2 : ℚ) ^ (Int.log 2 |q| + 1) := by
    simpa using Int.lt_zpow_succ_log_self (b := 2) (by norm_num) |q|
  have habs : |q / 2 ^ F.exponent q| ≤ ((2 ^ F.precision : ℤ) : ℚ) := by
    rw [abs_div, abs_of_pos hpos, div_le_iff₀ hpos]
    have hexp : Int.log 2 |q| + 1 ≤ F.precision + F.exponent q := by
      have : Int.log 2 |q| - (F.precision - 1) ≤ F.exponent q := le_max_left _ _
      omega
    calc |q| ≤ (2 : ℚ) ^ (Int.log 2 |q| + 1) := hlog.le
      _ ≤ 2 ^ ((F.precision : ℤ) + F.exponent q) := zpow_le_zpow_right₀ (by norm_num) hexp
      _ = ((2 ^ F.precision : ℤ) : ℚ) * 2 ^ F.exponent q := by
        rw [zpow_add₀ (by norm_num), zpow_natCast]
        push_cast
        rfl
  obtain ⟨hlow, hhigh⟩ := abs_le.mp habs
  refine abs_le.mpr ⟨?_, ?_⟩
  · refine le_trans (Int.le_floor.mpr ?_) (floor_le_roundHalfEven _)
    push_cast at hlow ⊢
    exact hlow
  · refine le_trans (roundHalfEven_le_ceil _) (Int.ceil_le.mpr ?_)
    push_cast at hhigh ⊢
    exact hhigh

/-- What rounding gives is a number of the format. -/
theorem representable_nearest (hp : 0 < F.precision) (q : ℚ) :
    F.Representable (F.nearest q) := by
  have hemin : F.emin ≤ F.exponent q := le_max_right _ _
  rcases lt_or_eq_of_le (F.abs_significand_le q) with hm | hm
  · exact ⟨_, _, hm, hemin, rfl⟩
  -- the carry out of the top bit: the significand is `± 2 ^ precision`
  · obtain ⟨k, hk⟩ : ∃ k, F.precision = k + 1 := ⟨F.precision - 1, by omega⟩
    rw [hk, pow_succ] at hm
    have hcarry : (2 : ℚ) ^ (F.exponent q + 1) = 2 ^ F.exponent q * 2 := by
      rw [zpow_add₀ (by norm_num), zpow_one]
    rcases abs_eq (by positivity) |>.mp hm with hm | hm
    · refine ⟨2 ^ k, F.exponent q + 1, ?_, by omega, ?_⟩
      · rw [abs_of_pos (by positivity), hk]
        exact pow_lt_pow_right₀ (by norm_num) (by omega)
      · rw [nearest, hm, hcarry]
        push_cast
        ring
    · refine ⟨-2 ^ k, F.exponent q + 1, ?_, by omega, ?_⟩
      · rw [abs_neg, abs_of_pos (by positivity), hk]
        exact pow_lt_pow_right₀ (by norm_num) (by omega)
      · rw [nearest, hm, hcarry]
        push_cast
        ring

/-- The numbers of the format are left as they are. -/
theorem nearest_eq_self {q : ℚ} (h : F.Representable q) : F.nearest q = q := by
  obtain ⟨m, e, hm, he, rfl⟩ := h
  set q : ℚ := m * 2 ^ e with hq
  rcases eq_or_ne m 0 with rfl | hm0
  · have hq0 : q = 0 := by rw [hq, Int.cast_zero, zero_mul]
    rw [nearest, hq0, zero_div, show (0 : ℚ) = ((0 : ℤ) : ℚ) by norm_num, roundHalfEven_intCast]
    norm_num
  have hqpos : 0 < |q| := abs_pos.mpr (mul_ne_zero (by exact_mod_cast hm0) (two_zpow_pos e).ne')
  have hlt : |q| < (2 : ℚ) ^ ((F.precision : ℤ) + e) := by
    rw [hq, abs_mul, abs_of_pos (two_zpow_pos e), zpow_add₀ (by norm_num), zpow_natCast]
    refine mul_lt_mul_of_pos_right ?_ (two_zpow_pos e)
    exact_mod_cast hm
  have hlog : Int.log 2 |q| < F.precision + e := by
    by_contra hge
    have hle : (2 : ℚ) ^ ((F.precision : ℤ) + e) ≤ 2 ^ Int.log 2 |q| :=
      zpow_le_zpow_right₀ (by norm_num) (by omega)
    have hself : (2 : ℚ) ^ Int.log 2 |q| ≤ |q| := by
      simpa using Int.zpow_log_le_self (b := 2) (by norm_num) hqpos
    linarith
  have hexp : F.exponent q ≤ e := max_le (by omega) he
  -- the kept bits reach down to the last bit of `m`, so the scaled number is an integer
  obtain ⟨k, hk⟩ : ∃ k : ℕ, e = F.exponent q + k := ⟨(e - F.exponent q).toNat, by omega⟩
  have hscaled : q / 2 ^ F.exponent q = ((m * 2 ^ k : ℤ) : ℚ) := by
    rw [div_eq_iff (two_zpow_pos _).ne']
    calc q = m * 2 ^ (F.exponent q + k) := by rw [← hk]
      _ = ((m * 2 ^ k : ℤ) : ℚ) * 2 ^ F.exponent q := by
        rw [zpow_add₀ (by norm_num), zpow_natCast]
        push_cast
        ring
  rw [nearest, hscaled, roundHalfEven_intCast, ← hscaled, div_mul_cancel₀ _ (two_zpow_pos _).ne']

/-- A finite result of a rounding is a number of the format. -/
theorem representable_of_round (hp : 0 < F.precision) {x : Extended} {q : ℚ}
    (h : F.round x = .finite q) : F.Representable q := by
  cases x with
  | finite r =>
    rw [round] at h
    split_ifs at h with hlt
    rw [Extended.finite.injEq] at h
    exact h ▸ F.representable_nearest hp r
  | infinite s => cases h

/-- **Lossless exactly on the format.** Below the overflow bound, rounding keeps a number if
and only if the format has it. -/
theorem round_eq_self_iff (hp : 0 < F.precision) {q : ℚ} (hq : |q| < 2 ^ F.emax) :
    F.round (.finite q) = .finite q ↔ F.Representable q := by
  refine ⟨F.representable_of_round hp, fun h => ?_⟩
  rw [round, F.nearest_eq_self h, if_pos hq]

/-- An integer is in the format when it is a short integer times a natural power of two. -/
theorem representable_int (hemin : F.emin ≤ 0) (n : ℤ) :
    F.Representable n ↔ ∃ (m : ℤ) (k : ℕ), |m| < 2 ^ F.precision ∧ n = m * 2 ^ k := by
  constructor
  · rintro ⟨m, e, hm, -, hn⟩
    rcases le_or_gt 0 e with he | he
    · obtain ⟨k, rfl⟩ := Int.eq_ofNat_of_zero_le he
      refine ⟨m, k, hm, ?_⟩
      rw [zpow_natCast] at hn
      exact_mod_cast hn
    -- a negative exponent only shortens the integer further
    · refine ⟨n, 0, lt_of_le_of_lt ?_ hm, by ring⟩
      have hle : |(n : ℚ)| ≤ |(m : ℚ)| := by
        rw [hn, abs_mul, abs_of_pos (two_zpow_pos e)]
        exact mul_le_of_le_one_right (abs_nonneg _)
          (zpow_le_one_of_nonpos₀ (by norm_num) he.le)
      exact_mod_cast hle
  · rintro ⟨m, k, hm, rfl⟩
    refine ⟨m, k, hm, by omega, ?_⟩
    push_cast
    rw [zpow_natCast]

end Format

end Foundations
