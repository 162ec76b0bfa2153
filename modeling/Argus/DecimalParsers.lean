import Argus.Otlp

/-!
# Decimal parsers

`nanoTime` and `int64Env` read a number by hand, digit by digit in the arithmetic of `int64`, and
look at the sign in the end. A number that wrapped around an odd number of times is negative, but
one that wrapped around further can be anything. `decimalParsers_iff` says for which numbers the
sign tells.
-/

namespace Argus

open Foundations

/-- `int64Env`. The variables of the environment are a parameter, and so is the fallback. -/
def int64Env (env : String → String) (key : String) (fallback : ℤ) : ℤ :=
  let v := trimSpace (env key)
  if v = "" then fallback
  else
    match nanoDigits 0 v.toList with
    | none => fallback
    | some n => if n ≤ 0 then fallback else n

/-- `nanoTime` gives the instant of a number from 1 to 2^63-1, and the zero time for others. -/
def NanoTimeExact (raw : String) : Prop :=
  nanoTime raw = if 1 ≤ decimal raw.toList ∧ decimal raw.toList < 2 ^ 63 then
    Time.unixNano (decimal raw.toList) else ⟨0⟩

/-- `int64Env` gives a number from 1 to 2^63-1, and the fallback for others. -/
def Int64EnvExact (env : String → String) (key : String) (fallback : ℤ) : Prop :=
  int64Env env key fallback =
    if 1 ≤ decimal (env key).toList ∧ decimal (env key).toList < 2 ^ 63 then
      (decimal (env key).toList : ℤ) else fallback

/-- The sign of an `int64` tells whether a number was too large: it was not, or what is left of it
modulo 2^64 is zero or has the bit of the sign. -/
def SignTells (v : ℕ) : Prop := v < 2 ^ 63 ∨ v % 2 ^ 64 = 0 ∨ 2 ^ 63 ≤ v % 2 ^ 64

/-! ### Numbers modulo 2^64 -/

/-- What is left of a number is positive where the bit of the sign is not set. -/
theorem bmod_pos_iff (v : ℕ) :
    ¬ (v : ℤ).bmod (2 ^ 64) ≤ 0 ↔ v % 2 ^ 64 ≠ 0 ∧ v % 2 ^ 64 < 2 ^ 63 := by
  rw [Int.bmod_eq_emod]
  split_ifs <;> omega

/-- Then it is the remainder. -/
theorem bmod_eq_mod {v : ℕ} (h : ¬ (v : ℤ).bmod (2 ^ 64) ≤ 0) :
    (v : ℤ).bmod (2 ^ 64) = (v % 2 ^ 64 : ℕ) := by
  obtain ⟨-, hlt⟩ := (bmod_pos_iff v).mp h
  rw [Int.bmod_eq_emod, if_neg (by omega)]
  omega

theorem unixNano_ne_zero (n : ℕ) : Time.unixNano n ≠ ⟨0⟩ := by
  intro h
  have hns := congrArg Time.ns h
  simp only [Time.unixNano] at hns
  omega

/-- A number is read exactly, or not at all, where the sign tells or the value that is left is the
one of a number that is too large anyway. -/
theorem read_eq_iff {α : Type} {v : ℕ} (value : ℕ → α) (none : α) :
    (if (v : ℤ).bmod (2 ^ 64) ≤ 0 then none else value ((v : ℤ).bmod (2 ^ 64)).toNat) =
        (if 1 ≤ v ∧ v < 2 ^ 63 then value v else none) ↔
      SignTells v ∨ value (v % 2 ^ 64) = none := by
  rw [SignTells]
  by_cases hpos : (v : ℤ).bmod (2 ^ 64) ≤ 0
  · have hleft : v % 2 ^ 64 = 0 ∨ 2 ^ 63 ≤ v % 2 ^ 64 := by
      by_contra hleft
      exact (bmod_pos_iff v).mpr (by omega) hpos
    rw [if_pos hpos, if_neg (by omega)]
    exact iff_of_true rfl (.inl (.inr hleft))
  · obtain ⟨hne, hlt⟩ := (bmod_pos_iff v).mp hpos
    rw [if_neg hpos, bmod_eq_mod hpos, Int.toNat_natCast]
    by_cases hsmall : v < 2 ^ 63
    · rw [if_pos (by omega), Nat.mod_eq_of_lt (by omega)]
      exact iff_of_true rfl (.inl (.inl hsmall))
    · rw [if_neg (by omega)]
      constructor
      · exact .inr
      · rintro ((h | h | h) | h)
        · exact absurd h hsmall
        · exact absurd h hne
        · exact absurd hlt (by omega)
        · exact h

/-- `int64Env` of a text of digits. -/
theorem int64Env_digits {env : String → String} {key : String} (fallback : ℤ)
    (hdigits : ∀ c ∈ (env key).toList, '0' ≤ c ∧ c ≤ '9') (hne : env key ≠ "") :
    int64Env env key fallback =
      if (decimal (env key).toList : ℤ).bmod (2 ^ 64) ≤ 0 then fallback
      else (((decimal (env key).toList : ℤ).bmod (2 ^ 64)).toNat : ℤ) := by
  have hloop : nanoDigits 0 (env key).toList =
      some ((decimal (env key).toList : ℤ).bmod (2 ^ 64)) := nanoDigits_eq hdigits 0
  rw [int64Env, trimSpace_digits hdigits]
  simp only [if_neg hne, hloop]
  split_ifs with hpos
  · rfl
  · rw [Int.toNat_of_nonneg (by omega)]

/-- **When the parsers are exact.** Of a text of digits `nanoTime` gives the instant of its number
or, where it is out of range, the zero time, if and only if the sign tells; `int64Env` gives the
number or the fallback if and only if the sign tells or the number that is left by accident is the
fallback. -/
theorem decimalParsers_iff (raw : String) (hdigits : ∀ c ∈ raw.toList, '0' ≤ c ∧ c ≤ '9')
    (hne : raw ≠ "") :
    (NanoTimeExact raw ↔ SignTells (decimal raw.toList)) ∧
    ∀ (env : String → String) (key : String) (fallback : ℤ), env key = raw →
      (Int64EnvExact env key fallback ↔
        SignTells (decimal raw.toList) ∨ (decimal raw.toList % 2 ^ 64 : ℕ) = fallback) := by
  constructor
  · rw [NanoTimeExact, nanoTime_digits hdigits hne, read_eq_iff Time.unixNano ⟨0⟩]
    exact or_iff_left (unixNano_ne_zero _)
  · rintro env key fallback rfl
    rw [Int64EnvExact, int64Env_digits fallback hdigits hne,
      read_eq_iff (fun n : ℕ => (n : ℤ)) fallback]

/-- **Beyond 2^64.** The number 18446744073709551617 is read as 1 by both. -/
theorem decimalParsers_wrap :
    ¬ ∀ raw : String, (∀ c ∈ raw.toList, '0' ≤ c ∧ c ≤ '9') → raw ≠ "" →
      NanoTimeExact raw ∧
      ∀ (env : String → String) (key : String) (fallback : ℤ), env key = raw →
        Int64EnvExact env key fallback := by
  intro hall
  obtain ⟨hnano, -⟩ := hall "18446744073709551617"
    (forall_mem_of_all (by decide)) (by decide)
  exact absurd hnano (by unfold NanoTimeExact; decide +kernel)

/-- Both read a number that fits. -/
theorem decimalParsers_small :
    (NanoTimeExact "67108864" ↔ SignTells (decimal "67108864".toList)) ∧
    ∀ (env : String → String) (key : String) (fallback : ℤ), env key = "67108864" →
      (Int64EnvExact env key fallback ↔
        SignTells (decimal "67108864".toList) ∨
          (decimal "67108864".toList % 2 ^ 64 : ℕ) = fallback) :=
  decimalParsers_iff "67108864" (forall_mem_of_all (by decide)) (by decide)

end Argus
