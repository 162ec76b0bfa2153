import Argus.Foundations.Rounding
import Mathlib.Data.String.Basic

/-!
# What a column can hold

A parameter of a statement is converted to the type of its column, or the statement fails. A
`TEXT` column takes every valid UTF-8 text without U+0000, a `REAL` column keeps the nearest
IEEE single, an `INTEGER` column takes four bytes.
-/

namespace Argus

open Foundations

/-- Whether a `TEXT` column takes the text. -/
def validText (s : String) : Bool := !s.toList.contains '\x00'

/-- Whether `TEXT` columns take all the texts. -/
def validTexts (texts : List String) : Bool := texts.all validText

/-- IEEE single precision. -/
def singleFormat : Format := ⟨24, -149, 128⟩

/-- What a `REAL` column keeps of a number. -/
def real (x : Extended) : Extended := singleFormat.round x

/-- Whether an `INTEGER` column takes the number. -/
def validInteger (n : ℤ) : Bool := -2 ^ 31 ≤ n && n < 2 ^ 31

/-- An integer of at most 24 significant bits: a short integer times a power of two. -/
def SingleInteger (n : ℤ) : Prop := ∃ (m : ℤ) (k : ℕ), |m| < 2 ^ 24 ∧ n = m * 2 ^ k

/-- An integer that a `REAL` column holds has at most 24 significant bits. -/
theorem singleInteger_of_real {x : Extended} {n : ℤ} (h : real x = .finite n) :
    SingleInteger n :=
  (singleFormat.representable_int (by decide) n).mp
    (singleFormat.representable_of_round (by decide) h)

/-- **What survives a `REAL` column.** An integer of at most 53 bits is kept exactly when it has
at most 24 significant ones. -/
theorem real_intCast_iff {n : ℤ} (hn : |n| ≤ 2 ^ 53) :
    real (.finite n) = .finite n ↔ SingleInteger n := by
  rw [real, singleFormat.round_eq_self_iff (by decide), singleFormat.representable_int (by decide)]
  · rfl
  · have : |(n : ℚ)| ≤ 2 ^ 53 := by exact_mod_cast hn
    refine this.trans_lt ?_
    rw [show singleFormat.emax = ((128 : ℕ) : ℤ) from rfl, zpow_natCast]
    norm_num

end Argus
