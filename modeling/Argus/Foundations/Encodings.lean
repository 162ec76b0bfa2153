import Mathlib.Data.Char
import Mathlib.Data.List.Basic
import Mathlib.Tactic.IntervalCases

/-!
# Hexadecimal and base64 texts

Bytes are natural numbers. `hexText` writes two lower-case digits for each byte, and
`base64Decode` reads the standard alphabet with or without padding, skipping line breaks, as
the decoders of most standard libraries do. `length_base64Decode` says how many bytes a text
without padding stands for.
-/

namespace Foundations

/-! ### Hexadecimal digits -/

/-- The lower-case hexadecimal digit of a number below sixteen. -/
def hexDigit (n : ℕ) : Char := if n < 10 then Char.ofNat (48 + n) else Char.ofNat (87 + n)

/-- The value of a hexadecimal digit of either case. -/
def hexValue (c : Char) : Option ℕ :=
  if '0' ≤ c ∧ c ≤ '9' then some (c.toNat - 48)
  else if 'a' ≤ c ∧ c ≤ 'f' then some (c.toNat - 87)
  else if 'A' ≤ c ∧ c ≤ 'F' then some (c.toNat - 55)
  else none

theorem hexValue_hexDigit {n : ℕ} (h : n < 16) : hexValue (hexDigit n) = some n := by
  interval_cases n <;> decide

/-- Two digits for each byte. -/
def hexText (bytes : List ℕ) : List Char :=
  bytes.flatMap fun b => [hexDigit (b / 16 % 16), hexDigit (b % 16)]

theorem length_hexText (bytes : List ℕ) : (hexText bytes).length = 2 * bytes.length := by
  induction bytes with
  | nil => rfl
  | cons b bytes ih =>
    rw [hexText, List.flatMap_cons, ← hexText, List.length_append, ih, List.length_cons]
    simp only [List.length_cons, List.length_nil]
    omega

/-! ### Base64 -/

/-- The six bits of a letter of the standard alphabet. -/
def base64Value (c : Char) : Option ℕ :=
  if 'A' ≤ c ∧ c ≤ 'Z' then some (c.toNat - 65)
  else if 'a' ≤ c ∧ c ≤ 'z' then some (c.toNat - 71)
  else if '0' ≤ c ∧ c ≤ '9' then some (c.toNat + 4)
  else if c = '+' then some 62
  else if c = '/' then some 63
  else none

/-- The last, incomplete group: two letters are one byte and three letters are two. With
padding it is filled up to four characters, without padding it ends the text. -/
def base64Tail (padded : Bool) (cs : List Char) : Option (List ℕ) :=
  let letters := if padded then cs.takeWhile (· != '=') else cs
  let padding := if padded then cs.dropWhile (· != '=') else []
  match letters, padding with
  | [], [] => some []
  | [a, b], ps => do
    let a ← base64Value a
    let b ← base64Value b
    if ps = (if padded then ['=', '='] else []) then some [a * 4 + b / 16] else none
  | [a, b, c], ps => do
    let a ← base64Value a
    let b ← base64Value b
    let c ← base64Value c
    if ps = (if padded then ['='] else []) then
      some [a * 4 + b / 16, b % 16 * 16 + c / 4]
    else none
  | _, _ => none

/-- Groups of four letters, three bytes each, and what is left at the end. -/
def base64Groups (padded : Bool) : List Char → Option (List ℕ)
  | a :: b :: c :: d :: rest =>
    match base64Value a, base64Value b, base64Value c, base64Value d with
    | some a, some b, some c, some d => do
      let bytes ← base64Groups padded rest
      some ((a * 4 + b / 16) :: (b % 16 * 16 + c / 4) :: (c % 4 * 64 + d) :: bytes)
    | _, _, _, _ => if rest = [] then base64Tail padded [a, b, c, d] else none
  | cs => base64Tail padded cs

/-- Decode a text, skipping line breaks. -/
def base64Decode (padded : Bool) (cs : List Char) : Option (List ℕ) :=
  base64Groups padded (cs.filter fun c => c != '\r' && c != '\n')

example : base64Decode true "SGVsbG8=".toList = some [72, 101, 108, 108, 111] := by decide

theorem hexValue_isSome_base64 {c : Char} (h : (hexValue c).isSome) :
    (base64Value c).isSome ∧ c ≠ '\r' ∧ c ≠ '\n' := by
  have hr : hexValue '\r' = none := by decide
  have hn : hexValue '\n' = none := by decide
  refine ⟨?_, fun hc => by simp [hc, hr] at h, fun hc => by simp [hc, hn] at h⟩
  rw [hexValue] at h
  rw [base64Value]
  split_ifs at h with h₁ h₂ h₃
  · rw [if_neg (fun hc => absurd (hc.1.trans h₁.2) (by decide)),
      if_neg (fun hc => absurd (hc.1.trans h₁.2) (by decide)), if_pos h₁]
    rfl
  · rw [if_neg (fun hc => absurd (h₂.1.trans hc.2) (by decide)),
      if_pos ⟨h₂.1, h₂.2.trans (by decide)⟩]
    rfl
  · rw [if_pos ⟨h₃.1, h₃.2.trans (by decide)⟩]
    rfl
  · cases h

/-- **Whole groups.** A text of letters in groups of four decodes, to three bytes a group. -/
theorem length_base64Decode {padded : Bool} {k : ℕ} {cs : List Char}
    (hcs : ∀ c ∈ cs, (base64Value c).isSome ∧ c ≠ '\r' ∧ c ≠ '\n') (hk : cs.length = 4 * k) :
    ∃ bytes, base64Decode padded cs = some bytes ∧ bytes.length = 3 * k := by
  have hskip : cs.filter (fun c => c != '\r' && c != '\n') = cs := by
    rw [List.filter_eq_self]
    intro c hc
    simpa using (hcs c hc).2
  rw [base64Decode, hskip]
  clear hskip
  induction k generalizing cs with
  | zero =>
    obtain rfl := List.length_eq_zero_iff.mp hk
    cases padded <;> exact ⟨[], rfl, rfl⟩
  | succ k ih =>
    match cs, hk with
    | a :: b :: c :: d :: rest, hk =>
      obtain ⟨bytes, hbytes, hlen⟩ := @ih rest (fun e he => hcs e (by simp [he]))
        (by simp only [List.length_cons] at hk; omega)
      obtain ⟨a', ha⟩ := Option.isSome_iff_exists.mp (hcs a (by simp)).1
      obtain ⟨b', hb⟩ := Option.isSome_iff_exists.mp (hcs b (by simp)).1
      obtain ⟨c', hc⟩ := Option.isSome_iff_exists.mp (hcs c (by simp)).1
      obtain ⟨d', hd⟩ := Option.isSome_iff_exists.mp (hcs d (by simp)).1
      refine ⟨(a' * 4 + b' / 16) :: (b' % 16 * 16 + c' / 4) :: (c' % 4 * 64 + d') :: bytes, ?_, ?_⟩
      · rw [base64Groups, ha, hb, hc, hd, hbytes]
        rfl
      · simp only [List.length_cons, hlen]
        omega

end Foundations
