import Mathlib.Algebra.Order.Group.Nat
import Mathlib.Data.List.Basic
import Mathlib.Data.Nat.Notation
import Mathlib.Order.Lattice
import Mathlib.Tactic.Ring

/-!
# Bytes: numbers, lines and text

Big-endian numbers of four bytes, the lines of some bytes, and UTF-8 text that is read as far as it
can be: a byte that is not part of a character becomes the replacement character. The three go
together because a byte below 128 is never part of a longer character, so that text can be cut at
one before it is read.
-/

namespace Foundations

/-! ### Numbers -/

/-- The number that some bytes write, the first of them counting most. -/
def bigEndian (bytes : List UInt8) : ℕ := bytes.foldl (fun n b => n * 256 + b.toNat) 0

/-- A number in four bytes. -/
def fourBytes (n : ℕ) : List UInt8 :=
  [UInt8.ofNat (n / 16777216), UInt8.ofNat (n / 65536), UInt8.ofNat (n / 256), UInt8.ofNat n]

theorem bigEndian_fourBytes {n : ℕ} (h : n < 4294967296) : bigEndian (fourBytes n) = n := by
  simp only [bigEndian, fourBytes, List.foldl_cons, List.foldl_nil, UInt8.toNat_ofNat']
  omega

/-! ### Lines -/

/-- The lines of some bytes. The last one need not be ended by a newline. -/
def splitLines : List UInt8 → List (List UInt8)
  | [] => []
  | b :: bs =>
    if b = 10 then [] :: splitLines bs
    else match splitLines bs with
      | [] => [[b]]
      | line :: lines => (b :: line) :: lines

/-- A line and what comes after it. -/
theorem splitLines_append {line : List UInt8} (h : 10 ∉ line) (rest : List UInt8) :
    splitLines (line ++ 10 :: rest) = line :: splitLines rest := by
  induction line with
  | nil => exact if_pos rfl
  | cons b line ih =>
    obtain ⟨hb, hline⟩ := not_or.mp (mt List.mem_cons.mpr h)
    rw [List.cons_append, splitLines, if_neg (Ne.symm hb), ih hline]

/-- Lines that are each ended by a newline. -/
theorem splitLines_flatMap {lines : List (List UInt8)} (h : ∀ line ∈ lines, 10 ∉ line) :
    splitLines (lines.flatMap (· ++ [10])) = lines := by
  induction lines with
  | nil => rfl
  | cons line lines ih =>
    rw [List.flatMap_cons, List.append_assoc, List.singleton_append,
      splitLines_append (h line List.mem_cons_self),
      ih fun l hl => h l (List.mem_cons_of_mem _ hl)]

/-! ### Text -/

/-- How many bytes follow the first one of a character. -/
def extraBytes (b : UInt8) : ℕ :=
  if b < 0xC2 then 0 else if b < 0xE0 then 1 else if b < 0xF0 then 2 else if b < 0xF5 then 3 else 0

/-- Whether a byte is one that follows. -/
def isContinuation (b : UInt8) : Bool := 0x80 ≤ b && b < 0xC0

/-- The least number that needs so many bytes after the first one. -/
def leastRune (extra : ℕ) : ℕ := if extra = 1 then 0x80 else if extra = 2 then 0x800 else 0x10000

/-- The character that starts with a byte, and how many more bytes it takes. -/
def decodeRune (b : UInt8) (bs : List UInt8) : Char × ℕ :=
  let extra := extraBytes b
  let tail := bs.take extra
  let value := tail.foldl (fun v c => v * 64 + c.toNat % 64) (b.toNat % 2 ^ (6 - extra))
  if b < 0x80 then (Char.ofNat b.toNat, 0)
  else if tail.length = extra ∧ extra ≠ 0 ∧ tail.all isContinuation ∧ leastRune extra ≤ value ∧
    value.isValidChar then (Char.ofNat value, extra)
  else ('\uFFFD', 0)

/-- The text that some bytes write. -/
def decodeUtf8 : List UInt8 → List Char
  | [] => []
  | b :: bs => (decodeRune b bs).1 :: decodeUtf8 (bs.drop (decodeRune b bs).2)
  termination_by bs => bs.length
  decreasing_by simp only [List.length_drop, List.length_cons]; omega

/-- The characters that some bytes write, each with its bytes. -/
def runes : List UInt8 → List (Char × List UInt8)
  | [] => []
  | b :: bs =>
    ((decodeRune b bs).1, b :: bs.take (decodeRune b bs).2) :: runes (bs.drop (decodeRune b bs).2)
  termination_by bs => bs.length
  decreasing_by simp only [List.length_drop, List.length_cons]; omega

/-- The bytes of a text. -/
def utf8 (cs : List Char) : List UInt8 := cs.flatMap String.utf8EncodeChar

theorem decodeRune_ascii {b : UInt8} (h : b < 0x80) (bs : List UInt8) :
    decodeRune b bs = (Char.ofNat b.toNat, 0) :=
  if_pos h

theorem decodeUtf8_cons_ascii {b : UInt8} (h : b < 0x80) (bs : List UInt8) :
    decodeUtf8 (b :: bs) = Char.ofNat b.toNat :: decodeUtf8 bs := by
  rw [decodeUtf8, decodeRune_ascii h, List.drop_zero]

/-- A character does not take more bytes than there are. -/
theorem decodeRune_le (b : UInt8) (bs : List UInt8) : (decodeRune b bs).2 ≤ bs.length := by
  rw [decodeRune]
  split_ifs with h₁ h₂
  · exact Nat.zero_le _
  · rw [← h₂.1]
    exact List.length_take_le' _ _
  · exact Nat.zero_le _

/-- A byte below 128 is not part of a character that starts before it. -/
theorem decodeRune_append {c : UInt8} (h : c < 0x80) (b : UInt8) (bs rest : List UInt8) :
    decodeRune b (bs ++ c :: rest) = decodeRune b bs := by
  rcases Nat.lt_or_ge bs.length (extraBytes b) with hshort | hlong
  · have hmem : c ∈ (bs ++ c :: rest).take (extraBytes b) := by
      rw [List.take_append, List.mem_append]
      obtain ⟨k, hk⟩ := Nat.exists_eq_add_of_lt hshort
      refine .inr ?_
      rw [hk, Nat.add_assoc, Nat.add_sub_cancel_left, List.take_succ_cons]
      exact List.mem_cons_self
    have hcont : ((bs ++ c :: rest).take (extraBytes b)).all isContinuation = false := by
      rw [List.all_eq_false]
      refine ⟨c, hmem, ?_⟩
      rw [isContinuation, decide_eq_false (UInt8.not_le.mpr h)]
      exact Bool.false_ne_true
    have hlength : (bs.take (extraBytes b)).length ≠ extraBytes b := by
      rw [List.length_take]
      omega
    rw [decodeRune, decodeRune]
    simp only [hcont, hlength, false_and, and_false, Bool.false_eq_true, if_false]
  · rw [decodeRune, decodeRune, List.take_append_of_le_length hlong]

/-- **Text can be cut at a byte below 128.** -/
theorem decodeUtf8_append {c : UInt8} (h : c < 0x80) (bs rest : List UInt8) :
    decodeUtf8 (bs ++ c :: rest) = decodeUtf8 bs ++ Char.ofNat c.toNat :: decodeUtf8 rest := by
  induction hn : bs.length using Nat.strong_induction_on generalizing bs with
  | _ n ih =>
    cases bs with
    | nil => rw [List.nil_append, decodeUtf8_cons_ascii h, decodeUtf8, List.nil_append]
    | cons b bs =>
      rw [List.cons_append, decodeUtf8, decodeUtf8, decodeRune_append h,
        List.drop_append_of_le_length (decodeRune_le b bs), List.cons_append]
      refine congrArg _ (ih _ ?_ _ rfl)
      rw [← hn, List.length_drop, List.length_cons]
      omega

/-- The bytes of a text of ASCII characters. -/
def asciiBytes (cs : List Char) : List UInt8 := cs.map fun c => UInt8.ofNat c.toNat

/-- Characters of ASCII are read back. -/
theorem decodeUtf8_asciiBytes {cs : List Char} (h : ∀ c ∈ cs, c.toNat < 128) (rest : List UInt8) :
    decodeUtf8 (asciiBytes cs ++ rest) = cs ++ decodeUtf8 rest := by
  induction cs with
  | nil => rfl
  | cons c cs ih =>
    have hc := h c List.mem_cons_self
    have hnat : (UInt8.ofNat c.toNat).toNat = c.toNat := by
      rw [UInt8.toNat_ofNat']
      omega
    have hlt : UInt8.ofNat c.toNat < 0x80 := UInt8.lt_iff_toNat_lt.mpr (by rw [hnat]; exact hc)
    rw [asciiBytes, List.map_cons, List.cons_append, decodeUtf8_cons_ascii hlt, hnat,
      Char.ofNat_toNat]
    exact congrArg (c :: ·) (ih fun d hd => h d (List.mem_cons_of_mem _ hd))

/-- A text without a newline is written without one. -/
theorem newline_notMem_asciiBytes {cs : List Char} (hascii : ∀ c ∈ cs, c.toNat < 128)
    (h : '\n' ∉ cs) : 10 ∉ asciiBytes cs := by
  intro hmem
  obtain ⟨c, hc, hten⟩ := List.mem_map.mp hmem
  have hlt := hascii c hc
  have hnat : c.toNat = 10 := by
    have htoNat := congrArg UInt8.toNat hten
    rw [UInt8.toNat_ofNat', Nat.mod_eq_of_lt (show c.toNat < 2 ^ 8 by omega)] at htoNat
    exact htoNat
  obtain rfl : c = '\n' := Char.toNat_inj.mp hnat
  exact h hc

end Foundations
