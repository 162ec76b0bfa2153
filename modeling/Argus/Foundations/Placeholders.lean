import Mathlib.Data.List.Basic

/-!
# Templates with holes

A text with holes is a list of fragments: pieces of text, and holes with what is to be filled in.
It can be written as a template with a mark in each hole, next to the list of arguments, or with
numbered holes: `$1`, `$2` and so on.

The numbered text does not depend on the arguments (`numberedFrom_eq_of_shape_eq`), and when the
pieces of text have no dollar sign and no digit its placeholders are the numbers in their order
(`placeholders_numberedFrom`).
-/

namespace Foundations

/-- A piece of text, or a hole and its argument. -/
inductive Fragment (α : Type) where
  | text (cs : List Char)
  | hole (a : α)

namespace Fragment

variable {α β : Type}

/-- The fragment without its argument. -/
def shape : Fragment α → Fragment Unit
  | text cs => text cs
  | hole _ => hole ()

/-- A piece of text without marks, dollar signs and digits. -/
def plain : Fragment α → Bool
  | text cs => cs.all fun c => c != '?' && c != '$' && !c.isDigit
  | hole _ => true

/-- The text with a mark in each hole. -/
def template : List (Fragment α) → List Char
  | [] => []
  | text cs :: fs => cs ++ template fs
  | hole _ :: fs => '?' :: template fs

/-- The arguments in their order. -/
def arguments : List (Fragment α) → List α
  | [] => []
  | text _ :: fs => arguments fs
  | hole a :: fs => a :: arguments fs

/-- The text with numbered holes, from a number on. -/
def numberedFrom : ℕ → List (Fragment α) → List Char
  | _, [] => []
  | n, text cs :: fs => cs ++ numberedFrom n fs
  | n, hole _ :: fs => '$' :: (Nat.toDigits 10 n ++ numberedFrom (n + 1) fs)

theorem template_append (fs gs : List (Fragment α)) :
    template (fs ++ gs) = template fs ++ template gs := by
  induction fs with
  | nil => rfl
  | cons f fs ih =>
    cases f with
    | text cs => rw [List.cons_append, template, template, ih, List.append_assoc]
    | hole a => rw [List.cons_append, template, template, ih, List.cons_append]

theorem arguments_append (fs gs : List (Fragment α)) :
    arguments (fs ++ gs) = arguments fs ++ arguments gs := by
  induction fs with
  | nil => rfl
  | cons f fs ih =>
    cases f with
    | text cs => rw [List.cons_append, arguments, arguments, ih]
    | hole a => rw [List.cons_append, arguments, arguments, ih, List.cons_append]

/-! ### Shapes -/

theorem numberedFrom_shape (n : ℕ) (fs : List (Fragment α)) :
    numberedFrom n (fs.map shape) = numberedFrom n fs := by
  induction fs generalizing n with
  | nil => rfl
  | cons f fs ih =>
    cases f with
    | text cs => rw [List.map_cons, shape, numberedFrom, numberedFrom, ih]
    | hole a => rw [List.map_cons, shape, numberedFrom, numberedFrom, ih]

/-- **The numbered text does not depend on the arguments.** -/
theorem numberedFrom_eq_of_shape_eq {fs : List (Fragment α)} {gs : List (Fragment β)}
    (h : fs.map shape = gs.map shape) (n : ℕ) : numberedFrom n fs = numberedFrom n gs := by
  rw [← numberedFrom_shape n fs, h, numberedFrom_shape]

/-- A list of parts with the same one between each two. -/
def separated (sep : List (Fragment α)) (part : β → List (Fragment α)) : List β → List (Fragment α)
  | [] => []
  | b :: bs => part b ++ bs.flatMap fun b => sep ++ part b

/-- The shape of a list of parts depends on its length only. -/
theorem shape_separated {sep : List (Fragment α)} {part : β → List (Fragment α)}
    (hpart : ∀ b b', (part b).map shape = (part b').map shape) {bs bs' : List β}
    (hlength : bs.length = bs'.length) :
    (separated sep part bs).map shape = (separated sep part bs').map shape := by
  have hrest : ∀ {bs bs' : List β}, bs.length = bs'.length →
      (bs.flatMap fun b => sep ++ part b).map shape =
        (bs'.flatMap fun b => sep ++ part b).map shape := by
    intro bs
    induction bs with
    | nil =>
      intro bs' h
      rw [List.eq_nil_of_length_eq_zero h.symm]
    | cons b bs ih =>
      intro bs' h
      obtain ⟨b', bs', rfl⟩ := List.exists_of_length_succ bs' h.symm
      rw [List.flatMap_cons, List.flatMap_cons, List.map_append, List.map_append, List.map_append,
        List.map_append, hpart b b', ih (Nat.succ.inj h)]
  cases bs with
  | nil => rw [List.eq_nil_of_length_eq_zero hlength.symm]
  | cons b bs =>
    obtain ⟨b', bs', rfl⟩ := List.exists_of_length_succ bs' hlength.symm
    rw [separated, separated, List.map_append, List.map_append, hpart b b',
      hrest (Nat.succ.inj hlength)]

/-! ### Placeholders -/

/-- The numbers of the placeholders in a text: a dollar sign and the digits that follow it. -/
def placeholders : List Char → List ℕ
  | [] => []
  | c :: cs =>
    if c = '$' ∧ cs.takeWhile Char.isDigit ≠ [] then
      Nat.ofDigitChars 10 (cs.takeWhile Char.isDigit) 0 :: placeholders (cs.dropWhile Char.isDigit)
    else placeholders cs
  termination_by cs => cs.length
  decreasing_by
    · have := (List.dropWhile_suffix Char.isDigit (l := cs)).length_le
      simp only [List.length_cons]
      omega
    · simp

theorem placeholders_text {text : List Char} (h : '$' ∉ text) (rest : List Char) :
    placeholders (text ++ rest) = placeholders rest := by
  induction text with
  | nil => rfl
  | cons c text ih =>
    rw [List.mem_cons, not_or] at h
    rw [List.cons_append, placeholders, if_neg fun hc => h.1 hc.1.symm, ih h.2]

/-- A number ends where its digits end. -/
theorem placeholders_number (n : ℕ) {rest : List Char}
    (h : ∀ c ∈ rest.head?, c.isDigit = false) :
    placeholders ('$' :: (Nat.toDigits 10 n ++ rest)) = n :: placeholders rest := by
  have hdigits : ∀ c ∈ Nat.toDigits 10 n, c.isDigit = true := fun c hc =>
    Nat.isDigit_of_mem_toDigits (by decide) (by decide) hc
  have hrest : rest.takeWhile Char.isDigit = [] ∧ rest.dropWhile Char.isDigit = rest := by
    cases rest with
    | nil => exact ⟨rfl, rfl⟩
    | cons c rest =>
      have hc : ¬ c.isDigit = true := by rw [h c rfl]; decide
      exact ⟨List.takeWhile_cons_of_neg hc, List.dropWhile_cons_of_neg hc⟩
  have htake : (Nat.toDigits 10 n ++ rest).takeWhile Char.isDigit = Nat.toDigits 10 n := by
    rw [List.takeWhile_append_of_pos hdigits, hrest.1, List.append_nil]
  have hdrop : (Nat.toDigits 10 n ++ rest).dropWhile Char.isDigit = rest := by
    rw [List.dropWhile_append_of_pos hdigits, hrest.2]
  rw [placeholders, htake, hdrop, if_pos ⟨rfl, Nat.toDigits_ne_nil⟩, Nat.ofDigitChars_ten_toDigits]

/-- A numbered text does not start with a digit. -/
theorem head?_numberedFrom {fs : List (Fragment α)} (h : fs.all plain = true) (n : ℕ) :
    ∀ c ∈ (numberedFrom n fs).head?, c.isDigit = false := by
  induction fs with
  | nil => simp [numberedFrom]
  | cons f fs ih =>
    rw [List.all_cons, Bool.and_eq_true] at h
    cases f with
    | hole a =>
      intro c hc
      obtain rfl := Option.some.inj hc
      decide
    | text cs =>
      rw [numberedFrom]
      cases cs with
      | nil => exact ih h.2
      | cons c cs =>
        intro d hd
        obtain rfl := Option.some.inj hd
        have hc := List.all_eq_true.mp h.1 c List.mem_cons_self
        simp only [Bool.and_eq_true, Bool.not_eq_true'] at hc
        exact hc.2

/-- **The placeholders are numbered in their order**, one for each argument. -/
theorem placeholders_numberedFrom {fs : List (Fragment α)} (h : fs.all plain = true) (n : ℕ) :
    placeholders (numberedFrom n fs) = List.range' n (arguments fs).length := by
  induction fs generalizing n with
  | nil => simp [numberedFrom, placeholders, arguments]
  | cons f fs ih =>
    rw [List.all_cons, Bool.and_eq_true] at h
    cases f with
    | text cs =>
      have hdollar : '$' ∉ cs := by
        intro hmem
        have hc := List.all_eq_true.mp h.1 _ hmem
        exact absurd hc (by decide)
      rw [numberedFrom, arguments, placeholders_text hdollar, ih h.2]
    | hole a =>
      rw [numberedFrom, arguments, placeholders_number n (head?_numberedFrom h.2 (n + 1)), ih h.2,
        List.length_cons, List.range'_succ]

end Fragment

end Foundations
