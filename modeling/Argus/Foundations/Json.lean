import Argus.Foundations.Digits
import Argus.Foundations.Encodings
import Mathlib.Data.List.TakeWhile
import Mathlib.Data.String.Basic
import Mathlib.Tactic.SplitIfs

/-!
# JSON values, their texts and a reader

`Json` are the values. A number is kept as its text, and a `Number` carries the proof that the
text is one. Writers differ only in which characters of a string they escape: an `Escape` is
such a choice together with the proof that the reader undoes it, and `render E` writes a value
without white space in the style `E`.

`parse` is a strict reader: one value, white space around tokens, no control characters
inside strings, `\u` escapes with surrogate pairs (a lone surrogate reads as U+FFFD), and at
most `maxDepth` nested arrays and objects. Recursion is on a fuel, the length of the text.
-/

namespace Foundations

/-! ### Characters of strings -/

/-- The control characters, which a string may not contain unescaped. -/
def isControl (c : Char) : Bool := c.toNat < 0x20

/-- The four hexadecimal digits of a `\u` escape. -/
def hexFour (n : ℕ) : List Char :=
  [hexDigit (n / 4096 % 16), hexDigit (n / 256 % 16), hexDigit (n / 16 % 16), hexDigit (n % 16)]

/-- Read four hexadecimal digits. -/
def readHexFour : List Char → Option (ℕ × List Char)
  | a :: b :: c :: d :: r => do
    let a ← hexValue a
    let b ← hexValue b
    let c ← hexValue c
    let d ← hexValue d
    some (a * 4096 + b * 256 + c * 16 + d, r)
  | _ => none

/-- The character of a `\u` escape: high surrogates take a following low one with them. -/
def readUnicode (cs : List Char) : Option (Char × List Char) := do
  let (u, r) ← readHexFour cs
  if 0xD800 ≤ u ∧ u < 0xE000 then
    match r with
    | '\\' :: 'u' :: r' =>
      match readHexFour r' with
      | some (v, r'') =>
        if u < 0xDC00 ∧ 0xDC00 ≤ v ∧ v < 0xE000 then
          some (Char.ofNat (0x10000 + (u - 0xD800) * 0x400 + (v - 0xDC00)), r'')
        else some ('\uFFFD', r)
      | none => some ('\uFFFD', r)
    | _ => some ('\uFFFD', r)
  else some (Char.ofNat u, r)

/-- The character after a backslash. -/
def simpleEscape (c : Char) : Option Char :=
  if c = '"' ∨ c = '\\' ∨ c = '/' then some c
  else if c = 'b' then some '\x08'
  else if c = 'f' then some '\x0c'
  else if c = 'n' then some '\n'
  else if c = 'r' then some '\r'
  else if c = 't' then some '\t'
  else none

/-- Read one character of a string. -/
def readChar : List Char → Option (Char × List Char)
  | [] => none
  | '\\' :: [] => none
  | '\\' :: c :: r => if c = 'u' then readUnicode r else (simpleEscape c).map fun c => (c, r)
  | c :: r => if isControl c then none else some (c, r)

/-- Read the rest of a string, up to the closing quotation mark. -/
def readString : ℕ → List Char → Option (List Char × List Char)
  | 0, _ => none
  | n + 1, cs =>
    match cs with
    | '"' :: r => some ([], r)
    | cs => do
      let (c, r) ← readChar cs
      let (s, r) ← readString n r
      some (c :: s, r)

/-- How a writer escapes the characters of a string, in a way that the reader undoes. -/
structure Escape where
  write : Char → List Char
  /-- Reading what was written for a character gives the character. -/
  reads : ∀ c rest, readChar (write c ++ rest) = some (c, rest)
  /-- What is written for a character does not close the string. -/
  opens : ∀ c rest, (write c ++ rest).head? ≠ some '"'

/-- A string between quotation marks. -/
def Escape.quote (E : Escape) (s : String) : List Char :=
  '"' :: (s.toList.flatMap E.write ++ ['"'])

/-- Reading the four digits written for a number gives the number. -/
theorem readHexFour_hexFour {n : ℕ} (hn : n < 65536) (rest : List Char) :
    readHexFour (hexFour n ++ rest) = some (n, rest) := by
  have hsum : n / 4096 % 16 * 4096 + n / 256 % 16 * 256 + n / 16 % 16 * 16 + n % 16 = n := by
    omega
  have h : ∀ m, hexValue (hexDigit (m % 16)) = some (m % 16) := fun m =>
    hexValue_hexDigit (Nat.mod_lt m (by decide))
  simp only [hexFour, List.cons_append, List.nil_append, readHexFour, h, Option.bind_eq_bind,
    Option.bind_some, hsum]

/-- A `\u` escape below the surrogates is read as its character. -/
theorem readUnicode_hexFour {c : Char} (hc : c.toNat < 0xD800) (rest : List Char) :
    readUnicode (hexFour c.toNat ++ rest) = some (c, rest) := by
  rw [readUnicode, readHexFour_hexFour (by omega)]
  simp only [Option.bind_eq_bind, Option.bind_some]
  rw [if_neg (by omega), Char.ofNat_toNat]

/-- The style that writes `\e` for the characters with a short escape `e`, a `\u` escape for
the other control characters and for those of `long`, and every other character as it is. -/
def Escape.of (short : Char → Option Char) (long : Char → Bool)
    (hshort : ∀ c e, short c = some e → e ≠ 'u' ∧ simpleEscape e = some c)
    (hquote : (short '"').isSome) (hslash : (short '\\').isSome)
    (hlong : ∀ c, long c → c.toNat < 0xD800) : Escape where
  write c :=
    match short c with
    | some e => ['\\', e]
    | none => if isControl c || long c then '\\' :: 'u' :: hexFour c.toNat else [c]
  reads c rest := by
    cases hc : short c with
    | some e =>
      obtain ⟨hu, he⟩ := hshort c e hc
      simp [readChar, hu, he]
    | none =>
      by_cases hlc : isControl c || long c
      · have hlt : c.toNat < 0xD800 := by
          rcases Bool.or_eq_true_iff.mp hlc with h | h
          · exact (of_decide_eq_true h).trans (by decide)
          · exact hlong c h
        simp only [hlc, if_true, List.cons_append, readChar, readUnicode_hexFour hlt]
      · have hne : c ≠ '\\' := by
          rintro rfl
          rw [hc] at hslash
          cases hslash
        obtain ⟨hcontrol, hlong⟩ : isControl c = false ∧ long c = false :=
          Bool.or_eq_false_iff.mp (Bool.not_eq_true _ ▸ hlc)
        simp [readChar, hne, hcontrol, hlong]
  opens c rest := by
    cases hc : short c with
    | some e => simp
    | none =>
      split_ifs with hlc
      · simp
      · rintro h
        obtain rfl : c = '"' := by simpa using h
        rw [hc] at hquote
        cases hquote

/-! ### Numbers -/

/-- The text does not begin with a character of `p`. -/
def Avoids (p : Char → Bool) (cs : List Char) : Prop := ∀ c ∈ cs.head?, p c = false

/-- Read the whole part of a number: `0`, or digits without a leading zero. -/
def readWhole : List Char → Option (List Char × List Char)
  | [] => none
  | c :: r =>
    if c = '0' then some (['0'], r)
    else if c.isDigit then some (c :: r.takeWhile Char.isDigit, r.dropWhile Char.isDigit)
    else none

/-- Read at least one digit. -/
def readDigits (cs : List Char) : Option (List Char × List Char) :=
  if cs.takeWhile Char.isDigit = [] then none
  else some (cs.takeWhile Char.isDigit, cs.dropWhile Char.isDigit)

/-- Read the fraction of a number, if there is one. -/
def readFraction : List Char → Option (List Char × List Char)
  | [] => some ([], [])
  | c :: r =>
    if c = '.' then (readDigits r).map fun (ds, r) => ('.' :: ds, r) else some ([], c :: r)

/-- Read the sign of an exponent, if there is one. -/
def readSign : List Char → List Char × List Char
  | [] => ([], [])
  | c :: r => if c = '+' ∨ c = '-' then ([c], r) else ([], c :: r)

/-- Read the exponent of a number, if there is one. -/
def readExponent : List Char → Option (List Char × List Char)
  | [] => some ([], [])
  | c :: r =>
    if c = 'e' ∨ c = 'E' then
      (readDigits (readSign r).2).map fun (ds, r') => (c :: ((readSign r).1 ++ ds), r')
    else some ([], c :: r)

/-- Read a number without its minus sign. -/
def readMagnitude (cs : List Char) : Option (List Char × List Char) := do
  let (whole, r) ← readWhole cs
  let (fraction, r) ← readFraction r
  let (exponent, r) ← readExponent r
  some (whole ++ (fraction ++ exponent), r)

/-- Read a number. -/
def readNumber : List Char → Option (List Char × List Char)
  | [] => none
  | c :: r =>
    if c = '-' then (readMagnitude r).map fun (t, r) => ('-' :: t, r) else readMagnitude (c :: r)

/-- The characters that may continue a number. -/
def continuesNumber (c : Char) : Bool := c.isDigit || c == '.' || c == 'e' || c == 'E'

private theorem digits_append (cs : List Char) {rest : List Char} (h : Avoids Char.isDigit rest) :
    (cs.takeWhile Char.isDigit ++ rest).takeWhile Char.isDigit = cs.takeWhile Char.isDigit ∧
      (cs.takeWhile Char.isDigit ++ rest).dropWhile Char.isDigit = rest := by
  induction cs with
  | nil =>
    cases rest with
    | nil => exact ⟨rfl, rfl⟩
    | cons c rest =>
      have hc := h c (by simp)
      simp [hc]
  | cons c cs ih =>
    cases hc : c.isDigit with
    | true =>
      rw [List.takeWhile_cons_of_pos hc, List.cons_append, List.takeWhile_cons_of_pos hc,
        List.dropWhile_cons_of_pos hc, ih.1]
      exact ⟨rfl, ih.2⟩
    | false =>
      rw [List.takeWhile_cons_of_neg (by simp [hc])]
      cases rest with
      | nil => exact ⟨rfl, rfl⟩
      | cons d rest =>
        have hd := h d (by simp)
        simp [hd]

private theorem readDigits_append {cs t r rest : List Char} (h : readDigits cs = some (t, r))
    (hrest : Avoids Char.isDigit rest) :
    readDigits (t ++ rest) = some (t, rest) ∧ ∃ c t', t = c :: t' ∧ c.isDigit := by
  rw [readDigits] at h
  split_ifs at h with hnil
  obtain ⟨rfl, -⟩ : cs.takeWhile Char.isDigit = t ∧ _ := by simpa using h
  obtain ⟨htake, hdrop⟩ := digits_append cs hrest
  refine ⟨by rw [readDigits, htake, hdrop, if_neg hnil], ?_⟩
  obtain ⟨c, t', ht⟩ := List.exists_cons_of_ne_nil hnil
  exact ⟨c, t', ht, List.mem_takeWhile_imp (ht ▸ List.mem_cons_self)⟩

private theorem readWhole_append {cs t r rest : List Char} (h : readWhole cs = some (t, r))
    (hrest : Avoids Char.isDigit rest) :
    readWhole (t ++ rest) = some (t, rest) ∧ ∃ c t', t = c :: t' ∧ c.isDigit := by
  cases cs with
  | nil => cases h
  | cons c cs =>
    rw [readWhole] at h
    split_ifs at h with h0 hd
    · obtain ⟨rfl, -⟩ : ['0'] = t ∧ _ := by simpa using h
      exact ⟨rfl, '0', [], rfl, rfl⟩
    · obtain ⟨rfl, -⟩ : c :: cs.takeWhile Char.isDigit = t ∧ _ := by simpa using h
      obtain ⟨htake, hdrop⟩ := digits_append cs hrest
      refine ⟨?_, c, _, rfl, hd⟩
      rw [List.cons_append, readWhole, if_neg h0, if_pos hd, htake, hdrop]

private theorem readFraction_append {cs t r rest : List Char} (h : readFraction cs = some (t, r))
    (hrest : Avoids (fun c => c.isDigit || c == '.') rest) :
    readFraction (t ++ rest) = some (t, rest) ∧ (t = [] ∨ ∃ t', t = '.' :: t') := by
  have hnone : readFraction rest = some ([], rest) := by
    cases rest with
    | nil => rfl
    | cons c rest =>
      have hc : c ≠ '.' := by simpa using (Bool.or_eq_false_iff.mp (hrest c (by simp))).2
      rw [readFraction, if_neg hc]
  cases cs with
  | nil =>
    obtain ⟨rfl, -⟩ : [] = t ∧ _ := by simpa [readFraction] using h
    exact ⟨hnone, .inl rfl⟩
  | cons c cs =>
    rw [readFraction] at h
    split_ifs at h with hc
    · obtain ⟨⟨ds, r'⟩, hds, heq⟩ := Option.map_eq_some_iff.mp h
      obtain ⟨rfl, -⟩ : '.' :: ds = t ∧ _ := by simpa using heq
      have := (readDigits_append hds fun c hc => (Bool.or_eq_false_iff.mp (hrest c hc)).1).1
      exact ⟨by rw [List.cons_append, readFraction, if_pos rfl, this]; rfl, .inr ⟨ds, rfl⟩⟩
    · obtain ⟨rfl, -⟩ : [] = t ∧ _ := by simpa using h
      exact ⟨hnone, .inl rfl⟩

private theorem readExponent_append {cs t r rest : List Char} (h : readExponent cs = some (t, r))
    (hrest : Avoids continuesNumber rest) :
    readExponent (t ++ rest) = some (t, rest) ∧
      (t = [] ∨ ∃ c t', t = c :: t' ∧ (c = 'e' ∨ c = 'E')) := by
  have hdigit : Avoids Char.isDigit rest := fun c hc => by
    have := hrest c hc
    simp only [continuesNumber, Bool.or_eq_false_iff] at this
    exact this.1.1.1
  have hnone : readExponent rest = some ([], rest) := by
    cases rest with
    | nil => rfl
    | cons c rest =>
      have := hrest c (by simp)
      simp only [continuesNumber, Bool.or_eq_false_iff, beq_eq_false_iff_ne] at this
      rw [readExponent, if_neg (not_or.mpr ⟨this.1.2, this.2⟩)]
  cases cs with
  | nil =>
    obtain ⟨rfl, -⟩ : [] = t ∧ _ := by simpa [readExponent] using h
    exact ⟨hnone, .inl rfl⟩
  | cons c cs =>
    rw [readExponent] at h
    split_ifs at h with hc
    · obtain ⟨⟨ds, r'⟩, hds, heq⟩ := Option.map_eq_some_iff.mp h
      obtain ⟨rfl, -⟩ : c :: ((readSign cs).1 ++ ds) = t ∧ _ := by simpa using heq
      obtain ⟨hread, d, ds', rfl, hd⟩ := readDigits_append hds hdigit
      have hsign : readSign ((readSign cs).1 ++ (d :: ds' ++ rest)) =
          ((readSign cs).1, d :: ds' ++ rest) := by
        have hplus : ¬ (d = '+' ∨ d = '-') := by
          rintro (rfl | rfl) <;> exact absurd hd (by decide)
        cases cs with
        | nil => simp [readSign, hplus]
        | cons s cs =>
          rw [readSign]
          split_ifs with hs
          · simp [readSign, hs]
          · simp [readSign, hplus]
      refine ⟨?_, .inr ⟨c, _, rfl, hc⟩⟩
      rw [List.cons_append, readExponent, if_pos hc, List.append_assoc, hsign]
      simp only [hread, Option.map_some]
    · obtain ⟨rfl, -⟩ : [] = t ∧ _ := by simpa using h
      exact ⟨hnone, .inl rfl⟩

private theorem readMagnitude_append {cs t r rest : List Char}
    (h : readMagnitude cs = some (t, r)) (hrest : Avoids continuesNumber rest) :
    readMagnitude (t ++ rest) = some (t, rest) ∧ ∃ c t', t = c :: t' ∧ c.isDigit := by
  simp only [readMagnitude, Option.bind_eq_bind, Option.bind_eq_some_iff, Prod.exists] at h
  obtain ⟨whole, r₁, hwhole, fraction, r₂, hfraction, exponent, r₃, hexponent, heq⟩ := h
  obtain ⟨rfl, -⟩ : whole ++ (fraction ++ exponent) = t ∧ _ := by simpa using heq
  obtain ⟨hexp, hexpHead⟩ := readExponent_append hexponent hrest
  have hafterFraction : Avoids (fun c => c.isDigit || c == '.') (exponent ++ rest) := by
    intro c hc
    rcases hexpHead with rfl | ⟨e, t', rfl, he⟩
    · have := hrest c hc
      simp only [continuesNumber, Bool.or_eq_false_iff] at this
      simp [this.1.1.1, this.1.1.2]
    · obtain rfl : e = c := by simpa using hc
      rcases he with rfl | rfl <;> rfl
  obtain ⟨hfrac, hfracHead⟩ := readFraction_append hfraction hafterFraction
  have hafterWhole : Avoids Char.isDigit (fraction ++ (exponent ++ rest)) := by
    intro c hc
    rcases hfracHead with rfl | ⟨t', rfl⟩
    · exact (Bool.or_eq_false_iff.mp (hafterFraction c hc)).1
    · obtain rfl : '.' = c := by simpa using hc
      rfl
  obtain ⟨hwhole, c, t', rfl, hc⟩ := readWhole_append hwhole hafterWhole
  refine ⟨?_, c, _, rfl, hc⟩
  rw [readMagnitude, List.append_assoc, List.append_assoc, hwhole]
  simp only [Option.bind_eq_bind, Option.bind_some, hfrac, hexp]

/-- What was read as a number is read again before anything that does not continue it. -/
theorem readNumber_append {cs t r : List Char} (h : readNumber cs = some (t, r)) :
    ∀ rest, Avoids continuesNumber rest → readNumber (t ++ rest) = some (t, rest) := by
  intro rest hrest
  cases cs with
  | nil => cases h
  | cons c cs =>
    rw [readNumber] at h
    split_ifs at h with hc
    · obtain ⟨⟨t', r'⟩, ht', heq⟩ := Option.map_eq_some_iff.mp h
      obtain ⟨rfl, -⟩ : '-' :: t' = t ∧ _ := by simpa using heq
      rw [List.cons_append, readNumber, if_pos rfl, (readMagnitude_append ht' hrest).1]
      rfl
    · obtain ⟨hread, d, t', rfl, hd⟩ := readMagnitude_append h hrest
      have hminus : d ≠ '-' := by
        rintro rfl
        exact absurd hd (by decide)
      rw [List.cons_append, readNumber, if_neg hminus, ← List.cons_append, hread]

/-- The text of a number. The reader stops after it, whatever follows that does not continue
a number. -/
structure Number where
  text : List Char
  reads : ∀ rest, Avoids continuesNumber rest → readNumber (text ++ rest) = some (text, rest)

instance : DecidableEq Number := fun a b =>
  decidable_of_iff (a.text = b.text) ⟨fun h => by cases a; cases b; cases h; rfl, congrArg _⟩

/-- The number of one digit. -/
def Number.ofDigit (d : Fin 10) : Number where
  text := [digit d]
  reads :=
    have h : readNumber [digit d] = some ([digit d], []) := by decide +revert
    readNumber_append h

/-- A number above zero has no leading zero. -/
theorem head?_toDigits_ne_zero {n : ℕ} (h : 0 < n) : (Nat.toDigits 10 n).head? ≠ some '0' := by
  induction n using Nat.strongRecOn with
  | ind n ih =>
    rw [Nat.toDigits_eq_if (by decide)]
    split_ifs with hlt
    · have hdigit : ∀ d < 10, 0 < d → [Nat.digitChar d].head? ≠ some '0' := by decide
      exact hdigit n hlt h
    · rw [List.head?_append_of_ne_nil _ Nat.toDigits_ne_nil]
      exact ih (n / 10) (by omega) (by omega)

theorem readNumber_toDigits (n : ℕ) :
    readNumber (Nat.toDigits 10 n) = some (Nat.toDigits 10 n, []) := by
  rcases Nat.eq_zero_or_pos n with rfl | hpos
  · decide
  have hdigits : ∀ c ∈ Nat.toDigits 10 n, c.isDigit = true := fun c hc =>
    Nat.isDigit_of_mem_toDigits (by decide) (by decide) hc
  have hhead := head?_toDigits_ne_zero hpos
  obtain ⟨c, ds, hcons⟩ := List.exists_cons_of_ne_nil (Nat.toDigits_ne_nil (n := n) (b := 10))
  rw [hcons] at hdigits hhead ⊢
  obtain ⟨hc, hds⟩ := List.forall_mem_cons.mp hdigits
  have hzero : c ≠ '0' := fun heq => hhead (congrArg some heq)
  have hminus : c ≠ '-' := by
    rintro rfl
    exact absurd hc (by decide)
  have hwhole : readWhole (c :: ds) = some (c :: ds, []) := by
    rw [readWhole, if_neg hzero, if_pos hc, List.takeWhile_eq_self_iff.mpr hds,
      List.dropWhile_eq_nil_iff.mpr hds]
  rw [readNumber, if_neg hminus, readMagnitude, hwhole]
  simp [readFraction, readExponent]

/-- The number of a natural number. -/
def Number.ofNat (n : ℕ) : Number where
  text := Nat.toDigits 10 n
  reads := readNumber_append (readNumber_toDigits n)

/-! ### Values -/

/-- A JSON value. -/
inductive Json
  | null
  | bool (b : Bool)
  | num (n : Number)
  | str (s : String)
  | arr (elements : List Json)
  | obj (members : List (String × Json))

namespace Json

/-! #### Writing -/

mutual

/-- The text of a value, without white space. -/
def render (E : Escape) : Json → List Char
  | null => ['n', 'u', 'l', 'l']
  | bool true => ['t', 'r', 'u', 'e']
  | bool false => ['f', 'a', 'l', 's', 'e']
  | num n => n.text
  | str s => E.quote s
  | arr [] => ['[', ']']
  | arr (x :: l) => '[' :: (render E x ++ (renderElements E l ++ [']']))
  | obj [] => ['{', '}']
  | obj ((k, x) :: l) =>
    '{' :: (E.quote k ++ ':' :: (render E x ++ (renderMembers E l ++ ['}'])))

/-- The elements after the first, each after a comma. -/
def renderElements (E : Escape) : List Json → List Char
  | [] => []
  | x :: l => ',' :: (render E x ++ renderElements E l)

/-- The members after the first, each after a comma. -/
def renderMembers (E : Escape) : List (String × Json) → List Char
  | [] => []
  | (k, x) :: l => ',' :: (E.quote k ++ ':' :: (render E x ++ renderMembers E l))

end

mutual

/-- The number of arrays and objects around the innermost value. -/
def depth : Json → ℕ
  | arr l => depthElements l + 1
  | obj l => depthMembers l + 1
  | _ => 0

/-- The depth of the deepest element. -/
def depthElements : List Json → ℕ
  | [] => 0
  | x :: l => max x.depth (depthElements l)

/-- The depth of the deepest member. -/
def depthMembers : List (String × Json) → ℕ
  | [] => 0
  | (_, x) :: l => max x.depth (depthMembers l)

end

/-! #### Reading -/

/-- White space between tokens. -/
def isSpace (c : Char) : Bool := c == ' ' || c == '\t' || c == '\n' || c == '\r'

/-- Skip white space. -/
def skipSpace (cs : List Char) : List Char := cs.dropWhile isSpace

/-- Skip a word. -/
def skipWord : List Char → List Char → Option (List Char)
  | [], cs => some cs
  | _ :: _, [] => none
  | w :: ws, c :: cs => if c = w then skipWord ws cs else none

mutual

/-- Read a value. The second argument is how many more arrays and objects may open. -/
def readValue : ℕ → ℕ → List Char → Option (Json × List Char)
  | 0, _, _ => none
  | n + 1, d, cs =>
    match skipSpace cs with
    | [] => none
    | c :: r =>
      if c = '"' then (readString n r).map fun (s, r) => (str (String.ofList s), r)
      else if c = '[' then
        match d, skipSpace r with
        | 0, _ => none
        | _ + 1, ']' :: r => some (arr [], r)
        | d + 1, r => (readElements n d r).map fun (l, r) => (arr l, r)
      else if c = '{' then
        match d, skipSpace r with
        | 0, _ => none
        | _ + 1, '}' :: r => some (obj [], r)
        | d + 1, r => (readMembers n d r).map fun (l, r) => (obj l, r)
      else if c = 'n' then (skipWord ['u', 'l', 'l'] r).map fun r => (null, r)
      else if c = 't' then (skipWord ['r', 'u', 'e'] r).map fun r => (bool true, r)
      else if c = 'f' then (skipWord ['a', 'l', 's', 'e'] r).map fun r => (bool false, r)
      else
        match h : readNumber (c :: r) with
        | none => none
        | some (t, r) => some (num ⟨t, readNumber_append h⟩, r)

/-- Read the elements of an array, up to its closing bracket. -/
def readElements : ℕ → ℕ → List Char → Option (List Json × List Char)
  | 0, _, _ => none
  | n + 1, d, cs => do
    let (x, r) ← readValue n d cs
    match skipSpace r with
    | ',' :: r => do
      let (l, r) ← readElements n d r
      some (x :: l, r)
    | ']' :: r => some ([x], r)
    | _ => none

/-- Read the members of an object, up to its closing brace. -/
def readMembers : ℕ → ℕ → List Char → Option (List (String × Json) × List Char)
  | 0, _, _ => none
  | n + 1, d, cs => do
    let r ← skipWord ['"'] (skipSpace cs)
    let (k, r) ← readString n r
    let r ← skipWord [':'] (skipSpace r)
    let (x, r) ← readValue n d r
    match skipSpace r with
    | ',' :: r => do
      let (l, r) ← readMembers n d r
      some ((String.ofList k, x) :: l, r)
    | '}' :: r => some ([(String.ofList k, x)], r)
    | _ => none

end

/-- How many arrays and objects may be open at once. -/
def maxDepth : ℕ := 10000

/-- Read a text that is one value. -/
def parse (cs : List Char) : Option Json :=
  match readValue (cs.length + 1) maxDepth cs with
  | none => none
  | some (v, r) => if skipSpace r = [] then some v else none

/-! #### Looking into a value -/

/-- The last member of an object under a key. -/
def member (k : String) (l : List (String × Json)) : Option Json :=
  (l.reverse.find? fun e => e.1 = k).map Prod.snd

end Json

end Foundations
