import Argus.Foundations.JsonRoundTrip

/-!
# JSON on several lines

`pretty` are the lines of a value that is written with newlines and indentation, each with how deep
it is indented: an array or an object with members takes a line for its opening bracket, lines for
its members and a line for its closing bracket, and every other value takes one line.
-/

namespace Foundations

/-! ### The characters of a number -/

/-- Whether a character can be part of a number. -/
def numberChar (c : Char) : Bool := continuesNumber c || c == '+' || c == '-'

private theorem numberChar_of_isDigit {c : Char} (h : c.isDigit = true) : numberChar c = true := by
  simp [numberChar, continuesNumber, h]

private theorem readDigits_chars {cs t r : List Char} (h : readDigits cs = some (t, r)) :
    cs = t ++ r ∧ ∀ c ∈ t, numberChar c = true := by
  rw [readDigits] at h
  split_ifs at h
  obtain ⟨rfl, rfl⟩ := Prod.mk.inj (Option.some.inj h)
  exact ⟨(List.takeWhile_append_dropWhile).symm,
    fun c hc => numberChar_of_isDigit (List.mem_takeWhile_imp hc)⟩

private theorem readWhole_chars {cs t r : List Char} (h : readWhole cs = some (t, r)) :
    cs = t ++ r ∧ ∀ c ∈ t, numberChar c = true := by
  cases cs with
  | nil => cases h
  | cons c cs =>
    rw [readWhole] at h
    split_ifs at h with hzero hdigit
    · obtain ⟨rfl, rfl⟩ := Prod.mk.inj (Option.some.inj h)
      exact ⟨by rw [hzero]; rfl, by simp; decide⟩
    · obtain ⟨rfl, rfl⟩ := Prod.mk.inj (Option.some.inj h)
      refine ⟨by rw [List.cons_append, List.takeWhile_append_dropWhile], ?_⟩
      exact List.forall_mem_cons.mpr ⟨numberChar_of_isDigit hdigit,
        fun x hx => numberChar_of_isDigit (List.mem_takeWhile_imp hx)⟩

private theorem readFraction_chars {cs t r : List Char} (h : readFraction cs = some (t, r)) :
    cs = t ++ r ∧ ∀ c ∈ t, numberChar c = true := by
  cases cs with
  | nil =>
    obtain ⟨rfl, rfl⟩ := Prod.mk.inj (Option.some.inj h)
    exact ⟨rfl, by simp⟩
  | cons c cs =>
    rw [readFraction] at h
    split_ifs at h with hdot
    · obtain ⟨⟨digits, rest⟩, hdigits, heq⟩ := Option.map_eq_some_iff.mp h
      obtain ⟨rfl, rfl⟩ := Prod.mk.inj heq
      obtain ⟨rfl, hchars⟩ := readDigits_chars hdigits
      exact ⟨by rw [hdot]; rfl, List.forall_mem_cons.mpr ⟨by decide, hchars⟩⟩
    · obtain ⟨rfl, rfl⟩ := Prod.mk.inj (Option.some.inj h)
      exact ⟨rfl, by simp⟩

private theorem readSign_chars (cs : List Char) :
    cs = (readSign cs).1 ++ (readSign cs).2 ∧ ∀ c ∈ (readSign cs).1, numberChar c = true := by
  cases cs with
  | nil => exact ⟨rfl, by simp [readSign]⟩
  | cons c cs =>
    rw [readSign]
    split_ifs with hsign
    · refine ⟨rfl, fun x hx => ?_⟩
      rw [List.mem_singleton.mp hx]
      rcases hsign with rfl | rfl <;> decide
    · exact ⟨rfl, by simp⟩

private theorem readExponent_chars {cs t r : List Char} (h : readExponent cs = some (t, r)) :
    cs = t ++ r ∧ ∀ c ∈ t, numberChar c = true := by
  cases cs with
  | nil =>
    obtain ⟨rfl, rfl⟩ := Prod.mk.inj (Option.some.inj h)
    exact ⟨rfl, by simp⟩
  | cons c cs =>
    rw [readExponent] at h
    split_ifs at h with he
    · obtain ⟨⟨digits, rest⟩, hdigits, heq⟩ := Option.map_eq_some_iff.mp h
      obtain ⟨rfl, rfl⟩ := Prod.mk.inj heq
      obtain ⟨hsign, hsignChars⟩ := readSign_chars cs
      obtain ⟨hrest, hchars⟩ := readDigits_chars hdigits
      refine ⟨?_, ?_⟩
      · rw [List.cons_append, List.append_assoc, ← hrest, ← hsign]
      · have hmark : numberChar c = true := by rcases he with rfl | rfl <;> decide
        exact List.forall_mem_cons.mpr ⟨hmark, List.forall_mem_append.mpr ⟨hsignChars, hchars⟩⟩
    · obtain ⟨rfl, rfl⟩ := Prod.mk.inj (Option.some.inj h)
      exact ⟨rfl, by simp⟩

private theorem readMagnitude_chars {cs t r : List Char} (h : readMagnitude cs = some (t, r)) :
    cs = t ++ r ∧ ∀ c ∈ t, numberChar c = true := by
  simp only [readMagnitude, Option.bind_eq_bind, Option.bind_eq_some_iff, Prod.exists] at h
  obtain ⟨whole, r₁, hwhole, fraction, r₂, hfraction, exponent, r₃, hexponent, heq⟩ := h
  obtain ⟨rfl, rfl⟩ := Prod.mk.inj (Option.some.inj heq)
  obtain ⟨rfl, hw⟩ := readWhole_chars hwhole
  obtain ⟨rfl, hf⟩ := readFraction_chars hfraction
  obtain ⟨rfl, he⟩ := readExponent_chars hexponent
  refine ⟨by simp, ?_⟩
  exact List.forall_mem_append.mpr ⟨hw, List.forall_mem_append.mpr ⟨hf, he⟩⟩

/-- What is read as a number. -/
theorem readNumber_chars {cs t r : List Char} (h : readNumber cs = some (t, r)) :
    cs = t ++ r ∧ ∀ c ∈ t, numberChar c = true := by
  cases cs with
  | nil => cases h
  | cons c cs =>
    rw [readNumber] at h
    split_ifs at h with hminus
    · obtain ⟨⟨digits, rest⟩, hdigits, heq⟩ := Option.map_eq_some_iff.mp h
      obtain ⟨rfl, rfl⟩ := Prod.mk.inj heq
      obtain ⟨rfl, hchars⟩ := readMagnitude_chars hdigits
      exact ⟨by rw [hminus]; rfl, List.forall_mem_cons.mpr ⟨by decide, hchars⟩⟩
    · exact readMagnitude_chars h

/-- The characters of a number. -/
theorem Number.numberChar_of_mem {n : Number} {c : Char} (h : c ∈ n.text) :
    numberChar c = true := by
  have hread := n.reads [] fun c hc => absurd hc (by simp)
  exact (readNumber_chars hread).2 c h

namespace Json

/-! ### The characters of a value -/

/-- The characters of a text that are not part of a string or a number. -/
def markChars : List Char := "nultruefalse[]\x7b\x7d,:\"".toList

section

variable {E : Escape} {P : Char → Prop}

theorem forall_mem_quote (hmarks : ∀ c ∈ markChars, P c)
    (hwrite : ∀ c, ∀ d ∈ E.write c, P d) (s : String) : ∀ c ∈ E.quote s, P c := by
  have hquote : P '"' := hmarks _ (by decide)
  refine List.forall_mem_cons.mpr ⟨hquote, List.forall_mem_append.mpr
    ⟨fun c hc => ?_, List.forall_mem_singleton.mpr hquote⟩⟩
  obtain ⟨d, -, hc⟩ := List.mem_flatMap.mp hc
  exact hwrite d c hc

mutual

/-- What all marks have, and all that is written for numbers and in strings, the text has. -/
theorem forall_mem_render (hmarks : ∀ c ∈ markChars, P c) (hnumber : ∀ c, numberChar c → P c)
    (hwrite : ∀ c, ∀ d ∈ E.write c, P d) : ∀ v : Json, ∀ c ∈ render E v, P c
  | null => fun c hc => hmarks c ((by decide : ['n', 'u', 'l', 'l'] ⊆ markChars) hc)
  | bool true => fun c hc => hmarks c ((by decide : ['t', 'r', 'u', 'e'] ⊆ markChars) hc)
  | bool false => fun c hc => hmarks c ((by decide : ['f', 'a', 'l', 's', 'e'] ⊆ markChars) hc)
  | num n => fun c hc => hnumber c (Number.numberChar_of_mem hc)
  | str s => forall_mem_quote hmarks hwrite s
  | arr [] => fun c hc => hmarks c ((by decide : ['[', ']'] ⊆ markChars) hc)
  | arr (x :: l) => by
    rw [render]
    exact List.forall_mem_cons.mpr ⟨hmarks _ (by decide), List.forall_mem_append.mpr
      ⟨forall_mem_render hmarks hnumber hwrite x, List.forall_mem_append.mpr
        ⟨forall_mem_renderElements hmarks hnumber hwrite l,
          List.forall_mem_singleton.mpr (hmarks _ (by decide))⟩⟩⟩
  | obj [] => fun c hc => hmarks c ((by decide : ['\x7b', '\x7d'] ⊆ markChars) hc)
  | obj ((k, x) :: l) => by
    rw [render]
    exact List.forall_mem_cons.mpr ⟨hmarks _ (by decide), List.forall_mem_append.mpr
      ⟨forall_mem_quote hmarks hwrite k, List.forall_mem_cons.mpr ⟨hmarks _ (by decide),
        List.forall_mem_append.mpr ⟨forall_mem_render hmarks hnumber hwrite x,
          List.forall_mem_append.mpr ⟨forall_mem_renderMembers hmarks hnumber hwrite l,
            List.forall_mem_singleton.mpr (hmarks _ (by decide))⟩⟩⟩⟩⟩

theorem forall_mem_renderElements (hmarks : ∀ c ∈ markChars, P c)
    (hnumber : ∀ c, numberChar c → P c) (hwrite : ∀ c, ∀ d ∈ E.write c, P d) :
    ∀ l : List Json, ∀ c ∈ renderElements E l, P c
  | [] => fun c hc => absurd hc List.not_mem_nil
  | x :: l => by
    rw [renderElements]
    exact List.forall_mem_cons.mpr ⟨hmarks _ (by decide), List.forall_mem_append.mpr
      ⟨forall_mem_render hmarks hnumber hwrite x,
        forall_mem_renderElements hmarks hnumber hwrite l⟩⟩

theorem forall_mem_renderMembers (hmarks : ∀ c ∈ markChars, P c)
    (hnumber : ∀ c, numberChar c → P c) (hwrite : ∀ c, ∀ d ∈ E.write c, P d) :
    ∀ l : List (String × Json), ∀ c ∈ renderMembers E l, P c
  | [] => fun c hc => absurd hc List.not_mem_nil
  | (k, x) :: l => by
    rw [renderMembers]
    exact List.forall_mem_cons.mpr ⟨hmarks _ (by decide), List.forall_mem_append.mpr
      ⟨forall_mem_quote hmarks hwrite k, List.forall_mem_cons.mpr ⟨hmarks _ (by decide),
        List.forall_mem_append.mpr ⟨forall_mem_render hmarks hnumber hwrite x,
          forall_mem_renderMembers hmarks hnumber hwrite l⟩⟩⟩⟩

end

end

/-! ### Lines -/

/-- Whether a value is written on one line. -/
def isFlat : Json → Bool
  | arr (_ :: _) => false
  | obj (_ :: _) => false
  | _ => true

/-- What separates a member from the members after it. -/
def comma {α : Type} (after : List α) : List Char := if after.isEmpty then [] else [',']

/-- What a member starts with. -/
def label (E : Escape) (key : String) : List Char := E.quote key ++ [':', ' ']

mutual

/-- The lines of a value at a depth, with a text before the first one and a text after the last. -/
def pretty (E : Escape) (n : ℕ) (start stop : List Char) : Json → List (ℕ × List Char)
  | arr (x :: l) =>
    (n, start ++ ['[']) :: (pretty E (n + 1) [] (comma l) x ++ prettyElements E (n + 1) l ++
      [(n, ']' :: stop)])
  | obj ((k, x) :: l) =>
    (n, start ++ ['\x7b']) :: (pretty E (n + 1) (label E k) (comma l) x ++
      prettyMembers E (n + 1) l ++ [(n, '\x7d' :: stop)])
  | v => [(n, start ++ render E v ++ stop)]

/-- The lines of the elements of an array. -/
def prettyElements (E : Escape) (n : ℕ) : List Json → List (ℕ × List Char)
  | [] => []
  | x :: l => pretty E n [] (comma l) x ++ prettyElements E n l

/-- The lines of the members of an object. -/
def prettyMembers (E : Escape) (n : ℕ) : List (String × Json) → List (ℕ × List Char)
  | [] => []
  | (k, x) :: l => pretty E n (label E k) (comma l) x ++ prettyMembers E n l

end

variable {E : Escape} {n : ℕ} {start stop : List Char}

theorem pretty_of_isFlat {v : Json} (h : v.isFlat = true) :
    pretty E n start stop v = [(n, start ++ render E v ++ stop)] := by
  rcases v with - | b | m | s | (- | ⟨x, l⟩) | (- | ⟨⟨k, x⟩, l⟩)
  · rw [pretty] <;> simp
  · rw [pretty] <;> simp
  · rw [pretty] <;> simp
  · rw [pretty] <;> simp
  · rw [pretty] <;> simp
  · exact absurd h Bool.false_ne_true
  · rw [pretty] <;> simp
  · exact absurd h Bool.false_ne_true

theorem pretty_arr (x : Json) (l : List Json) :
    pretty E n start stop (arr (x :: l)) =
      (n, start ++ ['[']) :: (prettyElements E (n + 1) (x :: l) ++ [(n, ']' :: stop)]) := by
  rw [pretty, prettyElements]

theorem pretty_obj (e : String × Json) (l : List (String × Json)) :
    pretty E n start stop (obj (e :: l)) =
      (n, start ++ ['\x7b']) :: (prettyMembers E (n + 1) (e :: l) ++ [(n, '\x7d' :: stop)]) := by
  rw [pretty, prettyMembers]

end Json

end Foundations
