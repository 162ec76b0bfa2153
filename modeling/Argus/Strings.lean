import Mathlib.Algebra.GroupWithZero.Nat
import Mathlib.Data.Char
import Mathlib.Data.List.DropRight
import Mathlib.Data.List.Infix
import Mathlib.Data.String.Basic

/-!
# Functions of the `strings` package

Only what the model uses. Case folding is the one of ASCII: besides the letters, two code
points have an ASCII letter as their lower-case form, and those are mapped as Go maps them;
other letters beyond ASCII are left as they are, and no modelled comparison looks at them. Where
a folded text is kept, the tables of Go are a parameter of the model (`Runtime`).
-/

namespace Argus

/-- `unicode.ToLower`, as far as its results are ASCII. -/
def lowerChar (c : Char) : Char :=
  if 'A' ≤ c ∧ c ≤ 'Z' then Char.ofNat (c.toNat + 32)
  else if c = '\u0130' then 'i'
  else if c = '\u212A' then 'k'
  else c

/-- `strings.ToLower`. -/
def toLower (s : String) : String := String.ofList (s.toList.map lowerChar)

/-- The letter that stands for all its cases, among them the two that are not ASCII. -/
def foldRune (c : Char) : Char :=
  if 'A' ≤ c ∧ c ≤ 'Z' then Char.ofNat (c.toNat + 32)
  else if c = '\u017F' then 's'
  else if c = '\u212A' then 'k'
  else c

/-- `strings.EqualFold`, for a text of ASCII letters on the right. -/
def equalFold (s name : String) : Bool := s.toList.map foldRune == name.toList.map foldRune

/-- Pairs of texts are equal where both texts are. -/
instance lawfulBEq_texts : LawfulBEq (String × String) := inferInstance

/-- What the model leaves to Go: the tables of package `unicode` for the cases of all letters,
and SHA-256, as a list of bytes. -/
structure Runtime where
  lower : Char → Char
  upper : Char → Char
  sha256 : String → List ℕ

/-- `strings.ToLower` for all letters. -/
def Runtime.toLower (rt : Runtime) (s : String) : String := String.ofList (s.toList.map rt.lower)

/-- `strings.ToUpper` for all letters. -/
def Runtime.toUpper (rt : Runtime) (s : String) : String := String.ofList (s.toList.map rt.upper)

/-- The cases of ASCII, and any hash. -/
def asciiRuntime : Runtime := ⟨lowerChar, Char.toUpper, fun _ => []⟩

/-- Lower case is that of ASCII where a text is ASCII. -/
def Runtime.LowersAscii (rt : Runtime) : Prop :=
  ∀ c : Char, c.toNat < 128 → rt.lower c = lowerChar c

/-- `unicode.IsSpace`. -/
def isSpace (c : Char) : Bool :=
  c == ' ' || ('\t' ≤ c && c ≤ '\r') || c == '\u0085' || c == '\u00A0' || c == '\u1680' ||
    ('\u2000' ≤ c && c ≤ '\u200A') || c == '\u2028' || c == '\u2029' || c == '\u202F' ||
    c == '\u205F' || c == '\u3000'

theorem isSpace_eq_false {c : Char} (h : '0' ≤ c) (h' : c ≤ 'z') : isSpace c = false := by
  by_contra hspace
  rw [Bool.not_eq_false, isSpace] at hspace
  simp only [Bool.or_eq_true, Bool.and_eq_true, beq_iff_eq, decide_eq_true_eq] at hspace
  rcases hspace with (((((((((rfl | hr) | rfl) | rfl) | rfl) | hr) | rfl) | rfl) | rfl) | rfl) | rfl
  · exact absurd h (by decide)
  · exact absurd (h.trans hr.2) (by decide)
  all_goals first
    | exact absurd h' (by decide)
    | exact absurd (hr.1.trans h') (by decide)

/-- `strings.TrimSpace`. -/
def trimSpace (s : String) : String :=
  String.ofList ((s.toList.dropWhile isSpace).reverse.dropWhile isSpace).reverse

/-- `strings.Fields`: the words between white space. -/
def fields (s : String) : List (List Char) :=
  (s.toList.splitOnP isSpace).filter (· ≠ [])

/-- `strings.Contains`. -/
def contains (s part : String) : Bool := s.toList.tails.any part.toList.isPrefixOf

theorem contains_iff {s part : String} : contains s part = true ↔ part.toList <:+: s.toList := by
  rw [contains, List.any_eq_true, List.infix_iff_prefix_suffix]
  refine exists_congr fun tail => ?_
  rw [List.mem_tails, List.isPrefixOf_iff_prefix, and_comm]

theorem infix_of_contains {s part : String} (h : contains s part = true) :
    part.toList <:+: s.toList :=
  contains_iff.mp h

/-- `strings.HasPrefix`. -/
def hasPrefix (s start : String) : Bool := start.toList.isPrefixOf s.toList

/-- `strings.HasSuffix`. -/
def hasSuffix (s ending : String) : Bool := ending.toList.isSuffixOf s.toList

/-- `len(s)`: the bytes of its UTF-8 text. -/
def byteLength (s : String) : ℕ := (s.toList.map Char.utf8Size).sum

theorem byteLength_append (s t : String) : byteLength (s ++ t) = byteLength s + byteLength t := by
  rw [byteLength, String.toList_append, List.map_append, List.sum_append, byteLength, byteLength]

/-- A condition on the characters of a text can be checked one after the other. -/
theorem forall_mem_of_all {P : Char → Prop} [DecidablePred P] {cs : List Char}
    (h : (cs.all fun c => decide (P c)) = true) : ∀ c ∈ cs, P c := fun c hc =>
  of_decide_eq_true (List.all_eq_true.mp h c hc)

/-- A text without white space is trimmed already. -/
theorem trimSpace_eq_self {s : String} (h : ∀ c ∈ s.toList, isSpace c = false) :
    trimSpace s = s := by
  have hdrop : ∀ l : List Char, (∀ c ∈ l, isSpace c = false) → l.dropWhile isSpace = l := by
    intro l hl
    cases l with
    | nil => rfl
    | cons c l => exact List.dropWhile_cons_of_neg (by simp [hl c List.mem_cons_self])
  rw [trimSpace, hdrop _ h, hdrop _ fun c hc => h c (List.mem_reverse.mp hc), List.reverse_reverse,
    String.ofList_toList]

/-- Trimming twice trims once. -/
@[simp] theorem trimSpace_trimSpace (s : String) : trimSpace (trimSpace s) = trimSpace s := by
  have htrim : ∀ s, (trimSpace s).toList = (s.toList.dropWhile isSpace).rdropWhile isSpace :=
    fun s => String.toList_ofList
  have hhead : ((s.toList.dropWhile isSpace).rdropWhile isSpace).dropWhile isSpace =
      (s.toList.dropWhile isSpace).rdropWhile isSpace := by
    rw [List.dropWhile_eq_self_iff]
    intro hpos
    have hpre := List.rdropWhile_prefix isSpace (s.toList.dropWhile isSpace)
    rw [hpre.getElem hpos]
    exact List.dropWhile_get_zero_not isSpace s.toList _
  refine String.toList_inj.mp ?_
  rw [htrim, htrim, hhead, List.rdropWhile_idempotent]

/-- What is trimmed is white space. -/
theorem exists_trimSpace (s : String) : ∃ pre post : List Char,
    s.toList = pre ++ (trimSpace s).toList ++ post ∧ ∀ c ∈ pre ++ post, isSpace c = true := by
  refine ⟨s.toList.takeWhile isSpace,
    ((s.toList.dropWhile isSpace).reverse.takeWhile isSpace).reverse, ?_, fun c hc => ?_⟩
  · rw [trimSpace, String.toList_ofList, List.append_assoc, ← List.reverse_append,
      List.takeWhile_append_dropWhile, List.reverse_reverse, List.takeWhile_append_dropWhile]
  · rcases List.mem_append.mp hc with hc | hc
    · exact List.mem_takeWhile_imp hc
    · exact List.mem_takeWhile_imp (List.mem_reverse.mp hc)

/-- A trimmed text does not start with white space. -/
theorem isSpace_of_head? {s : String} {c : Char} (h : (trimSpace s).toList.head? = some c) :
    isSpace c = false := by
  have htrim : (trimSpace s).toList = (s.toList.dropWhile isSpace).rdropWhile isSpace :=
    String.toList_ofList
  rw [htrim] at h
  obtain ⟨rest, hrest⟩ := List.head?_eq_some_iff.mp h
  obtain ⟨more, hmore⟩ := List.rdropWhile_prefix isSpace (s.toList.dropWhile isSpace)
  have hdrop : s.toList.dropWhile isSpace = c :: (rest ++ more) := by
    rw [← hmore, hrest, List.cons_append]
  have hhead := List.head?_dropWhile_not isSpace s.toList
  rw [hdrop] at hhead
  exact Bool.eq_false_iff.mpr (by simpa using hhead)

/-- A trimmed text does not end with white space. -/
theorem isSpace_of_getLast? {s : String} {c : Char} (h : (trimSpace s).toList.getLast? = some c) :
    isSpace c = false := by
  have htrim : (trimSpace s).toList = (s.toList.dropWhile isSpace).rdropWhile isSpace :=
    String.toList_ofList
  rw [htrim] at h
  have hne : (s.toList.dropWhile isSpace).rdropWhile isSpace ≠ [] := by
    intro hnil
    rw [hnil] at h
    exact Option.some_ne_none c h.symm
  rw [List.getLast?_eq_some_getLast hne] at h
  rw [← Option.some.inj h]
  exact Bool.eq_false_iff.mpr (List.rdropWhile_last_not isSpace _ hne)

/-- A trimmed text has the characters of the text. -/
theorem mem_of_mem_trimSpace {s : String} {c : Char} (h : c ∈ (trimSpace s).toList) :
    c ∈ s.toList := by
  obtain ⟨pre, post, hs, -⟩ := exists_trimSpace s
  rw [hs]
  exact List.mem_append_left _ (List.mem_append_right _ h)

/-- A trimmed text that is not empty has a character that is no white space. -/
theorem exists_mem_trimSpace {s : String} (h : trimSpace s ≠ "") :
    ∃ c ∈ (trimSpace s).toList, isSpace c = false := by
  obtain ⟨c, rest, hcons⟩ := List.exists_cons_of_ne_nil (mt String.toList_eq_nil_iff.mp h)
  have hhead : (trimSpace s).toList.head? = some c := by rw [hcons, List.head?_cons]
  exact ⟨c, List.mem_of_head? hhead, isSpace_of_head? hhead⟩

/-- The pieces between separators have the other characters. -/
theorem mem_splitOnP_iff {p : Char → Bool} {cs : List Char} {c : Char} :
    (∃ w ∈ cs.splitOnP p, c ∈ w) ↔ c ∈ cs ∧ p c = false := by
  induction cs with
  | nil => simp
  | cons d cs ih =>
    rw [List.splitOnP_cons_eq_if_modifyHead, List.mem_cons]
    split_ifs with hd
    · rw [List.exists_mem_cons_iff, ih]
      constructor
      · rintro (h | ⟨hc, hp⟩)
        · exact absurd h List.not_mem_nil
        · exact ⟨.inr hc, hp⟩
      · rintro ⟨rfl | hc, hp⟩
        · exact absurd (hd.symm.trans hp) (by decide)
        · exact .inr ⟨hc, hp⟩
    · obtain ⟨w, ws, hws⟩ := List.exists_cons_of_ne_nil (List.splitOnP_ne_nil p cs)
      rw [hws, List.exists_mem_cons_iff] at ih
      rw [hws, List.modifyHead_cons, List.exists_mem_cons_iff, List.mem_cons, or_assoc, ih]
      constructor
      · rintro (rfl | ⟨hc, hp⟩)
        · exact ⟨.inl rfl, Bool.eq_false_iff.mpr hd⟩
        · exact ⟨.inr hc, hp⟩
      · rintro ⟨rfl | hc, hp⟩
        · exact .inl rfl
        · exact .inr ⟨hc, hp⟩

/-- The words of a text have its characters that are no white space. -/
theorem exists_mem_fields_iff {s : String} {c : Char} :
    (∃ w ∈ fields s, c ∈ w) ↔ c ∈ s.toList ∧ isSpace c = false := by
  rw [← mem_splitOnP_iff]
  refine exists_congr fun w => ?_
  rw [fields, List.mem_filter, decide_eq_true_iff]
  exact ⟨fun h => ⟨h.1.1, h.2⟩, fun h => ⟨⟨h.1, List.ne_nil_of_mem h.2⟩, h.2⟩⟩

/-- A character of ASCII is one byte. -/
theorem utf8Size_ascii {c : Char} (h : c.toNat < 128) : c.utf8Size = 1 := by
  have hlt : c.val.toNat < 128 := h
  rw [Char.utf8Size, if_pos (UInt32.le_iff_toNat_le.mpr (by simpa using Nat.le_of_lt_succ hlt))]

/-- A text of ASCII characters has a byte for each. -/
theorem byteLength_eq_length {s : String} (h : ∀ c ∈ s.toList, c.toNat < 128) :
    byteLength s = s.toList.length := by
  rw [byteLength, List.map_congr_left fun c hc => utf8Size_ascii (h c hc), List.map_const',
    List.sum_replicate_nat, Nat.mul_one]

end Argus
