import Argus.Agent.LogLines
import Argus.Foundations.JsonLines

/-!
# The brackets of JSON

`bracketDepth` counts the brackets of a text outside of its strings. A text that is read as a JSON
value leaves the count where it was, and so does one that is written for a value without members.
-/

namespace Argus

open Foundations

namespace DepthState

/-- Outside of strings. -/
def outside (d : ℤ) : DepthState := ⟨none, false, d⟩

/-- Inside a string. -/
def inside (d : ℤ) : DepthState := ⟨some '"', false, d⟩

/-- The loop of `bracketDepth`. -/
def scan (s : DepthState) (cs : List Char) : DepthState := cs.foldl next s

@[simp] theorem scan_nil (s : DepthState) : s.scan [] = s := rfl

@[simp] theorem scan_cons (s : DepthState) (c : Char) (cs : List Char) :
    s.scan (c :: cs) = (s.next c).scan cs := rfl

theorem scan_append (s : DepthState) (cs ds : List Char) :
    s.scan (cs ++ ds) = (s.scan cs).scan ds :=
  List.foldl_append

/-- Whether a character is not one that `bracketDepth` looks at. -/
def isPlain (c : Char) : Bool := !"\"'\x7b[\x7d]".toList.contains c

theorem next_outside {c : Char} (h : isPlain c = true) (d : ℤ) :
    (outside d).next c = outside d := by
  have hall : ∀ x ∈ "\"'\x7b[\x7d]".toList, c ≠ x := by
    rintro x hx rfl
    rw [isPlain, List.contains_iff_mem.mpr hx] at h
    exact absurd h (by decide)
  have hmem : ∀ x, x ∈ ['"', '\'', '\x7b', '[', '\x7d', ']'] → c ≠ x := fun x hx => hall x hx
  simp only [List.forall_mem_cons] at hmem
  obtain ⟨h₁, h₂, h₃, h₄, h₅, h₆, -⟩ := hmem
  simp [next, outside, h₁, h₂, h₃, h₄, h₅, h₆]

theorem scan_plain {cs : List Char} (h : ∀ c ∈ cs, isPlain c = true) (d : ℤ) :
    (outside d).scan cs = outside d := by
  induction cs with
  | nil => rfl
  | cons c cs ih =>
    rw [scan_cons, next_outside (h c List.mem_cons_self)]
    exact ih fun x hx => h x (List.mem_cons_of_mem _ hx)

theorem next_quote (d : ℤ) : (outside d).next '"' = inside d := rfl

theorem next_inside {c : Char} (hquote : c ≠ '"') (hslash : c ≠ '\\') (d : ℤ) :
    (inside d).next c = inside d := by
  simp [next, inside, hquote, hslash]

/-- What follows a backslash is skipped. -/
theorem scan_escaped (c : Char) (cs : List Char) (d : ℤ) :
    (inside d).scan ('\\' :: c :: cs) = (inside d).scan cs := rfl

/-! ### Strings -/

theorem scan_readHexFour {cs r : List Char} {u : ℕ} (h : readHexFour cs = some (u, r)) (d : ℤ) :
    (inside d).scan cs = (inside d).scan r := by
  rcases cs with - | ⟨a, - | ⟨b, - | ⟨c, - | ⟨e, cs⟩⟩⟩⟩
  · cases h
  · cases h
  · cases h
  · cases h
  · simp only [readHexFour, Option.bind_eq_bind, Option.bind_eq_some_iff] at h
    obtain ⟨a', ha, b', hb, c', hc, e', he, heq⟩ := h
    obtain ⟨-, rfl⟩ := Prod.mk.inj (Option.some.inj heq)
    have hne : ∀ {x : Char} {n : ℕ}, hexValue x = some n → (inside d).next x = inside d := by
      intro x n hx
      have hmark : hexValue '"' = none ∧ hexValue '\\' = none := by decide
      refine next_inside ?_ ?_ d
      · rintro rfl
        exact absurd (hmark.1.symm.trans hx) (Option.some_ne_none n).symm
      · rintro rfl
        exact absurd (hmark.2.symm.trans hx) (Option.some_ne_none n).symm
    rw [scan_cons, hne ha, scan_cons, hne hb, scan_cons, hne hc, scan_cons, hne he]

theorem scan_readUnicode {cs r : List Char} {c : Char} (h : readUnicode cs = some (c, r)) (d : ℤ) :
    (inside d).scan cs = (inside d).scan r := by
  simp only [readUnicode, Option.bind_eq_bind, Option.bind_eq_some_iff, Prod.exists] at h
  obtain ⟨u, r₁, hu, h⟩ := h
  rw [scan_readHexFour hu]
  split_ifs at h with hsurrogate
  · split at h
    · rename_i r₂
      split at h
      · rename_i v r₃ hv
        split_ifs at h with hpair
        · obtain ⟨-, rfl⟩ := Prod.mk.inj (Option.some.inj h)
          exact (scan_escaped 'u' r₂ d).trans (scan_readHexFour hv d)
        · rw [(Prod.mk.inj (Option.some.inj h)).2]
      · rw [(Prod.mk.inj (Option.some.inj h)).2]
    · rw [(Prod.mk.inj (Option.some.inj h)).2]
  · rw [(Prod.mk.inj (Option.some.inj h)).2]

/-- A character of a string stays inside it. -/
theorem scan_readChar {cs r : List Char} {c : Char} (h : readChar cs = some (c, r))
    (hopen : cs.head? ≠ some '"') (d : ℤ) : (inside d).scan cs = (inside d).scan r := by
  rw [readChar.eq_def] at h
  split at h
  · cases h
  · cases h
  · rename_i x rest
    rw [scan_escaped]
    split_ifs at h with hu
    · exact scan_readUnicode h d
    · obtain ⟨y, -, heq⟩ := Option.map_eq_some_iff.mp h
      rw [(Prod.mk.inj heq).2]
  · rename_i x rest hslash₁ hslash₂
    split_ifs at h
    obtain ⟨rfl, rfl⟩ := Prod.mk.inj (Option.some.inj h)
    have hslash : x ≠ '\\' := by
      rintro rfl
      cases rest with
      | nil => exact hslash₁ rfl rfl
      | cons y rest => exact hslash₂ y rest rfl rfl
    have hquote : x ≠ '"' := fun heq => hopen (congrArg some heq)
    rw [scan_cons, next_inside hquote hslash]

/-- The rest of a string ends outside of it. -/
theorem scan_readString {n : ℕ} {cs s r : List Char} (h : readString n cs = some (s, r)) (d : ℤ) :
    (inside d).scan cs = (outside d).scan r := by
  induction n generalizing cs s with
  | zero => cases h
  | succ n ih =>
    rw [readString.eq_def] at h
    simp only at h
    split at h
    · obtain ⟨-, rfl⟩ := Prod.mk.inj (Option.some.inj h)
      rfl
    · rename_i hquote
      simp only [Option.bind_eq_bind, Option.bind_eq_some_iff, Prod.exists] at h
      obtain ⟨c, r₁, hc, s', r₂, hs, heq⟩ := h
      obtain ⟨-, rfl⟩ := Prod.mk.inj (Option.some.inj heq)
      have hopen : cs.head? ≠ some '"' := by
        intro hhead
        obtain ⟨rest, rfl⟩ := List.head?_eq_some_iff.mp hhead
        exact hquote rest rfl
      rw [scan_readChar hc hopen, ih hs]

/-- A string that is written leaves the count where it was. -/
theorem scan_quote (E : Escape) (s : String) (d : ℤ) (rest : List Char) :
    (outside d).scan (E.quote s ++ rest) = (outside d).scan rest := by
  have hinside : ∀ cs : List Char,
      (inside d).scan (cs.flatMap E.write ++ '"' :: rest) = (outside d).scan rest := by
    intro cs
    induction cs with
    | nil => rfl
    | cons c cs ih =>
      rw [List.flatMap_cons, List.append_assoc, scan_readChar (E.reads c _) (E.opens c _), ih]
  have hquote : E.quote s ++ rest = '"' :: (s.toList.flatMap E.write ++ '"' :: rest) := by
    rw [Escape.quote, List.cons_append, List.append_assoc, List.singleton_append]
  rw [hquote, scan_cons, next_quote]
  exact hinside s.toList

/-! ### Values -/

theorem isPlain_of_numberChar {c : Char} (h : numberChar c = true) : isPlain c = true := by
  rw [isPlain, Bool.not_eq_true', ← Bool.not_eq_true, List.contains_iff_mem]
  intro hmem
  have hall : ∀ x ∈ "\"'\x7b[\x7d]".toList, numberChar x = false := forall_mem_of_all (by decide)
  rw [hall c hmem] at h
  exact absurd h (by decide)

theorem scan_skipSpace (cs : List Char) (d : ℤ) :
    (outside d).scan (Json.skipSpace cs) = (outside d).scan cs := by
  have hplain : ∀ c ∈ cs.takeWhile Json.isSpace, isPlain c = true := by
    intro c hc
    have hspace := List.mem_takeWhile_imp hc
    simp only [Json.isSpace, Bool.or_eq_true, beq_iff_eq] at hspace
    rcases hspace with ((rfl | rfl) | rfl) | rfl <;> decide
  have hcs : cs.takeWhile Json.isSpace ++ Json.skipSpace cs = cs :=
    List.takeWhile_append_dropWhile
  conv_rhs => rw [← hcs]
  rw [scan_append, scan_plain hplain]

theorem scan_skipWord {ws cs r : List Char} (h : Json.skipWord ws cs = some r)
    (s : DepthState) : s.scan cs = (s.scan ws).scan r := by
  induction ws generalizing cs s with
  | nil =>
    rw [Option.some.inj h]
    rfl
  | cons w ws ih =>
    cases cs with
    | nil => cases h
    | cons c cs =>
      rw [Json.skipWord] at h
      split_ifs at h with hc
      rw [scan_cons, scan_cons, hc, ih h]

/-- What is read as a number leaves the count where it was. -/
theorem scan_readNumber {cs t r : List Char} (h : readNumber cs = some (t, r)) (d : ℤ) :
    (outside d).scan cs = (outside d).scan r := by
  obtain ⟨rfl, hchars⟩ := readNumber_chars h
  rw [scan_append, scan_plain fun c hc => isPlain_of_numberChar (hchars c hc)]

theorem scan_word {w : Char} {ws cs r : List Char} (h : Json.skipWord ws cs = some r)
    (hplain : ∀ c ∈ w :: ws, isPlain c = true) (d : ℤ) :
    (outside d).scan (w :: cs) = (outside d).scan r := by
  have hword : Json.skipWord (w :: ws) (w :: cs) = some r := (if_pos rfl).trans h
  rw [scan_skipWord hword, scan_plain hplain]

/-- With so much fuel, what is read as a value leaves the count where it was. -/
def ScansValues (n : ℕ) : Prop :=
  ∀ k cs v r, Json.readValue n k cs = some (v, r) → ∀ d, (outside d).scan cs = (outside d).scan r

/-- With so much fuel, what is read as the rest of an array closes a bracket. -/
def ScansElements (n : ℕ) : Prop :=
  ∀ k cs l r, Json.readElements n k cs = some (l, r) →
    ∀ d, (outside (d + 1)).scan cs = (outside d).scan r

/-- With so much fuel, what is read as the rest of an object closes a bracket. -/
def ScansMembers (n : ℕ) : Prop :=
  ∀ k cs l r, Json.readMembers n k cs = some (l, r) →
    ∀ d, (outside (d + 1)).scan cs = (outside d).scan r

theorem scan_close {c : Char} (h : c = ']' ∨ c = '\x7d') (d : ℤ) (r : List Char) :
    (outside (d + 1)).scan (c :: r) = (outside d).scan r := by
  rcases h with rfl | rfl <;> simp [next, outside]

theorem scan_readElements {n : ℕ} (hvalue : ScansValues n) (helements : ScansElements n) :
    ScansElements (n + 1) := by
  intro k cs l r h d
  simp only [Json.readElements, Option.bind_eq_bind, Option.bind_eq_some_iff, Prod.exists] at h
  obtain ⟨x, r₁, hx, h⟩ := h
  rw [hvalue _ _ _ _ hx, ← scan_skipSpace r₁]
  split at h
  · rename_i r₂ hskip
    simp only [Option.bind_eq_some_iff, Prod.exists] at h
    obtain ⟨l', r₃, hl, heq⟩ := h
    rw [hskip, ← (Prod.mk.inj (Option.some.inj heq)).2, scan_cons, next_outside (by decide)]
    exact helements _ _ _ _ hl d
  · rename_i r₂ hskip
    rw [hskip, ← (Prod.mk.inj (Option.some.inj h)).2]
    exact scan_close (.inl rfl) d r₂
  · cases h

theorem scan_readMembers {n : ℕ} (hvalue : ScansValues n) (hmembers : ScansMembers n) :
    ScansMembers (n + 1) := by
  intro k cs l r h d
  simp only [Json.readMembers, Option.bind_eq_bind, Option.bind_eq_some_iff, Prod.exists] at h
  obtain ⟨r₁, hr₁, key, r₂, hkey, r₃, hr₃, x, r₄, hx, h⟩ := h
  rw [← scan_skipSpace cs, scan_skipWord hr₁]
  change (inside (d + 1)).scan r₁ = _
  rw [scan_readString hkey, ← scan_skipSpace r₂, scan_skipWord hr₃, scan_cons, scan_nil,
    next_outside (by decide), hvalue _ _ _ _ hx, ← scan_skipSpace r₄]
  split at h
  · rename_i r₅ hskip
    simp only [Option.bind_eq_some_iff, Prod.exists] at h
    obtain ⟨l', r₆, hl, heq⟩ := h
    rw [hskip, ← (Prod.mk.inj (Option.some.inj heq)).2, scan_cons, next_outside (by decide)]
    exact hmembers _ _ _ _ hl d
  · rename_i r₅ hskip
    rw [hskip, ← (Prod.mk.inj (Option.some.inj h)).2]
    exact scan_close (.inr rfl) d r₅
  · cases h

theorem scan_readValue {n : ℕ} (helements : ScansElements n) (hmembers : ScansMembers n) :
    ScansValues (n + 1) := by
  intro k cs v r h d
  rw [← scan_skipSpace cs]
  rw [Json.readValue.eq_def] at h
  simp only at h
  split at h
  · cases h
  rename_i c rest heq
  rw [heq]
  split_ifs at h with hquote hopen hbrace hnull htrue hfalse
  -- a string, an array, an object, three words and a number
  · obtain ⟨⟨s, r'⟩, hs, heq⟩ := Option.map_eq_some_iff.mp h
    rw [← (Prod.mk.inj heq).2, hquote]
    exact scan_readString hs d
  · rw [hopen, scan_cons]
    change (outside (d + 1)).scan rest = _
    rw [← scan_skipSpace rest]
    split at h
    · cases h
    · rename_i hskip
      rw [hskip, ← (Prod.mk.inj (Option.some.inj h)).2]
      exact scan_close (.inl rfl) d _
    · obtain ⟨⟨l, r'⟩, hl, heq⟩ := Option.map_eq_some_iff.mp h
      rw [← (Prod.mk.inj heq).2]
      exact helements _ _ _ _ hl d
  · rw [hbrace, scan_cons]
    change (outside (d + 1)).scan rest = _
    rw [← scan_skipSpace rest]
    split at h
    · cases h
    · rename_i hskip
      rw [hskip, ← (Prod.mk.inj (Option.some.inj h)).2]
      exact scan_close (.inr rfl) d _
    · obtain ⟨⟨l, r'⟩, hl, heq⟩ := Option.map_eq_some_iff.mp h
      rw [← (Prod.mk.inj heq).2]
      exact hmembers _ _ _ _ hl d
  · obtain ⟨r', hr, heq⟩ := Option.map_eq_some_iff.mp h
    rw [← (Prod.mk.inj heq).2, hnull]
    exact scan_word hr (forall_mem_of_all (by decide)) d
  · obtain ⟨r', hr, heq⟩ := Option.map_eq_some_iff.mp h
    rw [← (Prod.mk.inj heq).2, htrue]
    exact scan_word hr (forall_mem_of_all (by decide)) d
  · obtain ⟨r', hr, heq⟩ := Option.map_eq_some_iff.mp h
    rw [← (Prod.mk.inj heq).2, hfalse]
    exact scan_word hr (forall_mem_of_all (by decide)) d
  · split at h
    · cases h
    · rename_i hnumber
      rw [← (Prod.mk.inj (Option.some.inj h)).2]
      exact scan_readNumber hnumber d

/-- The reader leaves the count where it was, or closes one bracket. -/
theorem scan_read (n : ℕ) : ScansValues n ∧ ScansElements n ∧ ScansMembers n := by
  induction n with
  | zero =>
    refine ⟨fun k cs v r h => ?_, fun k cs l r h => ?_, fun k cs l r h => ?_⟩
    · exact absurd h (by simp [Json.readValue])
    · exact absurd h (by simp [Json.readElements])
    · exact absurd h (by simp [Json.readMembers])
  | succ n ih =>
    obtain ⟨hvalue, helements, hmembers⟩ := ih
    exact ⟨scan_readValue helements hmembers, scan_readElements hvalue helements,
      scan_readMembers hvalue hmembers⟩

end DepthState

end Argus
