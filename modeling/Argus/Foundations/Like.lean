import Mathlib.Data.List.DropRight
import Mathlib.Data.List.Infix
import Mathlib.Data.String.Basic

/-!
# LIKE patterns of SQL

`%` stands for any text, `_` for one character, and a backslash takes the next character
literally. `like_containing` is the common use: a text without these three characters between two
`%` is found wherever it occurs. In any pattern, `infix_of_like`, such a piece is found nowhere
else.
-/

namespace Foundations

/-- A piece of a pattern. -/
inductive LikeToken
  | any
  | one
  | char (c : Char)
  deriving DecidableEq

/-- The pieces of a pattern. A backslash at the end, where servers report an error, stands for
itself. -/
def likeTokens : List Char → List LikeToken
  | '%' :: p => .any :: likeTokens p
  | '_' :: p => .one :: likeTokens p
  | '\\' :: c :: p => .char c :: likeTokens p
  | c :: p => .char c :: likeTokens p
  | [] => []

/-- Whether the whole text matches. -/
def likeMatch : List LikeToken → List Char → Bool
  | [], text => text.isEmpty
  | .any :: p, text => text.tails.any (likeMatch p)
  | .one :: p, _ :: text => likeMatch p text
  | .char c :: p, d :: text => c == d && likeMatch p text
  | _ :: _, [] => false

/-- `text LIKE pattern`. -/
def like (pattern text : String) : Bool := likeMatch (likeTokens pattern.toList) text.toList

/-- The pattern of the texts that contain a text. -/
def containing (s : String) : String := "%" ++ s ++ "%"

/-- A character without a meaning of its own. -/
def isPlain (c : Char) : Bool := c != '%' && c != '_' && c != '\\'

/-- Plain characters stand for themselves. -/
theorem likeTokens_append {s : List Char} (hs : ∀ c ∈ s, isPlain c = true) (p : List Char) :
    likeTokens (s ++ p) = s.map .char ++ likeTokens p := by
  induction s with
  | nil => rfl
  | cons c s ih =>
    obtain ⟨hc, hs⟩ := List.forall_mem_cons.mp hs
    simp only [isPlain, Bool.and_eq_true, bne_iff_ne, ne_eq] at hc
    rw [List.cons_append, likeTokens.eq_def]
    split
    · exact absurd (List.cons.inj ‹_›).1 hc.1.1
    · exact absurd (List.cons.inj ‹_›).1 hc.1.2
    · exact absurd (List.cons.inj ‹_›).1 hc.2
    · next heq =>
      obtain ⟨rfl, rfl⟩ := List.cons.inj heq
      rw [ih hs, List.map_cons, List.cons_append]
    · next heq => exact absurd heq (List.cons_ne_nil _ _)

/-- A literal beginning, then the rest of the pattern. -/
theorem likeMatch_char_append {s : List Char} {p : List LikeToken} {text : List Char} :
    likeMatch (s.map .char ++ p) text = true ↔
      ∃ rest, text = s ++ rest ∧ likeMatch p rest = true := by
  induction s generalizing text with
  | nil => simp
  | cons c s ih =>
    cases text with
    | nil => simp [likeMatch]
    | cons d text =>
      rw [List.map_cons, List.cons_append, likeMatch, Bool.and_eq_true, ih, beq_iff_eq]
      constructor
      · rintro ⟨rfl, rest, rfl, hrest⟩
        exact ⟨rest, rfl, hrest⟩
      · rintro ⟨rest, heq, hrest⟩
        obtain ⟨rfl, rfl⟩ := List.cons.inj heq
        exact ⟨rfl, rest, rfl, hrest⟩

theorem likeMatch_any {p : List LikeToken} {text : List Char} :
    likeMatch (.any :: p) text = true ↔ ∃ t, t <:+ text ∧ likeMatch p t = true := by
  rw [likeMatch, List.any_eq_true]
  exact exists_congr fun t => and_congr_left fun _ => List.mem_tails _ _

/-- Anything matches what is left. -/
theorem likeMatch_any_nil (text : List Char) : likeMatch [.any] text = true :=
  likeMatch_any.mpr ⟨[], List.nil_suffix, rfl⟩

/-- **Containing.** A plain text between two `%` is found where it occurs. -/
theorem like_containing {s text : String} (hs : ∀ c ∈ s.toList, isPlain c = true) :
    like (containing s) text = true ↔ s.toList <:+: text.toList := by
  have htokens : likeTokens (containing s).toList = .any :: (s.toList.map .char ++ [.any]) := by
    rw [containing, String.toList_append, String.toList_append]
    change likeTokens ('%' :: (s.toList ++ ['%'])) = _
    rw [likeTokens, likeTokens_append hs]
    rfl
  rw [like, htokens, likeMatch_any]
  simp only [likeMatch_char_append, likeMatch_any_nil, and_true]
  constructor
  · rintro ⟨t, ⟨before, htext⟩, rest, rfl⟩
    exact ⟨before, rest, by rw [← htext, List.append_assoc]⟩
  · rintro ⟨before, after, h⟩
    exact ⟨s.toList ++ after, ⟨before, by rw [← h, List.append_assoc]⟩, after, rfl⟩

/-- Without a backslash between them, a pattern is read piece by piece. -/
theorem likeTokens_append_of_ne {s : List Char} (hs : ∀ c ∈ s, c ≠ '\\') (p : List Char) :
    likeTokens (s ++ p) = likeTokens s ++ likeTokens p := by
  induction s with
  | nil => rfl
  | cons c s ih =>
    obtain ⟨hc, hs⟩ := List.forall_mem_cons.mp hs
    rw [List.cons_append, likeTokens.eq_def, likeTokens.eq_def (c :: s)]
    by_cases hany : c = '%'
    · simp [hany, ih hs]
    by_cases hone : c = '_'
    · simp [hone, ih hs]
    simp [hc, ih hs]

/-- A pattern of two pieces cuts the text in two. -/
theorem likeMatch_append {p q : List LikeToken} {text : List Char} :
    likeMatch (p ++ q) text = true ↔
      ∃ t u, text = t ++ u ∧ likeMatch p t = true ∧ likeMatch q u = true := by
  induction p generalizing text with
  | nil =>
    rw [List.nil_append]
    constructor
    · exact fun h => ⟨[], text, rfl, rfl, h⟩
    · rintro ⟨t, u, rfl, ht, hu⟩
      rwa [List.isEmpty_iff.mp ht, List.nil_append]
  | cons token p ih =>
    rw [List.cons_append]
    rcases token with - | - | c
    · rw [likeMatch_any]
      constructor
      · rintro ⟨_, ⟨before, rfl⟩, h⟩
        obtain ⟨t, u, rfl, ht, hu⟩ := ih.mp h
        exact ⟨before ++ t, u, (List.append_assoc _ _ _).symm,
          likeMatch_any.mpr ⟨t, List.suffix_append _ _, ht⟩, hu⟩
      · rintro ⟨t, u, rfl, ht, hu⟩
        obtain ⟨t', ⟨before, rfl⟩, ht'⟩ := likeMatch_any.mp ht
        exact ⟨t' ++ u, ⟨before, (List.append_assoc _ _ _).symm⟩, ih.mpr ⟨t', u, rfl, ht', hu⟩⟩
    · constructor
      · intro h
        rcases text with - | ⟨d, text⟩
        · exact absurd h Bool.false_ne_true
        · obtain ⟨t, u, rfl, ht, hu⟩ := ih.mp h
          exact ⟨d :: t, u, rfl, ht, hu⟩
      · rintro ⟨_ | ⟨d, t⟩, u, rfl, ht, hu⟩
        · exact absurd ht Bool.false_ne_true
        · exact ih.mpr ⟨t, u, rfl, ht, hu⟩
    · constructor
      · intro h
        rcases text with - | ⟨d, text⟩
        · exact absurd h Bool.false_ne_true
        · obtain ⟨hd, h⟩ := Bool.and_eq_true_iff.mp h
          obtain ⟨t, u, rfl, ht, hu⟩ := ih.mp h
          exact ⟨d :: t, u, rfl, Bool.and_eq_true_iff.mpr ⟨hd, ht⟩, hu⟩
      · rintro ⟨_ | ⟨d, t⟩, u, rfl, ht, hu⟩
        · exact absurd ht Bool.false_ne_true
        · obtain ⟨hd, ht⟩ := Bool.and_eq_true_iff.mp ht
          exact Bool.and_eq_true_iff.mpr ⟨hd, ih.mpr ⟨t, u, rfl, ht, hu⟩⟩

/-- A plain piece of a pattern occurs in what matches it. -/
theorem infix_of_like {p s p' text : String} (hp : ∀ c ∈ p.toList, c ≠ '\\')
    (hs : ∀ c ∈ s.toList, isPlain c = true) (h : like (p ++ s ++ p') text = true) :
    s.toList <:+: text.toList := by
  rw [like, String.toList_append, String.toList_append, List.append_assoc,
    likeTokens_append_of_ne hp, likeTokens_append hs] at h
  obtain ⟨before, u, htext, -, h⟩ := likeMatch_append.mp h
  obtain ⟨after, rfl, -⟩ := likeMatch_char_append.mp h
  exact ⟨before, after, by rw [htext, List.append_assoc]⟩

/-! ### Errors -/

/-- A pattern that ends in a backslash which takes no character. -/
def endsInEscape : List Char → Bool
  | '\\' :: _ :: p => endsInEscape p
  | ['\\'] => true
  | _ :: p => endsInEscape p
  | [] => false

/-- Whether a pattern ends in a `%` and, later, a `_`. The server takes the characters of both
together and looks at once for what comes next. -/
def endsInSkip (p : List LikeToken) : Bool :=
  ((p.rtakeWhile fun t => t == .any || t == .one).dropWhile (· == .one)).contains .one

/-- Whether a match gets to such a backslash, which is an error: with text left, or, where it comes
after characters that are skipped, with none. -/
def likeFails (pattern text : String) : Bool :=
  let before := (likeTokens pattern.toList).dropLast
  endsInEscape pattern.toList && (likeMatch (before ++ [.one, .any]) text.toList ||
    (endsInSkip before && likeMatch before text.toList))

/-- The value of `text LIKE pattern`, unless it is an error. -/
def likeResult (pattern text : String) : Option Bool :=
  if likeFails pattern text then none else some (like pattern text)

/-- An error where a `_` has taken the last character. -/
example : likeResult "%_\\" "a" = none := by decide

theorem endsInEscape_cons {c : Char} (hc : isPlain c = true) (p : List Char) :
    endsInEscape (c :: p) = endsInEscape p := by
  simp only [isPlain, Bool.and_eq_true, bne_iff_ne] at hc
  rw [endsInEscape]
  · exact fun _ _ heq => absurd heq hc.2
  · exact fun heq => absurd heq hc.2

/-- A plain pattern makes no such error. -/
theorem endsInEscape_eq_false {p : List Char} (h : ∀ c ∈ p, isPlain c = true) :
    endsInEscape p = false := by
  induction p with
  | nil => rfl
  | cons c p ih =>
    obtain ⟨hc, hp⟩ := List.forall_mem_cons.mp h
    rw [endsInEscape_cons hc, ih hp]

/-- A `%` at the end is no backslash. -/
theorem endsInEscape_append (p : List Char) : endsInEscape (p ++ ['%']) = false := by
  induction p using endsInEscape.induct with
  | case1 c p ih => exact ih
  | case2 => rfl
  | case3 c p h₁ h₂ ih =>
    rw [List.cons_append, endsInEscape]
    · exact ih
    · rintro d p' rfl heq
      cases p with
      | nil => exact h₂ rfl rfl
      | cons e p => exact h₁ e p rfl rfl
    · exact fun _ heq => absurd heq (by simp)
  | case4 => rfl

/-! ### Texts that match -/

/-- A text that a pattern matches: `z` for a wildcard, `e` for a backslash at the end. -/
def fill (z e : Char) : List Char → List Char
  | '%' :: p => z :: fill z e p
  | '_' :: p => z :: fill z e p
  | '\\' :: c :: p => c :: fill z e p
  | ['\\'] => [e]
  | c :: p => c :: fill z e p
  | [] => []

/-- What is left over by the other cases of `fill`. -/
theorem isPlain_of_not_special {c : Char} {p : List Char} (h₁ : c = '%' → False)
    (h₂ : c = '_' → False) (h₃ : ∀ d p', c = '\\' → p = d :: p' → False)
    (h₄ : c = '\\' → p = [] → False) : isPlain c = true := by
  have hescape : c ≠ '\\' := by
    rintro rfl
    cases p with
    | nil => exact h₄ rfl rfl
    | cons d p => exact h₃ d p rfl rfl
  simp only [isPlain, Bool.and_eq_true, bne_iff_ne]
  exact ⟨⟨fun heq => h₁ heq, fun heq => h₂ heq⟩, hescape⟩

theorem likeTokens_cons {c : Char} (hc : isPlain c = true) (p : List Char) :
    likeTokens (c :: p) = .char c :: likeTokens p :=
  likeTokens_append (s := [c]) (fun _ hd => List.mem_singleton.mp hd ▸ hc) p

theorem length_fill_le (z e : Char) (p : List Char) : (fill z e p).length ≤ p.length := by
  induction p using fill.induct with
  | case1 p ih => simpa [fill] using ih
  | case2 p ih => simpa [fill] using ih
  | case3 c p ih => simp only [fill, List.length_cons]; omega
  | case4 => rfl
  | case5 c p h₁ h₂ h₃ h₄ ih => rw [fill]; simpa using ih; all_goals assumption
  | case6 => rfl

/-- Only a plain text is filled with itself. -/
theorem isPlain_of_fill_eq {z e : Char} (hz : isPlain z = true) (he : e ≠ '\\') {p : List Char}
    (h : fill z e p = p) : ∀ c ∈ p, isPlain c = true := by
  induction p using fill.induct with
  | case1 p ih =>
    rw [fill] at h
    rw [(List.cons.inj h).1] at hz
    exact absurd hz (by decide)
  | case2 p ih =>
    rw [fill] at h
    rw [(List.cons.inj h).1] at hz
    exact absurd hz (by decide)
  | case3 c p ih =>
    -- an escaped character makes the filled text shorter
    have hlength := congrArg List.length h
    have hle := length_fill_le z e p
    simp only [fill, List.length_cons] at hlength
    omega
  | case4 => exact absurd (List.cons.inj h).1 he
  | case5 c p h₁ h₂ h₃ h₄ ih =>
    have hfill : fill z e (c :: p) = c :: fill z e p := by rw [fill] <;> assumption
    rw [hfill] at h
    refine List.forall_mem_cons.mpr ⟨?_, ih (List.cons.inj h).2⟩
    exact isPlain_of_not_special h₁ h₂ h₃ h₄
  | case6 => exact fun c hc => absurd hc List.not_mem_nil

theorem fill_cons {z e c : Char} {p : List Char} (hc : isPlain c = true) :
    fill z e (c :: p) = c :: fill z e p := by
  simp only [isPlain, Bool.and_eq_true, bne_iff_ne] at hc
  rw [fill]
  · exact fun heq => hc.1.1 heq
  · exact fun heq => hc.1.2 heq
  · exact fun d p' heq => absurd heq hc.2
  · exact fun heq => absurd heq hc.2

/-- A pattern that goes on with `%` matches its filling, in which a backslash at its end has taken
the `%`. -/
theorem likeMatch_fill_append (z : Char) (p : List Char) :
    likeMatch (likeTokens (p ++ ['%'])) (fill z '%' p) = true := by
  induction p using fill.induct with
  | case1 p ih =>
    rw [List.cons_append, likeTokens, fill]
    exact likeMatch_any.mpr ⟨_, List.suffix_cons _ _, ih⟩
  | case2 p ih => exact ih
  | case3 c p ih =>
    rw [List.cons_append, List.cons_append, likeTokens, fill, likeMatch, beq_self_eq_true]
    exact ih
  | case4 => rfl
  | case5 c p h₁ h₂ h₃ h₄ ih =>
    have hc := isPlain_of_not_special h₁ h₂ h₃ h₄
    rw [List.cons_append, likeTokens_cons hc, fill_cons hc, likeMatch, beq_self_eq_true]
    exact ih
  | case6 => rfl

/-- A pattern without a backslash at its end matches its filling. -/
theorem likeMatch_fill (z e : Char) {p : List Char} (h : endsInEscape p = false) :
    likeMatch (likeTokens p) (fill z e p) = true := by
  induction p using fill.induct with
  | case1 p ih =>
    rw [likeTokens, fill]
    exact likeMatch_any.mpr ⟨_, List.suffix_cons _ _, ih h⟩
  | case2 p ih => exact ih h
  | case3 c p ih =>
    rw [likeTokens, fill, likeMatch, beq_self_eq_true]
    exact ih h
  | case4 => exact absurd h (by decide)
  | case5 c p h₁ h₂ h₃ h₄ ih =>
    have hc := isPlain_of_not_special h₁ h₂ h₃ h₄
    rw [likeTokens_cons hc, fill_cons hc, likeMatch, beq_self_eq_true]
    exact ih (by rwa [endsInEscape_cons hc] at h)
  | case6 => rfl

theorem likeTokens_ne_nil {p : List Char} (h : endsInEscape p = true) : likeTokens p ≠ [] := by
  intro hnil
  rw [likeTokens.eq_def] at hnil
  split at hnil
  · exact absurd hnil (by simp)
  · exact absurd hnil (by simp)
  · exact absurd hnil (by simp)
  · exact absurd hnil (by simp)
  · exact absurd h (by decide)

/-- With a backslash at its end the filling gets to the error. -/
theorem likeMatch_fill_dropLast (z e : Char) {p : List Char} (h : endsInEscape p = true) :
    likeMatch ((likeTokens p).dropLast ++ [.one, .any]) (fill z e p) = true := by
  induction p using fill.induct with
  | case1 p ih =>
    have hp : endsInEscape p = true := h
    rw [likeTokens, fill, List.dropLast_cons_of_ne_nil (likeTokens_ne_nil hp), List.cons_append]
    exact likeMatch_any.mpr ⟨_, List.suffix_cons _ _, ih hp⟩
  | case2 p ih =>
    have hp : endsInEscape p = true := h
    rw [likeTokens, fill, List.dropLast_cons_of_ne_nil (likeTokens_ne_nil hp), List.cons_append]
    exact ih hp
  | case3 c p ih =>
    have hp : endsInEscape p = true := h
    rw [likeTokens, fill, List.dropLast_cons_of_ne_nil (likeTokens_ne_nil hp), List.cons_append,
      likeMatch, beq_self_eq_true]
    exact ih hp
  | case4 => rfl
  | case5 c p h₁ h₂ h₃ h₄ ih =>
    have hc := isPlain_of_not_special h₁ h₂ h₃ h₄
    have hp : endsInEscape p = true := by rwa [endsInEscape_cons hc] at h
    rw [likeTokens_cons hc, fill_cons hc,
      List.dropLast_cons_of_ne_nil (likeTokens_ne_nil hp), List.cons_append, likeMatch,
      beq_self_eq_true]
    exact ih hp
  | case6 => exact absurd h (by decide)

/-- What stands for a backslash at the end is at the end. -/
theorem exists_fill_concat (z e : Char) {p : List Char} (h : endsInEscape p = true) :
    ∃ q, fill z e p = q ++ [e] := by
  induction p using fill.induct with
  | case1 p ih =>
    obtain ⟨q, hq⟩ := ih h
    exact ⟨z :: q, by rw [fill, hq]; rfl⟩
  | case2 p ih =>
    obtain ⟨q, hq⟩ := ih h
    exact ⟨z :: q, by rw [fill, hq]; rfl⟩
  | case3 c p ih =>
    obtain ⟨q, hq⟩ := ih h
    exact ⟨c :: q, by rw [fill, hq]; rfl⟩
  | case4 => exact ⟨[], rfl⟩
  | case5 c p h₁ h₂ h₃ h₄ ih =>
    have hc := isPlain_of_not_special h₁ h₂ h₃ h₄
    obtain ⟨q, hq⟩ := ih (by rwa [endsInEscape_cons hc] at h)
    exact ⟨c :: q, by rw [fill_cons hc, hq]; rfl⟩
  | case6 => exact absurd h (by decide)

/-- A pattern without a wildcard, whose filling shows none, matches its filling only. -/
theorem eq_fill_of_likeMatch {z : Char} {p t : List Char} (hz : z ∉ fill z z p)
    (h : likeMatch (likeTokens p) t = true) : t = fill z z p := by
  induction p using fill.induct generalizing t with
  | case1 p ih => exact absurd List.mem_cons_self hz
  | case2 p ih => exact absurd List.mem_cons_self hz
  | case3 c p ih =>
    obtain ⟨rest, rfl, hrest⟩ := likeMatch_char_append (s := [c]).mp h
    rw [fill, ← ih (fun hmem => hz (List.mem_cons_of_mem c hmem)) hrest]
    rfl
  | case4 => exact absurd List.mem_cons_self hz
  | case5 c p h₁ h₂ h₃ h₄ ih =>
    have hc := isPlain_of_not_special h₁ h₂ h₃ h₄
    rw [likeTokens_cons hc] at h
    rw [fill_cons hc] at hz ⊢
    obtain ⟨rest, rfl, hrest⟩ := likeMatch_char_append (s := [c]).mp h
    rw [← ih (fun hmem => hz (List.mem_cons_of_mem c hmem)) hrest]
    rfl
  | case6 => exact List.isEmpty_iff.mp h

/-- Without a wildcard only escapes are left to be special, and they are filled with less. -/
theorem length_fill_lt {z : Char} {p : List Char} (hz : z ∉ fill z z p)
    (h : ¬ ∀ c ∈ p, isPlain c = true) : (fill z z p).length < p.length := by
  induction p using fill.induct with
  | case1 p ih => exact absurd List.mem_cons_self hz
  | case2 p ih => exact absurd List.mem_cons_self hz
  | case3 c p ih =>
    have hle := length_fill_le z z p
    simp only [fill, List.length_cons]
    omega
  | case4 => exact absurd List.mem_cons_self hz
  | case5 c p h₁ h₂ h₃ h₄ ih =>
    have hc := isPlain_of_not_special h₁ h₂ h₃ h₄
    rw [fill_cons hc] at hz ⊢
    rw [List.forall_mem_cons] at h
    exact Nat.succ_lt_succ (ih (fun hmem => hz (List.mem_cons_of_mem c hmem))
      fun hp => h ⟨hc, hp⟩)
  | case6 => exact absurd (fun c hc => absurd hc List.not_mem_nil) h

/-- A plain text is filled with itself. -/
theorem fill_eq_self {z e : Char} {p : List Char} (h : ∀ c ∈ p, isPlain c = true) :
    fill z e p = p := by
  induction p with
  | nil => rfl
  | cons c p ih =>
    obtain ⟨hc, hp⟩ := List.forall_mem_cons.mp h
    rw [fill_cons hc, ih hp]

/-- The filling has the characters of the pattern and the two that fill it. -/
theorem mem_of_mem_fill {z e c : Char} {p : List Char} (h : c ∈ fill z e p) :
    c = z ∨ c = e ∨ c ∈ p := by
  induction p using fill.induct with
  | case1 p ih =>
    rcases List.mem_cons.mp h with rfl | h
    · exact .inl rfl
    · exact (ih h).imp_right (Or.imp_right (List.mem_cons_of_mem _))
  | case2 p ih =>
    rcases List.mem_cons.mp h with rfl | h
    · exact .inl rfl
    · exact (ih h).imp_right (Or.imp_right (List.mem_cons_of_mem _))
  | case3 d p ih =>
    rcases List.mem_cons.mp h with rfl | h
    · exact .inr (.inr (List.mem_cons_of_mem _ List.mem_cons_self))
    · exact (ih h).imp_right
        (Or.imp_right fun hp => List.mem_cons_of_mem _ (List.mem_cons_of_mem _ hp))
  | case4 => exact .inr (.inl (List.mem_singleton.mp h))
  | case5 d p h₁ h₂ h₃ h₄ ih =>
    rw [fill_cons (isPlain_of_not_special h₁ h₂ h₃ h₄)] at h
    rcases List.mem_cons.mp h with rfl | h
    · exact .inr (.inr List.mem_cons_self)
    · exact (ih h).imp_right (Or.imp_right (List.mem_cons_of_mem _))
  | case6 => exact absurd h List.not_mem_nil

/-- What a piece is filled with. -/
def LikeToken.fill (z : Char) : LikeToken → Char
  | .any => z
  | .one => z
  | .char c => c

/-- Without a backslash at its end a pattern is filled piece by piece. -/
theorem fill_eq_map (z e : Char) {p : List Char} (h : endsInEscape p = false) :
    fill z e p = (likeTokens p).map (LikeToken.fill z) := by
  induction p using fill.induct with
  | case1 p ih => rw [Foundations.fill, likeTokens, List.map_cons, ih h]; rfl
  | case2 p ih => rw [Foundations.fill, likeTokens, List.map_cons, ih h]; rfl
  | case3 c p ih => rw [Foundations.fill, likeTokens, List.map_cons, ih h]; rfl
  | case4 => exact absurd h (by decide)
  | case5 c p h₁ h₂ h₃ h₄ ih =>
    have hc := isPlain_of_not_special h₁ h₂ h₃ h₄
    rw [likeTokens_cons hc, fill_cons hc, List.map_cons, ih (by rwa [endsInEscape_cons hc] at h)]
    rfl
  | case6 => rfl

/-- Only characters are filled with a text in which `z` does not occur. -/
theorem eq_map_char_of_fill {z : Char} {tokens : List LikeToken} {s : List Char} (hz : z ∉ s)
    (h : tokens.map (LikeToken.fill z) = s) : tokens = s.map .char := by
  induction tokens generalizing s with
  | nil => rw [← h]; rfl
  | cons token tokens ih =>
    subst h
    rw [List.map_cons, List.mem_cons, not_or] at hz
    rw [List.map_cons, List.map_cons, ← ih hz.2 rfl]
    cases token with
    | any => exact absurd rfl hz.1
    | one => exact absurd rfl hz.1
    | char c => rfl

theorem char_mem_likeTokens {c : Char} (hc : isPlain c = true) {p : List Char} (hmem : c ∈ p) :
    LikeToken.char c ∈ likeTokens p := by
  induction p using fill.induct with
  | case1 p ih =>
    rcases List.mem_cons.mp hmem with rfl | hmem
    · exact absurd hc (by decide)
    · exact List.mem_cons_of_mem _ (ih hmem)
  | case2 p ih =>
    rcases List.mem_cons.mp hmem with rfl | hmem
    · exact absurd hc (by decide)
    · exact List.mem_cons_of_mem _ (ih hmem)
  | case3 d p ih =>
    rcases List.mem_cons.mp hmem with rfl | hmem
    · exact absurd hc (by decide)
    rcases List.mem_cons.mp hmem with rfl | hmem
    · exact List.mem_cons_self
    · exact List.mem_cons_of_mem _ (ih hmem)
  | case4 =>
    rw [List.mem_singleton.mp hmem] at hc
    exact absurd hc (by decide)
  | case5 d p h₁ h₂ h₃ h₄ ih =>
    rw [likeTokens_cons (isPlain_of_not_special h₁ h₂ h₃ h₄)]
    rcases List.mem_cons.mp hmem with rfl | hmem
    · exact List.mem_cons_self
    · exact List.mem_cons_of_mem _ (ih hmem)
  | case6 => exact absurd hmem List.not_mem_nil

/-- A plain character of a pattern is in every text that matches. -/
theorem mem_of_likeMatch {c : Char} (hc : isPlain c = true) {p t : List Char} (hmem : c ∈ p)
    (h : likeMatch (likeTokens p) t = true) : c ∈ t := by
  obtain ⟨before, after, htokens⟩ := List.append_of_mem (char_mem_likeTokens hc hmem)
  rw [htokens] at h
  obtain ⟨t₁, t₂, rfl, -, h⟩ := likeMatch_append.mp h
  obtain ⟨rest, rfl, -⟩ := likeMatch_char_append (s := [c]).mp h
  exact List.mem_append_right _ List.mem_cons_self

end Foundations
