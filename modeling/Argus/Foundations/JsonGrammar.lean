import Argus.Foundations.JsonLines

/-!
# The grammar of JSON over code units

Texts are sequences of UTF-16 code units, as some languages have them: a string may hold any units,
also a surrogate without its partner. `ValueText v t` derives the text `t` of the value `v` by the
grammar, white space included. No text has two values (`paddedText_unique`).
-/

namespace Foundations.Units

/-- A sequence of code units. -/
abbrev Text : Type := List UInt16

/-- The code unit of a character below `U+10000`. -/
def unit (c : Char) : UInt16 := .ofNat c.toNat

/-- The code units of such characters. -/
def units (s : String) : Text := s.toList.map unit

/-! ### Strings -/

/-- The letters after a backslash, and the units that they stand for. -/
def shortEscapes : List (UInt16 × UInt16) :=
  [(unit '"', unit '"'), (unit '\\', unit '\\'), (unit '/', unit '/'), (unit 'b', 0x08),
    (unit 'f', 0x0C), (unit 'n', 0x0A), (unit 'r', 0x0D), (unit 't', 0x09)]

/-- The value of a hexadecimal digit. -/
def hexUnit (u : UInt16) : Option ℕ := hexValue (Char.ofNat u.toNat)

/-- The texts of one unit of a string: no control character, no quotation mark and no backslash
stands for itself, and a backslash takes what it escapes with it. -/
inductive CharText : UInt16 → Text → Prop
  | plain {c : UInt16} (hcontrol : 0x20 ≤ c) (hquote : c ≠ unit '"') (hslash : c ≠ unit '\\') :
      CharText c [c]
  | short {c e : UInt16} (h : (e, c) ∈ shortEscapes) : CharText c [unit '\\', e]
  | long {c d₁ d₂ d₃ d₄ : UInt16} {n₁ n₂ n₃ n₄ : ℕ} (h₁ : hexUnit d₁ = some n₁)
      (h₂ : hexUnit d₂ = some n₂) (h₃ : hexUnit d₃ = some n₃) (h₄ : hexUnit d₄ = some n₄)
      (hc : c.toNat = n₁ * 4096 + n₂ * 256 + n₃ * 16 + n₄) :
      CharText c [unit '\\', unit 'u', d₁, d₂, d₃, d₄]

/-- The texts of the units of a string. -/
inductive BodyText : Text → Text → Prop
  | nil : BodyText [] []
  | cons {c : UInt16} {s t b : Text} (hc : CharText c t) (hs : BodyText s b) :
      BodyText (c :: s) (t ++ b)

/-- The texts of a string, between quotation marks. -/
inductive StringText : Text → Text → Prop
  | quoted {s b : Text} (h : BodyText s b) : StringText s (unit '"' :: (b ++ [unit '"']))

/-- A text of one unit is not empty and does not begin with a quotation mark. -/
theorem CharText.eq_cons {c : UInt16} {t : Text} (h : CharText c t) :
    ∃ d t', t = d :: t' ∧ d ≠ unit '"' := by
  cases h with
  | plain hcontrol hquote hslash => exact ⟨c, [], rfl, hquote⟩
  | short h => exact ⟨_, _, rfl, by decide⟩
  | long h₁ h₂ h₃ h₄ hc => exact ⟨_, _, rfl, by decide⟩

/-- The letter of a short escape decides what it stands for, and is no `u`. -/
theorem shortEscapes_unique : ∀ x ∈ shortEscapes, x.1 ≠ unit 'u' ∧
    ∀ y ∈ shortEscapes, x.1 = y.1 → x.2 = y.2 := by
  have hall : (shortEscapes.all fun x => x.1 != unit 'u' &&
      shortEscapes.all fun y => x.1 != y.1 || x.2 == y.2) = true := by decide
  simp only [List.all_eq_true, Bool.and_eq_true, Bool.or_eq_true, bne_iff_ne, beq_iff_eq] at hall
  intro x hx
  obtain ⟨hne, hsame⟩ := hall x hx
  exact ⟨hne, fun y hy heq => (hsame y hy).resolve_left (not_not_intro heq)⟩

/-- A text begins with the text of one unit at most. -/
theorem CharText.unique {c c' : UInt16} {t t' r r' : Text} (h : CharText c t)
    (h' : CharText c' t') (heq : t ++ r = t' ++ r') : c = c' ∧ r = r' := by
  cases h with
  | plain hcontrol hquote hslash =>
    cases h' with
    | plain => exact List.cons.inj heq
    | short => exact absurd (List.cons.inj heq).1 hslash
    | long => exact absurd (List.cons.inj heq).1 hslash
  | short h =>
    obtain ⟨hu, hsame⟩ := shortEscapes_unique _ h
    cases h' with
    | plain _ _ hslash => exact absurd (List.cons.inj heq).1.symm hslash
    | short h' =>
      obtain ⟨he, hr⟩ := List.cons.inj (List.cons.inj heq).2
      exact ⟨hsame _ h' he, hr⟩
    | long => exact absurd (List.cons.inj (List.cons.inj heq).2).1 hu
  | long h₁ h₂ h₃ h₄ hc =>
    cases h' with
    | plain _ _ hslash => exact absurd (List.cons.inj heq).1.symm hslash
    | short h' =>
      exact absurd (List.cons.inj (List.cons.inj heq).2).1.symm (shortEscapes_unique _ h').1
    | long h₁' h₂' h₃' h₄' hc' =>
      simp only [List.cons_append, List.nil_append, List.cons.injEq, true_and] at heq
      obtain ⟨rfl, rfl, rfl, rfl, rfl⟩ := heq
      obtain rfl := Option.some.inj (h₁.symm.trans h₁')
      obtain rfl := Option.some.inj (h₂.symm.trans h₂')
      obtain rfl := Option.some.inj (h₃.symm.trans h₃')
      obtain rfl := Option.some.inj (h₄.symm.trans h₄')
      exact ⟨UInt16.toNat_inj.mp (hc.trans hc'.symm), rfl⟩

/-- What stands before a quotation mark is the text of one string. -/
theorem BodyText.unique {s b s' b' r r' : Text} (h : BodyText s b) (h' : BodyText s' b')
    (heq : b ++ unit '"' :: r = b' ++ unit '"' :: r') : s = s' ∧ r = r' := by
  induction h generalizing s' b' with
  | nil =>
    cases h' with
    | nil => exact ⟨rfl, (List.cons.inj heq).2⟩
    | cons hc' _ =>
      obtain ⟨d, t', rfl, hd⟩ := hc'.eq_cons
      exact absurd (List.cons.inj heq).1.symm hd
  | cons hc hs ih =>
    cases h' with
    | nil =>
      obtain ⟨d, t', rfl, hd⟩ := hc.eq_cons
      exact absurd (List.cons.inj heq).1 hd
    | cons hc' hs' =>
      rw [List.append_assoc, List.append_assoc] at heq
      obtain ⟨rfl, hrest⟩ := hc.unique hc' heq
      obtain ⟨rfl, hr⟩ := ih hs' hrest
      exact ⟨rfl, hr⟩

/-- **Strings decode in one way.** A text begins with the text of one string at most. -/
theorem StringText.unique {s t s' t' r r' : Text} (h : StringText s t) (h' : StringText s' t')
    (heq : t ++ r = t' ++ r') : s = s' ∧ r = r' := by
  obtain ⟨hb⟩ := h
  obtain ⟨hb'⟩ := h'
  rw [List.cons_append, List.cons_append, List.append_assoc, List.append_assoc] at heq
  exact hb.unique hb' (List.cons.inj heq).2

/-- A hexadecimal digit is no control character. -/
theorem le_of_hexUnit {d : UInt16} {n : ℕ} (h : hexUnit d = some n) : 0x20 ≤ d := by
  have hnone : ∀ k < 32, hexValue (Char.ofNat k) = none := by decide
  rw [UInt16.le_iff_toNat_le]
  by_contra hlt
  rw [hexUnit, hnone d.toNat (Nat.lt_of_not_le hlt)] at h
  exact absurd h (Option.some_ne_none n).symm

/-- The text of a string has no control character. -/
theorem BodyText.le_of_mem {s b : Text} (h : BodyText s b) {u : UInt16} (hu : u ∈ b) :
    0x20 ≤ u := by
  have hletter : (shortEscapes.all fun x => decide (0x20 ≤ x.1)) = true := by decide
  simp only [List.all_eq_true, decide_eq_true_eq] at hletter
  induction h with
  | nil => exact absurd hu List.not_mem_nil
  | cons hc _ ih =>
    rcases List.mem_append.mp hu with hu | hu
    · cases hc with
      | plain hcontrol _ _ => exact List.mem_singleton.mp hu ▸ hcontrol
      | short h =>
        simp only [List.mem_cons, List.not_mem_nil, or_false] at hu
        rcases hu with rfl | rfl
        · decide
        · exact hletter _ h
      | long h₁ h₂ h₃ h₄ _ =>
        simp only [List.mem_cons, List.not_mem_nil, or_false] at hu
        rcases hu with rfl | rfl | rfl | rfl | rfl | rfl
        · decide
        · decide
        · exact le_of_hexUnit h₁
        · exact le_of_hexUnit h₂
        · exact le_of_hexUnit h₃
        · exact le_of_hexUnit h₄
    · exact ih hu

/-! ### Values -/

/-- A JSON value, whose strings are sequences of code units. -/
inductive Value
  | null
  | bool (b : Bool)
  | num (n : Number)
  | str (s : Text)
  | arr (elements : List Value)
  | obj (members : List (Text × Value))

/-- White space. -/
def isSpace (u : UInt16) : Bool := u == 0x20 || u == 0x09 || u == 0x0A || u == 0x0D

/-- A text of white space. -/
def Blank (w : Text) : Prop := ∀ u ∈ w, isSpace u = true

/-- The texts of a list of items: white space for none, and a comma between any two. -/
inductive ItemsText {α : Type} (P : α → Text → Prop) : List α → Text → Prop
  | none {w : Text} (hw : Blank w) : ItemsText P [] w
  | one {a : α} {t : Text} (h : P a t) : ItemsText P [a] t
  | more {a a' : α} {l : List α} {t b : Text} (h : P a t) (hl : ItemsText P (a' :: l) b) :
      ItemsText P (a :: a' :: l) (t ++ unit ',' :: b)

mutual

/-- The texts of a value. -/
inductive ValueText : Value → Text → Prop
  | nullWord : ValueText .null (units "null")
  | trueWord : ValueText (.bool true) (units "true")
  | falseWord : ValueText (.bool false) (units "false")
  | num (n : Number) : ValueText (.num n) (n.text.map unit)
  | str {s t : Text} (h : StringText s t) : ValueText (.str s) t
  | arr {l : List Value} {t : Text} (h : ItemsText PaddedText l t) :
      ValueText (.arr l) (unit '[' :: (t ++ [unit ']']))
  | obj {l : List (Text × Value)} {t : Text} (h : ItemsText MemberText l t) :
      ValueText (.obj l) (unit '{' :: (t ++ [unit '}']))

/-- The texts of a value with white space around it. -/
inductive PaddedText : Value → Text → Prop
  | padded {v : Value} {w t w' : Text} (hw : Blank w) (h : ValueText v t) (hw' : Blank w') :
      PaddedText v (w ++ (t ++ w'))

/-- The texts of a member: its name, a colon and its value. -/
inductive MemberText : Text × Value → Text → Prop
  | member {k n w w' t : Text} {v : Value} (hw : Blank w) (hk : StringText k n) (hw' : Blank w')
      (h : PaddedText v t) : MemberText (k, v) (w ++ (n ++ (w' ++ unit ':' :: t)))

end

/-- Induction on a value, over the elements of arrays and the members of objects. -/
@[elab_as_elim]
theorem Value.inductionOn {P : Value → Prop} (v : Value) (null : P null) (bool : ∀ b, P (bool b))
    (num : ∀ n, P (num n)) (str : ∀ s, P (str s)) (arr : ∀ l, (∀ x ∈ l, P x) → P (arr l))
    (obj : ∀ l, (∀ e ∈ l, P e.2) → P (obj l)) : P v :=
  @Value.rec P (fun l => ∀ x ∈ l, P x) (fun l => ∀ e ∈ l, P e.2) (fun e => P e.2)
    null bool num str arr obj (fun _ h => absurd h List.not_mem_nil)
    (fun _ _ hx hl _ h => (List.mem_cons.mp h).elim (fun e => e ▸ hx) (hl _))
    (fun _ h => absurd h List.not_mem_nil)
    (fun _ _ hx hl _ h => (List.mem_cons.mp h).elim (fun e => e ▸ hx) (hl _))
    (fun _ _ h => h) v

/-! ### What a text begins with -/

/-- Which values begin with a unit: each kind of value has units of its own. -/
def startKind (u : UInt16) : ℕ :=
  if u = unit 'n' then 0
  else if u = unit 't' then 1
  else if u = unit 'f' then 2
  else if u = unit '"' then 3
  else if u = unit '[' then 4
  else if u = unit '{' then 5
  else 6

/-- The kind of a value. -/
def Value.kind : Value → ℕ
  | .null => 0
  | .bool true => 1
  | .bool false => 2
  | .str _ => 3
  | .arr _ => 4
  | .obj _ => 5
  | .num _ => 6

/-- A unit that separates or closes. -/
def stops (u : UInt16) : Bool := u == unit ',' || u == unit ']' || u == unit '}'

/-- The first unit of a value's text: it tells the kind, and is neither white space nor a unit that
separates or closes. -/
theorem ValueText.eq_cons {v : Value} {t : Text} (h : ValueText v t) :
    ∃ u t', t = u :: t' ∧ startKind u = v.kind ∧ isSpace u = false ∧ stops u = false := by
  cases h with
  | nullWord => exact ⟨_, _, rfl, by decide, by decide, by decide⟩
  | trueWord => exact ⟨_, _, rfl, by decide, by decide, by decide⟩
  | falseWord => exact ⟨_, _, rfl, by decide, by decide, by decide⟩
  | num n =>
    have hdigit : ∀ k < 58, 48 ≤ k ∨ k = 45 → startKind (.ofNat k) = 6 ∧
        isSpace (.ofNat k) = false ∧ stops (.ofNat k) = false := by decide
    obtain ⟨c, t, hn, hc⟩ := n.text_eq_cons
    have hc : c.toNat < 58 ∧ (48 ≤ c.toNat ∨ c.toNat = 45) := by
      rcases hc with rfl | hc
      · decide
      · obtain ⟨hlow, hhigh⟩ := isDigit_iff.mp hc
        exact ⟨Nat.lt_succ_of_le hhigh, .inl hlow⟩
    exact ⟨unit c, t.map unit, by rw [hn, List.map_cons], hdigit _ hc.1 hc.2⟩
  | str h =>
    obtain ⟨hb⟩ := h
    exact ⟨_, _, rfl, rfl, by decide, by decide⟩
  | arr h => exact ⟨_, _, rfl, rfl, by decide, by decide⟩
  | obj h => exact ⟨_, _, rfl, rfl, by decide, by decide⟩

/-! ### No text has two values -/

/-- The text does not begin with white space. -/
def Solid (x : Text) : Prop := ∀ u ∈ x.head?, isSpace u = false

/-- The text begins with a unit that separates or closes. -/
def Stops (x : Text) : Prop := ∃ u r, x = u :: r ∧ stops u = true

/-- The units of a number. -/
def numberUnit (u : UInt16) : Bool := numberChar (Char.ofNat u.toNat)

/-- The text does not go on with a number. -/
def Ends (x : Text) : Prop := ∀ u ∈ x.head?, numberUnit u = false

/-- A unit that separates or closes is neither white space nor part of a number. -/
theorem of_stops {u : UInt16} (h : stops u = true) : isSpace u = false ∧ numberUnit u = false := by
  simp only [stops, Bool.or_eq_true, beq_iff_eq] at h
  rcases h with (rfl | rfl) | rfl
  · decide
  · decide
  · decide

theorem Stops.solid {x : Text} (h : Stops x) : Solid x := by
  obtain ⟨u, r, rfl, hu⟩ := h
  intro v hv
  obtain rfl := Option.some.inj hv
  exact (of_stops hu).1

/-- White space before a stop does not go on with a number. -/
theorem Stops.ends {w x : Text} (h : Stops x) (hw : Blank w) : Ends (w ++ x) := by
  intro u hu
  cases w with
  | nil =>
    obtain ⟨u', r, rfl, hu'⟩ := h
    obtain rfl := Option.some.inj hu
    exact (of_stops hu').2
  | cons v w =>
    obtain rfl := Option.some.inj hu
    have hspace := hw v List.mem_cons_self
    simp only [isSpace, Bool.or_eq_true, beq_iff_eq] at hspace
    rcases hspace with ((rfl | rfl) | rfl) | rfl
    · decide
    · decide
    · decide
    · decide

theorem dropWhile_blank {w x : Text} (hw : Blank w) (hx : Solid x) :
    (w ++ x).dropWhile isSpace = x := by
  rw [List.dropWhile_append_of_pos hw]
  cases x with
  | nil => rfl
  | cons u x => exact List.dropWhile_cons_of_neg (by simp [hx u rfl])

/-- White space before the same text leaves the same rest. -/
theorem Blank.cancel {w w' x x' : Text} (hw : Blank w) (hw' : Blank w') (hx : Solid x)
    (hx' : Solid x') (heq : w ++ x = w' ++ x') : x = x' := by
  rw [← dropWhile_blank hw hx, heq, dropWhile_blank hw' hx']

theorem ValueText.solid {v : Value} {t : Text} (h : ValueText v t) (r : Text) : Solid (t ++ r) := by
  obtain ⟨u, t', rfl, -, hu, -⟩ := h.eq_cons
  intro v hv
  obtain rfl := Option.some.inj hv
  exact hu

/-- An item is read in one way before a unit that separates or closes. -/
def ReadsOnce {α : Type} (P : α → Text → Prop) (a : α) : Prop :=
  ∀ ⦃a' : α⦄ ⦃t t' x x' : Text⦄, P a t → P a' t' → Stops x → Stops x' → t ++ x = t' ++ x' →
    a = a' ∧ x = x'

/-- No item is white space. -/
def NeverBlank {α : Type} (P : α → Text → Prop) : Prop :=
  ∀ ⦃a : α⦄ ⦃t w x y : Text⦄, P a t → Blank w → Stops y → w ++ y ≠ t ++ x

/-- **Lists are read in one way.** So are their items. -/
theorem ItemsText.unique {α : Type} {P : α → Text → Prop} (hblank : NeverBlank P) {close : UInt16}
    (hclose : stops close = true) (hcomma : close ≠ unit ',') {l l' : List α} {b b' r r' : Text}
    (hitems : ∀ a ∈ l, ReadsOnce P a) (h : ItemsText P l b) (h' : ItemsText P l' b')
    (heq : b ++ close :: r = b' ++ close :: r') : l = l' ∧ r = r' := by
  have hstop : ∀ y, Stops (close :: y) := fun y => ⟨close, y, rfl, hclose⟩
  have hmore : ∀ y, Stops (unit ',' :: y) := fun y => ⟨_, y, rfl, by decide⟩
  induction h generalizing l' b' with
  | none hw =>
    cases h' with
    | none hw' =>
      exact ⟨rfl, (List.cons.inj (hw.cancel hw' (hstop r).solid (hstop r').solid heq)).2⟩
    | one h' => exact absurd heq (hblank h' hw (hstop r))
    | more h' _ =>
      rw [List.append_assoc] at heq
      exact absurd heq (hblank h' hw (hstop r))
  | one h =>
    have hread := hitems _ List.mem_cons_self
    cases h' with
    | none hw' => exact absurd heq.symm (hblank h hw' (hstop r'))
    | one h' =>
      obtain ⟨rfl, hrest⟩ := hread h h' (hstop r) (hstop r') heq
      exact ⟨rfl, (List.cons.inj hrest).2⟩
    | more h' _ =>
      rw [List.append_assoc] at heq
      exact absurd (List.cons.inj (hread h h' (hstop r) (hmore _) heq).2).1 hcomma
  | more h _ ih =>
    have hread := hitems _ List.mem_cons_self
    rw [List.append_assoc] at heq
    cases h' with
    | none hw' => exact absurd heq.symm (hblank h hw' (hstop r'))
    | one h' =>
      exact absurd (List.cons.inj (hread h h' (hmore _) (hstop r') heq).2).1.symm hcomma
    | more h' hl' =>
      rw [List.append_assoc] at heq
      obtain ⟨rfl, hrest⟩ := hread h h' (hmore _) (hmore _) heq
      obtain ⟨hl, hr⟩ := ih (fun a ha => hitems a (List.mem_cons_of_mem _ ha)) hl'
        (List.cons.inj hrest).2
      exact ⟨by rw [hl], hr⟩

/-- A value is read in one way before anything that does not go on with a number. -/
def Value.ReadsOnce (v : Value) : Prop :=
  ∀ ⦃v' : Value⦄ ⦃t t' r r' : Text⦄, ValueText v t → ValueText v' t' → Ends r → Ends r' →
    t ++ r = t' ++ r' → v = v' ∧ r = r'

theorem PaddedText.readsOnce {v : Value} (hv : v.ReadsOnce) : ReadsOnce PaddedText v := by
  intro v' p p' x x' h h' hx hx' heq
  obtain ⟨hw, ht, hw₁⟩ := h
  obtain ⟨hw', ht', hw₁'⟩ := h'
  rw [List.append_assoc, List.append_assoc, List.append_assoc, List.append_assoc] at heq
  obtain ⟨rfl, hrest⟩ := hv ht ht' (hx.ends hw₁) (hx'.ends hw₁')
    (hw.cancel hw' (ht.solid _) (ht'.solid _) heq)
  exact ⟨rfl, hw₁.cancel hw₁' hx.solid hx'.solid hrest⟩

theorem PaddedText.neverBlank : NeverBlank PaddedText := by
  rintro v p w x y ⟨hw, ht, -⟩ hblank ⟨u, r, rfl, hu⟩ heq
  rw [List.append_assoc, List.append_assoc] at heq
  have hrest := hblank.cancel hw (Stops.solid ⟨u, r, rfl, hu⟩) (ht.solid _) heq
  obtain ⟨u', t', rfl, -, -, hu'⟩ := ht.eq_cons
  rw [(List.cons.inj hrest).1, hu'] at hu
  exact absurd hu Bool.false_ne_true

theorem StringText.solid {s n : Text} (h : StringText s n) (r : Text) : Solid (n ++ r) :=
  (ValueText.str h).solid r

theorem MemberText.readsOnce {e : Text × Value} (hv : e.2.ReadsOnce) : ReadsOnce MemberText e := by
  intro e' m m' x x' h h' hx hx' heq
  have hcolon : ∀ y : Text, Solid (unit ':' :: y) := fun y u hu => by
    rw [← Option.some.inj hu]
    decide
  obtain ⟨hw, hk, hw₁, hp⟩ := h
  obtain ⟨hw', hk', hw₁', hp'⟩ := h'
  simp only [List.append_assoc, List.cons_append] at heq
  obtain ⟨rfl, hafter⟩ := hk.unique hk' (hw.cancel hw' (hk.solid _) (hk'.solid _) heq)
  obtain ⟨rfl, hrest⟩ := PaddedText.readsOnce hv hp hp' hx hx'
    (List.cons.inj (hw₁.cancel hw₁' (hcolon _) (hcolon _) hafter)).2
  exact ⟨rfl, hrest⟩

theorem MemberText.neverBlank : NeverBlank MemberText := by
  rintro e m w x y ⟨hw, hk, -, -⟩ hblank ⟨u, r, rfl, hu⟩ heq
  simp only [List.append_assoc] at heq
  have hrest := hblank.cancel hw (Stops.solid ⟨u, r, rfl, hu⟩) (hk.solid _) heq
  obtain ⟨hb⟩ := hk
  rw [(List.cons.inj hrest).1] at hu
  exact absurd hu (by decide)

/-- A number is its units as far as they go. -/
theorem number_unique {n n' : Number} {r r' : Text} (hr : Ends r) (hr' : Ends r')
    (heq : n.text.map unit ++ r = n'.text.map unit ++ r') : n = n' ∧ r = r' := by
  have hsmall : ∀ {c : Char}, numberChar c = true → Char.ofNat (unit c).toNat = c := by
    intro c hc
    have hlt : c.toNat < 65536 := by
      simp only [numberChar, continuesNumber, Bool.or_eq_true, beq_iff_eq] at hc
      rcases hc with ((((hc | rfl) | rfl) | rfl) | rfl) | rfl
      · have hhigh : c.toNat ≤ '9'.toNat := (isDigit_iff.mp hc).2
        exact Nat.lt_of_le_of_lt hhigh (by decide)
      · decide
      · decide
      · decide
      · decide
      · decide
    rw [unit, UInt16.toNat_ofNat', Nat.mod_eq_of_lt hlt, Char.ofNat_toNat]
  have hunits : ∀ m : Number, ∀ u ∈ m.text.map unit, numberUnit u = true := by
    intro m u hu
    obtain ⟨c, hc, rfl⟩ := List.mem_map.mp hu
    have hchar := m.numberChar_of_mem hc
    rw [numberUnit, hsmall hchar]
    exact hchar
  have htake : ∀ (m : Number) (x : Text), Ends x →
      (m.text.map unit ++ x).takeWhile numberUnit = m.text.map unit := by
    intro m x hx
    rw [List.takeWhile_append_of_pos (hunits m)]
    cases x with
    | nil => rw [List.takeWhile_nil, List.append_nil]
    | cons u x => rw [List.takeWhile_cons_of_neg (by simp [hx u rfl]), List.append_nil]
  have hmap : n.text.map unit = n'.text.map unit := by
    rw [← htake n r hr, heq, htake n' r' hr']
  have hback : ∀ m : Number, (m.text.map unit).map (fun u => Char.ofNat u.toNat) = m.text := by
    intro m
    rw [List.map_map]
    conv_rhs => rw [← List.map_id m.text]
    exact List.map_congr_left fun c hc => hsmall (m.numberChar_of_mem hc)
  have htext : n.text = n'.text := by
    rw [← hback n, hmap, hback]
  refine ⟨?_, List.append_cancel_left (hmap ▸ heq)⟩
  cases n
  cases n'
  cases htext
  rfl

/-- Values with the same text before what follows are of one kind. -/
theorem kind_eq {v v' : Value} {t t' r r' : Text} (h : ValueText v t) (h' : ValueText v' t')
    (heq : t ++ r = t' ++ r') : v.kind = v'.kind := by
  obtain ⟨u, s, rfl, hu, -⟩ := h.eq_cons
  obtain ⟨u', s', rfl, hu', -⟩ := h'.eq_cons
  rw [← hu, ← hu', (List.cons.inj heq).1]

/-- **The grammar is unambiguous.** Every value is read in one way. -/
theorem Value.readsOnce (v : Value) : v.ReadsOnce := by
  induction v using Value.inductionOn with
  -- two texts with one continuation start alike, so that their values are of one kind
  | null =>
    intro v' t t' r r' h h' _ _ heq
    have hkind := kind_eq h h' heq
    cases h
    cases h' with
    | nullWord => exact ⟨rfl, List.append_cancel_left heq⟩
    | _ => simp [Value.kind] at hkind
  | bool b =>
    intro v' t t' r r' h h' _ _ heq
    have hkind := kind_eq h h' heq
    cases h with
    | trueWord =>
      cases h' with
      | trueWord => exact ⟨rfl, List.append_cancel_left heq⟩
      | _ => simp [Value.kind] at hkind
    | falseWord =>
      cases h' with
      | falseWord => exact ⟨rfl, List.append_cancel_left heq⟩
      | _ => simp [Value.kind] at hkind
  | num n =>
    intro v' t t' r r' h h' hr hr' heq
    have hkind := kind_eq h h' heq
    cases h
    cases h' with
    | num n' =>
      obtain ⟨rfl, hrest⟩ := number_unique hr hr' heq
      exact ⟨rfl, hrest⟩
    | _ => simp [Value.kind] at hkind
  | str s =>
    intro v' t t' r r' h h' _ _ heq
    have hkind := kind_eq h h' heq
    cases h with
    | str h =>
      cases h' with
      | str h' =>
        obtain ⟨rfl, hrest⟩ := h.unique h' heq
        exact ⟨rfl, hrest⟩
      | _ => simp [Value.kind] at hkind
  | arr l ih =>
    intro v' t t' r r' h h' _ _ heq
    have hkind := kind_eq h h' heq
    cases h with
    | arr h =>
      cases h' with
      | arr h' =>
        rw [List.cons_append, List.cons_append, List.append_assoc, List.append_assoc] at heq
        obtain ⟨rfl, hrest⟩ := h.unique PaddedText.neverBlank (by decide) (by decide)
          (fun x hx => PaddedText.readsOnce (ih x hx)) h' (List.cons.inj heq).2
        exact ⟨rfl, hrest⟩
      | _ => simp [Value.kind] at hkind
  | obj l ih =>
    intro v' t t' r r' h h' _ _ heq
    have hkind := kind_eq h h' heq
    cases h with
    | obj h =>
      cases h' with
      | obj h' =>
        rw [List.cons_append, List.cons_append, List.append_assoc, List.append_assoc] at heq
        obtain ⟨rfl, hrest⟩ := h.unique MemberText.neverBlank (by decide) (by decide)
          (fun e he => MemberText.readsOnce (ih e he)) h' (List.cons.inj heq).2
        exact ⟨rfl, hrest⟩
      | _ => simp [Value.kind] at hkind

/-- No text is that of two values. -/
theorem paddedText_unique {v v' : Value} {t : Text} (h : PaddedText v t) (h' : PaddedText v' t) :
    v = v' :=
  have hstop : Stops [unit ','] := ⟨_, [], rfl, by decide⟩
  (PaddedText.readsOnce v.readsOnce h h' hstop hstop rfl).1

end Foundations.Units
