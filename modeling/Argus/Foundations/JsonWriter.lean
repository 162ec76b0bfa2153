import Argus.Foundations.JsonGrammar

/-!
# Writing JSON in code units

A `Writer` is a choice of texts for the units of a string. What it writes for a value, without white
space, is a text of the value by the grammar (`render_valueText`), and so of no other.
-/

namespace Foundations.Units

/-- How a writer writes the units of a string. -/
structure Writer where
  write : UInt16 → Text
  derives : ∀ c, CharText c (write c)

/-- A string between quotation marks. -/
def Writer.quote (W : Writer) (s : Text) : Text := unit '"' :: (s.flatMap W.write ++ [unit '"'])

theorem Writer.bodyText (W : Writer) (s : Text) : BodyText s (s.flatMap W.write) := by
  induction s with
  | nil => exact .nil
  | cons c s ih => exact .cons (W.derives c) ih

theorem Writer.quote_stringText (W : Writer) (s : Text) : StringText s (W.quote s) :=
  .quoted (W.bodyText s)

/-- Texts with a comma between any two. -/
def separated : List Text → Text
  | [] => []
  | t :: ts => t ++ ts.flatMap fun t => unit ',' :: t

theorem separated_cons (t : Text) (ts : List Text) :
    separated (t :: ts) = t ++ ts.flatMap fun t => unit ',' :: t := rfl

mutual

/-- The text of a value, without white space. -/
def render (W : Writer) : Value → Text
  | .null => units "null"
  | .bool true => units "true"
  | .bool false => units "false"
  | .num n => n.text.map unit
  | .str s => W.quote s
  | .arr l => unit '[' :: (separated (renderElements W l) ++ [unit ']'])
  | .obj l => unit '{' :: (separated (renderMembers W l) ++ [unit '}'])

/-- The texts of elements. -/
def renderElements (W : Writer) : List Value → List Text
  | [] => []
  | v :: l => render W v :: renderElements W l

/-- The texts of members. -/
def renderMembers (W : Writer) : List (Text × Value) → List Text
  | [] => []
  | (k, v) :: l => (W.quote k ++ unit ':' :: render W v) :: renderMembers W l

end

theorem renderElements_eq (W : Writer) (l : List Value) :
    renderElements W l = l.map (render W) := by
  induction l with
  | nil => rw [renderElements, List.map_nil]
  | cons v l ih => rw [renderElements, ih, List.map_cons]

/-- Items with a text each are a list with a text. -/
theorem itemsText_separated {α : Type} {P : α → Text → Prop} {l : List α} {ts : List Text}
    (h : List.Forall₂ P l ts) : ItemsText P l (separated ts) := by
  induction h with
  | nil => exact .none fun u hu => absurd hu List.not_mem_nil
  | cons ha hl ih =>
    cases hl with
    | nil =>
      rw [separated, List.flatMap_nil, List.append_nil]
      exact .one ha
    | cons ha' hl' => exact .more ha ih

theorem ValueText.padded {v : Value} {t : Text} (h : ValueText v t) : PaddedText v t := by
  have hblank : Blank [] := fun u hu => absurd hu List.not_mem_nil
  have hpad := PaddedText.padded hblank h hblank
  rwa [List.append_nil, List.nil_append] at hpad

/-- **Key result.** What is written for a value is a text of it. -/
theorem render_valueText (W : Writer) (v : Value) : ValueText v (render W v) := by
  have hblank : Blank [] := fun u hu => absurd hu List.not_mem_nil
  induction v using Value.inductionOn with
  | null =>
    rw [render]
    exact .nullWord
  | bool b =>
    cases b with
    | true =>
      rw [render]
      exact .trueWord
    | false =>
      rw [render]
      exact .falseWord
  | num n =>
    rw [render]
    exact .num n
  | str s =>
    rw [render]
    exact .str (W.quote_stringText s)
  | arr l ih =>
    rw [render]
    refine .arr (itemsText_separated ?_)
    induction l with
    | nil =>
      rw [renderElements]
      exact .nil
    | cons v l ihl =>
      obtain ⟨hv, hl⟩ := List.forall_mem_cons.mp ih
      rw [renderElements]
      exact .cons hv.padded (ihl hl)
  | obj l ih =>
    rw [render]
    refine .obj (itemsText_separated ?_)
    induction l with
    | nil =>
      rw [renderMembers]
      exact .nil
    | cons e l ihl =>
      obtain ⟨he, hl⟩ := List.forall_mem_cons.mp ih
      rw [renderMembers]
      exact .cons (.member hblank (W.quote_stringText e.1) hblank he.padded) (ihl hl)

/-- Of one value only. -/
theorem paddedText_render_iff (W : Writer) {v v' : Value} :
    PaddedText v' (render W v) ↔ v' = v := by
  constructor
  · exact fun h => paddedText_unique h (render_valueText W v).padded
  · rintro rfl
    exact (render_valueText W v').padded

end Foundations.Units
