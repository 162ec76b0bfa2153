import Argus.Foundations.Json
import Mathlib.Algebra.BigOperators.Group.List.Lemmas

/-!
# Sizes of JSON texts

How many bytes of UTF-8 a style needs to write a value, from the value itself: `textBytes_render`.
The size of a string is a sum over its characters, which `Escape.cost` counts as the style writes
them.
-/

namespace Foundations

/-- The bytes of a text in UTF-8. -/
def textBytes (cs : List Char) : ℕ := (cs.map Char.utf8Size).sum

@[simp] theorem textBytes_nil : textBytes [] = 0 := rfl

@[simp] theorem textBytes_cons (c : Char) (cs : List Char) :
    textBytes (c :: cs) = c.utf8Size + textBytes cs := by
  rw [textBytes, List.map_cons, List.sum_cons, textBytes]

@[simp] theorem textBytes_append (cs ds : List Char) :
    textBytes (cs ++ ds) = textBytes cs + textBytes ds := by
  rw [textBytes, List.map_append, List.sum_append, textBytes, textBytes]

theorem textBytes_flatMap {α : Type} (f : α → List Char) (l : List α) :
    textBytes (l.flatMap f) = (l.map fun x => textBytes (f x)).sum := by
  induction l with
  | nil => rfl
  | cons x l ih => rw [List.flatMap_cons, textBytes_append, ih, List.map_cons, List.sum_cons]

namespace Escape

/-- The bytes that a style needs for a character. -/
def cost (E : Escape) (c : Char) : ℕ := textBytes (E.write c)

/-- The bytes that a style needs for a string, with its quotation marks. -/
def quoteSize (E : Escape) (s : String) : ℕ := (s.toList.map E.cost).sum + 2

theorem textBytes_quote (E : Escape) (s : String) : textBytes (E.quote s) = E.quoteSize s := by
  have hmark : ('"' : Char).utf8Size = 1 := rfl
  rw [quote, textBytes_cons, textBytes_append, textBytes_flatMap, textBytes_cons, textBytes_nil,
    hmark, quoteSize, Nat.add_comm]
  rfl

end Escape

namespace Json

mutual

/-- The bytes that a style needs for a value. -/
def size (E : Escape) : Json → ℕ
  | null => 4
  | bool true => 4
  | bool false => 5
  | num n => textBytes n.text
  | str s => E.quoteSize s
  | arr [] => 2
  | arr (x :: l) => size E x + sizeElements E l + 2
  | obj [] => 2
  | obj ((k, x) :: l) => E.quoteSize k + 1 + size E x + sizeMembers E l + 2

/-- The bytes of the elements after the first, with their commas. -/
def sizeElements (E : Escape) : List Json → ℕ
  | [] => 0
  | x :: l => 1 + size E x + sizeElements E l

/-- The bytes of the members after the first, with their commas. -/
def sizeMembers (E : Escape) : List (String × Json) → ℕ
  | [] => 0
  | (k, x) :: l => 1 + E.quoteSize k + 1 + size E x + sizeMembers E l

end

section

variable (E : Escape)

mutual

/-- **Key result.** The size of what is written for a value. -/
theorem textBytes_render : ∀ v : Json, textBytes (v.render E) = v.size E
  | null => rfl
  | bool true => rfl
  | bool false => rfl
  | num _ => rfl
  | str s => E.textBytes_quote s
  | arr [] => rfl
  | arr (x :: l) => by
    have hopen : ('[' : Char).utf8Size = 1 := rfl
    have hclose : (']' : Char).utf8Size = 1 := rfl
    rw [render, size, textBytes_cons, textBytes_append, textBytes_append, textBytes_render x,
      textBytes_renderElements l, textBytes_cons, textBytes_nil, hopen, hclose]
    omega
  | obj [] => rfl
  | obj ((k, x) :: l) => by
    have hopen : ('\x7b' : Char).utf8Size = 1 := rfl
    have hcolon : (':' : Char).utf8Size = 1 := rfl
    have hclose : ('\x7d' : Char).utf8Size = 1 := rfl
    rw [render, size, textBytes_cons, textBytes_append, textBytes_cons, textBytes_append,
      textBytes_append, E.textBytes_quote, textBytes_render x, textBytes_renderMembers l,
      textBytes_cons, textBytes_nil, hopen, hcolon, hclose]
    omega

theorem textBytes_renderElements : ∀ l : List Json,
    textBytes (renderElements E l) = sizeElements E l
  | [] => rfl
  | x :: l => by
    have hcomma : (',' : Char).utf8Size = 1 := rfl
    rw [renderElements, sizeElements, textBytes_cons, textBytes_append, textBytes_render x,
      textBytes_renderElements l, hcomma, Nat.add_assoc]

theorem textBytes_renderMembers : ∀ l : List (String × Json),
    textBytes (renderMembers E l) = sizeMembers E l
  | [] => rfl
  | (k, x) :: l => by
    have hcomma : (',' : Char).utf8Size = 1 := rfl
    have hcolon : (':' : Char).utf8Size = 1 := rfl
    rw [renderMembers, sizeMembers, textBytes_cons, textBytes_append, textBytes_cons,
      textBytes_append, E.textBytes_quote, textBytes_render x, textBytes_renderMembers l, hcomma,
      hcolon]
    omega

end

end

theorem sizeElements_eq (E : Escape) (l : List Json) :
    sizeElements E l = (l.map fun x => 1 + x.size E).sum := by
  induction l with
  | nil => rfl
  | cons x l ih => rw [sizeElements, ih, List.map_cons, List.sum_cons]

/-- An array with an element needs a bracket or a comma for each, and one more bracket. -/
theorem size_arr {l : List Json} (h : l ≠ []) (E : Escape) :
    (arr l).size E = (l.map fun x => 1 + x.size E).sum + 1 := by
  obtain ⟨x, l, rfl⟩ := List.exists_cons_of_ne_nil h
  rw [size, sizeElements_eq, List.map_cons, List.sum_cons]
  omega

theorem sizeMembers_eq (E : Escape) (l : List (String × Json)) :
    sizeMembers E l = (l.map fun e => E.quoteSize e.1 + e.2.size E + 2).sum := by
  induction l with
  | nil => rfl
  | cons e l ih =>
    rw [sizeMembers, ih, List.map_cons, List.sum_cons]
    omega

/-- An object with a member needs a brace or a comma and a colon for each, and one more brace. -/
theorem size_obj {l : List (String × Json)} (h : l ≠ []) (E : Escape) :
    (obj l).size E = (l.map fun e => E.quoteSize e.1 + e.2.size E + 2).sum + 1 := by
  obtain ⟨⟨k, x⟩, l, rfl⟩ := List.exists_cons_of_ne_nil h
  rw [size, sizeMembers_eq, List.map_cons, List.sum_cons]
  dsimp only
  omega

end Json

end Foundations
