import Argus.Floats

/-!
# The JSON text of fields

`json.Marshal` of a `map[string]any`, with its keys in order. How a `float64` is written is a
parameter; an infinity cannot be written, and then there is no text.
-/

namespace Argus

open Foundations

mutual

/-- What `json.Marshal` writes for a value. -/
def Any.toJson (number : ℚ → Number) : Any → Option Json
  | .null => some .null
  | .bool b => some (.bool b)
  | .num (.finite q) => some (.num (number q))
  | .num (.infinite _) => none
  | .str s => some (.str s)
  | .arr l => (Any.toElements number l).map .arr
  | .obj l => (Any.toMembers number l).map .obj

/-- What `json.Marshal` writes for the elements of a slice. -/
def Any.toElements (number : ℚ → Number) : List Any → Option (List Json)
  | [] => some []
  | x :: l => do
    let v ← Any.toJson number x
    let vs ← Any.toElements number l
    some (v :: vs)

/-- What `json.Marshal` writes for the entries of a map. -/
def Any.toMembers (number : ℚ → Number) : List (String × Any) → Option (List (String × Json))
  | [] => some []
  | (k, x) :: l => do
    let v ← Any.toJson number x
    let vs ← Any.toMembers number l
    some ((k, v) :: vs)

end

/-- `json.Marshal(fields)`. -/
def Fields.marshal (number : ℚ → Number) (fields : Fields) : Option String :=
  (Any.toMembers number fields.entries).map fun l =>
    String.ofList ((Json.obj l).render goEscape)

end Argus
