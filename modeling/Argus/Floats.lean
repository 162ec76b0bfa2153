import Argus.Foundations.Rounding
import Argus.Unmarshal
import Argus.Logs

/-!
# Numbers as Go reads them

`strconv.ParseFloat` of the decimal texts that the hub meets, and decoding into an interface,
where every number becomes a `float64` and one out of its range is an error.
-/

namespace Argus

open Foundations

/-- IEEE double precision. -/
def doubleFormat : Format := ⟨53, -1074, 1024⟩

/-- `float64` of a number. -/
def float64 (x : Extended) : Extended := doubleFormat.round x

/-- `x / q`, for a `float64` larger than zero. -/
def overFloat (x : Extended) (q : ℚ) : Extended :=
  match x with
  | .finite p => float64 (.finite (p / q))
  | .infinite negative => .infinite negative

/-- `x * q`, for a `float64` larger than zero. -/
def timesFloat (x : Extended) (q : ℚ) : Extended :=
  match x with
  | .finite p => float64 (.finite (p * q))
  | .infinite negative => .infinite negative

/-- Addition of two `float64`, none where it is not a number. -/
def addFloat : Extended → Extended → Option Extended
  | .finite x, .finite y => some (float64 (.finite (x + y)))
  | .infinite negative, .finite _ => some (.infinite negative)
  | .finite _, .infinite negative => some (.infinite negative)
  | .infinite negative, .infinite negative' =>
    if negative = negative' then some (.infinite negative) else none

/-- `float64(n) / float64(d)`. -/
def divFloat (n : Extended) (d : ℤ) : Extended :=
  match n, float64 (.finite d) with
  | .finite x, .finite y => float64 (.finite (x / y))
  | .finite _, .infinite _ => .finite 0
  | .infinite negative, _ => .infinite negative

/-- `x > y` for two `float64`. -/
def greater : Extended → Extended → Bool
  | .finite x, .finite y => decide (y < x)
  | .infinite negative, .finite _ => !negative
  | .finite _, .infinite negative => negative
  | .infinite negative, .infinite negative' => !negative && negative'

/-- A number is larger than zero. -/
def Extended.positive : Extended → Bool
  | .finite q => 0 < q
  | .infinite negative => !negative

/-- The value of the digits of an exponent, with their sign. -/
def exponentValue : List Char → ℤ
  | '-' :: ds => -decimal ds
  | '+' :: ds => decimal ds
  | ds => decimal ds

/-- The value of a decimal text: a sign, digits, a fraction and an exponent. -/
def decimalValue (text : List Char) : ℚ :=
  let ds := text.dropWhile (· == '-')
  let whole := ds.takeWhile Char.isDigit
  let after := ds.dropWhile Char.isDigit
  let fraction := if after.head? = some '.' then after.tail.takeWhile Char.isDigit else []
  let exponent := if after.head? = some '.' then after.tail.dropWhile Char.isDigit else after
  let magnitude : ℚ := decimal (whole ++ fraction) *
    (10 : ℚ) ^ (exponentValue exponent.tail - fraction.length)
  if text.head? = some '-' then -magnitude else magnitude

/-- `strconv.ParseFloat`: the nearest `float64`, or an infinity, which is an error as well. -/
def parseFloat (text : List Char) : Extended := float64 (.finite (decimalValue text))

mutual

/-- Decode into an interface. -/
def Any.ofJson : Json → Option Any
  | .null => some .null
  | .bool b => some (.bool b)
  | .num n =>
    match parseFloat n.text with
    | .finite q => some (.num (.finite q))
    | .infinite _ => none
  | .str s => some (.str s)
  | .arr l => (Any.ofElements l).map .arr
  | .obj l => (Any.ofMembers l).map fun m => .obj (SortedMap.ofList m).entries

/-- Decode the elements of an array. -/
def Any.ofElements : List Json → Option (List Any)
  | [] => some []
  | v :: l => do
    let x ← Any.ofJson v
    let xs ← Any.ofElements l
    some (x :: xs)

/-- Decode the members of an object. -/
def Any.ofMembers : List (String × Json) → Option (List (String × Any))
  | [] => some []
  | (k, v) :: l => do
    let x ← Any.ofJson v
    let xs ← Any.ofMembers l
    some ((k, x) :: xs)

end

/-- `json.Unmarshal` into a `map[string]any`. -/
def unmarshalFields (text : String) : Option Fields :=
  match Json.parse text.toList with
  | some (.obj l) => (Any.ofMembers l).map SortedMap.ofList
  | some .null => some ∅
  | _ => none

end Argus
