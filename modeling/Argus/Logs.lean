import Argus.Foundations.Rounding
import Argus.Labels
import Argus.Time

/-!
# Log entries and events

`model.LogEntry` and `model.Event`, whose `Fields` and `Payload` are a `map[string]any`: what
`json.Unmarshal` decodes into an interface, and what the hub puts there.
-/

namespace Argus

open Foundations

/-- A value of type `any` in a field: a decoded JSON value, or one that the hub sets. -/
inductive Any
  | null
  | bool (b : Bool)
  | num (x : Extended)
  | str (s : String)
  | arr (elements : List Any)
  | obj (members : List (String × Any))

/-- `map[string]any`. A nil map is the empty one. -/
abbrev Fields : Type := SortedMap String Any

/-- `model.LogEntry`. -/
structure LogEntry where
  ts : Time
  message : String
  level : String
  entityUID : String
  labels : Labels
  fields : Fields

/-- `model.Event`. -/
structure Model.Event where
  id : String
  type : String
  ts : Time
  severity : String
  source : String
  entityUID : String
  labels : Labels
  payload : Fields

end Argus
