import Argus.Fields
import Argus.Foundations.Like
import Argus.Foundations.Ranking
import Argus.Insights.TraceQuery
import Argus.Store.Columns
import Argus.Store.Windows

/-!
# Searching logs and events

`SearchLogs` and `ListEvents` select the rows of a window that meet a filter, newest first by the
text of the timestamp, and return one page of them; `CountLogs` and `CountEvents` count them. Rows
with one timestamp come in any order, another one with every query. A query fails on an argument
that is no text for the store, and may fail on the pattern of a container that ends in a backslash.
-/

namespace Argus

open Foundations

/-! ### Logs -/

/-- A row of `log_entries`. -/
structure LogRow where
  ts : Time
  message : String
  level : String
  entityUID : String
  labelsJSON : String
  fieldsJSON : String

/-- The loop body of `SearchLogs`: a `model.LogEntry`, with what cannot be decoded left empty. -/
def LogRow.scan (r : LogRow) : LogEntry where
  ts := r.ts
  message := r.message
  level := r.level
  entityUID := r.entityUID
  labels := Labels.unmarshal r.labelsJSON
  fields := (unmarshalFields r.fieldsJSON).getD ∅

/-- The row of `insertLogs`, where the fields can be written. -/
def LogEntry.row (number : ℚ → Number) (e : LogEntry) : Option LogRow :=
  (Fields.marshal number e.fields).map fun fieldsJSON =>
    { ts := e.ts, message := e.message, level := e.level, entityUID := e.entityUID,
      labelsJSON := e.labels.marshal, fieldsJSON := fieldsJSON }

/-- `model.LogSearchFilter`, without the page. -/
structure LogSearchFilter where
  query : String
  entityUID : String
  container : String
  containers : List String
  level : String
  topic : String
  traceID : String
  since : Time
  until_ : Time

/-- `text ILIKE pattern`. -/
def ilike (rt : Runtime) (pattern text : String) : Bool :=
  like (rt.toLower pattern) (rt.toLower text)

/-- The pattern of the fields that list a topic. -/
def topicPattern (topic : String) : String := "%\"topics\":%\"" ++ topic ++ "\"%"

/-- The texts among the arguments of `logWhere`, where all are texts. -/
def logArgs (rt : Runtime) (filter : LogSearchFilter) : Option (List String) := do
  let patterns ← TraceSearchPatterns rt filter.traceID
  some ([filter.since.format, filter.until_.format, filter.query, filter.entityUID,
    filter.container, filter.level, filter.topic] ++ patterns ++ filter.containers)

/-- The `TraceID` part of `logWhere`: some pattern is found in the fields or in the message. -/
def traceWhere (rt : Runtime) (traceID : String) (r : LogRow) : Bool :=
  match TraceSearchPatterns rt traceID with
  | some [] => true
  | some patterns => patterns.any fun p => like p r.fieldsJSON || like p r.message
  | none => false

/-- `logWhere`. -/
def logWhere (rt : Runtime) (filter : LogSearchFilter) (r : LogRow) : Bool :=
  inWindow filter.since filter.until_ r.ts &&
    (filter.query == "" || ilike rt ("%" ++ filter.query ++ "%") r.message) &&
    (filter.entityUID == "" || r.entityUID == filter.entityUID) &&
    (filter.container == "" || like ("%:" ++ filter.container) r.entityUID) &&
    (filter.level == "" || filter.level == "all" || r.level == filter.level) &&
    (filter.topic == "" || filter.topic == "all" ||
      like (topicPattern filter.topic) r.fieldsJSON) &&
    (filter.traceID == "" || traceWhere rt filter.traceID r) &&
    (filter.containers.isEmpty || filter.containers.any fun c => like ("%:" ++ c) r.entityUID)

/-- Whether the store takes the arguments of a search. -/
def logArgsValid (rt : Runtime) (filter : LogSearchFilter) : Bool :=
  (logArgs rt filter).any validTexts

/-- Whether the pattern of a container is an error for a row. The other patterns end in `%`. -/
def containerFails (filter : LogSearchFilter) (r : LogRow) : Bool :=
  (filter.container != "" && likeFails ("%:" ++ filter.container) r.entityUID) ||
    filter.containers.any fun c => likeFails ("%:" ++ c) r.entityUID

/-- The possible results of a statement with the conditions of `logWhere`. Where a pattern is an
error for some row, the store gets to it or decides that row by another condition. -/
def LogQuery {α : Type} (rt : Runtime) (table : List LogRow) (filter : LogSearchFilter)
    (answer : α → Prop) (out : Option α) : Prop :=
  if logArgsValid rt filter then
    (∃ a, answer a ∧ out = some a) ∨ table.any (containerFails filter) ∧ out = none
  else out = none

/-- The possible results of `CountLogs`. -/
def CountLogs (rt : Runtime) (table : List LogRow) (filter : LogSearchFilter) (out : Option ℕ) :
    Prop :=
  LogQuery rt table filter (fun total => total = table.countP (logWhere rt filter)) out

/-- `ORDER BY ts DESC LIMIT limit OFFSET offset`. -/
def NewestPage {ρ : Type} (ts : ρ → Time) (rows : List ρ) (limit offset : ℕ) (out : List ρ) :
    Prop :=
  ∃ sorted, Ranked (fun r => (ts r).format) rows sorted ∧ out = (sorted.drop offset).take limit

/-- The possible results of `SearchLogs`, for a limit that is not zero. -/
def SearchLogs (rt : Runtime) (table : List LogRow) (filter : LogSearchFilter) (limit offset : ℕ)
    (out : Option (List LogEntry)) : Prop :=
  LogQuery rt table filter (fun entries => ∃ rows,
    NewestPage LogRow.ts (table.filter (logWhere rt filter)) limit offset rows ∧
      entries = rows.map LogRow.scan) out

section LogQuery

variable {α : Type} {rt : Runtime} {table : List LogRow} {filter : LogSearchFilter}
  {answer : α → Prop}

/-- What is answered was computed, from arguments that the store takes. -/
theorem LogQuery.of_some {a : α} (h : LogQuery rt table filter answer (some a)) :
    logArgsValid rt filter = true ∧ answer a := by
  rw [LogQuery] at h
  split_ifs at h with hvalid
  obtain ⟨b, hb, heq⟩ := h.resolve_right fun hfails => hfails.2
  exact ⟨hvalid, Option.some.inj heq ▸ hb⟩

/-- What can be computed may be answered. -/
theorem LogQuery.answered (hvalid : logArgsValid rt filter = true) {a : α} (ha : answer a) :
    LogQuery rt table filter answer (some a) := by
  rw [LogQuery, if_pos hvalid]
  exact .inl ⟨a, ha, rfl⟩

/-- Where no pattern is an error, valid arguments are answered. -/
theorem LogQuery.not_none (hvalid : logArgsValid rt filter = true)
    (hpatterns : ∀ r ∈ table, containerFails filter r = false) :
    ¬ LogQuery rt table filter answer none := by
  rw [LogQuery, if_pos hvalid]
  rintro (⟨a, -, heq⟩ | ⟨hany, -⟩)
  · exact absurd heq.symm (Option.some_ne_none a)
  · obtain ⟨r, hr, hfails⟩ := List.any_eq_true.mp hany
    exact absurd hfails (by rw [hpatterns r hr]; decide)

end LogQuery

/-! ### Events -/

/-- A row of `events`. -/
structure EventRow where
  id : String
  type : String
  ts : Time
  severity : String
  source : String
  entityUID : String
  labelsJSON : String
  payloadJSON : String

/-- The loop body of `scanEvents`, with what cannot be decoded left empty. -/
def EventRow.scan (r : EventRow) : Model.Event where
  id := r.id
  type := r.type
  ts := r.ts
  severity := r.severity
  source := r.source
  entityUID := r.entityUID
  labels := Labels.unmarshal r.labelsJSON
  payload := (unmarshalFields r.payloadJSON).getD ∅

/-- The filter of `ListEvents`. -/
structure EventFilter where
  entityUID : String
  since : Time
  until_ : Time

/-- `eventWhere`. -/
def eventWhere (filter : EventFilter) (r : EventRow) : Bool :=
  inWindow filter.since filter.until_ r.ts &&
    (filter.entityUID == "" || r.entityUID == filter.entityUID)

/-- `CountEvents`. -/
def CountEvents (table : List EventRow) (filter : EventFilter) : Option ℕ :=
  if validText filter.entityUID then some (table.countP (eventWhere filter)) else none

/-- The possible results of `ListEvents`, for a limit that is not zero. -/
def ListEvents (table : List EventRow) (filter : EventFilter) (limit offset : ℕ)
    (out : Option (List Model.Event)) : Prop :=
  if validText filter.entityUID then
    ∃ rows, NewestPage EventRow.ts (table.filter (eventWhere filter)) limit offset rows ∧
      out = some (rows.map EventRow.scan)
  else out = none

end Argus
