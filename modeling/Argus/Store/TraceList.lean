import Argus.Insights.Http
import Argus.Store.Logs
import Argus.Store.Traces

/-!
# The list of traces

`ListTraces` reads at most 5000 spans and 5000 log rows of a window, newest first, groups them by
`traceKey` and returns one page of the groups, sorted by their start. Rows of one timestamp, and
groups of one start, come in any order, another one with every request. When nothing is cut off,
the groups and their starts do not depend on these orders (`scanned_core`).
-/

namespace Argus

open Foundations SortedMap

/-! ### Summaries -/

/-- Where a trace was read. -/
inductive TraceSource
  | otlp
  | logs
  deriving DecidableEq

/-- `model.TraceSummary`. -/
structure TraceSummary where
  traceID : String
  source : TraceSource
  service : String
  container : String
  name : String
  startTS : Time
  endTS : Time
  durationMs : Extended
  spanCount : ℕ
  error : Bool

/-- What `ListTraces` keeps under a key: its entries in `byKey`, `services` and `hasRoot`. -/
structure TraceGroup where
  summary : TraceSummary
  services : List String
  hasRoot : Bool

/-- A new group. -/
def TraceGroup.new (traceID : String) (source : TraceSource) (start end_ : Time) : TraceGroup :=
  ⟨⟨traceID, source, "", "", "", start, end_, .finite 0, 0, false⟩, [], false⟩

/-- `addService`. -/
def addService (services : List String) (svc : String) : List String :=
  if svc = "" ∨ svc ∈ services then services else services ++ [svc]

/-- The times of a summary, a row more. -/
def TraceSummary.extend (s : TraceSummary) (start end_ : Time) : TraceSummary :=
  { s with
    spanCount := s.spanCount + 1
    startTS := if start < s.startTS then start else s.startTS
    endTS := if s.endTS < end_ then end_ else s.endTS }

/-- A span of a group. -/
def TraceGroup.addSpan (g : TraceGroup) (r : SpanRow) : TraceGroup :=
  let s := g.summary.extend r.startTS r.endTS
  let s := if r.status = "error" then { s with error := true } else s
  let named := { s with name := r.name, service := r.service, container := r.container }
  let services := addService (addService g.services r.service)
    (inferServiceFromContainer r.container)
  if g.hasRoot then ⟨s, services, true⟩ else ⟨named, services, r.parentSpanID == ""⟩

/-- One round of the loop over spans. -/
def addSpan (rt : Runtime) (byKey : SortedMap String TraceGroup) (r : SpanRow) :
    SortedMap String TraceGroup :=
  let key := traceKey rt r.traceID
  let g := (byKey.get? key).getD (.new r.traceID .otlp r.startTS r.endTS)
  byKey.insert key (g.addSpan r)

/-- `truncateRunes`. -/
def truncateRunes (s : String) (n : ℕ) : String := String.ofList (s.toList.take n)

/-- The name of a JSON event: its first text under one of some keys, with the method before a
route. -/
def eventName (obj : Fields) : Option String :=
  let text (k : String) : String := match obj.get? k with
    | some (.str s) => s
    | _ => ""
  (["route", "path", "url", "name", "msg", "message", "event"].find? fun k => text k ≠ "").map
    fun k => if text "method" ≠ "" ∧ k ∈ ["route", "path", "url"] then
      text "method" ++ " " ++ text k else text k

/-- `logTraceName`. -/
def logTraceName (message : String) : String :=
  let msg := trimSpace message
  let name := if hasPrefix msg "\x7b" then (unmarshalFields msg).bind eventName else none
  truncateRunes (name.getD msg) 80

/-- `containerFromEntityUID`: what is after the last colon. -/
def containerFromEntityUID (entityUID : String) : String :=
  String.ofList (entityUID.toList.reverse.takeWhile (· != ':')).reverse

/-- The service of a log row. -/
def logService (r : LogRow) : String :=
  let service := (Labels.unmarshal r.labelsJSON).get "service"
  if service = "" then inferServiceFromContainer (containerFromEntityUID r.entityUID) else service

/-- A log row of a group. The rows come newest first, so the last name is that of the earliest. -/
def TraceGroup.addLog (rt : Runtime) (g : TraceGroup) (r : LogRow) : TraceGroup :=
  let s := g.summary.extend r.ts r.ts
  let s :=
    if rt.toLower r.level ∈ ["error", "fatal", "critical"] then { s with error := true } else s
  { g with
    summary := { s with
      name := logTraceName r.message
      service := logService r
      container := containerFromEntityUID r.entityUID }
    services := addService g.services (logService r) }

/-- One round of the loop over log rows, with the id that the query computes for each:
`COALESCE(fields_json::json->>'trace_id', fields_json::json->>'traceId', '')`. -/
def addLog (rt : Runtime) (sqlTraceID : LogRow → String) (byKey : SortedMap String TraceGroup)
    (r : LogRow) : SortedMap String TraceGroup :=
  let key := traceKey rt (sqlTraceID r)
  let g := (byKey.get? key).getD (.new (sqlTraceID r) .logs r.ts r.ts)
  if key = "" then byKey
  else if g.summary.source = .otlp then byKey
  else byKey.insert key (g.addLog rt r)

/-! ### Pages of the list -/

/-- `model.TraceListFilter`, without the page. -/
structure TraceListFilter where
  since : Time
  until_ : Time
  service : String

/-- `model.TracePage`. -/
structure TracePage where
  traces : List TraceSummary
  total : ℕ
  truncated : Bool

/-- `traceListScanLimit`. -/
def traceListScanLimit : ℕ := 5000

/-- The spans of the window. -/
def windowSpans (spans : List SpanRow) (filter : TraceListFilter) : List SpanRow :=
  spans.filter fun r => inWindow filter.since filter.until_ r.startTS

/-- The log rows of the window whose fields look as if they had a trace id. -/
def windowLogs (logs : List LogRow) (filter : TraceListFilter) : List LogRow :=
  logs.filter fun r => inWindow filter.since filter.until_ r.ts &&
    (like "%\"trace_id\"%" r.fieldsJSON || like "%\"traceId\"%" r.fieldsJSON)

/-- `byKey`, after both loops. -/
def scanned (rt : Runtime) (sqlTraceID : LogRow → String) (spanRows : List SpanRow)
    (logRows : List LogRow) : SortedMap String TraceGroup :=
  logRows.foldl (addLog rt sqlTraceID) (spanRows.foldl (addSpan rt) ∅)

/-- The filter of the last loop. -/
def TraceGroup.listed (filter : TraceListFilter) (g : TraceGroup) : Bool :=
  filter.service == "" || g.services.contains filter.service

/-- `d.Microseconds()` of the time between two instants, as a `float64`, by 1000. -/
def durationMs (start end_ : Time) : Extended :=
  match float64 (.finite ((min (end_.ns - start.ns) (2 ^ 63 - 1) / 1000 : ℕ) : ℚ)) with
  | .finite us => float64 (.finite (us / 1000))
  | .infinite negative => .infinite negative

/-- The summary that is returned. -/
def TraceGroup.result (g : TraceGroup) : TraceSummary :=
  if g.summary.startTS < g.summary.endTS then
    { g.summary with durationMs := durationMs g.summary.startTS g.summary.endTS }
  else g.summary

/-- The possible pages of `ListTraces`, where the query has an id for every row. -/
def ListTraces (rt : Runtime) (sqlTraceID : LogRow → String) (spans : List SpanRow)
    (logs : List LogRow) (filter : TraceListFilter) (limit offset : ℕ) (out : TracePage) : Prop :=
  ∃ spanRows logRows sorted,
    NewestPage SpanRow.startTS (windowSpans spans filter) traceListScanLimit 0 spanRows ∧
    NewestPage LogRow.ts (windowLogs logs filter) traceListScanLimit 0 logRows ∧
    Ranked TraceSummary.startTS (((scanned rt sqlTraceID spanRows logRows).values.filter
      (TraceGroup.listed filter)).map TraceGroup.result) sorted ∧
    out = {
      traces := (sorted.drop (min offset sorted.length)).take
        (if limit = 0 then 50 else min limit 200)
      total := sorted.length
      truncated := spanRows.length == traceListScanLimit || logRows.length == traceListScanLimit }

/-- The possible results of `ListTraces`, an error among them. The query computes an id for every
log row that it selects, and fails on one where `->>` has no text: an id with an escaped U+0000. -/
def ListTracesResult (rt : Runtime) (sqlTraceID : LogRow → Option String) (spans : List SpanRow)
    (logs : List LogRow) (filter : TraceListFilter) (limit offset : ℕ) (out : Option TracePage) :
    Prop :=
  if (windowLogs logs filter).all fun r => (sqlTraceID r).isSome then
    ∃ page, ListTraces rt (fun r => (sqlTraceID r).getD "") spans logs filter limit offset page ∧
      out = some page
  else out = none

/-! ### What does not depend on the order of rows -/

/-- What decides whether and where a group is listed. -/
structure TraceCore where
  source : TraceSource
  startTS : Time
  services : Finset String

/-- The core of a group. -/
def TraceGroup.core (g : TraceGroup) : TraceCore :=
  ⟨g.summary.source, g.summary.startTS, g.services.toFinset⟩

/-- The services that a row adds. -/
def serviceSet (services : List String) : Finset String := (services.filter (· ≠ "")).toFinset

/-- The core of a group of one span. -/
def SpanRow.core (r : SpanRow) : TraceCore :=
  ⟨.otlp, r.startTS, serviceSet [r.service, inferServiceFromContainer r.container]⟩

/-- The core of a group of one log row. -/
def LogRow.core (r : LogRow) : TraceCore := ⟨.logs, r.ts, serviceSet [logService r]⟩

/-- A row more in a group; a group of spans takes no log rows. -/
def mergeCore (g r : TraceCore) : TraceCore :=
  if g.source = .otlp ∧ r.source = .logs then g
  else ⟨g.source, min g.startTS r.startTS, g.services ∪ r.services⟩

/-- The rows as they are merged, with their keys. -/
def coreRows (rt : Runtime) (sqlTraceID : LogRow → String) (spanRows : List SpanRow)
    (logRows : List LogRow) : List (String × TraceCore) :=
  (spanRows.map fun r => (traceKey rt r.traceID, r.core)) ++
    (logRows.map fun r => (traceKey rt (sqlTraceID r), r.core)).filter fun e => e.1 ≠ ""

theorem toFinset_addService (services : List String) (svc : String) :
    (addService services svc).toFinset = services.toFinset ∪ serviceSet [svc] := by
  ext x
  by_cases hempty : svc = ""
  · simp [addService, serviceSet, hempty]
  · by_cases hmem : svc ∈ services
    · simp only [addService, hmem, or_true, if_true, serviceSet, List.filter_cons, hempty,
        decide_not, decide_false, Bool.not_false, List.filter_nil, Finset.mem_union,
        List.mem_toFinset, List.mem_singleton]
      exact ⟨Or.inl, fun h => h.elim id fun h => h ▸ hmem⟩
    · simp [addService, serviceSet, hempty, hmem]

theorem serviceSet_pair (svc svc' : String) :
    serviceSet [svc, svc'] = serviceSet [svc] ∪ serviceSet [svc'] := by
  rw [serviceSet, serviceSet, serviceSet, ← List.toFinset_append, ← List.filter_append]
  rfl

theorem startTS_extend (s : TraceSummary) (start end_ : Time) :
    (s.extend start end_).startTS = min s.startTS start := by
  rw [min_comm, min_def_lt]
  rfl

theorem core_addSpan (g : TraceGroup) (r : SpanRow) :
    (g.addSpan r).core = mergeCore g.core r.core := by
  have hservices :
      (addService (addService g.services r.service)
        (inferServiceFromContainer r.container)).toFinset =
        g.services.toFinset ∪ r.core.services := by
    rw [toFinset_addService, toFinset_addService, SpanRow.core, serviceSet_pair,
      Finset.union_assoc]
  have hmerge : mergeCore g.core r.core =
      ⟨g.summary.source, min g.summary.startTS r.startTS, g.services.toFinset ∪ r.core.services⟩ :=
    if_neg fun h => nomatch h.2
  have hstart := startTS_extend g.summary r.startTS r.endTS
  rw [hmerge, ← hservices, ← hstart]
  simp only [TraceGroup.addSpan, TraceGroup.core]
  split_ifs <;> rfl

theorem core_addLog (rt : Runtime) {g : TraceGroup} (r : LogRow) (h : g.summary.source = .logs) :
    (g.addLog rt r).core = mergeCore g.core r.core := by
  have hmerge : mergeCore g.core r.core =
      ⟨g.summary.source, min g.summary.startTS r.ts, g.services.toFinset ∪ r.core.services⟩ :=
    if_neg fun hotlp => absurd (h.symm.trans hotlp.1) (by decide)
  have hstart := startTS_extend g.summary r.ts r.ts
  rw [hmerge, LogRow.core, ← toFinset_addService, ← hstart]
  simp only [TraceGroup.addLog, TraceGroup.core]
  split_ifs <;> rfl

theorem core_new (traceID : String) (source : TraceSource) (start end_ : Time) :
    (TraceGroup.new traceID source start end_).core = ⟨source, start, ∅⟩ := rfl

/-- One span is one upsert. -/
theorem map_core_addSpan (rt : Runtime) (byKey : SortedMap String TraceGroup) (r : SpanRow) :
    (addSpan rt byKey r).map TraceGroup.core =
      (byKey.map TraceGroup.core).upsert mergeCore (traceKey rt r.traceID) r.core := by
  refine SortedMap.ext fun k => ?_
  rw [get?_map, addSpan, get?_insert, get?_upsert, get?_map]
  split_ifs with hk
  · subst hk
    rcases byKey.get? (traceKey rt r.traceID) with - | g
    · rw [Option.getD_none, Option.map_some, core_addSpan, core_new]
      simp [mergeInto, mergeCore, SpanRow.core]
    · exact congrArg some (core_addSpan g r)
  · rfl

/-- One log row is one upsert, or none. -/
theorem map_core_addLog (rt : Runtime) (sqlTraceID : LogRow → String)
    (byKey : SortedMap String TraceGroup) (r : LogRow) :
    (addLog rt sqlTraceID byKey r).map TraceGroup.core =
      if traceKey rt (sqlTraceID r) = "" then byKey.map TraceGroup.core
      else (byKey.map TraceGroup.core).upsert mergeCore (traceKey rt (sqlTraceID r)) r.core := by
  by_cases hempty : traceKey rt (sqlTraceID r) = ""
  · simp only [addLog, if_pos hempty]
  · simp only [addLog, if_neg hempty]
    refine SortedMap.ext fun k => ?_
    rw [get?_upsert, get?_map]
    rcases hg : byKey.get? (traceKey rt (sqlTraceID r)) with - | g
    · have hcore : ((TraceGroup.new (sqlTraceID r) .logs r.ts r.ts).addLog rt r).core = r.core := by
        rw [core_addLog rt r rfl, core_new]
        simp [mergeCore, LogRow.core]
      have hsource : (TraceGroup.new (sqlTraceID r) .logs r.ts r.ts).summary.source ≠ .otlp :=
        fun h => nomatch h
      rw [Option.getD_none, if_neg hsource, get?_map, get?_insert]
      split_ifs with hk
      · rw [← hk, hg, Option.map_some, hcore]
        rfl
      · rfl
    · rw [Option.getD_some]
      rcases hsource : g.summary.source with - | -
      · have hmerge : mergeCore g.core r.core = g.core := if_pos ⟨hsource, rfl⟩
        rw [if_pos rfl, get?_map]
        split_ifs with hk
        · rw [← hk, hg, Option.map_some, mergeInto, hmerge]
        · rfl
      · rw [if_neg (by decide), get?_map, get?_insert]
        split_ifs with hk
        · rw [← hk, hg, Option.map_some, Option.map_some, mergeInto, core_addLog rt r hsource]
        · rfl

/-- The scan of rows, core by core, is a sequence of upserts. -/
theorem map_core_scanned (rt : Runtime) (sqlTraceID : LogRow → String) (spanRows : List SpanRow)
    (logRows : List LogRow) : (scanned rt sqlTraceID spanRows logRows).map TraceGroup.core =
      (∅ : SortedMap String TraceCore).upsertAll mergeCore
        (coreRows rt sqlTraceID spanRows logRows) := by
  have hspans : ∀ byKey : SortedMap String TraceGroup,
      (spanRows.foldl (addSpan rt) byKey).map TraceGroup.core =
        (byKey.map TraceGroup.core).upsertAll mergeCore
          (spanRows.map fun r => (traceKey rt r.traceID, r.core)) := by
    induction spanRows with
    | nil => exact fun _ => rfl
    | cons r rows ih =>
      intro byKey
      rw [List.foldl_cons, ih, map_core_addSpan]
      rfl
  have hlogs : ∀ byKey : SortedMap String TraceGroup,
      (logRows.foldl (addLog rt sqlTraceID) byKey).map TraceGroup.core =
        (byKey.map TraceGroup.core).upsertAll mergeCore
          ((logRows.map fun r => (traceKey rt (sqlTraceID r), r.core)).filter
            fun e => e.1 ≠ "") := by
    induction logRows with
    | nil => exact fun _ => rfl
    | cons r rows ih =>
      intro byKey
      rw [List.foldl_cons, ih, map_core_addLog, List.map_cons, List.filter_cons]
      split_ifs with hempty hkept hkept
      · exact absurd hempty (of_decide_eq_true hkept)
      · rfl
      · rfl
      · exact absurd (decide_eq_true hempty) hkept
  rw [scanned, hlogs, hspans, coreRows, upsertAll_append]
  rfl

/-- Rows of one source merge in any order. -/
theorem foldl_mergeCore_perm {source : TraceSource} {rows rows' : List TraceCore}
    (h : rows.Perm rows') (hsource : ∀ r ∈ rows, r.source = source) (o : Option TraceCore) :
    rows.foldl (mergeInto mergeCore) o = rows'.foldl (mergeInto mergeCore) o := by
  refine h.foldl_eq' (fun x hx y hy o => ?_) o
  have hx := hsource x hx
  have hy := hsource y hy
  rcases o with - | g
  · have hxy : ∀ {a b : TraceCore}, a.source = source → b.source = source →
        mergeCore a b = ⟨source, min a.startTS b.startTS, a.services ∪ b.services⟩ := by
      intro a b ha hb
      rw [mergeCore, if_neg fun h => absurd (h.1.symm.trans (ha.trans (hb.symm.trans h.2)))
        (by decide), ha]
    simp only [mergeInto, hxy hx hy, hxy hy hx, min_comm x.startTS, Finset.union_comm x.services]
  · simp only [mergeInto, mergeCore, hx, hy]
    split_ifs
    · rfl
    · simp only [min_assoc, Finset.union_assoc, min_comm x.startTS, Finset.union_comm x.services]

/-- **Groups.** The cores of the groups do not depend on the order of the rows. -/
theorem scanned_core (rt : Runtime) (sqlTraceID : LogRow → String)
    {spanRows spanRows' : List SpanRow} {logRows logRows' : List LogRow}
    (hspans : spanRows.Perm spanRows') (hlogs : logRows.Perm logRows') :
    (scanned rt sqlTraceID spanRows logRows).map TraceGroup.core =
      (scanned rt sqlTraceID spanRows' logRows').map TraceGroup.core := by
  refine SortedMap.ext fun k => ?_
  rw [map_core_scanned, map_core_scanned, get?_upsertAll, get?_upsertAll, coreRows, coreRows,
    rowsFor_append, rowsFor_append, List.foldl_append, List.foldl_append]
  have hotlp : ∀ r ∈ rowsFor k (spanRows.map fun r => (traceKey rt r.traceID, r.core)),
      r.source = .otlp := by
    intro r hr
    obtain ⟨row, -, hrow⟩ := List.mem_map.mp (mem_rowsFor.mp hr)
    exact congrArg TraceCore.source (Prod.mk.inj hrow).2.symm
  have hlog : ∀ r ∈ rowsFor k ((logRows.map fun r =>
      (traceKey rt (sqlTraceID r), r.core)).filter fun e => e.1 ≠ ""), r.source = .logs := by
    intro r hr
    obtain ⟨row, -, hrow⟩ := List.mem_map.mp (List.mem_of_mem_filter (mem_rowsFor.mp hr))
    exact congrArg TraceCore.source (Prod.mk.inj hrow).2.symm
  rw [foldl_mergeCore_perm (rowsFor_perm (hspans.map _) k) hotlp,
    foldl_mergeCore_perm (rowsFor_perm ((hlogs.map _).filter _) k) hlog]

/-! ### Keys -/

/-- Every group lies under the key of its id. -/
def Keyed (rt : Runtime) (byKey : SortedMap String TraceGroup) : Prop :=
  ∀ k g, byKey.get? k = some g → traceKey rt g.summary.traceID = k

theorem traceID_addSpan (g : TraceGroup) (r : SpanRow) :
    (g.addSpan r).summary.traceID = g.summary.traceID := by
  simp only [TraceGroup.addSpan, TraceSummary.extend]
  split_ifs <;> rfl

theorem traceID_addLog (rt : Runtime) (g : TraceGroup) (r : LogRow) :
    (g.addLog rt r).summary.traceID = g.summary.traceID := by
  simp only [TraceGroup.addLog, TraceSummary.extend]
  split_ifs <;> rfl

theorem Keyed.insert {rt : Runtime} {byKey : SortedMap String TraceGroup} (h : Keyed rt byKey)
    {key : String} {g : TraceGroup} (hg : traceKey rt g.summary.traceID = key) :
    Keyed rt (byKey.insert key g) := by
  intro k g' hget
  rw [get?_insert] at hget
  split_ifs at hget with hk
  · rw [← Option.some.inj hget, hg, hk]
  · exact h k g' hget

theorem Keyed.addSpan {rt : Runtime} {byKey : SortedMap String TraceGroup} (h : Keyed rt byKey)
    (r : SpanRow) : Keyed rt (addSpan rt byKey r) := by
  refine h.insert ?_
  rw [traceID_addSpan]
  rcases hg : byKey.get? (traceKey rt r.traceID) with - | g
  · rfl
  · exact h _ g hg

theorem Keyed.addLog {rt : Runtime} {sqlTraceID : LogRow → String}
    {byKey : SortedMap String TraceGroup} (h : Keyed rt byKey) (r : LogRow) :
    Keyed rt (addLog rt sqlTraceID byKey r) := by
  simp only [Argus.addLog]
  split_ifs
  · exact h
  · exact h
  · refine h.insert ?_
    rw [traceID_addLog]
    rcases hg : byKey.get? (traceKey rt (sqlTraceID r)) with - | g
    · rfl
    · exact h _ g hg

theorem keyed_scanned (rt : Runtime) (sqlTraceID : LogRow → String) (spanRows : List SpanRow)
    (logRows : List LogRow) : Keyed rt (scanned rt sqlTraceID spanRows logRows) := by
  have hspans : ∀ byKey, Keyed rt byKey → Keyed rt (spanRows.foldl (Argus.addSpan rt) byKey) := by
    induction spanRows with
    | nil => exact fun _ h => h
    | cons r rows ih =>
      intro byKey h
      rw [List.foldl_cons]
      exact ih _ (h.addSpan r)
  have hlogs : ∀ byKey, Keyed rt byKey →
      Keyed rt (logRows.foldl (Argus.addLog rt sqlTraceID) byKey) := by
    induction logRows with
    | nil => exact fun _ h => h
    | cons r rows ih =>
      intro byKey h
      rw [List.foldl_cons]
      exact ih _ (h.addLog r)
  refine hlogs _ (hspans _ fun k g h => ?_)
  rw [get?_empty] at h
  exact nomatch h

/-! ### Listed traces -/

/-- The groups that are listed: their keys and starts. -/
def listing (filter : TraceListFilter) (byKey : SortedMap String TraceGroup) :
    List (String × Time) :=
  (byKey.entries.filter fun e => e.2.listed filter).map fun e => (e.1, e.2.summary.startTS)

/-- The traces of the window: the listing of all its rows, in the order of the tables. -/
def windowTraces (rt : Runtime) (sqlTraceID : LogRow → String) (spans : List SpanRow)
    (logs : List LogRow) (filter : TraceListFilter) : List (String × Time) :=
  listing filter (scanned rt sqlTraceID (windowSpans spans filter) (windowLogs logs filter))

/-- The key of a summary and its start. -/
def TraceSummary.listed (rt : Runtime) (s : TraceSummary) : String × Time :=
  (traceKey rt s.traceID, s.startTS)

theorem listing_eq_of_core {filter : TraceListFilter} {byKey byKey' : SortedMap String TraceGroup}
    (h : byKey.map TraceGroup.core = byKey'.map TraceGroup.core) :
    listing filter byKey = listing filter byKey' := by
  have hcore : ∀ m : SortedMap String TraceGroup, listing filter m =
      ((m.map TraceGroup.core).entries.filter fun e =>
        filter.service == "" || filter.service ∈ e.2.services).map fun e => (e.1, e.2.startTS) := by
    intro m
    rw [listing, SortedMap.map, List.filter_map, List.map_map]
    simp [Function.comp_def, TraceGroup.listed, TraceGroup.core]
  rw [hcore, hcore, h]

/-- The summaries of a scan, in some order, are the listing of its groups. -/
theorem map_listed {rt : Runtime} {filter : TraceListFilter} {byKey : SortedMap String TraceGroup}
    (h : Keyed rt byKey) :
    ((byKey.values.filter (TraceGroup.listed filter)).map TraceGroup.result).map
      (TraceSummary.listed rt) = listing filter byKey := by
  have hresult : ∀ g : TraceGroup, g.result.listed rt = g.summary.listed rt := by
    intro g
    rw [TraceGroup.result]
    split_ifs <;> rfl
  rw [listing, SortedMap.values, List.filter_map, List.map_map, List.map_map]
  refine List.map_congr_left fun e he => ?_
  have hget := mem_entries.mp (List.mem_of_mem_filter he)
  rw [Function.comp_apply, Function.comp_apply, hresult, TraceSummary.listed, h _ _ hget]

end Argus
