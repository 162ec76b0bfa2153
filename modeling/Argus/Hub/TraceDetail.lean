import Argus.Foundations.Extents
import Argus.Insights.Http
import Argus.Store.TraceList
import Argus.Store.TraceSearch

/-!
# The view of one trace

The hub shows the stored spans of a trace with `buildTraceDetail`, and where there are none
`traces.BuildFromLogs` makes spans of the log lines. Both say from when to when the trace goes:
one looks at all spans, the other at the first and the last after sorting by start. `extent_iff`
says when these are the right times.

An instant is here its nanoseconds since the zero time: the start of a request that is computed
from its duration may be before it.
-/

namespace Argus

open Foundations

/-! ### Spans -/

/-- `model.TraceSpan`. A name that is cut inside a character is none. -/
structure WaterfallSpan where
  traceID : String
  spanID : String
  parentSpanID : String
  name : Option String
  service : String
  container : String
  entityUID : String
  startTS : ℤ
  endTS : ℤ
  durationMs : Extended
  status : String
  kind : String
  source : String
  attributes : Fields

/-- `model.TraceDetail`. -/
structure TraceDetail where
  traceID : String
  source : String
  startTS : ℤ
  endTS : ℤ
  durationMs : Extended
  spans : List WaterfallSpan

/-- `d.Milliseconds()`. -/
def milliseconds (d : ℤ) : ℤ := d.tdiv 1000000

/-- The duration of a view, from the difference of two instants as `Sub` cuts it. -/
def detailDuration (start stop : ℤ) : Extended :=
  if start < stop then
    float64 (.finite (milliseconds (max (-2 ^ 63) (min (2 ^ 63 - 1) (stop - start)))))
  else .finite 0

/-- One round of the loop of `buildTraceDetail` over the start and the end. -/
def extendDetail (extent : ℤ × ℤ) (sp : WaterfallSpan) : ℤ × ℤ :=
  (if sp.startTS < extent.1 ∨ extent.1 = 0 then sp.startTS else extent.1,
    if extent.2 < sp.endTS then sp.endTS else extent.2)

/-- `buildTraceDetail`. -/
def buildTraceDetail (traceID source : String) (spans : List WaterfallSpan) : TraceDetail :=
  match spans with
  | [] => ⟨traceID, source, 0, 0, .finite 0, []⟩
  | first :: _ =>
    let extent := spans.foldl extendDetail (first.startTS, (spans.getLastD first).endTS)
    ⟨traceID, source, extent.1, extent.2, detailDuration extent.1 extent.2, spans⟩

/-! ### Spans of log lines -/

/-- What is left to Go here: the one character that stands for all its cases in
`strings.EqualFold`, and the text of the UUID of a name. -/
structure TraceLibrary where
  fold : Char → Char
  sha1UUID : String → String

/-- `traceIDsMatch`, for all ids. -/
def TraceLibrary.idsMatch (lib : TraceLibrary) (rt : Runtime) (a b : String) : Bool :=
  normalizeTrace rt a a == normalizeTrace rt b b ||
    (dropDashes a).toList.map lib.fold == (dropDashes b).toList.map lib.fold

/-- `otel.NewLogSpanID`. -/
def TraceLibrary.newLogSpanID (lib : TraceLibrary) (container : String) (ts : Time) : String :=
  String.ofList ((lib.sha1UUID (container ++ "|" ++ ts.format)).toList.take 16)

/-- `spanIDFromFields`: of the first key that has a text. -/
def spanIDFromFields (rt : Runtime) (e : LogEntry) : String :=
  (["span_id", "spanId"].findSome? fun k =>
    match e.fields.get? k with
    | some (.str v) => some (rt.toLower (trimSpace v))
    | _ => none).getD ""

/-- The name that `shortMessage` takes from a JSON event. -/
def eventSpanName (m : Fields) : Option String :=
  (textField m "event").map fun event =>
    match textField m "service" with
    | some svc => svc ++ " " ++ event
    | none => event

/-- `shortMessage`, where it is a text. -/
def shortMessage (message : String) : Option String :=
  let msg := trimSpace message
  match (if hasPrefix msg "\x7b" then (unmarshalFields msg).bind eventSpanName else none) with
  | some name => some name
  | none =>
    if byteLength msg > 80 then
      (cutBytes 77 msg.toList).map fun cut => String.ofList cut ++ "..."
    else some msg

/-- `logLevelStatus`. -/
def logLevelStatus (rt : Runtime) (level : String) : String :=
  let level := rt.toLower level
  if level ∈ ["error", "fatal", "critical"] then "error"
  else if level ∈ ["warn", "warning"] then "warn"
  else "ok"

section Build

variable (lib : TraceLibrary) (rt : Runtime) (traceID : String)

/-- The container of an entry. -/
def LogEntry.spanContainer (e : LogEntry) : String :=
  if e.labels.get "container" = "" then containerFromEntityUID e.entityUID
  else e.labels.get "container"

/-- The service of an entry, before its message is read. -/
def LogEntry.spanService (e : LogEntry) : String :=
  if e.labels.get "service" = "" then inferServiceFromContainer e.spanContainer
  else e.labels.get "service"

/-- The start of a request that took so many milliseconds, with the arithmetic of `Duration`. -/
def requestStart (ts : Time) (durationMs : Extended) : ℤ :=
  if Extended.positive durationMs then
    ts.ns + (-truncate durationMs * 1000000).bmod (2 ^ 64)
  else ts.ns

/-- The id of a span: that of the entry, or one made of a name. -/
def LogEntry.spanID (e : LogEntry) (name : String) : String :=
  if spanIDFromFields rt e = "" then lib.newLogSpanID name e.ts else spanIDFromFields rt e

/-- The span of a request. -/
def requestSpan (e : LogEntry) (sig : HTTPLogSignal) : WaterfallSpan where
  traceID := normalizeTrace rt traceID (traceIDFromEntry rt e)
  spanID := e.spanID lib rt e.spanContainer
  parentSpanID := ""
  name :=
    let name := trimSpace (sig.method ++ " " ++ sig.path)
    some (if name = "" then "http.request" else name)
  service := if sig.service = "" then e.spanService else sig.service
  container := e.spanContainer
  entityUID := e.entityUID
  startTS := requestStart e.ts sig.durationMs
  endTS := e.ts.ns
  durationMs := sig.durationMs
  status := if sig.status ≥ 400 then "error" else "ok"
  kind := "server"
  source := "logs"
  attributes :=
    SortedMap.ofList [("http.status", .num (.finite sig.status)), ("level", .str e.level)]

/-- The span of another line. -/
def lineSpan (e : LogEntry) : WaterfallSpan where
  traceID := normalizeTrace rt traceID (traceIDFromEntry rt e)
  spanID := e.spanID lib rt (e.spanContainer ++ "|log")
  parentSpanID := ""
  name := shortMessage e.message
  service := e.spanService
  container := e.spanContainer
  entityUID := e.entityUID
  startTS := e.ts.ns
  endTS := e.ts.ns
  durationMs := .finite 0
  status := logLevelStatus rt e.level
  kind := "log"
  source := "logs"
  attributes := SortedMap.ofList [("level", .str e.level)]

/-- One round of the loop of `BuildFromLogs`. -/
def logSpan (e : LogEntry) : Option WaterfallSpan :=
  let tid := traceIDFromEntry rt e
  if tid = "" then none
  else if traceID ≠ "" ∧ lib.idsMatch rt tid traceID = false then none
  else
    match parseHTTPLog rt e.message with
    | some sig =>
      if sig.isExit then some (requestSpan lib rt traceID e sig)
      else some (lineSpan lib rt traceID e)
    | none => some (lineSpan lib rt traceID e)

/-- The spans of `BuildFromLogs`, before they are sorted. -/
def logSpans (logs : List LogEntry) : List WaterfallSpan := logs.filterMap (logSpan lib rt traceID)

/-- The order of `sort.Slice`. -/
def WaterfallSpan.before (a b : WaterfallSpan) : Bool :=
  if a.startTS = b.startTS then decide (a.endTS < b.endTS) else decide (a.startTS < b.startTS)

/-- `traceIDFromLogs`. -/
def traceIDFromLogs (logs : List LogEntry) : String :=
  ((logs.map (traceIDFromEntry rt)).find? (· ≠ "")).getD ""

/-- The view of sorted spans. -/
def logDetail (traceID : String) (spans : List WaterfallSpan) : TraceDetail :=
  match spans with
  | [] => ⟨traceID, "logs", 0, 0, .finite 0, []⟩
  | first :: _ =>
    let last := spans.getLastD first
    ⟨traceID, "logs", first.startTS, last.endTS, detailDuration first.startTS last.endTS, spans⟩

/-- The possible results of `BuildFromLogs`: spans with the same times come in any order. -/
def BuildFromLogs (logs : List LogEntry) (detail : TraceDetail) : Prop :=
  ∃ spans : List WaterfallSpan, spans.Perm (logSpans lib rt traceID logs) ∧
    spans.Pairwise (fun a b => b.before a = false) ∧
      detail = logDetail (normalizeTrace rt traceID (traceIDFromLogs rt logs)) spans

end Build

/-! ### Extents -/

/-- The view goes from the first start to the last end, and its duration is the difference in whole
milliseconds. -/
structure TraceExtent (spans : List WaterfallSpan) (detail : TraceDetail) : Prop where
  start : IsLeast {t | ∃ s ∈ spans, s.startTS = t} detail.startTS
  stop : IsGreatest {t | ∃ s ∈ spans, s.endTS = t} detail.endTS
  duration : detail.durationMs = .finite (milliseconds (detail.endTS - detail.startTS))

/-- The last end is less than a millisecond before the first start, and less than 2^63 nanoseconds
after it, up to the last of these milliseconds. -/
structure Measurable (spans : List WaterfallSpan) : Prop where
  short : ∀ s ∈ spans, ∀ t ∈ spans, t.endTS - s.startTS < 9223372036855000000
  forward : ∃ s ∈ spans, ∃ t ∈ spans, -1000000 < t.endTS - s.startTS

/-- Some span is the last both to start and to end. -/
def LastEndsLast (spans : List WaterfallSpan) : Prop :=
  ∃ s ∈ spans, ∀ t ∈ spans, t.startTS ≤ s.startTS ∧ t.endTS ≤ s.endTS

theorem milliseconds_of_nonneg {d : ℤ} (h : 0 ≤ d) : milliseconds d = d / 1000000 :=
  Int.tdiv_eq_ediv_of_nonneg h

theorem milliseconds_of_nonpos {d : ℤ} (h : d ≤ 0) : milliseconds d = -(-d / 1000000) := by
  rw [← milliseconds_of_nonneg (Int.neg_nonneg_of_nonpos h), milliseconds, milliseconds,
    Int.neg_tdiv, neg_neg]

theorem float64_int {n : ℤ} (h : |n| < 2 ^ 53) : float64 (.finite n) = .finite n := by
  have hbound : |(n : ℚ)| < 2 ^ doubleFormat.emax := by
    have hsmall : |(n : ℚ)| < 2 ^ 53 := by exact_mod_cast h
    exact hsmall.trans (pow_lt_pow_right₀ (by norm_num) (by decide))
  refine (doubleFormat.round_eq_self_iff (by decide) hbound).mpr ?_
  exact (doubleFormat.representable_int (by decide) n).mpr ⟨n, 0, h, by rw [pow_zero, mul_one]⟩

/-- When the duration of a view is the difference of its instants. -/
theorem detailDuration_eq_iff {start stop : ℤ} :
    detailDuration start stop = .finite (milliseconds (stop - start)) ↔
      stop - start < 9223372036855000000 ∧ -1000000 < stop - start := by
  rw [detailDuration]
  split_ifs with hlt
  · have hcut : milliseconds (max (-2 ^ 63) (min (2 ^ 63 - 1) (stop - start))) =
        min (2 ^ 63 - 1) (stop - start) / 1000000 := by
      rw [max_eq_right (by omega), milliseconds_of_nonneg (by omega)]
    rw [hcut, float64_int (abs_lt.mpr (by omega)), Extended.finite.injEq, Int.cast_inj,
      milliseconds_of_nonneg (by omega)]
    omega
  · rw [Extended.finite.injEq, milliseconds_of_nonpos (by omega)]
    norm_cast
    omega

section Extents

variable {spans : List WaterfallSpan}

/-- With the right start and the right end the duration is right if the times can be measured. -/
theorem measurable_iff {start stop : ℤ} (hstart : IsLeast {t | ∃ s ∈ spans, s.startTS = t} start)
    (hstop : IsGreatest {t | ∃ s ∈ spans, s.endTS = t} stop) :
    detailDuration start stop = .finite (milliseconds (stop - start)) ↔ Measurable spans := by
  obtain ⟨⟨first, hfirst, rfl⟩, hleast⟩ := hstart
  obtain ⟨⟨last, hlast, rfl⟩, hgreatest⟩ := hstop
  have hle : ∀ s ∈ spans, ∀ t ∈ spans, t.endTS - s.startTS ≤ last.endTS - first.startTS :=
    fun s hs t ht => sub_le_sub (hgreatest ⟨t, ht, rfl⟩) (hleast ⟨s, hs, rfl⟩)
  rw [detailDuration_eq_iff]
  constructor
  · rintro ⟨hshort, hforward⟩
    exact ⟨fun s hs t ht => (hle s hs t ht).trans_lt hshort,
      first, hfirst, last, hlast, hforward⟩
  · rintro ⟨hshort, s, hs, t, ht, hforward⟩
    exact ⟨hshort first hfirst last hlast, hforward.trans_le (hle s hs t ht)⟩

/-- The loop finds the first start and the last end, if no start is the zero time. -/
theorem foldl_extendDetail (hzero : ∀ s ∈ spans, s.startTS ≠ 0) (extent : ℤ × ℤ)
    (hstart : extent.1 ≠ 0) :
    (∀ s ∈ spans, (spans.foldl extendDetail extent).1 ≤ s.startTS) ∧
      (∀ s ∈ spans, s.endTS ≤ (spans.foldl extendDetail extent).2) ∧
      (spans.foldl extendDetail extent).1 ≤ extent.1 ∧
      extent.2 ≤ (spans.foldl extendDetail extent).2 ∧
      ((spans.foldl extendDetail extent).1 = extent.1 ∨
        ∃ s ∈ spans, s.startTS = (spans.foldl extendDetail extent).1) ∧
      ((spans.foldl extendDetail extent).2 = extent.2 ∨
        ∃ s ∈ spans, s.endTS = (spans.foldl extendDetail extent).2) := by
  induction spans generalizing extent with
  | nil => simp
  | cons sp spans ih =>
    obtain ⟨hsp, hspans⟩ := List.forall_mem_cons.mp hzero
    -- what one round does to the start and to the end
    have hround : (extendDetail extent sp).1 = min extent.1 sp.startTS ∧
        (extendDetail extent sp).2 = max extent.2 sp.endTS := by
      rw [extendDetail]
      constructor
      · by_cases hlt : sp.startTS < extent.1
        · rw [if_pos (.inl hlt), min_eq_right hlt.le]
        · rw [if_neg (by simp [hlt, hstart]), min_eq_left (not_lt.mp hlt)]
      · by_cases hlt : extent.2 < sp.endTS
        · rw [if_pos hlt, max_eq_right hlt.le]
        · rw [if_neg hlt, max_eq_left (not_lt.mp hlt)]
    have hnext : (extendDetail extent sp).1 ≠ 0 := by
      rw [hround.1]
      rcases min_choice extent.1 sp.startTS with hmin | hmin
      · rwa [hmin]
      · rwa [hmin]
    obtain ⟨hstarts, hstops, hle, hge, hfirst, hlast⟩ := ih hspans _ hnext
    rw [List.foldl_cons]
    rw [hround.1] at hle hfirst
    rw [hround.2] at hge hlast
    refine ⟨List.forall_mem_cons.mpr ⟨hle.trans (min_le_right _ _), hstarts⟩,
      List.forall_mem_cons.mpr ⟨(le_max_right _ _).trans hge, hstops⟩,
      hle.trans (min_le_left _ _), (le_max_left _ _).trans hge, ?_, ?_⟩
    · rcases hfirst with hfirst | ⟨s, hs, hfirst⟩
      · rcases min_choice extent.1 sp.startTS with hmin | hmin
        · exact .inl (hfirst.trans hmin)
        · exact .inr ⟨sp, List.mem_cons_self, (hfirst.trans hmin).symm⟩
      · exact .inr ⟨s, List.mem_cons_of_mem _ hs, hfirst⟩
    · rcases hlast with hlast | ⟨s, hs, hlast⟩
      · rcases max_choice extent.2 sp.endTS with hmax | hmax
        · exact .inl (hlast.trans hmax)
        · exact .inr ⟨sp, List.mem_cons_self, (hlast.trans hmax).symm⟩
      · exact .inr ⟨s, List.mem_cons_of_mem _ hs, hlast⟩

/-- The view of stored spans. -/
theorem extent_buildTraceDetail (traceID source : String) (hne : spans ≠ [])
    (hzero : ∀ s ∈ spans, s.startTS ≠ 0) :
    TraceExtent spans (buildTraceDetail traceID source spans) ↔ Measurable spans := by
  obtain ⟨first, rest, rfl⟩ := List.exists_cons_of_ne_nil hne
  have hfirst : first ∈ first :: rest := List.mem_cons_self
  have hlast : (first :: rest).getLastD first ∈ first :: rest := by
    rw [List.getLastD_cons]
    exact List.getLastD_mem_cons
  obtain ⟨hstarts, hstops, -, -, hstart, hstop⟩ := foldl_extendDetail hzero
    (first.startTS, ((first :: rest).getLastD first).endTS) (hzero first hfirst)
  rw [buildTraceDetail]
  set extent := (first :: rest).foldl extendDetail
    (first.startTS, ((first :: rest).getLastD first).endTS)
  have hleast : IsLeast {t | ∃ s ∈ first :: rest, s.startTS = t} extent.1 := by
    refine ⟨hstart.elim (fun h => ⟨first, hfirst, h.symm⟩) id, ?_⟩
    rintro t ⟨s, hs, rfl⟩
    exact hstarts s hs
  have hgreatest : IsGreatest {t | ∃ s ∈ first :: rest, s.endTS = t} extent.2 := by
    refine ⟨hstop.elim (fun h => ⟨_, hlast, h.symm⟩) id, ?_⟩
    rintro t ⟨s, hs, rfl⟩
    exact hstops s hs
  rw [← measurable_iff hleast hgreatest]
  exact ⟨fun h => h.duration, fun h => ⟨hleast, hgreatest, h⟩⟩

/-- The order of `sort.Slice` is by start and then by end. -/
theorem before_eq_false_iff {a b : WaterfallSpan} :
    b.before a = false ↔ toLex (a.startTS, a.endTS) ≤ toLex (b.startTS, b.endTS) := by
  rw [WaterfallSpan.before, Prod.Lex.le_iff]
  by_cases heq : b.startTS = a.startTS
  · simp [heq]
  · have hne : a.startTS ≠ b.startTS := Ne.symm heq
    simp [heq, hne, le_iff_lt_or_eq]

/-- The view of sorted spans. -/
theorem extent_logDetail (traceID : String) (hne : spans ≠ [])
    (hsorted : spans.Pairwise fun a b => b.before a = false) :
    TraceExtent spans (logDetail traceID spans) ↔ LastEndsLast spans ∧ Measurable spans := by
  obtain ⟨first, rest, rfl⟩ := List.exists_cons_of_ne_nil hne
  have hlast : (first :: rest).getLast? = some ((first :: rest).getLastD first) := by
    rw [List.getLastD_eq_getLast?, List.getLast?_cons, Option.getD_some]
  have hsorted' : StartSorted WaterfallSpan.startTS WaterfallSpan.endTS (first :: rest) :=
    hsorted.imp before_eq_false_iff.mp
  have hleast := isLeast_start hsorted' List.head?_cons
  have hgreatest := isGreatest_stop_iff hsorted' hlast
  rw [logDetail, LastEndsLast, ← hgreatest]
  constructor
  · intro h
    exact ⟨h.stop, (measurable_iff hleast h.stop).mp h.duration⟩
  · rintro ⟨hstop, hmeasurable⟩
    exact ⟨hleast, hstop, (measurable_iff hleast hstop).mpr hmeasurable⟩

/-- The extent does not depend on the order of the spans. -/
theorem TraceExtent.perm {spans' : List WaterfallSpan} {detail : TraceDetail}
    (hperm : spans.Perm spans') (h : TraceExtent spans detail) : TraceExtent spans' detail := by
  have hstarts : {t | ∃ s ∈ spans', s.startTS = t} = {t | ∃ s ∈ spans, s.startTS = t} := by
    simp only [hperm.mem_iff]
  have hstops : {t | ∃ s ∈ spans', s.endTS = t} = {t | ∃ s ∈ spans, s.endTS = t} := by
    simp only [hperm.mem_iff]
  exact ⟨hstarts ▸ h.start, hstops ▸ h.stop, h.duration⟩

theorem lastEndsLast_perm {spans' : List WaterfallSpan} (hperm : spans.Perm spans') :
    LastEndsLast spans ↔ LastEndsLast spans' := by
  simp only [LastEndsLast, hperm.mem_iff]

theorem measurable_perm {spans' : List WaterfallSpan} (hperm : spans.Perm spans') :
    Measurable spans ↔ Measurable spans' := by
  constructor
  · rintro ⟨hshort, hforward⟩
    simp only [hperm.mem_iff] at hshort hforward
    exact ⟨hshort, hforward⟩
  · rintro ⟨hshort, hforward⟩
    simp only [← hperm.mem_iff] at hshort hforward
    exact ⟨hshort, hforward⟩

variable {lib : TraceLibrary} {rt : Runtime} {logs : List LogEntry} {detail : TraceDetail}

/-- The view of log lines. -/
theorem extent_buildFromLogs {traceID : String} (h : BuildFromLogs lib rt traceID logs detail)
    (hne : logSpans lib rt traceID logs ≠ []) :
    TraceExtent (logSpans lib rt traceID logs) detail ↔
      LastEndsLast (logSpans lib rt traceID logs) ∧ Measurable (logSpans lib rt traceID logs) := by
  obtain ⟨sorted, hperm, hsorted, rfl⟩ := h
  have hne' : sorted ≠ [] := by
    rintro rfl
    exact hne hperm.symm.eq_nil
  rw [← lastEndsLast_perm hperm, ← measurable_perm hperm, ← extent_logDetail _ hne' hsorted]
  exact ⟨fun h => h.perm hperm.symm, fun h => h.perm hperm⟩

/-- **Key result.** The view of stored spans has the right extent whenever it can be measured. The
view of log lines has it only if, besides, some span is the last both to start and to end. -/
theorem extent_iff {traceID source : String} (hne : spans ≠ [])
    (hzero : ∀ s ∈ spans, s.startTS ≠ 0 ∧ s.endTS ≠ 0)
    (hlogs : BuildFromLogs lib rt traceID logs detail)
    (hne' : logSpans lib rt traceID logs ≠ []) :
    (TraceExtent spans (buildTraceDetail traceID source spans) ↔ Measurable spans) ∧
      (TraceExtent (logSpans lib rt traceID logs) detail ↔
        LastEndsLast (logSpans lib rt traceID logs) ∧
          Measurable (logSpans lib rt traceID logs)) :=
  ⟨extent_buildTraceDetail traceID source hne fun s hs => (hzero s hs).1,
    extent_buildFromLogs hlogs hne'⟩

end Extents

/-- Package `strings` for ASCII, and any UUID. -/
def asciiTraceLibrary : TraceLibrary := ⟨foldRune, id⟩

/-- An instant two seconds before the end of a request, or one after it. -/
def lineTime (later : Bool) : ℕ := if later then 63844891201000000000 else 63844891198000000000

/-- The end of a request that took five seconds, and another line of its trace. -/
def requestLogs (later : Bool) : List LogEntry :=
  let trace : Fields := SortedMap.ofList [("trace_id", .str "50e30959f59e487fbbe089ae7d8e74e5")]
  [{ ts := ⟨63844891200000000000⟩
     message := "\x7b\"event\":\"exit\",\"status\":200,\"durationMs\":5000\x7d"
     level := "info"
     entityUID := "docker:h:api"
     labels := ∅
     fields := trace },
   { ts := ⟨lineTime later⟩
     message := "query done"
     level := "info"
     entityUID := "docker:h:api"
     labels := ∅
     fields := trace }]

/-- The view of these lines, and its spans. -/
theorem buildFromLogs_request (later : Bool) : ∃ a b,
    logSpans asciiTraceLibrary asciiRuntime "" (requestLogs later) = [a, b] ∧
      (a.startTS = 63844891195000000000 ∧ a.endTS = 63844891200000000000) ∧
      (b.startTS = lineTime later ∧ b.endTS = lineTime later) ∧
      ∃ detail, BuildFromLogs asciiTraceLibrary asciiRuntime "" (requestLogs later) detail ∧
        detail.endTS = b.endTS ∧ detail.durationMs = detailDuration a.startTS b.endTS := by
  have htimes : (logSpans asciiTraceLibrary asciiRuntime "" (requestLogs later)).map
      (fun s => (s.startTS, s.endTS)) = [(63844891195000000000, 63844891200000000000),
        ((lineTime later : ℤ), (lineTime later : ℤ))] := by
    revert later
    decide +kernel
  obtain ⟨a, l, hspans, ha, hl⟩ := List.map_eq_cons_iff.mp htimes
  obtain ⟨b, rfl, hb⟩ := List.map_eq_singleton_iff.mp hl
  obtain ⟨hstart, hstop⟩ := Prod.mk.inj ha
  obtain ⟨hstart', hstop'⟩ := Prod.mk.inj hb
  have hlt : a.startTS < b.startTS := by
    have hline : ∀ later, (63844891195000000000 : ℤ) < lineTime later := by decide
    rw [hstart, hstart']
    exact hline later
  have hsorted : [a, b].Pairwise fun a b => b.before a = false :=
    List.pairwise_pair.mpr (before_eq_false_iff.mpr (Prod.Lex.le_iff.mpr (.inl hlt)))
  exact ⟨a, b, hspans, ⟨hstart, hstop⟩, ⟨hstart', hstop'⟩, _,
    ⟨[a, b], hspans ▸ List.Perm.refl _, hsorted, rfl⟩, rfl, rfl⟩

/-- A line after the request: the extent is right in both views. -/
theorem extent_request : ∃ detail,
    BuildFromLogs asciiTraceLibrary asciiRuntime "" (requestLogs true) detail ∧
      TraceExtent (logSpans asciiTraceLibrary asciiRuntime "" (requestLogs true)) detail ∧
      TraceExtent (logSpans asciiTraceLibrary asciiRuntime "" (requestLogs true))
        (buildTraceDetail "" "otlp"
          (logSpans asciiTraceLibrary asciiRuntime "" (requestLogs true))) := by
  obtain ⟨a, b, hspans, ⟨hstart, hstop⟩, ⟨hstart', hstop'⟩, detail, hdetail, -⟩ :=
    buildFromLogs_request true
  have hne : logSpans asciiTraceLibrary asciiRuntime "" (requestLogs true) ≠ [] := by
    rw [hspans]
    exact List.cons_ne_nil _ _
  have hzero : ∀ s ∈ logSpans asciiTraceLibrary asciiRuntime "" (requestLogs true),
      s.startTS ≠ 0 ∧ s.endTS ≠ 0 := by
    rw [hspans]
    simp [hstart, hstop, hstart', hstop', lineTime]
  obtain ⟨hstored, hlogs⟩ := @extent_iff _ _ _ _ _ "" "otlp" hne hzero hdetail hne
  have hmeasurable :
      Measurable (logSpans asciiTraceLibrary asciiRuntime "" (requestLogs true)) := by
    rw [hspans]
    exact ⟨by simp [hstart, hstop, hstart', hstop', lineTime],
      a, by simp, b, by simp, by rw [hstart, hstop']; decide⟩
  refine ⟨detail, hdetail, hlogs.mpr ⟨?_, hmeasurable⟩, hstored.mpr hmeasurable⟩
  rw [hspans]
  exact ⟨b, by simp, by simp [hstart, hstop, hstart', hstop', lineTime]⟩

/-- A line within the request: the view ends with the line. -/
theorem nested_line_ends_view : ∃ detail,
    BuildFromLogs asciiTraceLibrary asciiRuntime "" (requestLogs false) detail ∧
      detail.endTS = 63844891198000000000 ∧ detail.durationMs = .finite 3000 ∧
      (∃ s ∈ logSpans asciiTraceLibrary asciiRuntime "" (requestLogs false),
        s.endTS = 63844891200000000000) ∧
      ¬ TraceExtent (logSpans asciiTraceLibrary asciiRuntime "" (requestLogs false)) detail := by
  obtain ⟨a, b, hspans, ⟨hstart, hstop⟩, ⟨-, hstop'⟩, detail, hdetail, hend, hduration⟩ :=
    buildFromLogs_request false
  have hmem : a ∈ logSpans asciiTraceLibrary asciiRuntime "" (requestLogs false) := by
    rw [hspans]
    exact List.mem_cons_self
  refine ⟨detail, hdetail, hend.trans hstop', ?_, ⟨a, hmem, hstop⟩, fun h => ?_⟩
  · rw [hduration, hstart, hstop']
    decide +kernel
  · have hle := h.stop.2 ⟨a, hmem, rfl⟩
    rw [hend, hstop', hstop] at hle
    exact absurd hle (by decide)

end Argus
