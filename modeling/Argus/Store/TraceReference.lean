import Argus.Store.TraceList
import Mathlib.Order.Bounds.Basic

/-!
# The list of traces and its reference

`ListTraces` builds its summaries in two passes over rows that come newest first. What a summary
should be is said here without an order of rows: `SpanSummary` for the spans of one key,
`LogSummary` for the log rows of one key, `ReferencePage` for a page of them. The passes are folds
that change one key each, so the entry of a key is a fold over the rows of the key, and one
invariant for each kind of rows (`SpanGroup`, `LogGroup`) describes it.

`listTraces_reference` says that pages are those of the reference, as long as neither scan is cut
off and the texts of the timestamps sort like the instants.
-/

namespace Argus

open Foundations SortedMap

/-! ### The reference -/

/-- The rows of a key among spans. -/
def spansOf (rt : Runtime) (spans : List SpanRow) (key : String) : List SpanRow :=
  spans.filter fun r => decide (traceKey rt r.traceID = key)

/-- The rows of a key among log rows. -/
def logsOf (rt : Runtime) (sqlTraceID : LogRow → String) (logs : List LogRow) (key : String) :
    List LogRow :=
  logs.filter fun r => decide (traceKey rt (sqlTraceID r) = key)

/-- A level of an error. -/
def errorLevel (rt : Runtime) (level : String) : Prop :=
  rt.toLower level ∈ ["error", "fatal", "critical"]

/-- What a summary of spans should be: their number, the least start, the greatest end, whether one
has failed, and the names of a span without a parent, or of an earliest one if all have parents. -/
structure SpanSummary (rows : List SpanRow) (s : TraceSummary) : Prop where
  source : s.source = .otlp
  spanCount : s.spanCount = rows.length
  startTS : IsLeast {t | ∃ r ∈ rows, r.startTS = t} s.startTS
  endTS : IsGreatest {t | ∃ r ∈ rows, r.endTS = t} s.endTS
  error : s.error = true ↔ ∃ r ∈ rows, r.status = "error"
  named : ∃ r ∈ rows, (s.name = r.name ∧ s.service = r.service ∧ s.container = r.container) ∧
    (r.parentSpanID = "" ∨
      (∀ r' ∈ rows, r'.parentSpanID ≠ "") ∧ ∀ r' ∈ rows, r.startTS ≤ r'.startTS)

/-- What a summary of log rows should be, with the names of an earliest row. -/
structure LogSummary (rt : Runtime) (rows : List LogRow) (s : TraceSummary) : Prop where
  source : s.source = .logs
  spanCount : s.spanCount = rows.length
  startTS : IsLeast {t | ∃ r ∈ rows, r.ts = t} s.startTS
  endTS : IsGreatest {t | ∃ r ∈ rows, r.ts = t} s.endTS
  error : s.error = true ↔ ∃ r ∈ rows, errorLevel rt r.level
  named : ∃ r ∈ rows, (s.name = logTraceName r.message ∧ s.service = logService r ∧
    s.container = containerFromEntityUID r.entityUID) ∧ ∀ r' ∈ rows, r.ts ≤ r'.ts

/-- What the summary of a key should be: that of its spans if there are any. -/
def ReferenceSummary (rt : Runtime) (sqlTraceID : LogRow → String) (spans : List SpanRow)
    (logs : List LogRow) (s : TraceSummary) : Prop :=
  if spansOf rt spans (traceKey rt s.traceID) = [] then
    LogSummary rt (logsOf rt sqlTraceID logs (traceKey rt s.traceID)) s
  else SpanSummary (spansOf rt spans (traceKey rt s.traceID)) s

/-- Whether a key is listed: some row has it, for a log row not the empty one, and some row of the
source names the service that is asked for. -/
def ReferenceKey (rt : Runtime) (sqlTraceID : LogRow → String) (spans : List SpanRow)
    (logs : List LogRow) (service key : String) : Prop :=
  if spansOf rt spans key = [] then
    key ≠ "" ∧ ∃ r ∈ logsOf rt sqlTraceID logs key, service = "" ∨ service = logService r
  else ∃ r ∈ spansOf rt spans key,
    service = "" ∨ service = r.service ∨ service = inferServiceFromContainer r.container

/-- What a page should be: one summary for each listed key, newest first, and of these the slice
at the offset. -/
def ReferencePage (rt : Runtime) (sqlTraceID : LogRow → String) (spans : List SpanRow)
    (logs : List LogRow) (service : String) (limit offset : ℕ) (out : TracePage) : Prop :=
  ∃ sorted : List TraceSummary,
    (sorted.map fun s => traceKey rt s.traceID).Nodup ∧
    (∀ key, (∃ s ∈ sorted, traceKey rt s.traceID = key) ↔
      ReferenceKey rt sqlTraceID spans logs service key) ∧
    (∀ s ∈ sorted, ReferenceSummary rt sqlTraceID spans logs s) ∧
    (sorted.Pairwise fun a b => b.startTS ≤ a.startTS) ∧
    out.total = sorted.length ∧ out.traces = (sorted.drop offset).take limit

/-! ### One key -/

/-- One span under its key. -/
def spanStep (o : Option TraceGroup) (r : SpanRow) : Option TraceGroup :=
  some ((o.getD (.new r.traceID .otlp r.startTS r.endTS)).addSpan r)

/-- One log row under its key. -/
def logStep (rt : Runtime) (sqlTraceID : LogRow → String) (o : Option TraceGroup) (r : LogRow) :
    Option TraceGroup :=
  let g := o.getD (.new (sqlTraceID r) .logs r.ts r.ts)
  if traceKey rt (sqlTraceID r) = "" then o
  else if g.summary.source = .otlp then o
  else some (g.addLog rt r)

theorem get?_addSpan_self (rt : Runtime) (m : SortedMap String TraceGroup) (r : SpanRow) :
    (addSpan rt m r).get? (traceKey rt r.traceID) = spanStep (m.get? (traceKey rt r.traceID)) r :=
  get?_insert_self ..

theorem get?_addLog_self (rt : Runtime) (sqlTraceID : LogRow → String)
    (m : SortedMap String TraceGroup) (r : LogRow) :
    (addLog rt sqlTraceID m r).get? (traceKey rt (sqlTraceID r)) =
      logStep rt sqlTraceID (m.get? (traceKey rt (sqlTraceID r))) r := by
  simp only [addLog, logStep]
  split_ifs
  · rfl
  · rfl
  · exact get?_insert_self ..

theorem get?_addLog_of_ne (rt : Runtime) (sqlTraceID : LogRow → String)
    (m : SortedMap String TraceGroup) (r : LogRow) (key : String)
    (h : traceKey rt (sqlTraceID r) ≠ key) : (addLog rt sqlTraceID m r).get? key = m.get? key := by
  simp only [addLog]
  split_ifs
  · rfl
  · rfl
  · exact get?_insert_of_ne h

/-- The group of a key comes from the rows of the key. -/
theorem get?_scanned (rt : Runtime) (sqlTraceID : LogRow → String) (spanRows : List SpanRow)
    (logRows : List LogRow) (key : String) :
    (scanned rt sqlTraceID spanRows logRows).get? key =
      (logsOf rt sqlTraceID logRows key).foldl (logStep rt sqlTraceID)
        ((spansOf rt spanRows key).foldl spanStep none) := by
  rw [scanned, get?_foldl_keyed (get?_addLog_self rt sqlTraceID) (get?_addLog_of_ne rt sqlTraceID)
    (fun _ => decide_eq_true_iff), get?_foldl_keyed (get?_addSpan_self rt)
    (fun _ _ _ h => get?_insert_of_ne h) (fun _ => decide_eq_true_iff)]
  rfl

/-- The names of a summary. -/
def TraceSummary.names (s : TraceSummary) : String × String × String :=
  (s.name, s.service, s.container)

/-! ### Spans -/

/-- What a group is after some spans, newest first: the summary, named after the last of them as
long as all have parents, and the services. -/
structure SpanGroup (rows : List SpanRow) (g : TraceGroup) : Prop where
  source : g.summary.source = .otlp
  spanCount : g.summary.spanCount = rows.length
  startTS : IsLeast {t | ∃ r ∈ rows, r.startTS = t} g.summary.startTS
  endTS : IsGreatest {t | ∃ r ∈ rows, r.endTS = t} g.summary.endTS
  error : g.summary.error = true ↔ ∃ r ∈ rows, r.status = "error"
  hasRoot : g.hasRoot = true ↔ ∃ r ∈ rows, r.parentSpanID = ""
  named : ∃ r ∈ rows, g.summary.names = (r.name, r.service, r.container) ∧
    (r.parentSpanID = "" ∨ g.hasRoot = false ∧ rows.getLast? = some r)
  services : ∀ svc, svc ∈ g.services ↔
    svc ≠ "" ∧ ∃ r ∈ rows, svc = r.service ∨ svc = inferServiceFromContainer r.container

theorem mem_addService {services : List String} {svc x : String} :
    x ∈ addService services svc ↔ x ∈ services ∨ x ≠ "" ∧ x = svc := by
  rw [addService]
  split_ifs with h
  · refine ⟨.inl, fun hx => hx.elim id ?_⟩
    rintro ⟨hne, rfl⟩
    exact h.resolve_left hne
  · push Not at h
    rw [List.mem_append, List.mem_singleton]
    exact or_congr_right ⟨fun hx => ⟨hx ▸ h.1, hx⟩, fun hx => hx.2⟩

theorem setOf_append {ρ : Type} (rows : List ρ) (f : ρ → Time) (r : ρ) :
    {t | ∃ r' ∈ rows ++ [r], f r' = t} = insert (f r) {t | ∃ r' ∈ rows, f r' = t} := by
  ext t
  simp [or_and_right, exists_or, or_comm, eq_comm]

theorem isLeast_append {ρ : Type} {rows : List ρ} {f : ρ → Time} {t : Time} (r : ρ)
    (h : IsLeast {t | ∃ r ∈ rows, f r = t} t) :
    IsLeast {t | ∃ r' ∈ rows ++ [r], f r' = t} (if f r < t then f r else t) := by
  rw [setOf_append, ← min_def_lt]
  exact h.insert (f r)

theorem isGreatest_append {ρ : Type} {rows : List ρ} {f : ρ → Time} {t : Time} (r : ρ)
    (h : IsGreatest {t | ∃ r ∈ rows, f r = t} t) :
    IsGreatest {t | ∃ r' ∈ rows ++ [r], f r' = t} (if t < f r then f r else t) := by
  rw [setOf_append, ← max_def_lt, max_comm]
  exact h.insert (f r)

theorem setOf_singleton {ρ : Type} (f : ρ → Time) (r : ρ) :
    {t | ∃ r' ∈ [r], f r' = t} = {f r} := by
  ext t
  simp [eq_comm]

/-! The fields of a group with a span more. -/

section Fields

variable (g : TraceGroup) (r : SpanRow)

theorem source_addSpan : (g.addSpan r).summary.source = g.summary.source := by
  simp only [TraceGroup.addSpan, TraceSummary.extend]
  split_ifs <;> rfl

theorem spanCount_addSpan : (g.addSpan r).summary.spanCount = g.summary.spanCount + 1 := by
  simp only [TraceGroup.addSpan, TraceSummary.extend]
  split_ifs <;> rfl

theorem startTS_addSpan : (g.addSpan r).summary.startTS =
    if r.startTS < g.summary.startTS then r.startTS else g.summary.startTS := by
  simp only [TraceGroup.addSpan, TraceSummary.extend]
  split_ifs <;> rfl

theorem endTS_addSpan : (g.addSpan r).summary.endTS =
    if g.summary.endTS < r.endTS then r.endTS else g.summary.endTS := by
  simp only [TraceGroup.addSpan, TraceSummary.extend]
  split_ifs <;> rfl

theorem error_addSpan : (g.addSpan r).summary.error = true ↔
    g.summary.error = true ∨ r.status = "error" := by
  by_cases hstatus : r.status = "error" <;> by_cases hroot : g.hasRoot = true <;>
    simp [TraceGroup.addSpan, TraceSummary.extend, hstatus, hroot]

theorem hasRoot_addSpan : (g.addSpan r).hasRoot = true ↔
    g.hasRoot = true ∨ r.parentSpanID = "" := by
  simp only [TraceGroup.addSpan]
  split_ifs with h <;> simp [h]

theorem names_addSpan : (g.addSpan r).summary.names =
    if g.hasRoot = true then g.summary.names else (r.name, r.service, r.container) := by
  simp only [TraceGroup.addSpan, TraceSummary.extend]
  split_ifs <;> rfl

theorem services_addSpan (svc : String) : svc ∈ (g.addSpan r).services ↔ svc ∈ g.services ∨
    svc ≠ "" ∧ (svc = r.service ∨ svc = inferServiceFromContainer r.container) := by
  have hservices : (g.addSpan r).services = addService (addService g.services r.service)
      (inferServiceFromContainer r.container) := by
    simp only [TraceGroup.addSpan]
    split_ifs <;> rfl
  rw [hservices, mem_addService, mem_addService, or_assoc, and_or_left]

end Fields

/-- A group of one span. -/
theorem SpanGroup.first (r : SpanRow) :
    SpanGroup [r] ((TraceGroup.new r.traceID .otlp r.startTS r.endTS).addSpan r) := by
  constructor
  · rw [source_addSpan]
    rfl
  · rw [spanCount_addSpan]
    rfl
  · rw [startTS_addSpan, setOf_singleton]
    exact (ite_self (c := _) r.startTS).symm ▸ isLeast_singleton
  · rw [endTS_addSpan, setOf_singleton]
    exact (ite_self (c := _) r.endTS).symm ▸ isGreatest_singleton
  · rw [error_addSpan]
    simp [TraceGroup.new]
  · rw [hasRoot_addSpan]
    simp [TraceGroup.new]
  · refine ⟨r, List.mem_singleton_self r, names_addSpan _ r, ?_⟩
    by_cases hroot : r.parentSpanID = ""
    · exact .inl hroot
    · refine .inr ⟨Bool.eq_false_iff.mpr fun h => ?_, rfl⟩
      exact ((hasRoot_addSpan _ r).mp h).elim (fun h => absurd h Bool.false_ne_true) hroot
  · intro svc
    rw [services_addSpan]
    simp [TraceGroup.new]

/-- A span more. -/
theorem SpanGroup.addSpan {rows : List SpanRow} {g : TraceGroup} (h : SpanGroup rows g)
    (r : SpanRow) : SpanGroup (rows ++ [r]) (g.addSpan r) := by
  constructor
  · rw [source_addSpan, h.source]
  · rw [spanCount_addSpan, h.spanCount, List.length_append]
    rfl
  · rw [startTS_addSpan]
    exact isLeast_append r h.startTS
  · rw [endTS_addSpan]
    exact isGreatest_append r h.endTS
  · rw [error_addSpan, h.error]
    simp [or_and_right, exists_or]
  · rw [hasRoot_addSpan, h.hasRoot]
    simp [or_and_right, exists_or]
  · rw [names_addSpan]
    split_ifs with hroot
    · -- the group is named after a root already
      obtain ⟨r₀, hr₀, hnames, hkind⟩ := h.named
      refine ⟨r₀, List.mem_append_left _ hr₀, hnames, .inl (hkind.resolve_right fun hnone => ?_)⟩
      exact absurd (hroot.symm.trans hnone.1) (by decide)
    · refine ⟨r, List.mem_append_right _ (List.mem_singleton_self r), rfl, ?_⟩
      by_cases hparent : r.parentSpanID = ""
      · exact .inl hparent
      · refine .inr ⟨Bool.eq_false_iff.mpr fun h => ?_, List.getLast?_concat⟩
        exact ((hasRoot_addSpan g r).mp h).elim hroot hparent
  · intro svc
    rw [services_addSpan, h.services, ← and_or_left]
    refine and_congr_right fun _ => ?_
    simp [or_and_right, exists_or]

/-- The group of some spans. -/
theorem spanGroup_foldl {rows : List SpanRow} (h : rows ≠ []) :
    ∃ g, rows.foldl spanStep none = some g ∧ SpanGroup rows g := by
  induction rows using List.reverseRecOn with
  | nil => exact absurd rfl h
  | append_singleton rows r ih =>
    rw [List.foldl_append, List.foldl_cons, List.foldl_nil]
    by_cases hrows : rows = []
    · subst hrows
      exact ⟨_, rfl, SpanGroup.first r⟩
    · obtain ⟨g, hg, hgroup⟩ := ih hrows
      rw [hg]
      exact ⟨_, rfl, hgroup.addSpan r⟩

/-- The last of rows that come newest first is an earliest one. -/
theorem le_of_getLast? {ρ : Type} {f : ρ → Time} {rows : List ρ} {r : ρ}
    (h : rows.Pairwise fun a b => f b ≤ f a) (hlast : rows.getLast? = some r) :
    ∀ r' ∈ rows, f r ≤ f r' := by
  obtain ⟨before, rfl⟩ := List.getLast?_eq_some_iff.mp hlast
  intro r' hr'
  rcases List.mem_append.mp hr' with hr' | hr'
  · exact (List.pairwise_append.mp h).2.2 r' hr' r (List.mem_singleton_self r)
  · rw [List.mem_singleton.mp hr']

/-- The summary of spans that come newest first. -/
theorem SpanGroup.summary {rows : List SpanRow} {g : TraceGroup} (h : SpanGroup rows g)
    (hsorted : rows.Pairwise fun a b => b.startTS ≤ a.startTS) : SpanSummary rows g.summary := by
  refine ⟨h.source, h.spanCount, h.startTS, h.endTS, h.error, ?_⟩
  obtain ⟨r, hr, hnames, hkind⟩ := h.named
  rw [TraceSummary.names, Prod.mk.injEq, Prod.mk.injEq] at hnames
  refine ⟨r, hr, hnames, hkind.imp_right fun hlast => ⟨fun r' hr' hparent => ?_, ?_⟩⟩
  · exact absurd (hlast.1.symm.trans (h.hasRoot.mpr ⟨r', hr', hparent⟩)) (by decide)
  · exact le_of_getLast? hsorted hlast.2

/-! ### Log rows -/

/-- What a group is after some log rows, newest first: named after the last of them. -/
structure LogGroup (rt : Runtime) (rows : List LogRow) (g : TraceGroup) : Prop where
  source : g.summary.source = .logs
  spanCount : g.summary.spanCount = rows.length
  startTS : IsLeast {t | ∃ r ∈ rows, r.ts = t} g.summary.startTS
  endTS : IsGreatest {t | ∃ r ∈ rows, r.ts = t} g.summary.endTS
  error : g.summary.error = true ↔ ∃ r ∈ rows, errorLevel rt r.level
  named : ∃ r, rows.getLast? = some r ∧ g.summary.names =
    (logTraceName r.message, logService r, containerFromEntityUID r.entityUID)
  services : ∀ svc, svc ∈ g.services ↔ svc ≠ "" ∧ ∃ r ∈ rows, svc = logService r

/-! The fields of a group with a log row more. -/

section Fields

variable (rt : Runtime) (g : TraceGroup) (r : LogRow)

theorem source_addLog : (g.addLog rt r).summary.source = g.summary.source := by
  simp only [TraceGroup.addLog, TraceSummary.extend]
  split_ifs <;> rfl

theorem spanCount_addLog : (g.addLog rt r).summary.spanCount = g.summary.spanCount + 1 := by
  simp only [TraceGroup.addLog, TraceSummary.extend]
  split_ifs <;> rfl

theorem startTS_addLog : (g.addLog rt r).summary.startTS =
    if r.ts < g.summary.startTS then r.ts else g.summary.startTS := by
  simp only [TraceGroup.addLog, TraceSummary.extend]
  split_ifs <;> rfl

theorem endTS_addLog : (g.addLog rt r).summary.endTS =
    if g.summary.endTS < r.ts then r.ts else g.summary.endTS := by
  simp only [TraceGroup.addLog, TraceSummary.extend]
  split_ifs <;> rfl

theorem error_addLog : (g.addLog rt r).summary.error = true ↔
    g.summary.error = true ∨ errorLevel rt r.level := by
  rw [errorLevel]
  by_cases hlevel : rt.toLower r.level ∈ ["error", "fatal", "critical"]
  · simp only [TraceGroup.addLog, TraceSummary.extend, hlevel, if_true, or_true]
  · simp only [TraceGroup.addLog, TraceSummary.extend, hlevel, if_false, or_false]

theorem names_addLog : (g.addLog rt r).summary.names =
    (logTraceName r.message, logService r, containerFromEntityUID r.entityUID) := rfl

theorem services_addLog (svc : String) : svc ∈ (g.addLog rt r).services ↔
    svc ∈ g.services ∨ svc ≠ "" ∧ svc = logService r :=
  mem_addService

end Fields

/-- A group of one log row. -/
theorem LogGroup.first (rt : Runtime) (traceID : String) (r : LogRow) :
    LogGroup rt [r] ((TraceGroup.new traceID .logs r.ts r.ts).addLog rt r) := by
  constructor
  · rw [source_addLog]
    rfl
  · rw [spanCount_addLog]
    rfl
  · rw [startTS_addLog, setOf_singleton]
    exact (ite_self (c := _) r.ts).symm ▸ isLeast_singleton
  · rw [endTS_addLog, setOf_singleton]
    exact (ite_self (c := _) r.ts).symm ▸ isGreatest_singleton
  · rw [error_addLog]
    simp [TraceGroup.new]
  · exact ⟨r, rfl, names_addLog rt _ r⟩
  · intro svc
    rw [services_addLog]
    simp [TraceGroup.new]

/-- A log row more. -/
theorem LogGroup.addLog {rt : Runtime} {rows : List LogRow} {g : TraceGroup}
    (h : LogGroup rt rows g) (r : LogRow) : LogGroup rt (rows ++ [r]) (g.addLog rt r) := by
  constructor
  · rw [source_addLog, h.source]
  · rw [spanCount_addLog, h.spanCount, List.length_append]
    rfl
  · rw [startTS_addLog]
    exact isLeast_append r h.startTS
  · rw [endTS_addLog]
    exact isGreatest_append r h.endTS
  · rw [error_addLog, h.error]
    simp [or_and_right, exists_or]
  · exact ⟨r, List.getLast?_concat, names_addLog rt g r⟩
  · intro svc
    rw [services_addLog, h.services, ← and_or_left]
    refine and_congr_right fun _ => ?_
    simp [or_and_right, exists_or]

/-- A group of spans takes no log rows. -/
theorem foldl_logStep_otlp {rt : Runtime} {sqlTraceID : LogRow → String} {g : TraceGroup}
    (h : g.summary.source = .otlp) (rows : List LogRow) :
    rows.foldl (logStep rt sqlTraceID) (some g) = some g := by
  induction rows with
  | nil => rfl
  | cons r rows ih =>
    have hstep : logStep rt sqlTraceID (some g) r = some g := by
      simp only [logStep, Option.getD_some, if_pos h, ite_self]
    rw [List.foldl_cons, hstep, ih]

/-- Log rows of the empty key make no group. -/
theorem foldl_logStep_empty {rt : Runtime} {sqlTraceID : LogRow → String} {rows : List LogRow}
    (h : ∀ r ∈ rows, traceKey rt (sqlTraceID r) = "") (o : Option TraceGroup) :
    rows.foldl (logStep rt sqlTraceID) o = o := by
  induction rows with
  | nil => rfl
  | cons r rows ih =>
    obtain ⟨hr, hrows⟩ := List.forall_mem_cons.mp h
    have hstep : logStep rt sqlTraceID o r = o := by simp only [logStep, if_pos hr]
    rw [List.foldl_cons, hstep, ih hrows]

/-- The group of some log rows. -/
theorem logGroup_foldl {rt : Runtime} {sqlTraceID : LogRow → String} {rows : List LogRow}
    (h : rows ≠ []) (hkey : ∀ r ∈ rows, traceKey rt (sqlTraceID r) ≠ "") :
    ∃ g, rows.foldl (logStep rt sqlTraceID) none = some g ∧ LogGroup rt rows g := by
  induction rows using List.reverseRecOn with
  | nil => exact absurd rfl h
  | append_singleton rows r ih =>
    have hr := hkey r (List.mem_append_right _ (List.mem_singleton_self r))
    have hlogs : TraceSource.logs ≠ .otlp := by decide
    have hsource : (TraceGroup.new (sqlTraceID r) .logs r.ts r.ts).summary.source ≠ .otlp := hlogs
    rw [List.foldl_append, List.foldl_cons, List.foldl_nil]
    by_cases hrows : rows = []
    · subst hrows
      refine ⟨_, ?_, LogGroup.first rt (sqlTraceID r) r⟩
      simp only [List.foldl_nil, logStep, Option.getD_none, if_neg hr]
      exact if_neg hsource
    · obtain ⟨g, hg, hgroup⟩ := ih hrows fun r' hr' => hkey r' (List.mem_append_left _ hr')
      rw [hg]
      refine ⟨_, ?_, hgroup.addLog r⟩
      simp only [logStep, Option.getD_some, if_neg hr, hgroup.source, if_neg hlogs]

/-- The summary of log rows that come newest first. -/
theorem LogGroup.summary {rt : Runtime} {rows : List LogRow} {g : TraceGroup}
    (h : LogGroup rt rows g) (hsorted : rows.Pairwise fun a b => b.ts ≤ a.ts) :
    LogSummary rt rows g.summary := by
  refine ⟨h.source, h.spanCount, h.startTS, h.endTS, h.error, ?_⟩
  obtain ⟨r, hlast, hnames⟩ := h.named
  rw [TraceSummary.names, Prod.mk.injEq, Prod.mk.injEq] at hnames
  exact ⟨r, List.mem_of_getLast? hlast, hnames, le_of_getLast? hsorted hlast⟩

/-! ### Groups and summaries -/

theorem mem_logsOf {rt : Runtime} {sqlTraceID : LogRow → String} {logs : List LogRow}
    {key : String} {r : LogRow} :
    r ∈ logsOf rt sqlTraceID logs key ↔ r ∈ logs ∧ traceKey rt (sqlTraceID r) = key := by
  rw [logsOf, List.mem_filter, decide_eq_true_iff]

/-- What the group of a key is, for a key of spans and for one of log rows only. -/
def GroupOf (rt : Runtime) (sqlTraceID : LogRow → String) (spanRows : List SpanRow)
    (logRows : List LogRow) (key : String) (g : TraceGroup) : Prop :=
  if spansOf rt spanRows key = [] then LogGroup rt (logsOf rt sqlTraceID logRows key) g
  else SpanGroup (spansOf rt spanRows key) g

/-- The group of a key that has rows. -/
theorem exists_group {rt : Runtime} {sqlTraceID : LogRow → String} {spanRows : List SpanRow}
    {logRows : List LogRow} {key : String} (h : spansOf rt spanRows key ≠ [] ∨
      key ≠ "" ∧ logsOf rt sqlTraceID logRows key ≠ []) :
    ∃ g, (scanned rt sqlTraceID spanRows logRows).get? key = some g ∧
      GroupOf rt sqlTraceID spanRows logRows key g := by
  rw [get?_scanned]
  by_cases hspans : spansOf rt spanRows key = []
  · obtain ⟨hkey, hlogs⟩ := h.resolve_left fun hne => hne hspans
    obtain ⟨g, hg, hgroup⟩ := logGroup_foldl hlogs fun r hr => by
      rw [(mem_logsOf.mp hr).2]
      exact hkey
    rw [hspans]
    exact ⟨g, hg, (if_pos hspans).mpr hgroup⟩
  · obtain ⟨g, hg, hgroup⟩ := spanGroup_foldl hspans
    rw [hg]
    exact ⟨g, foldl_logStep_otlp hgroup.source _, (if_neg hspans).mpr hgroup⟩

/-- A key without rows has no group. -/
theorem get?_scanned_eq_none {rt : Runtime} {sqlTraceID : LogRow → String}
    {spanRows : List SpanRow} {logRows : List LogRow} {key : String}
    (hspans : spansOf rt spanRows key = [])
    (hlogs : key = "" ∨ logsOf rt sqlTraceID logRows key = []) :
    (scanned rt sqlTraceID spanRows logRows).get? key = none := by
  rw [get?_scanned, hspans]
  rcases hlogs with hkey | hlogs
  · refine foldl_logStep_empty (fun r hr => ?_) _
    rw [(mem_logsOf.mp hr).2, hkey]
  · rw [hlogs]
    rfl

theorem SpanSummary.perm {rows rows' : List SpanRow} {s : TraceSummary} (h : rows.Perm rows')
    (hs : SpanSummary rows s) : SpanSummary rows' s := by
  obtain ⟨hsource, hcount, hstart, hend, herror, hnamed⟩ := hs
  simp only [h.mem_iff] at hstart hend herror hnamed
  exact ⟨hsource, hcount.trans h.length_eq, hstart, hend, herror, hnamed⟩

theorem LogSummary.perm {rt : Runtime} {rows rows' : List LogRow} {s : TraceSummary}
    (h : rows.Perm rows') (hs : LogSummary rt rows s) : LogSummary rt rows' s := by
  obtain ⟨hsource, hcount, hstart, hend, herror, hnamed⟩ := hs
  simp only [h.mem_iff] at hstart hend herror hnamed
  exact ⟨hsource, hcount.trans h.length_eq, hstart, hend, herror, hnamed⟩

/-- A summary that is returned has a duration more. -/
theorem SpanSummary.result {rows : List SpanRow} {g : TraceGroup}
    (h : SpanSummary rows g.summary) : SpanSummary rows g.result := by
  rw [TraceGroup.result]
  split_ifs
  · exact ⟨h.source, h.spanCount, h.startTS, h.endTS, h.error, h.named⟩
  · exact h

theorem LogSummary.result {rt : Runtime} {rows : List LogRow} {g : TraceGroup}
    (h : LogSummary rt rows g.summary) : LogSummary rt rows g.result := by
  rw [TraceGroup.result]
  split_ifs
  · exact ⟨h.source, h.spanCount, h.startTS, h.endTS, h.error, h.named⟩
  · exact h

theorem traceID_result (g : TraceGroup) : g.result.traceID = g.summary.traceID := by
  rw [TraceGroup.result]
  split_ifs <;> rfl

/-- A group is listed when some of its rows names the service. -/
theorem GroupOf.listed_iff {rt : Runtime} {sqlTraceID : LogRow → String} {spanRows : List SpanRow}
    {logRows : List LogRow} {key : String} {g : TraceGroup}
    (h : GroupOf rt sqlTraceID spanRows logRows key g) (filter : TraceListFilter)
    (hkey : spansOf rt spanRows key = [] → key ≠ "" ∧ logsOf rt sqlTraceID logRows key ≠ []) :
    g.listed filter = true ↔
      ReferenceKey rt sqlTraceID spanRows logRows filter.service key := by
  rw [GroupOf] at h
  rw [TraceGroup.listed, ReferenceKey, Bool.or_eq_true, beq_iff_eq, List.contains_iff_mem]
  split_ifs at h ⊢ with hspans
  · obtain ⟨hne, hlogs⟩ := hkey hspans
    obtain ⟨r, hr⟩ := List.exists_mem_of_ne_nil _ hlogs
    rw [h.services]
    constructor
    · rintro (hempty | ⟨-, r, hr, hsvc⟩)
      · exact ⟨hne, r, hr, .inl hempty⟩
      · exact ⟨hne, r, hr, .inr hsvc⟩
    · rintro ⟨-, r, hr, hsvc⟩
      by_cases hempty : filter.service = ""
      · exact .inl hempty
      · exact .inr ⟨hempty, r, hr, hsvc.resolve_left hempty⟩
  · obtain ⟨r, hr⟩ := List.exists_mem_of_ne_nil _ hspans
    rw [h.services]
    constructor
    · rintro (hempty | ⟨-, r, hr, hsvc⟩)
      · exact ⟨r, hr, .inl hempty⟩
      · exact ⟨r, hr, .inr hsvc⟩
    · rintro ⟨r, hr, hsvc⟩
      by_cases hempty : filter.service = ""
      · exact .inl hempty
      · exact .inr ⟨hempty, r, hr, hsvc.resolve_left hempty⟩

/-- Which keys are listed after a scan. -/
theorem exists_listed_iff {rt : Runtime} {sqlTraceID : LogRow → String} {spanRows : List SpanRow}
    {logRows : List LogRow} (filter : TraceListFilter) (key : String) :
    (∃ g, (scanned rt sqlTraceID spanRows logRows).get? key = some g ∧ g.listed filter = true) ↔
      ReferenceKey rt sqlTraceID spanRows logRows filter.service key := by
  by_cases h : spansOf rt spanRows key ≠ [] ∨ key ≠ "" ∧ logsOf rt sqlTraceID logRows key ≠ []
  · obtain ⟨g, hg, hgroup⟩ := exists_group h
    have hlisted := hgroup.listed_iff filter fun hspans => h.resolve_left fun hne => hne hspans
    rw [← hlisted]
    constructor
    · rintro ⟨g', hg', hl⟩
      rwa [Option.some.inj (hg.symm.trans hg')]
    · exact fun hl => ⟨g, hg, hl⟩
  · push Not at h
    have hnone := get?_scanned_eq_none h.1 (or_iff_not_imp_left.mpr h.2)
    refine iff_of_false (fun hex => ?_) fun href => ?_
    · obtain ⟨g, hg, -⟩ := hex
      exact absurd (hnone.symm.trans hg) (by simp)
    · rw [ReferenceKey, if_pos h.1] at href
      obtain ⟨hne, r, hr, -⟩ := href
      rw [h.2 hne] at hr
      exact absurd hr List.not_mem_nil

/-! ### Pages -/

/-- The spans of the window, by their instants. -/
def spansWithin (spans : List SpanRow) (filter : TraceListFilter) : List SpanRow :=
  spans.filter fun r => within filter.since filter.until_ r.startTS

/-- The log rows of the window, by their instants. -/
def logsWithin (logs : List LogRow) (filter : TraceListFilter) : List LogRow :=
  logs.filter fun r => within filter.since filter.until_ r.ts

/-- The condition on the fields of a log row. -/
def carriesTraceID (r : LogRow) : Bool :=
  like "%\"trace_id\"%" r.fieldsJSON || like "%\"traceId\"%" r.fieldsJSON

/-- A scan that is not cut off has its rows newest first, where texts sort like instants. -/
theorem sorted_of_newestPage {ρ : Type} {ts : ρ → Time} {rows out : List ρ} {times : List Time}
    (h : NewestPage ts rows traceListScanLimit 0 out) (hrows : rows.length < traceListScanLimit)
    (htimes : TextsAgree times) (hmem : ∀ r ∈ rows, ts r ∈ times) :
    out.Perm rows ∧ out.Pairwise fun a b => ts b ≤ ts a := by
  obtain ⟨sorted, ⟨hperm, hsorted⟩, rfl⟩ := h
  rw [List.drop_zero, List.take_of_length_le (hperm.length_eq.trans_le hrows.le)]
  refine ⟨hperm, hsorted.imp_of_mem fun ha hb hab => ?_⟩
  exact (htimes _ (hmem _ (hperm.mem_iff.mp hb)) _ (hmem _ (hperm.mem_iff.mp ha))).mp hab

section Window

variable {rt : Runtime} {sqlTraceID : LogRow → String} {filter : TraceListFilter}

theorem windowSpans_eq {spans : List SpanRow}
    (h : TextsAgree (filter.since :: filter.until_ :: spans.map SpanRow.startTS)) :
    windowSpans spans filter = spansWithin spans filter :=
  List.filter_congr fun _ hr => h.inWindow_eq List.mem_cons_self
    (List.mem_cons_of_mem _ List.mem_cons_self)
    (List.mem_cons_of_mem _ (List.mem_cons_of_mem _ (List.mem_map_of_mem hr)))

theorem windowLogs_eq {logs : List LogRow}
    (h : TextsAgree (filter.since :: filter.until_ :: logs.map LogRow.ts)) :
    windowLogs logs filter = (logsWithin logs filter).filter carriesTraceID := by
  rw [windowLogs, logsWithin, List.filter_filter]
  refine List.filter_congr fun _ hr => ?_
  rw [h.inWindow_eq List.mem_cons_self (List.mem_cons_of_mem _ List.mem_cons_self)
    (List.mem_cons_of_mem _ (List.mem_cons_of_mem _ (List.mem_map_of_mem hr))), Bool.and_comm]
  rfl

/-- Only rows with a trace id among their fields have a key. -/
theorem logsOf_filter {logs : List LogRow} {key : String}
    (hsql : ∀ r ∈ logs, carriesTraceID r = false → sqlTraceID r = "") (hkey : key ≠ "") :
    logsOf rt sqlTraceID (logs.filter carriesTraceID) key = logsOf rt sqlTraceID logs key := by
  rw [logsOf, logsOf, List.filter_filter]
  refine List.filter_congr fun r hr => ?_
  cases hcarries : carriesTraceID r with
  | true => exact Bool.and_true _
  | false =>
    have hempty : traceKey rt (sqlTraceID r) = "" := by
      rw [hsql r hr hcarries]
      rfl
    rw [hempty, Bool.and_false]
    exact (decide_eq_false (Ne.symm hkey)).symm

theorem spansOf_perm {spans spans' : List SpanRow} (h : spans.Perm spans') (key : String) :
    (spansOf rt spans key).Perm (spansOf rt spans' key) :=
  h.filter _

theorem spansOf_eq_nil_congr {spans spans' : List SpanRow} (h : spans.Perm spans') (key : String) :
    spansOf rt spans key = [] ↔ spansOf rt spans' key = [] := by
  rw [← List.length_eq_zero_iff, (spansOf_perm h key).length_eq, List.length_eq_zero_iff]

/-- The reference does not depend on the order of spans, nor on log rows without a key. -/
theorem referenceKey_congr {spans spans' : List SpanRow} {logs logs' : List LogRow} {key : String}
    (hspans : spans.Perm spans')
    (hlogs : key ≠ "" → (logsOf rt sqlTraceID logs key).Perm (logsOf rt sqlTraceID logs' key))
    (service : String) : ReferenceKey rt sqlTraceID spans logs service key ↔
      ReferenceKey rt sqlTraceID spans' logs' service key := by
  have hnil := @spansOf_eq_nil_congr rt _ _ hspans key
  rw [ReferenceKey, ReferenceKey]
  by_cases h : spansOf rt spans key = []
  · rw [if_pos h, if_pos (hnil.mp h)]
    exact and_congr_right fun hkey => by simp only [(hlogs hkey).mem_iff]
  · rw [if_neg h, if_neg (mt hnil.mpr h)]
    simp only [(spansOf_perm hspans key).mem_iff]

theorem referenceSummary_of_group {spans spans' : List SpanRow} {logs logs' : List LogRow}
    {g : TraceGroup} (hspans : spans.Perm spans')
    (hspanOrder : spans.Pairwise fun a b => b.startTS ≤ a.startTS)
    (hlogs : traceKey rt g.summary.traceID ≠ "" →
      (logsOf rt sqlTraceID logs (traceKey rt g.summary.traceID)).Perm
        (logsOf rt sqlTraceID logs' (traceKey rt g.summary.traceID)))
    (hlogOrder : logs.Pairwise fun a b => b.ts ≤ a.ts)
    (h : GroupOf rt sqlTraceID spans logs (traceKey rt g.summary.traceID) g)
    (hkey : spansOf rt spans (traceKey rt g.summary.traceID) = [] →
      traceKey rt g.summary.traceID ≠ "") :
    ReferenceSummary rt sqlTraceID spans' logs' g.result := by
  have hnil' := @spansOf_eq_nil_congr rt _ _ hspans (traceKey rt g.summary.traceID)
  rw [ReferenceSummary, traceID_result]
  rw [GroupOf] at h
  by_cases hnil : spansOf rt spans (traceKey rt g.summary.traceID) = []
  · rw [if_pos hnil] at h
    rw [if_pos (hnil'.mp hnil)]
    exact ((h.summary (hlogOrder.filter _)).perm (hlogs (hkey hnil))).result
  · rw [if_neg hnil] at h
    rw [if_neg (mt hnil'.mpr hnil)]
    exact ((h.summary (hspanOrder.filter _)).perm (spansOf_perm hspans _)).result

/-- The keys of the summaries of a scan are different. -/
theorem nodup_keys {byKey : SortedMap String TraceGroup} (h : Keyed rt byKey) :
    (((byKey.values.filter (TraceGroup.listed filter)).map TraceGroup.result).map fun s =>
      traceKey rt s.traceID).Nodup := by
  have hlisted := congrArg (List.map Prod.fst) (@map_listed rt filter byKey h)
  rw [List.map_map] at hlisted
  have hkeys : (listing filter byKey).map Prod.fst =
      (byKey.entries.filter fun e => e.2.listed filter).map Prod.fst := by
    rw [listing, List.map_map]
    rfl
  refine (hlisted.trans hkeys).symm ▸ ?_
  exact ((byKey.sorted_keys.imp fun hlt => hlt.ne).sublist (List.filter_sublist.map _))

/-- The summaries of a scan come from its groups. -/
theorem mem_results {byKey : SortedMap String TraceGroup} (h : Keyed rt byKey) {s : TraceSummary} :
    s ∈ (byKey.values.filter (TraceGroup.listed filter)).map TraceGroup.result ↔
      ∃ g, byKey.get? (traceKey rt s.traceID) = some g ∧ g.listed filter = true ∧
        g.result = s := by
  constructor
  · intro hs
    obtain ⟨g, hg, rfl⟩ := List.mem_map.mp hs
    obtain ⟨hg, hlisted⟩ := List.mem_filter.mp hg
    obtain ⟨key, hget⟩ := mem_values.mp hg
    rw [traceID_result, h key g hget]
    exact ⟨g, hget, hlisted, rfl⟩
  · rintro ⟨g, hget, hlisted, rfl⟩
    exact List.mem_map_of_mem (List.mem_filter.mpr ⟨mem_values.mpr ⟨_, hget⟩, hlisted⟩)

end Window

/-- A page of rows that come newest first. -/
theorem referencePage_of_sorted {rt : Runtime} {sqlTraceID : LogRow → String}
    {spanRows spans : List SpanRow} {logRows logs : List LogRow} {filter : TraceListFilter}
    {sorted : List TraceSummary} {limit offset : ℕ} {out : TracePage}
    (hspans : spanRows.Perm spans) (hspanOrder : spanRows.Pairwise fun a b => b.startTS ≤ a.startTS)
    (hlogs : ∀ key, key ≠ "" →
      (logsOf rt sqlTraceID logRows key).Perm (logsOf rt sqlTraceID logs key))
    (hlogOrder : logRows.Pairwise fun a b => b.ts ≤ a.ts)
    (hsorted : Ranked TraceSummary.startTS (((scanned rt sqlTraceID spanRows logRows).values.filter
      (TraceGroup.listed filter)).map TraceGroup.result) sorted)
    (htotal : out.total = sorted.length)
    (htraces : out.traces = (sorted.drop (min offset sorted.length)).take limit) :
    ReferencePage rt sqlTraceID spans logs filter.service limit offset out := by
  have hkeyed := keyed_scanned rt sqlTraceID spanRows logRows
  have hmem : ∀ s, s ∈ sorted ↔ ∃ g, (scanned rt sqlTraceID spanRows logRows).get?
      (traceKey rt s.traceID) = some g ∧ g.listed filter = true ∧ g.result = s :=
    fun s => hsorted.1.mem_iff.trans (mem_results hkeyed)
  refine ⟨sorted, ?_, fun key => ?_, fun s hs => ?_, hsorted.2, htotal, ?_⟩
  · exact (hsorted.1.map _).nodup_iff.mpr (nodup_keys hkeyed)
  · rw [← referenceKey_congr hspans (hlogs key) filter.service, ← exists_listed_iff filter key]
    constructor
    · rintro ⟨s, hs, rfl⟩
      obtain ⟨g, hg, hlisted, -⟩ := (hmem s).mp hs
      exact ⟨g, hg, hlisted⟩
    · rintro ⟨g, hg, hlisted⟩
      have hkey : traceKey rt g.result.traceID = key := by
        rw [traceID_result, hkeyed key g hg]
      exact ⟨g.result, (hmem _).mpr ⟨g, by rw [hkey, hg], hlisted, rfl⟩, hkey⟩
  · obtain ⟨g, hg, -, rfl⟩ := (hmem s).mp hs
    rw [traceID_result] at hg
    -- a key with a group has rows
    have hrows : spansOf rt spanRows (traceKey rt g.summary.traceID) ≠ [] ∨
        traceKey rt g.summary.traceID ≠ "" ∧
          logsOf rt sqlTraceID logRows (traceKey rt g.summary.traceID) ≠ [] := by
      by_contra hnone
      push Not at hnone
      have hget := get?_scanned_eq_none hnone.1 (or_iff_not_imp_left.mpr hnone.2)
      exact absurd (hget.symm.trans hg) (by simp)
    obtain ⟨g', hg', hgroup⟩ := exists_group hrows
    obtain rfl := Option.some.inj (hg'.symm.trans hg)
    exact referenceSummary_of_group hspans hspanOrder (hlogs _) hlogOrder hgroup
      fun hnil => (hrows.resolve_left fun hne => hne hnil).1
  · rw [htraces]
    rcases le_total offset sorted.length with hle | hle
    · rw [min_eq_left hle]
    · rw [min_eq_right hle, List.drop_of_length_le le_rfl, List.drop_of_length_le hle]

/-- **Key result.** With fewer than 5000 rows of each kind in the window, and texts that sort like
the instants, `ListTraces` has a page, and every page of it is one of the reference. -/
theorem listTraces_reference (rt : Runtime) {sqlTraceID : LogRow → String} {spans : List SpanRow}
    {logs : List LogRow} {filter : TraceListFilter}
    (hsql : ∀ r ∈ logs, carriesTraceID r = false → sqlTraceID r = "")
    (hspanTexts : TextsAgree (filter.since :: filter.until_ :: spans.map SpanRow.startTS))
    (hlogTexts : TextsAgree (filter.since :: filter.until_ :: logs.map LogRow.ts))
    (hspans : (spansWithin spans filter).length < 5000)
    (hlogs : (logsWithin logs filter).length < 5000) (limit offset : ℕ) :
    (∃ out, ListTraces rt sqlTraceID spans logs filter limit offset out) ∧
      ∀ out, ListTraces rt sqlTraceID spans logs filter limit offset out →
        ReferencePage rt sqlTraceID (spansWithin spans filter) (logsWithin logs filter)
          filter.service (if limit = 0 then 50 else min limit 200) offset out := by
  constructor
  · exact ⟨_, _, _, _, ⟨_, ranked_rankStable _ _, rfl⟩, ⟨_, ranked_rankStable _ _, rfl⟩,
      ranked_rankStable _ _, rfl⟩
  · rintro out ⟨spanRows, logRows, sorted, hspanRows, hlogRows, hsorted, rfl⟩
    rw [windowSpans_eq hspanTexts] at hspanRows
    rw [windowLogs_eq hlogTexts] at hlogRows
    obtain ⟨hspanPerm, hspanOrder⟩ := sorted_of_newestPage hspanRows hspans hspanTexts fun r hr =>
      List.mem_cons_of_mem _
        (List.mem_cons_of_mem _ (List.mem_map_of_mem (List.mem_filter.mp hr).1))
    have hcount := (List.length_filter_le carriesTraceID (logsWithin logs filter)).trans_lt hlogs
    obtain ⟨hlogPerm, hlogOrder⟩ := sorted_of_newestPage hlogRows hcount hlogTexts fun r hr =>
      List.mem_cons_of_mem _ (List.mem_cons_of_mem _ (List.mem_map_of_mem
        (List.mem_filter.mp (List.mem_filter.mp hr).1).1))
    refine
      referencePage_of_sorted hspanPerm hspanOrder (fun key hkey => ?_) hlogOrder hsorted rfl rfl
    have hsql' : ∀ r ∈ logsWithin logs filter, carriesTraceID r = false → sqlTraceID r = "" :=
      fun r hr => hsql r (List.mem_filter.mp hr).1
    rw [← logsOf_filter hsql' hkey]
    exact hlogPerm.filter _

/-- What the query finds under `trace_id`, where that is a text. -/
def fieldTraceID (r : LogRow) : String :=
  match (unmarshalFields r.fieldsJSON).bind fun fields => fields.get? "trace_id" with
  | some (.str id) => id
  | _ => ""

/-- A failed line of a request. -/
def failedLine : LogRow where
  ts := ⟨1000000000⟩
  message := "payment failed"
  level := "error"
  entityUID := "docker:h:shop-payments-1"
  labelsJSON := "\x7b\x7d"
  fieldsJSON := "\x7b\"trace_id\":\"bbbb2222\"\x7d"

/-- A span and a log line of two traces. -/
theorem listTraces_reference_two : ∃ out,
    ListTraces asciiRuntime fieldTraceID [sampleSpan "aaaa1111"] [failedLine] ⟨⟨0⟩, ⟨0⟩, ""⟩ 50 0
        out ∧
      ReferencePage asciiRuntime fieldTraceID
        (spansWithin [sampleSpan "aaaa1111"] ⟨⟨0⟩, ⟨0⟩, ""⟩)
        (logsWithin [failedLine] ⟨⟨0⟩, ⟨0⟩, ""⟩) "" 50 0 out := by
  have hspanTexts : TextsAgree [⟨0⟩, ⟨0⟩, ⟨0⟩] := by
    rw [TextsAgree]
    decide +kernel
  have hlogTexts : TextsAgree [⟨0⟩, ⟨0⟩, ⟨1000000000⟩] := by
    rw [TextsAgree]
    decide +kernel
  have hsql : ∀ r ∈ [failedLine], carriesTraceID r = false → fieldTraceID r = "" := by
    decide +kernel
  obtain ⟨⟨out, hout⟩, href⟩ := @listTraces_reference asciiRuntime fieldTraceID
    [sampleSpan "aaaa1111"] [failedLine] ⟨⟨0⟩, ⟨0⟩, ""⟩ hsql hspanTexts hlogTexts (by decide)
      (by decide) 50 0
  exact ⟨out, hout, href out hout⟩

end Argus
