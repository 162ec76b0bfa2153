import Argus.Insights.Http
import Argus.Store.LogFilters
import Argus.Store.Metrics

/-!
# Views derived from points and entries

`QueryHTTPServiceSummary` sums up the points that come from HTTP logs by service,
`CountLogTopics` counts the topics of log entries. Both read everything since a time; neither has
an end. `get?_aggregate` says what the summary of a service is computed from, and
`topicCounts_filter_iff` when some of the entries have all the counts.
-/

namespace Argus

open Foundations

/-! ### The summary of HTTP services -/

/-- `model.HTTPServiceSummary`. An average that is not a number is none. -/
structure HTTPServiceSummary where
  service : String
  requests : ℤ
  errors : ℤ
  errorRate : Extended
  avgLatencyMs : Option Extended
  maxLatencyMs : Extended

/-- `agg`: what `QueryHTTPServiceSummary` keeps of a service. -/
structure HttpAgg where
  requests : ℤ
  errors : ℤ
  latencies : List Extended

/-- The switch over the metric name, with the additions of `int`. -/
def HttpAgg.add (a : HttpAgg) (r : MetricRow) : HttpAgg :=
  if r.metricName = "http.requests" then
    { a with requests := (a.requests + truncate r.value).bmod (2 ^ 64) }
  else if r.metricName = "http.errors" then
    { a with errors := (a.errors + truncate r.value).bmod (2 ^ 64) }
  else if r.metricName = "http.duration_ms" then { a with latencies := a.latencies ++ [r.value] }
  else a

/-- The service of a point: its label, or the one that its container suggests. -/
def MetricRow.service (r : MetricRow) : String :=
  let labels := Labels.unmarshal r.labelsJSON
  if labels.get "service" = "" then inferServiceFromContainer (labels.get "container")
  else labels.get "service"

/-- One round of the loop over the points. -/
def addHttpRow (byService : SortedMap String HttpAgg) (r : MetricRow) : SortedMap String HttpAgg :=
  if r.service = "" then byService
  else byService.insert r.service (((byService.get? r.service).getD ⟨0, 0, []⟩).add r)

/-- `byService`, after the loop. -/
def aggregate (rows : List MetricRow) : SortedMap String HttpAgg := rows.foldl addHttpRow ∅

/-- The summary of a service. -/
def HttpAgg.summary (service : String) (a : HttpAgg) : HTTPServiceSummary where
  service := service
  requests := a.requests
  errors := a.errors
  errorRate :=
    if 0 < a.requests then divFloat (float64 (.finite a.errors)) a.requests else .finite 0
  avgLatencyMs :=
    if a.latencies = [] then some (.finite 0)
    else (a.latencies.foldlM addFloat (.finite 0)).map fun total =>
      divFloat total a.latencies.length
  maxLatencyMs := a.latencies.foldl (fun max d => if greater d max then d else max) (.finite 0)

/-- The three metrics of the summary. -/
def httpMetric (metricName : String) : Bool :=
  metricName == "http.duration_ms" || metricName == "http.requests" || metricName == "http.errors"

/-- The rows that the summary reads. -/
def summaryRows (db : MetricTables) (since : Time) : List MetricRow :=
  db.points.filter fun r => httpMetric r.metricName && sinceFilter since r.ts

/-- The possible summaries of some rows, which come in any order: one for each service, those with
a higher average latency first. -/
def HTTPSummaryOf (points : List MetricRow) (out : List HTTPServiceSummary) : Prop :=
  ∃ rows : List MetricRow, rows.Perm points ∧
    out.Perm ((aggregate rows).entries.map fun e => e.2.summary e.1) ∧
    ((∀ s ∈ out, s.avgLatencyMs.isSome) → out.Pairwise fun a b =>
      ∀ x ∈ a.avgLatencyMs, ∀ y ∈ b.avgLatencyMs, greater y x = false)

/-- The possible results of `QueryHTTPServiceSummary`. -/
def QueryHTTPServiceSummary (db : MetricTables) (since : Time) (out : List HTTPServiceSummary) :
    Prop :=
  HTTPSummaryOf (summaryRows db since) out

/-- The rows of a service. -/
def rowsOfService (rows : List MetricRow) (service : String) : List MetricRow :=
  rows.filter fun r => decide (r.service = service)

/-- One point under its service. -/
def httpStep (o : Option HttpAgg) (r : MetricRow) : Option HttpAgg :=
  if r.service = "" then o else some ((o.getD ⟨0, 0, []⟩).add r)

theorem get?_addHttpRow_self (m : SortedMap String HttpAgg) (r : MetricRow) :
    (addHttpRow m r).get? r.service = httpStep (m.get? r.service) r := by
  rw [addHttpRow, httpStep]
  split_ifs
  · rfl
  · exact SortedMap.get?_insert_self ..

theorem get?_addHttpRow_of_ne (m : SortedMap String HttpAgg) (r : MetricRow) (service : String)
    (h : r.service ≠ service) : (addHttpRow m r).get? service = m.get? service := by
  rw [addHttpRow]
  split_ifs
  · rfl
  · exact SortedMap.get?_insert_of_ne h

theorem foldl_httpStep {rows : List MetricRow} (h : ∀ r ∈ rows, r.service ≠ "")
    (o : Option HttpAgg) : rows.foldl httpStep o =
      if rows = [] then o else some (rows.foldl HttpAgg.add (o.getD ⟨0, 0, []⟩)) := by
  induction rows generalizing o with
  | nil => rfl
  | cons r rows ih =>
    obtain ⟨hr, hrows⟩ := List.forall_mem_cons.mp h
    rw [List.foldl_cons, ih hrows, if_neg (List.cons_ne_nil r rows), httpStep, if_neg hr]
    split_ifs with hnil
    · rw [hnil]
      rfl
    · rfl

/-- **What a summary is computed from.** The rows of its service, in their order. -/
theorem get?_aggregate {rows : List MetricRow} {service : String} (h : service ≠ "") :
    (aggregate rows).get? service =
      if rowsOfService rows service = [] then none
      else some ((rowsOfService rows service).foldl HttpAgg.add ⟨0, 0, []⟩) := by
  have hservice : ∀ r ∈ rowsOfService rows service, r.service ≠ "" := by
    intro r hr
    rw [of_decide_eq_true (List.mem_filter.mp hr).2]
    exact h
  rw [aggregate, SortedMap.get?_foldl_keyed get?_addHttpRow_self get?_addHttpRow_of_ne
    (fun _ => decide_eq_true_iff)]
  exact foldl_httpStep hservice none

theorem get?_aggregate_empty (rows : List MetricRow) : (aggregate rows).get? "" = none := by
  suffices ∀ m : SortedMap String HttpAgg, m.get? "" = none →
      (rows.foldl addHttpRow m).get? "" = none from this ∅ (SortedMap.get?_empty _)
  induction rows with
  | nil => exact fun m hm => hm
  | cons r rows ih =>
    intro m hm
    refine ih _ ?_
    rw [addHttpRow]
    split_ifs with hr
    · exact hm
    · rwa [SortedMap.get?_insert_of_ne hr]

/-- Rows without a service change nothing. -/
theorem aggregate_filter (rows : List MetricRow) :
    aggregate (rows.filter fun r => decide (r.service ≠ "")) = aggregate rows := by
  suffices ∀ m : SortedMap String HttpAgg, (rows.filter fun r => decide (r.service ≠ "")).foldl
      addHttpRow m = rows.foldl addHttpRow m from this ∅
  induction rows with
  | nil => exact fun _ => rfl
  | cons r rows ih =>
    intro m
    by_cases hr : r.service = ""
    · rw [List.filter_cons_of_neg (by simpa using hr), List.foldl_cons, addHttpRow, if_pos hr, ih]
    · rw [List.filter_cons_of_pos (by simpa using hr), List.foldl_cons, List.foldl_cons, ih]

/-! ### Requests -/

/-- The sum of the values of a metric, as `int` has it. -/
def metricTotal (metricName : String) (rows : List MetricRow) : ℤ :=
  ((rows.filter fun r => r.metricName == metricName).map fun r =>
    truncate r.value).sum.bmod (2 ^ 64)

theorem metricTotal_perm {rows rows' : List MetricRow} (h : rows.Perm rows')
    (metricName : String) : metricTotal metricName rows = metricTotal metricName rows' :=
  congrArg (fun n : ℤ => n.bmod (2 ^ 64)) ((h.filter _).map _).sum_eq

/-- A field to which the values of a metric are added has their sum in the end. -/
theorem foldl_add_eq (field : HttpAgg → ℤ) {metricName : String}
    (hfield : ∀ a r, field (a.add r) = if r.metricName = metricName then
      (field a + truncate r.value).bmod (2 ^ 64) else field a) (hzero : field ⟨0, 0, []⟩ = 0)
    (rows : List MetricRow) :
    field (rows.foldl HttpAgg.add ⟨0, 0, []⟩) = metricTotal metricName rows := by
  induction rows using List.reverseRecOn with
  | nil => exact hzero
  | append_singleton rows r ih =>
    rw [List.foldl_append, List.foldl_cons, List.foldl_nil, hfield, ih, metricTotal, metricTotal,
      List.filter_append, List.map_append, List.sum_append]
    split_ifs with hr
    · rw [List.filter_cons_of_pos (by simpa using hr), List.filter_nil, List.map_singleton,
        List.sum_singleton, Int.bmod_add_bmod]
    · rw [List.filter_cons_of_neg (by simpa using hr), List.filter_nil, List.map_nil,
        List.sum_nil, add_zero]

theorem requests_foldl (rows : List MetricRow) :
    (rows.foldl HttpAgg.add ⟨0, 0, []⟩).requests = metricTotal "http.requests" rows := by
  refine foldl_add_eq HttpAgg.requests (fun a r => ?_) rfl rows
  rw [HttpAgg.add]
  split_ifs <;> rfl

theorem errors_foldl (rows : List MetricRow) :
    (rows.foldl HttpAgg.add ⟨0, 0, []⟩).errors = metricTotal "http.errors" rows := by
  refine foldl_add_eq HttpAgg.errors (fun a r => ?_) rfl rows
  rw [HttpAgg.add]
  split_ifs with hrequests herrors
  · exact absurd (hrequests.symm.trans herrors) (by decide)
  · rfl
  · rfl
  · rfl
  · rfl

/-- A summary is that of the points of its service, in some order. -/
theorem HTTPSummaryOf.exists_rows {points : List MetricRow} {out : List HTTPServiceSummary}
    (h : HTTPSummaryOf points out) {s : HTTPServiceSummary} (hs : s ∈ out) :
    s.service ≠ "" ∧ ∃ rows : List MetricRow, rows.Perm (rowsOfService points s.service) ∧
      s = (rows.foldl HttpAgg.add ⟨0, 0, []⟩).summary s.service := by
  obtain ⟨rows, hrows, hout, -⟩ := h
  obtain ⟨⟨service, a⟩, hentry, rfl⟩ := List.mem_map.mp (hout.mem_iff.mp hs)
  have hget := SortedMap.mem_entries.mp hentry
  have hservice : service ≠ "" := by
    rintro rfl
    exact absurd hget (by rw [get?_aggregate_empty]; simp)
  rw [get?_aggregate hservice] at hget
  split_ifs at hget
  obtain rfl := Option.some.inj hget
  exact ⟨hservice, rowsOfService rows service, hrows.filter _, rfl⟩

/-- The requests of a summary are the sum over the points of its service. -/
theorem HTTPSummaryOf.requests_eq {points : List MetricRow} {out : List HTTPServiceSummary}
    (h : HTTPSummaryOf points out) {s : HTTPServiceSummary} (hs : s ∈ out) :
    s.service ≠ "" ∧ s.requests = metricTotal "http.requests" (rowsOfService points s.service) := by
  obtain ⟨hservice, rows, hrows, hsummary⟩ := h.exists_rows hs
  refine ⟨hservice, ?_⟩
  rw [← metricTotal_perm hrows, ← requests_foldl, hsummary]
  rfl

/-- The errors of a summary are the sum over the points of its service. -/
theorem HTTPSummaryOf.errors_eq {points : List MetricRow} {out : List HTTPServiceSummary}
    (h : HTTPSummaryOf points out) {s : HTTPServiceSummary} (hs : s ∈ out) :
    s.errors = metricTotal "http.errors" (rowsOfService points s.service) := by
  obtain ⟨-, rows, hrows, hsummary⟩ := h.exists_rows hs
  rw [← metricTotal_perm hrows, ← errors_foldl, hsummary]
  rfl

/-- Rows that agree where they have a service have the same summaries. -/
theorem HTTPSummaryOf.congr {points points' : List MetricRow} {out : List HTTPServiceSummary}
    (h : HTTPSummaryOf points out) (hsame : (points.filter fun r => decide (r.service ≠ "")).Perm
      (points'.filter fun r => decide (r.service ≠ ""))) : HTTPSummaryOf points' out := by
  obtain ⟨rows, hrows, hout, hsorted⟩ := h
  -- the rows in their order, and then those that change nothing
  refine ⟨rows.filter (fun r => decide (r.service ≠ "")) ++
    points'.filter (fun r => !decide (r.service ≠ "")), ?_, ?_, hsorted⟩
  · exact ((((hrows.filter _).trans hsame).append_right _)).trans
      (List.filter_append_perm (fun r : MetricRow => decide (r.service ≠ "")) points')
  · rw [← aggregate_filter, List.filter_append, List.filter_filter, List.filter_filter]
    have hnone : points'.filter (fun r => decide (r.service ≠ "") && !decide (r.service ≠ "")) =
        [] := List.filter_eq_nil_iff.mpr fun r _ => by simp
    simp only [Bool.and_self]
    rw [hnone, List.append_nil, aggregate_filter]
    exact hout

/-- A selection has the same sum as a larger one of positive numbers only if it is the same. -/
theorem sum_filter_eq_iff {ρ : Type} {f : ρ → ℕ} {p q : ρ → Bool} {l : List ρ}
    (hpos : ∀ r ∈ l, p r = true → 0 < f r) (hqp : ∀ r ∈ l, q r = true → p r = true) :
    ((l.filter p).map f).sum = ((l.filter q).map f).sum ↔ ∀ r ∈ l, p r = true → q r = true := by
  suffices ((l.filter q).map f).sum ≤ ((l.filter p).map f).sum ∧
      (((l.filter p).map f).sum = ((l.filter q).map f).sum ↔ ∀ r ∈ l, p r = true → q r = true) from
    this.2
  induction l with
  | nil => simp
  | cons r l ih =>
    obtain ⟨hr, hrest⟩ := List.forall_mem_cons.mp hpos
    obtain ⟨hr', hrest'⟩ := List.forall_mem_cons.mp hqp
    obtain ⟨hle, hiff⟩ := ih hrest hrest'
    rw [List.forall_mem_cons, ← hiff]
    cases hp : p r with
    | false =>
      have hq : q r = false := by
        by_contra hne
        rw [hr' (Bool.not_eq_false _ ▸ hne)] at hp
        exact absurd hp (by decide)
      simp [hp, hq, hle]
    | true =>
      have hposr := hr hp
      cases hq : q r with
      | false => simp [hp, hq]; omega
      | true => simp [hp, hq, hle]

/-! ### Topics -/

/-- The topics of a row that are counted. -/
def LogRow.topics (r : LogRow) : List String :=
  match (unmarshalFields r.fieldsJSON).bind fun fields => fields.get? "topics" with
  | some (.arr topics) => (topics.filterMap fun t =>
    match t with
    | .str topic => some topic
    | _ => none).filter fun topic => topic ≠ "" && topic ≠ "general"
  | _ => []

/-- A `model.LogTopicCount` without its count: container, entity and topic. -/
abbrev TopicKey : Type := String ×ₗ String ×ₗ String

/-- The keys that a row counts for. -/
def LogRow.topicKeys (r : LogRow) : List TopicKey :=
  r.topics.map fun topic => toLex (lastPart r.entityUID, toLex (r.entityUID, topic))

/-- The counts of some rows. -/
def topicCounts (rows : List LogRow) : SortedMap TopicKey ℕ :=
  SortedMap.tally (rows.flatMap LogRow.topicKeys)

/-- The possible results of `CountLogTopics`: the counts in no order. -/
def CountLogTopics (logs : List LogRow) (since : Time) (out : List (TopicKey × ℕ)) : Prop :=
  out.Perm (topicCounts (logs.filter fun r => sinceFilter since r.ts)).entries

/-- Some rows have all the members of a list of lists exactly when the others have none. -/
theorem flatMap_filter_perm_iff {ρ β : Type} {f : ρ → List β} {rows : List ρ} {p : ρ → Bool} :
    (rows.flatMap f).Perm ((rows.filter p).flatMap f) ↔ ∀ r ∈ rows, f r ≠ [] → p r = true := by
  constructor
  · intro h r hr hne
    by_contra hp
    -- the members of the row that is left out make the first list longer
    obtain ⟨before, after, rfl⟩ := List.append_of_mem hr
    have hle : ∀ l : List ρ, ((l.filter p).flatMap f).length ≤ (l.flatMap f).length := by
      intro l
      exact (List.Sublist.flatMap List.filter_sublist f).length_le
    have hlength := h.length_eq
    rw [List.filter_append, List.filter_cons_of_neg hp, List.flatMap_append, List.flatMap_append,
      List.flatMap_cons, List.length_append, List.length_append, List.length_append] at hlength
    have hpos := List.length_pos_iff.mpr hne
    have hbefore := hle before
    have hafter := hle after
    omega
  · intro h
    refine List.Perm.of_eq ?_
    induction rows with
    | nil => rfl
    | cons r rows ih =>
      obtain ⟨hr, hrows⟩ := List.forall_mem_cons.mp h
      rw [List.flatMap_cons, ih hrows, List.filter_cons]
      split_ifs with hp
      · rw [List.flatMap_cons]
      · rw [not_not.mp (mt hr hp), List.nil_append]

/-- Rows have the counts of some of them if and only if the others have no topics. -/
theorem topicCounts_filter_iff {rows : List LogRow} {p : LogRow → Bool} :
    topicCounts rows = topicCounts (rows.filter p) ↔ ∀ r ∈ rows, r.topics ≠ [] → p r = true := by
  rw [topicCounts, topicCounts, SortedMap.tally_eq_iff, flatMap_filter_perm_iff]
  refine forall₂_congr fun r _ => imp_congr_left (not_congr ?_)
  rw [LogRow.topicKeys, List.map_eq_nil_iff]

end Argus
