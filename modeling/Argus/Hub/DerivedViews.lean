import Argus.Hub.Groups
import Argus.Store.HttpSummary
import Mathlib.Algebra.BigOperators.Ring.Finset

/-!
# Closed windows

`requestWindow` reads the parameter `since`: a duration is a window that is open at its end, and
`start..end` a closed one of at most 24 hours. The summary of HTTP services and the topics behind
the insights are asked for from the start on, and the end is dropped. `closedWindow_iff` says for
which stores they keep to the window all the same: those without a later point of a service and
without a later entry with topics.
-/

namespace Argus

open Foundations

/-! ### The window of a request -/

/-- What the model leaves to package `time`: the texts that are timestamps, and durations. -/
structure TimeTexts where
  parseTS : String → Option Time
  parseDuration : String → Option ℤ

/-- `maxQueryWindow`. -/
def maxQueryWindow : ℤ := 86400000000000

/-- `strings.Cut(raw, "..")`. -/
def cutDots : List Char → Option (List Char × List Char)
  | '.' :: '.' :: after => some ([], after)
  | c :: cs => (cutDots cs).map fun p => (c :: p.1, p.2)
  | [] => none

/-- `splitRange`. -/
def splitRange (tt : TimeTexts) (raw : String) : Option (Time × Time) := do
  let (start, stop) ← cutDots raw.toList
  if start = [] ∨ stop = [] then none
  else
    let a ← tt.parseTS (String.ofList start)
    let b ← tt.parseTS (String.ofList stop)
    some (a, b)

/-- `requestWindow`, where none is `errInvalidRange` and the end of an open window is zero. -/
def requestWindow (tt : TimeTexts) (now : Time) (default_ : ℤ) (since : String) :
    Option (Time × Time) :=
  let raw := trimSpace since
  if raw = "" then some (now.add (-default_), ⟨0⟩)
  else
    match splitRange tt raw with
    | some (start, stop) =>
      let stop := if now < stop then now else stop
      if stop ≤ start ∨ maxQueryWindow < stop.sub start then none else some (start, stop)
    | none =>
      match tt.parseDuration raw with
      | some d => if d ≤ 0 then some (now.add (-default_), ⟨0⟩) else some (now.add (-d), ⟨0⟩)
      | none => some (now.add (-default_), ⟨0⟩)

/-- The default window of the derived views, an hour. -/
def hour : ℤ := 3600000000000

/-- A parameter `start..end` that is accepted, and the window that it is. -/
def ClosedWindow (tt : TimeTexts) (now : Time) (since : String) (start stop : Time) : Prop :=
  (splitRange tt (trimSpace since)).isSome ∧
    requestWindow tt now hour since = some (start, stop)

/-- A closed window has an end, after its start. -/
theorem ClosedWindow.lt {tt : TimeTexts} {now : Time} {since : String} {start stop : Time}
    (h : ClosedWindow tt now since start stop) : start < stop := by
  obtain ⟨hsplit, hwindow⟩ := h
  obtain ⟨⟨a, b⟩, hrange⟩ := Option.isSome_iff_exists.mp hsplit
  have hraw : trimSpace since ≠ "" := by
    intro hempty
    rw [hempty] at hrange
    exact absurd hrange (by simp [splitRange, cutDots])
  simp only [requestWindow, if_neg hraw, hrange] at hwindow
  split_ifs at hwindow with hnow hbad hbad
  · obtain ⟨rfl, rfl⟩ := Prod.mk.inj (Option.some.inj hwindow)
    exact not_le.mp (not_or.mp hbad).1
  · obtain ⟨rfl, rfl⟩ := Prod.mk.inj (Option.some.inj hwindow)
    exact not_le.mp (not_or.mp hbad).1

theorem ClosedWindow.isZero {tt : TimeTexts} {now : Time} {since : String} {start stop : Time}
    (h : ClosedWindow tt now since start stop) : stop.isZero = false := by
  have hlt : start.ns < stop.ns := h.lt
  rw [Time.isZero, beq_eq_false_iff_ne]
  omega

/-! ### Derived views -/

/-- The possible results of `handleHTTPSummary`. -/
def handleHTTPSummary (tt : TimeTexts) (now : Time) (since : String) (db : MetricTables)
    (out : Except HttpError (List HTTPServiceSummary)) : Prop :=
  match requestWindow tt now hour since with
  | none => out = .error ⟨400, "invalid range"⟩
  | some window => ∃ summary, QueryHTTPServiceSummary db window.1 summary ∧ out = .ok summary

/-- The possible counts that `handleInsights` reads, up to the error of an invalid range. -/
def insightsLogStats (tt : TimeTexts) (now : Time) (since : String) (logs : List LogRow)
    (out : Except HttpError (List (TopicKey × ℕ))) : Prop :=
  match requestWindow tt now hour since with
  | none => out = .error ⟨400, "invalid range"⟩
  | some window => ∃ counts, CountLogTopics logs window.1 counts ∧ out = .ok counts

/-- The points of HTTP services in a window. -/
def windowRows (db : MetricTables) (start stop : Time) : List MetricRow :=
  db.points.filter fun r => httpMetric r.metricName && within start stop r.ts

/-- The entries that the topics are counted in. -/
def entriesSince (logs : List LogRow) (since : Time) : List LogRow :=
  logs.filter fun r => sinceFilter since r.ts

/-- The derived views keep to a window: the summary of each service is computed from its points in
the window, and the counts of the topics are those of the entries in the window. -/
structure WindowHonoured (db : MetricTables) (logs : List LogRow) (start stop : Time) : Prop where
  summary : ∀ service, service ≠ "" → rowsOfService (summaryRows db start) service =
    rowsOfService (windowRows db start stop) service
  topics : topicCounts (entriesSince logs start) =
    topicCounts ((entriesSince logs start).filter fun r => within start stop r.ts)

/-- A store has no point of a service after the end of a window, and no entry with topics; and the
texts of the times decide on its start as the times do. -/
structure NothingLater (db : MetricTables) (logs : List LogRow) (start stop : Time) : Prop where
  later : ∀ r ∈ db.points, httpMetric r.metricName = true → r.service ≠ "" → stop < r.ts →
    sinceFilter start r.ts = false
  texts : ∀ r ∈ db.points, httpMetric r.metricName = true → r.service ≠ "" → r.ts ≤ stop →
    (sinceFilter start r.ts = true ↔ start ≤ r.ts)
  topics : ∀ r ∈ logs, r.topics ≠ [] → sinceFilter start r.ts = true →
    start ≤ r.ts ∧ r.ts ≤ stop

theorem within_iff {start stop ts : Time} (h : stop.isZero = false) :
    within start stop ts = true ↔ start ≤ ts ∧ ts ≤ stop := by
  rw [within, h, Bool.false_or, Bool.and_eq_true, decide_eq_true_iff, decide_eq_true_iff]

/-- The text of a start and a window agree on a time. -/
theorem sinceFilter_eq_iff {start stop ts : Time} (hstop : stop.isZero = false) :
    sinceFilter start ts = within start stop ts ↔
      (stop < ts → sinceFilter start ts = false) ∧
        (ts ≤ stop → (sinceFilter start ts = true ↔ start ≤ ts)) := by
  rw [Bool.eq_iff_iff, within_iff hstop]
  constructor
  · intro h
    refine ⟨fun hlt => Bool.eq_false_iff.mpr fun htrue => ?_, fun hle => ?_⟩
    · exact absurd (h.mp htrue).2 (not_le.mpr hlt)
    · exact h.trans (and_iff_left hle)
  · rintro ⟨hlater, htexts⟩
    rcases le_or_gt ts stop with hle | hlt
    · exact (htexts hle).trans (and_iff_left hle).symm
    · rw [hlater hlt]
      exact iff_of_false (by decide) fun h => absurd h.2 (not_le.mpr hlt)

theorem NothingLater.sinceFilter_eq {db : MetricTables} {logs : List LogRow} {start stop : Time}
    (h : NothingLater db logs start stop) (hstop : stop.isZero = false) {r : MetricRow}
    (hr : r ∈ db.points) (hmetric : httpMetric r.metricName = true) (hservice : r.service ≠ "") :
    sinceFilter start r.ts = within start stop r.ts :=
  (sinceFilter_eq_iff hstop).mpr ⟨h.later r hr hmetric hservice, h.texts r hr hmetric hservice⟩

/-- One window. -/
theorem windowHonoured_iff {db : MetricTables} {logs : List LogRow} {start stop : Time}
    (hstop : stop.isZero = false) :
    WindowHonoured db logs start stop ↔ NothingLater db logs start stop := by
  constructor
  · intro h
    have hrow : ∀ r ∈ db.points, httpMetric r.metricName = true → r.service ≠ "" →
        sinceFilter start r.ts = within start stop r.ts := by
      intro r hr hmetric hservice
      have hmem : r ∈ rowsOfService (summaryRows db start) r.service ↔
          r ∈ rowsOfService (windowRows db start stop) r.service := by
        rw [h.summary r.service hservice]
      simp only [rowsOfService, summaryRows, windowRows, List.mem_filter, decide_true, and_true,
        Bool.and_eq_true, hmetric, hr, true_and] at hmem
      exact Bool.eq_iff_iff.mpr hmem
    refine ⟨fun r hr hm hs => ((sinceFilter_eq_iff hstop).mp (hrow r hr hm hs)).1,
      fun r hr hm hs => ((sinceFilter_eq_iff hstop).mp (hrow r hr hm hs)).2,
      fun r hr htopics hsince => ?_⟩
    exact (within_iff hstop).mp (topicCounts_filter_iff.mp h.topics r
      (List.mem_filter.mpr ⟨hr, hsince⟩) htopics)
  · intro h
    refine ⟨fun service hservice => ?_, topicCounts_filter_iff.mpr fun r hr htopics => ?_⟩
    · rw [rowsOfService, rowsOfService, summaryRows, windowRows, List.filter_filter,
        List.filter_filter]
      refine List.filter_congr fun r hr => ?_
      by_cases hmine : httpMetric r.metricName = true ∧ r.service = service
      · obtain ⟨hmetric, rfl⟩ := hmine
        rw [h.sinceFilter_eq hstop hr hmetric hservice]
      · rcases not_and_or.mp hmine with hmetric | hother
        · simp [hmetric]
        · simp [hother]
    · obtain ⟨hr, hsince⟩ := List.mem_filter.mp hr
      exact (within_iff hstop).mpr (h.topics r hr htopics hsince)

/-- Where nothing is later, a summary is one of the points in the window. -/
theorem NothingLater.summary {db : MetricTables} {logs : List LogRow} {start stop : Time}
    (h : NothingLater db logs start stop) (hstop : stop.isZero = false)
    {out : List HTTPServiceSummary} (hout : QueryHTTPServiceSummary db start out) :
    HTTPSummaryOf (windowRows db start stop) out := by
  refine HTTPSummaryOf.congr hout (List.Perm.of_eq ?_)
  rw [summaryRows, windowRows, List.filter_filter, List.filter_filter]
  refine List.filter_congr fun r hr => ?_
  by_cases hmine : httpMetric r.metricName = true ∧ r.service ≠ ""
  · rw [h.sinceFilter_eq hstop hr hmine.1 hmine.2]
  · rcases not_and_or.mp hmine with hmetric | hnone
    · simp [hmetric]
    · simp [not_not.mp hnone]

/-! ### Requests and series -/

/-- The metric that counts requests. -/
def isRequests (r : MetricRow) : Bool := r.metricName == "http.requests"

/-- The sum of the points of a service that `handleMetricSeries` returns, as whole numbers. -/
def seriesTotal (series : List ContainerSeries) (service : String) : ℤ :=
  (((series.filter fun s => decide (s.container = service)).flatMap ContainerSeries.labelled).map
    fun p => truncate p.2.2.value).sum

/-- The points of requests have a service among their labels and positive whole numbers as values,
whose sum is in range; and the texts of their times are in the window when the times are. -/
structure PlainRequests (db : MetricTables) (start stop : Time) (count : MetricRow → ℕ) : Prop where
  labelled : ∀ r ∈ db.points, isRequests r = true →
    (Labels.unmarshal r.labelsJSON).get "service" ≠ ""
  texts : ∀ r ∈ db.points, isRequests r = true →
    (sinceFilter start r.ts = true ↔ start ≤ r.ts) ∧
      inWindow start stop r.ts = within start stop r.ts
  value : ∀ r ∈ db.points, isRequests r = true → r.value = .finite (count r) ∧ 0 < count r
  small : ((db.points.filter isRequests).map count).sum < 2 ^ 63

theorem truncate_natCast {n : ℕ} (h : n < 2 ^ 63) : truncate (.finite n) = n := by
  have hq : |((n : ℕ) : ℚ)| < 2 ^ 63 := by
    rw [abs_of_nonneg (Nat.cast_nonneg n)]
    exact_mod_cast h
  rw [truncate, if_pos hq, if_neg (not_lt.mpr (Nat.cast_nonneg n)), Int.floor_natCast]

section

variable {db : MetricTables} {start stop : Time} {count : MetricRow → ℕ}

/-- The sum over some of the points of requests. -/
theorem PlainRequests.sum_eq (h : PlainRequests db start stop count) {p : MetricRow → Bool}
    (hp : ∀ r, p r = true → isRequests r = true) :
    ((db.points.filter p).map fun r => truncate r.value).sum =
        (((db.points.filter p).map count).sum : ℕ) ∧
      ((db.points.filter p).map count).sum < 2 ^ 63 := by
  have hsub : ((db.points.filter p).map count).Sublist ((db.points.filter isRequests).map count) :=
    (List.monotone_filter_right _ hp).map _
  refine ⟨?_, lt_of_le_of_lt (hsub.sum_le_sum fun _ _ => Nat.zero_le _) h.small⟩
  rw [Nat.cast_list_sum, List.map_map]
  refine congrArg List.sum (List.map_congr_left fun r hr => ?_)
  obtain ⟨hmem, hpr⟩ := List.mem_filter.mp hr
  obtain ⟨hvalue, -⟩ := h.value r hmem (hp r hpr)
  have hle : count r ≤ ((db.points.filter isRequests).map count).sum :=
    List.single_le_sum (fun _ _ => Nat.zero_le _) _
      (List.mem_map_of_mem (List.mem_filter.mpr ⟨hmem, hp r hpr⟩))
  rw [hvalue, truncate_natCast (lt_of_le_of_lt hle h.small)]
  rfl

/-- The requests of a summary. -/
theorem PlainRequests.requests (h : PlainRequests db start stop count)
    {out : List HTTPServiceSummary} (hout : QueryHTTPServiceSummary db start out)
    {s : HTTPServiceSummary} (hs : s ∈ out) :
    s.requests = (((db.points.filter fun r => isRequests r && (sinceFilter start r.ts &&
      decide (r.service = s.service))).map count).sum : ℕ) := by
  obtain ⟨-, hrequests⟩ := HTTPSummaryOf.requests_eq hout hs
  obtain ⟨hsum, hlt⟩ := h.sum_eq (p := fun r => isRequests r && (sinceFilter start r.ts &&
    decide (r.service = s.service))) fun r hr => (Bool.and_eq_true_iff.mp hr).1
  have hrows : (rowsOfService (summaryRows db start) s.service).filter
      (fun r => r.metricName == "http.requests") = db.points.filter fun r =>
        isRequests r && (sinceFilter start r.ts && decide (r.service = s.service)) := by
    rw [rowsOfService, summaryRows, List.filter_filter, List.filter_filter]
    refine List.filter_congr fun r _ => ?_
    by_cases hr : r.metricName = "http.requests"
    · simp [hr, isRequests, httpMetric, Bool.and_comm]
    · have hr' : (r.metricName == "http.requests") = false := beq_eq_false_iff_ne.mpr hr
      simp [isRequests, hr']
  rw [hrequests, metricTotal, hrows, hsum]
  exact Int.bmod_eq_of_le_mul_two (by omega) (by omega)

/-- The sum of the series of a service. -/
theorem PlainRequests.series (h : PlainRequests db start stop count) {series : List ContainerSeries}
    (hseries : QueryMetricSeries db "http.requests" "" start stop (some series))
    (service : String) :
    seriesTotal series service = (((db.points.filter fun r => isRequests r &&
      (within start stop r.ts && decide (r.service = service))).map count).sum : ℕ) := by
  obtain ⟨hsum, -⟩ := h.sum_eq (p := fun r => isRequests r && (within start stop r.ts &&
    decide (r.service = service))) fun r hr => (Bool.and_eq_true_iff.mp hr).1
  rw [← hsum, seriesTotal, flatMap_labelled_filter fun name => decide (name = service)]
  refine (((labelled_perm hseries).filter _).map _).sum_eq.trans ?_
  rw [List.filter_map, List.map_map, metricRows, List.filter_filter, List.filter_filter]
  refine congrArg (fun rows => (List.map _ rows).sum) (List.filter_congr fun r hr => ?_)
  by_cases hmetric : isRequests r = true
  · -- the name of the series is the service among the labels
    have hlabel := h.labelled r hr hmetric
    have hname : seriesName "http.requests" (Labels.unmarshal r.labelsJSON) r.entityUID =
        r.service := by
      rw [MetricRow.service, if_neg hlabel]
      simp [seriesName, hlabel, show hasPrefix "http.requests" "http." = true by decide]
    simp [MetricRow.labelled, hname, (h.texts r hr hmetric).2, MetricRow.asked, seriesAsked,
      isRequests, Bool.and_comm]
    ac_rfl
  · have hmetric' : (r.metricName == "http.requests") = false := Bool.eq_false_iff.mpr hmetric
    simp [isRequests, hmetric']

/-- **When the requests are those of the series.** The service has no later point of requests. -/
theorem PlainRequests.requests_eq_series_iff (h : PlainRequests db start stop count)
    (hlt : start < stop) (hstop : stop.isZero = false) {out : List HTTPServiceSummary}
    (hout : QueryHTTPServiceSummary db start out) {s : HTTPServiceSummary} (hs : s ∈ out)
    {series : List ContainerSeries}
    (hseries : QueryMetricSeries db "http.requests" "" start stop (some series)) :
    s.requests = seriesTotal series s.service ↔
      ∀ r ∈ db.points, isRequests r = true → r.service = s.service → r.ts ≤ stop := by
  have hsince : ∀ r ∈ db.points, isRequests r = true →
      (sinceFilter start r.ts = true ↔ start ≤ r.ts) := fun r hr hm => (h.texts r hr hm).1
  rw [h.requests hout hs, h.series hseries, Nat.cast_inj, sum_filter_eq_iff]
  · simp only [Bool.and_eq_true, decide_eq_true_iff, within_iff hstop, and_imp]
    constructor
    · intro hall r hr hmetric hservice
      by_contra hlater
      have hstart : start ≤ r.ts := (hlt.trans (not_le.mp hlater)).le
      exact hlater (hall r hr hmetric ((hsince r hr hmetric).mpr hstart) hservice).2.1.2
    · intro hall r hr hmetric htext hservice
      exact ⟨hmetric, ⟨(hsince r hr hmetric).mp htext, hall r hr hmetric hservice⟩, hservice⟩
  · intro r hr hp
    exact (h.value r hr (Bool.and_eq_true_iff.mp hp).1).2
  · intro r hr hq
    simp only [Bool.and_eq_true, decide_eq_true_iff, within_iff hstop] at hq ⊢
    exact ⟨hq.1, (hsince r hr hq.1).mpr hq.2.1.1, hq.2.2⟩

end

/-! ### Closed windows -/

/-- What a summary that is returned is computed from. -/
theorem handleHTTPSummary_ok {tt : TimeTexts} {now : Time} {since : String} {start stop : Time}
    (h : ClosedWindow tt now since start stop) {db : MetricTables}
    {out : List HTTPServiceSummary} :
    handleHTTPSummary tt now since db (.ok out) ↔ QueryHTTPServiceSummary db start out := by
  rw [handleHTTPSummary, h.2]
  constructor
  · rintro ⟨summary, hsummary, hout⟩
    rwa [Except.ok.inj hout]
  · exact fun hout => ⟨out, hout, rfl⟩

theorem insightsLogStats_ok {tt : TimeTexts} {now : Time} {since : String} {start stop : Time}
    (h : ClosedWindow tt now since start stop) {logs : List LogRow} {out : List (TopicKey × ℕ)} :
    insightsLogStats tt now since logs (.ok out) ↔ CountLogTopics logs start out := by
  rw [insightsLogStats, h.2]
  constructor
  · rintro ⟨counts, hcounts, hout⟩
    rwa [Except.ok.inj hout]
  · exact fun hout => ⟨out, hout, rfl⟩

/-- The series of requests that are returned are those of the store. -/
theorem querySeries_of_handle {store : GroupStore} {workloads : List WorkloadSnapshot}
    {since until_ : Time} {series : List ContainerSeries}
    (h : handleMetricSeries store workloads "http.requests" "" "" since until_ (.ok series)) :
    QueryMetricSeries store.metrics "http.requests" "" since until_ (some series) := by
  rw [handleMetricSeries, if_neg (by decide)] at h
  obtain ⟨result, hquery, hout⟩ := h
  cases result with
  | none => exact absurd hout (by simp [queryAnswer, bind, Except.bind])
  | some all =>
    have hall : series = all := by
      simpa [queryAnswer, bind, Except.bind, pure, Except.pure] using hout
    rwa [hall]

/-- **Key result.** The derived views keep to the closed windows of a parameter if and only if no
point of a service and no entry with topics is later than the window, and the texts of the times
decide on its start as the times do. Then the summary is one of the points in the window, and the
counts are those of the entries in it; and, for points of requests that are plain, the requests of
a service are those of its series exactly when none of its points of requests is later. -/
theorem closedWindow_iff (tt : TimeTexts) (now : Time) (since : String) (store : GroupStore) :
    ((∀ start stop, ClosedWindow tt now since start stop →
        WindowHonoured store.metrics store.logs start stop) ↔
      ∀ start stop, ClosedWindow tt now since start stop →
        NothingLater store.metrics store.logs start stop) ∧
    (∀ start stop, ClosedWindow tt now since start stop →
      NothingLater store.metrics store.logs start stop →
        (∀ out, handleHTTPSummary tt now since store.metrics (.ok out) →
          HTTPSummaryOf (windowRows store.metrics start stop) out) ∧
        ∀ out, insightsLogStats tt now since store.logs (.ok out) → out.Perm
          (topicCounts ((entriesSince store.logs start).filter fun r =>
            within start stop r.ts)).entries) ∧
    ∀ start stop, ClosedWindow tt now since start stop →
      ∀ count, PlainRequests store.metrics start stop count →
        ∀ out, handleHTTPSummary tt now since store.metrics (.ok out) →
          ∀ workloads series, handleMetricSeries store workloads "http.requests" "" "" start stop
            (.ok series) → ∀ s ∈ out, s.requests = seriesTotal series s.service ↔
              ∀ r ∈ store.metrics.points, isRequests r = true → r.service = s.service →
                r.ts ≤ stop := by
  refine ⟨?_, fun start stop hwindow h => ⟨fun out hout => ?_, fun out hout => ?_⟩,
    fun start stop hwindow count hplain out hout workloads series hseries s hs => ?_⟩
  · exact forall_congr' fun start => forall_congr' fun stop =>
      forall_congr' fun hwindow => windowHonoured_iff hwindow.isZero
  · exact h.summary hwindow.isZero ((handleHTTPSummary_ok hwindow).mp hout)
  · rw [← ((windowHonoured_iff hwindow.isZero).mpr h).topics]
    exact (insightsLogStats_ok hwindow).mp hout
  · exact hplain.requests_eq_series_iff hwindow.lt hwindow.isZero
      ((handleHTTPSummary_ok hwindow).mp hout) hs (querySeries_of_handle hseries)

/-- Package `time` on two texts, a second apart. -/
def secondTexts : TimeTexts where
  parseTS s :=
    if s = "2024-03-01T12:00:00Z" then some ⟨63844891200000000000⟩
    else if s = "2024-03-01T12:00:01Z" then some ⟨63844891201000000000⟩
    else none
  parseDuration _ := none

/-- A request of the service `api`, a second after the window. -/
def laterRequest : MetricTables where
  points := [⟨"http.requests", ⟨63844891202000000000⟩, .finite 1, "docker:h:api",
    "\x7b\"service\":\"api\"\x7d"⟩]
  latest := ∅

/-- A request after the end of a window is among those that the summary of the window reports. -/
theorem later_request_reported : ¬ ∀ (tt : TimeTexts) (now : Time) (since : String)
    (store : GroupStore) (start stop : Time), ClosedWindow tt now since start stop →
      ∀ out, handleHTTPSummary tt now since store.metrics (.ok out) →
        ∀ workloads series, handleMetricSeries store workloads "http.requests" "" "" start stop
          (.ok series) → ∀ s ∈ out, s.requests = seriesTotal series s.service := by
  intro h
  set start : Time := ⟨63844891200000000000⟩ with hstart
  set stop : Time := ⟨63844891201000000000⟩ with hstop
  have hwindow : ClosedWindow secondTexts ⟨63844891203000000000⟩
      "2024-03-01T12:00:00Z..2024-03-01T12:00:01Z" start stop :=
    ⟨by decide +kernel, by decide +kernel⟩
  have hrow : ∀ r ∈ laterRequest.points, isRequests r = true →
      r = ⟨"http.requests", ⟨63844891202000000000⟩, .finite 1, "docker:h:api",
        "\x7b\"service\":\"api\"\x7d"⟩ := fun r hr _ => List.mem_singleton.mp hr
  have hplain : PlainRequests laterRequest start stop fun _ => 1 := by
    refine ⟨fun r hr hm => ?_, fun r hr hm => ?_, fun r hr hm => ?_, by decide⟩
    · rw [hrow r hr hm]
      decide +kernel
    · rw [hrow r hr hm]
      decide +kernel
    · rw [hrow r hr hm]
      exact ⟨rfl, Nat.one_pos⟩
  have hkeys : (aggregate (summaryRows laterRequest start)).entries.map (fun e => e.1) =
      ["api"] := by decide +kernel
  obtain ⟨e, he⟩ := List.length_eq_one_iff.mp
    (by simpa using congrArg List.length hkeys :
      (aggregate (summaryRows laterRequest start)).entries.length = 1)
  have hservice : e.1 = "api" := by
    rw [he] at hkeys
    exact (List.cons_eq_cons.mp hkeys).1
  have hout : QueryHTTPServiceSummary laterRequest start [e.2.summary e.1] :=
    ⟨_, List.Perm.refl _, List.Perm.of_eq (by rw [he]; rfl), fun _ => List.pairwise_singleton _ _⟩
  obtain ⟨series, hseries⟩ : ∃ series, QueryMetricSeries laterRequest "http.requests" "" start stop
      (some series) := exists_querySeries (by decide) "" _ _
  have hequal := h secondTexts _ _ ⟨∅, laterRequest, []⟩ start stop hwindow _
    ((handleHTTPSummary_ok hwindow).mpr hout) [] series
    ⟨some series, hseries, by simp [queryAnswer, bind, Except.bind, pure, Except.pure]⟩ _
    (List.mem_singleton_self _)
  have hnone := (hplain.requests_eq_series_iff hwindow.lt hwindow.isZero hout
    (List.mem_singleton_self _) hseries).mp hequal _ (List.mem_singleton_self _) (by decide +kernel)
    ((by decide +kernel : MetricRow.service _ = "api").trans hservice.symm)
  exact absurd hnone (by decide +kernel)

end Argus
