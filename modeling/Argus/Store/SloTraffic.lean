import Argus.Foundations.RoundingOrder
import Argus.Insights.DeriveMetrics
import Argus.Store.EvaluateSlo

/-!
# The traffic of an objective

`EvaluateSLO` and `QueryHTTPServiceSummary` read the same points, each with a loop of its own.
`counts_eq_summary` says that they count the same requests and errors of a service when the points
come from log entries, and that the availability of the service is a percentage.
-/

namespace Argus

open Foundations

/-! ### Two loops -/

section Loops

variable {db : MetricTables} {service : String} {since : Time} {a : HttpAgg}

/-- The loop of `httpMetricsForService` goes over the rows of its service. -/
theorem foldl_addServiceRow (h : service ≠ "") (rows : List MetricRow) (a : HttpAgg) :
    rows.foldl (addServiceRow service) a = (rowsOfService rows service).foldl HttpAgg.add a := by
  rw [rowsOfService, List.foldl_filter]
  refine congrArg (fun f => rows.foldl f a) (funext fun a => funext fun r => ?_)
  rw [addServiceRow]
  by_cases hr : r.service = service
  · rw [if_neg (fun hne => hne.2 hr), if_pos (decide_eq_true hr)]
  · rw [if_pos ⟨h, hr⟩, if_neg (by simpa using hr)]

/-- The counts of an objective are the sums over the points of its service. -/
theorem HttpMetricsForService.counts_eq (h : HttpMetricsForService db service since a)
    (hservice : service ≠ "") :
    a.requests = metricTotal "http.requests" (rowsOfService (summaryRows db since) service) ∧
      a.errors = metricTotal "http.errors" (rowsOfService (summaryRows db since) service) := by
  obtain ⟨rows, hrows, rfl⟩ := h
  have hperm : (rowsOfService rows service).Perm (rowsOfService (summaryRows db since) service) :=
    hrows.filter _
  rw [foldl_addServiceRow hservice, requests_foldl, errors_foldl, metricTotal_perm hperm,
    metricTotal_perm hperm]
  exact ⟨rfl, rfl⟩

/-- A service with points has a summary. -/
theorem HTTPSummaryOf.exists_summary {points : List MetricRow} {out : List HTTPServiceSummary}
    (h : HTTPSummaryOf points out) (hservice : service ≠ "")
    (hne : rowsOfService points service ≠ []) : ∃ s ∈ out, s.service = service := by
  obtain ⟨rows, hrows, hout, -⟩ := h
  have hperm : (rowsOfService rows service).Perm (rowsOfService points service) := hrows.filter _
  have hget := @get?_aggregate rows service hservice
  have hne' : rowsOfService rows service ≠ [] := by
    intro hnil
    rw [hnil] at hperm
    exact hne hperm.symm.eq_nil
  rw [if_neg hne'] at hget
  exact ⟨_, hout.mem_iff.mpr (List.mem_map.mpr ⟨_, SortedMap.mem_entries.mpr hget, rfl⟩), rfl⟩

end Loops

/-! ### Points of log entries -/

/-- The points that come from HTTP logs are those of some entries. The length of a slice of Go is an
`int`. -/
structure DerivedStore (rt : Runtime) (entries : List LogEntry) (db : MetricTables) : Prop where
  length_lt : entries.length < 2 ^ 63
  points : (db.points.filter fun r => httpMetric r.metricName).Perm
    (((entries.flatMap (deriveMetricsFromLog rt)).map MetricPoint.toRow).filter
      fun r => httpMetric r.metricName)

/-- The points of a metric that count for a service since a time. -/
def countedRow (metricName service : String) (since : Time) (r : MetricRow) : Bool :=
  r.metricName == metricName && (sinceFilter since r.ts && decide (r.service = service))

section Derived

variable {rt : Runtime} {entries : List LogEntry} {db : MetricTables} {service : String}
  {since : Time}

/-- How many points of an entry count. -/
def derivedCount (rt : Runtime) (metricName service : String) (since : Time) (e : LogEntry) : ℕ :=
  (deriveMetricsFromLog rt e).countP (countedRow metricName service since ∘ MetricPoint.toRow)

/-- An entry is one request at most, and an error only if it is a request: the points of an entry
have one instant and one service. -/
theorem derivedCount_le (e : LogEntry) :
    derivedCount rt "http.errors" service since e ≤
        derivedCount rt "http.requests" service since e ∧
      derivedCount rt "http.requests" service since e ≤ 1 := by
  rw [derivedCount, derivedCount, deriveMetricsFromLog]
  cases parseHTTPLog rt e.message with
  | none => exact ⟨le_refl 0, Nat.zero_le 1⟩
  | some sig =>
    by_cases hexit : sig.isExit = true
    · have hcount : ∀ (metricName name : String) (value : Extended),
          (countedRow metricName service since ∘ MetricPoint.toRow)
            (derivedPoint e (derivedLabels e sig) name value) =
              (name == metricName && (countedRow "http.requests" service since ∘ MetricPoint.toRow)
                (derivedPoint e (derivedLabels e sig) "http.requests" (.finite 1))) := by
        intro metricName name value
        simp only [Function.comp_apply, countedRow, MetricPoint.toRow, derivedPoint,
          beq_self_eq_true, Bool.true_and]
        -- both rows have the labels of the entry, and with them its service
        rfl
      simp only [hexit, Bool.not_true, Bool.false_eq_true, if_false, List.countP_append,
        apply_ite (List.countP _), List.countP_singleton, List.countP_nil]
      simp only [hcount "http.errors", hcount "http.requests" "http.error_rate",
        hcount "http.requests" "http.errors", hcount "http.requests" "http.status",
        hcount "http.requests" "http.duration_ms"]
      generalize (countedRow "http.requests" service since ∘ MetricPoint.toRow)
        (derivedPoint e (derivedLabels e sig) "http.requests" (.finite 1)) = counts
      by_cases hstatus : 400 ≤ sig.status <;> cases counts <;> simp [hstatus]
    · simp [hexit]

/-- Requests and errors: each of them is a point with the value 1. -/
def countMetrics : List String := ["http.requests", "http.errors"]

theorem value_of_mem_derived {e : LogEntry} {p : MetricPoint} (h : p ∈ deriveMetricsFromLog rt e)
    (hname : p.metricName ∈ countMetrics) : p.value = .finite 1 := by
  rw [deriveMetricsFromLog] at h
  cases hsig : parseHTTPLog rt e.message with
  | none =>
    rw [hsig] at h
    exact absurd h List.not_mem_nil
  | some sig =>
    rw [hsig] at h
    dsimp only at h
    split_ifs at h <;> simp only [List.mem_append, List.mem_singleton, List.not_mem_nil, or_false,
      or_assoc] at h
    -- the points of the other metrics have other names
    all_goals
      rcases h with rfl | rfl | rfl | rfl | rfl <;>
        first | rfl | exact absurd hname (by dsimp only [derivedPoint]; decide)

/-- The rows of a metric that a service has since a time, out of all that come from HTTP logs. -/
theorem filter_countedRow {metricName : String} (hhttp : httpMetric metricName = true)
    (rows : List MetricRow) :
    (rows.filter fun r => httpMetric r.metricName).filter (countedRow metricName service since) =
      rows.filter (countedRow metricName service since) := by
  rw [List.filter_filter]
  refine List.filter_congr fun r _ => ?_
  by_cases hr : r.metricName = metricName
  · rw [hr, hhttp, Bool.and_true]
  · rw [countedRow, beq_eq_false_iff_ne.mpr hr, Bool.false_and, Bool.false_and]

theorem filter_rowsOfService {metricName : String} (hhttp : httpMetric metricName = true) :
    ((rowsOfService (summaryRows db since) service).filter fun r => r.metricName == metricName) =
      db.points.filter (countedRow metricName service since) := by
  rw [← filter_countedRow hhttp, rowsOfService, summaryRows, List.filter_filter, List.filter_filter,
    List.filter_filter]
  refine List.filter_congr fun r _ => ?_
  rw [countedRow]
  cases r.metricName == metricName <;> cases sinceFilter since r.ts <;>
    cases httpMetric r.metricName <;> simp

/-- The value of a row that counts is 1. -/
theorem truncate_of_mem_derived {metricName : String} (hname : metricName ∈ countMetrics)
    {r : MetricRow} (hr : r ∈ ((entries.flatMap (deriveMetricsFromLog rt)).map
      MetricPoint.toRow).filter (countedRow metricName service since)) : truncate r.value = 1 := by
  obtain ⟨hmem, hcounted⟩ := List.mem_filter.mp hr
  obtain ⟨p, hp, rfl⟩ := List.mem_map.mp hmem
  obtain ⟨e, -, hp⟩ := List.mem_flatMap.mp hp
  have hpname : p.metricName = metricName := eq_of_beq (Bool.and_eq_true_iff.mp hcounted).1
  have hvalue : p.toRow.value = real (.finite 1) :=
    congrArg real (value_of_mem_derived hp (hpname ▸ hname))
  have hone : truncate (real (.finite 1)) = 1 := by decide +kernel
  rw [hvalue, hone]

/-- There are no more points of a metric than entries. -/
theorem sum_derivedCount_le {metricName : String} (hname : metricName ∈ countMetrics) :
    (entries.map (derivedCount rt metricName service since)).sum ≤ entries.length := by
  have hle : ∀ n ∈ entries.map (derivedCount rt metricName service since), n ≤ 1 := by
    intro n hn
    obtain ⟨e, -, rfl⟩ := List.mem_map.mp hn
    obtain ⟨herrors, hrequests⟩ := @derivedCount_le rt service since e
    rcases List.mem_pair.mp hname with rfl | rfl
    · exact hrequests
    · exact herrors.trans hrequests
  have hsum := List.sum_le_card_nsmul _ 1 hle
  rwa [List.length_map, nsmul_eq_mul, mul_one, Nat.cast_id] at hsum

/-- **Every point counts as one.** The total of a metric is the number of its points. -/
theorem metricTotal_eq_count (h : DerivedStore rt entries db) {metricName : String}
    (hname : metricName ∈ countMetrics) :
    metricTotal metricName (rowsOfService (summaryRows db since) service) =
      ((entries.map (derivedCount rt metricName service since)).sum : ℕ) := by
  have hhttp : httpMetric metricName = true := by
    rcases List.mem_pair.mp hname with rfl | rfl
    · decide
    · decide
  have hperm : (db.points.filter (countedRow metricName service since)).Perm
      (((entries.flatMap (deriveMetricsFromLog rt)).map MetricPoint.toRow).filter
        (countedRow metricName service since)) := by
    rw [← filter_countedRow hhttp, ← filter_countedRow hhttp (List.map _ _)]
    exact h.points.filter _
  have hsum : ((db.points.filter (countedRow metricName service since)).map fun r =>
      truncate r.value).sum =
        ((entries.map (derivedCount rt metricName service since)).sum : ℕ) := by
    rw [(hperm.map _).sum_eq, List.map_congr_left fun r hr => truncate_of_mem_derived hname hr,
      List.map_const', List.sum_replicate, ← List.countP_eq_length_filter, List.countP_map,
      List.countP_flatMap, nsmul_eq_mul, mul_one]
    rfl
  -- so the sum is below 2^63 and no addition wraps around
  have hle : (entries.map (derivedCount rt metricName service since)).sum ≤ entries.length :=
    sum_derivedCount_le hname
  have hlt := h.length_lt
  rw [metricTotal, filter_rowsOfService hhttp, hsum]
  exact Int.bmod_eq_of_le_mul_two (by omega) (by omega)

/-- The requests of a service and its errors, which are fewer. -/
theorem DerivedStore.totals (h : DerivedStore rt entries db) (service : String) (since : Time) :
    ∃ requests errors : ℕ, errors ≤ requests ∧ requests < 2 ^ 63 ∧
      metricTotal "http.requests" (rowsOfService (summaryRows db since) service) = requests ∧
        metricTotal "http.errors" (rowsOfService (summaryRows db since) service) = errors := by
  refine ⟨_, _, ?_, ?_, metricTotal_eq_count h (by decide), metricTotal_eq_count h (by decide)⟩
  · exact List.sum_le_sum fun e _ => (derivedCount_le e).1
  · exact (sum_derivedCount_le (by decide)).trans_lt h.length_lt

end Derived

/-! ### The compliance -/

/-- A share of integers is a percentage, rounded as it is. -/
theorem nearest_percentage {good total : ℤ} (hgood : 0 ≤ good) (hle : good ≤ total)
    (htotal : 0 < total) : 0 ≤ doubleFormat.nearest
      (doubleFormat.nearest (doubleFormat.nearest good / doubleFormat.nearest total) * 100) ∧
    doubleFormat.nearest
      (doubleFormat.nearest (doubleFormat.nearest good / doubleFormat.nearest total) * 100) ≤
        100 := by
  have hp : 0 < doubleFormat.precision := by decide
  have hself : ∀ n : ℤ, |n| < 2 ^ 53 → doubleFormat.nearest n = n := fun n hn =>
    doubleFormat.nearest_eq_self ((doubleFormat.representable_int (by decide) n).mpr
      ⟨n, 0, hn, by rw [pow_zero, mul_one]⟩)
  have hone : doubleFormat.nearest 1 = 1 := by exact_mod_cast hself 1 (by norm_num)
  have hhundred : doubleFormat.nearest 100 = 100 := by exact_mod_cast hself 100 (by norm_num)
  have hgood' : (0 : ℚ) ≤ good := by exact_mod_cast hgood
  have hle' : (good : ℚ) ≤ total := by exact_mod_cast hle
  have htotal' : (1 : ℚ) ≤ total := by exact_mod_cast htotal
  -- rounding keeps the order, and 0, 1 and 100 stay
  have hnonneg : ∀ q : ℚ, 0 ≤ q → 0 ≤ doubleFormat.nearest q := fun q hq =>
    doubleFormat.nearest_zero ▸ doubleFormat.nearest_mono hp le_rfl hq
  have hdenominator : 1 ≤ doubleFormat.nearest total :=
    hone ▸ doubleFormat.nearest_mono hp zero_le_one htotal'
  have hshare : doubleFormat.nearest good / doubleFormat.nearest total ≤ 1 :=
    (div_le_one (zero_lt_one.trans_le hdenominator)).mpr (doubleFormat.nearest_mono hp hgood' hle')
  have hshare₀ : 0 ≤ doubleFormat.nearest good / doubleFormat.nearest total :=
    div_nonneg (hnonneg _ hgood') (zero_le_one.trans hdenominator)
  have hrounded : doubleFormat.nearest (doubleFormat.nearest good / doubleFormat.nearest total) ≤
      1 := hone ▸ doubleFormat.nearest_mono hp hshare₀ hshare
  have hpercent := mul_nonneg (hnonneg _ hshare₀) (by norm_num : (0 : ℚ) ≤ 100)
  refine ⟨hnonneg _ hpercent, ?_⟩
  calc doubleFormat.nearest (doubleFormat.nearest
          (doubleFormat.nearest good / doubleFormat.nearest total) * 100)
      ≤ doubleFormat.nearest 100 := doubleFormat.nearest_mono hp hpercent (by linarith)
    _ = 100 := hhundred

/-! ### The same traffic -/

section Agreement

variable {rt : Runtime} {entries : List LogEntry} {db : MetricTables} {slo : SLODefinition}
  {now : Time} {status : SLOStatus} {out : List HTTPServiceSummary}

/-- The errors that an availability objective goes by. -/
def SLOStatus.errors (status : SLOStatus) : ℤ := status.totalEvents - status.goodEvents

/-- **Key result.** An availability objective and the summary of its service count the same requests
and the same errors, none when there is no summary. The errors are among the requests, and the
compliance is a percentage. -/
theorem counts_eq_summary (hdb : DerivedStore rt entries db) (hservice : slo.service ≠ "")
    (hmetric : slo.sliMetric = "availability")
    (hstatus : EvaluateSLO doubleFormat.nearest db slo now status)
    (hout : QueryHTTPServiceSummary db (slo.since now) out) :
    (∀ s ∈ out, s.service = slo.service →
      status.totalEvents = s.requests ∧ status.errors = s.errors) ∧
    ((∀ s ∈ out, s.service ≠ slo.service) → status.totalEvents = 0 ∧ status.errors = 0) ∧
    0 ≤ status.errors ∧ status.errors ≤ status.totalEvents ∧
      0 ≤ status.compliance ∧ status.compliance ≤ 100 := by
  obtain ⟨a, ha, rfl⟩ := hstatus
  obtain ⟨hrequests, herrors⟩ := ha.counts_eq hservice
  obtain ⟨requests, errors, hle, hlt, hrequests', herrors'⟩ :=
    hdb.totals slo.service (slo.since now)
  rw [hrequests'] at hrequests
  rw [herrors'] at herrors
  have hgood : (a.requests - a.errors).bmod (2 ^ 64) = a.requests - a.errors :=
    Int.bmod_eq_of_le_mul_two (by omega) (by omega)
  have htotalEvents : (a.status doubleFormat.nearest slo now).totalEvents = a.requests := by
    rw [HttpAgg.status, if_pos hmetric]
  have herrorEvents : (a.status doubleFormat.nearest slo now).errors = a.errors := by
    rw [SLOStatus.errors, htotalEvents, HttpAgg.status, if_pos hmetric]
    exact (congrArg (a.requests - ·) hgood).trans (sub_sub_self _ _)
  rw [htotalEvents, herrorEvents]
  refine ⟨fun s hs hname => ?_, fun habsent => ?_, by omega, by omega, ?_⟩
  · obtain ⟨-, hsrequests⟩ := hout.requests_eq hs
    have hserrors := hout.errors_eq hs
    rw [hname] at hsrequests hserrors
    exact ⟨hrequests.trans (hrequests'.symm.trans hsrequests.symm),
      herrors.trans (herrors'.symm.trans hserrors.symm)⟩
  · have hnone : rowsOfService (summaryRows db (slo.since now)) slo.service = [] := by
      by_contra hne
      obtain ⟨s, hs, hname⟩ := HTTPSummaryOf.exists_summary hout hservice hne
      exact habsent s hs hname
    rw [hnone] at hrequests' herrors'
    exact ⟨hrequests.trans hrequests'.symm, herrors.trans herrors'.symm⟩
  · rw [HttpAgg.status, if_pos hmetric]
    dsimp only
    rw [hgood]
    split_ifs with hpos
    · exact nearest_percentage (by omega) (by omega) hpos
    · norm_num

/-- An entry of a request that ended with a status. -/
def exitEntry (httpStatus : String) : LogEntry where
  ts := ⟨63844891200000000000⟩
  message := "\x7b\"event\":\"exit\",\"service\":\"demo-api\",\"status\":" ++ httpStatus ++ "\x7d"
  level := "info"
  entityUID := "docker:h:api"
  labels := ∅
  fields := ∅

/-- A store with the points of two requests, one of which failed. -/
def exitStore : MetricTables where
  points := ([exitEntry "200", exitEntry "500"].flatMap
    (deriveMetricsFromLog asciiRuntime)).map MetricPoint.toRow
  latest := ∅

theorem derivedStore_exits :
    DerivedStore asciiRuntime [exitEntry "200", exitEntry "500"] exitStore where
  length_lt := by norm_num
  points := by rw [exitStore]

/-- One of two requests is an error, for both of them. -/
theorem counts_eq_summary_exits : ∃ status s,
    EvaluateSLO doubleFormat.nearest exitStore demoAvailability ⟨63844891260000000000⟩ status ∧
      QueryHTTPServiceSummary exitStore (demoAvailability.since ⟨63844891260000000000⟩) [s] ∧
        s.service = "demo-api" ∧ s.requests = 2 ∧ s.errors = 1 ∧ status.totalEvents = 2 ∧
          status.errors = 1 ∧ 0 ≤ status.compliance ∧ status.compliance ≤ 100 := by
  have hstatus : EvaluateSLO doubleFormat.nearest exitStore demoAvailability
      ⟨63844891260000000000⟩ _ := ⟨_, ⟨_, List.Perm.refl _, rfl⟩, rfl⟩
  have hentries : (aggregate (summaryRows exitStore
      (demoAvailability.since ⟨63844891260000000000⟩))).entries.map (fun e =>
        (e.1, e.2.requests, e.2.errors)) = [("demo-api", 2, 1)] := by decide +kernel
  obtain ⟨⟨service, a⟩, hone, hvalues⟩ := List.map_eq_singleton_iff.mp hentries
  simp only [Prod.mk.injEq] at hvalues
  obtain ⟨rfl, hrequests, herrors⟩ := hvalues
  have hout : QueryHTTPServiceSummary exitStore
      (demoAvailability.since ⟨63844891260000000000⟩) [a.summary "demo-api"] :=
    ⟨_, List.Perm.refl _, by rw [hone]; exact List.Perm.refl _,
      fun _ => List.pairwise_singleton _ _⟩
  obtain ⟨hsame, -, -, -, hcompliance⟩ := counts_eq_summary derivedStore_exits (by decide)
    (by decide) hstatus hout
  obtain ⟨htotal, herror⟩ := hsame _ (List.mem_singleton_self _) rfl
  exact ⟨_, _, hstatus, hout, rfl, hrequests, herrors, htotal.trans hrequests,
    herror.trans herrors, hcompliance⟩

end Agreement

end Argus
