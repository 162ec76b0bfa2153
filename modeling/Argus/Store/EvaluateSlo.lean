import Argus.Foundations.RoundingOrder
import Argus.Slo
import Argus.Store.HttpSummary

/-!
# Objectives of HTTP services

`EvaluateSLO` computes the status of an objective from the points that come from HTTP logs.
`budget_iff` says for which counts the error budget that it reports is the share of the allowance
that is left, which is also what `Evaluate` would have to go by.
-/

namespace Argus

open Foundations

/-! ### The status of an objective -/

/-- The start of the window of an objective. -/
def SLODefinition.since (slo : SLODefinition) (now : Time) : Time :=
  let window := (slo.windowHours * 3600000000000).bmod (2 ^ 64)
  now.add (-(if window ≤ 0 then 30 * 24 * 3600000000000 else window))

/-- One round of the loop of `httpMetricsForService`. -/
def addServiceRow (service : String) (a : HttpAgg) (r : MetricRow) : HttpAgg :=
  if service ≠ "" ∧ r.service ≠ service then a else a.add r

/-- The possible results of `httpMetricsForService`: latencies, requests and errors. -/
def HttpMetricsForService (db : MetricTables) (service : String) (since : Time) (a : HttpAgg) :
    Prop :=
  ∃ rows : List MetricRow, rows.Perm (summaryRows db since) ∧
    a = rows.foldl (addServiceRow service) ⟨0, 0, []⟩

/-- The status that `EvaluateSLO` computes from what it has read. -/
def HttpAgg.status (rnd : ℚ → ℚ) (a : HttpAgg) (slo : SLODefinition) (now : Time) : SLOStatus :=
  if slo.sliMetric = "availability" then
    let good := (a.requests - a.errors).bmod (2 ^ 64)
    let compliance := if 0 < a.requests then rnd (rnd (rnd good / rnd a.requests) * 100) else 100
    { slo := slo
      compliance := compliance
      errorBudgetRemaining := errorBudgetRemaining rnd compliance slo.target
      goodEvents := good
      totalEvents := a.requests
      p95LatencyMs := .finite 0
      breached := compliance < slo.target
      evaluatedAt := now }
  else
    let compliance := complianceLatency rnd a.latencies slo.latencyThresholdMs
    { slo := slo
      compliance := compliance
      errorBudgetRemaining := errorBudgetRemaining rnd compliance slo.target
      goodEvents := a.latencies.countP (withinThreshold slo.latencyThresholdMs)
      totalEvents := a.latencies.length
      p95LatencyMs := p95 rnd a.latencies
      breached := compliance < slo.target
      evaluatedAt := now }

/-- The possible results of `EvaluateSLO`. -/
def EvaluateSLO (rnd : ℚ → ℚ) (db : MetricTables) (slo : SLODefinition) (now : Time)
    (status : SLOStatus) : Prop :=
  ∃ a, HttpMetricsForService db slo.service (slo.since now) a ∧ status = a.status rnd slo now

/-! ### The error budget -/

section Exact

/-- The share of events that were good, in percent. -/
def SLOStatus.share (status : SLOStatus) : ℚ := 100 * status.goodEvents / status.totalEvents

/-- The share of the allowance that is left, in percent, between 0 and 100. -/
def budgetLeft (compliance target : ℚ) : ℚ :=
  max 0 (min 100 (((100 - target) - (100 - compliance)) / (100 - target) * 100))

variable {db : MetricTables} {slo : SLODefinition} {now : Time} {status : SLOStatus}

/-- With exact numbers the compliance is the share of the events that were good. -/
theorem compliance_eq_share (h : EvaluateSLO id db slo now status)
    (htotal : 0 < status.totalEvents) :
    status.slo = slo ∧ status.compliance = status.share ∧
      status.errorBudgetRemaining = errorBudgetRemaining id status.share slo.target := by
  obtain ⟨a, -, rfl⟩ := h
  by_cases hmetric : slo.sliMetric = "availability"
  · rw [HttpAgg.status, if_pos hmetric] at htotal ⊢
    have hrequests : 0 < a.requests := htotal
    have hshare : id (id (id (((a.requests - a.errors).bmod (2 ^ 64) : ℤ) : ℚ) /
        id ((a.requests : ℤ) : ℚ)) * 100) =
          100 * ((a.requests - a.errors).bmod (2 ^ 64) : ℤ) / (a.requests : ℤ) := by
      simp only [id]
      ring
    simp only [SLOStatus.share, if_pos hrequests, hshare, and_self]
  · rw [HttpAgg.status, if_neg hmetric] at htotal ⊢
    have hne : a.latencies ≠ [] := by
      have hlength : (0 : ℤ) < a.latencies.length := htotal
      exact List.length_pos_iff.mp (by exact_mod_cast hlength)
    have hshare : complianceLatency id a.latencies slo.latencyThresholdMs =
        100 * (a.latencies.countP (withinThreshold slo.latencyThresholdMs) : ℤ) /
          (a.latencies.length : ℤ) := by
      rw [complianceLatency, if_neg hne]
      simp only [id, Int.cast_natCast]
      ring
    simp only [SLOStatus.share, hshare, and_self]

/-- Below its target an objective has nothing left. -/
theorem budgetLeft_of_lt {c target : ℚ} (ht : target < 100) (h : c < target) :
    budgetLeft c target = 0 ∧ (0 < target → errorBudgetRemaining id c target = 0) := by
  have hallowed : 0 < 100 - target := sub_pos.mpr ht
  have hneg : ((100 - target) - (100 - c)) / (100 - target) * 100 < 0 := by
    have hdiff : (100 - target) - (100 - c) < 0 := by linarith
    exact mul_neg_of_neg_of_pos (div_neg_of_neg_of_pos hdiff hallowed) (by norm_num)
  refine ⟨?_, fun hpos => ?_⟩
  · rw [budgetLeft, max_eq_left]
    exact (min_le_right _ _).trans hneg.le
  · rw [errorBudgetRemaining, if_neg (not_le.mpr hpos), if_neg (not_le.mpr h)]
    simp only [id]
    rw [if_neg (not_le.mpr hallowed), if_pos hneg]

/-- All of the allowance is left only of an objective without bad events. -/
theorem budgetLeft_eq_hundred_iff {c target : ℚ} (ht : target < 100) (hc : c ≤ 100) :
    budgetLeft c target = 100 ↔ c = 100 := by
  have hallowed : 0 < 100 - target := sub_pos.mpr ht
  rw [budgetLeft]
  constructor
  · intro h
    by_contra hne
    have hlt : c < 100 := lt_of_le_of_ne hc hne
    have hshare : ((100 - target) - (100 - c)) / (100 - target) * 100 < 100 := by
      rw [div_mul_eq_mul_div, div_lt_iff₀ hallowed]
      linarith
    have hmax : max 0 (min 100 (((100 - target) - (100 - c)) / (100 - target) * 100)) < 100 :=
      max_lt (by norm_num) ((min_le_right _ _).trans_lt hshare)
    exact hmax.ne h
  · rintro rfl
    rw [sub_self, sub_zero, div_self hallowed.ne']
    norm_num

/-- The error budget that is reported is the share of the allowance that is left, and an objective
that has less than ten percent left is published, unless it was within the time of `dedupe`. -/
structure BudgetReported (slo : SLODefinition) (now : Time) (status : SLOStatus) : Prop where
  budget : status.errorBudgetRemaining = budgetLeft status.share slo.target
  published : ∀ (e : Evaluator) (evaluations : List Evaluation),
    (evaluations.map fun v => v.slo.id).Nodup → ∀ v ∈ evaluations, v.slo = slo →
      v.status = some status → e.due slo now = true → budgetLeft status.share slo.target < 10 →
        budgetLow v status now ∈ (Evaluator.evaluate now e evaluations).2

/-- **Key result.** The error budget is the share of the allowance that is left if and only if the
objective is breached or has no bad event: above its target `ErrorBudgetRemaining` answers at once
that everything is left. -/
theorem budget_iff (h : EvaluateSLO id db slo now status) (hpos : 0 < slo.target)
    (htarget : slo.target < 100) (hle : status.goodEvents ≤ status.totalEvents)
    (htotal : 0 < status.totalEvents) : BudgetReported slo now status ↔
      status.share < slo.target ∨ status.goodEvents = status.totalEvents := by
  obtain ⟨-, -, hbudget⟩ := compliance_eq_share h htotal
  have htotal' : (0 : ℚ) < status.totalEvents := by exact_mod_cast htotal
  have hle' : (status.goodEvents : ℚ) ≤ status.totalEvents := by exact_mod_cast hle
  have hshare : status.share ≤ 100 := by
    rw [SLOStatus.share, div_le_iff₀ htotal']
    linarith
  have hfull : status.share = 100 ↔ status.goodEvents = status.totalEvents := by
    rw [SLOStatus.share, div_eq_iff htotal'.ne', mul_right_inj' (by norm_num)]
    exact Int.cast_inj
  -- above the target everything is reported as left
  have habove : slo.target ≤ status.share → status.errorBudgetRemaining = 100 := by
    intro hmet
    rw [hbudget, errorBudgetRemaining, if_neg (not_le.mpr hpos), if_pos hmet]
  constructor
  · intro hreported
    by_cases hmet : slo.target ≤ status.share
    · refine .inr (hfull.mp ?_)
      have hleft := hreported.budget
      rw [habove hmet] at hleft
      exact (budgetLeft_eq_hundred_iff htarget hshare).mp hleft.symm
    · exact .inl (not_le.mp hmet)
  · intro hcases
    have hequal : status.errorBudgetRemaining = budgetLeft status.share slo.target := by
      rcases hcases with hlt | hall
      · obtain ⟨hleft, hreported⟩ := budgetLeft_of_lt htarget hlt
        rw [hbudget, hreported hpos, hleft]
      · have hhundred := hfull.mpr hall
        rw [habove (hhundred ▸ htarget.le), (budgetLeft_eq_hundred_iff htarget hshare).mpr hhundred]
    refine ⟨hequal, fun e evaluations hids v hv hslo hstatus hdue hlow => ?_⟩
    exact published_of_due hids hv hstatus (hequal ▸ hlow) (hslo ▸ hdue)

/-- The availability of a service, with a target of 99.9 percent. -/
def demoAvailability : SLODefinition where
  id := "slo-demo-availability"
  name := "demo-api availability"
  service := "demo-api"
  groupID := ""
  sliMetric := "availability"
  target := 999 / 10
  windowHours := 720
  latencyThresholdMs := 0

/-- A store with so many errors among 2000 requests of the service. -/
def demoRequests (errors : ℕ) : MetricTables where
  points := [⟨"http.requests", ⟨63844891200000000000⟩, .finite 2000, "docker:h:api",
      "\x7b\"service\":\"demo-api\"\x7d"⟩,
    ⟨"http.errors", ⟨63844891200000000000⟩, .finite errors, "docker:h:api",
      "\x7b\"service\":\"demo-api\"\x7d"⟩]
  latest := ∅

/-- What is read of a few of them a minute later. -/
theorem evaluateSLO_demo {errors : ℕ} (h : errors < 5) :
    ∃ status, EvaluateSLO id (demoRequests errors) demoAvailability ⟨63844891260000000000⟩ status ∧
      status.goodEvents = 2000 - errors ∧ status.totalEvents = 2000 := by
  refine ⟨_, ⟨_, ⟨_, List.Perm.refl _, rfl⟩, rfl⟩, ?_, ?_⟩
  · revert errors
    decide +kernel
  · revert errors
    decide +kernel

/-- Four errors are too many: nothing is left, and that is reported. -/
theorem budget_breached : ∃ status,
    EvaluateSLO id (demoRequests 4) demoAvailability ⟨63844891260000000000⟩ status ∧
      BudgetReported demoAvailability ⟨63844891260000000000⟩ status := by
  obtain ⟨status, h, hgood, htotal⟩ := evaluateSLO_demo (show 4 < 5 by decide)
  refine ⟨status, h, (budget_iff h (by norm_num [demoAvailability])
    (by norm_num [demoAvailability]) (by rw [hgood, htotal]; decide) (by rw [htotal]; decide)).mpr
      (.inl ?_)⟩
  rw [SLOStatus.share, hgood, htotal]
  norm_num [demoAvailability]

/-- With one error half of the allowance is left, and all of it is reported. -/
theorem half_budget_reported_full : ∃ status,
    EvaluateSLO id (demoRequests 1) demoAvailability ⟨63844891260000000000⟩ status ∧
      status.share = 9995 / 100 ∧ budgetLeft status.share demoAvailability.target = 50 ∧
        status.errorBudgetRemaining = 100 ∧
          ¬ BudgetReported demoAvailability ⟨63844891260000000000⟩ status := by
  obtain ⟨status, h, hgood, htotal⟩ := evaluateSLO_demo (show 1 < 5 by decide)
  obtain ⟨-, -, hbudget⟩ := compliance_eq_share h (by rw [htotal]; decide)
  have hshare : status.share = 9995 / 100 := by
    rw [SLOStatus.share, hgood, htotal]
    norm_num
  have hleft : budgetLeft status.share demoAvailability.target = 50 := by
    rw [hshare]
    norm_num [budgetLeft, demoAvailability]
  have hall : status.errorBudgetRemaining = 100 := by
    rw [hbudget, hshare]
    norm_num [errorBudgetRemaining, demoAvailability]
  refine ⟨status, h, hshare, hleft, hall, fun hreported => ?_⟩
  have heq := hreported.budget
  rw [hall, hleft] at heq
  norm_num at heq

end Exact

end Argus
