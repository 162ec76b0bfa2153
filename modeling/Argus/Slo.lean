import Argus.Floats
import Mathlib.Data.List.Sort

/-!
# Service level objectives

Package `slo` computes what is left of an error budget and publishes `slo.budget_low` for the
objectives that have less than ten percent left, each at most once within the time of `dedupe`.

The results of floating-point operations are rounded by a function `rnd`: to the nearest `float64`,
or not at all where a statement is about exact numbers.
-/

namespace Argus

open Foundations

/-! ### Objectives -/

/-- `model.SLODefinition`. -/
structure SLODefinition where
  id : String
  name : String
  service : String
  groupID : String
  sliMetric : String
  target : ℚ
  windowHours : ℤ
  latencyThresholdMs : ℚ

/-- `model.SLOStatus`. -/
structure SLOStatus where
  slo : SLODefinition
  compliance : ℚ
  errorBudgetRemaining : ℚ
  goodEvents : ℤ
  totalEvents : ℤ
  p95LatencyMs : Extended
  breached : Bool
  evaluatedAt : Time

/-- `P95`. -/
def p95 (rnd : ℚ → ℚ) (values : List Extended) : Extended :=
  if values = [] then .finite 0
  else
    let cp := values.mergeSort fun a b => !greater a b
    let idx := ⌈rnd (rnd cp.length * rnd (95 / 100))⌉ - 1
    let idx := if idx < 0 then 0 else idx
    let idx := if cp.length ≤ idx then (cp.length : ℤ) - 1 else idx
    cp.getD idx.toNat (.finite 0)

/-- `d <= thresholdMs`, for a latency. -/
def withinThreshold (threshold : ℚ) (d : Extended) : Bool := !greater d (.finite threshold)

/-- `ComplianceLatency`. -/
def complianceLatency (rnd : ℚ → ℚ) (latencies : List Extended) (threshold : ℚ) : ℚ :=
  if latencies = [] then 100
  else rnd (rnd (rnd (latencies.countP (withinThreshold threshold)) / rnd latencies.length) * 100)

/-- `ErrorBudgetRemaining`. -/
def errorBudgetRemaining (rnd : ℚ → ℚ) (compliance target : ℚ) : ℚ :=
  if target ≤ 0 then 100
  else if target ≤ compliance then 100
  else
    let allowedBad := rnd (100 - target)
    let actualBad := rnd (100 - compliance)
    if allowedBad ≤ 0 then 0
    else
      let remaining := rnd (rnd (rnd (allowedBad - actualBad) / allowedBad) * 100)
      if remaining < 0 then 0 else if 100 < remaining then 100 else remaining

/-! ### The evaluator -/

/-- `Evaluator`, in nanoseconds. -/
structure Evaluator where
  dedupe : ℤ
  last : SortedMap String Time

/-- `NewEvaluator`. -/
def Evaluator.new : Evaluator := ⟨30 * 60 * 1000000000, ∅⟩

/-- What `Evaluate` meets of an objective: its status, unless that is an error, and the id of its
event. -/
structure Evaluation where
  slo : SLODefinition
  status : Option SLOStatus
  uuid : String

/-- The key of an objective in `last`. -/
def SLODefinition.key (slo : SLODefinition) : String := slo.id ++ ":budget"

/-- Nothing was published for an objective within the time of `dedupe`. -/
def Evaluator.due (e : Evaluator) (slo : SLODefinition) (now : Time) : Bool :=
  match e.last.get? slo.key with
  | some t => !decide (now.sub t < e.dedupe)
  | none => true

/-- `slo.budget_low`. -/
def budgetLow (v : Evaluation) (status : SLOStatus) (now : Time) : Model.Event where
  id := v.uuid
  type := "slo.budget_low"
  ts := now
  severity := "warning"
  source := "slo-engine"
  entityUID := "slo:" ++ v.slo.id
  labels := SortedMap.ofList [("service", v.slo.service), ("slo_id", v.slo.id)]
  payload := SortedMap.ofList
    [("slo_id", .str v.slo.id), ("name", .str v.slo.name),
      ("compliance", .num (.finite status.compliance)),
      ("error_budget_remaining", .num (.finite status.errorBudgetRemaining)),
      ("p95_latency_ms", .num status.p95LatencyMs)]

/-- One round of the loop of `Evaluate`, and what it publishes. -/
def Evaluator.step (e : Evaluator) (now : Time) (v : Evaluation) : Evaluator × Option Model.Event :=
  match v.status with
  | none => (e, none)
  | some status =>
    if 10 ≤ status.errorBudgetRemaining then (e, none)
    else if e.due v.slo now then
      ({ e with last := e.last.insert v.slo.key now }, some (budgetLow v status now))
    else (e, none)

/-- `Evaluator.Evaluate`, and what it publishes. -/
def Evaluator.evaluate (now : Time) : Evaluator → List Evaluation → Evaluator × List Model.Event
  | e, [] => (e, [])
  | e, v :: evaluations =>
    let (e, event) := e.step now v
    let (e, events) := Evaluator.evaluate now e evaluations
    (e, event.toList ++ events)

/-- An objective with another id is as due as before. -/
theorem due_step {e : Evaluator} {now : Time} {v : Evaluation} {slo : SLODefinition}
    (h : v.slo.id ≠ slo.id) : (e.step now v).1.due slo now = e.due slo now := by
  have hkey : v.slo.key ≠ slo.key := by
    intro heq
    have hlist := congrArg String.toList heq
    rw [SLODefinition.key, SLODefinition.key, String.toList_append, String.toList_append] at hlist
    exact h (String.toList_inj.mp (List.append_cancel_right hlist))
  rw [Evaluator.step]
  cases v.status with
  | none => rfl
  | some status =>
    dsimp only
    split_ifs
    · rfl
    · rw [Evaluator.due, SortedMap.get?_insert_of_ne hkey, Evaluator.due]
    · rfl

/-- **A low budget is published.** An objective that is due and has less than ten percent left gets
its event, if no two of the objectives have one id. -/
theorem published_of_due {e : Evaluator} {now : Time} {evaluations : List Evaluation}
    (hids : (evaluations.map fun v => v.slo.id).Nodup) {v : Evaluation} (hv : v ∈ evaluations)
    {status : SLOStatus} (hstatus : v.status = some status)
    (hlow : status.errorBudgetRemaining < 10) (hdue : e.due v.slo now = true) :
    budgetLow v status now ∈ (Evaluator.evaluate now e evaluations).2 := by
  induction evaluations generalizing e with
  | nil => exact absurd hv List.not_mem_nil
  | cons w evaluations ih =>
    rw [List.map_cons, List.nodup_cons] at hids
    rw [Evaluator.evaluate]
    rcases List.mem_cons.mp hv with rfl | hv
    · refine List.mem_append_left _ ?_
      rw [Evaluator.step, hstatus]
      dsimp only
      rw [if_neg (not_le.mpr hlow), if_pos hdue]
      exact List.mem_singleton_self _
    · have hne : w.slo.id ≠ v.slo.id := fun heq =>
        hids.1 (heq ▸ List.mem_map_of_mem hv)
      refine List.mem_append_right _ (ih hids.2 hv ?_)
      rw [due_step hne]
      exact hdue

end Argus
