import Argus.Insights.Http
import Argus.Store.Metrics

/-!
# Metrics of HTTP logs

`insights.DeriveMetricsFromLog` makes metric points of an entry whose message is the end of an
HTTP request. None of them goes into `workload_latest`, and a store that takes the texts of the
entry takes theirs.
-/

namespace Argus

open Foundations

/-- `point`. -/
def derivedPoint (e : LogEntry) (labels : Labels) (name : String) (value : Extended) :
    MetricPoint :=
  ⟨name, e.ts, value, e.entityUID, labels⟩

/-- The labels of the points of an entry: its own, with the service and the method. -/
def derivedLabels (e : LogEntry) (sig : HTTPLogSignal) : Labels :=
  let service := if sig.service = "" then e.labels.get "service" else sig.service
  let service := if service = "" then inferServiceFromContainer (e.labels.get "container")
    else service
  let labels := if service = "" then e.labels else e.labels.insert "service" service
  if sig.method = "" then labels else labels.insert "method" sig.method

/-- `DeriveMetricsFromLog`. -/
def deriveMetricsFromLog (rt : Runtime) (e : LogEntry) : List MetricPoint :=
  match parseHTTPLog rt e.message with
  | none => []
  | some sig =>
    if !sig.isExit then []
    else
      let point := derivedPoint e (derivedLabels e sig)
      [point "http.requests" (.finite 1)] ++
        (if sig.status ≥ 400 then [point "http.errors" (.finite 1)] else []) ++
        [point "http.error_rate" (.finite (if sig.status ≥ 400 then 1 else 0))] ++
        (if sig.status > 0 then [point "http.status" (float64 (.finite sig.status))] else []) ++
        (if Extended.positive sig.durationMs then [point "http.duration_ms" sig.durationMs]
          else [])

/-- The names of the points. -/
def derivedNames : List String :=
  ["http.requests", "http.errors", "http.error_rate", "http.status", "http.duration_ms"]

/-- The points of an entry have its instant, its uid and one of five names. -/
theorem exists_of_mem_deriveMetrics {rt : Runtime} {e : LogEntry} {p : MetricPoint}
    (h : p ∈ deriveMetricsFromLog rt e) :
    ∃ labels value, ∃ name ∈ derivedNames, p = derivedPoint e labels name value := by
  rw [deriveMetricsFromLog] at h
  cases hsig : parseHTTPLog rt e.message with
  | none =>
    rw [hsig] at h
    exact absurd h List.not_mem_nil
  | some sig =>
    rw [hsig] at h
    dsimp only at h
    by_cases hexit : (!sig.isExit) = true
    · rw [if_pos hexit] at h
      exact absurd h List.not_mem_nil
    rw [if_neg hexit] at h
    -- a point that is there under a condition is the point of its name
    have hif : ∀ (c : Prop) [Decidable c] (name : String) (value : Extended),
        name ∈ derivedNames →
          p ∈ (if c then [derivedPoint e (derivedLabels e sig) name value] else []) →
            ∃ labels value, ∃ name ∈ derivedNames, p = derivedPoint e labels name value := by
      intro c _ name value hname hp
      split_ifs at hp with hc
      · exact ⟨_, value, name, hname, List.mem_singleton.mp hp⟩
      · exact absurd hp List.not_mem_nil
    have hone : ∀ (name : String) (value : Extended), name ∈ derivedNames →
        p ∈ [derivedPoint e (derivedLabels e sig) name value] →
          ∃ labels value, ∃ name ∈ derivedNames, p = derivedPoint e labels name value :=
      fun name value hname hp => ⟨_, value, name, hname, List.mem_singleton.mp hp⟩
    simp only [List.mem_append] at h
    rcases h with (((h | h) | h) | h) | h
    · exact hone _ _ (by decide) h
    · exact hif _ _ _ (by decide) h
    · exact hone _ _ (by decide) h
    · exact hif _ _ _ (by decide) h
    · exact hif _ _ _ (by decide) h

/-- No point of an entry goes into `workload_latest`. -/
theorem key?_of_mem_deriveMetrics {rt : Runtime} {e : LogEntry} {p : MetricPoint}
    (h : p ∈ deriveMetricsFromLog rt e) : p.key? = none := by
  obtain ⟨labels, value, name, hname, rfl⟩ := exists_of_mem_deriveMetrics h
  have hnames : ∀ name ∈ derivedNames, workloadMetric name = false := by decide
  exact if_pos (by rw [derivedPoint, hnames name hname]; rfl)

end Argus
