import Argus.Foundations.ExchangeSort
import Argus.Foundations.SortedMap
import Argus.Rules

/-!
# Insights by severity

`SortBySeverity` sorts the insights of an answer in place, by the exchange of two elements in two
nested loops. `sortBySeverity_sorted` says that no insight is lost, and that none stands before a
more severe one.
-/

namespace Argus

open Foundations

/-- A value in the evidence of an insight. -/
inductive EvidenceValue
  | str (s : String)
  | int (n : ℤ)
  | float (x : Double)
  | bool (b : Bool)
  deriving DecidableEq

/-- `model.Insight`. -/
structure Insight where
  id : String
  theme : String
  severity : String
  title : String
  summary : String
  container : String
  entityUID : String := ""
  evidence : SortedMap String EvidenceValue
  recommendations : List String

/-- `order[severity]`, which is zero for a severity that the map does not have. -/
def severityOrder (severity : String) : ℕ :=
  if severity == "critical" then 0
  else if severity == "warning" then 1
  else if severity == "info" then 2
  else 0

/-- `SortBySeverity`. -/
def SortBySeverity (out : List Insight) : List Insight :=
  (exchangeRounds (fun i => severityOrder i.severity) out.length out.toArray).toList

theorem sortBySeverity_perm (out : List Insight) : (SortBySeverity out).Perm out :=
  (exchangeRounds_perm out.length out.toArray).toList

/-- No insight of a smaller weight stands after one of a larger weight. -/
theorem sortBySeverity_pairwise (out : List Insight) :
    (SortBySeverity out).Pairwise fun a b =>
      severityOrder a.severity ≤ severityOrder b.severity := by
  have hsort : (exchangeRounds (fun i => severityOrder i.severity) out.toArray.size
      out.toArray).toList.Pairwise fun a b => severityOrder a.severity ≤ severityOrder b.severity :=
    pairwise_exchangeRounds out.toArray
  rwa [List.size_toArray] at hsort

/-- **Key result.** Sorting keeps every insight, and in the result no warning stands before a
critical insight and no info before a critical one or a warning. -/
theorem sortBySeverity_sorted (out : List Insight) :
    (SortBySeverity out).Perm out ∧ (SortBySeverity out).Pairwise fun a b =>
      (a.severity = "warning" → b.severity ≠ "critical") ∧
      (a.severity = "info" → b.severity ≠ "critical" ∧ b.severity ≠ "warning") := by
  refine ⟨sortBySeverity_perm out, (sortBySeverity_pairwise out).imp fun {a b} hle => ?_⟩
  -- a less severe insight first would contradict the order of the weights
  refine ⟨fun ha hb => ?_, fun ha => ⟨fun hb => ?_, fun hb => ?_⟩⟩
  · rw [ha, hb] at hle
    exact absurd hle (by decide)
  · rw [ha, hb] at hle
    exact absurd hle (by decide)
  · rw [ha, hb] at hle
    exact absurd hle (by decide)

end Argus
