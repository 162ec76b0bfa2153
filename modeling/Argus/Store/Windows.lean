import Argus.Foundations.SortedMap
import Argus.Time

/-!
# Comparisons of stored timestamps

A timestamp column holds `Time.format` of an instant, and it is represented by that instant;
every comparison that a statement of the store makes is made on the texts. There are five of
them: the two ends of a window, the cutoff of `StaleAgents` and of the purge, the guard of
`workload_latest`, and the sort order. `chronological_iff` says when all five decide as the
instants would.
-/

namespace Argus

open Foundations

/-! ### The comparisons -/

/-- `ts >= ?`, the start of a window. -/
def sinceFilter (since ts : Time) : Bool := since.format ≤ ts.format

/-- `ts <= ?`, the end of a window; it is left out for the zero time. -/
def untilFilter (until_ ts : Time) : Bool := until_.isZero || ts.format ≤ until_.format

/-- `ts < ?`, the cutoff of `StaleAgents` and of the purge. -/
def olderThan (before ts : Time) : Bool := ts.format < before.format

/-- `excluded.ts >= workload_latest.ts`, the guard of the upsert. -/
def latestGuard (stored excluded : Time) : Bool := stored.format ≤ excluded.format

/-- The comparison of `ORDER BY ts`. -/
def sortsBefore (ts₁ ts₂ : Time) : Bool := ts₁.format < ts₂.format

/-- The window of `logWhere`, `eventWhere` and `QueryMetricSeries`. -/
def inWindow (since until_ ts : Time) : Bool := sinceFilter since ts && untilFilter until_ ts

/-- Whether an instant is in a window, which is open for the zero time. -/
def within (since until_ ts : Time) : Bool := since ≤ ts && (until_.isZero || ts ≤ until_)

/-- The texts of some instants sort like the instants. -/
def TextsAgree (times : List Time) : Prop :=
  ∀ t₁ ∈ times, ∀ t₂ ∈ times, t₁.format ≤ t₂.format ↔ t₁ ≤ t₂

theorem TextsAgree.mono {times times' : List Time} (h : TextsAgree times') (hsub : times ⊆ times') :
    TextsAgree times :=
  fun t₁ h₁ t₂ h₂ => h t₁ (hsub h₁) t₂ (hsub h₂)

/-- Where the texts sort like the instants, so do the texts of a window. -/
theorem TextsAgree.inWindow_eq {times : List Time} {since until_ ts : Time} (h : TextsAgree times)
    (hsince : since ∈ times) (huntil : until_ ∈ times) (hts : ts ∈ times) :
    inWindow since until_ ts = within since until_ ts := by
  rw [inWindow, within, sinceFilter, untilFilter, decide_eq_decide.mpr (h _ hsince _ hts),
    decide_eq_decide.mpr (h _ hts _ huntil)]

/-- Every comparison of the store decides on `t₁` and `t₂` as the instants do. -/
structure Chronological (t₁ t₂ : Time) : Prop where
  text : t₁.format < t₂.format ↔ t₁ < t₂
  since : sinceFilter t₁ t₂ ↔ t₁ ≤ t₂
  until_ : untilFilter t₂ t₁ ↔ t₂.isZero ∨ t₁ ≤ t₂
  cutoff : olderThan t₂ t₁ ↔ t₁ < t₂
  guard : latestGuard t₁ t₂ ↔ t₁ ≤ t₂
  sort : sortsBefore t₁ t₂ ↔ t₁ < t₂

/-- Where the texts sort like the instants, so does everything that compares them. -/
theorem chronological_of_not_cut {t₁ t₂ : Time} (h₁ : t₁.InYears) (h₂ : t₂.InYears)
    (hcut : ¬ Time.FractionCut t₁ t₂) : Chronological t₁ t₂ := by
  have hlt := (Time.format_lt_iff h₁ h₂).mpr hcut
  have hle := (Time.format_le_iff h₁ h₂).mpr hcut
  constructor
  · exact hlt
  · rw [sinceFilter, decide_eq_true_iff, hle]
  · rw [untilFilter, Bool.or_eq_true, decide_eq_true_iff, hle]
  · rw [olderThan, decide_eq_true_iff, hlt]
  · rw [latestGuard, decide_eq_true_iff, hle]
  · rw [sortsBefore, decide_eq_true_iff, hlt]

/-- **When texts sort like instants.** The comparisons of the store decide chronologically on
two instants exactly when the written fraction of one does not continue that of the other
within one second. -/
theorem chronological_iff {t₁ t₂ : Time} (h₁ : t₁.InYears) (h₂ : t₂.InYears) :
    Chronological t₁ t₂ ↔ ¬ Time.FractionCut t₁ t₂ :=
  ⟨fun h => (Time.format_lt_iff h₁ h₂).mp h.text, chronological_of_not_cut h₁ h₂⟩

/-- Noon of 2024-03-01, and a second later by a millisecond more. -/
theorem chronological_iff_millisecond :
    Chronological ⟨63844891200000000000⟩ ⟨63844891201001000000⟩ ↔
      ¬ Time.FractionCut ⟨63844891200000000000⟩ ⟨63844891201001000000⟩ :=
  chronological_iff (by decide +kernel) (by decide +kernel)

/-- Half a second past noon sorts before noon: `12:00:00.5Z` and `12:00:00Z`. -/
theorem half_second_sorts_first :
    ¬ Chronological ⟨63844891200000000000⟩ ⟨63844891200500000000⟩ := fun h =>
  absurd (h.text.mpr (by decide)) (by decide +kernel)

/-- `ORDER BY ts DESC` has an answer. -/
theorem exists_sorted_desc {ρ : Type} (rows : List ρ) (ts : ρ → Time) :
    ∃ sorted : List ρ,
      sorted.Perm rows ∧ sorted.Pairwise fun a b => sortsBefore (ts a) (ts b) = false := by
  refine ⟨rows.mergeSort fun a b => !sortsBefore (ts a) (ts b), List.mergeSort_perm _ _, ?_⟩
  refine (List.pairwise_mergeSort ?_ ?_ rows).imp fun h => by simpa using h
  · intro a b c hab hbc
    simp only [sortsBefore, Bool.not_eq_true', decide_eq_false_iff_not, not_lt] at *
    exact hbc.trans hab
  · intro a b
    simp only [sortsBefore, Bool.or_eq_true, Bool.not_eq_true', decide_eq_false_iff_not, not_lt]
    exact le_total _ _

/-- `ORDER BY ts ASC` has an answer. -/
theorem exists_sorted_asc {ρ : Type} (rows : List ρ) (ts : ρ → Time) :
    ∃ sorted : List ρ, sorted.Perm rows ∧
      sorted.Pairwise fun a b => sortsBefore (ts b) (ts a) = false := by
  obtain ⟨sorted, hperm, hsorted⟩ := exists_sorted_desc rows ts
  exact ⟨sorted.reverse, (List.reverse_perm sorted).trans hperm, List.pairwise_reverse.mpr hsorted⟩

/-! ### Agents -/

/-- A row of `agents`. -/
structure AgentRow where
  agentID : String
  hostID : String
  runtime : String
  labelsJSON : String
  lastSeen : Time
  deriving DecidableEq

/-- `Postgres.StaleAgents`. -/
def staleAgents (agents : SortedMap String AgentRow) (before : Time) : List AgentRow :=
  agents.values.filter fun a => olderThan before a.lastSeen

end Argus
