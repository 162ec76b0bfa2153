import Argus.Logs
import Argus.Store.Purge

/-!
# Retention

A run of `runPurge` computes a cutoff for each of the three retentions and has `Purge` visit the
tables one after the other, each with the cutoff of its category. What a row holds besides its key
and its timestamp does not matter. The context may end and a statement may fail at any point, also
when it is carried out all the same; then the later tables are left alone.

Whether a retention is off is only asked for all three together, in `retentionLoop`; the cutoff of
one that is off is the present, or later, but for the least duration, whose negation is itself.
`purge_spares_iff` says which rows this costs, and which the comparison of the timestamps as texts
costs.
-/

namespace Argus

open Foundations

/-! ### Tables -/

/-- The tables that `Purge` visits. -/
inductive PurgeTable
  | logEntries
  | metricPoints
  | events
  | traceSpans
  | logPatterns
  | topologyEdges
  | topologyLinks
  | workloadLatest
  deriving DecidableEq

/-- The retentions. -/
inductive RetentionCategory
  | logs
  | metrics
  | events
  deriving DecidableEq

namespace PurgeTable

/-- The retention that `Purge` applies to a table. -/
def category : PurgeTable → RetentionCategory
  | logEntries | traceSpans | logPatterns => .logs
  | metricPoints | topologyEdges | topologyLinks | workloadLatest => .metrics
  | events => .events

/-- The tables that lose their rows in one statement. -/
def inOneStatement : PurgeTable → Bool
  | topologyEdges | topologyLinks | workloadLatest => true
  | _ => false

/-- The tables in the order of `Purge`. -/
def order : List PurgeTable :=
  [logEntries, metricPoints, events, traceSpans, logPatterns, topologyEdges, topologyLinks,
    workloadLatest]

theorem mem_order (T : PurgeTable) : T ∈ order := by
  cases T <;> decide

end PurgeTable

variable {Key Row : PurgeTable → Type} [∀ T, LinearOrder (Key T)]

/-- The content of the tables. -/
abbrev PurgeTables (Key Row : PurgeTable → Type) [∀ T, LinearOrder (Key T)] : Type :=
  ∀ T, SortedMap (Key T) (Row T)

/-! ### The purge -/

/-- The part of `Config` that the purge depends on: durations, in nanoseconds. -/
structure RetentionConfig where
  retention : RetentionCategory → ℤ

/-- Whether all retentions are off. -/
def RetentionConfig.off (cfg : RetentionConfig) : Bool :=
  cfg.retention .logs ≤ 0 && cfg.retention .metrics ≤ 0 && cfg.retention .events ≤ 0

/-- The cutoff of a retention: `now.Add(-r)`, where the negation is one of 64 bits. -/
def RetentionConfig.before (cfg : RetentionConfig) (now : Time) (c : RetentionCategory) : Time :=
  now.add (Int.bmod (-cfg.retention c) (2 ^ 64))

/-- What a run meets: the clock, whether another run is on its way, what becomes of the rounds of a
table, counted down, whether the context has ended after the last table, how long the run took, and
the id of its event. A round in which the context has ended fails, or it is carried out and nobody
waits for its answer. -/
structure PurgeRun where
  now : Time
  busy : Bool
  fate : PurgeTable → ℕ → Fate
  expired : Bool
  durationMs : ℕ
  uuid : String

/-- `purgeBefore`: what is left, how many rows were counted, and whether there was no error. -/
def purgeBefore (tsColumn : ∀ T, Row T → Time) (fate : ℕ → Fate) (T : PurgeTable) (before : Time)
    (table : SortedMap (Key T) (Row T)) : Option (SortedMap (Key T) (Row T) × ℕ × Bool) :=
  if T.inOneStatement then
    let left := purged (tsColumn T) before table
    match fate 0 with
    | .failed => some (table, 0, false)
    | .unanswered => some (left, 0, false)
    | .answered => some (left, table.entries.length - left.entries.length, true)
  else purgeLoop fate (tsColumn T) before (table.entries.length + 1) table 0

/-- The tables of a list one after the other, up to the first error: what is left, the counted rows
of each table, and whether there was no error. -/
def purgeTables (tsColumn : ∀ T, Row T → Time) (fate : PurgeTable → ℕ → Fate)
    (before : RetentionCategory → Time) : List PurgeTable → PurgeTables Key Row →
      (PurgeTable → ℕ) → Option (PurgeTables Key Row × (PurgeTable → ℕ) × Bool)
  | [], tables, deleted => some (tables, deleted, true)
  | T :: rest, tables, deleted => do
    let (left, n, ok) ← purgeBefore tsColumn (fate T) T (before T.category) (tables T)
    let tables := Function.update tables T left
    let deleted := Function.update deleted T n
    if ok then purgeTables tsColumn fate before rest tables deleted
    else some (tables, deleted, false)

/-- `model.PurgeResult`. -/
structure PurgeResult where
  logsDeleted : ℕ
  metricsDeleted : ℕ
  eventsDeleted : ℕ
  durationMs : ℕ
  truncated : Bool

/-- `Purge`: what is left, the result, and whether there was no error. -/
def Purge (tsColumn : ∀ T, Row T → Time) (run : PurgeRun) (before : RetentionCategory → Time)
    (tables : PurgeTables Key Row) : Option (PurgeTables Key Row × PurgeResult × Bool) := do
  let (left, deleted, ok) ←
    purgeTables tsColumn run.fate before PurgeTable.order tables fun _ => 0
  some (left,
    { logsDeleted := deleted .logEntries
      metricsDeleted := deleted .metricPoints
      eventsDeleted := deleted .events
      durationMs := if ok then run.durationMs else 0
      truncated := ok && run.expired }, ok && !run.expired)

/-- The event of a run. -/
def PurgeResult.event (result : PurgeResult) (run : PurgeRun) : Model.Event where
  id := run.uuid
  type := "retention.purge"
  ts := run.now
  severity := "info"
  source := "hub"
  entityUID := "hub:retention"
  labels := SortedMap.ofList [("component", "retention")]
  payload := SortedMap.ofList
    [("logs_deleted", .num (.finite result.logsDeleted)),
      ("metrics_deleted", .num (.finite result.metricsDeleted)),
      ("events_deleted", .num (.finite result.eventsDeleted)),
      ("duration_ms", .num (.finite result.durationMs)),
      ("truncated", .bool result.truncated)]

/-- What `runPurge` reports: the result that it logs, unless it logs an error, and its event. -/
structure PurgeReport where
  line : Option PurgeResult
  event : Option Model.Event

/-- The report of a result. -/
def purgeReport (run : PurgeRun) (result : PurgeResult) (ok : Bool) : PurgeReport :=
  if !ok && !run.expired then ⟨none, none⟩
  else if result.logsDeleted = 0 ∧ result.metricsDeleted = 0 ∧ result.eventsDeleted = 0 then
    ⟨some result, none⟩
  else ⟨some result, some (result.event run)⟩

/-- `runPurge`: what is left, and what is reported. -/
def runPurge (tsColumn : ∀ T, Row T → Time) (cfg : RetentionConfig) (run : PurgeRun)
    (tables : PurgeTables Key Row) : Option (PurgeTables Key Row × PurgeReport) := do
  if run.busy then some (tables, ⟨none, none⟩)
  else
    let (left, result, ok) ← Purge tsColumn run (cfg.before run.now) tables
    some (left, purgeReport run result ok)

/-- A run of `retentionLoop`, which returns at the start when all retentions are off. -/
def retentionRun (tsColumn : ∀ T, Row T → Time) (cfg : RetentionConfig) (run : PurgeRun)
    (tables : PurgeTables Key Row) : Option (PurgeTables Key Row × PurgeReport) :=
  if cfg.off then some (tables, ⟨none, none⟩) else runPurge tsColumn cfg run tables

/-! ### What a run removes -/

section Keeps

variable (tsColumn : ∀ T, Row T → Time)

/-- A purge of a table in one statement. -/
theorem purgeBefore_one {T : PurgeTable} (hone : T.inOneStatement = true) (fate : ℕ → Fate)
    (before : Time) (table : SortedMap (Key T) (Row T)) :
    purgeBefore tsColumn fate T before table =
      match fate 0 with
      | .failed => some (table, 0, false)
      | .unanswered => some (purged (tsColumn T) before table, 0, false)
      | .answered => some (purged (tsColumn T) before table,
          (oldRows (tsColumn T) before table).length, true) := by
  have hlength := @length_oldRows_add _ _ _ (tsColumn T) before table
  rw [purgeBefore, if_pos hone]
  cases fate 0 with
  | answered =>
    have hcount : table.entries.length - (purged (tsColumn T) before table).entries.length =
      (oldRows (tsColumn T) before table).length := by omega
    simp only [hcount]
  | _ => rfl

/-- A purge of a table in batches. -/
theorem purgeBefore_batches {T : PurgeTable} (hone : ¬ T.inOneStatement = true) (fate : ℕ → Fate)
    (before : Time) (table : SortedMap (Key T) (Row T)) :
    purgeBefore tsColumn fate T before table =
      purgeLoop fate (tsColumn T) before (table.entries.length + 1) table 0 :=
  if_neg hone

/-- One table comes to an end, keeps the rows that are not before the cutoff, and gains none. -/
theorem exists_purgeBefore (fate : ℕ → Fate) (T : PurgeTable) (before : Time)
    (table : SortedMap (Key T) (Row T)) :
    ∃ left n ok, purgeBefore tsColumn fate T before table = some (left, n, ok) ∧
      ∀ k r, table.get? k = some r → olderThan before (tsColumn T r) = false →
        left.get? k = some r := by
  by_cases hone : T.inOneStatement = true
  · rw [purgeBefore_one tsColumn hone]
    cases fate 0 with
    | failed => exact ⟨table, 0, false, rfl, fun k r hr _ => hr⟩
    | unanswered => exact ⟨_, 0, false, rfl, fun k r hr hnew => get?_purged_of_not hr hnew⟩
    | answered => exact ⟨_, _, true, rfl, fun k r hr hnew => get?_purged_of_not hr hnew⟩
  · rw [purgeBefore_batches tsColumn hone]
    have hsome : (purgeLoop fate (tsColumn T) before (table.entries.length + 1) table 0).isSome :=
      purgeLoop_isSome fate (Nat.lt_succ_self _) 0
    obtain ⟨⟨left, n, ok⟩, hloop⟩ := Option.isSome_iff_exists.mp hsome
    refine ⟨left, n, ok, hloop, fun k r hr hnew => ?_⟩
    have hkept : (purged (tsColumn T) before left).get? k = some r := by
      rw [purgeLoop_keeps hloop]
      exact get?_purged_of_not hr hnew
    rw [purged, SortedMap.get?_filter] at hkept
    exact (Option.filter_eq_some_iff.mp hkept).1

/-- The tables come to an end, and what is not before its cutoff stays. -/
theorem exists_purgeTables (fate : PurgeTable → ℕ → Fate) (before : RetentionCategory → Time)
    (l : List PurgeTable) (tables : PurgeTables Key Row) (deleted : PurgeTable → ℕ) :
    ∃ left deleted' ok,
      purgeTables tsColumn fate before l tables deleted = some (left, deleted', ok) ∧
      ∀ T k r, (tables T).get? k = some r → olderThan (before T.category) (tsColumn T r) = false →
        (left T).get? k = some r := by
  induction l generalizing tables deleted with
  | nil => exact ⟨tables, deleted, true, rfl, fun T k r hr _ => hr⟩
  | cons T l ih =>
    obtain ⟨table, n, ok, hbefore, hkeeps⟩ := exists_purgeBefore tsColumn (fate T) T
      (before T.category) (tables T)
    have hupdate : ∀ T' k r, (tables T').get? k = some r →
        olderThan (before T'.category) (tsColumn T' r) = false →
          (Function.update tables T table T').get? k = some r := by
      intro T' k r hr hnew
      by_cases hT : T' = T
      · subst hT
        rw [Function.update_self]
        exact hkeeps k r hr hnew
      · rw [Function.update_of_ne hT]
        exact hr
    rw [purgeTables, hbefore]
    cases ok with
    | false => exact ⟨_, _, false, rfl, hupdate⟩
    | true =>
      obtain ⟨left, deleted', ok, htables, hleft⟩ :=
        ih (Function.update tables T table) (Function.update deleted T n)
      exact ⟨left, deleted', ok, htables,
        fun T' k r hr hnew => hleft T' k r (hupdate T' k r hr hnew) hnew⟩

/-- When every round is answered no table keeps a row that is before its cutoff. -/
theorem purgeTables_complete (before : RetentionCategory → Time) (l : List PurgeTable)
    (tables : PurgeTables Key Row) (deleted : PurgeTable → ℕ) :
    ∃ left deleted',
      purgeTables tsColumn (fun _ _ => .answered) before l tables deleted =
        some (left, deleted', true) ∧
      ∀ T k r, (left T).get? k = some r → (tables T).get? k = some r ∧
        (T ∈ l → olderThan (before T.category) (tsColumn T r) = false) := by
  induction l generalizing tables deleted with
  | nil =>
    exact ⟨tables, deleted, rfl, fun T k r hr => ⟨hr, fun hT => absurd hT List.not_mem_nil⟩⟩
  | cons T l ih =>
    obtain ⟨n, hbefore⟩ : ∃ n, purgeBefore tsColumn (fun _ => .answered) T (before T.category)
        (tables T) = some (purged (tsColumn T) (before T.category) (tables T), n, true) := by
      by_cases hone : T.inOneStatement = true
      · exact ⟨_, purgeBefore_one tsColumn hone _ _ _⟩
      · rw [purgeBefore_batches tsColumn hone]
        obtain ⟨n, hloop, -⟩ := @purgeLoop_eq _ _ _ (tsColumn T) (before T.category) (tables T) _
          (Nat.lt_succ_self _) 0
        exact ⟨_, hloop⟩
    obtain ⟨left, deleted', htables, hleft⟩ := ih (Function.update tables T
      (purged (tsColumn T) (before T.category) (tables T))) (Function.update deleted T n)
    refine ⟨left, deleted', ?_, fun T' k r hr => ?_⟩
    · rw [purgeTables, hbefore]
      exact htables
    · obtain ⟨hrow, hnew⟩ := hleft T' k r hr
      by_cases hT : T' = T
      · subst hT
        rw [Function.update_self, purged, SortedMap.get?_filter] at hrow
        obtain ⟨hrow, hold⟩ := Option.filter_eq_some_iff.mp hrow
        exact ⟨hrow, fun _ => by simpa using hold⟩
      · rw [Function.update_of_ne hT] at hrow
        refine ⟨hrow, fun hmem => hnew ?_⟩
        rcases List.mem_cons.mp hmem with hmem | hmem
        · exact absurd hmem hT
        · exact hmem

/-! ### Which rows stay -/

/-- A row that retention promises to keep: it is younger than the age of its category, or the
retention of its category is off. -/
def Promised (cfg : RetentionConfig) (now : Time) (T : PurgeTable) (ts : Time) : Prop :=
  cfg.retention T.category ≤ 0 ∨ (now.ns : ℤ) - ts.ns < cfg.retention T.category

/-- Every run ends, and the promised rows are then still there. -/
def KeepsPromised (tsColumn : ∀ T, Row T → Time) (cfg : RetentionConfig) (now : Time)
    (tables : PurgeTables Key Row) : Prop :=
  ∀ run : PurgeRun, run.now = now → ∃ left report,
    retentionRun tsColumn cfg run tables = some (left, report) ∧
      ∀ T k r, (tables T).get? k = some r → Promised cfg now T (tsColumn T r) →
        (left T).get? k = some r

/-- In a category that is off no row has a timestamp whose text is before that of the cutoff; in the
others no row that is young enough has one, which is a matter of the trimmed fractions within one
second. -/
structure Spared (tsColumn : ∀ T, Row T → Time) (cfg : RetentionConfig) (now : Time)
    (tables : PurgeTables Key Row) : Prop where
  off : ∀ T, cfg.retention T.category ≤ 0 → ∀ k r, (tables T).get? k = some r →
    olderThan (cfg.before now T.category) (tsColumn T r) = false
  young : ∀ T, 0 < cfg.retention T.category → ∀ k r, (tables T).get? k = some r →
    (now.ns : ℤ) - (tsColumn T r).ns < cfg.retention T.category →
      olderThan (cfg.before now T.category) (tsColumn T r) = false

theorem Spared.notOlder {cfg : RetentionConfig} {now : Time} {tables : PurgeTables Key Row}
    (h : Spared tsColumn cfg now tables) {T : PurgeTable} {k : Key T} {r : Row T}
    (hr : (tables T).get? k = some r) (hpromised : Promised cfg now T (tsColumn T r)) :
    olderThan (cfg.before now T.category) (tsColumn T r) = false := by
  by_cases hoff : cfg.retention T.category ≤ 0
  · exact h.off T hoff k r hr
  · exact h.young T (not_le.mp hoff) k r hr (hpromised.resolve_left hoff)

/-- Within the years of four digits a row that is young enough is only lost when its second is that
of the cutoff and the written fraction of one continues that of the other. -/
theorem olderThan_young_iff {before ts : Time} (hbefore : before.InYears) (hts : ts.InYears)
    (h : before < ts) : olderThan before ts = true ↔ Time.FractionCut ts before := by
  have htext := Time.format_lt_iff hts hbefore
  rw [iff_false_right (not_lt.mpr h.le)] at htext
  rw [olderThan, decide_eq_true_iff]
  exact not_iff_not.mp htext

/-- A run that no other run keeps away leaves what its tables leave. -/
theorem exists_runPurge {cfg : RetentionConfig} {run : PurgeRun}
    {tables left : PurgeTables Key Row} {deleted : PurgeTable → ℕ} {ok : Bool}
    (hbusy : run.busy = false)
    (h : purgeTables tsColumn run.fate (cfg.before run.now) PurgeTable.order tables (fun _ => 0) =
      some (left, deleted, ok)) :
    ∃ report, runPurge tsColumn cfg run tables = some (left, report) := by
  rw [runPurge, hbusy, Purge, h]
  exact ⟨_, rfl⟩

/-- **Key result.** Runs of the purge keep the rows that are young enough, and all rows of a
category that is off, exactly when all three are off or no such row is before the cutoff of its
category, as a text. -/
theorem purge_spares_iff (tsColumn : ∀ T, Row T → Time) (cfg : RetentionConfig) (now : Time)
    (tables : PurgeTables Key Row) :
    KeepsPromised tsColumn cfg now tables ↔
      cfg.off = true ∨ Spared tsColumn cfg now tables := by
  constructor
  · intro h
    by_cases hoff : cfg.off = true
    · exact .inl hoff
    -- a run whose rounds are all answered removes every row that is before its cutoff
    obtain ⟨left, deleted, htables, hleft⟩ :=
      purgeTables_complete tsColumn (cfg.before now) PurgeTable.order tables fun _ => 0
    obtain ⟨report, hrun⟩ : ∃ report, runPurge tsColumn cfg
        ⟨now, false, fun _ _ => .answered, false, 0, ""⟩ tables = some (left, report) :=
      exists_runPurge tsColumn rfl htables
    obtain ⟨left', report', hresult, hkeeps⟩ :=
      h ⟨now, false, fun _ _ => .answered, false, 0, ""⟩ rfl
    rw [retentionRun, if_neg hoff, hrun] at hresult
    obtain ⟨rfl, -⟩ := Prod.mk.inj (Option.some.inj hresult)
    have hnew : ∀ T k r, (tables T).get? k = some r → Promised cfg now T (tsColumn T r) →
        olderThan (cfg.before now T.category) (tsColumn T r) = false := fun T k r hr hpromised =>
      (hleft T k r (hkeeps T k r hr hpromised)).2 T.mem_order
    exact .inr ⟨fun T hT k r hr => hnew T k r hr (.inl hT),
      fun T _ k r hr hyoung => hnew T k r hr (.inr hyoung)⟩
  · rintro h run rfl
    by_cases hoff : cfg.off = true
    · exact ⟨tables, ⟨none, none⟩, if_pos hoff, fun T k r hr _ => hr⟩
    have hspared := h.resolve_left hoff
    rw [retentionRun, if_neg hoff]
    cases hbusy : run.busy with
    | true =>
      refine ⟨tables, ⟨none, none⟩, ?_, fun T k r hr _ => hr⟩
      rw [runPurge, hbusy]
      rfl
    | false =>
      obtain ⟨left, deleted, ok, htables, hleft⟩ := exists_purgeTables tsColumn
        run.fate (cfg.before run.now) PurgeTable.order tables fun _ => 0
      obtain ⟨report, hrun⟩ := exists_runPurge tsColumn hbusy htables
      exact ⟨left, report, hrun,
        fun T k r hr hpromised => hleft T k r hr (hspared.notOlder tsColumn hr hpromised)⟩

end Keeps

/-! ### Metrics without retention -/

/-- A retention of a week for logs and a month for events, none for metrics. -/
def metricsForever : RetentionConfig where
  retention
    | .logs => 7 * 24 * 3600 * 1000000000
    | .metrics => 0
    | .events => 30 * 24 * 3600 * 1000000000

/-- One metric point of noon on 2024-03-01. -/
def noonPoint : PurgeTables (fun _ => ℕ) fun _ => Time
  | .metricPoints => SortedMap.ofList [(1, ⟨63844891200000000000⟩)]
  | _ => ∅

/-- A minute later the point is gone. -/
theorem metricsForever_purged :
    ¬ KeepsPromised (fun _ => id) metricsForever ⟨63844891260000000000⟩ noonPoint := by
  intro h
  obtain ⟨left, report, hrun, hleft⟩ :=
    h ⟨⟨63844891260000000000⟩, false, fun _ _ => .answered, false, 0, ""⟩ rfl
  have hpoint := hleft .metricPoints 1 ⟨63844891200000000000⟩ rfl (.inl (le_refl 0))
  have hgone : ((retentionRun (fun _ => id) metricsForever
      ⟨⟨63844891260000000000⟩, false, fun _ _ => .answered, false, 0, ""⟩ noonPoint).map
        fun r => ((r.1 .metricPoints).get? 1).isSome) = some false := by decide +kernel
  rw [hrun, Option.map_some, hpoint] at hgone
  exact absurd hgone (by decide)

end Argus
