import Argus.Labels
import Argus.Store.Columns
import Argus.Store.Windows
import Argus.Strings
import Mathlib.Data.Prod.Lex

/-!
# Metric points

`WriteMetrics` appends every point to `metric_points` and folds the points of the three workload
metrics into one row per container and metric, which it upserts into `workload_latest` under a
guard on the timestamp. `QueryMetrics` reads the first table, `ListWorkloads` the second.

A statement with a text that its column does not take fails, and the transaction with it:
`insertMetrics` returns the tables after a commit, or nothing.

The lemmas of the last sections describe the tables after a write by the points written:
`insertMetrics_points` the rows of `metric_points`, and `get?_insertMetrics` the row of
`workload_latest` under a key, as two folds, the one of the batch over `keepLatest` and the one
of the upsert over `keepGuarded`.
-/

namespace Argus

open Foundations

/-! ### Data -/

/-- `model.MetricPoint`. -/
structure MetricPoint where
  metricName : String
  ts : Time
  value : Extended
  entityUID : String
  labels : Labels
  deriving DecidableEq

/-- A row of `metric_points`, without its id. -/
structure MetricRow where
  metricName : String
  ts : Time
  value : Extended
  entityUID : String
  labelsJSON : String
  deriving DecidableEq

/-- The key of `workload_latest`: a container and a metric, ordered like the keys that
`upsertWorkloadLatest` sorts. -/
abbrev WorkloadKey : Type := String ×ₗ String

/-- The key of a container and a metric. -/
def workloadKey (container metricName : String) : WorkloadKey := toLex (container, metricName)

theorem workloadKey_inj {c c' m m' : String} :
    workloadKey c m = workloadKey c' m' ↔ c = c' ∧ m = m' := by
  rw [workloadKey, workloadKey, toLex_inj, Prod.mk.injEq]

/-- The other columns of `workload_latest`. -/
structure LatestRow where
  ts : Time
  value : Extended
  entityUID : String
  labelsJSON : String
  deriving DecidableEq

/-- The two tables of metrics. -/
structure MetricTables where
  points : List MetricRow
  latest : SortedMap WorkloadKey LatestRow
  deriving DecidableEq

/-- The tables of an empty store. -/
def MetricTables.empty : MetricTables := ⟨[], ∅⟩

/-! ### Writing -/

/-- `workloadMetric`. -/
def workloadMetric (name : String) : Bool :=
  name == "cpu.usage" || name == "memory.usage" || name == "memory.limit"

/-- The row of `metric_points` that a point becomes. -/
def MetricPoint.toRow (p : MetricPoint) : MetricRow :=
  ⟨p.metricName, p.ts, real p.value, p.entityUID, p.labels.marshal⟩

/-- The row of `workload_latest` that a point becomes. -/
def MetricPoint.toLatest (p : MetricPoint) : LatestRow :=
  ⟨p.ts, real p.value, p.entityUID, p.labels.marshal⟩

/-- Whether the insert of a point succeeds. -/
def MetricPoint.valid (p : MetricPoint) : Bool :=
  validTexts [p.metricName, p.ts.format, p.entityUID, p.labels.marshal]

/-- The key of a point that goes into `workload_latest`. -/
def MetricPoint.key? (p : MetricPoint) : Option WorkloadKey :=
  if !workloadMetric p.metricName || p.labels.get "container" == "" then none
  else some (workloadKey (p.labels.get "container") p.metricName)

/-- The fold of one batch: the later point, and of two at one instant the one that comes
later in the batch. -/
def keepLatest (prev p : MetricPoint) : MetricPoint := if !(p.ts < prev.ts) then p else prev

/-- One round of the loop of `insertMetrics`: insert the point, then note it under its key. -/
def insertPoint (st : List MetricRow × SortedMap WorkloadKey MetricPoint) (p : MetricPoint) :
    Option (List MetricRow × SortedMap WorkloadKey MetricPoint) :=
  if !p.valid then none
  else
    match p.key? with
    | none => some (st.1 ++ [p.toRow], st.2)
    | some k => some (st.1 ++ [p.toRow], st.2.upsert keepLatest k p)

/-- `ON CONFLICT DO UPDATE ... WHERE excluded.ts >= workload_latest.ts`. -/
def keepGuarded (stored excluded : LatestRow) : LatestRow :=
  if latestGuard stored.ts excluded.ts then excluded else stored

/-- `upsertWorkloadLatest`: one upsert for each key, in the order of the keys. -/
def upsertWorkloadLatest (table : SortedMap WorkloadKey LatestRow) :
    List (WorkloadKey × MetricPoint) → Option (SortedMap WorkloadKey LatestRow)
  | [] => some table
  | (k, p) :: rest =>
    if !validTexts [(ofLex k).1, (ofLex k).2, p.ts.format, p.entityUID, p.labels.marshal] then none
    else upsertWorkloadLatest (table.upsert keepGuarded k p.toLatest) rest

/-- `insertMetrics`, and `WriteMetrics` around it. -/
def insertMetrics (db : MetricTables) (points : List MetricPoint) : Option MetricTables := do
  let (rows, latest) ← points.foldlM insertPoint (db.points, ∅)
  let table ← upsertWorkloadLatest db.latest latest.entries
  some ⟨rows, table⟩

/-- A sequence of batches written to an empty store. -/
def writeAll (batches : List (List MetricPoint)) : Option MetricTables :=
  batches.foldlM insertMetrics MetricTables.empty

/-! ### Reading -/

/-- `model.SeriesPoint`. -/
structure SeriesPoint where
  ts : Time
  value : Extended
  deriving DecidableEq

/-- The rows that `QueryMetrics` selects, as the points it makes of them. -/
def selectSeries (db : MetricTables) (metricName : String) (since : Time) : List SeriesPoint :=
  (db.points.filter fun r => r.metricName == metricName && sinceFilter since r.ts).map fun r =>
    ⟨r.ts, r.value⟩

/-- The possible results of `QueryMetrics`: `ORDER BY ts ASC` leaves equal texts in any order.
The labels argument is not used. -/
def QueryMetrics (db : MetricTables) (metricName : String) (since : Time)
    (out : List SeriesPoint) : Prop :=
  out.Perm (selectSeries db metricName since) ∧
    out.Pairwise fun a b => sortsBefore b.ts a.ts = false

/-- `model.WorkloadSnapshot`. -/
structure WorkloadSnapshot where
  container : String
  entityUID : String
  stack : String
  service : String
  labels : Labels
  cpuUsage : Extended
  memoryUsage : Extended
  memoryLimit : Extended
  updatedAt : Time
  deriving DecidableEq

/-- The field of a snapshot for a metric name. -/
def WorkloadSnapshot.metric (w : WorkloadSnapshot) (metricName : String) : Extended :=
  if metricName == "cpu.usage" then w.cpuUsage
  else if metricName == "memory.usage" then w.memoryUsage
  else if metricName == "memory.limit" then w.memoryLimit
  else .finite 0

/-- The switch over the metric name in the loop of `ListWorkloads`. -/
def WorkloadSnapshot.setMetric (w : WorkloadSnapshot) (metricName : String) (value : Extended) :
    WorkloadSnapshot :=
  if metricName == "cpu.usage" then { w with cpuUsage := value }
  else if metricName == "memory.usage" then { w with memoryUsage := value }
  else if metricName == "memory.limit" then { w with memoryLimit := value }
  else w

/-- The state of the loop of `ListWorkloads`: the snapshots by container, and the metrics seen
of each. -/
structure MergeState where
  latest : SortedMap String WorkloadSnapshot
  seenMetric : List (String × String)

/-- The snapshot that the first row of a container starts. -/
def newSnapshot (name : String) (labels : Labels) (r : LatestRow) : WorkloadSnapshot where
  container := name
  entityUID := r.entityUID
  stack := labels.get "stack"
  service := labels.get "service"
  labels := labels
  cpuUsage := .finite 0
  memoryUsage := .finite 0
  memoryLimit := .finite 0
  updatedAt := r.ts

/-- One round of the loop of `ListWorkloads`. -/
def mergeRow (st : MergeState) (e : WorkloadKey × LatestRow) : MergeState :=
  let labels := Labels.unmarshal e.2.labelsJSON
  let name := labels.get "container"
  let metricName := (ofLex e.1).2
  if name == "" then st
  else if (name, metricName) ∈ st.seenMetric then st
  else
    let w :=
      ((st.latest.get? name).getD (newSnapshot name labels e.2)).setMetric metricName e.2.value
    let w := if w.updatedAt < e.2.ts then { w with updatedAt := e.2.ts } else w
    { latest := st.latest.insert name w, seenMetric := (name, metricName) :: st.seenMetric }

/-- The snapshots of the rows of a scan. -/
def mergeRows (rows : List (WorkloadKey × LatestRow)) : SortedMap String WorkloadSnapshot :=
  (rows.foldl mergeRow ⟨∅, []⟩).latest

/-- The possible scans of `ListWorkloads`: the rows of the window, `ORDER BY ts DESC`. -/
def LatestScan (db : MetricTables) (since : Time) (rows : List (WorkloadKey × LatestRow)) : Prop :=
  rows.Perm (db.latest.entries.filter fun e => sinceFilter since e.2.ts) ∧
    rows.Pairwise fun a b => sortsBefore a.2.ts b.2.ts = false

/-- The possible results of `ListWorkloads`. The snapshots come in no order. -/
def ListWorkloads (db : MetricTables) (since : Time) (out : List WorkloadSnapshot) : Prop :=
  ∃ rows, LatestScan db since rows ∧ out.Perm (mergeRows rows).values

/-! ### What one write leaves -/

/-- The points of a list that go to a key. -/
def pointsAt (k : WorkloadKey) (points : List MetricPoint) : List MetricPoint :=
  points.filter fun p => p.key? = some k

/-- The points of a list that go to `workload_latest`, under their keys. -/
def keyedPoints (points : List MetricPoint) : List (WorkloadKey × MetricPoint) :=
  points.filterMap fun p => p.key?.map fun k => (k, p)

theorem rowsFor_keyedPoints (k : WorkloadKey) (points : List MetricPoint) :
    SortedMap.rowsFor k (keyedPoints points) = pointsAt k points := by
  induction points with
  | nil => rfl
  | cons p points ih =>
    rw [keyedPoints, pointsAt, List.filter_cons]
    cases hk : p.key? with
    | none =>
      rw [List.filterMap_cons_none (by rw [hk]; rfl), ← keyedPoints, ih]
      simp [pointsAt]
    | some k' =>
      rw [List.filterMap_cons_some (by rw [hk]; rfl), ← keyedPoints, SortedMap.rowsFor_cons, ih]
      simp only [Option.some.injEq, decide_eq_true_eq]
      rfl

/-- The loop of `insertMetrics` inserts every point and folds the keyed ones. -/
theorem foldlM_insertPoint {points : List MetricPoint}
    {st st' : List MetricRow × SortedMap WorkloadKey MetricPoint}
    (h : points.foldlM insertPoint st = some st') :
    st' = (st.1 ++ points.map MetricPoint.toRow, st.2.upsertAll keepLatest (keyedPoints points)) ∧
      ∀ p ∈ points, p.valid = true := by
  induction points generalizing st with
  | nil =>
    obtain rfl : st = st' := Option.some.inj h
    refine ⟨?_, fun p hp => absurd hp List.not_mem_nil⟩
    rw [List.map_nil, List.append_nil]
    rfl
  | cons p points ih =>
    rw [List.foldlM_cons] at h
    obtain ⟨st₁, h₁, h⟩ := Option.bind_eq_some_iff.mp h
    obtain ⟨rfl, hvalid⟩ := ih h
    rw [insertPoint] at h₁
    split_ifs at h₁ with hp
    have hp : p.valid = true := by simpa using hp
    refine ⟨?_, List.forall_mem_cons.mpr ⟨hp, hvalid⟩⟩
    split at h₁ <;> rename_i hk <;> obtain rfl := Option.some.inj h₁
    · rw [keyedPoints, keyedPoints, List.filterMap_cons_none (by rw [hk]; rfl), List.map_cons,
        List.append_assoc, List.singleton_append]
    · rw [keyedPoints, keyedPoints, List.filterMap_cons_some (by rw [hk]; rfl), List.map_cons,
        List.append_assoc, List.singleton_append]
      rfl

/-- `upsertWorkloadLatest` upserts every entry. -/
theorem upsertWorkloadLatest_eq {entries : List (WorkloadKey × MetricPoint)}
    {table table' : SortedMap WorkloadKey LatestRow}
    (h : upsertWorkloadLatest table entries = some table') :
    table' = table.upsertAll keepGuarded (entries.map fun e => (e.1, e.2.toLatest)) := by
  induction entries generalizing table with
  | nil => exact (Option.some.inj h).symm
  | cons e entries ih =>
    obtain ⟨k, p⟩ := e
    rw [upsertWorkloadLatest] at h
    split_ifs at h with hvalid
    exact ih h

/-- The point of a batch that is upserted under a key. -/
def batchLatest (points : List MetricPoint) (k : WorkloadKey) : Option MetricPoint :=
  (pointsAt k points).foldl (SortedMap.mergeInto keepLatest) none

/-- **One write, `metric_points`.** The points written are appended. -/
theorem insertMetrics_points {db db' : MetricTables} {points : List MetricPoint}
    (h : insertMetrics db points = some db') :
    db'.points = db.points ++ points.map MetricPoint.toRow := by
  obtain ⟨⟨rows, latest⟩, hfold, h⟩ := Option.bind_eq_some_iff.mp h
  obtain ⟨table, -, h⟩ := Option.bind_eq_some_iff.mp h
  obtain rfl := Option.some.inj h
  exact congrArg Prod.fst (foldlM_insertPoint hfold).1

/-- **One write, `workload_latest`.** The newest point of the batch for a key meets the row
that is stored under it. -/
theorem get?_insertMetrics {db db' : MetricTables} {points : List MetricPoint}
    (h : insertMetrics db points = some db') (k : WorkloadKey) :
    db'.latest.get? k = ((batchLatest points k).map MetricPoint.toLatest).toList.foldl
      (SortedMap.mergeInto keepGuarded) (db.latest.get? k) := by
  obtain ⟨⟨rows, latest⟩, hfold, h⟩ := Option.bind_eq_some_iff.mp h
  obtain ⟨table, htable, h⟩ := Option.bind_eq_some_iff.mp h
  obtain rfl := Option.some.inj h
  obtain ⟨-, hlatest⟩ := Prod.mk.inj (foldlM_insertPoint hfold).1
  rw [upsertWorkloadLatest_eq htable, SortedMap.get?_upsertAll, SortedMap.rowsFor_entries, hlatest,
    SortedMap.get?_upsertAll, rowsFor_keyedPoints, SortedMap.get?_empty, batchLatest]

end Argus
