import Argus.Store.Workloads

/-!
# The newest point of a workload metric

`WriteMetrics` decides twice which of two points is the newer one: `insertMetrics` folds the
points of a batch in memory, by their instants, and `upsertWorkloadLatest` meets the stored row
under a guard on the texts. `insertMetricsEach` is the write without the fold, one upsert for each
point. Where the texts of the points of a key sort like the instants, the two writes are the same
(`insertMetrics_eq_each`), whatever the order of the points and of the batches, and the row that a
run leaves under a key is the one of the newest point written (`newestPoint_kept`).

A batch that a column refuses is rolled back: it changes no table and its points are not written.
-/

namespace Argus

open Foundations

/-! ### The write without the fold -/

/-- The statements of `WriteMetrics` with an upsert for every point that has a key. -/
def insertMetricsEach (db : MetricTables) (points : List MetricPoint) : Option MetricTables := do
  let (rows, _) ← points.foldlM insertPoint (db.points, ∅)
  let table ← upsertWorkloadLatest db.latest (keyedPoints points)
  some ⟨rows, table⟩

/-- Whether the upsert of a point succeeds. -/
def upsertValid (e : WorkloadKey × MetricPoint) : Bool :=
  validTexts
    [(ofLex e.1).1, (ofLex e.1).2, e.2.ts.format, e.2.entityUID, e.2.labels.marshal]

/-- A point that was inserted is upserted exactly when the texts of its key are valid. -/
theorem upsertValid_eq {k : WorkloadKey} {p : MetricPoint} (h : p.valid = true) :
    upsertValid (k, p) = validTexts [(ofLex k).1, (ofLex k).2] := by
  simp only [MetricPoint.valid, validTexts, List.all_cons, Bool.and_eq_true] at h
  obtain ⟨-, hts, huid, hlabels⟩ := h
  simp only [upsertValid, validTexts, List.all_cons, hts, huid, hlabels, Bool.and_true]

/-- `upsertWorkloadLatest` upserts every entry, or fails. -/
theorem upsertWorkloadLatest_eq_ite (table : SortedMap WorkloadKey LatestRow)
    (entries : List (WorkloadKey × MetricPoint)) :
    upsertWorkloadLatest table entries = if entries.all upsertValid then
      some (table.upsertAll keepGuarded (entries.map fun e => (e.1, e.2.toLatest))) else none := by
  induction entries generalizing table with
  | nil => rfl
  | cons e entries ih =>
    obtain ⟨k, p⟩ := e
    have hvalid : validTexts [(ofLex k).1, (ofLex k).2, p.ts.format, p.entityUID,
      p.labels.marshal] = upsertValid (k, p) := rfl
    rw [upsertWorkloadLatest, hvalid, List.all_cons]
    by_cases h : upsertValid (k, p) = true
    · rw [h, Bool.true_and, Bool.not_true, if_neg Bool.false_ne_true, ih]
      rfl
    · rw [Bool.not_eq_true] at h
      rw [h, Bool.false_and, Bool.not_false, if_pos rfl, if_neg Bool.false_ne_true]

/-- The loop of `insertMetrics` comes to its end when every point can be inserted. -/
theorem isSome_foldlM_insertPoint (points : List MetricPoint)
    (st : List MetricRow × SortedMap WorkloadKey MetricPoint) :
    (points.foldlM insertPoint st).isSome = points.all MetricPoint.valid := by
  induction points generalizing st with
  | nil => rfl
  | cons p points ih =>
    rw [List.foldlM_cons, List.all_cons, insertPoint]
    by_cases h : p.valid = true
    · rw [h, Bool.true_and, Bool.not_true, if_neg Bool.false_ne_true]
      cases p.key? with
      | none => exact ih _
      | some k => exact ih _
    · rw [Bool.not_eq_true] at h
      rw [h, Bool.false_and, Bool.not_false, if_pos rfl]
      rfl

/-- The rows that a write upserts, and the fold before them. -/
theorem insertMetrics_eq_ite (db : MetricTables) (points : List MetricPoint) :
    insertMetrics db points = if points.all MetricPoint.valid then
      (upsertWorkloadLatest db.latest ((∅ : SortedMap WorkloadKey MetricPoint).upsertAll keepLatest
        (keyedPoints points)).entries).map
          fun table => ⟨db.points ++ points.map MetricPoint.toRow, table⟩ else none := by
  rw [insertMetrics, ← isSome_foldlM_insertPoint points (db.points, ∅)]
  cases hfold : points.foldlM insertPoint (db.points, ∅) with
  | none => rfl
  | some st =>
    obtain ⟨rfl, -⟩ := foldlM_insertPoint hfold
    exact Option.map_eq_bind.symm

/-- The write without the fold. -/
theorem insertMetricsEach_eq_ite (db : MetricTables) (points : List MetricPoint) :
    insertMetricsEach db points = if points.all MetricPoint.valid then
      (upsertWorkloadLatest db.latest (keyedPoints points)).map
        fun table => ⟨db.points ++ points.map MetricPoint.toRow, table⟩ else none := by
  rw [insertMetricsEach, ← isSome_foldlM_insertPoint points (db.points, ∅)]
  cases hfold : points.foldlM insertPoint (db.points, ∅) with
  | none => rfl
  | some st =>
    obtain ⟨rfl, -⟩ := foldlM_insertPoint hfold
    exact Option.map_eq_bind.symm

/-- Both writes upsert the same keys, so the texts of one write's keys are refused exactly when
those of the other are. -/
theorem all_upsertValid_eq {points : List MetricPoint} (hvalid : ∀ p ∈ points, p.valid = true) :
    (((∅ : SortedMap WorkloadKey MetricPoint).upsertAll keepLatest
      (keyedPoints points)).entries.all upsertValid) = (keyedPoints points).all upsertValid := by
  have hget : ∀ k, ((∅ : SortedMap WorkloadKey MetricPoint).upsertAll keepLatest
      (keyedPoints points)).get? k = batchLatest points k := by
    intro k
    rw [SortedMap.get?_upsertAll, rowsFor_keyedPoints, SortedMap.get?_empty, batchLatest]
  have hkeyed : ∀ k p, (k, p) ∈ keyedPoints points ↔ p ∈ pointsAt k points := by
    intro k p
    rw [← SortedMap.mem_rowsFor, rowsFor_keyedPoints]
  rw [Bool.eq_iff_iff, List.all_eq_true, List.all_eq_true]
  constructor
  · rintro hall ⟨k, p⟩ hp
    have hmem := (hkeyed k p).mp hp
    obtain ⟨hnone, hsome⟩ := @batchLatest_spec points k
    cases hb : batchLatest points k with
    | none => exact absurd (hnone.mp hb) (List.ne_nil_of_mem hmem)
    | some q =>
      -- the point that was kept for the key has the texts of the key too
      have hq := hall (k, q) (SortedMap.mem_entries.mpr ((hget k).trans hb))
      rw [upsertValid_eq (hvalid q (mem_pointsAt.mp (hsome q hb).1).1)] at hq
      rw [upsertValid_eq (hvalid p (mem_pointsAt.mp hmem).1), hq]
  · rintro hall ⟨k, p⟩ hp
    rw [SortedMap.mem_entries, hget] at hp
    exact hall (k, p) ((hkeyed k p).mpr ((@batchLatest_spec points k).2 p hp).1)

/-! ### The two rules -/

/-- The guard keeps the row whose text is the greater one, so it may fold rows in any groups. -/
theorem keepGuarded_assoc (a b c : LatestRow) :
    keepGuarded (keepGuarded a b) c = keepGuarded a (keepGuarded b c) :=
  SortedMap.merge_assoc_of_rank (fun r => r.ts.format)
    (fun a b => by rw [keepGuarded, latestGuard]; simp only [decide_eq_true_eq]) a b c

/-- Where the texts sort like the instants, the fold in memory is the guard on the rows. -/
theorem toLatest_keepLatest {p q : MetricPoint}
    (h : p.ts.format ≤ q.ts.format ↔ p.ts ≤ q.ts) :
    (keepLatest p q).toLatest = keepGuarded p.toLatest q.toLatest := by
  have hguard : latestGuard p.toLatest.ts q.toLatest.ts = decide (p.ts ≤ q.ts) :=
    decide_eq_decide.mpr h
  rw [keepLatest, keepGuarded, hguard]
  by_cases hle : p.ts ≤ q.ts
  · simp [hle]
  · simp [hle, not_le.mp hle]

/-- The row that a batch upserts under a key is what its points make of each other's rows. -/
theorem map_batchLatest {points : List MetricPoint} {k : WorkloadKey}
    (htext : TextsAgree ((pointsAt k points).map MetricPoint.ts)) :
    (batchLatest points k).map MetricPoint.toLatest =
      ((pointsAt k points).map MetricPoint.toLatest).foldl (SortedMap.mergeInto keepGuarded)
        none := by
  refine SortedMap.map_foldl_mergeInto (S := fun p => p ∈ pointsAt k points) ?_ ?_ ?_
  · intro a b ha hb
    rcases keepLatest_cases a b with ⟨heq, -⟩ | ⟨heq, -⟩ <;> rw [heq]
    · exact hb
    · exact ha
  · intro a b ha hb
    exact toLatest_keepLatest (htext a.ts (List.mem_map_of_mem ha) b.ts (List.mem_map_of_mem hb))
  · exact fun p hp => hp

/-- **The collapsed write.** Where the texts of the points of each key sort like the instants,
the fold in memory and one upsert for each key do what an upsert for each point does. -/
theorem insertMetrics_eq_each {points : List MetricPoint}
    (htext : ∀ k, TextsAgree ((pointsAt k points).map MetricPoint.ts)) (db : MetricTables) :
    insertMetrics db points = insertMetricsEach db points := by
  rw [insertMetrics_eq_ite, insertMetricsEach_eq_ite]
  split_ifs with hall
  · have hvalid : ∀ p ∈ points, p.valid = true := List.all_eq_true.mp hall
    rw [upsertWorkloadLatest_eq_ite, upsertWorkloadLatest_eq_ite, all_upsertValid_eq hvalid]
    split_ifs
    · refine congrArg (fun table => some (MetricTables.mk _ table))
        (SortedMap.ext_iff.mpr fun k => ?_)
      -- under one key, the row of the batch against the rows of its points
      have hrows : SortedMap.rowsFor k
          ((keyedPoints points).map fun e => (e.1, e.2.toLatest)) =
            (pointsAt k points).map MetricPoint.toLatest := by
        rw [← rowsFor_keyedPoints, SortedMap.rowsFor, SortedMap.rowsFor, List.filter_map,
          List.map_map, List.map_map]
        rfl
      rw [SortedMap.get?_upsertAll, SortedMap.get?_upsertAll, SortedMap.rowsFor_entries,
        SortedMap.get?_upsertAll, rowsFor_keyedPoints, SortedMap.get?_empty, ← batchLatest,
        map_batchLatest (htext k), hrows, SortedMap.foldl_mergeInto_toList keepGuarded_assoc]
    · rfl
  · rfl

/-! ### Runs -/

/-- The tables after `WriteMetrics`: a batch that fails is rolled back. -/
def afterBatch (db : MetricTables) (batch : List MetricPoint) : MetricTables :=
  (insertMetrics db batch).getD db

/-- The tables after a sequence of batches. -/
def afterBatches (batches : List (List MetricPoint)) : MetricTables :=
  batches.foldl afterBatch MetricTables.empty

/-- The tables after the same sequence, each point of a batch upserted by itself. -/
def afterBatchesEach (batches : List (List MetricPoint)) : MetricTables :=
  batches.foldl (fun db batch => (insertMetricsEach db batch).getD db) MetricTables.empty

/-- The store takes all texts of a batch: those of its points, and the container and the metric of
each point that goes to `workload_latest`. -/
def accepted (batch : List MetricPoint) : Bool :=
  batch.all MetricPoint.valid && (keyedPoints batch).all upsertValid

/-- The points that a sequence of batches writes. -/
def written (batches : List (List MetricPoint)) : List MetricPoint :=
  (batches.filter accepted).flatten

/-- What a key of `workload_latest` should hold: the row of the newest of its points. -/
def NewestRow (points : List MetricPoint) (stored : Option LatestRow) : Prop :=
  (stored = none ↔ points = []) ∧ ∀ r, stored = some r →
    ∃ p ∈ points, r = p.toLatest ∧ ∀ q ∈ points, q = p ∨ q.ts < p.ts

/-- A batch is written, and not rolled back, exactly when the store takes its texts. -/
theorem isSome_insertMetrics (db : MetricTables) (batch : List MetricPoint) :
    (insertMetrics db batch).isSome = accepted batch := by
  rw [accepted, insertMetrics_eq_ite]
  split_ifs with hall
  · rw [hall, Bool.true_and, upsertWorkloadLatest_eq_ite,
      all_upsertValid_eq (List.all_eq_true.mp hall)]
    split_ifs with hkeys
    · rw [hkeys]
      rfl
    · rw [Bool.not_eq_true _ |>.mp hkeys]
      rfl
  · rw [Bool.not_eq_true _ |>.mp hall]
    rfl

theorem written_concat (batches : List (List MetricPoint)) (batch : List MetricPoint) :
    written (batches ++ [batch]) =
      written batches ++ (if accepted batch then batch else []) := by
  rw [written, written, List.filter_append, List.flatten_append, List.filter_cons]
  split_ifs <;> simp

/-- The points that the first batches write come before those of the others. -/
theorem written_take_append (batches : List (List MetricPoint)) (n : ℕ) :
    ∃ later, written batches = written (batches.take n) ++ later := by
  refine ⟨written (batches.drop n), ?_⟩
  rw [written, written, written, ← List.flatten_append, ← List.filter_append,
    List.take_append_drop]

/-- A batch that is refused leaves the tables, with the fold and without it. -/
theorem refused {batch : List MetricPoint} (h : accepted batch = false) (db : MetricTables) :
    insertMetrics db batch = none ∧ insertMetricsEach db batch = none := by
  rw [← isSome_insertMetrics db, Option.isSome_eq_false_iff, Option.isNone_iff_eq_none] at h
  refine ⟨h, ?_⟩
  rw [insertMetrics_eq_ite] at h
  rw [insertMetricsEach_eq_ite]
  split_ifs at h ⊢ with hall
  · rw [upsertWorkloadLatest_eq_ite, all_upsertValid_eq (List.all_eq_true.mp hall)] at h
    rw [upsertWorkloadLatest_eq_ite]
    split_ifs at h ⊢
    · exact absurd h (by simp)
    · rfl
  · rfl

/-- One batch, written or rolled back: under each key its rows meet the stored one. -/
theorem get?_afterBatch {batch : List MetricPoint}
    (htext : accepted batch → ∀ k, TextsAgree ((pointsAt k batch).map MetricPoint.ts))
    (db : MetricTables) (k : WorkloadKey) :
    (afterBatch db batch).latest.get? k =
      ((pointsAt k (if accepted batch then batch else [])).map MetricPoint.toLatest).foldl
        (SortedMap.mergeInto keepGuarded) (db.latest.get? k) := by
  rw [afterBatch]
  cases hwrite : insertMetrics db batch with
  | none =>
    have hrefused : accepted batch = false := by
      rw [← isSome_insertMetrics db, hwrite]
      rfl
    rw [hrefused]
    rfl
  | some db' =>
    have hok : accepted batch = true := by
      rw [← isSome_insertMetrics db, hwrite]
      rfl
    rw [if_pos hok, Option.getD_some, get?_insertMetrics hwrite, map_batchLatest (htext hok k),
      SortedMap.foldl_mergeInto_toList keepGuarded_assoc]

/-- A run, under one key: the fold of the rows of the points written. -/
theorem get?_afterBatches {batches : List (List MetricPoint)}
    (htext : ∀ k, TextsAgree ((pointsAt k (written batches)).map MetricPoint.ts))
    (k : WorkloadKey) :
    (afterBatches batches).latest.get? k =
      ((pointsAt k (written batches)).map MetricPoint.toLatest).foldl
        (SortedMap.mergeInto keepGuarded) none := by
  induction batches using List.reverseRecOn with
  | nil => rfl
  | append_singleton batches batch ih =>
    simp only [written_concat, pointsAt_append, List.map_append] at htext ⊢
    have hbefore : ∀ k, TextsAgree ((pointsAt k (written batches)).map MetricPoint.ts) :=
      fun k => (htext k).mono (List.subset_append_left ..)
    have hbatch : accepted batch → ∀ k, TextsAgree ((pointsAt k batch).map MetricPoint.ts) := by
      intro hok k
      rw [if_pos hok] at htext
      exact (htext k).mono (List.subset_append_right ..)
    rw [afterBatches, List.foldl_append, List.foldl_cons, List.foldl_nil, ← afterBatches,
      get?_afterBatch hbatch, ih hbefore, List.foldl_append]

/-- Where the texts sort like the instants, the guard keeps the newer row. -/
theorem keepGuarded_newer {times : List Time} (htext : TextsAgree times) {a b : LatestRow}
    (ha : a.ts ∈ times) (hb : b.ts ∈ times) :
    (keepGuarded a b = b ∧ a.ts ≤ b.ts) ∨ (keepGuarded a b = a ∧ b.ts ≤ a.ts) := by
  have hguard : latestGuard a.ts b.ts = decide (a.ts ≤ b.ts) :=
    decide_eq_decide.mpr (htext a.ts ha b.ts hb)
  rw [keepGuarded, hguard]
  by_cases hle : a.ts ≤ b.ts
  · exact .inl ⟨if_pos (decide_eq_true hle), hle⟩
  · exact .inr ⟨if_neg (by simpa using hle), (not_le.mp hle).le⟩

/-- The fold of the rows of some points is the row of the newest one. -/
theorem newestRow_foldl {points : List MetricPoint}
    (hdistinct : (points.map MetricPoint.ts).Nodup)
    (htext : TextsAgree (points.map MetricPoint.ts)) :
    NewestRow points
      ((points.map MetricPoint.toLatest).foldl (SortedMap.mergeInto keepGuarded) none) := by
  constructor
  · rw [SortedMap.foldl_mergeInto_eq_none, List.map_eq_nil_iff]
    exact and_iff_right rfl
  · intro r hr
    have hmem : r ∈ points.map MetricPoint.toLatest := by
      simpa using SortedMap.mem_of_foldl_mergeInto keepGuarded_cases hr
    have hnewest : ∀ r' ∈ points.map MetricPoint.toLatest, r'.ts ≤ r.ts := by
      simpa using SortedMap.newest_of_foldl_mergeInto LatestRow.ts
        (S := fun r => r.ts ∈ points.map MetricPoint.ts)
        (fun a b ha hb => keepGuarded_newer htext ha hb)
        (fun r hr => by
          obtain ⟨p, hp, rfl⟩ := List.mem_map.mp hr
          exact List.mem_map_of_mem hp) hr
    obtain ⟨p, hp, rfl⟩ := List.mem_map.mp hmem
    refine ⟨p, hp, rfl, fun q hq => ?_⟩
    -- no other point has the instant of the kept one
    by_cases hqp : q = p
    · exact .inl hqp
    · refine .inr (lt_of_le_of_ne (hnewest _ (List.mem_map_of_mem hq)) fun hts => hqp ?_)
      exact List.inj_on_of_nodup_map hdistinct hq hp hts

/-- Where the texts sort like the instants, a run leaves what it would leave without the fold. -/
theorem afterBatches_eq_each {batches : List (List MetricPoint)}
    (htext : ∀ k, TextsAgree ((pointsAt k (written batches)).map MetricPoint.ts)) :
    afterBatches batches = afterBatchesEach batches := by
  induction batches using List.reverseRecOn with
  | nil => rfl
  | append_singleton batches batch ih =>
    simp only [written_concat, pointsAt_append, List.map_append] at htext
    have hbefore := ih fun k => (htext k).mono (List.subset_append_left ..)
    rw [afterBatches, afterBatchesEach, List.foldl_append, List.foldl_append, List.foldl_cons,
      List.foldl_cons, List.foldl_nil, List.foldl_nil, ← afterBatches, ← afterBatchesEach,
      hbefore, afterBatch]
    by_cases hok : accepted batch = true
    · rw [if_pos hok] at htext
      rw [insertMetrics_eq_each fun k => (htext k).mono (List.subset_append_right ..)]
    · -- a batch that one write refuses the other refuses too
      obtain ⟨hnone, hnoneEach⟩ :=
        refused ((Bool.not_eq_true _).mp hok) (afterBatchesEach batches)
      rw [hnone, hnoneEach]

/-- **The newest point is kept.** The batches whose texts the store takes are written. Of their
points, let those of one container and metric have distinct instants whose texts sort like them.
Then in every run of batches, after each batch, the row of each container and metric is the one of
its newest point written so far; and the run leaves the tables that an upsert for every point would
leave. -/
theorem newestPoint_kept {batches : List (List MetricPoint)}
    (hdistinct : ∀ k, ((pointsAt k (written batches)).map MetricPoint.ts).Nodup)
    (htext : ∀ k, TextsAgree ((pointsAt k (written batches)).map MetricPoint.ts)) :
    (∀ n k, NewestRow (pointsAt k (written (batches.take n)))
      ((afterBatches (batches.take n)).latest.get? k)) ∧
      afterBatches batches = afterBatchesEach batches := by
  refine ⟨fun n k => ?_, afterBatches_eq_each htext⟩
  obtain ⟨later, hlater⟩ := written_take_append batches n
  have hpoints : ∀ k, pointsAt k (written batches) =
      pointsAt k (written (batches.take n)) ++ pointsAt k later := by
    intro k
    rw [hlater, pointsAt_append]
  have htake : ∀ k, TextsAgree ((pointsAt k (written (batches.take n))).map MetricPoint.ts) := by
    intro k
    refine (htext k).mono ?_
    rw [hpoints, List.map_append]
    exact List.subset_append_left ..
  rw [get?_afterBatches htake]
  refine newestRow_foldl ?_ (htake k)
  have hall := hdistinct k
  rw [hpoints, List.map_append] at hall
  exact hall.of_append_left

/-- The processor point of a container `web` on host `a` at an instant. -/
def webUsage (ts : Time) : MetricPoint :=
  ⟨"cpu.usage", ts, .finite 12, (entityFor "a" "web" ∅).1, (entityFor "a" "web" ∅).2⟩

/-- A minute past noon comes first, then two minutes past and noon in one batch, at last half a
minute past noon. All batches are written. -/
theorem newestPoint_kept_late :
    let batches := [[webUsage ⟨63844891260000000000⟩],
      [webUsage ⟨63844891320000000000⟩, webUsage ⟨63844891200000000000⟩],
      [webUsage ⟨63844891230000000000⟩]]
    written batches = batches.flatten ∧
    (∀ n k, NewestRow (pointsAt k (written (batches.take n)))
      ((afterBatches (batches.take n)).latest.get? k)) ∧
      afterBatches batches = afterBatchesEach batches := by
  intro batches
  have hsublist : ∀ k, List.Sublist ((pointsAt k (written batches)).map MetricPoint.ts)
      ((written batches).map MetricPoint.ts) := fun k => List.filter_sublist.map _
  have hdistinct : ((written batches).map MetricPoint.ts).Nodup := by decide +kernel
  have htext : TextsAgree ((written batches).map MetricPoint.ts) := by
    unfold TextsAgree
    decide +kernel
  have hwritten : written batches = batches.flatten :=
    congrArg List.flatten (List.filter_eq_self.mpr (by decide +kernel))
  exact ⟨hwritten, newestPoint_kept (fun k => hdistinct.sublist (hsublist k))
    fun k => htext.mono (hsublist k).subset⟩

end Argus
