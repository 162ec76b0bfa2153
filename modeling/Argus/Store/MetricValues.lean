import Argus.Store.Workloads
import Mathlib.Data.List.MinMax

/-!
# Values of metric points after a round trip

The value columns are `REAL`. `lossless_iff` says which writes come back as they were: those
whose values have at most 24 significant bits. A byte count has more as soon as it is above
16 MiB and not a multiple of the right power of two.
-/

namespace Argus

open Foundations

/-- Writing `points` to `db`, with the result `db'`, is lossless: a query over a window that
contains the points returns what it returned before and exactly the values written, and the
snapshots show the value of each point that the store keeps as the latest. -/
structure Lossless (db db' : MetricTables) (points : List MetricPoint) : Prop where
  query : ∀ metricName since, (∀ p ∈ points, p.metricName = metricName → sinceFilter since p.ts) →
    ∀ out, QueryMetrics db' metricName since out →
      out.Perm (selectSeries db metricName since ++
        (points.filter fun p => p.metricName == metricName).map fun p => ⟨p.ts, p.value⟩)
  latest : ∀ c m p, batchLatest points (workloadKey c m) = some p →
    (∀ r, db.latest.get? (workloadKey c m) = some r → latestGuard r.ts p.ts) →
      ∀ since, sinceFilter since p.ts → ∀ out, ListWorkloads db' since out →
        (∃ w ∈ out, w.container = c) ∧ ∀ w ∈ out, w.container = c → w.metric m = p.value

/-- What a write adds to a series. -/
theorem selectSeries_insertMetrics {db db' : MetricTables} {points : List MetricPoint}
    (h : insertMetrics db points = some db') {metricName : String} {since : Time}
    (hwin : ∀ p ∈ points, p.metricName = metricName → sinceFilter since p.ts) :
    selectSeries db' metricName since = selectSeries db metricName since ++
      (points.filter fun p => p.metricName == metricName).map fun p => ⟨p.ts, real p.value⟩ := by
  rw [selectSeries, insertMetrics_points h, List.filter_append, List.map_append, selectSeries,
    List.filter_map, List.map_map]
  have hfilter : points.filter ((fun r : MetricRow => r.metricName == metricName &&
      sinceFilter since r.ts) ∘ MetricPoint.toRow) =
      points.filter fun p => p.metricName == metricName := by
    refine List.filter_congr fun p hp => ?_
    simp only [Function.comp_apply, MetricPoint.toRow]
    cases hname : p.metricName == metricName with
    | false => rfl
    | true => simpa using hwin p hp (by simpa using hname)
  rw [hfilter]
  rfl

/-- The row that a write leaves under the key of a point that passes the guard. -/
theorem get?_insertMetrics_of_guard {db db' : MetricTables} {points : List MetricPoint}
    (h : insertMetrics db points = some db') {k : WorkloadKey} {p : MetricPoint}
    (hp : batchLatest points k = some p)
    (hguard : ∀ r, db.latest.get? k = some r → latestGuard r.ts p.ts) :
    db'.latest.get? k = some p.toLatest := by
  rw [get?_insertMetrics h, hp]
  cases hs : db.latest.get? k with
  | none => rfl
  | some r =>
    have hg : latestGuard r.ts p.toLatest.ts = true := hguard r hs
    simp only [Option.map_some, Option.toList_some, List.foldl_cons, List.foldl_nil,
      SortedMap.mergeInto, keepGuarded, hg, if_true]

/-- A snapshot shows what the column keeps of the latest point. -/
theorem metric_of_latest {batches : List (List MetricPoint)} {db : MetricTables}
    (hwrite : writeAll batches = some db) {c m : String} (hm : workloadMetric m = true)
    {r : LatestRow} (hr : db.latest.get? (workloadKey c m) = some r) {since : Time}
    (hsince : sinceFilter since r.ts) {out : List WorkloadSnapshot}
    (hout : ListWorkloads db since out) :
    (∃ w ∈ out, w.container = c) ∧ ∀ w ∈ out, w.container = c → w.metric m = r.value := by
  obtain ⟨rows, hscan, hperm⟩ := hout
  have hmerged := merged_scan hwrite hscan
  have hmem : (workloadKey c m, r) ∈ rows :=
    hscan.1.mem_iff.mpr (List.mem_filter.mpr ⟨SortedMap.mem_entries.mpr hr, hsince⟩)
  have hvalue : metricOf rows c m = r.value := by
    rw [metricOf]
    cases hrows : SortedMap.rowsFor (workloadKey c m) rows with
    | nil => exact absurd (SortedMap.mem_rowsFor.mpr hmem) (by rw [hrows]; exact List.not_mem_nil)
    | cons r' rest =>
      have hr' : (workloadKey c m, r') ∈ rows :=
        SortedMap.mem_rowsFor.mp (by rw [hrows]; exact List.mem_cons_self)
      have := SortedMap.mem_entries.mp (List.mem_filter.mp (hscan.1.subset hr')).1
      obtain rfl : r = r' := Option.some.inj (hr.symm.trans this)
      rfl
  constructor
  · cases hget : (mergeRows rows).get? c with
    | none => exact absurd rfl ((hmerged.containers c).mp hget _ hmem)
    | some w =>
      exact ⟨w, hperm.mem_iff.mpr (SortedMap.mem_values.mpr ⟨c, hget⟩),
        (hmerged.snapshots c w hget).1⟩
  · intro w hw hc
    obtain ⟨c', hget⟩ := SortedMap.mem_values.mp (hperm.subset hw)
    obtain ⟨hc', -, hval⟩ := hmerged.snapshots c' w hget
    obtain rfl : c = c' := hc.symm.trans hc'
    rw [hval m hm, hvalue]

/-- The metric of a point that goes to a key. -/
theorem workloadMetric_of_batchLatest {points : List MetricPoint} {c m : String} {p : MetricPoint}
    (h : batchLatest points (workloadKey c m) = some p) :
    p ∈ points ∧ workloadMetric m = true := by
  obtain ⟨hp, hk⟩ := mem_pointsAt.mp (batchLatest_spec.2 p h).1
  obtain ⟨hm, -, hkey⟩ := key?_eq_some.mp hk
  exact ⟨hp, (workloadKey_inj.mp hkey).2 ▸ hm⟩

/-- Values that a `REAL` column keeps come back. -/
theorem lossless_of_real {batches : List (List MetricPoint)} {db db' : MetricTables}
    {points : List MetricPoint} (hhist : writeAll batches = some db)
    (hwrite : insertMetrics db points = some db') (h : ∀ p ∈ points, real p.value = p.value) :
    Lossless db db' points := by
  have hhist' : writeAll (batches ++ [points]) = some db' := by
    rw [writeAll, List.foldlM_append, ← writeAll, hhist]
    exact (bind_pure _).trans hwrite
  constructor
  · intro metricName since hwin out hout
    have hseries := selectSeries_insertMetrics hwrite hwin
    have hvalues : ((points.filter fun p => p.metricName == metricName).map fun p =>
        (⟨p.ts, real p.value⟩ : SeriesPoint)) =
        (points.filter fun p => p.metricName == metricName).map fun p => ⟨p.ts, p.value⟩ :=
      List.map_congr_left fun p hp => by rw [h p (List.mem_filter.mp hp).1]
    rw [hvalues] at hseries
    exact hseries ▸ hout.1
  · intro c m p hp hguard since hsince out hout
    obtain ⟨hmem, hm⟩ := workloadMetric_of_batchLatest hp
    have hrow := get?_insertMetrics_of_guard hwrite hp hguard
    have := metric_of_latest hhist' hm hrow hsince hout
    rwa [show p.toLatest.value = p.value from h p hmem] at this

/-- Values that come back are values of a `REAL` column. -/
theorem exists_real_of_lossless {db db' : MetricTables} {points : List MetricPoint}
    (hwrite : insertMetrics db points = some db') (h : Lossless db db' points) :
    ∀ p ∈ points, ∃ x, real x = p.value := by
  intro p hp
  -- the window that starts at the least text contains every point
  obtain ⟨first, hfirst⟩ : ∃ q, q ∈ points.argmin fun q => q.ts.format :=
    Option.ne_none_iff_exists'.mp (mt List.argmin_eq_none.mp (List.ne_nil_of_mem hp))
  have hwin : ∀ q ∈ points, q.metricName = p.metricName → sinceFilter first.ts q.ts :=
    fun q hq _ => decide_eq_true
      (List.le_of_mem_argmin (f := fun q : MetricPoint => q.ts.format) hq hfirst)
  obtain ⟨out, hperm, hsorted⟩ :=
    exists_sorted_asc (selectSeries db' p.metricName first.ts) SeriesPoint.ts
  have hout := h.query p.metricName first.ts hwin out ⟨hperm, hsorted⟩
  have hvalues := hperm.symm.trans hout
  rw [selectSeries_insertMetrics hwrite hwin, List.perm_append_left_iff] at hvalues
  have hmem : (⟨p.ts, p.value⟩ : SeriesPoint) ∈
      (points.filter fun q => q.metricName == p.metricName).map fun q =>
        (⟨q.ts, q.value⟩ : SeriesPoint) :=
    List.mem_map.mpr ⟨p, List.mem_filter.mpr ⟨hp, by simp⟩, rfl⟩
  obtain ⟨q, -, hq⟩ := List.mem_map.mp (hvalues.symm.subset hmem)
  exact ⟨q.value, congrArg SeriesPoint.value hq⟩

/-- **Lossless exactly for short values.** After any batches, a write of integers of at most 53
bits comes back as it was if and only if each has at most 24 significant bits. -/
theorem lossless_iff {batches : List (List MetricPoint)} {db db' : MetricTables}
    {points : List MetricPoint} (hhist : writeAll batches = some db)
    (hwrite : insertMetrics db points = some db')
    (hint : ∀ p ∈ points, ∃ n : ℤ, p.value = .finite n ∧ |n| ≤ 2 ^ 53) :
    Lossless db db' points ↔
      ∀ p ∈ points, ∀ n : ℤ, p.value = .finite n → SingleInteger n := by
  constructor
  · intro h p hp n hn
    obtain ⟨x, hx⟩ := exists_real_of_lossless hwrite h p hp
    exact singleInteger_of_real (hx.trans hn)
  · intro h
    refine lossless_of_real hhist hwrite fun p hp => ?_
    obtain ⟨n, hn, hbound⟩ := hint p hp
    rw [hn]
    exact (real_intCast_iff hbound).mpr (h p hp n hn)

/-- A scrape whose values are 12, 4096 and 8192. -/
theorem lossless_iff_small_values :
    ∃ db', insertMetrics MetricTables.empty (collectContainer "a" "web" ∅ ⟨63844891200000000000⟩
        (.finite 12) (.finite 4096) (.finite 8192)) = some db' ∧
      Lossless MetricTables.empty db' (collectContainer "a" "web" ∅ ⟨63844891200000000000⟩
        (.finite 12) (.finite 4096) (.finite 8192)) := by
  obtain ⟨db', hwrite⟩ := Option.isSome_iff_exists.mp (show (insertMetrics MetricTables.empty
    (collectContainer "a" "web" ∅ ⟨63844891200000000000⟩ (.finite 12) (.finite 4096)
      (.finite 8192))).isSome by decide +kernel)
  have hvalues : ∀ p ∈ collectContainer "a" "web" ∅ ⟨63844891200000000000⟩ (.finite 12)
      (.finite 4096) (.finite 8192), ∃ n : ℤ, p.value = .finite n ∧ |n| < 2 ^ 24 := by
    intro p hp
    simp only [collectContainer, entityFor, List.mem_cons, List.not_mem_nil, or_false] at hp
    rcases hp with rfl | rfl | rfl
    · exact ⟨12, rfl, by decide⟩
    · exact ⟨4096, rfl, by decide⟩
    · exact ⟨8192, rfl, by decide⟩
  refine ⟨db', hwrite, (@lossless_iff [] _ _ _ rfl hwrite fun p hp => ?_).mpr
    fun p hp n hn => ?_⟩
  · obtain ⟨n, hn, hlt⟩ := hvalues p hp
    exact ⟨n, hn, hlt.le.trans (by norm_num)⟩
  · obtain ⟨n', hn', hlt⟩ := hvalues p hp
    have heq : n = n' := by
      have := hn.symm.trans hn'
      rw [Extended.finite.injEq] at this
      exact_mod_cast this
    exact ⟨n, 0, heq ▸ hlt, by ring⟩

/-- An odd integer above `2 ^ 24` has too many significant bits. -/
theorem not_singleInteger : ¬ SingleInteger 16777217 := by
  rintro ⟨m, k, hm, hn⟩
  cases k with
  | zero =>
    obtain rfl : m = 16777217 := by simpa using hn.symm
    exact absurd hm (by decide)
  | succ k =>
    have : (2 : ℤ) ∣ 16777217 := by
      rw [hn, pow_succ]
      exact ⟨m * 2 ^ k, by ring⟩
    exact absurd this (by decide)

/-- **A byte too many.** A memory usage of 16777217 bytes does not come back. -/
theorem odd_usage_not_lossless : ¬ ∀ (batches : List (List MetricPoint)) (db db' : MetricTables)
    (points : List MetricPoint), writeAll batches = some db → insertMetrics db points = some db' →
      (∀ p ∈ points, ∃ n : ℤ, p.value = .finite n ∧ |n| ≤ 2 ^ 53) → Lossless db db' points := by
  intro hall
  obtain ⟨db', hwrite⟩ := Option.isSome_iff_exists.mp (show (insertMetrics MetricTables.empty
    [⟨"memory.usage", ⟨63844891200000000000⟩, .finite 16777217, "docker:a:web", ∅⟩]).isSome by
      decide +kernel)
  have hlossless := hall [] _ db' _ rfl hwrite fun p hp =>
    ⟨16777217, by rw [List.mem_singleton.mp hp]; norm_num, by norm_num⟩
  obtain ⟨x, hx⟩ := exists_real_of_lossless hwrite hlossless _ (List.mem_singleton.mpr rfl)
  exact not_singleInteger (singleInteger_of_real (hx.trans (by norm_num)))

end Argus
