import Argus.Store.Metrics
import Mathlib.Data.List.Induction

/-!
# Workload snapshots

`ListWorkloads` merges the rows of `workload_latest` into one snapshot per container name.
`merged_mergeRows` describes the merge: the row of a metric fills its field, and the identity of
a snapshot is that of some row of its container. `latest_of_writeAll` describes the rows after
any sequence of batches: each is the row of a point that was written under its key, and, when
texts sort like instants, of a newest one.

A key names a container and not a host. `snapshots_per_entity` says what this costs: the
snapshots are those of the entities, each with its own newest points, exactly when no two
entities with points in the window share a container name.
-/

namespace Argus

open Foundations

/-! ### Merging rows -/

theorem metric_setMetric {m m' : String} (hm : workloadMetric m = true)
    (hm' : workloadMetric m' = true) (w : WorkloadSnapshot) (v : Extended) :
    (w.setMetric m v).metric m' = if m = m' then v else w.metric m' := by
  simp only [workloadMetric, Bool.or_eq_true, beq_iff_eq] at hm hm'
  rcases hm with (rfl | rfl) | rfl <;> rcases hm' with (rfl | rfl) | rfl <;> rfl

theorem metric_newSnapshot {m : String} (name : String) (labels : Labels) (r : LatestRow) :
    (newSnapshot name labels r).metric m = .finite 0 := by
  rw [WorkloadSnapshot.metric]
  split_ifs <;> rfl

@[simp] theorem container_setMetric (w : WorkloadSnapshot) (m : String) (v : Extended) :
    (w.setMetric m v).container = w.container := by
  rw [WorkloadSnapshot.setMetric]
  split_ifs <;> rfl

@[simp] theorem entityUID_setMetric (w : WorkloadSnapshot) (m : String) (v : Extended) :
    (w.setMetric m v).entityUID = w.entityUID := by
  rw [WorkloadSnapshot.setMetric]
  split_ifs <;> rfl

/-- A row whose labels name the container of its key, as every row that was written. -/
def RowKeyed (e : WorkloadKey × LatestRow) : Prop :=
  (Labels.unmarshal e.2.labelsJSON).get "container" = (ofLex e.1).1 ∧ (ofLex e.1).1 ≠ "" ∧
    workloadMetric (ofLex e.1).2 = true

/-- The value of a metric of a container in a list of rows, zero without a row. -/
def metricOf (rows : List (WorkloadKey × LatestRow)) (container metricName : String) : Extended :=
  ((SortedMap.rowsFor (workloadKey container metricName) rows).head?.map LatestRow.value).getD
    (.finite 0)

/-- What the loop of `ListWorkloads` has after the rows. -/
structure Merged (rows : List (WorkloadKey × LatestRow)) (st : MergeState) : Prop where
  /-- The metrics seen are those of the rows. -/
  seen : ∀ c m, (c, m) ∈ st.seenMetric ↔ ∃ r, (workloadKey c m, r) ∈ rows
  /-- The containers are those of the rows. -/
  containers : ∀ c, st.latest.get? c = none ↔ ∀ e ∈ rows, (ofLex e.1).1 ≠ c
  /-- A snapshot has the name, the uid and the values of rows of its container. -/
  snapshots : ∀ c w, st.latest.get? c = some w → w.container = c ∧
    (∃ e ∈ rows, (ofLex e.1).1 = c ∧ w.entityUID = e.2.entityUID) ∧
    ∀ m, workloadMetric m = true → w.metric m = metricOf rows c m

private theorem metricOf_append_of_ne {rows : List (WorkloadKey × LatestRow)}
    {e : WorkloadKey × LatestRow} {c m : String} (h : e.1 ≠ workloadKey c m) :
    metricOf (rows ++ [e]) c m = metricOf rows c m := by
  rw [metricOf, SortedMap.rowsFor_append, SortedMap.rowsFor_cons, if_neg h, SortedMap.rowsFor_nil,
    List.append_nil, metricOf]

private theorem metricOf_append_self {rows : List (WorkloadKey × LatestRow)}
    {e : WorkloadKey × LatestRow} {c m : String} (h : e.1 = workloadKey c m)
    (hnew : ∀ d ∈ rows, d.1 ≠ e.1) : metricOf (rows ++ [e]) c m = e.2.value := by
  have hnil : SortedMap.rowsFor (workloadKey c m) rows = [] := by
    rw [List.eq_nil_iff_forall_not_mem]
    exact fun r hr => hnew _ (SortedMap.mem_rowsFor.mp hr) h.symm
  rw [metricOf, SortedMap.rowsFor_append, hnil, SortedMap.rowsFor_cons, if_pos h]
  rfl

section Row

variable {rows : List (WorkloadKey × LatestRow)} {e : WorkloadKey × LatestRow} {st : MergeState}

/-- The snapshot that a row is added to: the one of its container, or a new one. -/
private def rowSnapshot (st : MergeState) (e : WorkloadKey × LatestRow) : WorkloadSnapshot :=
  (st.latest.get? (ofLex e.1).1).getD
    (newSnapshot (ofLex e.1).1 (Labels.unmarshal e.2.labelsJSON) e.2)

/-- A row with a new metric of its container is added to one snapshot, of which the merge speaks as
of one whose metric is set: only `updatedAt` is set besides. -/
private theorem exists_mergeRow_eq (he : RowKeyed e)
    (hunseen : ((ofLex e.1).1, (ofLex e.1).2) ∉ st.seenMetric) :
    ∃ w, mergeRow st e =
        ⟨st.latest.insert (ofLex e.1).1 w, ((ofLex e.1).1, (ofLex e.1).2) :: st.seenMetric⟩ ∧
      w.container = (rowSnapshot st e).container ∧ w.entityUID = (rowSnapshot st e).entityUID ∧
        ∀ m, w.metric m = ((rowSnapshot st e).setMetric (ofLex e.1).2 e.2.value).metric m := by
  obtain ⟨hname, hne, -⟩ := he
  have hrow : mergeRow st e = ⟨st.latest.insert (ofLex e.1).1
      (if ((rowSnapshot st e).setMetric (ofLex e.1).2 e.2.value).updatedAt < e.2.ts then
        { (rowSnapshot st e).setMetric (ofLex e.1).2 e.2.value with updatedAt := e.2.ts }
        else (rowSnapshot st e).setMetric (ofLex e.1).2 e.2.value),
      ((ofLex e.1).1, (ofLex e.1).2) :: st.seenMetric⟩ := by
    rw [mergeRow]
    simp only [hname, beq_iff_eq, if_neg hne, if_neg hunseen]
    rfl
  refine ⟨_, hrow, ?_⟩
  split_ifs
  · exact ⟨container_setMetric .., entityUID_setMetric .., fun m => rfl⟩
  · exact ⟨container_setMetric .., entityUID_setMetric .., fun m => rfl⟩

/-- The snapshot that a row is added to has the values of the rows for all other metrics. -/
private theorem rowSnapshot_spec (h : Merged rows st) :
    (rowSnapshot st e).container = (ofLex e.1).1 ∧
      (∃ d ∈ rows ++ [e], (ofLex d.1).1 = (ofLex e.1).1 ∧
        (rowSnapshot st e).entityUID = d.2.entityUID) ∧
      ∀ m, workloadMetric m = true → m ≠ (ofLex e.1).2 →
        (rowSnapshot st e).metric m = metricOf (rows ++ [e]) (ofLex e.1).1 m := by
  have hkey : e.1 = workloadKey (ofLex e.1).1 (ofLex e.1).2 := rfl
  have hother : ∀ m, m ≠ (ofLex e.1).2 →
      metricOf (rows ++ [e]) (ofLex e.1).1 m = metricOf rows (ofLex e.1).1 m := fun m hm =>
    metricOf_append_of_ne fun heq => hm (workloadKey_inj.mp (hkey.symm.trans heq)).2.symm
  cases hget : st.latest.get? (ofLex e.1).1 with
  | none =>
    have hnone := (h.containers _).mp hget
    rw [rowSnapshot, hget, Option.getD_none]
    refine ⟨rfl, ⟨e, by simp, rfl, rfl⟩, fun m hm hne => ?_⟩
    have hnil : SortedMap.rowsFor (workloadKey (ofLex e.1).1 m) rows = [] := by
      rw [List.eq_nil_iff_forall_not_mem]
      exact fun r hr => hnone _ (SortedMap.mem_rowsFor.mp hr) rfl
    rw [metric_newSnapshot, hother m hne, metricOf, hnil]
    rfl
  | some w =>
    obtain ⟨hc, ⟨d, hd, hdc, huid⟩, hval⟩ := h.snapshots _ w hget
    rw [rowSnapshot, hget, Option.getD_some]
    refine ⟨hc, ⟨d, List.mem_append_left _ hd, hdc, huid⟩, fun m hm hne => ?_⟩
    rw [hval m hm, hother m hne]

/-- One more row with a new key. -/
private theorem merged_mergeRow (h : Merged rows st) (he : RowKeyed e)
    (hnew : ∀ d ∈ rows, d.1 ≠ e.1) : Merged (rows ++ [e]) (mergeRow st e) := by
  have hkey : e.1 = workloadKey (ofLex e.1).1 (ofLex e.1).2 := rfl
  -- no row before was of this container and metric
  have hunseen : ((ofLex e.1).1, (ofLex e.1).2) ∉ st.seenMetric := by
    intro hseen
    obtain ⟨r, hr⟩ := (h.seen _ _).mp hseen
    exact hnew _ hr hkey.symm
  obtain ⟨w, hrow, hcontainer, hentity, hvalues⟩ := exists_mergeRow_eq he hunseen
  rw [hrow]
  refine ⟨fun c m => ?_, fun c => ?_, fun c w' hget => ?_⟩
  · -- the metrics seen
    rw [List.mem_cons, h.seen, Prod.mk.injEq]
    constructor
    · rintro (⟨rfl, rfl⟩ | ⟨r, hr⟩)
      · exact ⟨e.2, by simp [← hkey]⟩
      · exact ⟨r, List.mem_append_left _ hr⟩
    · rintro ⟨r, hr⟩
      rcases List.mem_append.mp hr with hr | hr
      · exact .inr ⟨r, hr⟩
      · have heq : workloadKey c m = e.1 := congrArg Prod.fst (List.mem_singleton.mp hr)
        exact .inl (workloadKey_inj.mp (heq.trans hkey))
  · -- the containers
    rw [SortedMap.get?_insert]
    split_ifs with hc
    · exact ⟨fun h => absurd h (by simp), fun h => absurd hc (h e (by simp))⟩
    · rw [h.containers]
      constructor
      · intro hall d hd
        rcases List.mem_append.mp hd with hd | hd
        · exact hall d hd
        · rw [List.mem_singleton.mp hd]
          exact hc
      · exact fun hall d hd => hall d (List.mem_append_left _ hd)
  · -- the snapshots: that of the container of the row, and the others
    rw [SortedMap.get?_insert] at hget
    split_ifs at hget with hc
    · obtain rfl : w = w' := Option.some.inj hget
      obtain rfl : (ofLex e.1).1 = c := hc
      obtain ⟨hname, ⟨d, hd, hdc, huid⟩, hval⟩ := rowSnapshot_spec (e := e) h
      refine ⟨hcontainer.trans hname, ⟨d, hd, hdc, hentity.trans huid⟩, fun m hm => ?_⟩
      rw [hvalues, metric_setMetric he.2.2 hm]
      split_ifs with heq
      · rw [metricOf_append_self (heq ▸ hkey) hnew]
      · exact hval m hm (Ne.symm heq)
    · obtain ⟨hname, ⟨d, hd, hdc, huid⟩, hval⟩ := h.snapshots c w' hget
      refine ⟨hname, ⟨d, List.mem_append_left _ hd, hdc, huid⟩, fun m hm => ?_⟩
      have hother : e.1 ≠ workloadKey c m := fun heq =>
        hc (workloadKey_inj.mp (hkey.symm.trans heq)).1
      rw [hval m hm, metricOf_append_of_ne hother]

end Row

/-- **The merge.** What `ListWorkloads` makes of rows with distinct keys. -/
theorem merged_mergeRows {rows : List (WorkloadKey × LatestRow)} (hkeyed : ∀ e ∈ rows, RowKeyed e)
    (hdistinct : rows.Pairwise fun a b => a.1 ≠ b.1) :
    Merged rows (rows.foldl mergeRow ⟨∅, []⟩) := by
  induction rows using List.reverseRecOn with
  | nil => exact ⟨by simp, by simp, by simp⟩
  | append_singleton rows e ih =>
    obtain ⟨hrows, -, hnew⟩ := List.pairwise_append.mp hdistinct
    rw [List.foldl_append, List.foldl_cons, List.foldl_nil]
    exact merged_mergeRow (ih (fun d hd => hkeyed d (List.mem_append_left _ hd)) hrows)
      (hkeyed e (by simp)) fun d hd => hnew d hd e (by simp)

/-! ### Rows and the points they come from -/

theorem mem_pointsAt {k : WorkloadKey} {p : MetricPoint} {points : List MetricPoint} :
    p ∈ pointsAt k points ↔ p ∈ points ∧ p.key? = some k := by
  rw [pointsAt, List.mem_filter, decide_eq_true_iff]

theorem key?_eq_some {p : MetricPoint} {k : WorkloadKey} : p.key? = some k ↔
    workloadMetric p.metricName = true ∧ p.labels.get "container" ≠ "" ∧
      k = workloadKey (p.labels.get "container") p.metricName := by
  rw [MetricPoint.key?]
  split_ifs with h
  · simp only [Bool.or_eq_true, Bool.not_eq_eq_eq_not, Bool.not_true, beq_iff_eq] at h
    refine ⟨fun h => absurd h (by simp), ?_⟩
    rintro ⟨hm, hc, -⟩
    rcases h with h | h
    · rw [hm] at h
      cases h
    · exact absurd h hc
  · simp only [Bool.or_eq_true, Bool.not_eq_eq_eq_not, Bool.not_true, beq_iff_eq, not_or,
      Bool.not_eq_false] at h
    rw [Option.some.injEq]
    exact ⟨fun heq => ⟨h.1, h.2, heq.symm⟩, fun h => h.2.2.symm⟩

/-- A point's row has the key of the point. -/
theorem rowKeyed_toLatest {p : MetricPoint} {k : WorkloadKey} (h : p.key? = some k) :
    RowKeyed (k, p.toLatest) := by
  obtain ⟨hm, hc, rfl⟩ := key?_eq_some.mp h
  exact ⟨by rw [MetricPoint.toLatest, Labels.unmarshal_marshal]; rfl, hc, hm⟩

theorem pointsAt_append (k : WorkloadKey) (points points' : List MetricPoint) :
    pointsAt k (points ++ points') = pointsAt k points ++ pointsAt k points' :=
  List.filter_append ..

theorem keepLatest_cases (prev p : MetricPoint) :
    (keepLatest prev p = p ∧ prev.ts ≤ p.ts) ∨ (keepLatest prev p = prev ∧ p.ts ≤ prev.ts) := by
  rw [keepLatest]
  by_cases h : p.ts < prev.ts
  · exact .inr ⟨by simp [h], h.le⟩
  · exact .inl ⟨by simp [h], not_lt.mp h⟩

theorem keepGuarded_cases (stored excluded : LatestRow) :
    keepGuarded stored excluded = stored ∨ keepGuarded stored excluded = excluded := by
  rw [keepGuarded]
  split_ifs
  · exact .inr rfl
  · exact .inl rfl

/-- The point of a batch for a key is one of its newest. -/
theorem batchLatest_spec {points : List MetricPoint} {k : WorkloadKey} :
    (batchLatest points k = none ↔ pointsAt k points = []) ∧
      ∀ p, batchLatest points k = some p →
        p ∈ pointsAt k points ∧ ∀ q ∈ pointsAt k points, q.ts ≤ p.ts := by
  refine ⟨by simp [batchLatest, SortedMap.foldl_mergeInto_eq_none], fun p hp => ⟨?_, ?_⟩⟩
  · simpa using SortedMap.mem_of_foldl_mergeInto
      (fun a b => (keepLatest_cases a b).symm.imp And.left And.left) hp
  · simpa using SortedMap.newest_of_foldl_mergeInto MetricPoint.ts (S := fun _ => True)
      (fun a b _ _ => keepLatest_cases a b) (fun _ _ => trivial) hp

/-- Instants whose texts sort as they do. -/
def TextOrdered (times : List Time) : Prop :=
  ∀ t₁ ∈ times, ∀ t₂ ∈ times, Chronological t₁ t₂

theorem TextOrdered.mono {times times' : List Time} (h : TextOrdered times')
    (hsub : ∀ t ∈ times, t ∈ times') : TextOrdered times :=
  fun t₁ h₁ t₂ h₂ => h t₁ (hsub t₁ h₁) t₂ (hsub t₂ h₂)

theorem textOrdered_of_not_cut {times : List Time} (hyears : ∀ t ∈ times, t.InYears)
    (hcut : ∀ t₁ ∈ times, ∀ t₂ ∈ times, ¬ Time.FractionCut t₁ t₂) : TextOrdered times :=
  fun t₁ h₁ t₂ h₂ => chronological_of_not_cut (hyears t₁ h₁) (hyears t₂ h₂) (hcut t₁ h₁ t₂ h₂)

/-- What `workload_latest` holds under a key, in terms of the points written: the row of one of
them, or nothing if there is none. -/
def FromPoints (points : List MetricPoint) (k : WorkloadKey) (stored : Option LatestRow) : Prop :=
  (stored = none ↔ pointsAt k points = []) ∧
    ∀ r, stored = some r → ∃ p ∈ pointsAt k points, r = p.toLatest ∧
      (TextOrdered ((pointsAt k points).map MetricPoint.ts) →
        ∀ q ∈ pointsAt k points, q.ts ≤ p.ts)

/-- One batch keeps the rows those of points, and of newest ones. -/
theorem fromPoints_insertMetrics {db db' : MetricTables} {points batch : List MetricPoint}
    {k : WorkloadKey} (h : FromPoints points k (db.latest.get? k))
    (hwrite : insertMetrics db batch = some db') :
    FromPoints (points ++ batch) k (db'.latest.get? k) := by
  obtain ⟨hnone, hsome⟩ := h
  obtain ⟨hbatchNone, hbatchSome⟩ := @batchLatest_spec batch k
  rw [get?_insertMetrics hwrite, FromPoints, pointsAt_append, List.append_eq_nil_iff]
  cases hb : batchLatest batch k with
  | none =>
    rw [hbatchNone.mp hb, List.append_nil]
    exact ⟨by simpa using hnone, hsome⟩
  | some p =>
    obtain ⟨hp, hpnew⟩ := hbatchSome p hb
    have hbne : pointsAt k batch ≠ [] := List.ne_nil_of_mem hp
    cases hs : db.latest.get? k with
    | none =>
      rw [hnone.mp hs, List.nil_append]
      refine ⟨by simp [SortedMap.mergeInto, hbne], fun r hr => ⟨p, hp, ?_, fun _ => hpnew⟩⟩
      exact (Option.some.inj hr).symm
    | some stored =>
      refine ⟨by simp [SortedMap.mergeInto, hbne], fun r hr => ?_⟩
      obtain ⟨p₀, hp₀, rfl, hnew₀⟩ := hsome stored hs
      obtain rfl : keepGuarded p₀.toLatest p.toLatest = r := Option.some.inj hr
      have hmono : TextOrdered ((pointsAt k points ++ pointsAt k batch).map MetricPoint.ts) →
          TextOrdered ((pointsAt k points).map MetricPoint.ts) := fun htext =>
        htext.mono fun t ht => by
          rw [List.map_append]
          exact List.mem_append_left _ ht
      have hguard : TextOrdered ((pointsAt k points ++ pointsAt k batch).map MetricPoint.ts) →
          (latestGuard p₀.ts p.ts = true ↔ p₀.ts ≤ p.ts) := fun htext =>
        (htext p₀.ts (List.mem_map_of_mem (List.mem_append_left _ hp₀)) p.ts
          (List.mem_map_of_mem (List.mem_append_right _ hp))).guard
      rw [keepGuarded]
      split_ifs with hg
      · refine ⟨p, List.mem_append_right _ hp, rfl, fun htext q hq => ?_⟩
        have hle := (hguard htext).mp hg
        rcases List.mem_append.mp hq with hq | hq
        · exact (hnew₀ (hmono htext) q hq).trans hle
        · exact hpnew q hq
      · refine ⟨p₀, List.mem_append_left _ hp₀, rfl, fun htext q hq => ?_⟩
        have hlt := not_le.mp (mt (hguard htext).mpr hg)
        rcases List.mem_append.mp hq with hq | hq
        · exact hnew₀ (hmono htext) q hq
        · exact (hpnew q hq).trans hlt.le

/-- **Any sequence of batches.** Each row of `workload_latest` is the row of a point written
under its key, of a newest one when the texts of its points sort like the instants. -/
theorem latest_of_writeAll {batches : List (List MetricPoint)} {db : MetricTables}
    (h : writeAll batches = some db) (k : WorkloadKey) :
    FromPoints batches.flatten k (db.latest.get? k) := by
  induction batches using List.reverseRecOn generalizing db with
  | nil =>
    obtain rfl : MetricTables.empty = db := Option.some.inj h
    exact ⟨by simp [MetricTables.empty, pointsAt], fun r hr => nomatch hr⟩
  | append_singleton batches batch ih =>
    rw [writeAll, List.foldlM_append] at h
    obtain ⟨db₀, h₀, h⟩ := Option.bind_eq_some_iff.mp h
    rw [List.foldlM_cons] at h
    obtain ⟨db₁, h₁, h⟩ := Option.bind_eq_some_iff.mp h
    obtain rfl : db₁ = db := Option.some.inj h
    rw [List.flatten_append, List.flatten_singleton]
    exact fromPoints_insertMetrics (ih h₀) h₁

/-! ### Snapshots and entities -/

/-- A point of a container as an agent collects it. -/
def FromHost (p : MetricPoint) : Prop :=
  ∃ hostID name dockerLabels, DockerName name ∧
    (p.entityUID, p.labels) = entityFor hostID name dockerLabels

/-- The three workload points that `Collector.Collect` makes of the stats of a container. -/
def collectContainer (hostID name : String) (dockerLabels : Labels) (now : Time)
    (cpu usage limit : Extended) : List MetricPoint :=
  let (entityUID, labels) := entityFor hostID name dockerLabels
  [⟨"cpu.usage", now, cpu, entityUID, labels⟩, ⟨"memory.usage", now, usage, entityUID, labels⟩,
    ⟨"memory.limit", now, limit, entityUID, labels⟩]

theorem fromHost_collectContainer {hostID name : String} (hname : DockerName name)
    (dockerLabels : Labels) (now : Time) (cpu usage limit : Extended) :
    ∀ p ∈ collectContainer hostID name dockerLabels now cpu usage limit, FromHost p := by
  intro p hp
  simp only [collectContainer, entityFor, List.mem_cons, List.not_mem_nil, or_false] at hp
  rcases hp with rfl | rfl | rfl <;> exact ⟨hostID, name, dockerLabels, hname, rfl⟩

/-- A workload point in the window. -/
def InWindow (since : Time) (p : MetricPoint) : Prop :=
  workloadMetric p.metricName = true ∧ since ≤ p.ts

/-- `v` is the value that the column keeps of a newest point of the entity for the metric among
those in the window, and zero if there is none. -/
def FromNewest (points : List MetricPoint) (since : Time) (uid metricName : String)
    (v : Extended) : Prop :=
  (∃ p ∈ points, p.entityUID = uid ∧ p.metricName = metricName ∧ since ≤ p.ts ∧ v = real p.value ∧
    ∀ q ∈ points, q.entityUID = uid → q.metricName = metricName → q.ts ≤ p.ts) ∨
  ((∀ q ∈ points, q.entityUID = uid → q.metricName = metricName → q.ts < since) ∧ v = .finite 0)

/-- The result of `ListWorkloads` belongs to the entities: every value is from a newest point of
the snapshot's own entity, and every entity with points in the window has one snapshot of its
own. -/
structure PerEntity (points : List MetricPoint) (since : Time) (out : List WorkloadSnapshot) :
    Prop where
  values : ∀ w ∈ out, ∀ m, workloadMetric m = true →
    FromNewest points since w.entityUID m (w.metric m)
  complete : ∀ p ∈ points, InWindow since p → ∃ w ∈ out, w.entityUID = p.entityUID
  unshared : (out.map WorkloadSnapshot.entityUID).Nodup

/-- No two entities with points in the window share a container name. -/
def NoSharedName (points : List MetricPoint) (since : Time) : Prop :=
  ∀ p ∈ points, ∀ q ∈ points, InWindow since p → InWindow since q →
    p.labels.get "container" = q.labels.get "container" → p.entityUID = q.entityUID

theorem FromHost.container_ne {p : MetricPoint} (h : FromHost p) :
    p.labels.get "container" ≠ "" := by
  obtain ⟨host, name, dl, hname, heq⟩ := h
  rw [(Prod.mk.inj heq).2, get_container_entityLabels]
  exact hname.1

/-- An entity has one container name. -/
theorem FromHost.container_eq {p q : MetricPoint} (hp : FromHost p) (hq : FromHost q)
    (h : p.entityUID = q.entityUID) : p.labels.get "container" = q.labels.get "container" := by
  obtain ⟨host, name, dl, hname, heq⟩ := hp
  obtain ⟨host', name', dl', hname', heq'⟩ := hq
  rw [(Prod.mk.inj heq).1, (Prod.mk.inj heq').1] at h
  rw [(Prod.mk.inj heq).2, (Prod.mk.inj heq').2, get_container_entityLabels,
    get_container_entityLabels]
  exact (entityUID_inj hname hname' h).2

theorem FromHost.key? {p : MetricPoint} (h : FromHost p)
    (hm : workloadMetric p.metricName = true) :
    p.key? = some (workloadKey (p.labels.get "container") p.metricName) :=
  key?_eq_some.mpr ⟨hm, h.container_ne, rfl⟩

/-- A table has a scan. -/
theorem exists_latestScan (db : MetricTables) (since : Time) :
    ∃ rows, LatestScan db since rows := by
  obtain ⟨rows, hperm, hsorted⟩ := exists_sorted_desc
    (db.latest.entries.filter fun e => sinceFilter since e.2.ts) fun e => e.2.ts
  exact ⟨rows, hperm, hsorted⟩

section Snapshots

variable {batches : List (List MetricPoint)} {db : MetricTables} {since : Time}
  {rows : List (WorkloadKey × LatestRow)}

/-- The rows of a scan come from points in the text window. -/
theorem exists_point_of_mem_scan (hwrite : writeAll batches = some db)
    (hscan : LatestScan db since rows) {e : WorkloadKey × LatestRow} (he : e ∈ rows) :
    sinceFilter since e.2.ts = true ∧ ∃ p ∈ batches.flatten, p.key? = some e.1 ∧
      e.2 = p.toLatest ∧ (TextOrdered ((pointsAt e.1 batches.flatten).map MetricPoint.ts) →
        ∀ q ∈ pointsAt e.1 batches.flatten, q.ts ≤ p.ts) := by
  obtain ⟨hmem, hsince⟩ := List.mem_filter.mp (hscan.1.subset he)
  obtain ⟨p, hp, heq, hnew⟩ :=
    (latest_of_writeAll hwrite e.1).2 e.2 (SortedMap.mem_entries.mp hmem)
  obtain ⟨hp, hk⟩ := mem_pointsAt.mp hp
  exact ⟨hsince, p, hp, hk, heq, hnew⟩

/-- What `ListWorkloads` makes of the rows of a scan. -/
theorem merged_scan (hwrite : writeAll batches = some db) (hscan : LatestScan db since rows) :
    Merged rows (rows.foldl mergeRow ⟨∅, []⟩) := by
  refine merged_mergeRows (fun e he => ?_) ?_
  · obtain ⟨-, p, -, hk, heq, -⟩ := exists_point_of_mem_scan hwrite hscan he
    rw [show e = (e.1, p.toLatest) from Prod.ext rfl heq]
    exact rowKeyed_toLatest hk
  · rw [hscan.1.pairwise_iff fun h => Ne.symm h]
    exact (db.latest.sorted.filter _).imp fun h => h.ne

/-- Every snapshot carries the uid of a point of its container in the text window. -/
theorem exists_point_of_snapshot (hwrite : writeAll batches = some db)
    (hscan : LatestScan db since rows) {c : String} {w : WorkloadSnapshot}
    (hw : (mergeRows rows).get? c = some w) :
    ∃ p ∈ batches.flatten, workloadMetric p.metricName = true ∧
      p.labels.get "container" = c ∧ p.entityUID = w.entityUID ∧ sinceFilter since p.ts = true := by
  obtain ⟨-, ⟨e, he, hc, huid⟩, -⟩ := (merged_scan hwrite hscan).snapshots c w hw
  obtain ⟨hsince, p, hp, hk, heq, -⟩ := exists_point_of_mem_scan hwrite hscan he
  obtain ⟨hm, -, hkey⟩ := key?_eq_some.mp hk
  refine ⟨p, hp, hm, ?_, ?_, ?_⟩
  · rw [← hc, hkey]
    rfl
  · rw [huid, heq]
    rfl
  · rw [heq] at hsince
    exact hsince

/-- Entities that each have a snapshot of their own do not share a container name. -/
theorem noSharedName_of_perEntity (hwrite : writeAll batches = some db)
    (hfrom : ∀ p ∈ batches.flatten, workloadMetric p.metricName = true → FromHost p)
    (hscan : LatestScan db since rows)
    (h : PerEntity batches.flatten since (mergeRows rows).values) :
    NoSharedName batches.flatten since := by
  -- the snapshot of an entity lies under the entity's container name
  have hunder : ∀ p ∈ batches.flatten, InWindow since p → ∃ w,
      (mergeRows rows).get? (p.labels.get "container") = some w ∧ w.entityUID = p.entityUID := by
    intro p hp hwin
    obtain ⟨w, hw, huid⟩ := h.complete p hp hwin
    obtain ⟨c, hc⟩ := SortedMap.mem_values.mp hw
    obtain ⟨p', hp', hm', hcont, huid', -⟩ := exists_point_of_snapshot hwrite hscan hc
    have hname := (hfrom p' hp' hm').container_eq (hfrom p hp hwin.1) (huid'.trans huid)
    exact ⟨w, by rw [← hname, hcont, hc], huid⟩
  intro p hp q hq hwp hwq hname
  obtain ⟨w, hw, hwuid⟩ := hunder p hp hwp
  obtain ⟨w', hw', hwuid'⟩ := hunder q hq hwq
  rw [hname, hw'] at hw
  obtain rfl : w' = w := Option.some.inj hw
  exact hwuid.symm.trans hwuid'

/-- Entities that do not share a container name each have a snapshot of their own. -/
theorem perEntity_of_noSharedName (hwrite : writeAll batches = some db)
    (hfrom : ∀ p ∈ batches.flatten, workloadMetric p.metricName = true → FromHost p)
    (htext : ∀ k, TextOrdered (since :: (pointsAt k batches.flatten).map MetricPoint.ts))
    (hscan : LatestScan db since rows) (h : NoSharedName batches.flatten since) :
    PerEntity batches.flatten since (mergeRows rows).values := by
  have hmerged := merged_scan hwrite hscan
  have hsinceIff : ∀ {k p}, p ∈ pointsAt k batches.flatten →
      (sinceFilter since p.ts = true ↔ since ≤ p.ts) := fun {k p} hp =>
    (htext k since List.mem_cons_self p.ts (List.mem_cons_of_mem _ (List.mem_map_of_mem hp))).since
  have hpoints : ∀ k, TextOrdered ((pointsAt k batches.flatten).map MetricPoint.ts) := fun k =>
    (htext k).mono fun t ht => List.mem_cons_of_mem _ ht
  -- a point in the window has its row, which is in the scan and belongs to a newest point
  have hrow : ∀ p ∈ batches.flatten, InWindow since p → ∃ r,
      (workloadKey (p.labels.get "container") p.metricName, r) ∈ rows := by
    intro p hp hwin
    have hk := (hfrom p hp hwin.1).key? hwin.1
    obtain ⟨hnone, hsome⟩ := latest_of_writeAll hwrite
      (workloadKey (p.labels.get "container") p.metricName)
    have hmem : p ∈ pointsAt (workloadKey (p.labels.get "container") p.metricName)
      batches.flatten := mem_pointsAt.mpr ⟨hp, hk⟩
    cases hr : db.latest.get? (workloadKey (p.labels.get "container") p.metricName) with
    | none => exact absurd (hnone.mp hr) (List.ne_nil_of_mem hmem)
    | some r =>
      obtain ⟨p', hp', rfl, hnew⟩ := hsome r hr
      refine ⟨p'.toLatest, hscan.1.mem_iff.mpr (List.mem_filter.mpr ⟨?_, ?_⟩)⟩
      · exact SortedMap.mem_entries.mpr hr
      · exact (hsinceIff hp').mpr (hwin.2.trans (hnew (hpoints _) p hmem))
  have hinWindow : ∀ c w, (mergeRows rows).get? c = some w → ∃ p ∈ batches.flatten,
      InWindow since p ∧ p.labels.get "container" = c ∧ p.entityUID = w.entityUID := by
    intro c w hw
    obtain ⟨p, hp, hm, hc, huid, hsince⟩ := exists_point_of_snapshot hwrite hscan hw
    have hmem := mem_pointsAt.mpr ⟨hp, (hfrom p hp hm).key? hm⟩
    exact ⟨p, hp, ⟨hm, (hsinceIff hmem).mp hsince⟩, hc, huid⟩
  constructor
  · intro w hw m hm
    obtain ⟨c, hget⟩ := SortedMap.mem_values.mp hw
    obtain ⟨p₀, hp₀, hwin₀, hc₀, huid₀⟩ := hinWindow c w hget
    obtain ⟨-, -, hval⟩ := hmerged.snapshots c w hget
    -- the points of the entity for `m` are points of the key of `c` and `m`
    have hkeyOf : ∀ q ∈ batches.flatten, q.entityUID = w.entityUID → q.metricName = m →
        q.key? = some (workloadKey c m) := by
      intro q hq huid hqm
      have hqm' : workloadMetric q.metricName = true := hqm ▸ hm
      have hname := (hfrom q hq hqm').container_eq (hfrom p₀ hp₀ hwin₀.1) (huid.trans huid₀.symm)
      rw [(hfrom q hq hqm').key? hqm', hname, hc₀, hqm]
    rw [hval m hm, metricOf]
    cases hrows : SortedMap.rowsFor (workloadKey c m) rows with
    | nil =>
      refine .inr ⟨fun q hq huid hqm => lt_of_not_ge fun hge => ?_, rfl⟩
      have hqwin : InWindow since q := ⟨hqm ▸ hm, hge⟩
      obtain ⟨r, hr⟩ := hrow q hq hqwin
      have hkey := hkeyOf q hq huid hqm
      rw [(hfrom q hq hqwin.1).key? hqwin.1] at hkey
      rw [Option.some.inj hkey] at hr
      exact absurd (SortedMap.mem_rowsFor.mpr hr) (by rw [hrows]; exact List.not_mem_nil)
    | cons r rest =>
      have hr : (workloadKey c m, r) ∈ rows :=
        SortedMap.mem_rowsFor.mp (by rw [hrows]; exact List.mem_cons_self)
      obtain ⟨hsince, p, hp, hk, heq, hnew⟩ := exists_point_of_mem_scan hwrite hscan hr
      obtain rfl : r = p.toLatest := heq
      obtain ⟨hpm, -, hkey⟩ := key?_eq_some.mp hk
      obtain ⟨hc, hm'⟩ := workloadKey_inj.mp hkey
      have hpwin : InWindow since p := ⟨hpm, (hsinceIff (mem_pointsAt.mpr ⟨hp, hk⟩)).mp hsince⟩
      have huid : p.entityUID = w.entityUID :=
        (h p hp p₀ hp₀ hpwin hwin₀ (hc.symm.trans hc₀.symm)).trans huid₀
      refine .inl ⟨p, hp, huid, hm'.symm, hpwin.2, rfl, fun q hq hquid hqm => ?_⟩
      exact hnew (hpoints _) q (mem_pointsAt.mpr ⟨hq, hkeyOf q hq hquid hqm⟩)
  · intro p hp hwin
    obtain ⟨r, hr⟩ := hrow p hp hwin
    cases hget : (mergeRows rows).get? (p.labels.get "container") with
    | none => exact absurd rfl ((hmerged.containers _).mp hget _ hr)
    | some w =>
      obtain ⟨p', hp', hwin', hc', huid'⟩ := hinWindow _ w hget
      exact ⟨w, SortedMap.mem_values.mpr ⟨_, hget⟩,
        huid'.symm.trans (h p' hp' p hp hwin' hwin hc')⟩
  · rw [SortedMap.values, List.map_map]
    refine List.pairwise_map.mpr ((mergeRows rows).sorted.imp_of_mem fun {a b} ha hb hlt heq => ?_)
    obtain ⟨p, hp, hwp, hcp, hup⟩ := hinWindow a.1 a.2 (SortedMap.mem_entries.mp ha)
    obtain ⟨q, hq, hwq, hcq, huq⟩ := hinWindow b.1 b.2 (SortedMap.mem_entries.mp hb)
    have hname := (hfrom p hp hwp.1).container_eq (hfrom q hq hwq.1)
      (hup.trans (heq.trans huq.symm))
    exact absurd (hcp.symm.trans (hname.trans hcq)) hlt.ne

end Snapshots

/-- `PerEntity` does not depend on the order of the snapshots. -/
theorem PerEntity.perm {points : List MetricPoint} {since : Time}
    {out out' : List WorkloadSnapshot} (h : PerEntity points since out) (hperm : out'.Perm out) :
    PerEntity points since out' :=
  ⟨fun w hw => h.values w (hperm.subset hw),
    fun p hp hwin => (h.complete p hp hwin).imp fun _ hw => ⟨hperm.mem_iff.mpr hw.1, hw.2⟩,
    (hperm.map _).nodup_iff.mpr h.unshared⟩

/-- **Snapshots belong to entities exactly when names are not shared.** If every result of
`ListWorkloads` belongs to the entities, then no two of them with points in the window share a
container name; and if none do, and for the points of each key the texts of their timestamps and of
`since` sort like the instants, then every result belongs to the entities. -/
theorem snapshots_per_entity {batches : List (List MetricPoint)} {db : MetricTables}
    (hwrite : writeAll batches = some db)
    (hfrom : ∀ p ∈ batches.flatten, workloadMetric p.metricName = true → FromHost p)
    (since : Time) :
    ((∀ out, ListWorkloads db since out → PerEntity batches.flatten since out) →
        NoSharedName batches.flatten since) ∧
      ((∀ k, TextOrdered (since :: (pointsAt k batches.flatten).map MetricPoint.ts)) →
        NoSharedName batches.flatten since →
          ∀ out, ListWorkloads db since out → PerEntity batches.flatten since out) := by
  constructor
  · intro h
    obtain ⟨rows, hscan⟩ := exists_latestScan db since
    exact noSharedName_of_perEntity hwrite hfrom hscan
      (h _ ⟨rows, hscan, List.Perm.refl _⟩)
  · rintro htext hunshared out ⟨rows, hscan, hperm⟩
    exact (perEntity_of_noSharedName hwrite hfrom htext hscan hunshared).perm hperm

/-- Two hosts with one container each, `web` and `db`, scraped at noon and a minute later. -/
theorem snapshots_per_entity_two_names :
    ∃ db, writeAll [collectContainer "a" "web" ∅ ⟨63844891200000000000⟩ (.finite 12) (.finite 4096)
        (.finite 8192), collectContainer "b" "db" ∅ ⟨63844891260000000000⟩ (.finite 3)
        (.finite 2048) (.finite 8192)] = some db ∧
      ∀ out, ListWorkloads db ⟨63844891200000000000⟩ out → PerEntity
        [collectContainer "a" "web" ∅ ⟨63844891200000000000⟩ (.finite 12) (.finite 4096)
          (.finite 8192), collectContainer "b" "db" ∅ ⟨63844891260000000000⟩ (.finite 3)
          (.finite 2048) (.finite 8192)].flatten ⟨63844891200000000000⟩ out := by
  obtain ⟨db, hdb⟩ := Option.isSome_iff_exists.mp (show (writeAll
    [collectContainer "a" "web" ∅ ⟨63844891200000000000⟩ (.finite 12) (.finite 4096)
      (.finite 8192), collectContainer "b" "db" ∅ ⟨63844891260000000000⟩ (.finite 3)
      (.finite 2048) (.finite 8192)]).isSome by decide +kernel)
  have htext : TextOrdered (⟨63844891200000000000⟩ ::
      ([collectContainer "a" "web" ∅ ⟨63844891200000000000⟩ (.finite 12) (.finite 4096)
          (.finite 8192), collectContainer "b" "db" ∅ ⟨63844891260000000000⟩ (.finite 3)
          (.finite 2048) (.finite 8192)].flatten.map MetricPoint.ts)) :=
    textOrdered_of_not_cut (by decide +kernel) (by decide +kernel)
  refine ⟨db, hdb, (snapshots_per_entity hdb (fun p hp _ => ?_) _).2 ?_ ?_⟩
  · rw [List.flatten_cons, List.flatten_cons, List.flatten_nil, List.append_nil] at hp
    rcases List.mem_append.mp hp with hp | hp
    · exact fromHost_collectContainer (by decide) _ _ _ _ _ p hp
    · exact fromHost_collectContainer (by decide) _ _ _ _ _ p hp
  · refine fun k => htext.mono fun t ht => ?_
    exact (List.Sublist.map MetricPoint.ts List.filter_sublist).cons_cons _ |>.subset ht
  · unfold NoSharedName InWindow
    decide +kernel

/-- **Two hosts, one name.** Hosts `a` and `b` both run a container `db`. The point of `b`, a
minute later, replaces the one of `a`, and `a` has no snapshot. -/
theorem same_name_shares_snapshot : ¬ ∀ (batches : List (List MetricPoint)) (db : MetricTables),
    writeAll batches = some db →
      (∀ p ∈ batches.flatten, workloadMetric p.metricName = true → FromHost p) →
        ∀ since out, ListWorkloads db since out → PerEntity batches.flatten since out := by
  intro hall
  obtain ⟨db, hdb⟩ := Option.isSome_iff_exists.mp (show (writeAll
    [collectContainer "a" "db" ∅ ⟨63844891200000000000⟩ (.finite 12) (.finite 4096)
      (.finite 8192), collectContainer "b" "db" ∅ ⟨63844891260000000000⟩ (.finite 3)
      (.finite 2048) (.finite 8192)]).isSome by decide +kernel)
  have hfrom := fun p hp (_ : workloadMetric p.metricName = true) => List.forall_mem_append.mpr
    ⟨@fromHost_collectContainer "a" "db" (by decide) ∅
      ⟨63844891200000000000⟩ (.finite 12) (.finite 4096) (.finite 8192),
     @fromHost_collectContainer "b" "db" (by decide) ∅
      ⟨63844891260000000000⟩ (.finite 3) (.finite 2048) (.finite 8192)⟩ p hp
  obtain ⟨rows, hscan⟩ := exists_latestScan db ⟨63844891200000000000⟩
  have hunshared := noSharedName_of_perEntity hdb hfrom hscan
    (hall _ db hdb hfrom _ _ ⟨rows, hscan, List.Perm.refl _⟩)
  exact absurd hunshared (by unfold NoSharedName InWindow; decide +kernel)

end Argus
