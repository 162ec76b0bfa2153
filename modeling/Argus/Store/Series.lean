import Argus.Store.Metrics

/-!
# Series of a metric

`QueryMetricSeries` reads the points of a metric in a window, oldest first, and puts each in the
series of its entity and of its name. The name is the container among the labels, for the metrics
derived from HTTP logs the service, and the entity where there is neither. `labelled_perm` says what
the series hold: each point of the window that is asked for, under its name, once.
-/

namespace Argus

open Foundations

/-! ### The query -/

/-- `model.ContainerSeries`. -/
structure ContainerSeries where
  container : String
  entityUID : String
  points : List SeriesPoint

/-- The name of the series that a point goes to. -/
def seriesName (metricName : String) (labels : Labels) (entityUID : String) : String :=
  let name :=
    if hasPrefix metricName "http." && labels.get "service" != "" then labels.get "service"
    else labels.get "container"
  if name == "" then entityUID else name

/-- Whether a point is asked for with the parameter `container`. -/
def seriesAsked (container name : String) (labels : Labels) : Bool :=
  container == "" || name == container || labels.get "container" == container ||
    labels.get "service" == container

/-- One round of the loop of `QueryMetricSeries`. -/
def addPoint (metricName container : String) (series : SortedMap (String ×ₗ String) ContainerSeries)
    (r : MetricRow) : SortedMap (String ×ₗ String) ContainerSeries :=
  let labels := Labels.unmarshal r.labelsJSON
  let name := seriesName metricName labels r.entityUID
  if seriesAsked container name labels then
    let s := (series.get? (toLex (name, r.entityUID))).getD ⟨name, r.entityUID, []⟩
    series.insert (toLex (name, r.entityUID)) { s with points := s.points ++ [⟨r.ts, r.value⟩] }
  else series

/-- The rows of a metric in a window. -/
def metricRows (db : MetricTables) (metricName : String) (since until_ : Time) : List MetricRow :=
  db.points.filter fun r => r.metricName == metricName && inWindow since until_ r.ts

/-- The possible results of `QueryMetricSeries`: `ORDER BY ts ASC`, and the series in no order. -/
def QueryMetricSeries (db : MetricTables) (metricName container : String) (since until_ : Time)
    (out : Option (List ContainerSeries)) : Prop :=
  if validText metricName then
    ∃ (rows : List MetricRow) (series : List ContainerSeries),
      rows.Perm (metricRows db metricName since until_) ∧
      rows.Pairwise (fun a b => sortsBefore b.ts a.ts = false) ∧
      series.Perm (rows.foldl (addPoint metricName container) ∅).values ∧ out = some series
  else out = none

/-! ### What the series hold -/

/-- A point with the names of its series: the container and the entity. -/
abbrev LabelledPoint : Type := String × String × SeriesPoint

/-- The points of a series. -/
def ContainerSeries.labelled (s : ContainerSeries) : List LabelledPoint :=
  s.points.map fun p => (s.container, s.entityUID, p)

/-- The point of a row, as a series of the metric has it. -/
def MetricRow.labelled (metricName : String) (r : MetricRow) : LabelledPoint :=
  (seriesName metricName (Labels.unmarshal r.labelsJSON) r.entityUID, r.entityUID, ⟨r.ts, r.value⟩)

/-- Whether a row is asked for. -/
def MetricRow.asked (metricName container : String) (r : MetricRow) : Bool :=
  let labels := Labels.unmarshal r.labelsJSON
  seriesAsked container (seriesName metricName labels r.entityUID) labels

/-- Every series stands under its names. -/
def SeriesKeyed (series : SortedMap (String ×ₗ String) ContainerSeries) : Prop :=
  ∀ k s, series.get? k = some s → k = toLex (s.container, s.entityUID)

/-- One round keeps the keys, and adds the point of the row if it is asked for. -/
theorem addPoint_spec {metricName container : String}
    {series : SortedMap (String ×ₗ String) ContainerSeries} (h : SeriesKeyed series)
    (r : MetricRow) : SeriesKeyed (addPoint metricName container series r) ∧
      ((addPoint metricName container series r).values.flatMap ContainerSeries.labelled).Perm
        (series.values.flatMap ContainerSeries.labelled ++
          ([r].filter (MetricRow.asked metricName container)).map
            (MetricRow.labelled metricName)) := by
  cases hasked : r.asked metricName container with
  | false =>
    have hadd : addPoint metricName container series r = series := if_neg (by
      rw [MetricRow.asked] at hasked
      simp [hasked])
    rw [hadd, List.filter_cons_of_neg (by simp [hasked])]
    exact ⟨h, by simp⟩
  | true =>
    set name := seriesName metricName (Labels.unmarshal r.labelsJSON) r.entityUID with hname
    set k : String ×ₗ String := toLex (name, r.entityUID) with hk
    set s := (series.get? k).getD ⟨name, r.entityUID, []⟩ with hs
    have hadd : addPoint metricName container series r =
        series.insert k { s with points := s.points ++ [⟨r.ts, r.value⟩] } := if_pos hasked
    -- the series of the row has the names of the row, new or not
    have hnames : s.container = name ∧ s.entityUID = r.entityUID ∧
        s.labelled = (series.get? k).toList.flatMap ContainerSeries.labelled := by
      cases hget : series.get? k with
      | none => rw [hs, hget]; exact ⟨rfl, rfl, rfl⟩
      | some s' =>
        have hkeys := Prod.mk.inj (toLex.injective (h k s' hget))
        rw [hs, hget]
        exact ⟨hkeys.1.symm, hkeys.2.symm, by simp⟩
    rw [hadd, List.filter_cons_of_pos hasked]
    refine ⟨fun k' s' hget => ?_, SortedMap.flatMap_values_insert ?_⟩
    · rw [SortedMap.get?_insert] at hget
      split_ifs at hget with hkk
      · rw [← hkk, ← Option.some.inj hget, hk, hnames.1, hnames.2.1]
      · exact h k' s' hget
    · rw [← hnames.2.2, ContainerSeries.labelled, ContainerSeries.labelled, List.map_append,
        hnames.1, hnames.2.1]
      rfl

theorem foldl_addPoint {metricName container : String}
    {series : SortedMap (String ×ₗ String) ContainerSeries} (h : SeriesKeyed series)
    (rows : List MetricRow) :
    ((rows.foldl (addPoint metricName container) series).values.flatMap
      ContainerSeries.labelled).Perm (series.values.flatMap ContainerSeries.labelled ++
        (rows.filter (MetricRow.asked metricName container)).map
          (MetricRow.labelled metricName)) := by
  induction rows generalizing series with
  | nil => simp
  | cons r rows ih =>
    obtain ⟨hkeyed, hperm⟩ := @addPoint_spec metricName container series h r
    refine (ih hkeyed).trans ((hperm.append_right _).trans ?_)
    rw [List.append_assoc, ← List.map_append, ← List.filter_append, List.singleton_append]

/-- **What the series hold.** Each point of the window that is asked for, under its name, once. -/
theorem labelled_perm {db : MetricTables} {metricName container : String} {since until_ : Time}
    {series : List ContainerSeries}
    (h : QueryMetricSeries db metricName container since until_ (some series)) :
    (series.flatMap ContainerSeries.labelled).Perm
      (((metricRows db metricName since until_).filter (MetricRow.asked metricName container)).map
        (MetricRow.labelled metricName)) := by
  rw [QueryMetricSeries] at h
  split_ifs at h
  obtain ⟨rows, series', hrows, -, hseries, heq⟩ := h
  obtain rfl := Option.some.inj heq
  have hempty : SeriesKeyed ∅ := fun k s hget => absurd hget (by simp)
  exact (hseries.flatMap_right _).trans ((foldl_addPoint hempty rows).trans
    ((hrows.filter _).map _))

/-- The series of some names have the points of those names. -/
theorem flatMap_labelled_filter (p : String → Bool) (series : List ContainerSeries) :
    (series.filter fun s => p s.container).flatMap ContainerSeries.labelled =
      (series.flatMap ContainerSeries.labelled).filter fun q => p q.1 := by
  induction series with
  | nil => rfl
  | cons s series ih =>
    have hself : s.labelled.filter (fun q => p q.1) = if p s.container then s.labelled else [] := by
      rw [ContainerSeries.labelled, List.filter_map, Function.comp_def]
      split_ifs with hp
      · rw [List.filter_eq_self.mpr fun _ _ => hp]
      · rw [List.filter_eq_nil_iff.mpr fun _ _ => hp, List.map_nil]
    rw [List.flatMap_cons, List.filter_append, hself, ← ih, List.filter_cons]
    split_ifs with hp <;> rfl

/-- The query has an answer. -/
theorem exists_querySeries {db : MetricTables} {metricName : String}
    (h : validText metricName = true) (container : String) (since until_ : Time) :
    ∃ series, QueryMetricSeries db metricName container since until_ (some series) := by
  obtain ⟨rows, hperm, hsorted⟩ :=
    exists_sorted_asc (metricRows db metricName since until_) MetricRow.ts
  exact ⟨_, (if_pos h).mpr ⟨rows, _, hperm, hsorted, List.Perm.refl _, rfl⟩⟩

end Argus
