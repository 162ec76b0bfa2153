import Argus.Foundations.Grouping
import Mathlib.Algebra.BigOperators.Ring.List
import Mathlib.Algebra.Order.Field.Rat
import Mathlib.Data.String.Basic
import Mathlib.Tactic.FieldSimp
import Mathlib.Tactic.Ring

/-!
# The stacked chart

`mergeStacked` of the dashboard makes one row per minute of the series of several containers. It
puts the samples of a minute into cells by the name of the container, although the series come by
name and entity, so that two series with one name share a cell. `mergeStacked_iff` says when the
rows add up in spite of this.

Numbers are exact. How JavaScript reads and shows a time is a parameter.
-/

namespace Argus

open Foundations SortedMap

/-! ### Series -/

/-- `StackPoint`. -/
structure StackPoint where
  ts : String
  value : ℚ

/-- `StackSeries`. -/
structure StackSeries where
  container : String
  points : Option (List StackPoint)

/-- A point that is counted, with the name of its series and the start of its minute. -/
structure StackSample where
  container : String
  minute : ℤ
  value : ℚ

/-- `{ sum, n }`. -/
structure StackCell where
  sum : ℚ
  n : ℕ

/-- A property of a row. -/
inductive RowValue
  | text (s : String)
  | number (q : ℚ)
  deriving DecidableEq

/-- A row: `Record<string, string | number>`. -/
abbrev StackRow : Type := SortedMap String RowValue

/-- `buckets`. -/
abbrev Buckets : Type := SortedMap ℤ (SortedMap String StackCell)

/-- `cell.sum += value` and `cell.n += 1`. -/
def StackCell.add (cell : StackCell) (x : StackSample) : StackCell :=
  ⟨cell.sum + x.value, cell.n + 1⟩

/-- Count a sample in the cell of its container. -/
def addToRow (row : SortedMap String StackCell) (x : StackSample) : SortedMap String StackCell :=
  groupInto StackSample.container (fun _ => ⟨0, 0⟩) StackCell.add row x

/-- Count a sample in the row of its minute. -/
def addToBuckets (buckets : Buckets) (x : StackSample) : Buckets :=
  groupInto StackSample.minute (fun _ => ∅) addToRow buckets x

section Chart

variable (getTime : String → Option ℤ) (formatTime : ℤ → String) (transform : Option (ℚ → Option ℚ))

/-- What is counted of a point: nothing without a time or without a finite value. -/
def stackSampleOf (container : String) (p : StackPoint) : Option StackSample := do
  let ms ← getTime p.ts
  let value ← (transform.getD some) p.value
  some ⟨container, ms / 60000 * 60000, value⟩

/-- One round of the inner loop. -/
def addStackPoint (container : String) (buckets : Buckets) (p : StackPoint) : Buckets :=
  ((stackSampleOf getTime transform container p).map (addToBuckets buckets)).getD buckets

/-- The two loops. -/
def bucketsOf (series : List StackSeries) : Buckets :=
  series.foldl (fun buckets s =>
    (s.points.getD []).foldl (addStackPoint getTime transform s.container) buckets) ∅

/-- `out[name] = value`. A number that is assigned to `__proto__` is dropped. -/
def setProperty (out : StackRow) (name : String) (value : RowValue) : StackRow :=
  if name == "__proto__" then out else out.insert name value

/-- The mean of a cell, zero without a sample. -/
def cellMean : Option StackCell → ℚ
  | some cell => if 0 < cell.n then cell.sum / cell.n else 0
  | none => 0

/-- The row of a minute. -/
def rowOf (names : List String) (minute : ℤ) (cells : SortedMap String StackCell) : StackRow :=
  names.foldl (fun out name => setProperty out name (.number (cellMean (cells.get? name))))
    ((∅ : StackRow).insert "time" (.text (formatTime minute)))

/-- `mergeStacked`. -/
def mergeStacked (series : List StackSeries) : List StackRow :=
  let buckets := bucketsOf getTime transform series
  let names := series.map StackSeries.container
  buckets.keys.map fun minute =>
    rowOf formatTime names minute ((buckets.get? minute).getD ∅)

/-! ### What the loops collect -/

/-- The samples of a series. -/
def samplesOf (s : StackSeries) : List StackSample :=
  (s.points.getD []).filterMap (stackSampleOf getTime transform s.container)

/-- The values of a series in a minute. -/
def valuesIn (minute : ℤ) (s : StackSeries) : List ℚ :=
  ((samplesOf getTime transform s).filter fun x => x.minute = minute).map StackSample.value

/-- The loops group the samples by their minutes. -/
theorem bucketsOf_eq (series : List StackSeries) :
    bucketsOf getTime transform series = group StackSample.minute (fun _ => ∅) addToRow
      (series.flatMap (samplesOf getTime transform)) := by
  have hpoints : ∀ (container : String) (points : List StackPoint) (buckets : Buckets),
      points.foldl (addStackPoint getTime transform container) buckets =
        (points.filterMap (stackSampleOf getTime transform container)).foldl addToBuckets
          buckets := by
    intro container points
    induction points with
    | nil => exact fun buckets => rfl
    | cons p points ih =>
      intro buckets
      rw [List.foldl_cons, ih, addStackPoint, List.filterMap_cons]
      cases stackSampleOf getTime transform container p with
      | none => rfl
      | some x => rfl
  have hseries : ∀ buckets : Buckets, series.foldl (fun buckets s =>
      (s.points.getD []).foldl (addStackPoint getTime transform s.container) buckets) buckets =
        (series.flatMap (samplesOf getTime transform)).foldl addToBuckets buckets := by
    induction series with
    | nil => exact fun buckets => rfl
    | cons s series ih =>
      intro buckets
      rw [List.foldl_cons, ih, hpoints, List.flatMap_cons, List.foldl_append, samplesOf]
  exact hseries ∅

theorem container_of_mem_samplesOf {s : StackSeries} {x : StackSample}
    (h : x ∈ samplesOf getTime transform s) : x.container = s.container := by
  obtain ⟨p, -, hp⟩ := List.mem_filterMap.mp h
  simp only [stackSampleOf, Option.bind_eq_bind, Option.bind_eq_some_iff, Option.some.injEq] at hp
  obtain ⟨-, -, -, -, rfl⟩ := hp
  rfl

/-- The samples of a name in a minute are those of its series. -/
theorem valuesNamed_eq (series : List StackSeries) (minute : ℤ) (name : String) :
    (((series.flatMap (samplesOf getTime transform)).filter fun x => x.minute = minute).filter
      fun x => x.container = name).map StackSample.value =
        (series.filter fun s => s.container = name).flatMap
          (valuesIn getTime transform minute) := by
  induction series with
  | nil => rfl
  | cons s series ih =>
    rw [List.flatMap_cons, List.filter_append, List.filter_append, List.map_append, ih]
    by_cases hname : s.container = name
    · rw [List.filter_cons_of_pos (by simpa using hname), List.flatMap_cons]
      congr 2
      refine List.filter_eq_self.mpr fun x hx => decide_eq_true ?_
      exact (container_of_mem_samplesOf getTime transform (List.mem_of_mem_filter hx)).trans hname
    · rw [List.filter_cons_of_neg (by simpa using hname)]
      have hnone : (((samplesOf getTime transform s).filter fun x => x.minute = minute).filter
          fun x => x.container = name) = [] := by
        refine List.filter_eq_nil_iff.mpr fun x hx hc => ?_
        exact hname ((container_of_mem_samplesOf getTime transform
          (List.mem_of_mem_filter hx)).symm.trans (of_decide_eq_true hc))
      rw [hnone, List.map_nil, List.nil_append]

/-! ### Means -/

/-- The mean of a list, zero for none. -/
def meanOf (values : List ℚ) : ℚ := values.sum / values.length

/-- The values of all series of a name in a minute. -/
def pooledIn (series : List StackSeries) (minute : ℤ) (name : String) : List ℚ :=
  (series.filter fun s => s.container = name).flatMap (valuesIn getTime transform minute)

/-- A cell has the mean of all samples of its name. -/
theorem cellMean_buckets (series : List StackSeries) (minute : ℤ) (name : String) :
    cellMean ((((bucketsOf getTime transform series).get? minute).getD ∅).get? name) =
      meanOf (pooledIn getTime transform series minute name) := by
  have hcell : ∀ l : List StackSample, l.foldl StackCell.add ⟨0, 0⟩ =
      ⟨(l.map StackSample.value).sum, (l.map StackSample.value).length⟩ := by
    intro l
    induction l using List.reverseRecOn with
    | nil => rfl
    | append_singleton l x ih =>
      rw [List.foldl_append, ih, List.foldl_cons, List.foldl_nil, StackCell.add]
      simp
  have hrow : ((bucketsOf getTime transform series).get? minute).getD ∅ =
      group StackSample.container (fun _ => ⟨0, 0⟩) StackCell.add
        ((series.flatMap (samplesOf getTime transform)).filter fun x => x.minute = minute) := by
    rw [bucketsOf_eq, get?_group]
    split_ifs with hnone
    · rw [hnone]
      rfl
    · rfl
  rw [hrow, get?_group, pooledIn, ← valuesNamed_eq, meanOf]
  split_ifs with hnone
  · rw [hnone]
    simp [cellMean]
  · rw [hcell, cellMean, if_pos]
    rw [List.length_map]
    exact List.length_pos_of_ne_nil hnone

/-! ### Rows -/

/-- The number in a property, zero in a text. -/
def RowValue.toNumber : RowValue → ℚ
  | .text _ => 0
  | .number q => q

/-- The height of the stack: the sum of the values of the containers in a row. -/
def rowSum (row : StackRow) : ℚ := (row.values.map RowValue.toNumber).sum

/-- What a row has under a name. -/
theorem get?_rowOf (names : List String) (minute : ℤ) (cells : SortedMap String StackCell)
    (k : String) : (rowOf formatTime names minute cells).get? k =
      if k ∈ names ∧ k ≠ "__proto__" then some (.number (cellMean (cells.get? k)))
      else if k = "time" then some (.text (formatTime minute)) else none := by
  induction names using List.reverseRecOn with
  | nil =>
    rw [rowOf, List.foldl_nil, get?_insert, get?_empty]
    simp [eq_comm]
  | append_singleton names name ih =>
    have hstep : rowOf formatTime (names ++ [name]) minute cells = setProperty
        (rowOf formatTime names minute cells) name (.number (cellMean (cells.get? name))) := by
      rw [rowOf, List.foldl_append, List.foldl_cons, List.foldl_nil, rowOf]
    rw [hstep, setProperty]
    by_cases hproto : name = "__proto__"
    · rw [if_pos (beq_iff_eq.mpr hproto), ih]
      by_cases hk : k = name
      · simp [hk, hproto]
      · simp [hk]
    · rw [if_neg (by simpa using hproto), get?_insert]
      by_cases hk : name = k
      · simp [hk, hk ▸ hproto]
      · rw [if_neg hk, ih]
        simp [Ne.symm hk]

/-- The height of the stack is the sum over the names, without the one whose value is dropped. -/
theorem rowSum_rowOf (names : List String) (minute : ℤ) (cells : SortedMap String StackCell) :
    rowSum (rowOf formatTime names minute cells) = ∑ name ∈ names.toFinset,
      if name = "__proto__" then 0 else cellMean (cells.get? name) := by
  induction names using List.reverseRecOn with
  | nil => exact List.sum_singleton
  | append_singleton names name ih =>
    have hstep : rowOf formatTime (names ++ [name]) minute cells = setProperty
        (rowOf formatTime names minute cells) name (.number (cellMean (cells.get? name))) := by
      rw [rowOf, List.foldl_append, List.foldl_cons, List.foldl_nil, rowOf]
    have hnames : (names ++ [name]).toFinset = insert name names.toFinset := by
      rw [List.toFinset_append, List.toFinset_cons, List.toFinset_nil, Finset.union_comm]
      rfl
    rw [hstep, hnames, setProperty]
    by_cases hmem : name ∈ names
    -- the value of a name that was there is written again
    · rw [Finset.insert_eq_of_mem (List.mem_toFinset.mpr hmem), ← ih]
      split_ifs with hproto
      · rfl
      · refine congrArg rowSum (ext fun k => ?_)
        rw [get?_insert]
        split_ifs with hk
        · rw [get?_rowOf, ← hk, if_pos ⟨hmem, by simpa using hproto⟩]
        · rfl
    · rw [Finset.sum_insert (mt List.mem_toFinset.mp hmem), ← ih]
      by_cases hproto : name = "__proto__"
      · rw [if_pos (beq_iff_eq.mpr hproto), if_pos hproto, zero_add]
      · have hsum := sum_values_insert (f := RowValue.toNumber)
          (rowOf formatTime names minute cells) name (.number (cellMean (cells.get? name)))
        have hold : (((rowOf formatTime names minute cells).get? name).toList.map
            RowValue.toNumber).sum = 0 := by
          rw [get?_rowOf, if_neg (fun h => hmem h.1)]
          split_ifs
          · exact List.sum_singleton
          · rfl
        rw [hold, zero_add] at hsum
        rw [if_neg (by simpa using hproto), if_neg hproto]
        exact hsum

/-- A row shows its minute unless a container takes the place. -/
theorem time_rowOf (names : List String) (minute : ℤ) (cells : SortedMap String StackCell) :
    (rowOf formatTime names minute cells).get? "time" = some (.text (formatTime minute)) ↔
      "time" ∉ names := by
  rw [get?_rowOf]
  by_cases h : "time" ∈ names
  · simp [h]
  · simp [h]

/-! ### When the rows add up -/

/-- What the mean of a series loses in a minute: as much as the samples of other series of its name
have of all samples of the name, and all of it where the value is dropped. -/
def poolingLoss (series : List StackSeries) (minute : ℤ) (s : StackSeries) : ℚ :=
  let n : ℚ := (valuesIn getTime transform minute s).length
  let named : ℚ := (pooledIn getTime transform series minute s.container).length
  if s.container = "__proto__" then meanOf (valuesIn getTime transform minute s)
  else meanOf (valuesIn getTime transform minute s) * ((named - n) / named)

/-- The sum of the means of the series with a sample in a minute. -/
def stackHeight (series : List StackSeries) (minute : ℤ) : ℚ :=
  ((series.filter fun s => valuesIn getTime transform minute s ≠ []).map fun s =>
    meanOf (valuesIn getTime transform minute s)).sum

/-- Some series has a sample in a minute. -/
def SampledIn (series : List StackSeries) (minute : ℤ) : Prop :=
  ∃ s ∈ series, valuesIn getTime transform minute s ≠ []

/-- A row shows its minute, and its values add up to the means of the series. -/
structure RowRight (series : List StackSeries) (minute : ℤ) (row : StackRow) : Prop where
  time : row.get? "time" = some (.text (formatTime minute))
  height : rowSum row = stackHeight getTime transform series minute

/-- There is a right row for every minute with a sample, in the order of time. -/
def StacksUp (series : List StackSeries) (rows : List StackRow) : Prop :=
  ∃ minutes : List ℤ, minutes.Pairwise (· < ·) ∧
    (∀ minute, minute ∈ minutes ↔ SampledIn getTime transform series minute) ∧
    List.Forall₂ (RowRight getTime formatTime transform series) minutes rows

/-- In every minute with a sample no series takes the place of the time, and what the means lose
cancels out. -/
def PoolingHarmless (series : List StackSeries) : Prop :=
  ∀ minute, SampledIn getTime transform series minute →
    (∀ s ∈ series, s.container ≠ "time") ∧
      (series.map (poolingLoss getTime transform series minute)).sum = 0

section Sums

variable {getTime formatTime transform} {series : List StackSeries} {minute : ℤ}

/-- The means of all series, where those without a sample have none. -/
theorem stackHeight_eq : stackHeight getTime transform series minute =
    (series.map fun s => meanOf (valuesIn getTime transform minute s)).sum := by
  rw [stackHeight]
  induction series with
  | nil => rfl
  | cons s series ih =>
    by_cases hnone : valuesIn getTime transform minute s = []
    · rw [List.filter_cons_of_neg (by simpa using hnone), ih, List.map_cons, List.sum_cons, hnone,
        meanOf, List.sum_nil, zero_div, zero_add]
    · rw [List.filter_cons_of_pos (by simpa using hnone), List.map_cons, List.sum_cons, ih,
        List.map_cons, List.sum_cons]

/-- What is left of the mean of a series is its part in the mean of its name. -/
theorem meanOf_eq_add_loss {s : StackSeries} (hs : s ∈ series) :
    meanOf (valuesIn getTime transform minute s) =
      (if s.container = "__proto__" then 0 else (valuesIn getTime transform minute s).sum /
        (pooledIn getTime transform series minute s.container).length) +
      poolingLoss getTime transform series minute s := by
  rw [poolingLoss]
  split_ifs with hproto
  · rw [zero_add]
  rcases eq_or_ne (valuesIn getTime transform minute s) [] with hnone | hsome
  · rw [hnone, meanOf, List.sum_nil, zero_div, zero_div, zero_mul, add_zero]
  have hn : ((valuesIn getTime transform minute s).length : ℚ) ≠ 0 :=
    Nat.cast_ne_zero.mpr (List.length_pos_of_ne_nil hsome).ne'
  have hnamed : ((pooledIn getTime transform series minute s.container).length : ℚ) ≠ 0 := by
    obtain ⟨v, hv⟩ := List.exists_mem_of_ne_nil _ hsome
    have hmem : v ∈ pooledIn getTime transform series minute s.container :=
      List.mem_flatMap.mpr ⟨s, List.mem_filter.mpr ⟨hs, decide_eq_true rfl⟩, hv⟩
    exact Nat.cast_ne_zero.mpr (List.length_pos_of_mem hmem).ne'
  rw [meanOf]
  field_simp
  ring

/-- The height of a row and what the means lost are together the sum of the means. -/
theorem rowSum_add_loss : rowSum (rowOf formatTime (series.map StackSeries.container) minute
      (((bucketsOf getTime transform series).get? minute).getD ∅)) +
        (series.map (poolingLoss getTime transform series minute)).sum =
      stackHeight getTime transform series minute := by
  set share : StackSeries → ℚ := fun s => if s.container = "__proto__" then 0 else
    (valuesIn getTime transform minute s).sum /
      (pooledIn getTime transform series minute s.container).length with hshare
  -- the mean of a name is the sum of the parts of its series
  have hname : ∀ name, (if name = "__proto__" then 0 else
      cellMean ((((bucketsOf getTime transform series).get? minute).getD ∅).get? name)) =
        ((series.filter fun s => s.container = name).map share).sum := by
    intro name
    have hparts : ∀ s ∈ series.filter fun s => s.container = name, share s =
        if name = "__proto__" then 0 else (valuesIn getTime transform minute s).sum /
          (pooledIn getTime transform series minute name).length := by
      intro s hs
      obtain rfl := of_decide_eq_true (List.mem_filter.mp hs).2
      rfl
    rw [List.map_congr_left hparts]
    split_ifs with hproto
    · simp
    · rw [cellMean_buckets, meanOf]
      simp only [div_eq_mul_inv]
      rw [List.sum_map_mul_right, pooledIn, List.flatMap_def, List.sum_flatten, List.map_map]
      rfl
  have hsum : rowSum (rowOf formatTime (series.map StackSeries.container) minute
      (((bucketsOf getTime transform series).get? minute).getD ∅)) = (series.map share).sum := by
    rw [rowSum_rowOf, Finset.sum_congr rfl fun name _ => hname name]
    exact sum_fibers _ fun s hs => List.mem_toFinset.mpr (List.mem_map_of_mem hs)
  rw [hsum, stackHeight_eq, ← List.sum_map_add]
  exact congrArg List.sum (List.map_congr_left fun s hs => (meanOf_eq_add_loss hs).symm)

/-- A row is right when it shows its time and nothing is lost in its minute. -/
theorem rowRight_iff : RowRight getTime formatTime transform series minute
      (rowOf formatTime (series.map StackSeries.container) minute
        (((bucketsOf getTime transform series).get? minute).getD ∅)) ↔
    (∀ s ∈ series, s.container ≠ "time") ∧
      (series.map (poolingLoss getTime transform series minute)).sum = 0 := by
  have hnames : "time" ∉ series.map StackSeries.container ↔ ∀ s ∈ series, s.container ≠ "time" := by
    simp [List.mem_map]
  have hheight := @rowSum_add_loss getTime formatTime transform series minute
  constructor
  · rintro ⟨htime, hrow⟩
    refine ⟨hnames.mp ((time_rowOf formatTime _ _ _).mp htime), ?_⟩
    rw [hrow] at hheight
    exact add_eq_left.mp hheight
  · rintro ⟨htime, hloss⟩
    rw [hloss, add_zero] at hheight
    exact ⟨(time_rowOf formatTime _ _ _).mpr (hnames.mpr htime), hheight⟩

/-- The buckets are those of the minutes with a sample. -/
theorem mem_keys_buckets : minute ∈ (bucketsOf getTime transform series).keys ↔
    SampledIn getTime transform series minute := by
  rw [bucketsOf_eq, mem_keys_group]
  constructor
  · rintro ⟨x, hx, rfl⟩
    obtain ⟨s, hs, hx⟩ := List.mem_flatMap.mp hx
    refine ⟨s, hs, List.ne_nil_of_mem (List.mem_map_of_mem (List.mem_filter.mpr ⟨hx, ?_⟩))⟩
    exact decide_eq_true rfl
  · rintro ⟨s, hs, hne⟩
    obtain ⟨v, hv⟩ := List.exists_mem_of_ne_nil _ hne
    obtain ⟨x, hx, -⟩ := List.mem_map.mp hv
    obtain ⟨hx, hminute⟩ := List.mem_filter.mp hx
    exact ⟨x, List.mem_flatMap.mpr ⟨s, hs, hx⟩, of_decide_eq_true hminute⟩

/-- The rows are right in every minute, or they do not stack up. -/
theorem stacksUp_iff : StacksUp getTime formatTime transform series
      (mergeStacked getTime formatTime transform series) ↔
    PoolingHarmless getTime transform series := by
  have hrows : ∀ minutes : List ℤ, List.Forall₂ (RowRight getTime formatTime transform series)
      minutes (minutes.map fun minute => rowOf formatTime (series.map StackSeries.container) minute
        (((bucketsOf getTime transform series).get? minute).getD ∅)) ↔
      ∀ minute ∈ minutes, (∀ s ∈ series, s.container ≠ "time") ∧
        (series.map (poolingLoss getTime transform series minute)).sum = 0 := by
    intro minutes
    rw [List.forall₂_map_right_iff, List.forall₂_same]
    exact forall₂_congr fun _ _ => rowRight_iff
  have hsorted := (bucketsOf getTime transform series).sorted_keys
  constructor
  · rintro ⟨minutes, hminutes, hmem, hall⟩ minute hminute
    -- the minutes with a sample come in one order only
    have hkeys : minutes = (bucketsOf getTime transform series).keys := by
      refine List.Perm.eq_of_pairwise (fun _ _ _ _ h h' => absurd h (lt_asymm h')) hminutes hsorted
        ((List.perm_ext_iff_of_nodup (hminutes.imp fun h => h.ne)
          (hsorted.imp fun h => h.ne)).mpr fun m => ?_)
      rw [hmem, mem_keys_buckets]
    subst hkeys
    exact (hrows _).mp hall minute ((hmem minute).mpr hminute)
  · intro hharmless
    refine ⟨_, hsorted, fun minute => mem_keys_buckets, (hrows _).mpr fun minute hminute => ?_⟩
    exact hharmless minute (mem_keys_buckets.mp hminute)

/-- Series with their points in another order have the same rows. -/
theorem mergeStacked_eq_of_perm {series' : List StackSeries}
    (h : List.Forall₂ (fun s s' => s.container = s'.container ∧
      (s.points.getD []).Perm (s'.points.getD [])) series series') :
    mergeStacked getTime formatTime transform series' =
      mergeStacked getTime formatTime transform series := by
  have hnames : series.map StackSeries.container = series'.map StackSeries.container := by
    induction h with
    | nil => rfl
    | cons hs _ ih => rw [List.map_cons, List.map_cons, hs.1, ih]
  have hsamples : (series.flatMap (samplesOf getTime transform)).Perm
      (series'.flatMap (samplesOf getTime transform)) := by
    induction h with
    | nil => exact .refl _
    | cons hs _ ih =>
      rw [List.flatMap_cons, List.flatMap_cons]
      refine List.Perm.append ?_ (ih (List.cons.inj hnames).2)
      rw [samplesOf, samplesOf, hs.1]
      exact hs.2.filterMap _
  have hcell : ∀ (cell : StackCell) (x y : StackSample),
      (cell.add x).add y = (cell.add y).add x := by
    intro cell x y
    simp only [StackCell.add]
    rw [add_right_comm]
  have hbuckets : bucketsOf getTime transform series = bucketsOf getTime transform series' := by
    rw [bucketsOf_eq, bucketsOf_eq]
    exact group_perm (fun row x y => groupInto_comm hcell row x y) hsamples
  rw [mergeStacked, mergeStacked, hnames, hbuckets]

end Sums

/-- **When the stacked chart adds up.** The rows are those of the minutes with a sample, in the
order of time and with the means of the series in each as their height, and do not depend on the
order of the points of a series, if and only if no series is named `time` and in every minute
nothing is lost on the whole: a mean loses the part that other series of its name have in their
samples, and all of it under the name `__proto__`. -/
theorem mergeStacked_iff (series : List StackSeries) :
    (StacksUp getTime formatTime transform series
        (mergeStacked getTime formatTime transform series) ∧
      ∀ series' : List StackSeries,
        List.Forall₂ (fun s s' => s.container = s'.container ∧
          (s.points.getD []).Perm (s'.points.getD [])) series series' →
        mergeStacked getTime formatTime transform series' =
          mergeStacked getTime formatTime transform series) ↔
      PoolingHarmless getTime transform series := by
  rw [stacksUp_iff]
  exact and_iff_left fun series' h => mergeStacked_eq_of_perm h

end Chart

/-- **Two hosts.** A container of the name `web` runs on each of two hosts, with a sample of 10 and
one of 20 in a minute: the stack is 15 high and not 30. -/
theorem mergeStacked_pools_hosts :
    ¬ ∀ (getTime : String → Option ℤ) (formatTime : ℤ → String)
      (transform : Option (ℚ → Option ℚ)) (series : List StackSeries),
      StacksUp getTime formatTime transform series
        (mergeStacked getTime formatTime transform series) := by
  intro hall
  have hstacks := hall (fun _ => some 10000) (fun _ => "00:00") none
    [⟨"web", some [⟨"1970-01-01T00:00:10Z", 10⟩]⟩, ⟨"web", some [⟨"1970-01-01T00:00:10Z", 20⟩]⟩]
  have hharmless := stacksUp_iff.mp hstacks 0 ⟨_, List.mem_cons_self, by decide +kernel⟩
  exact absurd hharmless.2 (by decide +kernel)

end Argus
