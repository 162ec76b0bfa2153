import Argus.Hub.Pages
import Argus.Store.LogFilters
import Argus.Store.Series
import Argus.Store.Workloads

/-!
# Groups of workloads

A group selects workloads by their stack, by their service or by their names. The log search and
the series take a group: `resolveGroupContainers` makes it the names of the containers that are its
members among the workloads of the last hour, and the two handlers restrict their answers to these
names, each in its own way. The log search hands them to `logWhere`, for which no names are no
restriction; the series are compared by the name that they go by, which is the service for the
metrics derived from HTTP logs.

`groupLogs_iff` and `groupSeries_iff` say when the answers are those of the members.
-/

namespace Argus

open Foundations

/-! ### Members -/

/-- The selector of a `model.WorkloadGroup`. -/
structure WorkloadGroup where
  kind : String
  labelValue : String
  containers : List String

/-- `labelEquals`. -/
def labelEquals (w : WorkloadSnapshot) (key value : String) : Bool :=
  if value == "" then false
  else if w.labels.get key == value then true
  else if key == "stack" then w.stack == value
  else if key == "service" then w.service == value
  else false

/-- `groups.Matches`. -/
def Matches (w : WorkloadSnapshot) (g : WorkloadGroup) : Bool :=
  if g.kind == "stack" then labelEquals w "stack" g.labelValue
  else if g.kind == "service" then labelEquals w "service" g.labelValue
  else if g.kind == "custom" then g.containers.any fun c => c == w.container
  else false

/-- `groups.FilterWorkloads`. -/
def FilterWorkloads (all : List WorkloadSnapshot) (g : WorkloadGroup) : List WorkloadSnapshot :=
  all.filter fun w => Matches w g

/-- The names of the members of a group. -/
def memberNames (workloads : List WorkloadSnapshot) (g : WorkloadGroup) : List String :=
  (FilterWorkloads workloads g).map WorkloadSnapshot.container

/-- An error of the store: `ErrNotFound`, or another one. -/
inductive StoreError
  | notFound
  | failed

/-- The arguments of `http.Error`. -/
structure HttpError where
  status : ℕ
  text : String

/-- How the two handlers answer an error of `resolveGroupContainers`. -/
def StoreError.http : StoreError → HttpError
  | .notFound => ⟨404, "group not found"⟩
  | .failed => ⟨500, "store error"⟩

/-- How they answer an error of a query. -/
def queryAnswer {α : Type} (result : Option α) : Except HttpError α :=
  result.elim (.error ⟨500, "store error"⟩) .ok

/-- The tables that a request with a group reads. -/
structure GroupStore where
  groups : SortedMap String WorkloadGroup
  metrics : MetricTables
  logs : List LogRow

/-- The start of the last hour. -/
def lastHour (now : Time) : Time := now.add (-3600000000000)

/-- `resolveGroupContainers`, where the workloads of the last hour are `workloads`. -/
def resolveGroupContainers (groups : SortedMap String WorkloadGroup)
    (workloads : List WorkloadSnapshot) (groupID : String) : Except StoreError (List String) :=
  if groupID = "" then .ok []
  else if validText groupID = false then .error .failed
  else
    match groups.get? groupID with
    | none => .error .notFound
    | some g => .ok (memberNames workloads g)

theorem resolveGroupContainers_of_get? {groups : SortedMap String WorkloadGroup} {groupID : String}
    {g : WorkloadGroup} (hgroup : groupID ≠ "") (hvalid : validText groupID = true)
    (h : groups.get? groupID = some g) (workloads : List WorkloadSnapshot) :
    resolveGroupContainers groups workloads groupID = .ok (memberNames workloads g) := by
  rw [resolveGroupContainers, if_neg hgroup, hvalid, if_neg (by decide), h]

theorem resolveGroupContainers_of_not_valid {groups : SortedMap String WorkloadGroup}
    {groupID : String} (hgroup : groupID ≠ "") (hvalid : validText groupID = false)
    (workloads : List WorkloadSnapshot) :
    resolveGroupContainers groups workloads groupID = .error .failed := by
  rw [resolveGroupContainers, if_neg hgroup, if_pos hvalid]

/-! ### The log search -/

/-- The filter of a request with a group. -/
def groupFilter (filter : LogSearchFilter) (names : List String) : LogSearchFilter :=
  { filter with containers := names }

/-- The possible results of `handleSearchLogs` for a request with `group`. -/
def handleGroupLogs (rt : Runtime) (store : GroupStore) (workloads : List WorkloadSnapshot)
    (filter : LogSearchFilter) (groupID rawLimit rawOffset : String)
    (out : Except HttpError (ListPage LogEntry)) : Prop :=
  match resolveGroupContainers store.groups workloads groupID with
  | .error err => out = .error err.http
  | .ok names => ∃ page, out = queryAnswer page ∧
      handleSearchLogs rt store.logs (if groupID = "" then filter else groupFilter filter names)
        rawLimit rawOffset page

/-- Every entry that is returned or counted for a group is one of a member's. -/
def GroupLogsHonoured (rt : Runtime) (store : GroupStore) (now : Time) (filter : LogSearchFilter)
    (groupID rawLimit rawOffset : String) : Prop :=
  groupID ≠ "" → ∀ g, store.groups.get? groupID = some g → ∀ workloads,
    ListWorkloads store.metrics (lastHour now) workloads → ∀ page,
      handleGroupLogs rt store workloads filter groupID rawLimit rawOffset (.ok page) →
        (∀ e ∈ page.entries, lastPart e.entityUID ∈ memberNames workloads g) ∧
        page.total = store.logs.countP fun r =>
          decide (lastPart r.entityUID ∈ memberNames workloads g) &&
            logWhere rt (groupFilter filter (memberNames workloads g)) r

/-- A group has members, or nothing meets the rest of the filter; and what meets it and is found by
the name of a member is an entry of a member. -/
structure GroupFound (rt : Runtime) (logs : List LogRow) (filter : LogSearchFilter)
    (names : List String) : Prop where
  empty : names = [] → ∀ r ∈ logs, logWhere rt (groupFilter filter []) r = false
  wild : ∀ r ∈ logs, logWhere rt (groupFilter filter []) r = true → ∀ name ∈ names,
    like ("%:" ++ name) r.entityUID = true → lastPart r.entityUID ∈ names

/-- The rest of a filter and the restriction to names. -/
theorem logWhere_groupFilter {rt : Runtime} {filter : LogSearchFilter} {names : List String}
    {r : LogRow} : logWhere rt (groupFilter filter names) r =
      (logWhere rt (groupFilter filter []) r &&
        (names.isEmpty || names.any fun c => like ("%:" ++ c) r.entityUID)) := by
  simp [logWhere, groupFilter]

/-- All that is found is of members, or some of it is not. -/
theorem found_iff {rt : Runtime} {logs : List LogRow} {filter : LogSearchFilter}
    {names : List String} : (∀ r ∈ logs, logWhere rt (groupFilter filter names) r = true →
      lastPart r.entityUID ∈ names) ↔ GroupFound rt logs filter names := by
  constructor
  · intro h
    constructor
    · rintro rfl r hr
      by_contra hrest
      exact absurd (h r hr (Bool.eq_true_of_not_eq_false hrest)) List.not_mem_nil
    · intro r hr hrest name hname hlike
      refine h r hr ?_
      rw [logWhere_groupFilter, hrest, Bool.true_and,
        List.isEmpty_eq_false_iff.mpr (List.ne_nil_of_mem hname), Bool.false_or, List.any_eq_true]
      exact ⟨name, hname, hlike⟩
  · intro h r hr hfound
    rw [logWhere_groupFilter, Bool.and_eq_true] at hfound
    obtain ⟨hrest, hfound⟩ := hfound
    by_cases hnames : names = []
    · exact absurd hrest (by rw [h.empty hnames r hr]; decide)
    · rw [List.isEmpty_eq_false_iff.mpr hnames, Bool.false_or, List.any_eq_true] at hfound
      obtain ⟨name, hname, hlike⟩ := hfound
      exact h.wild r hr hrest name hname hlike

/-- Names without special characters and without colons find what they should. -/
theorem GroupFound.of_plain {rt : Runtime} {logs : List LogRow} {filter : LogSearchFilter}
    {names : List String}
    (h : ∀ name ∈ names, (∀ c ∈ name.toList, isPlain c = true) ∧ ':' ∉ name.toList)
    (hempty : names = [] → ∀ r ∈ logs, logWhere rt (groupFilter filter []) r = false) :
    GroupFound rt logs filter names := by
  refine ⟨hempty, fun r _ _ name hname hlike => ?_⟩
  obtain ⟨hplain, hcolon⟩ := h name hname
  have hresult := like_of_likeResult (@containerLike_of_plain_name _ r.entityUID hplain hcolon)
  rw [hlike] at hresult
  rw [(of_decide_eq_true hresult.symm).2]
  exact hname

/-- A search of a group counts what its filter finds, and returns some of it. -/
theorem page_of_groupLogs {rt : Runtime} {logs : List LogRow} {filter : LogSearchFilter}
    {rawLimit rawOffset : String} {page : ListPage LogEntry}
    (h : handleSearchLogs rt logs filter rawLimit rawOffset (some page)) :
    page.total = logs.countP (logWhere rt filter) ∧
      ∀ e ∈ page.entries, ∃ r ∈ logs, logWhere rt filter r = true ∧ e = r.scan := by
  obtain ⟨-, htotal, sorted, hsorted, hentries⟩ := page_of_handleSearchLogs h
  refine ⟨htotal, fun e he => ?_⟩
  rw [hentries] at he
  obtain ⟨r, hr, rfl⟩ := List.mem_map.mp he
  have hmem := hsorted.1.mem_iff.mp (List.mem_of_mem_drop (List.mem_of_mem_take hr))
  obtain ⟨hlogs, hwhere⟩ := List.mem_filter.mp hmem
  exact ⟨r, hlogs, hwhere, rfl⟩

/-- A search for a known group is one for the names of its members. -/
theorem handleGroupLogs_iff {rt : Runtime} {store : GroupStore} {groupID : String}
    {g : WorkloadGroup} (hgroup : groupID ≠ "") (hvalid : validText groupID = true)
    (hg : store.groups.get? groupID = some g) {workloads : List WorkloadSnapshot}
    {filter : LogSearchFilter} {rawLimit rawOffset : String} {page : ListPage LogEntry} :
    handleGroupLogs rt store workloads filter groupID rawLimit rawOffset (.ok page) ↔
      handleSearchLogs rt store.logs (groupFilter filter (memberNames workloads g)) rawLimit
        rawOffset (some page) := by
  rw [handleGroupLogs, resolveGroupContainers_of_get? hgroup hvalid hg]
  simp only [if_neg hgroup]
  constructor
  · rintro ⟨answer, heq, hanswer⟩
    cases answer with
    | none => exact absurd heq (by simp [queryAnswer])
    | some page' =>
      obtain rfl := Except.ok.inj heq
      exact hanswer
  · exact fun h => ⟨some page, rfl, h⟩

/-- A count is that of the members' entries if and only if there are no others. -/
theorem countP_and_iff {ρ : Type} {p q : ρ → Bool} {l : List ρ} :
    l.countP p = (l.countP fun r => q r && p r) ↔ ∀ r ∈ l, p r = true → q r = true := by
  rw [← List.countP_filter, List.countP_eq_length_filter, eq_comm, List.countP_eq_length]
  simp only [List.mem_filter, and_imp]

/-- **Key result.** The log search returns and counts for a group only entries of members if and
only if the group has members or nothing meets the rest of the filter, and the names of the members
find no other containers, whatever the workloads of the last hour are listed as. -/
theorem groupLogs_iff (rt : Runtime) (store : GroupStore) (now : Time) (filter : LogSearchFilter)
    (groupID rawLimit rawOffset : String) :
    GroupLogsHonoured rt store now filter groupID rawLimit rawOffset ↔
      (groupID ≠ "" → validText groupID = true → ∀ g, store.groups.get? groupID = some g →
        ∀ workloads, ListWorkloads store.metrics (lastHour now) workloads →
          logArgsValid rt (groupFilter filter (memberNames workloads g)) = true →
            GroupFound rt store.logs filter (memberNames workloads g)) := by
  constructor
  · intro h hgroup hvalid g hg workloads hworkloads hargs
    obtain ⟨page, hpage⟩ := exists_searchLogs store.logs hargs rawLimit rawOffset
    obtain ⟨-, htotal⟩ :=
      h hgroup g hg workloads hworkloads page ((handleGroupLogs_iff hgroup hvalid hg).mpr hpage)
    rw [(page_of_groupLogs hpage).1, countP_and_iff] at htotal
    exact found_iff.mp fun r hr hfound => of_decide_eq_true (htotal r hr hfound)
  · intro h hgroup g hg workloads hworkloads page hpage
    have hvalid : validText groupID = true := by
      by_contra hnot
      rw [handleGroupLogs, resolveGroupContainers_of_not_valid hgroup
        (Bool.eq_false_iff.mpr hnot)] at hpage
      exact absurd hpage (by simp)
    rw [handleGroupLogs_iff hgroup hvalid hg] at hpage
    have hfound := found_iff.mpr
      (h hgroup hvalid g hg workloads hworkloads (page_of_handleSearchLogs hpage).1)
    obtain ⟨htotal, hentries⟩ := page_of_groupLogs hpage
    refine ⟨fun e he => ?_, ?_⟩
    · obtain ⟨r, hr, hwhere, rfl⟩ := hentries e he
      exact hfound r hr hwhere
    · rw [htotal, countP_and_iff]
      exact fun r hr hwhere => decide_eq_true (hfound r hr hwhere)

/-- A group of one container, in a store with one log entry and the latest metrics `metrics`. -/
def groupStore (container : String) (metrics : MetricTables) : GroupStore where
  groups := (∅ : SortedMap String WorkloadGroup).insert "g" ⟨"custom", "", [container]⟩
  metrics := metrics
  logs := [bareRow "" "docker:h:api"]

/-- A group whose only container is gone is answered with the entries of another one. -/
theorem gone_group_unrestricted : ¬ ∀ (rt : Runtime) (store : GroupStore) (now : Time)
    (filter : LogSearchFilter) (groupID rawLimit rawOffset : String),
    GroupLogsHonoured rt store now filter groupID rawLimit rawOffset := by
  intro h
  have hworkloads : ListWorkloads MetricTables.empty (lastHour ⟨0⟩) [] :=
    ⟨[], ⟨List.Perm.refl _, List.Pairwise.nil⟩, List.Perm.refl _⟩
  have hargs : logArgsValid asciiRuntime (groupFilter (containerFilter "") []) = true := by
    decide +kernel
  obtain ⟨page, hpage⟩ :=
    exists_searchLogs (groupStore "gone" MetricTables.empty).logs hargs "" ""
  have hanswer : handleGroupLogs asciiRuntime (groupStore "gone" MetricTables.empty) []
      (containerFilter "") "g" "" "" (.ok page) :=
    (handleGroupLogs_iff (by decide) (by decide) rfl).mpr hpage
  obtain ⟨-, htotal⟩ := h asciiRuntime (groupStore "gone" MetricTables.empty) ⟨0⟩
    (containerFilter "") "g" "" "" (by decide) _ rfl [] hworkloads page hanswer
  have htotal := countP_and_iff.mp ((page_of_groupLogs hpage).1.symm.trans htotal)
  have hall : logWhere asciiRuntime (groupFilter (containerFilter "") [])
      (bareRow "" "docker:h:api") = true := by decide +kernel
  exact absurd (htotal _ (List.mem_singleton_self _) hall) (by decide)

/-! ### The series of a metric -/

/-- The possible results of `handleMetricSeries` for a request with a window. -/
def handleMetricSeries (store : GroupStore) (workloads : List WorkloadSnapshot)
    (metric container groupID : String) (since until_ : Time)
    (out : Except HttpError (List ContainerSeries)) : Prop :=
  if metric = "" then out = .error ⟨400, "metric required"⟩
  else ∃ series, QueryMetricSeries store.metrics metric container since until_ series ∧ out = do
    let series ← queryAnswer series
    if groupID = "" then pure series
    else
      let names ← (resolveGroupContainers store.groups workloads groupID).mapError StoreError.http
      pure (series.filter fun s => names.contains s.container)

/-- The container among the labels of a row. -/
def MetricRow.container (r : MetricRow) : String := (Labels.unmarshal r.labelsJSON).get "container"

/-- The name of the series of a row. -/
def MetricRow.series (metricName : String) (r : MetricRow) : String :=
  seriesName metricName (Labels.unmarshal r.labelsJSON) r.entityUID

/-- The points that are returned for a group are those of its members in the window. -/
def GroupSeriesHonoured (store : GroupStore) (now : Time) (metric groupID : String)
    (since until_ : Time) : Prop :=
  groupID ≠ "" → ∀ g, store.groups.get? groupID = some g → ∀ workloads,
    ListWorkloads store.metrics (lastHour now) workloads → ∀ series,
      handleMetricSeries store workloads metric "" groupID since until_ (.ok series) →
        (series.flatMap ContainerSeries.labelled).Perm
          (((store.metrics.points.filter fun r => r.metricName == metric).filter fun r =>
            within since until_ r.ts && decide (r.container ∈ memberNames workloads g)).map
              (MetricRow.labelled metric))

/-- A point that goes by the name of a member is one of a member, and the other way round, as far as
it is in the window, and the texts of the times decide on the window as the times do. -/
structure SeriesOfMember (metric : String) (names : List String) (since until_ : Time)
    (r : MetricRow) : Prop where
  window : r.series metric ∈ names → r.container ∈ names →
    inWindow since until_ r.ts = within since until_ r.ts
  renamed : r.container ∈ names → r.series metric ∉ names → within since until_ r.ts = false
  namesake : r.series metric ∈ names → r.container ∉ names → inWindow since until_ r.ts = false

theorem seriesOfMember_iff {metric : String} {names : List String} {since until_ : Time}
    {r : MetricRow} : SeriesOfMember metric names since until_ r ↔
      (inWindow since until_ r.ts && decide (r.series metric ∈ names)) =
        (within since until_ r.ts && decide (r.container ∈ names)) := by
  constructor
  · rintro ⟨hwindow, hrenamed, hnamesake⟩
    by_cases hs : r.series metric ∈ names <;> by_cases hc : r.container ∈ names
    · simp [hs, hc, hwindow hs hc]
    · simp [hs, hc, hnamesake hs hc]
    · simp [hs, hc, hrenamed hc hs]
    · simp [hs, hc]
  · intro h
    exact ⟨fun hs hc => by simpa [hs, hc] using h, fun hc hs => by simpa [hs, hc] using h.symm,
      fun hs hc => by simpa [hs, hc] using h⟩

/-- Two selections of a list are the same up to order, under a map that tells how the first one
decides, if and only if they agree on the list. -/
theorem map_filter_perm_iff {ρ σ : Type} {f : ρ → σ} {p q : ρ → Bool} (p' : σ → Bool)
    (hp : ∀ r, p r = p' (f r)) {l : List ρ} :
    ((l.filter p).map f).Perm ((l.filter q).map f) ↔ ∀ r ∈ l, p r = q r := by
  constructor
  · intro h
    have hsub : ∀ r ∈ l, q r = true → p r = true := by
      intro r hr hq
      have hmem := h.mem_iff.mpr (List.mem_map_of_mem (List.mem_filter.mpr ⟨hr, hq⟩))
      obtain ⟨r', hr', heq⟩ := List.mem_map.mp hmem
      rw [hp, ← heq, ← hp]
      exact (List.mem_filter.mp hr').2
    have hlength := h.length_eq
    rw [List.length_map, List.length_map, ← List.countP_eq_length_filter,
      ← List.countP_eq_length_filter] at hlength
    have hcount : l.countP p = l.countP fun r => q r && p r := by
      rw [hlength]
      exact List.countP_congr fun r hr => by
        cases hq : q r with
        | true => simp [hsub r hr hq]
        | false => simp
    intro r hr
    refine Bool.eq_iff_iff.mpr ⟨countP_and_iff.mp hcount r hr, hsub r hr⟩
  · intro h
    rw [List.filter_congr h]

/-- The series of a known group are those that go by the names of its members. -/
theorem handleMetricSeries_iff {store : GroupStore} {groupID metric : String} {g : WorkloadGroup}
    (hgroup : groupID ≠ "") (hvalid : validText groupID = true)
    (hg : store.groups.get? groupID = some g) {workloads : List WorkloadSnapshot}
    {since until_ : Time} {series : List ContainerSeries} :
    handleMetricSeries store workloads metric "" groupID since until_ (.ok series) ↔
      metric ≠ "" ∧ ∃ all, QueryMetricSeries store.metrics metric "" since until_ (some all) ∧
        series = all.filter fun s => decide (s.container ∈ memberNames workloads g) := by
  have hnames := resolveGroupContainers_of_get? hgroup hvalid hg workloads
  rw [handleMetricSeries]
  split_ifs with hmetric
  · exact ⟨fun h => absurd h (by simp), fun h => absurd hmetric h.1⟩
  constructor
  · rintro ⟨result, hquery, hout⟩
    cases result with
    | none => exact absurd hout (by simp [queryAnswer, bind, Except.bind])
    | some all =>
      rw [queryAnswer, Option.elim_some, hnames] at hout
      refine ⟨hmetric, all, hquery, ?_⟩
      simpa [bind, Except.bind, Except.mapError, pure, Except.pure, hgroup] using hout
  · rintro ⟨-, all, hquery, rfl⟩
    refine ⟨some all, hquery, ?_⟩
    rw [queryAnswer, Option.elim_some, hnames]
    simp [bind, Except.bind, Except.mapError, pure, Except.pure]

/-- Only a valid group is answered. -/
theorem valid_of_series {store : GroupStore} {groupID metric container : String}
    (hgroup : groupID ≠ "") {workloads : List WorkloadSnapshot} {since until_ : Time}
    {series : List ContainerSeries}
    (h : handleMetricSeries store workloads metric container groupID since until_ (.ok series)) :
    validText groupID = true := by
  by_contra hnot
  rw [handleMetricSeries] at h
  split_ifs at h
  obtain ⟨result, -, hout⟩ := h
  rw [resolveGroupContainers_of_not_valid hgroup (Bool.eq_false_iff.mpr hnot)] at hout
  cases result with
  | none => exact absurd hout (by simp [queryAnswer, bind, Except.bind])
  | some all =>
    exact absurd hout (by simp [queryAnswer, bind, Except.bind, Except.mapError])

/-- What the series of a group hold. -/
theorem labelled_group {db : MetricTables} {metric : String} {names : List String}
    {since until_ : Time} {series : List ContainerSeries}
    (h : QueryMetricSeries db metric "" since until_ (some series)) :
    ((series.filter fun s => decide (s.container ∈ names)).flatMap ContainerSeries.labelled).Perm
      (((db.points.filter fun r => r.metricName == metric).filter fun r =>
        inWindow since until_ r.ts && decide (r.series metric ∈ names)).map
          (MetricRow.labelled metric)) := by
  rw [flatMap_labelled_filter fun name => decide (name ∈ names)]
  refine ((labelled_perm h).filter _).trans (List.Perm.of_eq ?_)
  rw [List.filter_map, metricRows, List.filter_filter, List.filter_filter, List.filter_filter]
  refine congrArg _ (List.filter_congr fun r _ => ?_)
  have hasked : r.asked metric "" = true := rfl
  rw [hasked, Bool.and_true]
  change (decide (r.series metric ∈ names) && (r.metricName == metric && _)) = _
  ac_rfl

/-- What is returned and what should be are two selections of the points of the metric. -/
theorem selected_perm_iff {db : MetricTables} {metric : String} {names : List String}
    {since until_ : Time} :
    (((db.points.filter fun r => r.metricName == metric).filter fun r =>
        inWindow since until_ r.ts && decide (r.series metric ∈ names)).map
          (MetricRow.labelled metric)).Perm
      (((db.points.filter fun r => r.metricName == metric).filter fun r =>
        within since until_ r.ts && decide (r.container ∈ names)).map
          (MetricRow.labelled metric)) ↔
      ∀ r ∈ db.points, r.metricName = metric → SeriesOfMember metric names since until_ r := by
  refine (map_filter_perm_iff (fun q : LabelledPoint =>
    inWindow since until_ q.2.2.ts && decide (q.1 ∈ names)) fun _ => rfl).trans ?_
  simp only [List.mem_filter, beq_iff_eq, and_imp, seriesOfMember_iff]
  exact Iff.rfl

/-- **Key result.** The series of a metric for a group hold exactly the points of its members in the
window if and only if each point of the metric that is in the window goes by the name of a member
exactly when its container is one, and the texts of the times place it as the times do. -/
theorem groupSeries_iff (store : GroupStore) (now : Time) (metric groupID : String)
    (since until_ : Time) :
    GroupSeriesHonoured store now metric groupID since until_ ↔
      (metric ≠ "" → validText metric = true → groupID ≠ "" → validText groupID = true →
        ∀ g, store.groups.get? groupID = some g → ∀ workloads,
          ListWorkloads store.metrics (lastHour now) workloads →
            ∀ r ∈ store.metrics.points, r.metricName = metric →
              SeriesOfMember metric (memberNames workloads g) since until_ r) := by
  constructor
  · intro h hmetric hmetricValid hgroup hvalid g hg workloads hworkloads
    obtain ⟨all, hall⟩ := exists_querySeries hmetricValid "" since until_
    have hreturned := h hgroup g hg workloads hworkloads _
      ((handleMetricSeries_iff hgroup hvalid hg).mpr ⟨hmetric, all, hall, rfl⟩)
    exact selected_perm_iff.mp ((labelled_group hall).symm.trans hreturned)
  · intro h hgroup g hg workloads hworkloads series hseries
    have hvalid := valid_of_series hgroup hseries
    obtain ⟨hmetric, all, hall, rfl⟩ := (handleMetricSeries_iff hgroup hvalid hg).mp hseries
    have hmetricValid : validText metric = true := by
      by_contra hnot
      rw [QueryMetricSeries, if_neg hnot] at hall
      exact absurd hall (by simp)
    exact (labelled_group hall).trans
      (selected_perm_iff.mpr (h hmetric hmetricValid hgroup hvalid g hg workloads hworkloads))

/-- A container `api` of the service `checkout`, with its latest metric and one request. -/
def checkoutMetrics : MetricTables where
  points := [⟨"http.requests", ⟨0⟩, .finite 1, "docker:h:api",
    "\x7b\"container\":\"api\",\"service\":\"checkout\"\x7d"⟩]
  latest := (∅ : SortedMap WorkloadKey LatestRow).insert (workloadKey "api" "cpu.usage")
    ⟨⟨0⟩, .finite 1, "docker:h:api", "\x7b\"container\":\"api\",\"service\":\"checkout\"\x7d"⟩

/-- The requests of a container with a service are not among those of its group. -/
theorem renamed_series_dropped : ¬ ∀ (store : GroupStore) (now : Time) (metric groupID : String)
    (since until_ : Time), GroupSeriesHonoured store now metric groupID since until_ := by
  intro h
  let workloads := (mergeRows checkoutMetrics.latest.entries).values
  have hworkloads : ListWorkloads checkoutMetrics (lastHour ⟨3600000000000⟩) workloads :=
    ⟨_, ⟨List.Perm.of_eq (by decide +kernel), List.pairwise_singleton _ _⟩, List.Perm.refl _⟩
  have hmembers : memberNames workloads ⟨"custom", "", ["api"]⟩ = ["api"] := by decide +kernel
  obtain ⟨all, hall⟩ : ∃ all, QueryMetricSeries checkoutMetrics "http.requests" "" ⟨0⟩ ⟨0⟩
      (some all) := exists_querySeries (by decide) "" _ _
  have hanswer : handleMetricSeries (groupStore "api" checkoutMetrics) workloads "http.requests" ""
      "g" ⟨0⟩ ⟨0⟩ (.ok (all.filter fun s => decide (s.container ∈ memberNames workloads
        ⟨"custom", "", ["api"]⟩))) :=
    (handleMetricSeries_iff (by decide) (by decide) rfl).mpr ⟨by decide, all, hall, rfl⟩
  have hreturned := h (groupStore "api" checkoutMetrics) ⟨3600000000000⟩ "http.requests" "g" ⟨0⟩ ⟨0⟩
    (by decide) ⟨"custom", "", ["api"]⟩ rfl workloads hworkloads _ hanswer
  rw [hmembers] at hreturned
  have hmember := selected_perm_iff.mp ((labelled_group hall).symm.trans hreturned) _
    List.mem_cons_self rfl
  exact absurd (hmember.renamed (by decide +kernel) (by decide +kernel)) (by decide)

end Argus
