import Argus.Hub.Groups

/-!
# Suggested groups

`groups.Discover` counts the stacks and the services of the workloads and suggests a group for each.
It prefers the field of a workload to its label, where `groups.Matches` asks the label first.
`discover_groups` says that the two agree on workloads whose fields are their labels, which are
those that `ListWorkloads` builds: a suggested group has as many members as it announces, and the
groups of one kind divide the workloads among them.
-/

namespace Argus

open Foundations

/-! ### Counting -/

/-- A `model.WorkloadGroup` as `Discover` fills it in. -/
structure SuggestedGroup extends WorkloadGroup where
  id : String
  name : String
  labelKey : String
  memberCount : ℕ

/-- The stack that `Discover` counts a workload for. -/
def discoveredStack (w : WorkloadSnapshot) : String :=
  if w.stack == "" then w.labels.get "stack" else w.stack

/-- The service that `Discover` counts a workload for. -/
def discoveredService (w : WorkloadSnapshot) : String :=
  if w.service == "" then w.labels.get "service" else w.service

/-- `counts[name]++`, unless there is no name. -/
def addCount (counts : SortedMap String ℕ) (name : String) : SortedMap String ℕ :=
  if name = "" then counts else counts.insert name ((counts.get? name).getD 0 + 1)

/-- The loop over the workloads: `stackCounts` and `serviceCounts`. -/
def countWorkloads (workloads : List WorkloadSnapshot) : SortedMap String ℕ × SortedMap String ℕ :=
  workloads.foldl (fun counts w => (addCount counts.1 (discoveredStack w),
    addCount counts.2 (discoveredService w))) (∅, ∅)

/-- A suggested group of a kind, for a name and its count. -/
def suggestion (kind title : String) (e : String × ℕ) : SuggestedGroup where
  kind := kind
  labelValue := e.1
  containers := []
  id := "discover-" ++ kind ++ "-" ++ e.1
  name := title ++ " " ++ e.1
  labelKey := kind
  memberCount := e.2

/-- The group of a stack. -/
def stackGroup (e : String × ℕ) : SuggestedGroup := suggestion "stack" "Stack" e

/-- The group of a service. -/
def serviceGroup (e : String × ℕ) : SuggestedGroup := suggestion "service" "Service" e

/-- The possible lists of groups that a loop over counts appends, in the order of a map. -/
def Suggested (group : String × ℕ → SuggestedGroup) (counts : SortedMap String ℕ)
    (groups : List SuggestedGroup) : Prop :=
  groups.Perm ((counts.entries.filter fun e => e.2 != 0).map group)

/-- The possible results of `groups.Discover`. -/
def Discover (workloads : List WorkloadSnapshot) (out : List SuggestedGroup) : Prop :=
  ∃ byStack byService, Suggested stackGroup (countWorkloads workloads).1 byStack ∧
    Suggested serviceGroup (countWorkloads workloads).2 byService ∧ out = byStack ++ byService

/-- Counting names one by one is a tally of those that are there. -/
theorem foldl_addCount (names : List String) :
    names.foldl addCount ∅ = SortedMap.tally (names.filter fun name => name != "") := by
  induction names using List.reverseRecOn with
  | nil => rfl
  | append_singleton names name ih =>
    rw [List.foldl_append, ih, List.foldl_cons, List.foldl_nil, addCount, List.filter_append]
    by_cases hname : name = ""
    · rw [if_pos hname, List.filter_cons_of_neg (by simp [hname]), List.filter_nil,
        List.append_nil]
    · rw [if_neg hname, List.filter_cons_of_pos (by simp [hname]), List.filter_nil,
        SortedMap.tally_concat]

/-- The two counts do not depend on each other. -/
theorem countWorkloads_eq (workloads : List WorkloadSnapshot) :
    countWorkloads workloads =
      (SortedMap.tally ((workloads.map discoveredStack).filter fun name => name != ""),
        SortedMap.tally ((workloads.map discoveredService).filter fun name => name != "")) := by
  rw [← foldl_addCount, ← foldl_addCount, countWorkloads, List.foldl_map, List.foldl_map]
  induction workloads using List.reverseRecOn with
  | nil => rfl
  | append_singleton workloads w ih => simp only [List.foldl_append, ih, List.foldl_cons,
      List.foldl_nil]

/-! ### Members -/

/-- Groups that stand for the names of workloads: one for each name that is not empty, with as many
members as it counts, no two with a common member, and every workload with a name in one. -/
structure DividedByName (workloads : List WorkloadSnapshot) (name : WorkloadSnapshot → String)
    (groups : List SuggestedGroup) : Prop where
  one : ∀ value, groups.countP (fun g => g.labelValue == value) =
    if value ≠ "" ∧ value ∈ workloads.map name then 1 else 0
  count : ∀ g ∈ groups,
    g.memberCount = (FilterWorkloads workloads g.toWorkloadGroup).length
  disjoint : groups.Pairwise fun g g' => (FilterWorkloads workloads g.toWorkloadGroup).Disjoint
    (FilterWorkloads workloads g'.toWorkloadGroup)
  covers : ∀ w ∈ workloads, name w ≠ "" →
    ∃ g ∈ groups, w ∈ FilterWorkloads workloads g.toWorkloadGroup

/-- The fields of a workload are its labels. -/
def FieldLabelled (w : WorkloadSnapshot) : Prop :=
  w.stack = w.labels.get "stack" ∧ w.service = w.labels.get "service"

/-- The fields of all workloads are their labels. -/
def FieldsLabelled (workloads : List WorkloadSnapshot) : Prop := ∀ w ∈ workloads, FieldLabelled w

theorem labelEquals_of_field {w : WorkloadSnapshot} {key value : String} {field : String}
    (hlabel : field = w.labels.get key)
    (hfield : (if key == "stack" then w.stack == value
      else if key == "service" then w.service == value else false) = (field == value)) :
    labelEquals w key value = (value != "" && field == value) := by
  rw [labelEquals, hfield, hlabel]
  by_cases hvalue : value = ""
  · simp [hvalue]
  · by_cases heq : w.labels.get key = value
    · simp [hvalue, heq]
    · simp [hvalue, heq]

variable {workloads : List WorkloadSnapshot}

/-- With labels for fields, a workload is a member of the group of its stack. -/
theorem matches_stackGroup {w : WorkloadSnapshot} (h : w.stack = w.labels.get "stack")
    (e : String × ℕ) :
    Matches w (stackGroup e).toWorkloadGroup = (e.1 != "" && w.stack == e.1) :=
  labelEquals_of_field h rfl

/-- With labels for fields, a workload is a member of the group of its service. -/
theorem matches_serviceGroup {w : WorkloadSnapshot} (h : w.service = w.labels.get "service")
    (e : String × ℕ) :
    Matches w (serviceGroup e).toWorkloadGroup = (e.1 != "" && w.service == e.1) :=
  labelEquals_of_field h rfl

/-- The groups of the counts of a name divide the workloads, where matching compares the name. -/
theorem dividedByName {name : WorkloadSnapshot → String} {group : String × ℕ → SuggestedGroup}
    {groups : List SuggestedGroup} (hvalue : ∀ e, (group e).labelValue = e.1)
    (hcount : ∀ e, (group e).memberCount = e.2)
    (hmatch : ∀ w ∈ workloads, ∀ e,
      Matches w (group e).toWorkloadGroup = (e.1 != "" && name w == e.1))
    (h : Suggested group (SortedMap.tally ((workloads.map name).filter fun name => name != ""))
      groups) : DividedByName workloads name groups := by
  set names := (workloads.map name).filter fun name => name != "" with hnames
  have hentry : ∀ e ∈ (SortedMap.tally names).entries, names.count e.1 ≠ 0 ∧
      e.2 = names.count e.1 := by
    intro e he
    have hget := SortedMap.mem_entries.mp he
    rw [SortedMap.get?_tally] at hget
    split_ifs at hget with hzero
    exact ⟨hzero, (Option.some.inj hget).symm⟩
  have hcounted : ∀ value, names.count value ≠ 0 → (value, names.count value) ∈
      (SortedMap.tally names).entries := by
    intro value hvalue
    rw [SortedMap.mem_entries, SortedMap.get?_tally, if_neg hvalue]
  -- no count is zero, so no group is left out
  have hall : (SortedMap.tally names).entries.filter (fun e => e.2 != 0) =
      (SortedMap.tally names).entries := by
    refine List.filter_eq_self.mpr fun e he => ?_
    obtain ⟨hzero, heq⟩ := hentry e he
    simpa [heq] using hzero
  rw [Suggested, hall] at h
  have hgroup : ∀ g ∈ groups, ∃ e ∈ (SortedMap.tally names).entries, group e = g :=
    fun g hg => List.mem_map.mp (h.mem_iff.mp hg)
  have hmembers : ∀ e, FilterWorkloads workloads (group e).toWorkloadGroup =
      workloads.filter fun w => e.1 != "" && name w == e.1 :=
    fun e => List.filter_congr fun w hw => hmatch w hw e
  have hpresent : ∀ value, names.count value ≠ 0 ↔ value ≠ "" ∧ value ∈ workloads.map name := by
    intro value
    rw [Ne, List.count_eq_zero, not_not, hnames, List.mem_filter, and_comm, bne_iff_ne]
  refine ⟨fun value => ?_, fun g hg => ?_, ?_, fun w hw hne => ?_⟩
  · rw [h.countP_eq, List.countP_map]
    have hkeys : (SortedMap.tally names).entries.countP
        ((fun g : SuggestedGroup => g.labelValue == value) ∘ group) =
          (SortedMap.tally names).keys.count value := by
      rw [SortedMap.keys, List.count, List.countP_map]
      exact List.countP_congr fun e _ => by simp [hvalue]
    have hnodup : (SortedMap.tally names).keys.Nodup :=
      (SortedMap.tally names).sorted_keys.imp ne_of_lt
    rw [hkeys, hnodup.count]
    refine if_congr ?_ rfl rfl
    rw [SortedMap.mem_keys, SortedMap.get?_tally, ← hpresent]
    constructor
    · rintro ⟨n, hn⟩ hzero
      rw [if_pos hzero] at hn
      exact absurd hn (by simp)
    · exact fun hzero => ⟨_, if_neg hzero⟩
  · obtain ⟨e, he, rfl⟩ := hgroup g hg
    obtain ⟨hzero, heq⟩ := hentry e he
    have hne := ((hpresent e.1).mp hzero).1
    rw [hcount, heq, hmembers, hnames, List.count_filter (by simpa using hne), List.count,
      List.countP_map, List.countP_eq_length_filter]
    refine congrArg List.length (List.filter_congr fun w _ => ?_)
    simp [hne]
  · refine h.symm.pairwise (List.pairwise_map.mpr ?_) fun hab => hab.symm
    refine (SortedMap.tally names).sorted.imp fun {e e'} hlt w hw hw' => ?_
    rw [hmembers, List.mem_filter, Bool.and_eq_true, beq_iff_eq] at hw hw'
    exact hlt.ne (hw.2.2.symm.trans hw'.2.2)
  · have hmem := hcounted (name w) ((hpresent _).mpr ⟨hne, List.mem_map_of_mem hw⟩)
    refine ⟨_, h.mem_iff.mpr (List.mem_map_of_mem hmem), ?_⟩
    rw [hmembers, List.mem_filter]
    exact ⟨hw, by simp [hne]⟩

/-- With labels for fields, `Discover` counts the fields. -/
theorem countWorkloads_of_labelled (h : FieldsLabelled workloads) :
    countWorkloads workloads =
      (SortedMap.tally ((workloads.map WorkloadSnapshot.stack).filter fun name => name != ""),
        SortedMap.tally
          ((workloads.map WorkloadSnapshot.service).filter fun name => name != "")) := by
  have hstack : workloads.map discoveredStack = workloads.map WorkloadSnapshot.stack := by
    refine List.map_congr_left fun w hw => ?_
    rw [discoveredStack, ← (h w hw).1, ite_self]
  have hservice : workloads.map discoveredService = workloads.map WorkloadSnapshot.service := by
    refine List.map_congr_left fun w hw => ?_
    rw [discoveredService, ← (h w hw).2, ite_self]
  rw [countWorkloads_eq, hstack, hservice]

/-- The stacks of workloads divide them, and so do the services, when the fields say what the labels
say. -/
theorem dividedByName_of_discover {out : List SuggestedGroup} (hlabels : FieldsLabelled workloads)
    (h : Discover workloads out) :
    DividedByName workloads WorkloadSnapshot.stack (out.filter fun g => g.kind == "stack") ∧
      DividedByName workloads WorkloadSnapshot.service
        (out.filter fun g => g.kind == "service") ∧
      ∀ g ∈ out, g.kind = "stack" ∨ g.kind = "service" := by
  obtain ⟨byStack, byService, hstack, hservice, rfl⟩ := h
  rw [countWorkloads_of_labelled hlabels] at hstack hservice
  have hkind : ∀ g ∈ byStack, g.kind = "stack" := by
    intro g hg
    obtain ⟨e, -, rfl⟩ := List.mem_map.mp (hstack.mem_iff.mp hg)
    rfl
  have hkind' : ∀ g ∈ byService, g.kind = "service" := by
    intro g hg
    obtain ⟨e, -, rfl⟩ := List.mem_map.mp (hservice.mem_iff.mp hg)
    rfl
  have hleft : (byStack ++ byService).filter (fun g => g.kind == "stack") = byStack := by
    rw [List.filter_append, List.filter_eq_self.mpr fun g hg => by simp [hkind g hg],
      List.filter_eq_nil_iff.mpr fun g hg => by simp [hkind' g hg], List.append_nil]
  have hright : (byStack ++ byService).filter (fun g => g.kind == "service") = byService := by
    rw [List.filter_append, List.filter_eq_nil_iff.mpr fun g hg => by simp [hkind g hg],
      List.filter_eq_self.mpr fun g hg => by simp [hkind' g hg], List.nil_append]
  rw [hleft, hright]
  refine ⟨dividedByName (fun _ => rfl) (fun _ => rfl)
      (fun w hw => matches_stackGroup (hlabels w hw).1) hstack,
    dividedByName (fun _ => rfl) (fun _ => rfl)
      (fun w hw => matches_serviceGroup (hlabels w hw).2) hservice, fun g hg => ?_⟩
  exact (List.mem_append.mp hg).imp (hkind g) (hkind' g)

/-- **Key result.** Of workloads whose fields are their labels, the groups that `Discover` suggests
divide those with a stack by their stacks, and those with a service by their services. -/
theorem discover_groups {out : List SuggestedGroup} (hlabels : FieldsLabelled workloads)
    (h : Discover workloads out) :
    DividedByName workloads WorkloadSnapshot.stack (out.filter fun g => g.kind == "stack") ∧
      DividedByName workloads WorkloadSnapshot.service
        (out.filter fun g => g.kind == "service") ∧
      ∀ g ∈ out, g.kind = "stack" ∨ g.kind = "service" :=
  dividedByName_of_discover hlabels h

/-! ### The workloads of the store -/

/-- A metric changes neither the labels nor the fields. -/
theorem FieldLabelled.setMetric {w : WorkloadSnapshot} (h : FieldLabelled w) (m : String)
    (v : Extended) : FieldLabelled (w.setMetric m v) := by
  rw [WorkloadSnapshot.setMetric]
  split_ifs <;> exact h

/-- A row starts a workload with its labels for fields, or leaves them as they are. -/
theorem fieldLabelled_mergeRow {st : MergeState} (e : WorkloadKey × LatestRow)
    (h : ∀ name w, st.latest.get? name = some w → FieldLabelled w) :
    ∀ name w, (mergeRow st e).latest.get? name = some w → FieldLabelled w := by
  intro name w hw
  set row := (Labels.unmarshal e.2.labelsJSON).get "container" with hrow
  have hstart : FieldLabelled ((st.latest.get? row).getD
      (newSnapshot row (Labels.unmarshal e.2.labelsJSON) e.2)) := by
    cases hget : st.latest.get? row with
    | none => exact ⟨rfl, rfl⟩
    | some w' => exact h row w' hget
  rw [mergeRow, ← hrow] at hw
  dsimp only at hw
  split_ifs at hw with hempty hseen hlater
  · exact h name w hw
  · exact h name w hw
  · rw [SortedMap.get?_insert] at hw
    split_ifs at hw with heq
    · obtain rfl := Option.some.inj hw
      exact hstart.setMetric _ _
    · exact h name w hw
  · rw [SortedMap.get?_insert] at hw
    split_ifs at hw with heq
    · obtain rfl := Option.some.inj hw
      exact hstart.setMetric _ _
    · exact h name w hw

/-- The workloads that `ListWorkloads` builds have their labels for fields. -/
theorem fieldsLabelled_of_listWorkloads {db : MetricTables} {since : Time}
    (h : ListWorkloads db since workloads) : FieldsLabelled workloads := by
  have hrows : ∀ rows : List (WorkloadKey × LatestRow), ∀ name w,
      (rows.foldl mergeRow ⟨∅, []⟩).latest.get? name = some w → FieldLabelled w := by
    intro rows
    induction rows using List.reverseRecOn with
    | nil => exact fun name w hw => absurd hw (by simp)
    | append_singleton rows e ih =>
      rw [List.foldl_append]
      exact fieldLabelled_mergeRow e ih
  obtain ⟨rows, -, hperm⟩ := h
  intro w hw
  obtain ⟨name, hname⟩ := SortedMap.mem_values.mp (hperm.mem_iff.mp hw)
  exact hrows rows name w hname

/-- **What the store's workloads are suggested.** The groups that `Discover` returns for a result of
`ListWorkloads` divide it by the stacks and by the services. -/
theorem discover_listWorkloads {db : MetricTables} {since : Time} {out : List SuggestedGroup}
    (hworkloads : ListWorkloads db since workloads) (h : Discover workloads out) :
    DividedByName workloads WorkloadSnapshot.stack (out.filter fun g => g.kind == "stack") ∧
      DividedByName workloads WorkloadSnapshot.service
        (out.filter fun g => g.kind == "service") ∧
      ∀ g ∈ out, g.kind = "stack" ∨ g.kind = "service" :=
  dividedByName_of_discover (fieldsLabelled_of_listWorkloads hworkloads) h

/-- A workload of a stack and a service. -/
def checkout : WorkloadSnapshot where
  container := "api"
  entityUID := "docker:h:api"
  stack := "shop"
  service := "checkout"
  labels := SortedMap.ofList [("service", "checkout"), ("stack", "shop")]
  cpuUsage := .finite 0
  memoryUsage := .finite 0
  memoryLimit := .finite 0
  updatedAt := ⟨0⟩

/-- The groups that are suggested for it. -/
def checkoutGroups : List SuggestedGroup := [stackGroup ("shop", 1), serviceGroup ("checkout", 1)]

/-- They divide it. -/
theorem discover_checkout :
    DividedByName [checkout] WorkloadSnapshot.stack
        (checkoutGroups.filter fun g => g.kind == "stack") ∧
      DividedByName [checkout] WorkloadSnapshot.service
        (checkoutGroups.filter fun g => g.kind == "service") ∧
      ∀ g ∈ checkoutGroups, g.kind = "stack" ∨ g.kind = "service" := by
  have hstack : (countWorkloads [checkout]).1.entries.filter (fun e => e.2 != 0) =
      [("shop", 1)] := by decide +kernel
  have hservice : (countWorkloads [checkout]).2.entries.filter (fun e => e.2 != 0) =
      [("checkout", 1)] := by decide +kernel
  refine discover_groups (List.forall_mem_singleton.mpr ⟨by decide +kernel, by decide +kernel⟩)
    ⟨[stackGroup ("shop", 1)], [serviceGroup ("checkout", 1)], ?_, ?_, rfl⟩
  · rw [Suggested, hstack]
    exact List.Perm.refl _
  · rw [Suggested, hservice]
    exact List.Perm.refl _

end Argus
