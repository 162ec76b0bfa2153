import Argus.Fleet
import Argus.Hub.Groups
import Argus.Insights.Severity

/-!
# Insights of a group

`GenerateGroup` goes over the members of a group once and counts those under pressure. A member
with little memory left and a busy CPU is counted in each of the two branches. `groupPressure_iff`
says for which members the counter, which decides about an insight and is shown in it, is the
number of the members under pressure.
-/

namespace Argus

open Foundations

/-! ### The counters -/

/-- `model.WorkloadGroup`, with its id and its name. -/
structure NamedGroup extends WorkloadGroup where
  id : String
  name : String

/-- `LogTopicStats`. -/
structure LogTopicStats where
  container : String
  entityUID : String
  topic : String
  count : ℤ

/-- `x + y`. -/
def Double.add : Double → Double → Double
  | some x, some y => addFloat x y
  | _, _ => none

/-- `pct`: the share of the memory, zero without a limit. -/
def WorkloadSnapshot.memoryPct (m : WorkloadSnapshot) : Double :=
  if Extended.positive m.memoryLimit then (Double.div m.memoryUsage m.memoryLimit).percent
  else some (.finite 0)

/-- The variables of the loop over the members. -/
structure MemberCounts where
  pressureCount : ℕ := 0
  criticalMem : ℕ := 0
  hotCPU : ℕ := 0
  cpuSum : Double := some (.finite 0)
  memPctSum : Double := some (.finite 0)
  memPctN : ℕ := 0

/-- The sums of a round. -/
def MemberCounts.addSums (c : MemberCounts) (m : WorkloadSnapshot) : MemberCounts :=
  let c := if Extended.positive m.memoryLimit then
    { c with memPctSum := c.memPctSum.add m.memoryPct, memPctN := c.memPctN + 1 } else c
  { c with cpuSum := c.cpuSum.add (some m.cpuUsage) }

/-- The branches over the memory. -/
def MemberCounts.addMemory (c : MemberCounts) (m : WorkloadSnapshot) : MemberCounts :=
  if m.memoryPct.atLeast 90 then
    { c with criticalMem := c.criticalMem + 1, pressureCount := c.pressureCount + 1 }
  else if m.memoryPct.atLeast 75 then { c with pressureCount := c.pressureCount + 1 }
  else c

/-- The branch over the CPU. -/
def MemberCounts.addCPU (c : MemberCounts) (m : WorkloadSnapshot) : MemberCounts :=
  if Double.atLeast 80 (some m.cpuUsage) then
    { c with hotCPU := c.hotCPU + 1, pressureCount := c.pressureCount + 1 }
  else c

/-- One round of the loop over the members. -/
def MemberCounts.add (c : MemberCounts) (m : WorkloadSnapshot) : MemberCounts :=
  ((c.addSums m).addMemory m).addCPU m

/-- The loop over the members. -/
def countMembers (members : List WorkloadSnapshot) : MemberCounts :=
  members.foldl MemberCounts.add {}

/-- The lines of a topic in the containers of the members. -/
def topicLines (members : List WorkloadSnapshot) (logStats : List LogTopicStats)
    (topic : String) : ℤ :=
  logStats.foldl (fun lines s =>
    if members.any fun m => m.container == s.container then
      if s.topic == topic then lines + s.count else lines
    else lines) 0

/-- The containers of the members of which a condition holds. -/
def fleetCount (members : List WorkloadSnapshot) (fleet : List FleetStatus)
    (p : FleetStatus → Bool) : ℕ :=
  fleet.foldl (fun n f =>
    if members.any fun m => m.container == f.container then if p f then n + 1 else n else n) 0

/-! ### The insights -/

/-- `mergeEvidence`. -/
def mergeEvidence (base extra : SortedMap String EvidenceValue) :
    SortedMap String EvidenceValue :=
  extra.entries.foldl (fun out e => out.insert e.1 e.2) base

/-- The evidence that all insights of a group have. -/
def groupEvidence (g : NamedGroup) (members : List WorkloadSnapshot) :
    SortedMap String EvidenceValue :=
  let c := countMembers members
  let n := float64 (.finite members.length)
  let evidence := (((∅ : SortedMap String EvidenceValue).insert "group_id" (.str g.id)).insert
    "group_name" (.str g.name)).insert "member_count" (.int members.length)
  let evidence := if 0 < c.memPctN then
    evidence.insert "avg_memory_pct"
      (.float (c.memPctSum.bind fun sum => Double.div sum (float64 (.finite c.memPctN))))
    else evidence
  evidence.insert "avg_cpu" (.float (c.cpuSum.bind fun sum => Double.div sum n))

/-- An insight of a group, with one more entry of evidence. -/
def groupInsight (g : NamedGroup) (evidence : SortedMap String EvidenceValue)
    (kind theme severity title summary key : String) (count : ℤ) (recommendations : List String) :
    Insight where
  id := g.id ++ kind
  theme := theme
  severity := severity
  title := title ++ " — " ++ g.name
  summary := summary
  container := g.name
  evidence := mergeEvidence evidence ((∅ : SortedMap String EvidenceValue).insert key (.int count))
  recommendations := recommendations

section Insights

variable (g : NamedGroup) (members : List WorkloadSnapshot)

/-- The insight about the memory of several members, or else the one about their pressure. -/
def memoryInsights : List Insight :=
  let c := countMembers members
  let evidence := groupEvidence g members
  if 2 ≤ c.criticalMem ∨ (1 ≤ c.criticalMem ∧ members.length ≤ 3) then
    [groupInsight g evidence ":group_memory_critical" "group_degradation" "critical"
      "Critical memory in group"
      (toString c.criticalMem ++ " of " ++ toString members.length ++
        " members above 90% memory.")
      "critical_members" c.criticalMem
      ["Review limits and heap for the services in this group",
        "Compare with GC and OOM logs from the members"]]
  else if 3 ≤ c.pressureCount ∨ 40 ≤ c.pressureCount * 100 / members.length then
    [groupInsight g evidence ":group_degradation" "group_degradation" "warning"
      "Simultaneous degradation"
      (toString c.pressureCount ++ " members under CPU or memory pressure.")
      "pressure_members" c.pressureCount
      ["Look for a shared dependency (database, queue, gateway)",
        "See the fleet and derived HTTP metrics for the group"]]
  else []

/-- The insights about the logs of the members. -/
def logInsights (logStats : List LogTopicStats) : List Insight :=
  let evidence := groupEvidence g members
  let errLines := topicLines members logStats "error"
  let gcLines := topicLines members logStats "gc"
  (if 20 ≤ errLines then
    [groupInsight g evidence ":group_errors" "error_spike"
      (if 100 ≤ errLines then "critical" else "warning") "Error spike in group"
      (toString errLines ++ " error lines across the group in this period.")
      "error_log_lines" errLines
      ["Filter the group logs by the error topic", "Follow the trace_id across services"]]
    else []) ++
  (if 30 ≤ gcLines then
    [groupInsight g evidence ":group_gc" "gc_thrashing" "warning" "GC pressure in group"
      (toString gcLines ++ " GC lines across the members.") "gc_log_lines" gcLines
      ["Tune the JVM heap for the JVM services in this group"]]
    else [])

/-- The insights about the fleet status of the members. -/
def fleetInsights (fleet : List FleetStatus) : List Insight :=
  let evidence := groupEvidence g members
  let oom := fleetCount members fleet FleetStatus.oomKilled
  let restarts := fleetCount members fleet fun f => 3 < f.restartCount
  (if 0 < oom then
    [groupInsight g evidence ":group_oom" "oom_killed" "critical" "OOM kill in group"
      (toString oom ++ " members were OOMKilled.") "oom_members" oom
      ["Raise the memory limit or reduce the footprint"]]
    else []) ++
  (if 2 ≤ restarts then
    [groupInsight g evidence ":group_restarts" "restart_loop" "warning" "Restart loops in group"
      (toString restarts ++ " members restarted more than 3 times.") "restart_members" restarts
      ["Verificar fleet e logs de crash dos membros"]]
    else [])

/-- The insight about the CPU of several members. -/
def cpuInsights : List Insight :=
  let hotCPU := (countMembers members).hotCPU
  if 3 ≤ hotCPU then
    [groupInsight g (groupEvidence g members) ":group_cpu" "cpu_hot" "warning"
      "CPU saturated in group" (toString hotCPU ++ " members at 80% CPU or more.")
      "hot_cpu_members" hotCPU ["Spread the load or add replicas"]]
  else []

/-- `GenerateGroup`. -/
def GenerateGroup (logStats : List LogTopicStats) (fleet : List FleetStatus) : List Insight :=
  if members = [] then []
  else SortBySeverity (memoryInsights g members ++ logInsights g members logStats ++
    fleetInsights g members fleet ++ cpuInsights g members)

end Insights

/-! ### Members under pressure -/

/-- Memory at 75 percent or more. -/
def memoryPressed (m : WorkloadSnapshot) : Bool := m.memoryPct.atLeast 75

/-- CPU at 80 or more. -/
def cpuPressed (m : WorkloadSnapshot) : Bool := Double.atLeast 80 (some m.cpuUsage)

/-- Memory at 90 percent or more. -/
def memoryCritical (m : WorkloadSnapshot) : Bool := m.memoryPct.atLeast 90

/-- The containers of the members under pressure, one for each such member. -/
def pressedNames (members : List WorkloadSnapshot) : List String :=
  (members.filter fun m => memoryPressed m || cpuPressed m).map WorkloadSnapshot.container

/-- The number of distinct members under pressure. -/
def pressedMembers (members : List WorkloadSnapshot) : ℕ := (pressedNames members).dedup.length

theorem memoryPressed_of_critical {m : WorkloadSnapshot} (h : memoryCritical m = true) :
    memoryPressed m = true := by
  rw [memoryCritical, Double.atLeast.eq_def] at h
  rw [memoryPressed, Double.atLeast.eq_def]
  split at h
  · exact h
  · exact decide_eq_true (le_trans (by norm_num) (of_decide_eq_true h))
  · exact h

/-- What one round does to the counters. -/
theorem counts_add (c : MemberCounts) (m : WorkloadSnapshot) :
    (c.add m).criticalMem = c.criticalMem + (memoryCritical m).toNat ∧
      (c.add m).pressureCount =
        c.pressureCount + ((memoryPressed m).toNat + (cpuPressed m).toNat) := by
  have hsums : (c.addSums m).criticalMem = c.criticalMem ∧
      (c.addSums m).pressureCount = c.pressureCount := by
    rw [MemberCounts.addSums]
    split_ifs <;> exact ⟨rfl, rfl⟩
  have hmemory : ((c.addSums m).addMemory m).criticalMem =
        c.criticalMem + (memoryCritical m).toNat ∧
      ((c.addSums m).addMemory m).pressureCount =
        c.pressureCount + (memoryPressed m).toNat := by
    rw [MemberCounts.addMemory]
    split_ifs with hcritical hpressed
    · rw [memoryPressed_of_critical hcritical, memoryCritical, hcritical]
      exact ⟨congrArg (· + 1) hsums.1, congrArg (· + 1) hsums.2⟩
    · rw [memoryPressed, hpressed, memoryCritical, Bool.not_eq_true _ |>.mp hcritical]
      exact ⟨hsums.1, congrArg (· + 1) hsums.2⟩
    · rw [memoryPressed, Bool.not_eq_true _ |>.mp hpressed, memoryCritical,
        Bool.not_eq_true _ |>.mp hcritical]
      exact hsums
  rw [MemberCounts.add, MemberCounts.addCPU]
  split_ifs with hcpu
  · rw [cpuPressed, hcpu]
    exact ⟨hmemory.1, by rw [← Nat.add_assoc]; exact congrArg (· + 1) hmemory.2⟩
  · rw [cpuPressed, Bool.not_eq_true _ |>.mp hcpu]
    exact ⟨hmemory.1, hmemory.2⟩

/-- The counters count the members with a condition, those with both conditions twice. -/
theorem countMembers_spec (members : List WorkloadSnapshot) :
    (countMembers members).criticalMem = members.countP memoryCritical ∧
      (countMembers members).pressureCount =
        members.countP memoryPressed + members.countP cpuPressed := by
  have hfold : ∀ c : MemberCounts,
      (members.foldl MemberCounts.add c).criticalMem =
        c.criticalMem + members.countP memoryCritical ∧
      (members.foldl MemberCounts.add c).pressureCount =
        c.pressureCount + (members.countP memoryPressed + members.countP cpuPressed) := by
    induction members with
    | nil => exact fun c => ⟨rfl, rfl⟩
    | cons m l ih =>
      intro c
      obtain ⟨hcritical, hpressure⟩ := counts_add c m
      rw [List.foldl_cons, (ih _).1, (ih _).2, hcritical, hpressure, List.countP_cons,
        List.countP_cons, List.countP_cons]
      simp only [Bool.toNat, Bool.cond_eq_ite]
      omega
  obtain ⟨hcritical, hpressure⟩ := hfold {}
  exact ⟨hcritical.trans (Nat.zero_add _), hpressure.trans (Nat.zero_add _)⟩

/-- Counting two conditions is counting one of them and then both. -/
theorem countP_add_countP {α : Type} (p q : α → Bool) (l : List α) :
    l.countP p + l.countP q = (l.countP fun x => p x || q x) + l.countP fun x => p x && q x := by
  induction l with
  | nil => rfl
  | cons x l ih =>
    simp only [List.countP_cons]
    cases p x <;> cases q x <;> simp <;> omega

/-- No member meets both conditions, and no two members under pressure share a name. -/
def EachOnce (members : List WorkloadSnapshot) : Prop :=
  (∀ m ∈ members, memoryPressed m = true → cpuPressed m = false) ∧ (pressedNames members).Nodup

/-- The counter is the number of members under pressure when each is counted once. -/
theorem pressureCount_eq_iff (members : List WorkloadSnapshot) :
    (countMembers members).pressureCount = pressedMembers members ↔ EachOnce members := by
  have hlen : (pressedNames members).length =
      members.countP fun m => memoryPressed m || cpuPressed m := by
    rw [pressedNames, List.length_map, List.countP_eq_length_filter]
  have hsub := List.dedup_sublist (pressedNames members)
  have hboth : (members.countP fun m => memoryPressed m && cpuPressed m) = 0 ↔
      ∀ m ∈ members, memoryPressed m = true → cpuPressed m = false := by
    rw [List.countP_eq_zero]
    refine forall₂_congr fun m _ => ?_
    cases memoryPressed m <;> cases cpuPressed m <;> simp
  rw [(countMembers_spec members).2, countP_add_countP, ← hlen, pressedMembers, EachOnce, ← hboth]
  constructor
  · intro h
    have hle := hsub.length_le
    exact ⟨by omega, List.dedup_eq_self.mp (hsub.eq_of_length (by omega))⟩
  · rintro ⟨hzero, hnodup⟩
    rw [hzero, List.dedup_eq_self.mpr hnodup, Nat.add_zero]

/-! ### The insight about pressure -/

/-- What the insight about pressure has to say and to respect. -/
structure PressureShown (members : List WorkloadSnapshot) (out : List Insight) (g : NamedGroup)
    (i : Insight) : Prop where
  /-- The evidence is the number of distinct members under pressure. -/
  evidence : i.evidence.get? "pressure_members" = some (.int (pressedMembers members))
  /-- So is the number in the sentence. -/
  summary : i.summary = toString (pressedMembers members) ++
    " members under CPU or memory pressure."
  /-- There is no insight about critical memory. -/
  notCritical : ∀ j ∈ out, j.id ≠ g.id ++ ":group_memory_critical"
  /-- These are three members, or 40 percent of them. -/
  enough : 3 ≤ pressedMembers members ∨ 40 * members.length ≤ 100 * pressedMembers members

/-- The insight about critical memory is due. -/
def CriticalDue (members : List WorkloadSnapshot) : Prop :=
  2 ≤ members.countP memoryCritical ∨
    (1 ≤ members.countP memoryCritical ∧ members.length ≤ 3)

/-- The members with much memory and those with much CPU are together too few for an insight. -/
def BelowThresholds (members : List WorkloadSnapshot) : Prop :=
  members.countP memoryPressed + members.countP cpuPressed < 3 ∧
    100 * (members.countP memoryPressed + members.countP cpuPressed) < 40 * members.length

instance (members : List WorkloadSnapshot) : Decidable (BelowThresholds members) :=
  inferInstanceAs (Decidable (_ ∧ _))

section Raised

variable {g : NamedGroup} {members : List WorkloadSnapshot} {logStats : List LogTopicStats}
  {fleet : List FleetStatus}

/-- The insight that is raised about the pressure of members. -/
def degradationInsight (g : NamedGroup) (members : List WorkloadSnapshot) : Insight :=
  groupInsight g (groupEvidence g members) ":group_degradation" "group_degradation" "warning"
    "Simultaneous degradation"
    (toString (countMembers members).pressureCount ++ " members under CPU or memory pressure.")
    "pressure_members" (countMembers members).pressureCount
    ["Look for a shared dependency (database, queue, gateway)",
      "See the fleet and derived HTTP metrics for the group"]

theorem get?_groupInsight (g : NamedGroup) (evidence : SortedMap String EvidenceValue)
    (kind theme severity title summary key : String) (count : ℤ) (recommendations : List String) :
    (groupInsight g evidence kind theme severity title summary key count
      recommendations).evidence.get? key = some (.int count) :=
  SortedMap.get?_insert_self _ _ _

/-- Insights of two kinds have different ids. -/
theorem id_ne_of_kind_ne {a b : String} (h : a ≠ b) : g.id ++ a ≠ g.id ++ b :=
  fun heq => h ((String.append_right_inj g.id).mp heq)

/-- The other insights are neither about pressure nor about critical memory. -/
theorem id_of_mem_others {i : Insight}
    (h : i ∈ logInsights g members logStats ++ fleetInsights g members fleet ++
      cpuInsights g members) :
    i.id ≠ g.id ++ ":group_degradation" ∧ i.id ≠ g.id ++ ":group_memory_critical" := by
  have hkind : ∃ kind ∈ [":group_errors", ":group_gc", ":group_oom", ":group_restarts",
      ":group_cpu"], i.id = g.id ++ kind := by
    simp only [logInsights, fleetInsights, cpuInsights, List.mem_append, List.mem_ite_nil_right,
      List.mem_singleton] at h
    rcases h with ((⟨-, rfl⟩ | ⟨-, rfl⟩) | ⟨-, rfl⟩ | ⟨-, rfl⟩) | ⟨-, rfl⟩
    · exact ⟨":group_errors", by decide, rfl⟩
    · exact ⟨":group_gc", by decide, rfl⟩
    · exact ⟨":group_oom", by decide, rfl⟩
    · exact ⟨":group_restarts", by decide, rfl⟩
    · exact ⟨":group_cpu", by decide, rfl⟩
  obtain ⟨kind, hkind, hid⟩ := hkind
  rw [hid]
  refine ⟨id_ne_of_kind_ne ?_, id_ne_of_kind_ne ?_⟩
  · rintro rfl
    exact absurd hkind (by decide)
  · rintro rfl
    exact absurd hkind (by decide)

/-- The insights of a group, in any order. -/
theorem mem_generateGroup {i : Insight} (hne : members ≠ []) :
    i ∈ GenerateGroup g members logStats fleet ↔ i ∈ memoryInsights g members ∨
      i ∈ logInsights g members logStats ++ fleetInsights g members fleet ++
        cpuInsights g members := by
  rw [GenerateGroup, if_neg hne, (sortBySeverity_perm _).mem_iff, List.append_assoc,
    List.append_assoc, List.mem_append, List.append_assoc]

/-- The insight about critical memory is the first choice. -/
theorem memoryInsights_of_critical (h : CriticalDue members) :
    ∀ i ∈ memoryInsights g members, i.id = g.id ++ ":group_memory_critical" := by
  rw [CriticalDue, ← (countMembers_spec members).1] at h
  intro i hi
  rw [memoryInsights, if_pos h, List.mem_singleton] at hi
  rw [hi]
  rfl

/-- Otherwise the counter decides. -/
theorem memoryInsights_of_not_critical (h : ¬ CriticalDue members) (hne : members ≠ []) :
    memoryInsights g members =
      if BelowThresholds members then [] else [degradationInsight g members] := by
  have hlen : 0 < members.length := List.length_pos_of_ne_nil hne
  have hbelow : BelowThresholds members ↔ ¬ (3 ≤ (countMembers members).pressureCount ∨
      40 ≤ (countMembers members).pressureCount * 100 / members.length) := by
    rw [BelowThresholds, ← (countMembers_spec members).2, Nat.le_div_iff_mul_le hlen]
    omega
  rw [CriticalDue, ← (countMembers_spec members).1] at h
  rw [memoryInsights, if_neg h]
  by_cases hraised : BelowThresholds members
  · rw [if_neg (hbelow.mp hraised), if_pos hraised]
  · rw [if_pos (not_not.mp (mt hbelow.mpr hraised)), if_neg hraised]
    rfl

/-- **When the pressure of a group is counted.** Whatever is said about the pressure of a group is
about the number of its distinct members under pressure, and is due to it, if and only if critical
memory is reported instead, or the members with much memory and those with much CPU are together
too few, or no member is counted twice. -/
theorem groupPressure_iff (g : NamedGroup) (members : List WorkloadSnapshot)
    (logStats : List LogTopicStats) (fleet : List FleetStatus) :
    (∀ i ∈ GenerateGroup g members logStats fleet, i.id = g.id ++ ":group_degradation" →
        PressureShown members (GenerateGroup g members logStats fleet) g i) ↔
      CriticalDue members ∨ BelowThresholds members ∨ EachOnce members := by
  rcases eq_or_ne members [] with rfl | hne
  -- without members there is no insight, and nobody to count
  · refine iff_of_true (fun i hi => absurd hi List.not_mem_nil) (.inr (.inr ⟨?_, List.nodup_nil⟩))
    exact fun m hm => absurd hm List.not_mem_nil
  by_cases hcritical : CriticalDue members
  · refine iff_of_true (fun i hi hid => ?_) (.inl hcritical)
    rcases (mem_generateGroup hne).mp hi with hi | hi
    · have hmem := memoryInsights_of_critical hcritical i hi
      exact absurd (hmem.symm.trans hid) (id_ne_of_kind_ne (by decide))
    · exact absurd hid (id_of_mem_others hi).1
  have hinsights := memoryInsights_of_not_critical (g := g) hcritical hne
  by_cases hbelow : BelowThresholds members
  · refine iff_of_true (fun i hi hid => ?_) (.inr (.inl hbelow))
    rcases (mem_generateGroup hne).mp hi with hi | hi
    · rw [hinsights, if_pos hbelow] at hi
      exact absurd hi List.not_mem_nil
    · exact absurd hid (id_of_mem_others hi).1
  rw [if_neg hbelow] at hinsights
  have hraised : ∀ i, i ∈ GenerateGroup g members logStats fleet →
      i.id = g.id ++ ":group_degradation" → i = degradationInsight g members := by
    intro i hi hid
    rcases (mem_generateGroup hne).mp hi with hi | hi
    · exact List.mem_singleton.mp (hinsights ▸ hi)
    · exact absurd hid (id_of_mem_others hi).1
  have hnone : ∀ j ∈ GenerateGroup g members logStats fleet,
      j.id ≠ g.id ++ ":group_memory_critical" := by
    intro j hj
    rcases (mem_generateGroup hne).mp hj with hj | hj
    · rw [hinsights, List.mem_singleton] at hj
      rw [hj]
      exact id_ne_of_kind_ne (by decide)
    · exact (id_of_mem_others hj).2
  have hmem : degradationInsight g members ∈ GenerateGroup g members logStats fleet :=
    (mem_generateGroup hne).mpr (.inl (hinsights ▸ List.mem_singleton.mpr rfl))
  have hevidence : (degradationInsight g members).evidence.get? "pressure_members" =
      some (.int (countMembers members).pressureCount) := get?_groupInsight ..
  rw [or_iff_right hcritical, or_iff_right hbelow, ← pressureCount_eq_iff]
  constructor
  · intro hall
    have hshown := (hall _ hmem rfl).evidence
    rw [hevidence, Option.some.injEq, EvidenceValue.int.injEq] at hshown
    exact_mod_cast hshown
  · intro hcount i hi hid
    rw [hraised i hi hid]
    refine ⟨by rw [hevidence, hcount], ?_, hnone, ?_⟩
    · rw [← hcount]
      rfl
    · rw [← hcount, (countMembers_spec members).2]
      rw [BelowThresholds] at hbelow
      omega

end Raised

/-- A member of a group of the stack `shop`. -/
def shopMember (container : String) (cpuUsage memoryUsage : ℚ) : WorkloadSnapshot where
  container := container
  entityUID := "container:h:" ++ container
  stack := "shop"
  service := container
  labels := ∅
  cpuUsage := .finite cpuUsage
  memoryUsage := .finite memoryUsage
  memoryLimit := .finite 100
  updatedAt := ⟨63844891200000000000⟩

/-- **One of four members.** The member with 80 percent of its memory and a CPU at 90 is the only
one under pressure, but two are reported. -/
theorem groupPressure_counts_twice :
    ¬ ∀ (g : NamedGroup) (members : List WorkloadSnapshot) (logStats : List LogTopicStats)
      (fleet : List FleetStatus), members ≠ [] →
      ∀ i ∈ GenerateGroup g members logStats fleet, i.id = g.id ++ ":group_degradation" →
        PressureShown members (GenerateGroup g members logStats fleet) g i := by
  intro hall
  have hshop := hall ⟨⟨"stack", "shop", []⟩, "g1", "Shop"⟩
    [shopMember "api" 90 80, shopMember "web" 5 10, shopMember "db" 5 10,
      shopMember "queue" 5 10] [] []
  have hraised : ∃ i ∈ GenerateGroup ⟨⟨"stack", "shop", []⟩, "g1", "Shop"⟩
      [shopMember "api" 90 80, shopMember "web" 5 10, shopMember "db" 5 10,
        shopMember "queue" 5 10] [] [],
      i.id = "g1" ++ ":group_degradation" ∧
        i.evidence.get? "pressure_members" ≠ some (.int 1) := by decide +kernel
  obtain ⟨i, hi, hid, hne⟩ := hraised
  refine hne ((hshop (List.cons_ne_nil _ _) i hi hid).evidence.trans ?_)
  have hone : pressedMembers [shopMember "api" 90 80, shopMember "web" 5 10,
      shopMember "db" 5 10, shopMember "queue" 5 10] = 1 := by decide +kernel
  rw [hone]
  rfl

end Argus
