import Argus.Fleet
import Argus.Foundations.Grouping

/-!
# Summary of the fleet

`Summarize` counts the states of all containers, and `ServiceReplicas` those of each service, where
a container without a service stands for itself. `serviceReplicas_summarize` says that the rows of
the services add up to the summary.
-/

namespace Argus

open Foundations SortedMap

/-! ### The summary -/

/-- `model.FleetSummary`. -/
structure FleetSummary where
  running : ℕ := 0
  exited : ℕ := 0
  restarting : ℕ := 0
  unhealthy : ℕ := 0
  dead : ℕ := 0
  totalRestartCount : ℤ := 0
  replicasUp : ℕ := 0
  replicasTotal : ℕ := 0
  deriving DecidableEq

/-- The switch over the state of a container. -/
def FleetSummary.countState (s : FleetSummary) (state : String) : FleetSummary :=
  if toLower state == "running" then { s with running := s.running + 1 }
  else if toLower state == "exited" then { s with exited := s.exited + 1 }
  else if toLower state == "restarting" then { s with restarting := s.restarting + 1 }
  else if toLower state == "dead" then { s with dead := s.dead + 1 }
  else s

/-- One round of the loop of `Summarize`. -/
def FleetSummary.add (s : FleetSummary) (c : FleetStatus) : FleetSummary :=
  let s := { s with totalRestartCount := s.totalRestartCount + c.restartCount }
  let s := s.countState c.state
  if equalFold c.health "unhealthy" then { s with unhealthy := s.unhealthy + 1 } else s

/-- `Summarize`. -/
def Summarize (containers : List FleetStatus) : FleetSummary :=
  let s := containers.foldl FleetSummary.add {}
  { s with replicasTotal := containers.length, replicasUp := s.running + s.restarting }

/-! ### The services -/

/-- `model.ServiceReplicaStatus`. -/
structure ServiceReplicaStatus where
  service : String
  replicasUp : ℕ := 0
  replicasTotal : ℕ := 0
  unhealthy : ℕ := 0
  restarting : ℕ := 0
  deriving DecidableEq

/-- `svc`: the service of a container, or else its name. -/
def serviceOf (c : FleetStatus) : String := if c.service == "" then c.container else c.service

/-- A container is up. -/
def isUp (c : FleetStatus) : Bool :=
  toLower c.state == "running" || toLower c.state == "restarting"

/-- Count a container in the row of its service. -/
def ServiceReplicaStatus.add (row : ServiceReplicaStatus) (c : FleetStatus) :
    ServiceReplicaStatus :=
  let row := { row with replicasTotal := row.replicasTotal + 1 }
  let row := if isUp c then { row with replicasUp := row.replicasUp + 1 } else row
  let row := if toLower c.state == "restarting" then
    { row with restarting := row.restarting + 1 } else row
  if equalFold c.health "unhealthy" then { row with unhealthy := row.unhealthy + 1 } else row

/-- `byService`: the rows after the loop of `ServiceReplicas`. -/
def byService (containers : List FleetStatus) : SortedMap String ServiceReplicaStatus :=
  group serviceOf (fun svc => { service := svc }) ServiceReplicaStatus.add containers

/-- The possible results of `ServiceReplicas`: the rows in the order of a map. -/
def ServiceReplicas (containers : List FleetStatus) (out : List ServiceReplicaStatus) : Prop :=
  out.Perm (byService containers).values

/-! ### What the loops count -/

/-- A container is restarting. -/
def isRestarting (c : FleetStatus) : Bool := toLower c.state == "restarting"

/-- A container is running. -/
def isRunning (c : FleetStatus) : Bool := toLower c.state == "running"

/-- A container is unhealthy. -/
def isUnhealthy (c : FleetStatus) : Bool := equalFold c.health "unhealthy"

/-- A state is one of the two that are up. -/
theorem isUp_toNat (c : FleetStatus) :
    (isUp c).toNat = (isRunning c).toNat + (isRestarting c).toNat := by
  rw [isUp, isRunning, isRestarting]
  by_cases h : toLower c.state = "running"
  · rw [h]
    rfl
  · rw [beq_false_of_ne h, Bool.false_or]
    exact (Nat.zero_add _).symm

/-- What the state of a container does to the summary. -/
theorem summary_countState (s : FleetSummary) (c : FleetStatus) :
    (s.countState c.state).running = s.running + (isRunning c).toNat ∧
      (s.countState c.state).restarting = s.restarting + (isRestarting c).toNat ∧
      (s.countState c.state).unhealthy = s.unhealthy := by
  rw [FleetSummary.countState, isRunning, isRestarting]
  split_ifs with hrunning hexited hrestarting hdead
  · rw [eq_of_beq hrunning]
    exact ⟨rfl, rfl, rfl⟩
  · rw [eq_of_beq hexited]
    exact ⟨rfl, rfl, rfl⟩
  · rw [eq_of_beq hrestarting]
    exact ⟨rfl, rfl, rfl⟩
  · rw [eq_of_beq hdead]
    exact ⟨rfl, rfl, rfl⟩
  · rw [Bool.not_eq_true _ |>.mp hrunning, Bool.not_eq_true _ |>.mp hrestarting]
    exact ⟨rfl, rfl, rfl⟩

/-- What one container does to the summary. -/
theorem summary_add (s : FleetSummary) (c : FleetStatus) :
    (s.add c).running = s.running + (isRunning c).toNat ∧
      (s.add c).restarting = s.restarting + (isRestarting c).toNat ∧
      (s.add c).unhealthy = s.unhealthy + (isUnhealthy c).toNat := by
  have hstate := summary_countState
    { s with totalRestartCount := s.totalRestartCount + c.restartCount } c
  rw [FleetSummary.add, isUnhealthy]
  split_ifs with hhealth
  · rw [hhealth]
    exact ⟨hstate.1, hstate.2.1, congrArg (· + 1) hstate.2.2⟩
  · rw [Bool.not_eq_true _ |>.mp hhealth]
    exact hstate

/-- What one container does to the row of its service. -/
theorem replicas_add (row : ServiceReplicaStatus) (c : FleetStatus) :
    (row.add c).service = row.service ∧
      (row.add c).replicasTotal = row.replicasTotal + 1 ∧
      (row.add c).replicasUp = row.replicasUp + (isUp c).toNat ∧
      (row.add c).restarting = row.restarting + (isRestarting c).toNat ∧
      (row.add c).unhealthy = row.unhealthy + (isUnhealthy c).toNat := by
  rw [ServiceReplicaStatus.add, isRestarting, isUnhealthy]
  cases isUp c <;> cases toLower c.state == "restarting" <;>
    cases equalFold c.health "unhealthy" <;> exact ⟨rfl, rfl, rfl, rfl, rfl⟩

/-- The counters of the summary are sums over the containers. -/
theorem summarize_spec (containers : List FleetStatus) :
    (Summarize containers).replicasTotal = (containers.map fun _ => 1).sum ∧
      (Summarize containers).replicasUp = (containers.map fun c => (isUp c).toNat).sum ∧
      (Summarize containers).restarting = (containers.map fun c => (isRestarting c).toNat).sum ∧
      (Summarize containers).unhealthy = (containers.map fun c => (isUnhealthy c).toNat).sum := by
  have hfold : ∀ s : FleetSummary,
      (containers.foldl FleetSummary.add s).running =
          s.running + (containers.map fun c => (isRunning c).toNat).sum ∧
        (containers.foldl FleetSummary.add s).restarting =
          s.restarting + (containers.map fun c => (isRestarting c).toNat).sum ∧
        (containers.foldl FleetSummary.add s).unhealthy =
          s.unhealthy + (containers.map fun c => (isUnhealthy c).toNat).sum := by
    induction containers with
    | nil => exact fun s => ⟨rfl, rfl, rfl⟩
    | cons c l ih =>
      intro s
      obtain ⟨hrunning, hrestarting, hunhealthy⟩ := summary_add s c
      obtain ⟨ih₁, ih₂, ih₃⟩ := ih (s.add c)
      simp only [List.foldl_cons, List.map_cons, List.sum_cons]
      rw [ih₁, ih₂, ih₃, hrunning, hrestarting, hunhealthy]
      simp only [Nat.add_assoc, and_self]
  obtain ⟨hrunning, hrestarting, hunhealthy⟩ := hfold {}
  have hup : (containers.map fun c => (isUp c).toNat).sum =
      (containers.map fun c => (isRunning c).toNat).sum +
        (containers.map fun c => (isRestarting c).toNat).sum := by
    rw [← List.sum_map_add]
    exact congrArg List.sum (List.map_congr_left fun c _ => isUp_toNat c)
  refine ⟨by simp [Summarize], ?_, hrestarting.trans (Nat.zero_add _),
    hunhealthy.trans (Nat.zero_add _)⟩
  change (containers.foldl FleetSummary.add {}).running +
    (containers.foldl FleetSummary.add {}).restarting = _
  rw [hrunning, hrestarting, hup]
  exact congrArg₂ (· + ·) (Nat.zero_add _) (Nat.zero_add _)

/-- In a row no more containers are up than there are, and no more restart than are up. -/
def RowOrdered (row : ServiceReplicaStatus) : Prop :=
  row.replicasUp ≤ row.replicasTotal ∧ row.restarting ≤ row.replicasUp

theorem rowOrdered_add {row : ServiceReplicaStatus} (c : FleetStatus) (h : RowOrdered row) :
    RowOrdered (row.add c) := by
  obtain ⟨-, htotal, hup, hrestarting, -⟩ := replicas_add row c
  have hle := isUp_toNat c
  have hone := Bool.toNat_le (isUp c)
  rw [RowOrdered] at h ⊢
  omega

/-- The row of a service has its name and is ordered. -/
theorem byService_spec {containers : List FleetStatus} {svc : String} {row : ServiceReplicaStatus}
    (h : (byService containers).get? svc = some row) : row.service = svc ∧ RowOrdered row := by
  refine forall_group (P := fun svc row => row.service = svc ∧ RowOrdered row)
    (fun svc => ⟨rfl, Nat.le_refl 0, Nat.le_refl 0⟩) (fun row c hrow => ?_) h
  exact ⟨(replicas_add row c).1.trans hrow.1, rowOrdered_add c hrow.2⟩

/-- The services of the rows are the keys of the map. -/
theorem services_byService (containers : List FleetStatus) :
    (byService containers).values.map ServiceReplicaStatus.service =
      (byService containers).keys := by
  rw [values, keys, List.map_map]
  exact List.map_congr_left fun e he => (byService_spec (mem_entries.mp he)).1

/-- **Key result.** `ServiceReplicas` has a row for every service of a container and only one, no
row has more containers up than it has or more restarting than up, and the rows add up to the
fields of `Summarize`. -/
theorem serviceReplicas_summarize (containers : List FleetStatus)
    (out : List ServiceReplicaStatus) (h : ServiceReplicas containers out) :
    (out.map ServiceReplicaStatus.service).Nodup ∧
      (∀ svc, svc ∈ out.map ServiceReplicaStatus.service ↔ ∃ c ∈ containers, serviceOf c = svc) ∧
      (∀ row ∈ out, row.replicasUp ≤ row.replicasTotal ∧ row.restarting ≤ row.replicasUp) ∧
      (out.map ServiceReplicaStatus.replicasTotal).sum = (Summarize containers).replicasTotal ∧
      (out.map ServiceReplicaStatus.replicasUp).sum = (Summarize containers).replicasUp ∧
      (out.map ServiceReplicaStatus.restarting).sum = (Summarize containers).restarting ∧
      (out.map ServiceReplicaStatus.unhealthy).sum = (Summarize containers).unhealthy := by
  obtain ⟨htotal, hup, hrestarting, hunhealthy⟩ := summarize_spec containers
  have hservices : (out.map ServiceReplicaStatus.service).Perm (byService containers).keys :=
    services_byService containers ▸ h.map _
  -- each sum over the rows is one over the containers, whatever service they have
  have hsum : ∀ (f : ServiceReplicaStatus → ℕ) (w : FleetStatus → ℕ),
      (∀ svc, f { service := svc } = 0) → (∀ row c, f (row.add c) = f row + w c) →
      (out.map f).sum = (containers.map w).sum := fun f w hnew hadd =>
    (h.map f).sum_eq.trans (sum_values_group hnew hadd containers)
  refine ⟨?_, fun svc => ?_, fun row hrow => ?_, ?_, ?_, ?_, ?_⟩
  · exact hservices.nodup_iff.mpr ((byService containers).sorted_keys.imp fun hlt => hlt.ne)
  · rw [hservices.mem_iff]
    exact mem_keys_group
  · obtain ⟨svc, hget⟩ := mem_values.mp (h.mem_iff.mp hrow)
    exact (byService_spec hget).2
  · rw [htotal]
    exact hsum _ _ (fun _ => rfl) fun row c => (replicas_add row c).2.1
  · rw [hup]
    exact hsum _ _ (fun _ => rfl) fun row c => (replicas_add row c).2.2.1
  · rw [hrestarting]
    exact hsum _ _ (fun _ => rfl) fun row c => (replicas_add row c).2.2.2.1
  · rw [hunhealthy]
    exact hsum _ _ (fun _ => rfl) fun row c => (replicas_add row c).2.2.2.2

/-- A container of the fleet. -/
def fleetContainer (container service state health : String) : FleetStatus where
  container := container
  entityUID := "container:h:" ++ container
  service := service
  state := state
  health := health
  restartCount := 0
  exitCode := 0
  oomKilled := false
  statusText := ""
  disposition := ""
  updatedAt := ⟨63844891200000000000⟩

/-- Two containers of one service. -/
def apiContainers : List FleetStatus :=
  [fleetContainer "stack-demo-api-1" "api" "running" "",
    fleetContainer "stack-demo-api-2" "api" "Restarting" "unhealthy"]

theorem serviceReplicas_summarize_api :
    ServiceReplicas apiContainers [⟨"api", 2, 2, 1, 1⟩] ∧
      (∀ svc, svc = "api" ↔ ∃ c ∈ apiContainers, serviceOf c = svc) ∧
      (Summarize apiContainers).replicasTotal = 2 ∧ (Summarize apiContainers).replicasUp = 2 ∧
      (Summarize apiContainers).restarting = 1 ∧ (Summarize apiContainers).unhealthy = 1 := by
  have hrow : ServiceReplicas apiContainers [⟨"api", 2, 2, 1, 1⟩] := by
    rw [ServiceReplicas]
    decide +kernel
  obtain ⟨-, hservices, -, htotal, hup, hrestarting, hunhealthy⟩ :=
    serviceReplicas_summarize apiContainers [⟨"api", 2, 2, 1, 1⟩] hrow
  refine ⟨hrow, fun svc => ?_, htotal.symm, hup.symm, hrestarting.symm, hunhealthy.symm⟩
  rw [← hservices, List.map_singleton, List.mem_singleton]

end Argus
