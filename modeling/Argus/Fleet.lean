import Argus.Labels
import Argus.Store.Columns
import Argus.Strings
import Argus.Time
import Mathlib.Data.List.Induction

/-!
# Fleet snapshots

An agent reports the containers of its host as one snapshot, and the hub replaces
`container_fleet` by it: `upsertFleet` deletes every row before it inserts. An empty snapshot
changes nothing, since `SendFleet` and `handleFleetBatch` both drop it.

So the table is the last non-empty snapshot that arrived (`mem_fleetRun`), whoever sent it.
`fleet_latest_per_host` says when this is what `GetFleetStatus` should show, the rows of every
host's most recent snapshot: exactly when a single host reports, none of its snapshots arrives
after a newer one, and none of them is empty from the first rows on.
-/

namespace Argus

open Foundations

/-! ### Rows -/

/-- `model.ContainerFleetStatus`. -/
structure FleetStatus where
  container : String
  entityUID : String
  service : String
  state : String
  health : String
  restartCount : ℤ
  exitCode : ℤ
  oomKilled : Bool
  statusText : String
  disposition : String
  updatedAt : Time
  deriving DecidableEq

/-- A row of `container_fleet`, without its key. -/
structure FleetRow where
  container : String
  service : String
  state : String
  health : String
  restartCount : ℤ
  exitCode : ℤ
  oomKilled : ℤ
  statusText : String
  disposition : String
  updatedAt : Time
  deriving DecidableEq

/-- The table `container_fleet`, by `entity_uid`. -/
abbrev FleetTable : Type := SortedMap String FleetRow

/-- The columns that `upsertFleet` writes. -/
def FleetStatus.toRow (r : FleetStatus) : FleetRow where
  container := r.container
  service := r.service
  state := r.state
  health := r.health
  restartCount := r.restartCount
  exitCode := r.exitCode
  oomKilled := if r.oomKilled then 1 else 0
  statusText := r.statusText
  disposition := r.disposition
  updatedAt := r.updatedAt

/-- The status that `GetFleetStatus` reads from a row. -/
def FleetRow.toStatus (entityUID : String) (r : FleetRow) : FleetStatus where
  container := r.container
  entityUID := entityUID
  service := r.service
  state := r.state
  health := r.health
  restartCount := r.restartCount
  exitCode := r.exitCode
  oomKilled := r.oomKilled == 1
  statusText := r.statusText
  disposition := r.disposition
  updatedAt := r.updatedAt

@[simp] theorem toStatus_toRow (r : FleetStatus) : r.toRow.toStatus r.entityUID = r := by
  obtain ⟨_, _, _, _, _, _, _, oom, _, _, _⟩ := r
  cases oom <;> rfl

/-- Whether the columns take the values of a status. -/
def FleetStatus.valid (r : FleetStatus) : Bool :=
  validTexts [r.entityUID, r.container, r.service, r.state, r.health, r.statusText, r.disposition,
    r.updatedAt.format] && validInteger r.restartCount && validInteger r.exitCode

/-! ### Collecting -/

/-- What the list of containers says of one. -/
structure ContainerInfo where
  name : String
  labels : Labels
  state : String
  status : String

/-- What the inspection of a container adds. -/
structure ContainerInspect where
  restartCount : ℤ
  status : String
  exitCode : ℤ
  oomKilled : Bool
  error : String
  health : Option String

/-- `StopDisposition`: why a container is down. -/
def stopDisposition (state : String) (exitCode : ℤ) (oom : Bool) : String :=
  if toLower state ≠ "exited" ∧ toLower state ≠ "dead" then ""
  else if oom then "oom"
  else if exitCode = 0 ∨ exitCode = 130 ∨ exitCode = 137 ∨ exitCode = 143 then "intentional"
  else "unexpected"

/-- `Collector.fleetRowFromContainer`; the inspection may have failed. -/
def fleetRowFromContainer (hostID : String) (now : Time) (it : ContainerInfo)
    (inspect : Option ContainerInspect) : FleetStatus :=
  let row : FleetStatus :=
    { container := it.name
      entityUID := (entityFor hostID it.name it.labels).1
      service := it.labels.get "com.docker.compose.service"
      state := if it.state = "" then "unknown" else it.state
      health := ""
      restartCount := 0
      exitCode := 0
      oomKilled := false
      statusText := it.status
      disposition := ""
      updatedAt := now }
  match inspect with
  | none => row
  | some ins =>
    let state := if ins.status = "" then row.state else ins.status
    { row with
      restartCount := ins.restartCount
      exitCode := ins.exitCode
      oomKilled := ins.oomKilled
      state := state
      health := ins.health.getD ""
      statusText := if ins.error = "" then row.statusText else ins.error
      disposition := stopDisposition state ins.exitCode ins.oomKilled }

theorem fleetRowFromContainer_ofHost (hostID : String) (now : Time) (it : ContainerInfo)
    (inspect : Option ContainerInspect) :
    (fleetRowFromContainer hostID now it inspect).container = it.name ∧
      (fleetRowFromContainer hostID now it inspect).entityUID = entityUID hostID it.name ∧
      (fleetRowFromContainer hostID now it inspect).updatedAt = now := by
  cases inspect <;> exact ⟨rfl, rfl, rfl⟩

/-! ### Writing and reading -/

/-- The inserts of `upsertFleet`. A second row of one uid violates the primary key. -/
def insertFleet (table : FleetTable) : List FleetStatus → Option FleetTable
  | [] => some table
  | r :: rows =>
    if !r.valid || (table.get? r.entityUID).isSome then none
    else insertFleet (table.insert r.entityUID r.toRow) rows

/-- `upsertFleet`: `DELETE FROM container_fleet`, then the inserts. -/
def upsertFleet (_table : FleetTable) (rows : List FleetStatus) : Option FleetTable :=
  insertFleet ∅ rows

/-- The possible results of `GetFleetStatus`: `ORDER BY container ASC`. -/
def GetFleetStatus (table : FleetTable) (out : List FleetStatus) : Prop :=
  out.Perm (table.entries.map fun e => e.2.toStatus e.1) ∧
    out.Pairwise fun a b => a.container ≤ b.container

/-- The guard of `SendFleet`: nothing is sent for no rows. -/
def sendFleet (rows : List FleetStatus) : Option (List FleetStatus) :=
  if rows.isEmpty then none else some rows

/-- `handleFleetBatch`: accepted without a write for no rows, else written. -/
def handleFleetBatch (table : FleetTable) (rows : List FleetStatus) : Option FleetTable :=
  if rows.isEmpty then some table else upsertFleet table rows

/-- What the agent of `hostID` collects at one time: rows of its own containers, at most one for
each. -/
structure FleetSnapshot where
  hostID : String
  updatedAt : Time
  rows : List FleetStatus
  ofHost : ∀ r ∈ rows, DockerName r.container ∧ r.entityUID = entityUID hostID r.container ∧
    r.updatedAt = updatedAt
  distinct : rows.Pairwise fun a b => a.container ≠ b.container

/-- `Collector.CollectFleet`: a row for each container. -/
def collectFleet (hostID : String) (now : Time)
    (items : List (ContainerInfo × Option ContainerInspect))
    (hnames : ∀ it ∈ items, DockerName it.1.name)
    (hdistinct : items.Pairwise fun a b => a.1.name ≠ b.1.name) : FleetSnapshot where
  hostID := hostID
  updatedAt := now
  rows := items.map fun it => fleetRowFromContainer hostID now it.1 it.2
  ofHost r hr := by
    obtain ⟨it, hit, rfl⟩ := List.mem_map.mp hr
    obtain ⟨hcontainer, huid, hat⟩ := fleetRowFromContainer_ofHost hostID now it.1 it.2
    exact ⟨hcontainer ▸ hnames it hit, by rw [hcontainer, huid], hat⟩
  distinct := by
    refine List.pairwise_map.mpr (hdistinct.imp fun {a b} hne => ?_)
    rwa [(fleetRowFromContainer_ofHost hostID now a.1 a.2).1,
      (fleetRowFromContainer_ofHost hostID now b.1 b.2).1]

/-- A snapshot on its way from the agent to the table. -/
def acceptFleet (table : FleetTable) (s : FleetSnapshot) : Option FleetTable :=
  match sendFleet s.rows with
  | none => some table
  | some rows => handleFleetBatch table rows

/-- Snapshots that are accepted one after the other, from an empty store on. -/
def fleetRun (arrived : List FleetSnapshot) : Option FleetTable :=
  arrived.foldlM acceptFleet ∅

/-! ### What the table should show -/

/-- Whether a status belongs to a container of the host. -/
def OfHost (hostID : String) (r : FleetStatus) : Bool := r.entityUID == entityUID hostID r.container

/-- Of two snapshots of a host, the more recent; of two at one instant, the one that arrived
later. -/
def moreRecent (stored s : FleetSnapshot) : FleetSnapshot :=
  if s.updatedAt < stored.updatedAt then stored else s

/-- The most recent snapshot of a host among those that arrived. -/
def mostRecent (hostID : String) (arrived : List FleetSnapshot) : Option FleetSnapshot :=
  (arrived.filter fun s => s.hostID = hostID).foldl (SortedMap.mergeInto moreRecent) none

/-- The rows of the most recent snapshot of a host. -/
def mostRecentRows (hostID : String) (arrived : List FleetSnapshot) : List FleetStatus :=
  match mostRecent hostID arrived with
  | none => []
  | some s => s.rows

/-- `GetFleetStatus` returns, for every host, exactly the rows of its most recent snapshot. -/
def ShowsLatest (arrived : List FleetSnapshot) (table : FleetTable) : Prop :=
  ∀ out, GetFleetStatus table out →
    ∀ hostID, (out.filter (OfHost hostID)).Perm (mostRecentRows hostID arrived)

/-- Snapshots of one host in the order of their times, none of them empty from the first rows
on unless it is out of date. -/
structure SingleHostInOrder (arrived : List FleetSnapshot) : Prop where
  oneHost : ∀ s ∈ arrived, ∀ s' ∈ arrived, s.rows ≠ [] → s'.rows ≠ [] → s.hostID = s'.hostID
  inOrder : ∀ pre s, pre ++ [s] <+: arrived → s.rows ≠ [] →
    ∀ s' ∈ pre, s'.hostID = s.hostID → s'.updatedAt ≤ s.updatedAt
  noEmpty : ∀ pre s, pre ++ [s] <+: arrived → s.rows = [] →
    (∃ n ∈ pre, n.rows ≠ [] ∧ n.hostID = s.hostID) →
      ∃ n ∈ pre, n.rows ≠ [] ∧ n.hostID = s.hostID ∧ s.updatedAt < n.updatedAt

/-! ### The table is the last non-empty snapshot -/

theorem FleetSnapshot.ofHost_iff (s : FleetSnapshot) {r : FleetStatus} (hr : r ∈ s.rows)
    (hostID : String) : OfHost hostID r = true ↔ hostID = s.hostID := by
  obtain ⟨hname, huid, -⟩ := s.ofHost r hr
  rw [OfHost, beq_iff_eq, huid]
  exact ⟨fun h => (entityUID_inj hname hname h).1.symm, fun h => by rw [h]⟩

theorem FleetSnapshot.nodup (s : FleetSnapshot) : s.rows.Nodup :=
  s.distinct.imp fun h heq => h (congrArg FleetStatus.container heq)

/-- The inserts add the rows to the table. -/
theorem mem_insertFleet {rows : List FleetStatus} {table table' : FleetTable}
    (h : insertFleet table rows = some table') (uid : String) (x : FleetRow) :
    table'.get? uid = some x ↔
      table.get? uid = some x ∨ ∃ r ∈ rows, r.entityUID = uid ∧ r.toRow = x := by
  induction rows generalizing table with
  | nil =>
    obtain rfl : table = table' := Option.some.inj h
    simp
  | cons r rows ih =>
    rw [insertFleet] at h
    split_ifs at h with hbad
    obtain ⟨-, hnew⟩ : r.valid = true ∧ table.get? r.entityUID = none := by simpa using hbad
    rw [ih h, SortedMap.get?_insert]
    split_ifs with huid
    · subst huid
      simp [hnew]
    · simp [huid]

/-- The last non-empty snapshot among those that arrived. -/
def lastRows (arrived : List FleetSnapshot) : List FleetStatus :=
  match (arrived.filter fun s => !s.rows.isEmpty).getLast? with
  | none => []
  | some s => s.rows

theorem lastRows_append_of_ne_nil {arrived : List FleetSnapshot} {s : FleetSnapshot}
    (hs : s.rows ≠ []) : lastRows (arrived ++ [s]) = s.rows := by
  rw [lastRows, List.filter_append, List.filter_cons_of_pos (by simpa using hs), List.filter_nil,
    List.getLast?_concat]

theorem lastRows_append_of_eq_nil {arrived : List FleetSnapshot} {s : FleetSnapshot}
    (hs : s.rows = []) : lastRows (arrived ++ [s]) = lastRows arrived := by
  rw [lastRows, List.filter_append, List.filter_cons_of_neg (by simpa using hs), List.filter_nil,
    List.append_nil, lastRows]

/-- The last rows are those of a snapshot that arrived. -/
theorem exists_lastRows {arrived : List FleetSnapshot} (h : lastRows arrived ≠ []) :
    ∃ s ∈ arrived, s.rows = lastRows arrived := by
  rw [lastRows] at h ⊢
  split at h
  · exact absurd rfl h
  · rename_i s hs
    exact ⟨s, (List.mem_filter.mp (List.mem_of_getLast? hs)).1, rfl⟩

theorem fleetRun_append {arrived : List FleetSnapshot} {s : FleetSnapshot} {table : FleetTable}
    (h : fleetRun (arrived ++ [s]) = some table) :
    ∃ table₀, fleetRun arrived = some table₀ ∧ acceptFleet table₀ s = some table := by
  rw [fleetRun, List.foldlM_append] at h
  obtain ⟨table₀, h₀, h⟩ := Option.bind_eq_some_iff.mp h
  rw [List.foldlM_cons] at h
  obtain ⟨table₁, h₁, h⟩ := Option.bind_eq_some_iff.mp h
  obtain rfl : table₁ = table := Option.some.inj h
  exact ⟨table₀, h₀, h₁⟩

/-- **The table after any snapshots.** It holds the last non-empty one, of whichever host. -/
theorem mem_fleetRun {arrived : List FleetSnapshot} {table : FleetTable}
    (h : fleetRun arrived = some table) (uid : String) (x : FleetRow) :
    table.get? uid = some x ↔ ∃ r ∈ lastRows arrived, r.entityUID = uid ∧ r.toRow = x := by
  induction arrived using List.reverseRecOn generalizing table with
  | nil =>
    obtain rfl : (∅ : FleetTable) = table := Option.some.inj h
    simp [lastRows]
  | append_singleton arrived s ih =>
    obtain ⟨table₀, h₀, h₁⟩ := fleetRun_append h
    rw [acceptFleet, sendFleet] at h₁
    split_ifs at h₁ with hempty
    · obtain rfl : table₀ = table := Option.some.inj h₁
      rw [lastRows_append_of_eq_nil (List.isEmpty_iff.mp hempty), ih h₀]
    · change handleFleetBatch table₀ s.rows = some table at h₁
      rw [handleFleetBatch, if_neg hempty, upsertFleet] at h₁
      rw [lastRows_append_of_ne_nil (fun hs => hempty (by simp [hs])), mem_insertFleet h₁]
      simp

/-- The rows that `GetFleetStatus` returns are the last rows. -/
theorem mem_getFleetStatus {arrived : List FleetSnapshot} {table : FleetTable}
    (h : fleetRun arrived = some table) {out : List FleetStatus} (hout : GetFleetStatus table out)
    (r : FleetStatus) : r ∈ out ↔ r ∈ lastRows arrived := by
  rw [hout.1.mem_iff, List.mem_map]
  constructor
  · rintro ⟨⟨uid, x⟩, he, rfl⟩
    obtain ⟨r, hr, rfl, rfl⟩ := (mem_fleetRun h uid x).mp (SortedMap.mem_entries.mp he)
    rwa [toStatus_toRow]
  · intro hr
    exact ⟨(r.entityUID, r.toRow),
      SortedMap.mem_entries.mpr ((mem_fleetRun h _ _).mpr ⟨r, hr, rfl, rfl⟩), toStatus_toRow r⟩

theorem nodup_getFleetStatus {table : FleetTable} {out : List FleetStatus}
    (hout : GetFleetStatus table out) : out.Nodup := by
  rw [hout.1.nodup_iff]
  refine List.pairwise_map.mpr (table.sorted.imp fun hlt heq => hlt.ne ?_)
  exact congrArg FleetStatus.entityUID heq

theorem exists_getFleetStatus (table : FleetTable) : ∃ out, GetFleetStatus table out := by
  refine ⟨(table.entries.map fun e => e.2.toStatus e.1).mergeSort fun a b =>
    a.container ≤ b.container, List.mergeSort_perm _ _, ?_⟩
  refine (List.pairwise_mergeSort ?_ ?_ _).imp fun h => by simpa using h
  · intro a b c hab hbc
    simp only [decide_eq_true_eq] at *
    exact hab.trans hbc
  · intro a b
    simp only [Bool.or_eq_true, decide_eq_true_eq]
    exact le_total _ _

theorem nodup_mostRecentRows (hostID : String) (arrived : List FleetSnapshot) :
    (mostRecentRows hostID arrived).Nodup := by
  rw [mostRecentRows]
  split
  · exact List.nodup_nil
  · exact FleetSnapshot.nodup _

/-- The table shows the latest of every host exactly when the last rows of a host are those of
its most recent snapshot. -/
theorem showsLatest_iff {arrived : List FleetSnapshot} {table : FleetTable}
    (h : fleetRun arrived = some table) : ShowsLatest arrived table ↔
      ∀ hostID r, r ∈ mostRecentRows hostID arrived ↔
        r ∈ lastRows arrived ∧ OfHost hostID r = true := by
  have key : ∀ out, GetFleetStatus table out → ∀ hostID,
      (out.filter (OfHost hostID)).Perm (mostRecentRows hostID arrived) ↔
        ∀ r, r ∈ mostRecentRows hostID arrived ↔ r ∈ lastRows arrived ∧ OfHost hostID r = true := by
    intro out hout hostID
    rw [List.perm_ext_iff_of_nodup ((nodup_getFleetStatus hout).filter _)
      (nodup_mostRecentRows hostID arrived)]
    refine forall_congr' fun r => ?_
    rw [List.mem_filter, mem_getFleetStatus h hout]
    exact Iff.comm
  obtain ⟨out, hout⟩ := exists_getFleetStatus table
  exact ⟨fun hall hostID => (key out hout hostID).mp (hall out hout hostID),
    fun hall out hout hostID => (key out hout hostID).mpr (hall hostID)⟩

/-! ### The most recent snapshot -/

theorem mostRecent_append_of_ne {hostID : String} {arrived : List FleetSnapshot}
    {s : FleetSnapshot} (h : s.hostID ≠ hostID) :
    mostRecent hostID (arrived ++ [s]) = mostRecent hostID arrived := by
  rw [mostRecent, List.filter_append, List.filter_cons_of_neg (by simpa using h), List.filter_nil,
    List.append_nil, mostRecent]

theorem mostRecent_append_self (arrived : List FleetSnapshot) (s : FleetSnapshot) :
    mostRecent s.hostID (arrived ++ [s]) =
      SortedMap.mergeInto moreRecent (mostRecent s.hostID arrived) s := by
  rw [mostRecent, List.filter_append, List.filter_cons_of_pos (by simp), List.filter_nil,
    List.foldl_append, mostRecent]
  rfl

theorem moreRecent_cases (stored s : FleetSnapshot) :
    (moreRecent stored s = s ∧ stored.updatedAt ≤ s.updatedAt) ∨
      (moreRecent stored s = stored ∧ s.updatedAt ≤ stored.updatedAt) := by
  rw [moreRecent]
  split_ifs with h
  · exact .inr ⟨rfl, h.le⟩
  · exact .inl ⟨rfl, not_lt.mp h⟩

/-- The most recent snapshot of a host arrived from it, and none of it is newer. -/
theorem mostRecent_spec {hostID : String} {arrived : List FleetSnapshot} {m : FleetSnapshot}
    (h : mostRecent hostID arrived = some m) : m ∈ arrived ∧ m.hostID = hostID ∧
      ∀ s ∈ arrived, s.hostID = hostID → s.updatedAt ≤ m.updatedAt := by
  have hmem := SortedMap.mem_of_foldl_mergeInto
    (fun a b => (moreRecent_cases a b).symm.imp And.left And.left) h
  have hnew := SortedMap.newest_of_foldl_mergeInto FleetSnapshot.updatedAt (S := fun _ => True)
    (fun a b _ _ => moreRecent_cases a b) (fun _ _ => trivial) h
  simp only [Option.toList_none, List.nil_append, List.mem_filter, decide_eq_true_eq] at hmem hnew
  exact ⟨hmem.1, hmem.2, fun s hs hhost => hnew s ⟨hs, hhost⟩⟩

theorem mem_mostRecentRows {hostID : String} {arrived : List FleetSnapshot} {r : FleetStatus} :
    r ∈ mostRecentRows hostID arrived ↔ ∃ m, mostRecent hostID arrived = some m ∧ r ∈ m.rows := by
  rw [mostRecentRows]
  cases mostRecent hostID arrived <;> simp

/-- A snapshot whose rows the most recent one shares is as recent. -/
theorem updatedAt_eq_of_mem {s m : FleetSnapshot} {r : FleetStatus} (hs : r ∈ s.rows)
    (hm : r ∈ m.rows) : s.updatedAt = m.updatedAt :=
  (s.ofHost r hs).2.2.symm.trans (m.ofHost r hm).2.2

/-! ### When the table shows the latest -/

/-- A snapshot with the last rows, as long as they are not none, and its host. -/
theorem exists_last {arrived : List FleetSnapshot} (h : ∃ n ∈ arrived, n.rows ≠ []) :
    ∃ s ∈ arrived, s.rows = lastRows arrived ∧ s.rows ≠ [] := by
  suffices lastRows arrived ≠ [] by
    obtain ⟨s, hs, heq⟩ := exists_lastRows this
    exact ⟨s, hs, heq, heq ▸ this⟩
  obtain ⟨n, hn, hrows⟩ := h
  rw [lastRows]
  cases hlast : (arrived.filter fun s => !s.rows.isEmpty).getLast? with
  | none =>
    have := List.getLast?_eq_none_iff.mp hlast
    exact absurd (List.mem_filter.mpr ⟨hn, by simpa using hrows⟩) (this ▸ List.not_mem_nil)
  | some s =>
    have := (List.mem_filter.mp (List.mem_of_getLast? hlast)).2
    simpa using this

section Conditions

variable {arrived : List FleetSnapshot} {table : FleetTable}

/-- Every prefix of an accepted run was accepted. -/
theorem exists_fleetRun_of_prefix {pre : List FleetSnapshot} (h : fleetRun arrived = some table)
    (hpre : pre <+: arrived) : ∃ t, fleetRun pre = some t := by
  obtain ⟨rest, rfl⟩ := hpre
  rw [fleetRun, List.foldlM_append] at h
  obtain ⟨t, ht, -⟩ := Option.bind_eq_some_iff.mp h
  exact ⟨t, ht⟩

/-- In terms of last rows: what `ShowsLatest` says of every prefix. -/
def LatestIsLast (pre : List FleetSnapshot) : Prop :=
  ∀ hostID r, r ∈ mostRecentRows hostID pre ↔ r ∈ lastRows pre ∧ OfHost hostID r = true

/-- A host with rows in its most recent snapshot is the host of the last rows. -/
theorem host_of_latestIsLast {pre : List FleetSnapshot} (h : LatestIsLast pre)
    {hostID : String} {r : FleetStatus} (hr : r ∈ mostRecentRows hostID pre) {s : FleetSnapshot}
    (hs : s.rows = lastRows pre) : hostID = s.hostID := by
  obtain ⟨hlast, hof⟩ := (h hostID r).mp hr
  exact (s.ofHost_iff (hs ▸ hlast) hostID).mp hof

/-- The most recent snapshot of the host of the last rows has those rows' time. -/
theorem mostRecent_of_latestIsLast {pre : List FleetSnapshot} (h : LatestIsLast pre)
    {s : FleetSnapshot} (hs : s.rows = lastRows pre) (hne : s.rows ≠ []) :
    ∃ m r, mostRecent s.hostID pre = some m ∧ r ∈ m.rows ∧ r ∈ s.rows ∧
      m.updatedAt = s.updatedAt := by
  obtain ⟨r, hr⟩ := List.exists_mem_of_ne_nil _ hne
  have hmem := (h s.hostID r).mpr ⟨hs ▸ hr, (s.ofHost_iff hr s.hostID).mpr rfl⟩
  obtain ⟨m, hm, hrm⟩ := mem_mostRecentRows.mp hmem
  exact ⟨m, r, hm, hrm, hr, updatedAt_eq_of_mem hrm hr⟩

/-- Where every prefix shows the latest, all rows come from one host. -/
theorem oneHost_of_latestIsLast (h : ∀ pre, pre <+: arrived → LatestIsLast pre) :
    ∀ s ∈ arrived, ∀ s' ∈ arrived, s.rows ≠ [] → s'.rows ≠ [] → s.hostID = s'.hostID := by
  -- by induction on the prefix: a first row of another host would hide those that are there
  suffices ∀ pre, pre <+: arrived →
      ∀ s ∈ pre, ∀ s' ∈ pre, s.rows ≠ [] → s'.rows ≠ [] → s.hostID = s'.hostID from
    this arrived (List.prefix_refl _)
  intro pre
  induction pre using List.reverseRecOn with
  | nil => exact fun _ s hs => absurd hs List.not_mem_nil
  | append_singleton pre n ih =>
    intro hpre
    have hpre₀ : pre <+: arrived := (List.prefix_append pre [n]).trans hpre
    have hnew : ∀ s ∈ pre, s.rows ≠ [] → n.rows ≠ [] → s.hostID = n.hostID := by
      intro s hs hsrows hnrows
      obtain ⟨l, hl, hlrows, hlne⟩ := exists_last ⟨s, hs, hsrows⟩
      obtain ⟨m, r, hm, hrm, -, -⟩ := mostRecent_of_latestIsLast (h pre hpre₀) hlrows hlne
      rw [ih hpre₀ s hs l hl hsrows hlne]
      by_contra hhost
      have hmem : r ∈ mostRecentRows l.hostID (pre ++ [n]) :=
        mem_mostRecentRows.mpr ⟨m, by rw [mostRecent_append_of_ne (Ne.symm hhost), hm], hrm⟩
      exact hhost (host_of_latestIsLast (h _ hpre) hmem (lastRows_append_of_ne_nil hnrows).symm)
    intro s hs s' hs' hsrows hsrows'
    rcases List.mem_append.mp hs with h₁ | h₁ <;> rcases List.mem_append.mp hs' with h₂ | h₂
    · exact ih hpre₀ s h₁ s' h₂ hsrows hsrows'
    · obtain rfl := List.mem_singleton.mp h₂
      exact hnew s h₁ hsrows hsrows'
    · obtain rfl := List.mem_singleton.mp h₁
      exact (hnew s' h₂ hsrows' hsrows).symm
    · rw [List.mem_singleton.mp h₁, List.mem_singleton.mp h₂]

/-- Where every prefix shows the latest, the snapshots are in order. -/
theorem singleHostInOrder_of_latestIsLast (h : ∀ pre, pre <+: arrived → LatestIsLast pre) :
    SingleHostInOrder arrived := by
  refine ⟨oneHost_of_latestIsLast h, fun pre s hpre hrows s' hs' hhost => ?_,
    fun pre s hpre hrows hn => ?_⟩
  · obtain ⟨m, -, hm, -, -, hat⟩ :=
      mostRecent_of_latestIsLast (h _ hpre) (lastRows_append_of_ne_nil hrows).symm hrows
    rw [← hat]
    exact (mostRecent_spec hm).2.2 s' (List.mem_append_left _ hs') hhost
  · obtain ⟨n, hn, hnrows, hnhost⟩ := hn
    have hpre₀ : pre <+: arrived := (List.prefix_append pre [s]).trans hpre
    obtain ⟨l, hl, hlrows, hlne⟩ := exists_last ⟨n, hn, hnrows⟩
    have hlhost : l.hostID = s.hostID :=
      (oneHost_of_latestIsLast h l (hpre₀.subset hl) n (hpre₀.subset hn) hlne hnrows).trans hnhost
    obtain ⟨m, r, hm, hrm, -, hat⟩ := mostRecent_of_latestIsLast (h _ hpre)
      (hlrows.trans (lastRows_append_of_eq_nil hrows).symm) hlne
    refine ⟨l, hl, hlne, hlhost, ?_⟩
    rw [hlhost, mostRecent_append_self] at hm
    -- the empty snapshot is not the most recent one, which has rows
    cases hold : mostRecent s.hostID pre with
    | none =>
      rw [hold, SortedMap.mergeInto, Option.some.injEq] at hm
      rw [← hm, hrows] at hrm
      exact absurd hrm List.not_mem_nil
    | some old =>
      rw [hold, SortedMap.mergeInto, Option.some.injEq, moreRecent] at hm
      split_ifs at hm with hlt
      · rw [← hat, ← hm]
        exact hlt
      · rw [← hm, hrows] at hrm
        exact absurd hrm List.not_mem_nil

/-- In order, the last rows are those of the most recent snapshot of the one host. -/
theorem mostRecent_eq_last (h : SingleHostInOrder arrived) {pre : List FleetSnapshot}
    (hpre : pre <+: arrived) (hne : ∃ n ∈ pre, n.rows ≠ []) :
    ∃ s ∈ pre, s.rows ≠ [] ∧ s.rows = lastRows pre ∧ mostRecent s.hostID pre = some s := by
  induction pre using List.reverseRecOn with
  | nil =>
    obtain ⟨n, hn, -⟩ := hne
    exact absurd hn List.not_mem_nil
  | append_singleton pre n ih =>
    have hpre₀ : pre <+: arrived := (List.prefix_append pre [n]).trans hpre
    rcases eq_or_ne n.rows [] with hrows | hrows
    · obtain ⟨l, hl, hlrows⟩ := hne
      have hl : l ∈ pre := by
        rcases List.mem_append.mp hl with hl | hl
        · exact hl
        · exact absurd (List.mem_singleton.mp hl ▸ hrows) hlrows
      obtain ⟨s, hs, hsne, hsrows, hrecent⟩ := ih hpre₀ ⟨l, hl, hlrows⟩
      refine ⟨s, List.mem_append_left _ hs, hsne, ?_, ?_⟩
      · rw [hsrows, lastRows_append_of_eq_nil hrows]
      · rcases eq_or_ne n.hostID s.hostID with hhost | hhost
        · obtain ⟨o, ho, -, hohost, hlt⟩ := h.noEmpty pre n hpre hrows ⟨s, hs, hsne, hhost.symm⟩
          have hle := (mostRecent_spec hrecent).2.2 o ho (hohost.trans hhost)
          rw [← hhost, mostRecent_append_self, hhost, hrecent, SortedMap.mergeInto, moreRecent,
            if_pos (hlt.trans_le hle)]
        · rw [mostRecent_append_of_ne hhost, hrecent]
    · refine ⟨n, List.mem_append_right _ List.mem_cons_self, hrows,
        (lastRows_append_of_ne_nil hrows).symm, ?_⟩
      rw [mostRecent_append_self]
      cases hold : mostRecent n.hostID pre with
      | none => rfl
      | some old =>
        obtain ⟨hold, hhost, -⟩ := mostRecent_spec hold
        have hle := h.inOrder pre n hpre hrows old hold hhost
        rw [SortedMap.mergeInto, moreRecent, if_neg (not_lt.mpr hle)]

/-- In order, every prefix shows the latest. -/
theorem latestIsLast_of_singleHostInOrder (h : SingleHostInOrder arrived)
    {pre : List FleetSnapshot} (hpre : pre <+: arrived) : LatestIsLast pre := by
  intro hostID r
  by_cases hne : ∃ n ∈ pre, n.rows ≠ []
  · obtain ⟨s, hs, hsne, hsrows, hrecent⟩ := mostRecent_eq_last h hpre hne
    rw [← hsrows, mem_mostRecentRows]
    constructor
    · rintro ⟨m, hm, hr⟩
      obtain ⟨hmem, hmhost, -⟩ := mostRecent_spec hm
      have hhost := h.oneHost m (hpre.subset hmem) s (hpre.subset hs) (List.ne_nil_of_mem hr) hsne
      rw [← hmhost, hhost, hrecent] at hm
      obtain rfl : s = m := Option.some.inj hm
      exact ⟨hr, (s.ofHost_iff hr hostID).mpr hmhost.symm⟩
    · rintro ⟨hr, hof⟩
      exact ⟨s, (s.ofHost_iff hr hostID).mp hof ▸ hrecent, hr⟩
  -- without rows there is nothing to show
  · have hempty : ∀ n ∈ pre, n.rows = [] := fun n hn =>
      by_contra fun hrows => hne ⟨n, hn, hrows⟩
    have hlast : lastRows pre = [] := by
      by_contra hrows
      obtain ⟨s, hs, heq⟩ := exists_lastRows hrows
      exact hrows (heq ▸ hempty s hs)
    rw [hlast, mem_mostRecentRows]
    constructor
    · rintro ⟨m, hm, hr⟩
      rw [hempty m (mostRecent_spec hm).1] at hr
      exact absurd hr List.not_mem_nil
    · rintro ⟨hr, -⟩
      exact absurd hr List.not_mem_nil

end Conditions

/-- The snapshots of one host that always has containers, arriving in the order of their times. -/
theorem singleHostInOrder_of_sorted {arrived : List FleetSnapshot} (hostID : String)
    (hhost : ∀ s ∈ arrived, s.hostID = hostID ∧ s.rows ≠ [])
    (hsorted : arrived.Pairwise fun a b => a.updatedAt ≤ b.updatedAt) :
    SingleHostInOrder arrived where
  oneHost s hs s' hs' _ _ := (hhost s hs).1.trans (hhost s' hs').1.symm
  inOrder pre s hpre _ s' hs' _ := by
    obtain ⟨rest, rfl⟩ := hpre
    have hpair := (List.pairwise_append.mp (List.pairwise_append.mp hsorted).1).2.2
    exact hpair s' hs' s (List.mem_singleton.mpr rfl)
  noEmpty pre s hpre hrows _ :=
    absurd hrows (hhost s (hpre.subset (by simp))).2

/-- **When the fleet table shows the latest of every host.** After each accepted snapshot
`GetFleetStatus` returns, for every host, the rows of its most recent snapshot, if and only if a
single host reports, none of its snapshots with rows arrives after a newer one, and none of its
later snapshots is empty and up to date. -/
theorem fleet_latest_per_host {arrived : List FleetSnapshot} {table : FleetTable}
    (h : fleetRun arrived = some table) :
    (∀ pre t, pre <+: arrived → fleetRun pre = some t → ShowsLatest pre t) ↔
      SingleHostInOrder arrived := by
  constructor
  · intro hall
    refine singleHostInOrder_of_latestIsLast fun pre hpre => ?_
    obtain ⟨t, ht⟩ := exists_fleetRun_of_prefix h hpre
    exact (showsLatest_iff ht).mp (hall pre t hpre ht)
  · exact fun horder pre t hpre ht =>
      (showsLatest_iff ht).mpr (latestIsLast_of_singleHostInOrder horder hpre)

/-- One container of a host, at one time. -/
def oneContainer (hostID name : String) (now : Time) (hname : DockerName name) :
    FleetSnapshot :=
  collectFleet hostID now [(⟨name, ∅, "running", "Up"⟩, none)]
    (fun it hit => by rw [List.mem_singleton.mp hit]; exact hname) (List.pairwise_singleton _ _)

/-- Host `a` reports its container at noon and a minute later. -/
theorem fleet_latest_per_host_one_host :
    ∃ table, fleetRun [oneContainer "a" "web" ⟨63844891200000000000⟩ (by decide),
        oneContainer "a" "web" ⟨63844891260000000000⟩ (by decide)] = some table ∧
      ShowsLatest [oneContainer "a" "web" ⟨63844891200000000000⟩ (by decide),
        oneContainer "a" "web" ⟨63844891260000000000⟩ (by decide)] table := by
  obtain ⟨table, h⟩ := Option.isSome_iff_exists.mp (show (fleetRun
    [oneContainer "a" "web" ⟨63844891200000000000⟩ (by decide),
      oneContainer "a" "web" ⟨63844891260000000000⟩ (by decide)]).isSome by decide +kernel)
  refine ⟨table, h, (fleet_latest_per_host h).mpr (singleHostInOrder_of_sorted "a" ?_ ?_) _ table
    (List.prefix_refl _) h⟩
  · simp only [List.mem_cons, List.not_mem_nil, or_false]
    rintro s (rfl | rfl) <;> exact ⟨rfl, List.cons_ne_nil _ _⟩
  · exact List.pairwise_cons.mpr ⟨fun s hs => by rw [List.mem_singleton.mp hs]; decide,
      List.pairwise_singleton _ _⟩

/-- **Two hosts.** Hosts `a` and `b` report one container each; the snapshot of `b` deletes the
row of `a`. -/
theorem second_host_hides_first : ¬ ∀ (arrived : List FleetSnapshot) (table : FleetTable),
    fleetRun arrived = some table → ShowsLatest arrived table := by
  intro hall
  obtain ⟨table, h⟩ := Option.isSome_iff_exists.mp (show (fleetRun
    [oneContainer "a" "web" ⟨63844891200000000000⟩ (by decide),
      oneContainer "b" "db" ⟨63844891260000000000⟩ (by decide)]).isSome by decide +kernel)
  have hshows := (showsLatest_iff h).mp (hall _ table h) "a"
    (fleetRowFromContainer "a" ⟨63844891200000000000⟩ ⟨"web", ∅, "running", "Up"⟩ none)
  exact absurd hshows (by decide +kernel)

end Argus
