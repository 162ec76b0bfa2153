import Argus.Foundations.Requests
import Argus.Hub.DerivedViews
import Argus.Hub.Discover
import Argus.Hub.GroupTable
import Argus.Hub.MemoryPct

/-!
# The handlers of workload groups

The handlers of `/api/v1/workload-groups` as programs over the statements that they send. The
database answers a statement by the tables of its moment, any statement may fail, and a failed one
may have been run nevertheless. What the handlers read of the metrics are the workloads since some
time; they write none, but agents do at any time.
-/

namespace Argus

open Foundations
open Model (WorkloadGroupInput)

/-! ### Statements -/

/-- What the handlers ask for. -/
inductive GroupOp
  /-- `time.Now()`. -/
  | now
  /-- `uuid.NewString()`. -/
  | newID
  | insert (id : String) (row : GroupRow)
  | update (id : String) (columns : GroupColumns)
  | delete (id : String)
  | select (id : String)
  | selectAll
  /-- `ListWorkloads`. -/
  | workloads (since : Time)
  /-- `groups.Discover`, which goes through its maps in any order. -/
  | discover (workloads : List WorkloadSnapshot)

/-- The answers: an error is `none` or `false`, and a change gives the number of its rows. -/
abbrev GroupOp.Answer : GroupOp → Type
  | now => Time
  | newID => String
  | insert .. => Bool
  | update .. => Option ℕ
  | delete _ => Option ℕ
  | select _ => Option (Option GroupRow)
  | selectAll => Option (List (String × GroupRow))
  | workloads _ => Option (List WorkloadSnapshot)
  | discover _ => List SuggestedGroup

/-- A call with its answer. -/
abbrev GroupCall : Type := Σ o : GroupOp, o.Answer

/-- A call that is answered with an error. -/
def GroupCall.failed : GroupCall → Bool
  | ⟨.insert .., ok⟩ => !ok
  | ⟨.update .., n⟩ => n.isNone
  | ⟨.delete _, n⟩ => n.isNone
  | ⟨.select _, row⟩ => row.isNone
  | ⟨.selectAll, rows⟩ => rows.isNone
  | ⟨.workloads _, w⟩ => w.isNone
  | _ => false

/-- A program of a handler. -/
abbrev GroupM (α : Type) : Type := Program GroupOp GroupOp.Answer α

/-- The table of the groups, by the ids. -/
abbrev GroupTable : Type := SortedMap String GroupRow

/-- The tables that the handlers read. -/
structure GroupDb where
  groups : GroupTable
  metrics : MetricTables

/-- The table after an update. -/
def updateRow (t : GroupTable) (id : String) (columns : GroupColumns) : GroupTable :=
  (t.get? id).elim t fun old => t.insert id { old with toGroupColumns := columns }

/-- The number of rows of an id. -/
def rowsOf (t : GroupTable) (id : String) : ℕ := if (t.get? id).isSome then 1 else 0

/-- The answers about the groups of a database that orders names by `le`, and the table after them.
A statement with a text that a column does not take is answered with an error. -/
inductive GroupAnswers (le : String → String → Prop) (t : GroupTable) :
    (o : GroupOp) → o.Answer → GroupTable → Prop
  | now {time : Time} (years : time.InYears) : GroupAnswers le t .now time t
  | newID (id : String) : GroupAnswers le t .newID id t
  | inserted {id : String} {row : GroupRow} (valid : validTexts (id :: row.createdAt :: row.texts))
      (free : t.get? id = none) : GroupAnswers le t (.insert id row) true (t.insert id row)
  /-- The answer is lost. -/
  | insertLost {id : String} {row : GroupRow}
      (valid : validTexts (id :: row.createdAt :: row.texts)) (free : t.get? id = none) :
      GroupAnswers le t (.insert id row) false (t.insert id row)
  | insertFailed (id : String) (row : GroupRow) : GroupAnswers le t (.insert id row) false t
  | updated {id : String} {columns : GroupColumns} (valid : validTexts (id :: columns.texts)) :
      GroupAnswers le t (.update id columns) (some (rowsOf t id)) (updateRow t id columns)
  | updateLost {id : String} {columns : GroupColumns} (valid : validTexts (id :: columns.texts)) :
      GroupAnswers le t (.update id columns) none (updateRow t id columns)
  | updateFailed (id : String) (columns : GroupColumns) :
      GroupAnswers le t (.update id columns) none t
  | deleted {id : String} (valid : validText id = true) :
      GroupAnswers le t (.delete id) (some (rowsOf t id)) (t.erase id)
  | deleteLost {id : String} (valid : validText id = true) :
      GroupAnswers le t (.delete id) none (t.erase id)
  | deleteFailed (id : String) : GroupAnswers le t (.delete id) none t
  | selected {id : String} (valid : validText id = true) :
      GroupAnswers le t (.select id) (some (t.get? id)) t
  | selectFailed (id : String) : GroupAnswers le t (.select id) none t
  | listed {rows : List (String × GroupRow)} (perm : rows.Perm t.entries)
      (sorted : rows.Pairwise fun a b => le a.2.name b.2.name) :
      GroupAnswers le t .selectAll (some rows) t
  | listFailed : GroupAnswers le t .selectAll none t
  | discovered {workloads : List WorkloadSnapshot} {out : List SuggestedGroup}
      (discovers : Discover workloads out) : GroupAnswers le t (.discover workloads) out t

/-- The answers of the database, and its tables after them: the tables of the metrics are what
agents have made of them by then. -/
inductive GroupDbAnswers (le : String → String → Prop) (db : GroupDb) :
    (o : GroupOp) → o.Answer → GroupDb → Prop
  | groups {o : GroupOp} {r : o.Answer} {t : GroupTable} (answers : GroupAnswers le db.groups o r t)
      (metrics : MetricTables) : GroupDbAnswers le db o r ⟨t, metrics⟩
  | workloads {since : Time} {w : List WorkloadSnapshot} (lists : ListWorkloads db.metrics since w)
      (metrics : MetricTables) :
      GroupDbAnswers le db (.workloads since) (some w) ⟨db.groups, metrics⟩
  | workloadsFailed (since : Time) (metrics : MetricTables) :
      GroupDbAnswers le db (.workloads since) none ⟨db.groups, metrics⟩

/-! ### The store -/

/-- `GetWorkloadGroup`. -/
def GetWorkloadGroup (id : String) : GroupM (Except StoreError Model.WorkloadGroup) :=
  .call (.select id) fun
    | none => .ret (.error .failed)
    | some none => .ret (.error .notFound)
    | some (some row) => .ret (.ok (row.scan id))

/-- `CreateWorkloadGroup`. -/
def CreateWorkloadGroup (i : WorkloadGroupInput) :
    GroupM (Except StoreError Model.WorkloadGroup) :=
  .call .now fun now => .call .newID fun id =>
    .call (.insert id ⟨groupColumns i now, now.format⟩) fun ok =>
      if ok then GetWorkloadGroup id else .ret (.error .failed)

/-- `UpdateWorkloadGroup`. -/
def UpdateWorkloadGroup (id : String) (i : WorkloadGroupInput) :
    GroupM (Except StoreError Model.WorkloadGroup) :=
  .call .now fun now => .call (.update id (groupColumns i now)) fun
    | none => .ret (.error .failed)
    | some n => if n = 0 then .ret (.error .notFound) else GetWorkloadGroup id

/-- `DeleteWorkloadGroup`. -/
def DeleteWorkloadGroup (id : String) : GroupM (Option StoreError) :=
  .call (.delete id) fun
    | none => .ret (some .failed)
    | some n => .ret (if n = 0 then some .notFound else none)

/-- `ListWorkloadGroups`. -/
def ListWorkloadGroups : GroupM (Option (List Model.WorkloadGroup)) :=
  .call .selectAll fun rows => .ret (rows.map fun l => l.map fun e => e.2.scan e.1)

/-! ### The handlers -/

/-- A request; a body is what was decoded of it, if it is JSON. -/
inductive GroupRequest
  | list
  | discover
  | create (body : Option WorkloadGroupInput)
  | get (id : String)
  /-- With the parameter `since`. -/
  | summary (id since : String)
  | update (id : String) (body : Option WorkloadGroupInput)
  | delete (id : String)

/-- `model.WorkloadGroupSummary`. A sum or a mean that is not a number is none. -/
structure Model.WorkloadGroupSummary where
  group : Model.WorkloadGroup
  memberCount : ℕ
  avgCPU : Option Extended
  avgMemoryPct : Option Extended
  totalMemory : Option Extended
  members : List WorkloadSnapshot

/-- An answer: an error, a group, groups, suggested groups, a summary, or no content. -/
inductive GroupResponse
  | error (e : HttpError)
  | group (status : ℕ) (g : Model.WorkloadGroup)
  | groups (l : List Model.WorkloadGroup)
  | discovered (l : List SuggestedGroup)
  | summary (s : Model.WorkloadGroupSummary)
  | noContent

/-- The input of a body, normalised and validated. -/
def acceptGroup (body : Option WorkloadGroupInput) : Except HttpError WorkloadGroupInput :=
  match body with
  | none => .error ⟨400, "invalid json"⟩
  | some i =>
    match validateGroupInput (normalizeGroupInput i) with
    | some text => .error ⟨400, text⟩
    | none => .ok (normalizeGroupInput i)

/-- How the handlers of one group answer an error of the store. -/
def StoreError.answer : StoreError → GroupResponse
  | .notFound => .error ⟨404, "not found"⟩
  | .failed => .error ⟨500, "store error"⟩

/-- Half an hour. -/
def halfHour : ℤ := 1800000000000

/-- The count of the members of a group. -/
def withMembers (workloads : List WorkloadSnapshot) (g : Model.WorkloadGroup) :
    Model.WorkloadGroup :=
  { g with memberCount := (FilterWorkloads workloads (groupSelector g)).length }

/-- A sum of numbers, in their order. -/
def sumFloats (l : List Extended) : Option Extended :=
  l.foldl (fun sum x => sum.bind fun s => addFloat s x) (some (.finite 0))

/-- The share of the memory that a workload uses, which is no number where both are infinite. -/
def memoryShare (m : WorkloadSnapshot) : Option Extended :=
  match m.memoryUsage, m.memoryLimit with
  | .infinite _, .infinite _ => none
  | usage, limit => some (usageShare usage limit)

/-- `groups.Summarize`. -/
def Model.WorkloadGroup.summarize (g : Model.WorkloadGroup) (members : List WorkloadSnapshot) :
    Model.WorkloadGroupSummary :=
  let limited := members.filter fun m => Extended.positive m.memoryLimit
  { group := g
    memberCount := members.length
    members := members
    avgCPU := if members = [] then some (.finite 0)
      else (sumFloats (members.map WorkloadSnapshot.cpuUsage)).map
        fun s => divFloat s members.length
    totalMemory := if members = [] then some (.finite 0)
      else sumFloats (members.map WorkloadSnapshot.memoryUsage)
    avgMemoryPct := if limited = [] then some (.finite 0)
      else ((limited.mapM memoryShare).bind sumFloats).map fun s => divFloat s limited.length }

/-- `handleListGroups`. An error of `ListWorkloads` is no workloads. -/
def handleListGroups : GroupM GroupResponse :=
  ListWorkloadGroups >>= fun
    | none => .ret (.error ⟨500, "store error"⟩)
    | some list => .call .now fun now => .call (.workloads (now.add (-halfHour))) fun workloads =>
      .ret (.groups (list.map (withMembers (workloads.getD []))))

/-- `handleDiscoverGroups`. -/
def handleDiscoverGroups : GroupM GroupResponse :=
  .call .now fun now => .call (.workloads (now.add (-halfHour))) fun
    | none => .ret (.error ⟨500, "store error"⟩)
    | some workloads => .call (.discover workloads) fun out => .ret (.discovered out)

/-- `handleCreateGroup`. -/
def handleCreateGroup (body : Option WorkloadGroupInput) : GroupM GroupResponse :=
  match acceptGroup body with
  | .error e => .ret (.error e)
  | .ok i => CreateWorkloadGroup i >>= fun
    | .error _ => .ret (.error ⟨500, "store error"⟩)
    | .ok g => .ret (.group 201 g)

theorem handleCreateGroup_of_ok {body : Option WorkloadGroupInput} {i : WorkloadGroupInput}
    (h : acceptGroup body = .ok i) : handleCreateGroup body =
      CreateWorkloadGroup i >>= fun
      | .error _ => .ret (.error ⟨500, "store error"⟩)
      | .ok g => .ret (.group 201 g) := by
  rw [handleCreateGroup, h]

/-- `handleGetGroup`. -/
def handleGetGroup (id : String) : GroupM GroupResponse :=
  GetWorkloadGroup id >>= fun
    | .error err => .ret err.answer
    | .ok g => .ret (.group 200 g)

/-- `handleUpdateGroup`. -/
def handleUpdateGroup (id : String) (body : Option WorkloadGroupInput) : GroupM GroupResponse :=
  match acceptGroup body with
  | .error e => .ret (.error e)
  | .ok i => UpdateWorkloadGroup id i >>= fun
    | .error err => .ret err.answer
    | .ok g => .ret (.group 200 g)

/-- `handleDeleteGroup`. -/
def handleDeleteGroup (id : String) : GroupM GroupResponse :=
  DeleteWorkloadGroup id >>= fun
    | some err => .ret err.answer
    | none => .ret .noContent

/-- `handleGroupSummary`. -/
def handleGroupSummary (tt : TimeTexts) (id since : String) : GroupM GroupResponse :=
  GetWorkloadGroup id >>= fun
    | .error err => .ret err.answer
    | .ok g => .call .now fun now =>
      match requestWindow tt now halfHour since with
      | none => .ret (.error ⟨400, "invalid range"⟩)
      | some window => .call (.workloads window.1) fun
        | none => .ret (.error ⟨500, "store error"⟩)
        | some workloads =>
          .ret (.summary (g.summarize (FilterWorkloads workloads (groupSelector g))))

/-- The handler of a request. -/
def GroupRequest.handler (tt : TimeTexts) : GroupRequest → GroupM GroupResponse
  | list => handleListGroups
  | discover => handleDiscoverGroups
  | create body => handleCreateGroup body
  | get id => handleGetGroup id
  | summary id since => handleGroupSummary tt id since
  | update id body => handleUpdateGroup id body
  | delete id => handleDeleteGroup id

end Argus
