import Argus.Hub.GroupHandlers

/-!
# Requests for workload groups

The hub as a service for workload groups: any number of requests run at the same time, each
statement is answered by the tables of its moment, any statement may fail, and a failed one may have
been run nevertheless.

`groups_registry` says what the table is at any time: the rows of a map from ids to records, each of
which has been normalised and validated, that changes by one record at a time. `groups_answered`
compares every answer with the tables that there were while its request ran, and with what its own
statements were answered: an error of the store is one of a statement, and members are those of the
workloads that the request has read.
-/

namespace Argus

open Foundations
open Model (WorkloadGroupInput)

/-! ### The registry -/

/-- A table that holds the rows of records. -/
def IsRegistry (t : GroupTable) : Prop :=
  ∃ registry : SortedMap String GroupRecord, t = registry.map GroupRecord.row

/-- What changes a table: one record comes, is replaced without its creation time, or goes. -/
inductive GroupChange : GroupTable → GroupTable → Prop
  | none (t : GroupTable) : GroupChange t t
  | created {t : GroupTable} {id : String} (r : GroupRecord) (free : t.get? id = none)
      (first : r.updatedAt = r.createdAt) : GroupChange t (t.insert id r.row)
  | updated {t : GroupTable} {id : String} {old : GroupRecord} (new : GroupRecord)
      (there : t.get? id = some old.row) (kept : new.createdAt = old.createdAt) :
      GroupChange t (t.insert id new.row)
  | deleted (t : GroupTable) (id : String) : GroupChange t (t.erase id)

theorem IsRegistry.insert {t : GroupTable} (h : IsRegistry t) (id : String) (r : GroupRecord) :
    IsRegistry (t.insert id r.row) := by
  obtain ⟨registry, rfl⟩ := h
  refine ⟨registry.insert id r, SortedMap.ext fun k => ?_⟩
  rw [SortedMap.get?_insert, SortedMap.get?_map, SortedMap.get?_map, SortedMap.get?_insert]
  split_ifs <;> rfl

theorem IsRegistry.erase {t : GroupTable} (h : IsRegistry t) (id : String) :
    IsRegistry (t.erase id) := by
  obtain ⟨registry, rfl⟩ := h
  refine ⟨registry.erase id, SortedMap.ext fun k => ?_⟩
  rw [SortedMap.get?_erase, SortedMap.get?_map, SortedMap.get?_map, SortedMap.get?_erase]
  split_ifs <;> rfl

/-- The changes keep the registry. -/
theorem IsRegistry.change {t t' : GroupTable} (h : IsRegistry t) (hchange : GroupChange t t') :
    IsRegistry t' := by
  cases hchange with
  | none => exact h
  | created r _ _ => exact h.insert _ r
  | updated new _ _ => exact h.insert _ new
  | deleted id => exact h.erase id

theorem IsRegistry.exists_record {t : GroupTable} (h : IsRegistry t) {id : String} {row : GroupRow}
    (hrow : t.get? id = some row) : ∃ r : GroupRecord, row = r.row := by
  obtain ⟨registry, rfl⟩ := h
  rw [SortedMap.get?_map] at hrow
  obtain ⟨r, -, hr⟩ := Option.map_eq_some_iff.mp hrow
  exact ⟨r, hr.symm⟩

/-- An accepted input is that of a record. -/
theorem accepted_of_ok {body : Option WorkloadGroupInput} {i : WorkloadGroupInput}
    (h : acceptGroup body = .ok i) : normalizeGroupInput i = i ∧ validateGroupInput i = none := by
  cases body with
  | none => exact absurd h (by simp [acceptGroup])
  | some raw =>
    cases hvalid : validateGroupInput (normalizeGroupInput raw) with
    | some text => exact absurd h (by simp [acceptGroup, hvalid])
    | none =>
      simp only [acceptGroup, hvalid] at h
      obtain rfl := Except.ok.inj h
      exact ⟨normalizeGroupInput_idem raw, hvalid⟩

/-- The groups of a database are a registry. -/
abbrev GroupsKept (db : GroupDb) : Prop := IsRegistry db.groups

/-- A change of a database: one of the groups, and any of the metrics. -/
abbrev GroupsChange (db db' : GroupDb) : Prop := GroupChange db.groups db'.groups

theorem GroupsKept.change {db db' : GroupDb} (h : GroupsKept db) (hchange : GroupsChange db db') :
    GroupsKept db' :=
  IsRegistry.change h hchange

/-! ### What explains an answer -/

/-- The tables of the groups that a request has lived through. -/
def tablesOfGroups (lived : List GroupDb) : List GroupTable := lived.map GroupDb.groups

/-- The group is missing in the table `first` or in a later one. -/
def MissingSince (first : GroupTable) (older lived : List GroupTable) (id : String) : Prop :=
  ∃ newer, lived = newer ++ first :: older ∧ ∃ t ∈ newer ++ [first], t.get? id = none

/-- A group was read, from the table `first` or a later one. -/
def ReadsSince (first : GroupTable) (older lived : List GroupTable) (id : String)
    (g : Model.WorkloadGroup) : Prop :=
  ∃ newer, lived = newer ++ first :: older ∧ ∃ t ∈ newer ++ [first], ∃ r : GroupRecord,
    t.get? id = some r.row ∧ g = r.group id

/-- A request has read the workloads since some time, which were these at a moment that it has lived
through. -/
def ReadsWorkloads (lived : List GroupDb) (made : List GroupCall) (since : Time)
    (w : List WorkloadSnapshot) : Prop :=
  ⟨.workloads since, some w⟩ ∈ made ∧ ∃ db ∈ lived, ListWorkloads db.metrics since w

/-- The id of a request for one group. -/
def GroupRequest.id? : GroupRequest → Option String
  | get id => some id
  | summary id _ => some id
  | update id _ => some id
  | delete id => some id
  | _ => none

/-- The body of a request that has one. -/
def GroupRequest.body? : GroupRequest → Option (Option WorkloadGroupInput)
  | create body => some body
  | update _ body => some body
  | _ => none

/-- What explains the answer to a request that has lived through some tables and made some calls,
newest first. -/
inductive GroupExplained (tt : TimeTexts) (le : String → String → Prop) :
    GroupRequest → List GroupDb → List GroupCall → GroupResponse → Prop
  /-- A body that is refused. -/
  | refused {q : GroupRequest} {lived : List GroupDb} {made : List GroupCall}
      {body : Option WorkloadGroupInput} {e : HttpError} (has : q.body? = some body)
      (refused : acceptGroup body = .error e) : GroupExplained tt le q lived made (.error e)
  /-- A window that is refused, of a group that was there at some time. -/
  | badRange {lived : List GroupDb} {made : List GroupCall} {id since : String} {now : Time}
      {t : GroupTable} (seen : t ∈ tablesOfGroups lived) (there : (t.get? id).isSome)
      (asked : ⟨.now, now⟩ ∈ made) (bad : requestWindow tt now halfHour since = none) :
      GroupExplained tt le (.summary id since) lived made (.error ⟨400, "invalid range"⟩)
  /-- A statement of the request failed, after a body that is accepted. -/
  | failed {q : GroupRequest} {lived : List GroupDb} {made : List GroupCall}
      (accepted : ∀ body, q.body? = some body → ∃ i, acceptGroup body = .ok i)
      {c : GroupCall} (call : c ∈ made) (failed : c.failed = true) :
      GroupExplained tt le q lived made (.error ⟨500, "store error"⟩)
  /-- The group was not there at some time. -/
  | notFound {q : GroupRequest} {lived : List GroupDb} {made : List GroupCall} {id : String}
      (about : q.id? = some id) {t : GroupTable} (seen : t ∈ tablesOfGroups lived)
      (missing : t.get? id = none) :
      GroupExplained tt le q lived made (.error ⟨404, "not found"⟩)
  /-- The group was there at some time. -/
  | got {lived : List GroupDb} {made : List GroupCall} {id : String} {g : Model.WorkloadGroup}
      {t : GroupTable} (seen : t ∈ tablesOfGroups lived) (r : GroupRecord)
      (there : t.get? id = some r.row) (is : g = r.group id) :
      GroupExplained tt le (.get id) lived made (.group 200 g)
  /-- The request put a record under a free id, and read it afterwards. -/
  | created {body : Option WorkloadGroupInput} {lived : List GroupDb} {made : List GroupCall}
      {older : List GroupTable} {t : GroupTable} {g : Model.WorkloadGroup} (r : GroupRecord)
      (accepted : acceptGroup body = .ok r.input) (first : r.updatedAt = r.createdAt)
      (wrote : ⟨.insert g.id r.row, true⟩ ∈ made) (free : t.get? g.id = none)
      (reads : ReadsSince (t.insert g.id r.row) (t :: older) (tablesOfGroups lived) g.id g) :
      GroupExplained tt le (.create body) lived made (.group 201 g)
  /-- The request put a record under a free id, and it was gone when it was read. -/
  | vanished {body : Option WorkloadGroupInput} {lived : List GroupDb} {made : List GroupCall}
      {older : List GroupTable} {t : GroupTable} {id : String} (r : GroupRecord)
      (accepted : acceptGroup body = .ok r.input)
      (wrote : ⟨.insert id r.row, true⟩ ∈ made) (free : t.get? id = none)
      (gone : MissingSince (t.insert id r.row) (t :: older) (tablesOfGroups lived) id) :
      GroupExplained tt le (.create body) lived made (.error ⟨500, "store error"⟩)
  /-- The request replaced the record, and read it afterwards. -/
  | updated {id : String} {body : Option WorkloadGroupInput} {lived : List GroupDb}
      {made : List GroupCall} {older : List GroupTable} {t : GroupTable} {g : Model.WorkloadGroup}
      (old new : GroupRecord) (accepted : acceptGroup body = .ok new.input)
      (wrote : ⟨.update id new.row.toGroupColumns, some 1⟩ ∈ made)
      (there : t.get? id = some old.row) (kept : new.createdAt = old.createdAt)
      (reads : ReadsSince (t.insert id new.row) (t :: older) (tablesOfGroups lived) id g) :
      GroupExplained tt le (.update id body) lived made (.group 200 g)
  /-- The request removed the record. -/
  | deleted {id : String} {lived : List GroupDb} {made : List GroupCall}
      {newer older : List GroupTable} {t : GroupTable}
      (wrote : ⟨.delete id, some 1⟩ ∈ made) (there : (t.get? id).isSome)
      (went : tablesOfGroups lived = newer ++ t.erase id :: t :: older) :
      GroupExplained tt le (.delete id) lived made .noContent
  /-- All groups of one time, ordered by name, with the numbers of their members among the workloads
  of the last half hour. -/
  | listed {lived : List GroupDb} {made : List GroupCall} {l : List Model.WorkloadGroup}
      {now : Time} {w : List WorkloadSnapshot} {registry : SortedMap String GroupRecord}
      (seen : registry.map GroupRecord.row ∈ tablesOfGroups lived)
      (perm : l.Perm (registry.entries.map fun e => withMembers w (e.2.group e.1)))
      (sorted : l.Pairwise fun a b => le a.name b.name) (asked : ⟨.now, now⟩ ∈ made)
      (reads : ReadsWorkloads lived made (now.add (-halfHour)) w) :
      GroupExplained tt le .list lived made (.groups l)
  /-- The same without members, where the workloads could not be read. -/
  | listedAlone {lived : List GroupDb} {made : List GroupCall} {l : List Model.WorkloadGroup}
      {now : Time} {registry : SortedMap String GroupRecord}
      (seen : registry.map GroupRecord.row ∈ tablesOfGroups lived)
      (perm : l.Perm (registry.entries.map fun e => withMembers [] (e.2.group e.1)))
      (sorted : l.Pairwise fun a b => le a.name b.name) (asked : ⟨.now, now⟩ ∈ made)
      (unread : ⟨.workloads (now.add (-halfHour)), none⟩ ∈ made) :
      GroupExplained tt le .list lived made (.groups l)
  /-- The groups that the workloads of the last half hour suggest. -/
  | discovered {lived : List GroupDb} {made : List GroupCall} {now : Time}
      {w : List WorkloadSnapshot} {out : List SuggestedGroup} (asked : ⟨.now, now⟩ ∈ made)
      (reads : ReadsWorkloads lived made (now.add (-halfHour)) w) (discovers : Discover w out) :
      GroupExplained tt le .discover lived made (.discovered out)
  /-- The summary of a group that was there at some time, of its members in the window. -/
  | summarised {lived : List GroupDb} {made : List GroupCall} {id since : String} {now : Time}
      {t : GroupTable} {window : Time × Time} {w : List WorkloadSnapshot}
      (seen : t ∈ tablesOfGroups lived) (r : GroupRecord) (there : t.get? id = some r.row)
      (asked : ⟨.now, now⟩ ∈ made) (asks : requestWindow tt now halfHour since = some window)
      (reads : ReadsWorkloads lived made window.1 w) :
      GroupExplained tt le (.summary id since) lived made
        (.summary ((r.group id).summarize (FilterWorkloads w (groupSelector (r.group id)))))

variable {tt : TimeTexts} {le : String → String → Prop}

/-- A program of the store that is explained by `Q`. -/
abbrev GroupAccounts (le : String → String → Prop) {α : Type}
    (Q : List GroupDb → List GroupCall → α → Prop) (p : GroupM α) (seen : List GroupDb)
    (made : List GroupCall) : Prop :=
  p.Accounts (GroupDbAnswers le) GroupsKept GroupsChange Q seen made

@[simp]
theorem tablesOfGroups_cons (db : GroupDb) (lived : List GroupDb) :
    tablesOfGroups (db :: lived) = db.groups :: tablesOfGroups lived := rfl

@[simp]
theorem tablesOfGroups_append (lived lived' : List GroupDb) :
    tablesOfGroups (lived ++ lived') = tablesOfGroups lived ++ tablesOfGroups lived' :=
  List.map_append

/-- What is current is one of the versions. -/
theorem exists_current {db : GroupDb} {lived : List GroupDb} (h : db ∈ lived.head?) :
    ∃ rest, lived = db :: rest ∧ db.groups ∈ tablesOfGroups lived :=
  (List.head?_eq_some_iff.mp h).imp fun _ hrest =>
    ⟨hrest, List.mem_map_of_mem (hrest ▸ List.mem_cons_self)⟩

/-! ### The read of one group -/

/-- What explains a read of one group. -/
def GotSince (first : GroupTable) (older : List GroupTable) (id : String) (lived : List GroupDb)
    (made : List GroupCall) : Except StoreError Model.WorkloadGroup → Prop
  | .ok g => ReadsSince first older (tablesOfGroups lived) id g
  | .error .notFound => MissingSince first older (tablesOfGroups lived) id
  | .error .failed => ∃ c ∈ made, GroupCall.failed c = true

/-- **The read of one group.** -/
theorem getWorkloadGroup_accounts (id : String) (first : GroupDb) (older : List GroupDb)
    (made : List GroupCall) :
    GroupAccounts le (GotSince first.groups (tablesOfGroups older) id) (GetWorkloadGroup id)
      (first :: older) made := by
  intro later hlawful db hdb r db' hanswer
  cases hanswer with | groups answers metrics => ?_
  -- the table that the statement reads is one since the first
  have hsince : ∀ last : List GroupDb, ∃ newer,
      tablesOfGroups (last ++ ⟨db.groups, metrics⟩ :: (later ++ first :: older)) =
        newer ++ first.groups :: tablesOfGroups older ∧ db.groups ∈ newer ++ [first.groups] := by
    intro last
    refine ⟨tablesOfGroups last ++ db.groups :: tablesOfGroups later, by simp, ?_⟩
    exact List.mem_append_left _ (List.mem_append_right _ List.mem_cons_self)
  cases answers with
  | selectFailed => exact ⟨.none _, fun _ _ => ⟨_, List.mem_cons_self, rfl⟩⟩
  | selected valid =>
    refine ⟨.none _, ?_⟩
    cases hget : db.groups.get? id with
    | none =>
      intro last _
      obtain ⟨newer, hlived, hmem⟩ := hsince last
      exact ⟨newer, hlived, db.groups, hmem, hget⟩
    | some row =>
      obtain ⟨r, rfl⟩ := (hlawful.all db (List.mem_of_mem_head? hdb)).exists_record hget
      intro last _
      obtain ⟨newer, hlived, hmem⟩ := hsince last
      exact ⟨newer, hlived, db.groups, hmem, r, hget, GroupRecord.scan_row id r⟩

/-- The group that is read has the id by which it is found. -/
theorem ReadsSince.id_eq {first : GroupTable} {older lived : List GroupTable} {id : String}
    {g : Model.WorkloadGroup} (h : ReadsSince first older lived id g) : g.id = id := by
  obtain ⟨newer, -, t, -, r, -, rfl⟩ := h
  rfl

theorem ReadsSince.append {first : GroupTable} {older lived : List GroupTable} {id : String}
    {g : Model.WorkloadGroup} (h : ReadsSince first older lived id g) (last : List GroupTable) :
    ReadsSince first older (last ++ lived) id g := by
  obtain ⟨newer, rfl, t, ht, hread⟩ := h
  refine ⟨last ++ newer, (List.append_assoc ..).symm, t, ?_, hread⟩
  rw [List.append_assoc]
  exact List.mem_append_right _ ht

/-- The group was there. -/
theorem ReadsSince.exists_record {first : GroupTable} {older lived : List GroupTable} {id : String}
    {g : Model.WorkloadGroup} (h : ReadsSince first older lived id g) :
    ∃ t ∈ lived, ∃ r : GroupRecord, t.get? id = some r.row ∧ g = r.group id := by
  obtain ⟨newer, rfl, t, ht, hread⟩ := h
  refine ⟨t, ?_, hread⟩
  rcases List.mem_append.mp ht with ht | ht
  · exact List.mem_append_left _ ht
  · exact List.mem_append_right _ (List.mem_singleton.mp ht ▸ List.mem_cons_self)

theorem MissingSince.append {first : GroupTable} {older lived : List GroupTable} {id : String}
    (h : MissingSince first older lived id) (last : List GroupTable) :
    MissingSince first older (last ++ lived) id := by
  obtain ⟨newer, rfl, t, ht, hmissing⟩ := h
  refine ⟨last ++ newer, (List.append_assoc ..).symm, t, ?_, hmissing⟩
  rw [List.append_assoc]
  exact List.mem_append_right _ ht

/-- The group was missing. -/
theorem MissingSince.exists_table {first : GroupTable} {older lived : List GroupTable}
    {id : String} (h : MissingSince first older lived id) : ∃ t ∈ lived, t.get? id = none := by
  obtain ⟨newer, rfl, t, ht, hmissing⟩ := h
  refine ⟨t, ?_, hmissing⟩
  rcases List.mem_append.mp ht with ht | ht
  · exact List.mem_append_left _ ht
  · exact List.mem_append_right _ (List.mem_singleton.mp ht ▸ List.mem_cons_self)

/-! ### Writes -/

/-- What explains a creation: the request put a record under a free id, and read it afterwards. -/
def CreatedIn (i : WorkloadGroupInput) (lived : List GroupDb) (made : List GroupCall) :
    Except StoreError Model.WorkloadGroup → Prop
  | .ok g => ∃ (r : GroupRecord) (t : GroupTable) (older : List GroupTable), r.input = i ∧
      r.updatedAt = r.createdAt ∧ ⟨.insert g.id r.row, true⟩ ∈ made ∧ t.get? g.id = none ∧
        ReadsSince (t.insert g.id r.row) (t :: older) (tablesOfGroups lived) g.id g
  | .error .notFound => ∃ (id : String) (r : GroupRecord) (t : GroupTable)
      (older : List GroupTable), r.input = i ∧ ⟨.insert id r.row, true⟩ ∈ made ∧
        t.get? id = none ∧ MissingSince (t.insert id r.row) (t :: older) (tablesOfGroups lived) id
  | .error .failed => ∃ c ∈ made, GroupCall.failed c = true

theorem createWorkloadGroup_accounts {body : Option WorkloadGroupInput} {i : WorkloadGroupInput}
    (hi : acceptGroup body = .ok i) (seen : List GroupDb) (made : List GroupCall) :
    GroupAccounts le (CreatedIn i) (CreateWorkloadGroup i) seen made := by
  obtain ⟨hnormal, hvalid⟩ := accepted_of_ok hi
  intro later₁ _ db₁ _ now _ hnow
  cases hnow with | groups answers metrics₁ => ?_
  cases answers with | now years => ?_
  refine ⟨.none _, fun later₂ _ db₂ _ id _ hid => ?_⟩
  cases hid with | groups answers metrics₂ => ?_
  cases answers with | newID => ?_
  refine ⟨.none _, fun later₃ hlawful db hdb ok _ hinsert => ?_⟩
  obtain ⟨rest, hrest, -⟩ := exists_current hdb
  have hrow : ⟨groupColumns i now, now.format⟩ =
    GroupRecord.row ⟨i, now, now, hnormal, hvalid, years, years⟩ := rfl
  rw [hrest]
  cases hinsert with | groups answers metrics => ?_
  cases answers with
  | insertFailed => exact ⟨.none _, fun _ _ => ⟨_, List.mem_cons_self, rfl⟩⟩
  | insertLost valid free =>
    exact ⟨hrow ▸ .created _ free rfl, fun _ _ => ⟨_, List.mem_cons_self, rfl⟩⟩
  | inserted valid free =>
    refine ⟨hrow ▸ .created _ free rfl, ?_⟩
    refine Program.Accounts.mono (fun lived made' result ⟨hmade, hresult⟩ => ?_)
      (getWorkloadGroup_accounts id _ (db :: rest) _).made_suffix
    have hwrote := hmade.subset List.mem_cons_self
    rcases result with (- | -) | g
    · exact ⟨id, ⟨i, now, now, hnormal, hvalid, years, years⟩, db.groups, tablesOfGroups rest, rfl,
        hwrote, free, hresult⟩
    · exact hresult
    · have hreads : ReadsSince _ (db.groups :: tablesOfGroups rest) (tablesOfGroups lived) id g :=
        hresult
      obtain rfl := hreads.id_eq
      exact ⟨⟨i, now, now, hnormal, hvalid, years, years⟩, db.groups, tablesOfGroups rest, rfl, rfl,
        hwrote, free, hreads⟩

/-- What explains an update. -/
def UpdatedIn (id : String) (i : WorkloadGroupInput) (lived : List GroupDb)
    (made : List GroupCall) : Except StoreError Model.WorkloadGroup → Prop
  | .ok g => ∃ (old new : GroupRecord) (t : GroupTable) (older : List GroupTable), new.input = i ∧
      ⟨.update id new.row.toGroupColumns, some 1⟩ ∈ made ∧ t.get? id = some old.row ∧
        new.createdAt = old.createdAt ∧
          ReadsSince (t.insert id new.row) (t :: older) (tablesOfGroups lived) id g
  | .error .notFound => ∃ t ∈ tablesOfGroups lived, t.get? id = none
  | .error .failed => ∃ c ∈ made, GroupCall.failed c = true

/-- An update of a registry replaces the record of its id, if there is one. -/
theorem updateRow_record {t : GroupTable} (hregistry : IsRegistry t) {i : WorkloadGroupInput}
    (hnormal : normalizeGroupInput i = i) (hvalid : validateGroupInput i = none) {now : Time}
    (years : now.InYears) (id : String) :
    GroupChange t (updateRow t id (groupColumns i now)) ∧
      ∀ row, t.get? id = some row → ∃ old new : GroupRecord, new.input = i ∧ row = old.row ∧
        new.createdAt = old.createdAt ∧ new.row.toGroupColumns = groupColumns i now ∧
          updateRow t id (groupColumns i now) = t.insert id new.row := by
  cases hget : t.get? id with
  | none =>
    rw [updateRow, hget]
    exact ⟨.none t, fun row hrow => absurd hrow.symm (Option.some_ne_none row)⟩
  | some row =>
    obtain ⟨old, rfl⟩ := hregistry.exists_record hget
    have hnew : updateRow t id (groupColumns i now) = t.insert id
        (GroupRecord.row ⟨i, old.createdAt, now, hnormal, hvalid, old.created, years⟩) := by
      rw [updateRow, hget]
      rfl
    rw [hnew]
    refine ⟨.updated _ hget rfl, fun row hrow => ?_⟩
    exact ⟨old, ⟨i, old.createdAt, now, hnormal, hvalid, old.created, years⟩, rfl,
      (Option.some.inj hrow).symm, rfl, rfl, rfl⟩

theorem updateWorkloadGroup_accounts {body : Option WorkloadGroupInput} {i : WorkloadGroupInput}
    (hi : acceptGroup body = .ok i) (id : String) (seen : List GroupDb) (made : List GroupCall) :
    GroupAccounts le (UpdatedIn id i) (UpdateWorkloadGroup id i) seen made := by
  obtain ⟨hnormal, hvalid⟩ := accepted_of_ok hi
  intro later₁ _ db₁ _ now _ hnow
  cases hnow with | groups answers metrics₁ => ?_
  cases answers with | now years => ?_
  refine ⟨.none _, fun later₂ hlawful db hdb n _ hupdate => ?_⟩
  obtain ⟨rest, hrest, hseen⟩ := exists_current hdb
  obtain ⟨hchange, hrecord⟩ := updateRow_record
    (hlawful.all db (List.mem_of_mem_head? hdb)) hnormal hvalid years id
  rw [hrest]
  cases hupdate with | groups answers metrics => ?_
  cases answers with
  | updateFailed => exact ⟨.none _, fun _ _ => ⟨_, List.mem_cons_self, rfl⟩⟩
  | updateLost valid => exact ⟨hchange, fun _ _ => ⟨_, List.mem_cons_self, rfl⟩⟩
  | updated valid =>
    refine ⟨hchange, ?_⟩
    cases hget : db.groups.get? id with
    | none =>
      rw [rowsOf, hget]
      intro last _
      refine ⟨db.groups, ?_, hget⟩
      rw [tablesOfGroups_append]
      exact List.mem_append_right _ (List.mem_cons_of_mem _ List.mem_cons_self)
    | some row =>
      obtain ⟨old, new, hinput, rfl, hkept, hcolumns, hnew⟩ := hrecord row hget
      rw [rowsOf, hget]
      refine Program.Accounts.mono (fun lived made' result ⟨hmade, hresult⟩ => ?_)
        (getWorkloadGroup_accounts id _ (db :: rest) _).made_suffix
      rcases result with (- | -) | g
      · have hmissing : MissingSince _ _ (tablesOfGroups lived) id := hresult
        exact hmissing.exists_table
      · exact hresult
      · have hreads : ReadsSince (updateRow db.groups id (groupColumns i now))
            (db.groups :: tablesOfGroups rest) (tablesOfGroups lived) id g := hresult
        have hwrote : ⟨.update id new.row.toGroupColumns, some 1⟩ ∈ made' :=
          hcolumns ▸ hmade.subset List.mem_cons_self
        exact ⟨old, new, db.groups, tablesOfGroups rest, hinput, hwrote, hget, hkept, hnew ▸ hreads⟩

/-! ### The handlers -/

/-- A failed statement explains an answer of 500 to a request without a body. -/
theorem GroupExplained.store {q : GroupRequest} (hbody : q.body? = none) {lived : List GroupDb}
    {made : List GroupCall} {c : GroupCall} (hc : c ∈ made) (hfailed : c.failed = true) :
    GroupExplained tt le q lived made (.error ⟨500, "store error"⟩) :=
  .failed (fun body hsome => (Option.some_ne_none body (hsome.symm.trans hbody)).elim) hc hfailed

theorem handleDeleteGroup_accounts (id : String) (db : GroupDb) :
    GroupAccounts le (GroupExplained tt le (.delete id)) (handleDeleteGroup id) [db] [] := by
  intro later _ db hdb n _ hdelete
  obtain ⟨rest, hrest, -⟩ := exists_current hdb
  rw [hrest]
  cases hdelete with | groups answers metrics => ?_
  cases answers with
  | deleteFailed => exact ⟨.none _, fun _ _ => .store rfl List.mem_cons_self rfl⟩
  | deleteLost valid => exact ⟨.deleted _ id, fun _ _ => .store rfl List.mem_cons_self rfl⟩
  | deleted valid =>
    refine ⟨.deleted _ id, ?_⟩
    cases hget : db.groups.get? id with
    | none =>
      rw [rowsOf, hget]
      intro last _
      refine .notFound rfl ?_ hget
      rw [tablesOfGroups_append]
      exact List.mem_append_right _ (List.mem_cons_of_mem _ List.mem_cons_self)
    | some row =>
      rw [rowsOf, hget]
      intro last _
      exact .deleted List.mem_cons_self (by rw [hget]; rfl) (tablesOfGroups_append ..)

/-- The workloads are read at the moment of the statement. -/
theorem readsWorkloads_of_current {db db' : GroupDb} {lived : List GroupDb} {made : List GroupCall}
    {since : Time} {w : List WorkloadSnapshot} (hdb : db ∈ lived.head?)
    (hlists : ListWorkloads db.metrics since w) (last : List GroupDb)
    (hmade : ⟨.workloads since, some w⟩ ∈ made) :
    ReadsWorkloads (last ++ db' :: lived) made since w :=
  ⟨hmade, db, List.mem_append_right _ (List.mem_cons_of_mem _ (List.mem_of_mem_head? hdb)), hlists⟩

theorem handleListGroups_accounts (db : GroupDb) :
    GroupAccounts le (GroupExplained tt le .list) handleListGroups [db] [] := by
  intro later hlawful db hdb rows _ hlist
  obtain ⟨registry, hregistry⟩ := hlawful.all db (List.mem_of_mem_head? hdb)
  cases hlist with | groups answers metrics => ?_
  cases answers with
  | listFailed => exact ⟨.none _, fun _ _ => .store rfl List.mem_cons_self rfl⟩
  | listed perm sorted =>
    rename_i rows
    refine ⟨.none _, fun later₂ _ db₂ hdb₂ now _ hnow => ?_⟩
    cases hnow with | groups answers metrics₂ => ?_
    cases answers with | now years => ?_
    refine ⟨.none _, fun later₃ _ db₃ hdb₃ w _ hworkloads => ?_⟩
    -- the groups that are answered, with members among some workloads
    have hgroups : ∀ w : List WorkloadSnapshot,
        (rows.map fun e => e.2.scan e.1).map (withMembers w) |>.Perm
          (registry.entries.map fun e => withMembers w (e.2.group e.1)) := by
      intro w
      have hscan : registry.entries.map (fun e => withMembers w (e.2.group e.1)) =
          ((registry.map GroupRecord.row).entries.map fun e => e.2.scan e.1).map
            (withMembers w) := by
        rw [List.map_map, SortedMap.map, List.map_map]
        exact List.map_congr_left fun e _ => congrArg _ (GroupRecord.scan_row e.1 e.2).symm
      rw [hscan, ← hregistry]
      exact (perm.map _).map _
    have hsorted : ∀ w : List WorkloadSnapshot,
        ((rows.map fun e => e.2.scan e.1).map (withMembers w)).Pairwise
          fun a b => le a.name b.name := fun w =>
      List.pairwise_map.mpr (List.pairwise_map.mpr sorted)
    cases hworkloads with
    | groups answers metrics => cases answers
    | workloads lists metrics =>
      refine ⟨.none _, fun last _ => .listed ?_ (hgroups _) (hsorted _)
        (List.mem_cons_of_mem _ List.mem_cons_self)
        (readsWorkloads_of_current hdb₃ lists last List.mem_cons_self)⟩
      simp [hregistry]
    | workloadsFailed since metrics =>
      refine ⟨.none _, fun last _ => .listedAlone ?_ (hgroups _) (hsorted _)
        (List.mem_cons_of_mem _ List.mem_cons_self) List.mem_cons_self⟩
      simp [hregistry]

theorem handleDiscoverGroups_accounts (db : GroupDb) :
    GroupAccounts le (GroupExplained tt le .discover) handleDiscoverGroups [db] [] := by
  intro later _ db hdb now _ hnow
  cases hnow with | groups answers metrics => ?_
  cases answers with | now years => ?_
  refine ⟨.none _, fun later₂ _ db₂ hdb₂ w _ hworkloads => ?_⟩
  cases hworkloads with
  | groups answers metrics => cases answers
  | workloadsFailed since metrics =>
    exact ⟨.none _, fun _ _ => .store rfl List.mem_cons_self rfl⟩
  | workloads lists metrics₂ =>
    refine ⟨.none _, fun later₃ _ db₃ hdb₃ out _ hdiscover => ?_⟩
    cases hdiscover with | groups answers metrics₃ => ?_
    cases answers with | discovered discovers => ?_
    refine ⟨.none _, fun last _ => .discovered
      (List.mem_cons_of_mem _ (List.mem_cons_of_mem _ List.mem_cons_self))
      ⟨List.mem_cons_of_mem _ List.mem_cons_self, db₂, ?_, lists⟩ discovers⟩
    have hlived := List.mem_cons_of_mem ⟨db₂.groups, metrics₂⟩ (List.mem_of_mem_head? hdb₂)
    exact List.mem_append_right last (List.mem_cons_of_mem _ (List.mem_append_right later₃ hlived))

theorem handleGroupSummary_accounts (id since : String) {db : GroupDb} (hdb : GroupsKept db) :
    GroupAccounts le (GroupExplained tt le (.summary id since)) (handleGroupSummary tt id since)
      [db] [] := by
  refine Program.Accounts.bind (fun _ _ h => h.change) (getWorkloadGroup_accounts id db [] [])
    ⟨List.isChain_singleton db, List.forall_mem_singleton.mpr hdb⟩ ?_
  intro result lived made _ hresult
  rcases result with (- | -) | g
  · have hmissing : MissingSince db.groups [] (tablesOfGroups lived) id := hresult
    obtain ⟨t, ht, hget⟩ := hmissing.exists_table
    intro last _
    refine .notFound rfl ?_ hget
    rw [tablesOfGroups_append]
    exact List.mem_append_right _ ht
  · obtain ⟨c, hc, hfailed⟩ : ∃ c ∈ made, GroupCall.failed c = true := hresult
    exact fun _ _ => .store rfl hc hfailed
  · have hreads : ReadsSince db.groups [] (tablesOfGroups lived) id g := hresult
    obtain ⟨t, ht, r, hget, rfl⟩ := hreads.exists_record
    intro later₁ _ db₁ hdb₁ now _ hnow
    cases hnow with | groups answers metrics₁ => ?_
    cases answers with | now years => ?_
    refine ⟨.none _, ?_⟩
    cases hwindow : requestWindow tt now halfHour since with
    | none =>
      simp only [hwindow]
      intro last _
      exact .badRange (t := t) (by simp [ht]) (by rw [hget]; rfl) List.mem_cons_self hwindow
    | some window =>
      simp only [hwindow]
      intro later₂ _ db₂ hdb₂ w _ hworkloads
      cases hworkloads with
      | groups answers metrics => cases answers
      | workloadsFailed since metrics =>
        exact ⟨.none _, fun _ _ => .store rfl List.mem_cons_self rfl⟩
      | workloads lists metrics₂ =>
        refine ⟨.none _, fun last _ => .summarised (by simp [ht]) r hget
          (List.mem_cons_of_mem _ List.mem_cons_self) hwindow
          (readsWorkloads_of_current hdb₂ lists last List.mem_cons_self)⟩

theorem handleGetGroup_accounts (id : String) {db : GroupDb} (hdb : GroupsKept db) :
    GroupAccounts le (GroupExplained tt le (.get id)) (handleGetGroup id) [db] [] := by
  refine Program.Accounts.bind (fun _ _ h => h.change) (getWorkloadGroup_accounts id db [] [])
    ⟨List.isChain_singleton db, List.forall_mem_singleton.mpr hdb⟩ ?_
  intro result lived made _ hresult
  rcases result with (- | -) | g
  · have hmissing : MissingSince db.groups [] (tablesOfGroups lived) id := hresult
    obtain ⟨t, ht, hget⟩ := hmissing.exists_table
    exact fun last _ => .notFound rfl (by simp [ht]) hget
  · obtain ⟨c, hc, hfailed⟩ : ∃ c ∈ made, GroupCall.failed c = true := hresult
    exact fun _ _ => .store rfl hc hfailed
  · have hreads : ReadsSince db.groups [] (tablesOfGroups lived) id g := hresult
    obtain ⟨t, ht, r, hget, rfl⟩ := hreads.exists_record
    exact fun last _ => .got (by simp [ht]) r hget rfl

theorem handleCreateGroup_accounts (body : Option WorkloadGroupInput) {db : GroupDb}
    (hdb : GroupsKept db) :
    GroupAccounts le (GroupExplained tt le (.create body)) (handleCreateGroup body) [db] [] := by
  cases haccept : acceptGroup body with
  | error e =>
    rw [handleCreateGroup, haccept]
    exact fun _ _ => .refused rfl haccept
  | ok i =>
    rw [handleCreateGroup, haccept]
    refine Program.Accounts.bind (fun _ _ h => h.change)
      (createWorkloadGroup_accounts haccept [db] [])
      ⟨List.isChain_singleton db, List.forall_mem_singleton.mpr hdb⟩ ?_
    intro result lived made _ hresult
    rcases result with (- | -) | g
    · obtain ⟨id, r, t, older, rfl, hwrote, hfree, hgone⟩ :
        CreatedIn i lived made (.error .notFound) := hresult
      intro last _
      refine .vanished r haccept hwrote hfree (?_ : MissingSince _ (t :: older) _ id)
      rw [tablesOfGroups_append]
      exact hgone.append _
    · obtain ⟨c, hc, hfailed⟩ : CreatedIn i lived made (.error .failed) := hresult
      refine fun _ _ => .failed (fun body' hbody => ?_) hc hfailed
      obtain rfl := Option.some.inj hbody
      exact ⟨i, haccept⟩
    · obtain ⟨r, t, older, rfl, hfirst, hwrote, hfree, hreads⟩ :
        CreatedIn i lived made (.ok g) := hresult
      intro last _
      refine .created r haccept hfirst hwrote hfree (?_ : ReadsSince _ (t :: older) _ g.id g)
      rw [tablesOfGroups_append]
      exact hreads.append _

theorem handleUpdateGroup_accounts (id : String) (body : Option WorkloadGroupInput) {db : GroupDb}
    (hdb : GroupsKept db) :
    GroupAccounts le (GroupExplained tt le (.update id body)) (handleUpdateGroup id body)
      [db] [] := by
  cases haccept : acceptGroup body with
  | error e =>
    rw [handleUpdateGroup, haccept]
    exact fun _ _ => .refused rfl haccept
  | ok i =>
    rw [handleUpdateGroup, haccept]
    refine Program.Accounts.bind (fun _ _ h => h.change)
      (updateWorkloadGroup_accounts haccept id [db] [])
      ⟨List.isChain_singleton db, List.forall_mem_singleton.mpr hdb⟩ ?_
    intro result lived made _ hresult
    rcases result with (- | -) | g
    · obtain ⟨t, ht, hget⟩ : ∃ t ∈ tablesOfGroups lived, t.get? id = none := hresult
      exact fun last _ => .notFound rfl (by simp [ht]) hget
    · obtain ⟨c, hc, hfailed⟩ : UpdatedIn id i lived made (.error .failed) := hresult
      refine fun _ _ => .failed (fun body' hbody => ?_) hc hfailed
      obtain rfl := Option.some.inj hbody
      exact ⟨i, haccept⟩
    · obtain ⟨old, new, t, older, rfl, hwrote, hthere, hkept, hreads⟩ :
        UpdatedIn id i lived made (.ok g) := hresult
      intro last _
      refine .updated old new haccept hwrote hthere hkept (?_ : ReadsSince _ (t :: older) _ id g)
      rw [tablesOfGroups_append]
      exact hreads.append _

/-- **Every handler accounts for what it does.** -/
theorem handler_accounts (q : GroupRequest) {db : GroupDb} (hdb : GroupsKept db) :
    GroupAccounts le (GroupExplained tt le q) (q.handler tt) [db] [] := by
  cases q with
  | list => exact handleListGroups_accounts db
  | discover => exact handleDiscoverGroups_accounts db
  | create body => exact handleCreateGroup_accounts body hdb
  | get id => exact handleGetGroup_accounts id hdb
  | summary id since => exact handleGroupSummary_accounts id since hdb
  | update id body => exact handleUpdateGroup_accounts id body hdb
  | delete id => exact handleDeleteGroup_accounts id db

/-! ### The hub -/

/-- The hub with the requests for groups. -/
abbrev GroupHub : Type := Service GroupOp GroupOp.Answer GroupDb GroupRequest GroupResponse

/-- What may happen from tables without groups on: the requests and their statements, in any
order. -/
abbrev GroupHub.Runs (tt : TimeTexts) (le : String → String → Prop) (h : GroupHub) : Prop :=
  ∃ metrics, Relation.ReflTransGen
    (Service.Step (GroupDbAnswers le) (GroupRequest.handler tt)) (Service.initial ⟨∅, metrics⟩) h

theorem GroupHub.good {h : GroupHub} (hrun : h.Runs tt le) :
    Service.Good GroupsKept GroupsChange (GroupDbAnswers le) (GroupExplained tt le) h := by
  obtain ⟨metrics, hrun⟩ := hrun
  exact Service.good (fun _ _ h => h.change) (fun q _ hdb => handler_accounts q hdb) ⟨∅, rfl⟩ hrun

/-! ### A creation and a list -/

/-- A request for a stack group, with a name that is not trimmed and without a label key. -/
def stackBody : WorkloadGroupInput := ⟨" shop ", "stack", "", "", "shop", none⟩

/-- What of it is stored. -/
def stackInput : WorkloadGroupInput := ⟨"shop", "stack", "", "stack", "shop", none⟩

theorem acceptGroup_stackBody : acceptGroup (some stackBody) = .ok stackInput := by
  have hnormal : normalizeGroupInput stackBody = stackInput := by decide +kernel
  have hvalid : validateGroupInput stackInput = none := by decide +kernel
  simp only [acceptGroup, hnormal, hvalid]

/-- A moment. -/
def someTime : Time := ⟨63844891260000000000⟩

theorem validTexts_stackInput : validTexts ("g1" :: someTime.format ::
    (groupColumns stackInput someTime).texts) = true := by decide +kernel

/-- The record that is stored. -/
def stackRecord : GroupRecord where
  input := stackInput
  createdAt := someTime
  updatedAt := someTime
  normal := by decide +kernel
  valid := by decide +kernel
  created := by decide
  updated := by decide

/-- A container of the stack, a minute before. -/
def shopPoint : MetricPoint :=
  ⟨"cpu.usage", ⟨63844891200000000000⟩, .finite 10, "docker:h:web",
    SortedMap.ofList [("container", "web"), ("stack", "shop")]⟩

/-- The tables of the metrics with it. -/
def shopTables : MetricTables := (writeAll [[shopPoint]]).getD MetricTables.empty

/-- The workloads of the half hour. -/
def shopWorkloads : List WorkloadSnapshot :=
  (mergeRows (shopTables.latest.entries.filter fun e =>
    sinceFilter (someTime.add (-halfHour)) e.2.ts)).values

theorem listWorkloads_shop :
    ListWorkloads shopTables (someTime.add (-halfHour)) shopWorkloads :=
  ⟨_, ⟨List.Perm.refl _, by decide +kernel⟩, List.Perm.refl _⟩

/-- The tables without a group. -/
def emptyDb : GroupDb := ⟨∅, shopTables⟩

/-- The tables with the record. -/
def stackDb : GroupDb := ⟨SortedMap.insert ∅ "g1" stackRecord.row, shopTables⟩

/-- Times and durations are not read. -/
def noTexts : TimeTexts := ⟨fun _ => none, fun _ => none⟩

/-- The hub while it works on one request, which began `older` versions after the first. -/
def working (versions : List GroupDb)
    (answered : List (Answered GroupOp GroupOp.Answer GroupDb GroupRequest GroupResponse))
    (q : GroupRequest) (older : ℕ) (made : List GroupCall) (p : GroupM GroupResponse) : GroupHub :=
  ⟨versions, Function.update (fun _ => none) 0 (some ⟨q, older, made, p⟩), answered⟩

section Working

variable {db db' : GroupDb} {o : GroupOp} {k : o.Answer → GroupM GroupResponse} {r : o.Answer}
  {versions : List GroupDb}
  {answered : List (Answered GroupOp GroupOp.Answer GroupDb GroupRequest GroupResponse)}
  {q : GroupRequest} {n : ℕ} {made : List GroupCall} {a : GroupResponse}

theorem working_call (h : GroupDbAnswers (· ≤ ·) db o r db') :
    Service.Step (GroupDbAnswers (· ≤ ·)) (GroupRequest.handler noTexts)
      (working (db :: versions) answered q n made (.call o k))
      (working (db' :: db :: versions) answered q n (⟨o, r⟩ :: made) (k r)) := by
  have hstep : Service.Step (GroupDbAnswers (· ≤ ·)) (GroupRequest.handler noTexts)
    (working (db :: versions) answered q n made (.call o k)) _ := .call (c := 0) rfl rfl h
  rw [working, Function.update_idem] at hstep
  exact hstep

/-- The answer is given. -/
theorem working_answer :
    Service.Step (GroupDbAnswers (· ≤ ·)) (GroupRequest.handler noTexts)
      (working versions answered q n made (.ret a))
      ⟨versions, fun _ => none,
        ⟨q, versions.take (versions.length - n), made, a⟩ :: answered⟩ := by
  have hanswer : Service.Step (GroupDbAnswers (· ≤ ·)) (GroupRequest.handler noTexts)
    (working versions answered q n made (.ret a)) _ := .answer (c := 0) rfl
  rw [working, Function.update_idem, Function.update_eq_self_iff.mpr rfl] at hanswer
  exact hanswer

/-- A request begins. -/
theorem working_begin (q : GroupRequest) :
    Service.Step (GroupDbAnswers (· ≤ ·)) (GroupRequest.handler noTexts)
      ⟨versions, fun _ => none, answered⟩
      (working versions answered q (versions.length - 1) [] (q.handler noTexts)) :=
  .begin 0 q rfl

end Working

/-- The answer to the creation. -/
def stackCreated : Answered GroupOp GroupOp.Answer GroupDb GroupRequest GroupResponse where
  request := .create (some stackBody)
  lived := [stackDb, stackDb, emptyDb, emptyDb, emptyDb]
  made := [⟨.select "g1", some (some stackRecord.row)⟩, ⟨.insert "g1" stackRecord.row, true⟩,
    ⟨.newID, "g1"⟩, ⟨.now, someTime⟩]
  answer := .group 201 (stackRecord.row.scan "g1")

/-- The answer to the list. -/
def stackListed : Answered GroupOp GroupOp.Answer GroupDb GroupRequest GroupResponse where
  request := .list
  lived := [stackDb, stackDb, stackDb, stackDb]
  made := [⟨.workloads (someTime.add (-halfHour)), some shopWorkloads⟩, ⟨.now, someTime⟩,
    ⟨.selectAll, some [("g1", stackRecord.row)]⟩]
  answer := .groups [withMembers shopWorkloads (stackRecord.row.scan "g1")]

/-- The one container of the stack is counted. -/
theorem withMembers_stack : withMembers shopWorkloads (stackRecord.row.scan "g1") =
    { stackRecord.group "g1" with memberCount := 1 } := by
  have hcount : (FilterWorkloads shopWorkloads
      (groupSelector (stackRecord.group "g1"))).length = 1 := by decide +kernel
  rw [GroupRecord.scan_row, withMembers, hcount]

/-- A run in which both requests are answered. -/
theorem exists_stackRun : ∃ h : GroupHub, h.Runs noTexts (· ≤ ·) ∧
    h.versions = [stackDb, stackDb, stackDb, stackDb, stackDb, emptyDb, emptyDb, emptyDb] ∧
      h.answered = [stackListed, stackCreated] := by
  have hbegin : Service.Step (GroupDbAnswers (· ≤ ·)) (GroupRequest.handler noTexts)
      (Service.initial emptyDb)
      (working [emptyDb] [] (.create (some stackBody)) 0 []
        (handleCreateGroup (some stackBody))) := working_begin _
  rw [handleCreateGroup_of_ok acceptGroup_stackBody] at hbegin
  have hnow : GroupDbAnswers (· ≤ ·) emptyDb .now someTime emptyDb :=
    .groups (.now stackRecord.created) shopTables
  have hid : GroupDbAnswers (· ≤ ·) emptyDb .newID "g1" emptyDb := .groups (.newID "g1") shopTables
  have hinsert : GroupDbAnswers (· ≤ ·) emptyDb (.insert "g1" stackRecord.row) true stackDb :=
    .groups (.inserted validTexts_stackInput rfl) shopTables
  have hselect : GroupDbAnswers (· ≤ ·) stackDb (.select "g1") (some (some stackRecord.row))
      stackDb := by
    have hget : stackDb.groups.get? "g1" = some stackRecord.row := SortedMap.get?_insert_self ..
    exact .groups (hget ▸ .selected (by decide)) shopTables
  have hcreated := (((((Relation.ReflTransGen.single hbegin).tail (working_call hnow)).tail
    (working_call hid)).tail (working_call hinsert)).tail (working_call hselect)).tail
      working_answer
  -- the list
  have hall : GroupDbAnswers (· ≤ ·) stackDb .selectAll (some [("g1", stackRecord.row)]) stackDb :=
    .groups (.listed (List.Perm.refl _) (List.pairwise_singleton _ _)) shopTables
  have hlater : GroupDbAnswers (· ≤ ·) stackDb .now someTime stackDb :=
    .groups (.now stackRecord.created) shopTables
  have hworkloads : GroupDbAnswers (· ≤ ·) stackDb (.workloads (someTime.add (-halfHour)))
      (some shopWorkloads) stackDb := .workloads listWorkloads_shop shopTables
  have hlisted := ((((hcreated.tail (working_begin .list)).tail (working_call hall)).tail
    (working_call hlater)).tail (working_call hworkloads)).tail working_answer
  refine ⟨_, ⟨shopTables, hlisted⟩, rfl, ?_⟩
  rw [Option.getD_some]
  rfl

/-! ### All runs -/

/-- **Key result: the table is a registry.** Whatever requests run at the same time, and whichever
statements fail, every row of every version of the table is that of a record: it has been normalised
and validated, and is read back as what it stands for. A version differs from the one before by one
record that came under a free id, was replaced without its creation time, or went. -/
theorem groups_registry {h : GroupHub} (hrun : h.Runs tt le) :
    (h.versions.IsChain fun new old => GroupChange old.groups new.groups) ∧
      ∀ db ∈ h.versions, ∀ id row, db.groups.get? id = some row → ∃ r : GroupRecord, row = r.row ∧
        row.scan id = r.group id ∧ r.input.name ≠ "" ∧ trimSpace r.input.name = r.input.name ∧
          (labelledKind r.input.kind = true ∧ r.input.labelValue ≠ "" ∧ r.input.labelKey ≠ "" ∨
            r.input.kind = "custom" ∧ r.input.containers.getD [] ≠ []) := by
  have hgood := GroupHub.good hrun
  refine ⟨hgood.lawful.chain, fun db hdb id row hrow => ?_⟩
  obtain ⟨r, rfl⟩ := (hgood.lawful.all db hdb).exists_record hrow
  exact ⟨r, rfl, GroupRecord.scan_row id r, r.proper⟩

/-- After a creation the table has its record. -/
theorem groups_registry_created : ∃ h : GroupHub,
    h.versions = [stackDb, stackDb, stackDb, stackDb, stackDb, emptyDb, emptyDb, emptyDb] ∧
      ∀ db ∈ h.versions, ∀ id row, db.groups.get? id = some row → ∃ r : GroupRecord, row = r.row ∧
        row.scan id = r.group id := by
  obtain ⟨h, hrun, hversions, -⟩ := exists_stackRun
  refine ⟨h, hversions, fun db hdb id row hrow => ?_⟩
  obtain ⟨r, hr, hscan, -⟩ := (groups_registry hrun).2 db hdb id row hrow
  exact ⟨r, hr, hscan⟩

/-- **Key result: every answer is explained.** The answer to a request for groups is explained by
tables that there were while the request ran, and by what its own statements were answered. -/
theorem groups_answered {h : GroupHub} (hrun : h.Runs tt le) :
    ∀ a ∈ h.answered, a.lived <:+: h.versions ∧
      GroupExplained tt le a.request a.lived a.made a.answer :=
  (GroupHub.good hrun).answered

/-- The answers to a creation and to a list, which counts the one container of the stack. -/
theorem groups_answered_stack :
    GroupExplained noTexts (· ≤ ·) (.create (some stackBody)) stackCreated.lived stackCreated.made
        (.group 201 (stackRecord.group "g1")) ∧
      GroupExplained noTexts (· ≤ ·) .list stackListed.lived stackListed.made
        (.groups [{ stackRecord.group "g1" with memberCount := 1 }]) := by
  obtain ⟨h, hrun, -, hanswered⟩ := exists_stackRun
  rw [← withMembers_stack, ← GroupRecord.scan_row "g1" stackRecord]
  refine ⟨(groups_answered hrun stackCreated ?_).2, (groups_answered hrun stackListed ?_).2⟩
  · rw [hanswered]
    exact List.mem_cons_of_mem _ List.mem_cons_self
  · rw [hanswered]
    exact List.mem_cons_self

end Argus
