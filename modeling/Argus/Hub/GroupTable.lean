import Argus.Agent.LogTimes
import Argus.Hub.Groups

/-!
# The table of workload groups

A row of `workload_groups` holds a group as texts: its containers as a JSON array, its times in the
form of the store. What the hub writes is normalised and has been validated: this is a
`GroupRecord`, and `scan_row` says that its row is read back as the group that it stands for.
-/

namespace Argus

open Foundations

/-! ### Groups -/

/-- `model.WorkloadGroupInput`. Containers that are not given are `nil`. -/
structure Model.WorkloadGroupInput where
  name : String
  kind : String
  description : String
  labelKey : String
  labelValue : String
  containers : Option (List String)
  deriving DecidableEq

/-- `model.WorkloadGroup`. -/
structure Model.WorkloadGroup where
  id : String
  name : String
  kind : String
  description : String
  labelKey : String
  labelValue : String
  containers : List String
  memberCount : ℕ
  createdAt : Time
  updatedAt : Time

/-- What `groups.Matches` reads of a group. -/
def groupSelector (g : Model.WorkloadGroup) : WorkloadGroup :=
  ⟨g.kind, g.labelValue, g.containers⟩

open Model (WorkloadGroupInput)

/-- Whether a kind is `GroupKindStack` or `GroupKindService`. -/
def labelledKind (kind : String) : Bool := kind == "stack" || kind == "service"

/-- `normalizeGroupInput`. -/
def normalizeGroupInput (i : WorkloadGroupInput) : WorkloadGroupInput :=
  { i with
    name := trimSpace i.name
    labelValue := trimSpace i.labelValue
    labelKey := if i.labelKey = "" ∧ labelledKind i.kind = true then i.kind else i.labelKey }

/-- `validateGroupInput`: the text of its error, if there is one. -/
def validateGroupInput (i : WorkloadGroupInput) : Option String :=
  if i.name = "" then some "name required"
  else if labelledKind i.kind = true then
    if i.labelValue = "" then some "label_value required for stack/service groups" else none
  else if i.kind = "custom" then
    if i.containers.getD [] = [] then some "containers required for custom group" else none
  else some "kind must be stack, service, or custom"

/-- Normalising twice normalises once. -/
theorem normalizeGroupInput_idem (i : WorkloadGroupInput) :
    normalizeGroupInput (normalizeGroupInput i) = normalizeGroupInput i := by
  have hkey : (if (normalizeGroupInput i).labelKey = "" ∧ labelledKind i.kind = true then i.kind
      else (normalizeGroupInput i).labelKey) = (normalizeGroupInput i).labelKey := by
    rw [normalizeGroupInput]
    split_ifs with h h' <;> simp_all
  rw [normalizeGroupInput, show (normalizeGroupInput i).name = trimSpace i.name from rfl,
    show (normalizeGroupInput i).labelValue = trimSpace i.labelValue from rfl,
    show (normalizeGroupInput i).kind = i.kind from rfl, trimSpace_trimSpace, trimSpace_trimSpace,
    hkey]
  rfl

/-! ### Rows -/

/-- The columns that `UpdateWorkloadGroup` sets. -/
structure GroupColumns where
  name : String
  kind : String
  description : String
  labelKey : String
  labelValue : String
  containersJson : String
  updatedAt : String

/-- A row of `workload_groups`, which is found by its id. -/
structure GroupRow extends GroupColumns where
  createdAt : String

/-- The texts of the columns. -/
def GroupColumns.texts (c : GroupColumns) : List String :=
  [c.name, c.kind, c.description, c.labelKey, c.labelValue, c.containersJson, c.updatedAt]

/-- `json.Marshal(in.Containers)`. -/
def marshalContainers (containers : Option (List String)) : String :=
  String.ofList ((containers.elim Json.null fun l => .arr (l.map .str)).render goEscape)

/-- `json.Unmarshal` into `g.Containers`, where `nil` becomes the empty slice. Nothing writes a text
that is no list of strings. -/
def unmarshalContainers (text : String) : List String :=
  ((Json.parse text.toList).bind fun v => Decoder.slice "" Decoder.string v []).getD []

/-- The columns of an input, written at a moment. -/
def groupColumns (i : WorkloadGroupInput) (now : Time) : GroupColumns where
  name := i.name
  kind := i.kind
  description := i.description
  labelKey := i.labelKey
  labelValue := i.labelValue
  containersJson := marshalContainers i.containers
  updatedAt := now.format

/-- `scanWorkloadGroupFromScan`. A time that cannot be read is the zero time. -/
def GroupRow.scan (id : String) (r : GroupRow) : Model.WorkloadGroup where
  id := id
  name := r.name
  kind := r.kind
  description := r.description
  labelKey := r.labelKey
  labelValue := r.labelValue
  containers := unmarshalContainers r.containersJson
  memberCount := 0
  createdAt := (Time.parse r.createdAt.toList).getD ⟨0⟩
  updatedAt := (Time.parse r.updatedAt.toList).getD ⟨0⟩

/-- **Round trip of the containers.** -/
theorem unmarshalContainers_marshal (containers : Option (List String)) :
    unmarshalContainers (marshalContainers containers) = containers.getD [] := by
  rw [unmarshalContainers, marshalContainers, String.toList_ofList]
  cases containers with
  | none => rw [Option.elim_none, Json.parse_render goEscape (by decide)]; rfl
  | some l =>
    have hdepth : (Json.arr (l.map Json.str)).depth ≤ Json.maxDepth := by
      have hle : Json.depthElements (l.map Json.str) ≤ 0 := by
        refine Json.depthElements_le fun x hx => ?_
        obtain ⟨s, -, rfl⟩ := List.mem_map.mp hx
        exact Nat.le_refl 0
      rw [Json.depth, Nat.le_zero.mp hle]
      decide
    have hslice := @Decoder.slice_map String String "" Decoder.string Json.str id l []
      fun _ _ => rfl
    rw [Option.elim_some, Json.parse_render goEscape hdepth, Option.bind_some, hslice, List.map_id]

/-! ### Records -/

/-- A group that may be in the table: its input is normalised and valid, its times have years of
four digits. -/
structure GroupRecord where
  input : WorkloadGroupInput
  createdAt : Time
  updatedAt : Time
  normal : normalizeGroupInput input = input
  valid : validateGroupInput input = none
  created : createdAt.InYears
  updated : updatedAt.InYears

namespace GroupRecord

/-- The row of a record. -/
def row (r : GroupRecord) : GroupRow := ⟨groupColumns r.input r.updatedAt, r.createdAt.format⟩

/-- The group that a record stands for. -/
def group (id : String) (r : GroupRecord) : Model.WorkloadGroup where
  id := id
  name := r.input.name
  kind := r.input.kind
  description := r.input.description
  labelKey := r.input.labelKey
  labelValue := r.input.labelValue
  containers := r.input.containers.getD []
  memberCount := 0
  createdAt := r.createdAt
  updatedAt := r.updatedAt

/-- **Round trip of a row.** -/
@[simp] theorem scan_row (id : String) (r : GroupRecord) : r.row.scan id = r.group id := by
  have hcreated : (Time.parse r.row.createdAt.toList).getD ⟨0⟩ = r.createdAt := by
    rw [row, Time.parse_format r.created, Option.getD_some]
  have hupdated : (Time.parse r.row.updatedAt.toList).getD ⟨0⟩ = r.updatedAt := by
    rw [row, groupColumns, Time.parse_format r.updated, Option.getD_some]
  have hcontainers : unmarshalContainers r.row.containersJson = r.input.containers.getD [] :=
    unmarshalContainers_marshal _
  rw [GroupRow.scan, hcreated, hupdated, hcontainers]
  rfl

/-- What a stored group looks like: it has a trimmed name, and labels or containers to select by. -/
theorem proper (r : GroupRecord) : r.input.name ≠ "" ∧ trimSpace r.input.name = r.input.name ∧
    (labelledKind r.input.kind = true ∧ r.input.labelValue ≠ "" ∧ r.input.labelKey ≠ "" ∨
      r.input.kind = "custom" ∧ r.input.containers.getD [] ≠ []) := by
  have hname : trimSpace r.input.name = r.input.name :=
    congrArg Model.WorkloadGroupInput.name r.normal
  have hkey : (if r.input.labelKey = "" ∧ labelledKind r.input.kind = true then r.input.kind
      else r.input.labelKey) = r.input.labelKey :=
    congrArg Model.WorkloadGroupInput.labelKey r.normal
  have hvalid := r.valid
  rw [validateGroupInput] at hvalid
  split_ifs at hvalid with h₁ h₂ h₃ h₄ h₅
  · refine ⟨h₁, hname, .inl ⟨h₂, h₃, fun hnone => ?_⟩⟩
    rw [if_pos ⟨hnone, h₂⟩, hnone] at hkey
    rw [hkey] at h₂
    exact absurd h₂ (by decide)
  · exact ⟨h₁, hname, .inr ⟨h₄, h₅⟩⟩

end GroupRecord

end Argus
