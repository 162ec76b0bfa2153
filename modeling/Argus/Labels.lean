import Argus.Foundations.JsonRoundTrip
import Argus.Foundations.SortedMap

/-!
# Label maps and their JSON text

`model.Labels` is a `map[string]string`. The store keeps it in `labels_json` columns as the
text of `json.Marshal`, which writes the keys in order, and every read goes through
`json.Unmarshal`. `unmarshal_marshal` says that nothing is lost on the way.
-/

namespace Argus

open Foundations

/-! ### The escapes of `encoding/json` -/

/-- The escapes of one letter. -/
def goShortEscape (c : Char) : Option Char :=
  if c = '"' ∨ c = '\\' then some c
  else if c = '\x08' then some 'b'
  else if c = '\x0c' then some 'f'
  else if c = '\n' then some 'n'
  else if c = '\r' then some 'r'
  else if c = '\t' then some 't'
  else none

/-- `json.Marshal` also escapes what HTML or JavaScript would read: `<`, `>`, `&` and the two
Unicode line separators. -/
def goLongEscape (c : Char) : Bool :=
  c == '<' || c == '>' || c == '&' || c == '\u2028' || c == '\u2029'

/-- How `json.Marshal` writes the characters of a string. -/
def goEscape : Escape :=
  Escape.of goShortEscape goLongEscape
    (by
      intro c e h
      rw [goShortEscape] at h
      split_ifs at h with h₁ h₂ h₃ h₄ h₅ h₆
      · obtain rfl : c = e := Option.some.inj h
        rcases h₁ with rfl | rfl <;> decide
      all_goals
        obtain rfl := Option.some.inj h
        subst_vars
        decide)
    (by decide) (by decide)
    (by
      intro c h
      simp only [goLongEscape, Bool.or_eq_true, beq_iff_eq] at h
      rcases h with (((rfl | rfl) | rfl) | rfl) | rfl <;> decide)

/-! ### Labels -/

/-- `model.Labels`: a map from label names to values. A nil map is the empty one. -/
abbrev Labels : Type := SortedMap String String

namespace Labels

/-- `labels[k]`: the zero value when the key is missing. -/
def get (l : Labels) (k : String) : String := (l.get? k).getD ""

/-- The JSON object of a label map, its keys in order. -/
def toJson (l : Labels) : Json := .obj (l.entries.map fun e => (e.1, .str e.2))

/-- `json.Marshal(labels)`. -/
def marshal (l : Labels) : String := String.ofList (l.toJson.render goEscape)

/-- The value that decoding stores under a key: a value that is no string leaves the zero
value there. -/
def ofMember : String × Json → String × String
  | (k, .str s) => (k, s)
  | (k, _) => (k, "")

/-- `json.Unmarshal` into a fresh label map, its error ignored. -/
def unmarshal (text : String) : Labels :=
  match Json.parse text.toList with
  | some (.obj members) => SortedMap.ofList (members.map ofMember)
  | _ => ∅

private theorem depth_toJson (l : Labels) : l.toJson.depth ≤ 1 := by
  have h : ∀ es : List (String × String),
      Json.depthMembers (es.map fun e => (e.1, Json.str e.2)) = 0 := by
    intro es
    induction es with
    | nil => rfl
    | cons e es ih => rw [List.map_cons, Json.depthMembers, ih]; rfl
  rw [toJson, Json.depth, h]

/-- **Labels survive the column.** -/
@[simp] theorem unmarshal_marshal (l : Labels) : unmarshal l.marshal = l := by
  have hparse : Json.parse (l.toJson.render goEscape) = some l.toJson :=
    Json.parse_render goEscape ((depth_toJson l).trans (by decide))
  have hmembers : (l.entries.map fun e => (e.1, Json.str e.2)).map ofMember = l.entries := by
    rw [List.map_map]
    exact List.map_id'' (fun _ => rfl) _
  rw [unmarshal, marshal, String.toList_ofList, hparse, toJson]
  simp only [hmembers]
  exact SortedMap.ofList_entries l

end Labels

/-! ### Containers of a host -/

/-- A container name as Docker gives them: not empty, and without a colon. -/
def DockerName (name : String) : Prop := name ≠ "" ∧ ':' ∉ name.toList

instance (name : String) : Decidable (DockerName name) := by unfold DockerName; infer_instance

/-- `entityLabels`: host, runtime and container, and the compose labels that are set. -/
def entityLabels (hostID name : String) (dockerLabels : Labels) : Labels :=
  let lbl : Labels :=
    SortedMap.ofList [("host", hostID), ("runtime", "docker"), ("container", name)]
  let project := dockerLabels.get "com.docker.compose.project"
  let lbl := if project = "" then lbl else lbl.insert "stack" project
  let svc := dockerLabels.get "com.docker.compose.service"
  if svc = "" then lbl else lbl.insert "service" svc

/-- The uid `docker:<host>:<name>` of a container. -/
def entityUID (hostID name : String) : String := "docker:" ++ hostID ++ ":" ++ name

/-- `Collector.entityFor`. -/
def entityFor (hostID name : String) (dockerLabels : Labels) : String × Labels :=
  (entityUID hostID name, entityLabels hostID name dockerLabels)

theorem get?_container_entityLabels (hostID name : String) (dockerLabels : Labels) :
    (entityLabels hostID name dockerLabels).get? "container" = some name := by
  have hbase : (SortedMap.ofList [("host", hostID), ("runtime", "docker"), ("container", name)] :
      Labels).get? "container" = some name := by
    rw [SortedMap.ofList, List.foldl_cons, List.foldl_cons, List.foldl_cons, List.foldl_nil,
      SortedMap.get?_insert_self]
  rw [entityLabels]
  split_ifs <;> simp [SortedMap.get?_insert_of_ne, hbase]

@[simp] theorem get_container_entityLabels (hostID name : String) (dockerLabels : Labels) :
    (entityLabels hostID name dockerLabels).get "container" = name := by
  rw [Labels.get, get?_container_entityLabels, Option.getD_some]

private theorem append_colon_inj {a a' n n' : List Char} (hn : ':' ∉ n) (hn' : ':' ∉ n')
    (h : a ++ ':' :: n = a' ++ ':' :: n') : a = a' ∧ n = n' := by
  rcases List.append_eq_append_iff.mp h with ⟨c, ha, hc⟩ | ⟨c, ha, hc⟩
  · cases c with
    | nil => simp_all
    | cons d c =>
      rw [List.cons_append, List.cons.injEq] at hc
      exact absurd (hc.2 ▸ List.mem_append_right c List.mem_cons_self) hn
  · cases c with
    | nil => simp_all
    | cons d c =>
      rw [List.cons_append, List.cons.injEq] at hc
      exact absurd (hc.2 ▸ List.mem_append_right c List.mem_cons_self) hn'

/-- A uid names one host and one container. -/
theorem entityUID_inj {h h' n n' : String} (hn : DockerName n) (hn' : DockerName n')
    (heq : entityUID h n = entityUID h' n') : h = h' ∧ n = n' := by
  have hlist := congrArg String.toList heq
  simp only [entityUID, String.toList_append] at hlist
  rw [show ":".toList = [':'] from rfl, List.append_assoc, List.append_assoc _ [':'],
    List.singleton_append, List.singleton_append] at hlist
  obtain ⟨hh, hname⟩ := append_colon_inj hn.2 hn'.2 hlist
  exact ⟨String.toList_inj.mp (List.append_cancel_left hh), String.toList_inj.mp hname⟩

end Argus
