import Argus.Insights.Normalize

/-!
# Search patterns of a trace id

`insights.TraceSearchPatterns` makes the patterns that a search for a trace looks for in the
fields and in the message of a log entry. An id is cut into a UUID by bytes, so the pieces of one
with other characters than ASCII may be no texts.
-/

namespace Argus

open Foundations

/-- `strings.ReplaceAll(s, "-", "")`, or `replace(s, '-', '')`. -/
def dropDashes (s : String) : String := String.ofList (s.toList.filter (· != '-'))

/-- `normalizeTraceID`. Its cases of length 32 and 36 change nothing any more. -/
def normalizeTraceID (rt : Runtime) (raw : String) : String :=
  dropDashes (rt.toLower (trimSpace raw))

/-- `s[i:j]` of a text, where its ends are not inside a character. -/
def sliceBytes (i j : ℕ) (cs : List Char) : Option (List Char) := do
  let start ← cutBytes i cs
  let upTo ← cutBytes j cs
  some (upTo.drop start.length)

/-- `formatUUID`, where it is a text. -/
def formatUUID (hex32 : String) : Option String :=
  if byteLength hex32 ≠ 32 then some hex32
  else do
    let a ← sliceBytes 0 8 hex32.toList
    let b ← sliceBytes 8 12 hex32.toList
    let c ← sliceBytes 12 16 hex32.toList
    let d ← sliceBytes 16 20 hex32.toList
    let e ← sliceBytes 20 32 hex32.toList
    some (String.ofList (a ++ '-' :: (b ++ '-' :: (c ++ '-' :: (d ++ '-' :: e)))))

/-- A JSON member with a text: `"key":"value"`. -/
def quotedMember (key value : String) : String := "\"" ++ key ++ "\":\"" ++ value ++ "\""

/-- The fragments that `add` is called with, where they are texts. -/
def traceFragments (rt : Runtime) (raw : String) : Option (List String) :=
  let norm := normalizeTraceID rt raw
  if byteLength norm = 32 then do
    let uuid ← formatUUID norm
    some [raw, rt.toLower raw, norm, uuid, quotedMember "traceId" uuid, quotedMember "traceId" norm,
      quotedMember "trace_id" norm]
  else some [raw, rt.toLower raw, norm]

/-- The closure `add`: a pattern that is not there yet. -/
def addPattern (out : List String) (fragment : String) : List String :=
  let fragment := trimSpace fragment
  if fragment = "" then out
  else
    let pat := "%" ++ fragment ++ "%"
    if pat ∈ out then out else out ++ [pat]

/-- `TraceSearchPatterns`, where the patterns are texts. -/
def TraceSearchPatterns (rt : Runtime) (raw : String) : Option (List String) :=
  let raw := trimSpace raw
  if raw = "" then some []
  else (traceFragments rt raw).map fun fragments => fragments.foldl addPattern []

theorem mem_addPattern {out : List String} {fragment pat : String} :
    pat ∈ addPattern out fragment ↔
      pat ∈ out ∨ trimSpace fragment ≠ "" ∧ pat = "%" ++ trimSpace fragment ++ "%" := by
  by_cases hblank : trimSpace fragment = ""
  · simp [addPattern, hblank]
  · simp only [addPattern, if_neg hblank]
    split_ifs with hmem
    · refine ⟨Or.inl, fun h => h.elim id ?_⟩
      rintro ⟨-, rfl⟩
      exact hmem
    · rw [List.mem_append, List.mem_singleton]
      exact or_congr_right ⟨fun h => ⟨hblank, h⟩, And.right⟩

/-- The patterns are those of the fragments that are not blank. -/
theorem mem_foldl_addPattern {fragments out : List String} {pat : String} :
    pat ∈ fragments.foldl addPattern out ↔ pat ∈ out ∨
      ∃ f ∈ fragments, trimSpace f ≠ "" ∧ pat = "%" ++ trimSpace f ++ "%" := by
  induction fragments generalizing out with
  | nil => simp
  | cons f fragments ih =>
    rw [List.foldl_cons, ih, mem_addPattern, or_assoc]
    simp

end Argus
