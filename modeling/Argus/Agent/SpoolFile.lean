import Argus.Agent.Client
import Argus.Unmarshal

/-!
# The files of the spool

A file of the spool holds the JSON of a `spoolItem`. Reading it back checks every member, the
time of queueing among them, although nothing uses that time; a file that fails a check is
corrupt. `decodeItem_text` says that what `Put` writes is read back.
-/

namespace Argus

open Foundations

/-! ### Instants of RFC 3339 -/

/-- Read a number of exactly `k` digits. -/
def readFixed (k : ℕ) (cs : List Char) : Option (ℕ × List Char) :=
  if (cs.take k).length = k ∧ (cs.take k).all Char.isDigit then
    some (digitsValue (cs.take k), cs.drop k)
  else none

/-- Read one character. -/
def expect (c : Char) : List Char → Option (List Char)
  | [] => none
  | d :: cs => if d = c then some cs else none

/-- Read `2006-01-02`. -/
def readDate (cs : List Char) : Option (List Char) := do
  let (year, cs) ← readFixed 4 cs
  let cs ← expect '-' cs
  let (month, cs) ← readFixed 2 cs
  let cs ← expect '-' cs
  let (day, cs) ← readFixed 2 cs
  if 1 ≤ month ∧ 1 ≤ day ∧ day ≤ (monthLengths year).getD (month - 1) 0 then some cs else none

/-- Read `15:04`. -/
def readMinute (cs : List Char) : Option (List Char) := do
  let (hour, cs) ← readFixed 2 cs
  let cs ← expect ':' cs
  let (minute, cs) ← readFixed 2 cs
  if hour < 24 ∧ minute < 60 then some cs else none

/-- Read `15:04:05`. -/
def readClock (cs : List Char) : Option (List Char) := do
  let cs ← readMinute cs
  let cs ← expect ':' cs
  let (second, cs) ← readFixed 2 cs
  if second < 60 then some cs else none

/-- Read `.999`, if it is there. -/
def readSubsecond : List Char → Option (List Char)
  | '.' :: cs => if (cs.takeWhile Char.isDigit).isEmpty then none
    else some (cs.dropWhile Char.isDigit)
  | cs => some cs

/-- Read `Z` or `-07:00`. -/
def readZone : List Char → Option (List Char)
  | [] => none
  | c :: cs =>
    if c = 'Z' then some cs
    else if c = '+' ∨ c = '-' then readMinute cs
    else none

/-- Whether `time.Time` is decoded from the text. -/
def validTime (s : String) : Bool :=
  (do
    let cs ← readDate s.toList
    let cs ← expect 'T' cs
    let cs ← readClock cs
    let cs ← readSubsecond cs
    readZone cs) == some []

/-- A padded number is read. -/
theorem readFixed_pad (k n : ℕ) (cs : List Char) :
    readFixed k (pad k n ++ cs) = some (n % 10 ^ k, cs) := by
  have htake : (pad k n ++ cs).take k = pad k n := List.take_left' (length_pad k n)
  have hdigits : (pad k n).all Char.isDigit = true :=
    List.all_eq_true.mpr fun c hc => isDigit_of_mem_pad hc
  rw [readFixed, htake, if_pos ⟨length_pad k n, hdigits⟩, digitsValue_pad,
    List.drop_left' (length_pad k n)]

@[simp] theorem expect_self (c : Char) (cs : List Char) : expect c (c :: cs) = some cs :=
  if_pos rfl

theorem readDate_dateText {d : ℕ} (h : d < daysBeforeYear 9999) (cs : List Char) :
    readDate (Time.dateText (civilDate d) ++ cs) = some cs := by
  have hyear := civilDate_year_le h
  have hmonth := month_le_twelve d
  have hday := day_le_thirtyOne d
  simp only [readDate, Time.dateText, List.append_assoc, List.cons_append, readFixed_pad,
    expect_self, Option.bind_eq_bind, Option.bind_some]
  rw [Nat.mod_eq_of_lt (by omega), Nat.mod_eq_of_lt (by omega), Nat.mod_eq_of_lt (by omega),
    if_pos (civilDate_valid d)]

theorem readClock_clockText {s : ℕ} (h : s < 86400) (cs : List Char) :
    readClock (Time.clockText s ++ cs) = some cs := by
  simp only [readClock, readMinute, Time.clockText, List.append_assoc, List.cons_append,
    readFixed_pad, expect_self, Option.bind_eq_bind, Option.bind_some]
  rw [if_pos ⟨by omega, by omega⟩]
  simp only [expect_self, readFixed_pad, Option.bind_some]
  rw [if_pos (by omega)]

/-- **Written instants are read.** -/
theorem validTime_format {t : Time} (h : t.InYears) : validTime t.format = true := by
  have hfraction : readSubsecond (Time.fractionText t.fraction) = some ['Z'] := by
    rcases hfrac : t.fraction with - | ⟨d, rest⟩
    · rfl
    · have hdigits : ∀ c ∈ d :: rest, c.isDigit = true := fun c hc => by
        have hpad : c ∈ pad 9 t.nsec :=
          (trimZeros_isPrefix _).subset (show c ∈ t.fraction from hfrac ▸ hc)
        exact isDigit_of_mem_pad hpad
      have htake : (d :: rest ++ ['Z']).takeWhile Char.isDigit = d :: rest := by
        rw [List.takeWhile_append_of_pos hdigits]
        simp
      have hdrop : (d :: rest ++ ['Z']).dropWhile Char.isDigit = ['Z'] := by
        rw [List.dropWhile_append_of_pos hdigits]
        rfl
      change (if ((d :: rest ++ ['Z']).takeWhile Char.isDigit).isEmpty then none
        else some ((d :: rest ++ ['Z']).dropWhile Char.isDigit)) = _
      rw [htake, hdrop]
      rfl
  have hsecond : t.sec % 86400 < 86400 := Nat.mod_lt _ (by norm_num)
  have htext : t.format.toList = Time.dateText (civilDate (t.sec / 86400)) ++
      'T' :: (Time.clockText (t.sec % 86400) ++ Time.fractionText t.fraction) := by
    rw [Time.format, String.toList_ofList, Time.secondText, List.append_assoc, List.cons_append]
  rw [validTime, htext, readDate_dateText h]
  simp only [Option.bind_eq_bind, Option.bind_some, expect_self, readClock_clockText hsecond,
    hfraction]
  rfl

/-! ### Items -/

/-- What a `spoolItem` is decoded into. -/
structure DecodedItem where
  path : String
  batchID : String
  body : Option Json

/-- The `json.RawMessage` of the body: any value. -/
def bodyField : Decoder DecodedItem := fun v item => some { item with body := some v }

/-- The time of queueing, of which only its form is looked at. -/
def queuedAtField : Decoder DecodedItem
  | .str s, item => if validTime s then some item else none
  | .null, item => some item
  | _, _ => none

/-- The fields of `spoolItem`. -/
def spoolItemFields : List (String × Decoder DecodedItem) := [
  ("path", Decoder.field DecodedItem.path (fun item x => { item with path := x }) Decoder.string),
  ("batch_id",
    Decoder.field DecodedItem.batchID (fun item x => { item with batchID := x }) Decoder.string),
  ("body", bodyField),
  ("queued_at", queuedAtField)]

/-- What `Front` makes of the content of a file: the item, or `none` for a corrupt file. -/
def decodeItem (raw : String) : Option Batch := do
  let v ← Json.parse raw.toList
  let item ← Decoder.struct spoolItemFields v ⟨"", "", none⟩
  let body ← item.body
  if item.path = "" then none else some ⟨item.path, item.batchID, body⟩

/-- `json.Marshal(item)`. -/
def SpoolItem.text (i : SpoolItem) : String := String.ofList (i.toJson.render goEscape)

/-- A batch as the methods of `Client` send it: a path, and a body which nests less deep than the
reader allows, so that the item around it can be read as well. -/
structure Batch.Sent (b : Batch) : Prop where
  path : b.path ≠ ""
  body : b.body.depth < Json.maxDepth

theorem depth_toJson_item (i : SpoolItem) : i.toJson.depth ≤ i.body.depth + 1 := by
  have hstr : ∀ s : String, (Json.str s).depth = 0 := fun _ => rfl
  rw [SpoolItem.toJson, Json.depth]
  split_ifs
  · simp only [List.cons_append, List.nil_append, Json.depthMembers, hstr]
    omega
  · simp only [List.cons_append, List.nil_append, Json.depthMembers, hstr]
    omega

section Members

variable (l : List (String × Json)) (item : DecodedItem)

theorem members_path (s : String) : Decoder.members spoolItemFields (("path", .str s) :: l) item =
    Decoder.members spoolItemFields l { item with path := s } := by
  rw [Decoder.members_cons rfl]
  simp only [Decoder.field, Decoder.string_str, Option.map_some, Option.bind_some]

theorem members_batchID (s : String) :
    Decoder.members spoolItemFields (("batch_id", .str s) :: l) item =
      Decoder.members spoolItemFields l { item with batchID := s } := by
  rw [Decoder.members_cons rfl]
  simp only [Decoder.field, Decoder.string_str, Option.map_some, Option.bind_some]

theorem members_body (v : Json) : Decoder.members spoolItemFields (("body", v) :: l) item =
    Decoder.members spoolItemFields l { item with body := some v } := by
  rw [Decoder.members_cons rfl]
  simp only [bodyField, Option.bind_some]

theorem members_queuedAt {now : Time} (hnow : now.InYears) :
    Decoder.members spoolItemFields (("queued_at", .str now.format) :: l) item =
      Decoder.members spoolItemFields l item := by
  rw [Decoder.members_cons rfl]
  simp only [queuedAtField, validTime_format hnow, if_true, Option.bind_some]

end Members

/-- **Items are read back.** -/
theorem decodeItem_text {b : Batch} (hb : b.Sent) {now : Time} (hnow : now.InYears) :
    decodeItem (SpoolItem.mk b now).text = some b := by
  have hparse : Json.parse (SpoolItem.mk b now).text.toList = some (SpoolItem.mk b now).toJson := by
    rw [SpoolItem.text, String.toList_ofList]
    exact Json.parse_render goEscape ((depth_toJson_item _).trans hb.body)
  have hstruct : Decoder.struct spoolItemFields (SpoolItem.mk b now).toJson ⟨"", "", none⟩ =
      some ⟨b.path, b.batchID, some b.body⟩ := by
    rw [SpoolItem.toJson, Decoder.struct_obj, List.append_assoc, List.singleton_append,
      members_path]
    split_ifs with hid
    · rw [List.nil_append, members_body, members_queuedAt _ _ hnow, Decoder.members_nil, hid]
    · rw [List.singleton_append, members_batchID, members_body, members_queuedAt _ _ hnow,
        Decoder.members_nil]
  rw [decodeItem, hparse]
  simp only [Option.bind_eq_bind, Option.bind_some, hstruct, if_neg hb.path]

end Argus
