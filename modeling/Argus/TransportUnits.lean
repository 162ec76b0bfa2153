import Argus.Foundations.JsonWriter
import Argus.Transport

/-!
# The OTLP encoder on any Java strings

A `String` of Java is any sequence of UTF-16 code units, and may hold a surrogate without its
partner, as well as be null. `quote_decodes` says that `quote` writes a JSON string that decodes to
the same units, and `encode_document` that the text of an export is that of one JSON value, whose
strings are those of the spans. On Unicode text the encoder is the one of `Argus.Transport`
(`encode_ofSpan`).
-/

namespace Argus.Units

open Foundations Foundations.Units

/-! ### Spans -/

/-- `String`, where none is null. -/
abbrev JavaString : Type := Option Text

/-- `value == null ? "" : value`. -/
def JavaString.text (value : JavaString) : Text := value.getD []

/-- The entries of a `LinkedHashMap<String, String>`, in the order in which their keys came. -/
abbrev Attributes : Type := List (JavaString × JavaString)

/-- `put`: replace the entry of a key, or add it at the end. -/
def put (key value : JavaString) : Attributes → Attributes
  | [] => [(key, value)]
  | e :: l => if e.1 = key then (key, value) :: l else e :: put key value l

/-- `Transport.Span`. -/
structure Span where
  name : JavaString
  traceId : JavaString
  spanId : JavaString
  parentSpanId : JavaString
  correlationId : JavaString
  kind : JavaString
  status : JavaString
  startTimeUnixNano : JavaString
  endTimeUnixNano : JavaString
  attributes : Option Attributes

/-- What `prepare` may put into a span. -/
structure Minted where
  traceId : JavaString
  spanId : JavaString
  now : JavaString

/-- `prepare`. -/
def prepare (minted : Minted) (span : Span) : Span :=
  let start := if span.startTimeUnixNano.text = [] then minted.now else span.startTimeUnixNano
  { span with
    traceId := if span.traceId.text = [] then minted.traceId else span.traceId
    spanId := if span.spanId.text = [] then minted.spanId else span.spanId
    startTimeUnixNano := start
    endTimeUnixNano := if span.endTimeUnixNano.text = [] then start else span.endTimeUnixNano }

/-! ### Writing -/

/-- What `quote` appends for a unit. -/
def quoteUnit (c : UInt16) : Text :=
  if c = unit '"' then units "\\\""
  else if c = unit '\\' then units "\\\\"
  else if c = unit '\n' then units "\\n"
  else if c = unit '\r' then units "\\r"
  else if c = unit '\t' then units "\\t"
  else if c < 0x20 then units "\\u" ++ (hexFour c.toNat).map unit
  else [c]

/-- `quote`. -/
def quote (value : JavaString) : Text :=
  unit '"' :: (value.text.flatMap quoteUnit ++ [unit '"'])

/-- `attr`. -/
def attr (key value : JavaString) : Text :=
  units "\x7b\"key\":" ++ quote key ++ units ",\"value\":\x7b\"stringValue\":" ++ quote value ++
    units "\x7d\x7d"

/-- `kind`. -/
def kind (name : JavaString) : ℕ :=
  if name = some (units "internal") then 1
  else if name = some (units "client") then 3
  else if name = some (units "producer") then 4
  else if name = some (units "consumer") then 5
  else 2

/-- `status`. -/
def status (name : JavaString) : ℕ :=
  if name = some (units "ok") then 1 else if name = some (units "error") then 2 else 0

/-- The attributes that are sent: those of the span, and its correlation id. -/
def Span.attrs (span : Span) : Attributes :=
  let attrs := span.attributes.getD []
  if span.correlationId.text = [] then attrs
  else put (some (units "argus.correlation_id")) span.correlationId attrs

/-- `spanJson`. -/
def spanJson (minted : Minted) (span : Span) : Text :=
  let span := prepare minted span
  units "\x7b\"traceId\":" ++ quote span.traceId ++
    units ",\"spanId\":" ++ quote span.spanId ++
    units ",\"parentSpanId\":" ++ quote span.parentSpanId ++
    units ",\"name\":" ++ quote span.name ++
    units ",\"kind\":" ++ [unit (digit (kind span.kind))] ++
    units ",\"startTimeUnixNano\":" ++ quote span.startTimeUnixNano ++
    units ",\"endTimeUnixNano\":" ++ quote span.endTimeUnixNano ++
    units ",\"attributes\":[" ++
    separated (span.attrs.map fun e => attr e.1 e.2) ++
    units "],\"status\":\x7b\"code\":" ++ [unit (digit (status span.status))] ++ units "\x7d\x7d"

/-- The fields of a `Transport` that its documents show, which are never null. -/
structure Transport where
  service : Text
  container : Text

/-- `encode`. The spans are prepared one after the other. -/
def Transport.encode (t : Transport) (minted : ℕ → Minted) (spans : List Span) : Text :=
  units "\x7b\"resourceSpans\":[\x7b\"resource\":\x7b\"attributes\":[" ++
    attr (some (units "service.name")) (some t.service) ++
    (if t.container = [] then []
      else units "," ++ attr (some (units "container.name")) (some t.container)) ++
    units "]\x7d,\"scopeSpans\":[\x7b\"spans\":[" ++
    separated (spans.mapIdx fun i s => spanJson (minted i) s) ++
    units "]\x7d]\x7d]\x7d"

/-! ### Strings -/

/-- What is written for a unit is a text of it. -/
theorem quoteUnit_charText (c : UInt16) : CharText c (quoteUnit c) := by
  rw [quoteUnit]
  split_ifs with hquote hslash hnewline hreturn htab hcontrol
  · exact hquote ▸ .short (by decide)
  · exact hslash ▸ .short (by decide)
  · exact hnewline ▸ .short (by decide)
  · exact hreturn ▸ .short (by decide)
  · exact htab ▸ .short (by decide)
  · have hdigit : ∀ n < 16, hexUnit (unit (hexDigit n)) = some n := by decide
    have hlt := c.toNat_lt
    refine CharText.long (hdigit _ (Nat.mod_lt _ (by decide))) (hdigit _ (Nat.mod_lt _ (by decide)))
      (hdigit _ (Nat.mod_lt _ (by decide))) (hdigit _ (Nat.mod_lt _ (by decide))) ?_
    omega
  · exact .plain (UInt16.not_lt.mp hcontrol) hquote hslash

/-- The encoder as a writer. -/
def javaWriter : Writer := ⟨quoteUnit, quoteUnit_charText⟩

theorem quote_eq (value : JavaString) : quote value = javaWriter.quote value.text := rfl

/-- **Strings of any units.** `quote` writes a JSON string without a raw control character, whose
quotation marks and backslashes are all escaped, and that decodes to the given units and to nothing
else. -/
theorem quote_decodes (value : JavaString) :
    (∃ body, quote value = unit '"' :: (body ++ [unit '"']) ∧ BodyText value.text body ∧
      ∀ u ∈ body, 0x20 ≤ u) ∧
    ∀ s, StringText s (quote value) ↔ s = value.text := by
  have hbody : BodyText value.text (value.text.flatMap quoteUnit) :=
    javaWriter.bodyText value.text
  refine ⟨⟨_, rfl, hbody, fun u hu => hbody.le_of_mem hu⟩, fun s => ⟨fun h => ?_, ?_⟩⟩
  · exact (@StringText.unique _ _ _ _ [] [] h (.quoted hbody) rfl).1
  · rintro rfl
    exact .quoted hbody

/-! ### Documents -/

/-- The value of an attribute's text. -/
def attrDoc (key value : JavaString) : Value :=
  .obj [(units "key", .str key.text),
    (units "value", .obj [(units "stringValue", .str value.text)])]

theorem kind_lt (name : JavaString) : kind name < 10 := by
  rw [kind]
  split_ifs <;> decide

theorem status_lt (name : JavaString) : status name < 10 := by
  rw [status]
  split_ifs <;> decide

/-- The value of a span's text. -/
def spanDoc (span : Span) : Value :=
  .obj [(units "traceId", .str span.traceId.text), (units "spanId", .str span.spanId.text),
    (units "parentSpanId", .str span.parentSpanId.text), (units "name", .str span.name.text),
    (units "kind", .num (Number.ofDigit ⟨_, kind_lt span.kind⟩)),
    (units "startTimeUnixNano", .str span.startTimeUnixNano.text),
    (units "endTimeUnixNano", .str span.endTimeUnixNano.text),
    (units "attributes", .arr (span.attrs.map fun e => attrDoc e.1 e.2)),
    (units "status", .obj [(units "code", .num (Number.ofDigit ⟨_, status_lt span.status⟩))])]

/-- The attributes of the resource. -/
def Transport.resourceDoc (t : Transport) : List Value :=
  attrDoc (some (units "service.name")) (some t.service) ::
    if t.container = [] then []
    else [attrDoc (some (units "container.name")) (some t.container)]

/-- The value that `encode` writes for prepared spans. -/
def Transport.document (t : Transport) (spans : List Span) : Value :=
  .obj [(units "resourceSpans", .arr [.obj [
    (units "resource", .obj [(units "attributes", .arr t.resourceDoc)]),
    (units "scopeSpans", .arr [.obj [(units "spans", .arr (spans.map spanDoc))]])]])]

/-- A name of plain units is written as it is. -/
theorem quote_units (name : String)
    (h : ((units name).all fun u => decide (quoteUnit u = [u])) = true) :
    javaWriter.quote (units name) = unit '"' :: (units name ++ [unit '"']) := by
  have hall : (units name).flatMap quoteUnit = units name := by
    rw [List.flatMap_congr fun u hu => of_decide_eq_true (List.all_eq_true.mp h u hu)]
    exact List.flatMap_singleton' _
  rw [Writer.quote, javaWriter, hall]

theorem attr_eq (key value : JavaString) :
    attr key value = render javaWriter (attrDoc key value) := by
  simp only [attrDoc, render, renderMembers, separated_cons, quote_units "key" (by decide),
    quote_units "value" (by decide), quote_units "stringValue" (by decide)]
  unfold attr
  simp [quote_eq, units]

theorem spanJson_eq (minted : Minted) (span : Span) :
    spanJson minted span = render javaWriter (spanDoc (prepare minted span)) := by
  have hattrs : (prepare minted span).attrs.map (fun e => attr e.1 e.2) =
      renderElements javaWriter ((prepare minted span).attrs.map fun e => attrDoc e.1 e.2) := by
    rw [renderElements_eq, List.map_map]
    exact List.map_congr_left fun e _ => attr_eq e.1 e.2
  rw [spanDoc]
  simp only [render, renderMembers, separated_cons, Number.ofDigit, ← hattrs,
    quote_units "traceId" (by decide), quote_units "spanId" (by decide),
    quote_units "parentSpanId" (by decide), quote_units "name" (by decide),
    quote_units "kind" (by decide), quote_units "startTimeUnixNano" (by decide),
    quote_units "endTimeUnixNano" (by decide), quote_units "attributes" (by decide),
    quote_units "status" (by decide), quote_units "code" (by decide)]
  unfold spanJson
  simp [quote_eq, units]

/-- The text of an export is what the writer writes for the document. -/
theorem Transport.encode_eq (t : Transport) (minted : ℕ → Minted) (spans : List Span) :
    t.encode minted spans =
      render javaWriter (t.document (spans.mapIdx fun i s => prepare (minted i) s)) := by
  have hspans : spans.mapIdx (fun i s => spanJson (minted i) s) =
      renderElements javaWriter ((spans.mapIdx fun i s => prepare (minted i) s).map spanDoc) := by
    rw [renderElements_eq, List.map_map]
    refine List.ext_getElem (by simp) fun i hi hi' => ?_
    rw [List.getElem_mapIdx, List.getElem_map, List.getElem_mapIdx]
    exact spanJson_eq _ _
  have hresource : attr (some (units "service.name")) (some t.service) ++
      (if t.container = [] then []
        else units "," ++ attr (some (units "container.name")) (some t.container)) =
          separated (renderElements javaWriter t.resourceDoc) := by
    rw [renderElements_eq, resourceDoc]
    split_ifs
    · simp [separated, attr_eq]
    · simp [separated, attr_eq, units]
  rw [document]
  simp only [render, renderMembers, renderElements, ← hspans, ← hresource,
    quote_units "resourceSpans" (by decide), quote_units "resource" (by decide),
    quote_units "attributes" (by decide), quote_units "scopeSpans" (by decide),
    quote_units "spans" (by decide)]
  unfold encode
  simp [separated, units]

/-- **Key result.** `quote` writes a JSON string, without a raw control character, a quotation mark
or a backslash that is not escaped, which decodes to the given units; and for all spans and
attributes the text of `encode` is JSON, of the document whose strings are the given ones and of no
other value. -/
theorem encode_document :
    (∀ value : JavaString,
      (∃ body, quote value = unit '"' :: (body ++ [unit '"']) ∧ BodyText value.text body ∧
        ∀ u ∈ body, 0x20 ≤ u) ∧
      ∀ s, StringText s (quote value) ↔ s = value.text) ∧
    ∀ (t : Transport) (minted : ℕ → Minted) (spans : List Span) (v : Value),
      PaddedText v (t.encode minted spans) ↔
        v = t.document (spans.mapIdx fun i s => prepare (minted i) s) := by
  refine ⟨quote_decodes, fun t minted spans v => ?_⟩
  rw [t.encode_eq]
  exact paddedText_render_iff javaWriter

/-! ### Unicode text -/

/-- The code units of a character. -/
def utf16Char (c : Char) : Text :=
  if c.toNat < 0x10000 then [unit c]
  else [.ofNat (0xD800 + (c.toNat - 0x10000) / 0x400),
    .ofNat (0xDC00 + (c.toNat - 0x10000) % 0x400)]

/-- The code units of a text. -/
def utf16 (cs : List Char) : Text := cs.flatMap utf16Char

/-- A unit that is neither escaped nor a control character is written as it is. -/
theorem quoteUnit_of_le {u : UInt16} (h : 0x5D ≤ u) : quoteUnit u = [u] := by
  have hne : ∀ v : UInt16, v < 0x5D → u ≠ v := by
    rintro v hv rfl
    exact absurd h (UInt16.not_le.mpr hv)
  have hcontrol : ¬ u < 0x20 := UInt16.not_lt.mpr (UInt16.le_trans (by decide) h)
  rw [quoteUnit, if_neg (hne _ (by decide)), if_neg (hne _ (by decide)), if_neg (hne _ (by decide)),
    if_neg (hne _ (by decide)), if_neg (hne _ (by decide)), if_neg hcontrol]

/-- The encoder writes a character as its units. -/
theorem quoteUnit_utf16Char (c : Char) :
    (utf16Char c).flatMap quoteUnit = utf16 (Argus.quoteChar c) := by
  rcases Nat.lt_or_ge c.toNat 0x5D with hlow | hhigh
  -- all characters that are escaped are among the first ones
  · have hall : ∀ n < 0x5D, (utf16Char (Char.ofNat n)).flatMap quoteUnit =
        utf16 (Argus.quoteChar (Char.ofNat n)) := by decide +kernel
    have hc := hall c.toNat hlow
    rwa [Char.ofNat_toNat] at hc
  have hne : ∀ d : Char, d.toNat < 0x5D → c ≠ d := by
    rintro d hd rfl
    exact absurd hd (Nat.not_lt.mpr hhigh)
  have hchar : Argus.quoteChar c = [c] := by
    rw [Argus.quoteChar, if_neg (hne _ (by decide)), if_neg (hne _ (by decide)),
      if_neg (hne _ (by decide)), if_neg (hne _ (by decide)), if_neg (hne _ (by decide)),
      if_neg (by omega)]
  have hplain : ∀ u ∈ utf16Char c, quoteUnit u = [u] := by
    have hle : ∀ n, 0x5D ≤ n → n < 0x10000 → quoteUnit (.ofNat n) = [.ofNat n] := by
      intro n hn hn'
      refine quoteUnit_of_le (UInt16.le_iff_toNat_le.mpr ?_)
      rwa [UInt16.toNat_ofNat', Nat.mod_eq_of_lt hn']
    have hvalid : c.toNat < 0x110000 := by
      rcases c.valid with hlt | ⟨-, hlt⟩
      · exact Nat.lt_trans hlt (by decide)
      · exact hlt
    intro u hu
    rw [utf16Char] at hu
    split_ifs at hu with hbmp
    · rw [List.mem_singleton.mp hu]
      exact hle _ hhigh hbmp
    · simp only [List.mem_cons, List.not_mem_nil, or_false] at hu
      rcases hu with rfl | rfl
      · exact hle _ (by omega) (by omega)
      · exact hle _ (by omega) (by omega)
  rw [hchar, List.flatMap_congr hplain, List.flatMap_singleton', utf16, List.flatMap_singleton]

theorem utf16_append (cs ds : List Char) : utf16 (cs ++ ds) = utf16 cs ++ utf16 ds :=
  List.flatMap_append

/-- A character below `U+10000` is one unit. -/
theorem utf16_units (s : String) (h : (s.toList.all fun c => c.toNat < 0x10000) = true) :
    utf16 s.toList = units s := by
  have hchar : ∀ c ∈ s.toList, utf16Char c = [unit c] := fun c hc =>
    if_pos (of_decide_eq_true (List.all_eq_true.mp h c hc))
  rw [utf16, List.flatMap_congr hchar, units, ← List.map_eq_flatMap]

/-- The first units tell the character, and what comes after it. -/
theorem utf16Char_append_inj {c d : Char} {t u : Text} (h : utf16Char c ++ t = utf16Char d ++ u) :
    c = d ∧ t = u := by
  have hlow : ∀ c : Char, c.toNat < 0xD800 ∨ (0xDFFF < c.toNat ∧ c.toNat < 0x110000) :=
    fun c => c.valid
  have hofNat : ∀ {m n : ℕ}, m < 0x10000 → n < 0x10000 → UInt16.ofNat m = UInt16.ofNat n → m = n :=
    fun hm hn heq => by
      have hnat := congrArg UInt16.toNat heq
      rwa [UInt16.toNat_ofNat', UInt16.toNat_ofNat', Nat.mod_eq_of_lt hm,
        Nat.mod_eq_of_lt hn] at hnat
  have hc := hlow c
  have hd := hlow d
  rw [utf16Char, utf16Char] at h
  split_ifs at h with hc' hd' hd'
  · obtain ⟨hunit, hrest⟩ := List.cons.inj h
    exact ⟨Char.toNat_inj.mp (hofNat hc' hd' hunit), hrest⟩
  -- a single unit is no surrogate
  · have hunit := hofNat hc' (by omega) (List.cons.inj h).1
    omega
  · have hunit := hofNat (by omega) hd' (List.cons.inj h).1
    omega
  · obtain ⟨hfirst, hrest⟩ := List.cons.inj h
    obtain ⟨hsecond, hrest⟩ := List.cons.inj hrest
    have hfirst := hofNat (by omega) (by omega) hfirst
    have hsecond := hofNat (by omega) (by omega) hsecond
    exact ⟨Char.toNat_inj.mp (by omega), hrest⟩

theorem utf16_inj {cs ds : List Char} : utf16 cs = utf16 ds ↔ cs = ds := by
  refine ⟨fun h => ?_, congrArg utf16⟩
  have hne : ∀ (c : Char) (t : Text), utf16Char c ++ t ≠ [] := fun c t => by
    rw [utf16Char]
    split_ifs <;> exact List.cons_ne_nil _ _
  induction cs generalizing ds with
  | nil =>
    cases ds with
    | nil => rfl
    | cons d ds => exact absurd h.symm (hne d (utf16 ds))
  | cons c cs ih =>
    cases ds with
    | nil => exact absurd h (hne c (utf16 cs))
    | cons d ds =>
      obtain ⟨rfl, hrest⟩ := utf16Char_append_inj (h : utf16Char c ++ utf16 cs = _ ++ utf16 ds)
      rw [ih hrest]

/-- A text of characters as a Java string. -/
def javaString (s : String) : JavaString := some (utf16 s.toList)

theorem javaString_inj {s t : String} : javaString s = javaString t ↔ s = t := by
  rw [javaString, javaString, Option.some.injEq, utf16_inj, String.toList_inj]

theorem utf16_toList_eq_nil {s : String} : utf16 s.toList = [] ↔ s = "" := by
  rw [← String.toList_inj]
  exact @utf16_inj s.toList []

theorem text_javaString_eq_nil {s : String} : (javaString s).text = [] ↔ s = "" :=
  utf16_toList_eq_nil

theorem javaString_eq_units {name : String}
    (h : (name.toList.all fun c => c.toNat < 0x10000) = true) {s : String} :
    javaString s = some (units name) ↔ s = name := by
  rw [← utf16_units name h]
  exact javaString_inj

/-- A span of characters. -/
def ofSpan (span : Argus.Span) : Span where
  name := javaString span.name
  traceId := javaString span.traceId
  spanId := javaString span.spanId
  parentSpanId := javaString span.parentSpanId
  correlationId := javaString span.correlationId
  kind := javaString span.kind
  status := javaString span.status
  startTimeUnixNano := javaString span.startTimeUnixNano
  endTimeUnixNano := javaString span.endTimeUnixNano
  attributes := some (span.attributes.entries.map fun e => (javaString e.1, javaString e.2))

def ofMinted (minted : Argus.Minted) : Minted :=
  ⟨javaString minted.traceId, javaString minted.spanId, javaString minted.now⟩

theorem prepare_ofSpan (minted : Argus.Minted) (span : Argus.Span) :
    prepare (ofMinted minted) (ofSpan span) = ofSpan (Argus.prepare minted span) := by
  simp only [prepare, Argus.prepare, ofSpan, ofMinted, text_javaString_eq_nil, apply_ite javaString]

theorem kind_javaString (name : String) : kind (javaString name) = Argus.kind name := by
  simp (disch := decide) only [kind, Argus.kind, javaString_eq_units, apply_ite Fin.val]
  rfl

theorem status_javaString (name : String) : status (javaString name) = Argus.status name := by
  simp (disch := decide) only [status, Argus.status, javaString_eq_units, apply_ite Fin.val]
  rfl

theorem put_javaString (key value : String) (l : List (String × String)) :
    put (javaString key) (javaString value) (l.map fun e => (javaString e.1, javaString e.2)) =
      (LinkedHashMap.putEntry key value l).map fun e => (javaString e.1, javaString e.2) := by
  induction l with
  | nil => rfl
  | cons e l ih =>
    rw [List.map_cons, put, LinkedHashMap.putEntry]
    simp only [javaString_inj]
    split_ifs
    · rfl
    · rw [ih, List.map_cons]

theorem attrs_ofSpan (span : Argus.Span) : (ofSpan span).attrs =
    span.attrs.entries.map fun e => (javaString e.1, javaString e.2) := by
  have hkey : some (units "argus.correlation_id") = javaString "argus.correlation_id" :=
    ((javaString_eq_units (by decide)).mpr rfl).symm
  rw [Span.attrs, Argus.Span.attrs]
  simp only [ofSpan, Option.getD_some, text_javaString_eq_nil, hkey]
  split_ifs
  · rfl
  · exact put_javaString _ _ _

/-- On Unicode text `quote` writes the units of what the encoder on characters writes. -/
theorem quote_javaString (value : String) :
    quote (javaString value) = utf16 (Argus.quote value) := by
  have hbody : (utf16 value.toList).flatMap quoteUnit =
      utf16 (value.toList.flatMap Argus.quoteChar) := by
    rw [utf16, utf16, List.flatMap_assoc, List.flatMap_assoc]
    exact List.flatMap_congr fun c _ => quoteUnit_utf16Char c
  have hmark : utf16Char '"' = [unit '"'] := rfl
  rw [quote, javaString, JavaString.text, Option.getD_some, hbody, Argus.quote, utf16, utf16,
    List.flatMap_cons, List.flatMap_append, List.flatMap_singleton, hmark]
  rfl

theorem utf16_commaSeparated (ts : List (List Char)) :
    utf16 (Json.commaSeparated ts) = separated (ts.map utf16) := by
  cases ts with
  | nil => rfl
  | cons t ts =>
    rw [Json.commaSeparated, List.map_cons, separated, utf16_append, List.flatMap_map, utf16, utf16,
      List.flatMap_assoc]
    rfl

theorem attr_javaString (key value : String) :
    attr (javaString key) (javaString value) = utf16 (Argus.attr key value) := by
  unfold attr Argus.attr
  simp only [utf16_append, quote_javaString]
  rw [utf16_units _ (by decide), utf16_units _ (by decide), utf16_units _ (by decide)]

theorem spanJson_ofSpan (minted : Argus.Minted) (span : Argus.Span) :
    spanJson (ofMinted minted) (ofSpan span) = utf16 (Argus.spanJson minted span) := by
  have hdigit : ∀ n : Fin 10, utf16 [digit n] = [unit (digit n)] := by decide
  have hattrs : (ofSpan (Argus.prepare minted span)).attrs.map (fun e => attr e.1 e.2) =
      ((Argus.prepare minted span).attrs.entries.map fun e => Argus.attr e.1 e.2).map utf16 := by
    rw [attrs_ofSpan, List.map_map, List.map_map]
    exact List.map_congr_left fun e _ => attr_javaString e.1 e.2
  unfold spanJson Argus.spanJson
  simp only [prepare_ofSpan, hattrs, utf16_append, utf16_commaSeparated]
  simp (disch := decide) only [ofSpan, quote_javaString, kind_javaString, status_javaString, hdigit,
    utf16_units]

/-- **One encoder.** On Unicode text `encode` writes the units of what the encoder on characters
writes. -/
theorem encode_ofSpan (service container : String) (minted : ℕ → Argus.Minted)
    (spans : List Argus.Span) :
    Transport.encode ⟨utf16 service.toList, utf16 container.toList⟩ (fun i => ofMinted (minted i))
      (spans.map ofSpan) =
        utf16 (Argus.Transport.encode ⟨service, container⟩ minted spans).toList := by
  have hspans : (spans.map ofSpan).mapIdx (fun i s => spanJson (ofMinted (minted i)) s) =
      (spans.mapIdx fun i s => Argus.spanJson (minted i) s).map utf16 := by
    refine List.ext_getElem (by simp) fun i hi hi' => ?_
    rw [List.getElem_mapIdx, List.getElem_map, List.getElem_map, List.getElem_mapIdx]
    exact spanJson_ofSpan _ _
  have hattr : ∀ name value : String, (name.toList.all fun c => c.toNat < 0x10000) = true →
      attr (some (units name)) (some (utf16 value.toList)) = utf16 (Argus.attr name value) :=
    fun name value h => by
      rw [← (javaString_eq_units h).mpr rfl]
      exact attr_javaString name value
  have hcontainer : (if utf16 container.toList = [] then [] else
      units "," ++ attr (some (units "container.name")) (some (utf16 container.toList))) =
        utf16 (if container = "" then [] else ',' :: Argus.attr "container.name" container) := by
    rw [hattr "container.name" container (by decide)]
    by_cases hempty : container = ""
    · rw [if_pos (utf16_toList_eq_nil.mpr hempty), if_pos hempty]
      rfl
    · rw [if_neg (utf16_toList_eq_nil.not.mpr hempty), if_neg hempty]
      rfl
  unfold Transport.encode Argus.Transport.encode
  simp only [String.toList_ofList, utf16_append, utf16_commaSeparated, hspans, hcontainer]
  rw [hattr "service.name" service (by decide)]
  simp (disch := decide) only [utf16_units]

end Argus.Units
