import Argus.Foundations.JsonRoundTrip
import Argus.Strings

/-!
# The OTLP encoder of the clients

`io.argus.transport.Transport` of the Java client: it fills in what a span lacks, writes the
headers of the outgoing request and encodes spans as the JSON text of an OTLP export. A field
that is null is the empty text, which the encoder treats alike. What `prepare` draws or reads
from the clock for a span is a `Minted`.

The text is written by hand, piece by piece; `encode_eq` says which JSON value it is, and
`encode_after_headers` that the header of a span names the ids that are in it.
-/

namespace Argus

open Foundations

/-! ### Spans -/

/-- `LinkedHashMap<String, String>`: entries in the order in which their keys came. -/
structure LinkedHashMap where
  entries : List (String × String)
  nodup : (entries.map Prod.fst).Nodup

namespace LinkedHashMap

/-- Replace the entry of a key, or add it at the end. -/
def putEntry (key value : String) : List (String × String) → List (String × String)
  | [] => [(key, value)]
  | e :: l => if e.1 = key then (key, value) :: l else e :: putEntry key value l

theorem mem_putEntry {key value : String} {e : String × String} {l : List (String × String)}
    (h : e ∈ putEntry key value l) : e = (key, value) ∨ e ∈ l := by
  induction l with
  | nil => exact .inl (List.mem_singleton.mp h)
  | cons d l ih =>
    rw [putEntry] at h
    split_ifs at h with hd
    · exact (List.mem_cons.mp h).imp_right (List.mem_cons_of_mem d)
    · rcases List.mem_cons.mp h with rfl | h
      · exact .inr List.mem_cons_self
      · exact (ih h).imp_right (List.mem_cons_of_mem d)

private theorem nodup_putEntry (key value : String) {l : List (String × String)}
    (h : (l.map Prod.fst).Nodup) : ((putEntry key value l).map Prod.fst).Nodup := by
  induction l with
  | nil => exact by simp [putEntry]
  | cons d l ih =>
    rw [List.map_cons, List.nodup_cons] at h
    rw [putEntry]
    split_ifs with hd
    · rw [List.map_cons, List.nodup_cons, ← hd]
      exact h
    · rw [List.map_cons, List.nodup_cons]
      refine ⟨fun hmem => ?_, ih h.2⟩
      obtain ⟨e, he, hkey⟩ := List.mem_map.mp hmem
      rcases mem_putEntry he with rfl | he
      · exact hd hkey.symm
      · exact h.1 (hkey ▸ List.mem_map_of_mem he)

/-- `put`. -/
def put (m : LinkedHashMap) (key value : String) : LinkedHashMap :=
  ⟨putEntry key value m.entries, nodup_putEntry key value m.nodup⟩

/-- `new LinkedHashMap<>()`. -/
instance : EmptyCollection LinkedHashMap := ⟨⟨[], List.nodup_nil⟩⟩

end LinkedHashMap

/-- `Transport.Span`. -/
structure Span where
  name : String
  traceId : String
  spanId : String
  parentSpanId : String
  correlationId : String
  kind : String
  status : String
  startTimeUnixNano : String
  endTimeUnixNano : String
  attributes : LinkedHashMap

/-- What `prepare` may put into a span: `hex(16)`, `hex(8)` and the time of the clock. -/
structure Minted where
  traceId : String
  spanId : String
  now : String

/-- `new Span(name)`. -/
def Span.new (name : String) : Span where
  name := name
  traceId := ""
  spanId := ""
  parentSpanId := ""
  correlationId := ""
  kind := "server"
  status := "ok"
  startTimeUnixNano := ""
  endTimeUnixNano := ""
  attributes := ∅

/-- `prepare`. -/
def prepare (minted : Minted) (span : Span) : Span :=
  let start := if span.startTimeUnixNano = "" then minted.now else span.startTimeUnixNano
  { span with
    traceId := if span.traceId = "" then minted.traceId else span.traceId
    spanId := if span.spanId = "" then minted.spanId else span.spanId
    startTimeUnixNano := start
    endTimeUnixNano := if span.endTimeUnixNano = "" then start else span.endTimeUnixNano }

/-- `headers`. -/
def headers (minted : Minted) (span : Span) : LinkedHashMap :=
  let span := prepare minted span
  let out : LinkedHashMap :=
    if span.traceId.length = 32 ∧ span.spanId.length = 16 then
      (∅ : LinkedHashMap).put "traceparent" ("00-" ++ span.traceId ++ "-" ++ span.spanId ++ "-01")
    else ∅
  if span.correlationId = "" then out else out.put "X-Correlation-Id" span.correlationId

/-- A span that lacks nothing stays as it is. -/
theorem prepare_eq_self {span : Span} (htrace : span.traceId ≠ "") (hspan : span.spanId ≠ "")
    (hstart : span.startTimeUnixNano ≠ "") (hend : span.endTimeUnixNano ≠ "")
    (minted : Minted) : prepare minted span = span := by
  rw [prepare, if_neg htrace, if_neg hspan, if_neg hstart, if_neg hend]

/-! ### Writing -/

/-- What `quote` appends for a character. -/
def quoteChar (c : Char) : List Char :=
  if c = '"' then ['\\', '"']
  else if c = '\\' then ['\\', '\\']
  else if c = '\n' then ['\\', 'n']
  else if c = '\r' then ['\\', 'r']
  else if c = '\t' then ['\\', 't']
  else if c.toNat < 0x20 then '\\' :: 'u' :: hexFour c.toNat
  else [c]

/-- `quote`. -/
def quote (value : String) : List Char := '"' :: (value.toList.flatMap quoteChar ++ ['"'])

/-- `attr`. -/
def attr (key value : String) : List Char :=
  "\x7b\"key\":".toList ++ quote key ++ ",\"value\":\x7b\"stringValue\":".toList ++ quote value ++
    "\x7d\x7d".toList

/-- `kind`. -/
def kind (name : String) : Fin 10 :=
  if name = "internal" then 1
  else if name = "client" then 3
  else if name = "producer" then 4
  else if name = "consumer" then 5
  else 2

/-- `status`. -/
def status (name : String) : Fin 10 :=
  if name = "ok" then 1 else if name = "error" then 2 else 0

/-- The attributes that are sent: those of the span, and its correlation id. -/
def Span.attrs (span : Span) : LinkedHashMap :=
  if span.correlationId = "" then span.attributes
  else span.attributes.put "argus.correlation_id" span.correlationId

/-- `spanJson`. -/
def spanJson (minted : Minted) (span : Span) : List Char :=
  let span := prepare minted span
  "\x7b\"traceId\":".toList ++ quote span.traceId ++
    ",\"spanId\":".toList ++ quote span.spanId ++
    ",\"parentSpanId\":".toList ++ quote span.parentSpanId ++
    ",\"name\":".toList ++ quote span.name ++
    ",\"kind\":".toList ++ [digit (kind span.kind)] ++
    ",\"startTimeUnixNano\":".toList ++ quote span.startTimeUnixNano ++
    ",\"endTimeUnixNano\":".toList ++ quote span.endTimeUnixNano ++
    ",\"attributes\":[".toList ++
    Json.commaSeparated (span.attrs.entries.map fun e => attr e.1 e.2) ++
    "],\"status\":\x7b\"code\":".toList ++ [digit (status span.status)] ++ "\x7d\x7d".toList

/-- The fields of a `Transport` that its documents show. -/
structure Transport where
  service : String
  container : String

/-- `encode`. The spans are prepared one after the other. -/
def Transport.encode (t : Transport) (minted : ℕ → Minted) (spans : List Span) : String :=
  String.ofList <|
    "\x7b\"resourceSpans\":[\x7b\"resource\":\x7b\"attributes\":[".toList ++
    attr "service.name" t.service ++
    (if t.container = "" then [] else ',' :: attr "container.name" t.container) ++
    "]\x7d,\"scopeSpans\":[\x7b\"spans\":[".toList ++
    Json.commaSeparated (spans.mapIdx fun i s => spanJson (minted i) s) ++
    "]\x7d]\x7d]\x7d".toList

/-! ### The value that is written -/

/-- The escapes of one letter. -/
def javaShortEscape (c : Char) : Option Char :=
  if c = '"' then some '"'
  else if c = '\\' then some '\\'
  else if c = '\n' then some 'n'
  else if c = '\r' then some 'r'
  else if c = '\t' then some 't'
  else none

/-- How `quote` escapes the characters of a string. -/
def javaEscape : Escape :=
  Escape.of javaShortEscape (fun _ => false)
    (by
      intro c e h
      rw [javaShortEscape] at h
      split_ifs at h
      all_goals
        obtain rfl := Option.some.inj h
        subst_vars
        decide)
    (by decide) (by decide) (fun _ h => (nomatch h))

theorem quoteChar_eq (c : Char) : quoteChar c = javaEscape.write c := by
  rw [quoteChar, javaEscape, Escape.of]
  simp only [javaShortEscape]
  by_cases h₁ : c = '"'
  · simp [h₁]
  by_cases h₂ : c = '\\'
  · simp [h₂]
  by_cases h₃ : c = '\n'
  · simp [h₃]
  by_cases h₄ : c = '\r'
  · simp [h₄]
  by_cases h₅ : c = '\t'
  · simp [h₅]
  simp [h₁, h₂, h₃, h₄, h₅, isControl]

theorem quote_eq (value : String) : quote value = javaEscape.quote value := by
  rw [quote, Escape.quote, funext quoteChar_eq]

/-- The value of an attribute's text. -/
def attrDoc (key value : String) : Json :=
  .obj [("key", .str key), ("value", .obj [("stringValue", .str value)])]

/-- The value of a span's text. -/
def spanDoc (span : Span) : Json :=
  .obj [("traceId", .str span.traceId), ("spanId", .str span.spanId),
    ("parentSpanId", .str span.parentSpanId), ("name", .str span.name),
    ("kind", .num (Number.ofDigit (kind span.kind))),
    ("startTimeUnixNano", .str span.startTimeUnixNano),
    ("endTimeUnixNano", .str span.endTimeUnixNano),
    ("attributes", .arr (span.attrs.entries.map fun e => attrDoc e.1 e.2)),
    ("status", .obj [("code", .num (Number.ofDigit (status span.status)))])]

/-- The attributes of the resource. -/
def Transport.resourceDoc (t : Transport) : List Json :=
  attrDoc "service.name" t.service ::
    if t.container = "" then [] else [attrDoc "container.name" t.container]

/-- The value of the text that `encode` writes for prepared spans. -/
def Transport.document (t : Transport) (spans : List Span) : Json :=
  .obj [("resourceSpans", .arr [.obj [("resource", .obj [("attributes", .arr t.resourceDoc)]),
    ("scopeSpans", .arr [.obj [("spans", .arr (spans.map spanDoc))]])]])]

/-- A name of letters is written as it is. -/
private theorem quote_name (name : String) (h : name.toList.all Char.isAlpha = true) :
    javaEscape.quote name = '"' :: (name.toList ++ ['"']) := by
  have hchar : ∀ c : Char, c.isAlpha = true → quoteChar c = [c] := by
    intro c hc
    have hne : ∀ d : Char, d.isAlpha = false → c ≠ d := by
      rintro d hd rfl
      rw [hc] at hd
      cases hd
    have hcontrol : ¬ c.toNat < 0x20 := by
      delta Char.isAlpha Char.isUpper Char.isLower at hc
      simp only [Bool.or_eq_true, Bool.and_eq_true, decide_eq_true_eq] at hc
      have hnat : c.toNat = c.val.toNat := rfl
      rcases hc with ⟨hc, -⟩ | ⟨hc, -⟩
      all_goals
        have := UInt32.le_iff_toNat_le.mp hc
        rw [hnat]
        exact Nat.not_lt.mpr (le_trans (by decide) this)
    rw [quoteChar, if_neg (hne _ (by decide)), if_neg (hne _ (by decide)),
      if_neg (hne _ (by decide)), if_neg (hne _ (by decide)), if_neg (hne _ (by decide)),
      if_neg hcontrol]
  have hall : name.toList.flatMap quoteChar = name.toList := by
    rw [List.flatMap_congr fun c hc => hchar c (List.all_eq_true.mp h c hc)]
    exact List.flatMap_singleton' _
  rw [← quote_eq, quote, hall]

theorem attr_eq (key value : String) : attr key value = (attrDoc key value).render javaEscape := by
  simp only [attrDoc, Json.render, Json.renderMembers, quote_name "key" (by decide),
    quote_name "value" (by decide), quote_name "stringValue" (by decide)]
  unfold attr
  simp [quote_eq]

theorem spanJson_eq {minted : Minted} {span : Span} (h : prepare minted span = span) :
    spanJson minted span = (spanDoc span).render javaEscape := by
  have hattrs : span.attrs.entries.map (fun e => attr e.1 e.2) =
      (span.attrs.entries.map fun e => attrDoc e.1 e.2).map (Json.render javaEscape) := by
    rw [List.map_map]
    exact List.map_congr_left fun e _ => attr_eq e.1 e.2
  rw [spanDoc]
  simp only [Json.render, Json.renderMembers, Json.render_arr, Number.ofDigit, ← hattrs,
    quote_name "traceId" (by decide), quote_name "spanId" (by decide),
    quote_name "parentSpanId" (by decide), quote_name "name" (by decide),
    quote_name "kind" (by decide), quote_name "startTimeUnixNano" (by decide),
    quote_name "endTimeUnixNano" (by decide), quote_name "attributes" (by decide),
    quote_name "status" (by decide), quote_name "code" (by decide)]
  unfold spanJson
  rw [h]
  simp [quote_eq]

/-- **The text of a document.** For spans that lack nothing, `encode` writes `document`. -/
theorem Transport.encode_eq (t : Transport) {minted : ℕ → Minted} {spans : List Span}
    (h : ∀ i, ∀ s ∈ spans, prepare (minted i) s = s) :
    t.encode minted spans = String.ofList ((t.document spans).render javaEscape) := by
  have hspans : spans.mapIdx (fun i s => spanJson (minted i) s) =
      (spans.map spanDoc).map (Json.render javaEscape) := by
    refine List.ext_getElem (by simp) fun i hi hi' => ?_
    rw [List.getElem_mapIdx, List.getElem_map, List.getElem_map]
    exact spanJson_eq (h i _ (List.getElem_mem _))
  have hresource : attr "service.name" t.service ++
      (if t.container = "" then [] else ',' :: attr "container.name" t.container) =
        Json.commaSeparated (t.resourceDoc.map (Json.render javaEscape)) := by
    rw [resourceDoc]
    split_ifs
    · simp [Json.commaSeparated, attr_eq]
    · simp [Json.commaSeparated, attr_eq]
  refine congrArg String.ofList ?_
  rw [document]
  simp only [Json.render, Json.renderMembers, Json.renderElements, Json.render_arr, ← hspans,
    ← hresource, quote_name "resourceSpans" (by decide), quote_name "resource" (by decide),
    quote_name "attributes" (by decide), quote_name "scopeSpans" (by decide),
    quote_name "spans" (by decide)]
  simp

/-! ### The headers of a span -/

/-- What is drawn or read from the clock is not empty. -/
structure Minted.Drawn (minted : Minted) : Prop where
  traceId : minted.traceId ≠ ""
  spanId : minted.spanId ≠ ""
  now : minted.now ≠ ""

/-- A span is prepared once. -/
theorem prepare_prepare {drawn : Minted} (h : drawn.Drawn) (minted : Minted) (span : Span) :
    prepare minted (prepare drawn span) = prepare drawn span := by
  have hfilled : ∀ {value minted : String}, minted ≠ "" →
      (if value = "" then minted else value) ≠ "" := fun hminted => by
    split_ifs with hempty
    · exact hminted
    · exact hempty
  have hstart :
      (if span.startTimeUnixNano = "" then drawn.now else span.startTimeUnixNano) ≠ "" :=
    hfilled h.now
  exact prepare_eq_self (hfilled h.traceId) (hfilled h.spanId) hstart (hfilled hstart) minted

/-- The header of the trace is there when both ids are of the length that it asks for. -/
theorem mem_headers_traceparent (drawn : Minted) (span : Span) (value : String) :
    ("traceparent", value) ∈ (headers drawn span).entries ↔
      ((prepare drawn span).traceId.length = 32 ∧ (prepare drawn span).spanId.length = 16) ∧
        value = "00-" ++ (prepare drawn span).traceId ++ "-" ++ (prepare drawn span).spanId ++
          "-01" := by
  have hempty : (∅ : LinkedHashMap).entries = [] := rfl
  rw [headers]
  by_cases hlengths :
      (prepare drawn span).traceId.length = 32 ∧ (prepare drawn span).spanId.length = 16
  · rw [and_iff_right hlengths]
    simp only [if_pos hlengths]
    split_ifs
    · simp [LinkedHashMap.put, LinkedHashMap.putEntry, hempty]
    · simp [LinkedHashMap.put, LinkedHashMap.putEntry, hempty]
  · refine iff_of_false ?_ fun h => hlengths h.1
    simp only [if_neg hlengths]
    split_ifs
    · simp [hempty]
    · simp [LinkedHashMap.put, LinkedHashMap.putEntry, hempty]

/-- **The header names the span that is exported.** Once the headers of a span have been asked for,
`encode` writes the ids that were drawn for them, whatever it could draw itself. -/
theorem encode_after_headers (t : Transport) {drawn : Minted} (h : drawn.Drawn)
    (minted : ℕ → Minted) (span : Span) :
    t.encode minted [prepare drawn span] =
        String.ofList ((t.document [prepare drawn span]).render javaEscape) ∧
      ∀ value, ("traceparent", value) ∈ (headers drawn span).entries →
        value = "00-" ++ (prepare drawn span).traceId ++ "-" ++ (prepare drawn span).spanId ++
          "-01" := by
  refine ⟨t.encode_eq fun i s hs => ?_, fun value hvalue => ?_⟩
  · rw [List.mem_singleton.mp hs]
    exact prepare_prepare h (minted i) span
  · exact ((mem_headers_traceparent drawn span value).mp hvalue).2

/-! ### Depth -/

/-- A document is not nested deeply. -/
theorem Transport.depth_document (t : Transport) (spans : List Span) :
    (t.document spans).depth ≤ 10 := by
  have hattr : ∀ key value, (attrDoc key value).depth ≤ 2 := fun key value => by
    simp [attrDoc, Json.depth, Json.depthMembers]
  have hspan : ∀ x ∈ spans.map spanDoc, x.depth ≤ 4 := by
    intro x hx
    obtain ⟨s, -, rfl⟩ := List.mem_map.mp hx
    have hattrs : Json.depthElements (s.attrs.entries.map fun e => attrDoc e.1 e.2) ≤ 2 := by
      refine Json.depthElements_le fun x hx => ?_
      obtain ⟨e, -, rfl⟩ := List.mem_map.mp hx
      exact hattr e.1 e.2
    simp only [spanDoc, Json.depth, Json.depthMembers]
    omega
  have hresource : Json.depthElements t.resourceDoc ≤ 2 := by
    refine Json.depthElements_le fun x hx => ?_
    rw [resourceDoc] at hx
    split_ifs at hx
    · simp only [List.mem_cons, List.not_mem_nil, or_false] at hx
      exact hx ▸ hattr _ _
    · simp only [List.mem_cons, List.not_mem_nil, or_false] at hx
      rcases hx with rfl | rfl
      · exact hattr _ _
      · exact hattr _ _
  have hspans := Json.depthElements_le hspan
  simp only [document, Json.depth, Json.depthMembers, Json.depthElements]
  omega

end Argus
