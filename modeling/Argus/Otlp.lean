import Argus.Foundations.SortedMap
import Argus.Time
import Argus.Transport
import Argus.Unmarshal

/-!
# Reading OTLP exports

`otel.ParseOTLPTracesJSON` decodes the JSON of an OTLP export into the spans of the hub. An id
of 32 hexadecimal digits is taken as it is, but one of 16, which every span id is, is also
a base64 text: it is decoded to twelve bytes and stored as 24 digits that no client ever sent.

`parse_encode` says what the hub reads from the document of a client, for any spans that a
client can send. All fields come back except the span ids and the parent ids, so that
`round_trip_iff` leaves no list of spans but the empty one.
-/

namespace Argus

open Foundations

/-! ### The payload -/

/-- `otlpAttr.Value`. -/
structure OtlpValue where
  stringValue : String := ""
  intValue : String := ""

/-- `otlpAttr`. -/
structure OtlpAttr where
  key : String := ""
  value : OtlpValue := {}

/-- `otlpResource`. -/
structure OtlpResource where
  attributes : List OtlpAttr := []

/-- `otlpSpan.Status`. -/
structure OtlpStatus where
  code : ℤ := 0

/-- `otlpSpan`. -/
structure OtlpSpan where
  traceID : String := ""
  spanID : String := ""
  parentSpanID : String := ""
  name : String := ""
  kind : ℤ := 0
  startTimeUnixNano : String := ""
  endTimeUnixNano : String := ""
  attributes : List OtlpAttr := []
  status : OtlpStatus := {}

/-- `scopeSpans`. -/
structure ScopeSpans where
  spans : List OtlpSpan := []

/-- `resourceSpans`. -/
structure ResourceSpans where
  resource : OtlpResource := {}
  scopeSpans : List ScopeSpans := []

/-- `otlpPayload`. -/
structure OtlpPayload where
  resourceSpans : List ResourceSpans := []

section Decoders

open Decoder

/-- Decode an `otlpAttr.Value`. -/
def OtlpValue.decoder : Decoder OtlpValue := struct [
  ("stringValue", field stringValue (fun s x => { s with stringValue := x }) string),
  ("intValue", field intValue (fun s x => { s with intValue := x }) string)]

/-- Decode an `otlpAttr`. -/
def OtlpAttr.decoder : Decoder OtlpAttr := struct [
  ("key", field key (fun s x => { s with key := x }) string),
  ("value", field value (fun s x => { s with value := x }) OtlpValue.decoder)]

/-- Decode an `otlpResource`. -/
def OtlpResource.decoder : Decoder OtlpResource := struct [
  ("attributes", field attributes (fun s x => { s with attributes := x })
    (slice {} OtlpAttr.decoder))]

/-- Decode an `otlpSpan.Status`. -/
def OtlpStatus.decoder : Decoder OtlpStatus := struct [
  ("code", field code (fun s x => { s with code := x }) int)]

/-- Decode an `otlpSpan`. -/
def OtlpSpan.decoder : Decoder OtlpSpan := struct [
  ("traceId", field traceID (fun s x => { s with traceID := x }) string),
  ("spanId", field spanID (fun s x => { s with spanID := x }) string),
  ("parentSpanId", field parentSpanID (fun s x => { s with parentSpanID := x }) string),
  ("name", field name (fun s x => { s with name := x }) string),
  ("kind", field kind (fun s x => { s with kind := x }) int),
  ("startTimeUnixNano",
    field startTimeUnixNano (fun s x => { s with startTimeUnixNano := x }) string),
  ("endTimeUnixNano", field endTimeUnixNano (fun s x => { s with endTimeUnixNano := x }) string),
  ("attributes", field attributes (fun s x => { s with attributes := x })
    (slice {} OtlpAttr.decoder)),
  ("status", field status (fun s x => { s with status := x }) OtlpStatus.decoder)]

/-- Decode a `scopeSpans`. -/
def ScopeSpans.decoder : Decoder ScopeSpans := struct [
  ("spans", field spans (fun s x => { s with spans := x }) (slice {} OtlpSpan.decoder))]

/-- Decode a `resourceSpans`. -/
def ResourceSpans.decoder : Decoder ResourceSpans := struct [
  ("resource", field resource (fun s x => { s with resource := x }) OtlpResource.decoder),
  ("scopeSpans", field scopeSpans (fun s x => { s with scopeSpans := x })
    (slice {} ScopeSpans.decoder))]

/-- Decode an `otlpPayload`. -/
def OtlpPayload.decoder : Decoder OtlpPayload := struct [
  ("resourceSpans", field resourceSpans (fun s x => { s with resourceSpans := x })
    (slice {} ResourceSpans.decoder))]

end Decoders

/-! ### The spans of the hub -/

/-- The fields of `model.TraceSpan` that the parser sets. The duration is a whole number of
milliseconds, and the attributes are strings. -/
structure TraceSpan where
  traceID : String
  spanID : String
  parentSpanID : String
  name : String
  service : String
  container : String
  startTS : Time
  endTS : Time
  durationMs : ℕ
  status : String
  kind : String
  source : String
  attributes : SortedMap String String

/-- `isHex`. -/
def isHex (s : String) : Bool :=
  s.toList.all fun c => ('0' ≤ c && c ≤ '9') || ('a' ≤ c && c ≤ 'f') || ('A' ≤ c && c ≤ 'F')

/-- `base64.StdEncoding.DecodeString`, and `base64.RawStdEncoding.DecodeString` after it. -/
def decodeBase64 (raw : String) : Option (List ℕ) :=
  match base64Decode true raw.toList with
  | some b => some b
  | none => base64Decode false raw.toList

/-- `decodeID`. -/
def decodeID (raw : String) : String :=
  let raw := trimSpace raw
  if raw = "" then ""
  else if byteLength raw = 32 ∧ isHex raw then toLower raw
  else if byteLength raw = 36 ∧ raw.toList.count '-' = 4 then
    String.ofList ((toLower raw).toList.filter (· != '-'))
  else
    match decodeBase64 raw with
    | some b => if b.length > 0 then String.ofList (hexText b) else toLower raw
    | none => toLower raw

/-- The loop of `nanoTime` over the characters, in the arithmetic of `int64`. -/
def nanoDigits : ℤ → List Char → Option ℤ
  | n, [] => some n
  | n, c :: cs =>
    if c < '0' ∨ '9' < c then none
    else nanoDigits (((n * 10).bmod (2 ^ 64) + (c.toNat - 48 : ℕ)).bmod (2 ^ 64)) cs

/-- `nanoTime`. -/
def nanoTime (raw : String) : Time :=
  let raw := trimSpace raw
  if raw = "" then ⟨0⟩
  else
    match nanoDigits 0 raw.toList with
    | none => ⟨0⟩
    | some n => if n ≤ 0 then ⟨0⟩ else Time.unixNano n.toNat

/-- `attrVal`. -/
def attrVal (a : OtlpAttr) : String :=
  if a.value.stringValue ≠ "" then a.value.stringValue else a.value.intValue

/-- `attrString`: the first value that is not empty, by the order of the keys. -/
def attrString (attrs : List OtlpAttr) (keys : List String) : String :=
  ((keys.flatMap fun k => (attrs.filter fun a => a.key = k).map attrVal).find? (· ≠ "")).getD ""

/-- `firstNonEmpty`. -/
def firstNonEmpty (values : List String) : String :=
  (values.find? fun v => trimSpace v ≠ "").getD ""

/-- `spanKindName`. -/
def spanKindName (kind : ℤ) : String :=
  if kind = 1 then "internal"
  else if kind = 2 then "server"
  else if kind = 3 then "client"
  else if kind = 4 then "producer"
  else if kind = 5 then "consumer"
  else "unspecified"

/-- The `status` of a code. -/
def statusName (code : ℤ) : String :=
  if code = 1 then "ok" else if code = 2 then "error" else "unset"

/-- `durMs`. -/
def durMs (start end_ : Time) : ℕ :=
  if !start.isZero && !end_.isZero && start < end_ then (end_.ns - start.ns) / 1000000 else 0

/-- `attrs`: the attributes with a value, a later one in the place of an earlier one. -/
def attrMap (attrs : List OtlpAttr) : SortedMap String String :=
  SortedMap.ofList ((attrs.filter fun a => attrVal a ≠ "").map fun a => (a.key, attrVal a))

/-- The body of the innermost loop: the span that is appended, if one is. -/
def otlpSpan (service container : String) (sp : OtlpSpan) : Option TraceSpan :=
  let traceID := decodeID sp.traceID
  let spanID := decodeID sp.spanID
  if traceID = "" ∨ spanID = "" then none
  else
    let start := nanoTime sp.startTimeUnixNano
    let end_ := nanoTime sp.endTimeUnixNano
    some {
      traceID := traceID
      spanID := spanID
      parentSpanID := decodeID sp.parentSpanID
      name := sp.name
      service := firstNonEmpty [service, attrString sp.attributes ["service.name"]]
      container := container
      startTS := start
      endTS := end_
      durationMs := durMs start end_
      status := statusName sp.status.code
      kind := spanKindName sp.kind
      source := "otlp"
      attributes := attrMap sp.attributes }

/-- The body of the outermost loop. -/
def otlpResourceSpans (rs : ResourceSpans) : List TraceSpan :=
  let service := attrString rs.resource.attributes ["service.name"]
  let container := attrString rs.resource.attributes ["container.id", "container.name"]
  rs.scopeSpans.flatMap fun ss => ss.spans.filterMap (otlpSpan service container)

/-- `ParseOTLPTracesJSON`. -/
def parseOTLPTracesJSON (body : String) : Option (List TraceSpan) := do
  let doc ← Json.parse body.toList
  let payload ← OtlpPayload.decoder doc {}
  some (payload.resourceSpans.flatMap otlpResourceSpans)

/-! ### What the document of a client decodes to -/

/-- An attribute of a document. -/
def sentAttr (e : String × String) : OtlpAttr where
  key := e.1
  value := { stringValue := e.2 }

/-- The attributes of the resource of a document. -/
def Transport.resourceAttrs (t : Transport) : List OtlpAttr :=
  (("service.name", t.service) ::
    if t.container = "" then [] else [("container.name", t.container)]).map sentAttr

/-- A span of a document. -/
def sentSpan (s : Span) : OtlpSpan where
  traceID := s.traceId
  spanID := s.spanId
  parentSpanID := s.parentSpanId
  name := s.name
  kind := (Argus.kind s.kind : ℕ)
  startTimeUnixNano := s.startTimeUnixNano
  endTimeUnixNano := s.endTimeUnixNano
  attributes := s.attrs.entries.map sentAttr
  status := { code := (Argus.status s.status : ℕ) }

private theorem parseInt_digit (d : Fin 10) : parseInt [digit d] = some (d : ℕ) := by
  decide +revert

private theorem decode_attr (e : String × String) :
    OtlpAttr.decoder (attrDoc e.1 e.2) {} = some (sentAttr e) := by
  simp [attrDoc, OtlpAttr.decoder, OtlpValue.decoder, Decoder.members, Decoder.lookup,
    Decoder.field, sentAttr]

private theorem decode_span (s : Span) :
    OtlpSpan.decoder (spanDoc s) {} = some (sentSpan s) := by
  have hattrs := Decoder.slice_map  []
    fun (e : String × String) (_ : e ∈ s.attrs.entries) => decode_attr e
  simp [spanDoc, OtlpSpan.decoder, OtlpStatus.decoder, Decoder.members, Decoder.lookup,
    Decoder.field, sentSpan, hattrs, Number.ofDigit, parseInt_digit]

private theorem decode_document (t : Transport) (spans : List Span) :
    OtlpPayload.decoder (t.document spans) {} =
      some ⟨[⟨⟨t.resourceAttrs⟩, [⟨spans.map sentSpan⟩]⟩]⟩ := by
  have hresource : Decoder.slice {} OtlpAttr.decoder (.arr t.resourceDoc) [] =
      some t.resourceAttrs := by
    have := @Decoder.slice_map _ _ {} OtlpAttr.decoder (fun e => attrDoc e.1 e.2) sentAttr
      (("service.name", t.service) ::
        if t.container = "" then [] else [("container.name", t.container)]) []
      fun e _ => decode_attr e
    rw [Transport.resourceAttrs, ← this, Transport.resourceDoc]
    split_ifs <;> rfl
  have hspans := @Decoder.slice_map _ _ {} OtlpSpan.decoder spanDoc sentSpan spans []
    fun s _ => decode_span s
  have hscope : ScopeSpans.decoder (.obj [("spans", .arr (spans.map spanDoc))]) {} =
      some ⟨spans.map sentSpan⟩ := by
    simp [ScopeSpans.decoder, Decoder.members, Decoder.lookup, Decoder.field, hspans]
  have hscopes := Decoder.slice_singleton [] hscope
  have hspec : ResourceSpans.decoder (.obj [("resource", .obj [("attributes", .arr t.resourceDoc)]),
      ("scopeSpans", .arr [.obj [("spans", .arr (spans.map spanDoc))]])]) {} =
      some ⟨⟨t.resourceAttrs⟩, [⟨spans.map sentSpan⟩]⟩ := by
    simp [ResourceSpans.decoder, OtlpResource.decoder, Decoder.members, Decoder.lookup,
      Decoder.field, hresource, hscopes]
  have hspecs := Decoder.slice_singleton [] hspec
  simp [Transport.document, OtlpPayload.decoder, Decoder.members, Decoder.lookup, Decoder.field,
    hspecs]

/-! ### Ids -/

/-- An id of `n` hexadecimal digits. -/
def HexId (n : ℕ) (s : String) : Prop := s.toList.length = n ∧ isHex s = true

instance (n : ℕ) (s : String) : Decidable (HexId n s) := by unfold HexId; infer_instance

private theorem hexValue_isSome {s : String} (h : isHex s = true) :
    ∀ c ∈ s.toList, (hexValue c).isSome := by
  intro c hc
  have hrange := List.all_eq_true.mp h c hc
  simp only [Bool.or_eq_true, Bool.and_eq_true, decide_eq_true_eq] at hrange
  rw [hexValue]
  split_ifs <;> simp_all

/-- An id is trimmed, and has a byte for each digit. -/
private theorem HexId.plain {n : ℕ} {s : String} (h : HexId n s) (hn : 0 < n) :
    trimSpace s = s ∧ s ≠ "" ∧ byteLength s = n := by
  have hle : ∀ c ∈ s.toList, '0' ≤ c ∧ c ≤ 'f' := by
    intro c hc
    have hrange := List.all_eq_true.mp h.2 c hc
    simp only [Bool.or_eq_true, Bool.and_eq_true, decide_eq_true_eq] at hrange
    rcases hrange with (hr | hr) | hr
    · exact ⟨hr.1, hr.2.trans (by decide)⟩
    · exact ⟨le_trans (by decide) hr.1, hr.2⟩
    · exact ⟨le_trans (by decide) hr.1, hr.2.trans (by decide)⟩
  refine ⟨trimSpace_eq_self fun c hc => ?_, ?_, ?_⟩
  · exact isSpace_eq_false (hle c hc).1 ((hle c hc).2.trans (by decide))
  · rintro rfl
    exact absurd h.1 (by simpa using hn.ne)
  · rw [byteLength_eq_length fun c hc => Nat.lt_of_le_of_lt (hle c hc).2 (by decide), h.1]

/-- An id of 32 digits is taken as it is. -/
theorem decodeID_trace {s : String} (h : HexId 32 s) : decodeID s = toLower s := by
  obtain ⟨htrim, hne, hlen⟩ := h.plain (by decide)
  rw [decodeID, htrim]
  simp only [if_neg hne]
  rw [if_pos ⟨hlen, h.2⟩]

/-- **The defect.** An id of 16 digits is taken for the base64 text of twelve bytes. -/
theorem decodeID_span {s : String} (h : HexId 16 s) :
    ∃ bytes : List ℕ, bytes.length = 12 ∧ decodeID s = String.ofList (hexText bytes) := by
  obtain ⟨htrim, hne, hlen⟩ := h.plain (by decide)
  have hvalue := hexValue_isSome h.2
  obtain ⟨bytes, hbytes, hcount⟩ := @length_base64Decode true 4 s.toList
    (fun c hc => hexValue_isSome_base64 (hvalue c hc)) h.1
  refine ⟨bytes, hcount, ?_⟩
  rw [decodeID, htrim]
  simp only [if_neg hne]
  rw [if_neg (by rw [hlen]; simp), if_neg (by rw [hlen]; simp), decodeBase64, hbytes]
  simp only
  rw [if_pos (by rw [hcount]; decide)]

example : decodeID "a1b2c3d4e5f6a7b8" = "6b56f67377787b97fa6bb6fc" := by decide

/-- So no such id comes back. -/
theorem decodeID_span_ne {s : String} (h : HexId 16 s) :
    decodeID s ≠ "" ∧ decodeID s ≠ toLower s := by
  obtain ⟨bytes, hcount, hdecode⟩ := decodeID_span h
  have hlen : (decodeID s).toList.length = 24 := by
    rw [hdecode, String.toList_ofList, length_hexText, hcount]
  refine ⟨fun heq => ?_, fun heq => ?_⟩
  · rw [heq] at hlen
    exact absurd hlen (by decide)
  · rw [heq, toLower, String.toList_ofList, List.length_map, h.1] at hlen
    exact absurd hlen (by decide)

/-! ### Times, kinds and attributes -/

/-- The decimal text of a time of 1 to 2^63-1 nanoseconds. -/
def DecimalTime (s : String) : Prop :=
  (∀ c ∈ s.toList, '0' ≤ c ∧ c ≤ '9') ∧ 1 ≤ decimal s.toList ∧ decimal s.toList < 2 ^ 63

instance (s : String) : Decidable (DecimalTime s) :=
  @instDecidableAnd _ _ (List.decidableBAll (fun c => '0' ≤ c ∧ c ≤ '9') s.toList) inferInstance

private theorem bmod_eq_self {n : ℤ} (h : 0 ≤ n) (h' : n < 2 ^ 63) : n.bmod (2 ^ 64) = n := by
  refine Int.bmod_eq_of_le ?_ ?_ <;> omega

/-- The loop computes the value of the digits modulo 2^64, as a signed number. -/
theorem nanoDigits_eq {cs : List Char} (hdigits : ∀ c ∈ cs, '0' ≤ c ∧ c ≤ '9') (n : ℕ) :
    nanoDigits ((n : ℤ).bmod (2 ^ 64)) cs =
      some (((cs.foldl (fun n c => n * 10 + (c.toNat - 48)) n : ℕ) : ℤ).bmod (2 ^ 64)) := by
  induction cs generalizing n with
  | nil => rfl
  | cons c cs ih =>
    obtain ⟨hc, hcs⟩ := List.forall_mem_cons.mp hdigits
    have hstep : ((((n : ℤ).bmod (2 ^ 64) * 10).bmod (2 ^ 64)) + (c.toNat - 48 : ℕ)).bmod (2 ^ 64) =
        ((n * 10 + (c.toNat - 48) : ℕ) : ℤ).bmod (2 ^ 64) := by
      rw [Int.bmod_mul_bmod, Int.bmod_add_bmod, Nat.cast_add, Nat.cast_mul]
      rfl
    rw [nanoDigits, if_neg (by simp [hc.1, hc.2]), hstep, ih hcs, List.foldl_cons]

/-- A text of digits is no space. -/
theorem trimSpace_digits {s : String} (h : ∀ c ∈ s.toList, '0' ≤ c ∧ c ≤ '9') : trimSpace s = s :=
  trimSpace_eq_self fun c hc => isSpace_eq_false (h c hc).1 ((h c hc).2.trans (by decide))

/-- `nanoTime` of a text of digits. -/
theorem nanoTime_digits {s : String} (hdigits : ∀ c ∈ s.toList, '0' ≤ c ∧ c ≤ '9') (hne : s ≠ "") :
    nanoTime s = if (decimal s.toList : ℤ).bmod (2 ^ 64) ≤ 0 then ⟨0⟩
      else Time.unixNano ((decimal s.toList : ℤ).bmod (2 ^ 64)).toNat := by
  have hloop : nanoDigits 0 s.toList = some ((decimal s.toList : ℤ).bmod (2 ^ 64)) :=
    nanoDigits_eq hdigits 0
  rw [nanoTime, trimSpace_digits hdigits]
  simp only [if_neg hne, hloop]

/-- A decimal time is read. -/
theorem nanoTime_eq {s : String} (h : DecimalTime s) :
    nanoTime s = Time.unixNano (decimal s.toList) := by
  obtain ⟨hdigits, hpos, hlt⟩ := h
  have hne : s ≠ "" := by
    rintro rfl
    exact absurd hpos (by decide)
  rw [nanoTime_digits hdigits hne, bmod_eq_self (by omega) (by omega), if_neg (by omega),
    Int.toNat_natCast]

/-- The kinds that a client knows. -/
def kinds : List String := ["internal", "server", "client", "producer", "consumer"]

/-- The statuses that a client knows. -/
def statuses : List String := ["unset", "ok", "error"]

theorem spanKindName_kind : ∀ k ∈ kinds, spanKindName (kind k : ℕ) = k := by decide

theorem statusName_status : ∀ s ∈ statuses, statusName (status s : ℕ) = s := by decide

/-- Attributes with values all come back. -/
theorem attrMap_sent {l : List (String × String)} (h : ∀ e ∈ l, e.2 ≠ "") :
    attrMap (l.map sentAttr) = SortedMap.ofList l := by
  have hval : ∀ e : String × String, e.2 ≠ "" → attrVal (sentAttr e) = e.2 := fun e he => if_pos he
  have hfilter : (l.map sentAttr).filter (fun a => attrVal a ≠ "") = l.map sentAttr := by
    rw [List.filter_eq_self]
    intro a ha
    obtain ⟨e, he, rfl⟩ := List.mem_map.mp ha
    simpa [hval e (h e he)] using h e he
  have hmap : (l.map sentAttr).map (fun a => (a.key, attrVal a)) = l := by
    rw [List.map_map]
    refine (List.map_congr_left fun e he => ?_).trans l.map_id
    exact Prod.ext rfl (hval e (h e he))
  rw [attrMap, hfilter, hmap]

/-! ### The round trip -/

/-- A span as a client sends it: ids of 32 and 16 digits, no parent or an id of 16 digits,
decimal times, known kind and status, attributes with values. -/
structure Sendable (s : Span) : Prop where
  traceId : HexId 32 s.traceId
  spanId : HexId 16 s.spanId
  parentSpanId : s.parentSpanId = "" ∨ HexId 16 s.parentSpanId
  startTime : DecimalTime s.startTimeUnixNano
  endTime : DecimalTime s.endTimeUnixNano
  kind : s.kind ∈ kinds
  status : s.status ∈ statuses
  attributes : ∀ e ∈ s.attributes.entries, e.2 ≠ ""

/-- What the hub reads for a span of the client `t`. -/
def received (t : Transport) (s : Span) : TraceSpan where
  traceID := toLower s.traceId
  spanID := decodeID s.spanId
  parentSpanID := decodeID s.parentSpanId
  name := s.name
  service := firstNonEmpty [t.service, attrString (s.attrs.entries.map sentAttr) ["service.name"]]
  container := t.container
  startTS := Time.unixNano (decimal s.startTimeUnixNano.toList)
  endTS := Time.unixNano (decimal s.endTimeUnixNano.toList)
  durationMs := durMs (Time.unixNano (decimal s.startTimeUnixNano.toList))
    (Time.unixNano (decimal s.endTimeUnixNano.toList))
  status := s.status
  kind := s.kind
  source := "otlp"
  attributes := SortedMap.ofList s.attrs.entries

theorem Sendable.attrs {s : Span} (h : Sendable s) : ∀ e ∈ s.attrs.entries, e.2 ≠ "" := by
  intro e he
  rw [Span.attrs] at he
  split_ifs at he with hcorr
  · exact h.attributes e he
  · rcases LinkedHashMap.mem_putEntry he with rfl | he
    · exact hcorr
    · exact h.attributes e he

theorem Sendable.prepare_eq {s : Span} (h : Sendable s) (minted : Minted) :
    prepare minted s = s := by
  have htime : ∀ {time : String}, DecimalTime time → time ≠ "" := by
    rintro time htime rfl
    exact absurd htime.2.1 (by decide)
  exact prepare_eq_self (h.traceId.plain (by decide)).2.1 (h.spanId.plain (by decide)).2.1
    (htime h.startTime) (htime h.endTime) minted

private theorem otlpSpan_sent {t : Transport} {s : Span} (h : Sendable s) :
    otlpSpan (attrString t.resourceAttrs ["service.name"])
      (attrString t.resourceAttrs ["container.id", "container.name"]) (sentSpan s) =
        some (received t s) := by
  have hservice : attrString t.resourceAttrs ["service.name"] = t.service := by
    by_cases hs : t.service = "" <;> by_cases hc : t.container = "" <;>
      simp [attrString, Transport.resourceAttrs, sentAttr, attrVal, hs, hc]
  have hcontainer :
      attrString t.resourceAttrs ["container.id", "container.name"] = t.container := by
    by_cases hc : t.container = "" <;>
      simp [attrString, Transport.resourceAttrs, sentAttr, attrVal, hc]
  have htrace : decodeID (sentSpan s).traceID = toLower s.traceId := decodeID_trace h.traceId
  have hne : toLower s.traceId ≠ "" := by
    intro heq
    have := congrArg (fun x : String => x.toList.length) heq
    simp only [toLower, String.toList_ofList, List.length_map, h.traceId.1] at this
    exact absurd this (by decide)
  have hids : ¬ (toLower s.traceId = "" ∨ decodeID (sentSpan s).spanID = "") :=
    not_or.mpr ⟨hne, (decodeID_span_ne h.spanId).1⟩
  rw [otlpSpan, hservice, hcontainer, htrace]
  simp only
  rw [if_neg hids, received]
  simp only [sentSpan, nanoTime_eq h.startTime, nanoTime_eq h.endTime, attrMap_sent h.attrs,
    spanKindName_kind _ h.kind, statusName_status _ h.status]

/-- **What the hub reads.** The document of spans that a client can send is read span by span,
with everything as it was sent but the span ids and parent ids, and with a service that is the
client's if that is not blank. -/
theorem parse_encode (t : Transport) (minted : ℕ → Minted) {spans : List Span}
    (h : ∀ s ∈ spans, Sendable s) :
    parseOTLPTracesJSON (t.encode minted spans) = some (spans.map (received t)) := by
  have hread := Json.parse_render javaEscape ((t.depth_document spans).trans (by decide))
  rw [parseOTLPTracesJSON, t.encode_eq fun i s hs => (h s hs).prepare_eq _, String.toList_ofList,
    hread]
  simp only [Option.bind_eq_bind, Option.bind_some, decode_document, List.flatMap_cons,
    List.flatMap_nil, List.append_nil, otlpResourceSpans, Option.some.injEq]
  have hsent : ∀ s ∈ spans, otlpSpan (attrString t.resourceAttrs ["service.name"])
      (attrString t.resourceAttrs ["container.id", "container.name"]) (sentSpan s) =
        some (received t s) := fun s hs => otlpSpan_sent (h s hs)
  clear hread h
  induction spans with
  | nil => rfl
  | cons s spans ih =>
    obtain ⟨hs, hspans⟩ := List.forall_mem_cons.mp hsent
    rw [List.map_cons, List.map_cons, List.filterMap_cons_some hs]
    exact congrArg _ (ih hspans)

/-- The span that was sent, as the hub should know it. -/
structure Same (t : Transport) (s : Span) (r : TraceSpan) : Prop where
  traceID : r.traceID = toLower s.traceId
  spanID : r.spanID = toLower s.spanId
  parentSpanID : r.parentSpanID = toLower s.parentSpanId
  name : r.name = s.name
  kind : r.kind = s.kind
  status : r.status = s.status
  service : r.service = t.service
  startTS : r.startTS = Time.unixNano (decimal s.startTimeUnixNano.toList)
  endTS : r.endTS = Time.unixNano (decimal s.endTimeUnixNano.toList)
  attributes : r.attributes = SortedMap.ofList s.attrs.entries

/-- The hub reads one span for each that the client encodes, in order, the same one. -/
def RoundTrips (t : Transport) (minted : ℕ → Minted) (spans : List Span) : Prop :=
  ∃ out, parseOTLPTracesJSON (t.encode minted spans) = some out ∧ List.Forall₂ (Same t) spans out

/-- **No span survives the round trip.** Its span id has 16 digits, and the hub has 24. -/
theorem round_trip_iff (t : Transport) (minted : ℕ → Minted) {spans : List Span}
    (h : ∀ s ∈ spans, Sendable s) : RoundTrips t minted spans ↔ spans = [] := by
  constructor
  · rintro ⟨out, hout, hsame⟩
    rw [parse_encode t minted h, Option.some.injEq] at hout
    subst hout
    cases spans with
    | nil => rfl
    | cons s spans =>
      obtain ⟨hs, -⟩ := List.forall₂_cons.mp hsame
      exact absurd hs.spanID (decodeID_span_ne (h s List.mem_cons_self).spanId).2
  · rintro rfl
    exact ⟨[], parse_encode t minted (fun s hs => absurd hs List.not_mem_nil), .nil⟩

/-- The span of a request to `/api/agenda`, and its transport. -/
def agendaSpan : Span :=
  { Span.new "GET /api/agenda" with
    traceId := "50e30959f59e487fbbe089aed78e74e5"
    spanId := "a1b2c3d4e5f6a7b8"
    startTimeUnixNano := "1000000000"
    endTimeUnixNano := "2500000000" }

theorem sendable_agendaSpan : Sendable agendaSpan where
  traceId := by decide
  spanId := by decide
  parentSpanId := .inl rfl
  startTime := by decide
  endTime := by decide
  kind := by decide
  status := by decide
  attributes := by decide

/-- The client `demo-api`. -/
def demoTransport : Transport := ⟨"demo-api", "demo-api-1"⟩

theorem round_trip_iff_child_span :
    ¬ RoundTrips demoTransport (fun _ => ⟨"", "", ""⟩) [agendaSpan,
      { agendaSpan with
        spanId := "00f067aa0ba902b7"
        parentSpanId := agendaSpan.spanId }] := by
  rw [round_trip_iff]
  · exact List.cons_ne_nil _ _
  · intro s hs
    rcases List.mem_cons.mp hs with rfl | hs
    · exact sendable_agendaSpan
    · obtain rfl := List.mem_singleton.mp hs
      exact { sendable_agendaSpan with
        spanId := by decide
        parentSpanId := .inr (by decide) }

/-- A span id that the hub does not give back. -/
theorem agendaSpan_not_round_trip :
    ¬ ∀ (t : Transport) (minted : ℕ → Minted) (spans : List Span),
      (∀ s ∈ spans, Sendable s) → RoundTrips t minted spans := by
  intro hall
  have hs : ∀ s ∈ [agendaSpan], Sendable s := fun s hs =>
    List.mem_singleton.mp hs ▸ sendable_agendaSpan
  obtain ⟨out, hout, hsame⟩ := hall demoTransport (fun _ => ⟨"", "", ""⟩) [agendaSpan] hs
  rw [parse_encode _ _ hs, Option.some.injEq] at hout
  subst hout
  obtain ⟨hsame, -⟩ := List.forall₂_cons.mp hsame
  exact absurd hsame.spanID (by decide +kernel)

end Argus
