import Argus.Floats
import Argus.Insights.TraceQuery

/-!
# Enriching log entries

What the hub reads off a message before it stores an entry: `insights.ClassifyLog` the topics and
the pause of a garbage collection, `insights.ParseTraceFields` the ids of a trace, and
`insights.EnrichLog` both as the `Fields` of the entry. `hexDash_traceID` describes the trace ids
that are found: hexadecimal digits and dashes, in any case.
-/

namespace Argus

open Foundations Regex

/-! ### Topics -/

/-- `gcPatterns`. -/
def gcPatterns : List Regex := [
  seqs [word "[GC", boundary],
  seqs [boundary, word "GC", many spaceSet, char '('],
  seqs [word "G1", some' spaceSet, word "Evacuation", some' spaceSet, word "Pause"],
  seqs [word "Pause", some' spaceSet, word "Young"],
  seqs [word "Full", some' spaceSet, word "GC"],
  seqs [word "Concurrent", some' spaceSet, word "Mark"],
  seqs [word "CMS", some' spaceSet, word "Initial", some' spaceSet, word "Mark"],
  word "Metaspace",
  seqs [word "garbage", some' spaceSet, word "collect"]]

/-- `memPatterns`. -/
def memPatterns : List Regex := [
  word "OutOfMemory", word "out of memory", word "MemoryError", word "heap limit",
  word "cannot allocate memory",
  seqs [word "memory:", many spaceSet, some' Char.isDigit],
  seqs [word "rss", some' (fun c => c == ':' || spaceSet c), one Char.isDigit]]

/-- `perfPatterns`. -/
def perfPatterns : List Regex := [
  word "slow query", word "timeout", word "deadline exceeded", word "latency",
  seqs [word "took ", some' Char.isDigit, alts [word "ms", word "s"]]]

/-- `matchesAny`. -/
def matchesAny (text : String) (patterns : List Regex) : Bool := patterns.any (isMatch · text)

/-- `gcPauseRe`. -/
def gcPauseRe : Regex := seqs [
  group (seqs [some' Char.isDigit, opt (seqs [char '.', some' Char.isDigit])]), many spaceSet,
  group (alts [word "ms", word "s"]), char ']']

/-- `parseFloat` of package `insights`: a number out of range is not stored. -/
def scanFloat (s : String) : ℚ :=
  match parseFloat s.toList with
  | .finite q => q
  | .infinite _ => 0

/-- `extractGCPauseMs`. -/
def extractGCPauseMs (message : String) : Extended :=
  match gcPauseRe.findSubmatch message with
  | some [number, unit] =>
    if unit = "s" then float64 (.finite (scanFloat number * 1000)) else .finite (scanFloat number)
  | _ => .finite 0

/-- `ClassifyLog`: the topics, and the pause if there is one. -/
def ClassifyLog (rt : Runtime) (message level : String) : List String × Option Extended :=
  let lower := rt.toLower message
  let isGC := matchesAny message gcPatterns
  let pause := extractGCPauseMs message
  let topics :=
    (if isGC then ["gc"] else []) ++
    (if matchesAny message memPatterns then ["memory"] else []) ++
    (if level == "error" || contains lower "exception" || contains lower "fatal" then ["error"]
      else []) ++
    (if matchesAny message perfPatterns then ["performance"] else []) ++
    (if contains lower "oom" || contains lower "killed" then ["oom"] else [])
  (if topics.isEmpty then ["general"] else topics,
    if isGC && Extended.positive pause then some pause else none)

/-! ### Trace ids -/

/-- `name[_-]?id`. -/
def idName (name : String) : Regex :=
  seqs [word name, opt (one fun c => c == '_' || c == '-'), word "id"]

/-- One quote, single or double. -/
def quoteSet (c : Char) : Bool := c == '"' || c == '\''

/-- `traceParentRe`. -/
def traceParentRe : Regex := seqs [word "traceparent", some' assignSet, word "00-",
  group (exactly 32 hexSet), char '-', group (exactly 16 hexSet)]

/-- `otelTraceJSONRe` and `otelSpanJSONRe`: a JSON member with an id of `lo` to `hi` characters. -/
def otelJSONRe (name : String) (lo hi : ℕ) : Regex := seqs [char '"', idName name, char '"',
  many spaceSet, char ':', many spaceSet, char '"', group (chars hexDashSet lo (some hi) true),
  char '"']

/-- `traceKVRe`, `spanKVRe`, `correlationRe` and `requestIDRe`: one of several names with an id of
`lo` to `hi` characters. -/
def idKVRe (names : List Regex) (lo hi : ℕ) : Regex := seqs [alts names, many spaceSet,
  one (fun c => c == '=' || c == ':'), many spaceSet, opt (one quoteSet),
  group (chars hexDashSet lo (some hi) true)]

/-- `traceKVRe`. -/
def traceKVRe : Regex := idKVRe [idName "trace", word "traceId"] 16 64

/-- `spanKVRe`. -/
def spanKVRe : Regex := idKVRe [idName "span", word "spanId"] 8 32

/-- `correlationRe`. -/
def correlationRe : Regex :=
  idKVRe [idName "correlation", word "correlationId", word "x-correlation-id"] 8 64

/-- `requestIDRe`. -/
def requestIDRe : Regex := idKVRe [idName "request", word "requestId", word "x-request-id"] 8 64

/-- `otelTextTraceRe`. -/
def otelTextTraceRe : Regex := seqs [word "trace_id", some' assignSet, group (exactly 32 hexSet)]

/-- `pythonTraceRe`. -/
def pythonTraceRe : Regex := seqs [opt (char '\''), word "$traceId", opt (char '\''),
  many spaceSet, char ':', many spaceSet, one quoteSet,
  group (chars hexDashSet 16 (some 64) true), one quoteSet]

/-- `uuidInContextRe`. -/
def uuidInContextRe : Regex := seqs [alts [word "trace", word "request", word "correlation"],
  chars (· != '\n') 0 (some 40) false, group uuidRe]

/-- What `ParseTraceFields` finds; an id that it does not find is empty. -/
structure TraceFields where
  traceID : String
  spanID : String
  correlationID : String
  requestID : String

/-- The first id that is found, in the order of the searches. -/
def firstFound (found : List (Option String)) : String :=
  (found.find? fun id => id ≠ none ∧ id ≠ some "").join.getD ""

/-- The second group of `traceParentRe`. -/
def parentSpan (message : String) : Option String :=
  (traceParentRe.findSubmatch message).bind fun groups => groups[1]?

/-- `ParseTraceFields`. -/
def ParseTraceFields (rt : Runtime) (message : String) : TraceFields :=
  let correlationID := ((firstGroup correlationRe message).map rt.toLower).getD ""
  let requestID := ((firstGroup requestIDRe message).map rt.toLower).getD ""
  { traceID := firstFound [
      (firstGroup traceParentRe message).map (normalizeTraceID rt),
      (firstGroup (otelJSONRe "trace" 16 64) message).map (normalizeTraceID rt),
      (firstGroup traceKVRe message).map (normalizeTraceID rt),
      firstGroup otelTextTraceRe message,
      (firstGroup pythonTraceRe message).map (normalizeTraceID rt),
      (firstGroup uuidInContextRe message).map rt.toLower,
      some correlationID, some requestID]
    spanID := firstFound [parentSpan message, firstGroup (otelJSONRe "span" 8 32) message,
      firstGroup spanKVRe message]
    correlationID := correlationID
    requestID := requestID }

/-- The ids as members of the fields. -/
def TraceFields.members (t : TraceFields) : List (String × String) :=
  [("trace_id", t.traceID), ("span_id", t.spanID), ("correlation_id", t.correlationID),
    ("request_id", t.requestID)].filter fun e => e.2 ≠ ""

/-- `EnrichLog`: the topics and the fields. -/
def EnrichLog (rt : Runtime) (message level : String) : List String × Fields :=
  let (topics, pause) := ClassifyLog rt message level
  let signals : Fields := match pause with
    | some x => (∅ : Fields).insert "gc_pause_ms" (.num x)
    | none => ∅
  let fields := (ParseTraceFields rt message).members.foldl (fun m e => m.insert e.1 (.str e.2))
    signals
  let topics := if (fields.get? "trace_id").isSome ∧ "trace" ∉ topics then topics ++ ["trace"]
    else topics
  (topics, fields.insert "topics" (.arr (topics.map .str)))

/-! ### The form of a trace id -/

/-- A lower-case hexadecimal digit. -/
def isLowerHex (c : Char) : Bool := c.isDigit || ('a' ≤ c && c ≤ 'f')

theorem toNat_lt_of_isLowerHex {c : Char} (h : isLowerHex c = true) :
    48 ≤ c.toNat ∧ c.toNat ≤ 57 ∨ 97 ≤ c.toNat ∧ c.toNat ≤ 102 := by
  rw [isLowerHex, Bool.or_eq_true, Bool.and_eq_true, decide_eq_true_eq, decide_eq_true_eq] at h
  rcases h with h | ⟨ha, hf⟩
  · exact .inl (by simpa [Char.isDigit, UInt32.le_iff_toNat_le] using h)
  · exact .inr ⟨ha, hf⟩

/-- A hexadecimal digit in either case is one in lower case. -/
theorem isLowerHex_lowerChar {c : Char} (h : hexSet c = true) :
    isLowerHex (lowerChar c) = true ∧ c.toNat < 128 := by
  have h : isLowerHex c = true ∨ isLowerHex (foldRune c) = true := Bool.or_eq_true_iff.mp h
  by_cases hupper : 'A' ≤ c ∧ c ≤ 'Z'
  · have hlt : c.toNat < 128 := lt_of_le_of_lt hupper.2 (by decide)
    have hfold : foldRune c = lowerChar c := by
      rw [foldRune, lowerChar, if_pos hupper, if_pos hupper]
    rw [hfold] at h
    refine ⟨h.resolve_left fun hc => ?_, hlt⟩
    have hA : 65 ≤ c.toNat := hupper.1
    have hZ : c.toNat ≤ 90 := hupper.2
    have := toNat_lt_of_isLowerHex hc
    omega
  · have hself : isLowerHex c = true := by
      rcases h with h | h
      · exact h
      · rw [foldRune, if_neg hupper] at h
        split_ifs at h
        · exact absurd h (by decide)
        · exact absurd h (by decide)
        · exact h
    have hlt := toNat_lt_of_isLowerHex hself
    refine ⟨?_, by omega⟩
    rw [lowerChar, if_neg hupper, if_neg, if_neg]
    · exact hself
    · rintro rfl
      exact absurd hself (by decide)
    · rintro rfl
      exact absurd hself (by decide)

/-- Case folding and lower case agree on hexadecimal digits. -/
theorem foldRune_eq_lowerChar {c : Char} (h : hexSet c = true) : foldRune c = lowerChar c := by
  have hlt := (isLowerHex_lowerChar h).2
  have hne : ∀ d : Char, 128 ≤ d.toNat → c ≠ d := by
    rintro d hd rfl
    omega
  by_cases hupper : 'A' ≤ c ∧ c ≤ 'Z'
  · rw [foldRune, lowerChar, if_pos hupper, if_pos hupper]
  · rw [foldRune, lowerChar, if_neg hupper, if_neg hupper, if_neg (hne '\u017F' (by decide)),
      if_neg (hne '\u212A' (by decide)), if_neg (hne '\u0130' (by decide))]

theorem hexSet_of_isLowerHex {c : Char} (h : isLowerHex c = true) : hexSet c = true :=
  Bool.or_eq_true_iff.mpr (.inl h)

/-- Lower case makes a hexadecimal digit one in lower case, and keeps dashes. -/
theorem Runtime.LowersAscii.lower {rt : Runtime} (hrt : rt.LowersAscii) {c : Char}
    (h : hexDashSet c = true) : isLowerHex (rt.lower c) = true ∨ rt.lower c = '-' ∧ c = '-' := by
  rcases Bool.or_eq_true_iff.mp h with h | h
  · obtain ⟨hlower, hlt⟩ := isLowerHex_lowerChar h
    exact .inl (by rwa [hrt c hlt])
  · obtain rfl := beq_iff_eq.mp h
    exact .inr ⟨hrt '-' (by decide), rfl⟩

/-- A text of hexadecimal digits and dashes. -/
def HexDash (s : String) : Prop := ∀ c ∈ s.toList, hexDashSet c = true

theorem isSpace_of_hexDashSet {c : Char} (h : hexDashSet c = true) : isSpace c = false := by
  rcases Bool.or_eq_true_iff.mp h with h | h
  · rw [hexSet, folded] at h
    have hlt := (isLowerHex_lowerChar h).2
    by_contra hspace
    rw [Bool.not_eq_false] at hspace
    have hall : ∀ n : Fin 128, isSpace (Char.ofNat n) = true → hexSet (Char.ofNat n) = false := by
      decide
    have := hall ⟨c.toNat, hlt⟩
    rw [Char.ofNat_toNat] at this
    exact absurd h (Bool.eq_false_iff.mp (this hspace))
  · rw [beq_iff_eq.mp h]
    decide

theorem HexDash.trimSpace_eq {s : String} (h : HexDash s) : trimSpace s = s :=
  trimSpace_eq_self fun c hc => isSpace_of_hexDashSet (h c hc)

theorem HexDash.toLower {rt : Runtime} (hrt : rt.LowersAscii) {s : String} (h : HexDash s) :
    HexDash (rt.toLower s) := by
  intro c hc
  rw [Runtime.toLower, String.toList_ofList] at hc
  obtain ⟨d, hd, rfl⟩ := List.mem_map.mp hc
  rcases hrt.lower (h d hd) with hlower | ⟨hdash, -⟩
  · exact Bool.or_eq_true_iff.mpr (.inl (hexSet_of_isLowerHex hlower))
  · rw [hdash]
    decide

theorem HexDash.dropDashes {s : String} (h : HexDash s) : HexDash (dropDashes s) := by
  intro c hc
  rw [Argus.dropDashes, String.toList_ofList] at hc
  exact h c (List.mem_filter.mp hc).1

theorem HexDash.normalizeTraceID {rt : Runtime} (hrt : rt.LowersAscii) {s : String}
    (h : HexDash s) : HexDash (normalizeTraceID rt s) := by
  rw [Argus.normalizeTraceID, h.trimSpace_eq]
  exact (h.toLower hrt).dropDashes

/-- An expression whose groups are ids finds ids. -/
theorem hexDash_of_firstGroup {r : Regex} (hr : GroupsWithin (hexDashSet · = true) r)
    {message id : String} (h : firstGroup r message = some id) : HexDash id := by
  obtain ⟨groups, hgroups, hhead⟩ := Option.bind_eq_some_iff.mp h
  exact mem_of_findSubmatch hr hgroups id (List.mem_of_mem_head? hhead)

theorem hexDashSet_of_hexSet {c : Char} (h : hexSet c = true) : hexDashSet c = true :=
  Bool.or_eq_true_iff.mpr (.inl h)

theorem groupsWithin_word {P : Char → Prop} (s : String) : GroupsWithin P (word s) :=
  groupsWithin_text _ s

/-- `idName` has no groups. -/
theorem groupsWithin_idName {P : Char → Prop} (name : String) : GroupsWithin P (idName name) :=
  ⟨groupsWithin_word _, ⟨trivial, trivial⟩, groupsWithin_word _⟩

theorem groupsWithin_idKVRe {names : List Regex} {lo hi : ℕ}
    (h : ∀ r ∈ names, GroupsWithin (hexDashSet · = true) r) :
    GroupsWithin (hexDashSet · = true) (idKVRe names lo hi) :=
  ⟨groupsWithin_alts h, trivial, trivial, trivial, ⟨trivial, trivial⟩, fun _ hc => hc, trivial⟩

theorem groupsWithin_traceKVRe : GroupsWithin (hexDashSet · = true) traceKVRe :=
  groupsWithin_idKVRe (by simp [groupsWithin_idName, groupsWithin_word])

theorem groupsWithin_correlationRe : GroupsWithin (hexDashSet · = true) correlationRe :=
  groupsWithin_idKVRe (by simp [groupsWithin_idName, groupsWithin_word])

theorem groupsWithin_requestIDRe : GroupsWithin (hexDashSet · = true) requestIDRe :=
  groupsWithin_idKVRe (by simp [groupsWithin_idName, groupsWithin_word])

theorem groupsWithin_otelJSONRe (name : String) (lo hi : ℕ) :
    GroupsWithin (hexDashSet · = true) (otelJSONRe name lo hi) :=
  ⟨trivial, groupsWithin_idName name, trivial, trivial, trivial, trivial, trivial,
    ⟨fun _ hc => hc, trivial⟩, trivial⟩

theorem groupsWithin_traceParentRe : GroupsWithin (hexDashSet · = true) traceParentRe :=
  ⟨groupsWithin_word _, trivial, groupsWithin_word _,
    ⟨fun _ => hexDashSet_of_hexSet, trivial⟩, trivial, fun _ => hexDashSet_of_hexSet, trivial⟩

theorem groupsWithin_otelTextTraceRe : GroupsWithin (hexDashSet · = true) otelTextTraceRe :=
  ⟨groupsWithin_word _, trivial, fun _ => hexDashSet_of_hexSet, trivial⟩

theorem groupsWithin_pythonTraceRe : GroupsWithin (hexDashSet · = true) pythonTraceRe :=
  ⟨⟨trivial, trivial⟩, groupsWithin_word _, ⟨trivial, trivial⟩, trivial, trivial, trivial, trivial,
    ⟨fun _ hc => hc, trivial⟩, trivial⟩

/-- A UUID is of hexadecimal digits and dashes. -/
theorem within_uuidRe : Within (hexDashSet · = true) uuidRe := by
  have hdash : Within (hexDashSet · = true) (char '-') := fun c hc => by
    rw [beq_iff_eq.mp hc]
    decide
  exact ⟨fun _ => hexDashSet_of_hexSet, hdash, fun _ => hexDashSet_of_hexSet, hdash,
    fun _ => hexDashSet_of_hexSet, hdash, fun _ => hexDashSet_of_hexSet, hdash,
    fun _ => hexDashSet_of_hexSet⟩

theorem groupsWithin_uuidInContextRe : GroupsWithin (hexDashSet · = true) uuidInContextRe :=
  ⟨⟨groupsWithin_word _, groupsWithin_word _, groupsWithin_word _⟩, trivial, within_uuidRe, by
    refine ⟨?_, ?_, ?_, ?_, ?_, ?_, ?_, ?_, ?_⟩ <;> trivial⟩

/-- What is found first was found, or nothing was. -/
theorem hexDash_firstFound {found : List (Option String)}
    (h : ∀ id, some id ∈ found → HexDash id) : HexDash (firstFound found) := by
  rw [firstFound]
  rcases hfind : found.find? (fun id => decide (id ≠ none ∧ id ≠ some "")) with - | id
  · exact fun c hc => absurd hc List.not_mem_nil
  · rcases id with - | id
    · exact fun c hc => absurd hc List.not_mem_nil
    · exact h id (List.mem_of_find?_eq_some hfind)

/-- **The form of an id.** A trace id that is found has only hexadecimal digits and dashes. -/
theorem hexDash_traceID {rt : Runtime} (hrt : rt.LowersAscii) (message : String) :
    HexDash (ParseTraceFields rt message).traceID := by
  have hnorm : ∀ {r : Regex}, GroupsWithin (hexDashSet · = true) r → ∀ {id : String},
      some id = (firstGroup r message).map (normalizeTraceID rt) → HexDash id := by
    intro r hr id h
    obtain ⟨raw, hraw, rfl⟩ := Option.map_eq_some_iff.mp h.symm
    exact (hexDash_of_firstGroup hr hraw).normalizeTraceID hrt
  have hlower : ∀ {r : Regex}, GroupsWithin (hexDashSet · = true) r → ∀ {id : String},
      some id = (firstGroup r message).map rt.toLower → HexDash id := by
    intro r hr id h
    obtain ⟨raw, hraw, rfl⟩ := Option.map_eq_some_iff.mp h.symm
    exact (hexDash_of_firstGroup hr hraw).toLower hrt
  have hdefault : ∀ {r : Regex}, GroupsWithin (hexDashSet · = true) r → ∀ {id : String},
      some id = some (((firstGroup r message).map rt.toLower).getD "") → HexDash id := by
    intro r hr id h
    rcases hfound : (firstGroup r message).map rt.toLower with - | found
    · rw [hfound, Option.getD_none, Option.some.injEq] at h
      exact h ▸ fun c hc => absurd hc List.not_mem_nil
    · rw [hfound, Option.getD_some] at h
      exact hlower hr (h.trans hfound.symm)
  change HexDash (firstFound _)
  refine hexDash_firstFound fun id hid => ?_
  simp only [List.mem_cons, List.not_mem_nil, or_false] at hid
  rcases hid with h | h | h | h | h | h | h | h
  · exact hnorm groupsWithin_traceParentRe h
  · exact hnorm (groupsWithin_otelJSONRe _ _ _) h
  · exact hnorm groupsWithin_traceKVRe h
  · exact hexDash_of_firstGroup groupsWithin_otelTextTraceRe h.symm
  · exact hnorm groupsWithin_pythonTraceRe h
  · exact hlower groupsWithin_uuidInContextRe h
  · exact hdefault groupsWithin_correlationRe h
  · exact hdefault groupsWithin_requestIDRe h

/-- Members under other names change no field. -/
theorem get?_foldl_insert {l : List (String × String)} {k : String} (h : ∀ e ∈ l, e.1 ≠ k)
    (m : Fields) : (l.foldl (fun m e => m.insert e.1 (.str e.2)) m).get? k = m.get? k := by
  induction l generalizing m with
  | nil => rfl
  | cons e l ih =>
    obtain ⟨he, hl⟩ := List.forall_mem_cons.mp h
    rw [List.foldl_cons, ih hl, SortedMap.get?_insert_of_ne he]

/-- The trace id among the fields is the one that is found, if there is one. -/
theorem get?_trace_id (rt : Runtime) (message level : String) :
    (EnrichLog rt message level).2.get? "trace_id" =
      if (ParseTraceFields rt message).traceID = "" then none
      else some (.str (ParseTraceFields rt message).traceID) := by
  set t := ParseTraceFields rt message with ht
  have hrest : ∀ e ∈ [("span_id", t.spanID), ("correlation_id", t.correlationID),
      ("request_id", t.requestID)].filter (fun e => decide (e.2 ≠ "")), e.1 ≠ "trace_id" := by
    intro e he
    have hmem := (List.mem_filter.mp he).1
    simp only [List.mem_cons, List.not_mem_nil, or_false] at hmem
    rcases hmem with rfl | rfl | rfl <;> simp
  have hsignals : ∀ pause : Option Extended, (match pause with
      | some x => (∅ : Fields).insert "gc_pause_ms" (.num x)
      | none => ∅).get? "trace_id" = none := by
    intro pause
    rcases pause with - | x
    · rfl
    · exact SortedMap.get?_insert_of_ne (by decide)
  rw [EnrichLog, SortedMap.get?_insert_of_ne (by decide), ← ht, TraceFields.members,
    List.filter_cons]
  by_cases hid : t.traceID = ""
  · rw [if_neg (by simp [hid]), get?_foldl_insert hrest, if_pos hid]
    exact hsignals _
  · rw [if_pos (by simp [hid]), List.foldl_cons, get?_foldl_insert hrest, if_neg hid]
    exact SortedMap.get?_insert_self _ _ _

end Argus
