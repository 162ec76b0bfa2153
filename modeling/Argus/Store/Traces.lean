import Argus.Floats
import Argus.Foundations.Like
import Argus.Insights.TraceQuery
import Argus.Store.Columns
import Argus.Store.Windows
import Argus.Strings

/-!
# The detail of a trace

`ListTraces` groups the stored spans by `traceKey`: the id without white space around it and
without dashes, in lower case. `GetTraceSpans` looks for the ids that are the key after taking
out the dashes in SQL, or that are `LIKE '%key%'`. The second also finds the spans of every other
trace whose id contains the key. `detail_iff` says when the two agree on a store.
-/

namespace Argus

open Foundations

/-- A row of `trace_spans`. -/
structure SpanRow where
  traceID : String
  spanID : String
  parentSpanID : String
  name : String
  service : String
  container : String
  entityUID : String
  startTS : Time
  endTS : Time
  durationMs : Extended
  status : String
  kind : String
  source : String
  attributesJSON : String

/-- A `model.TraceSpan` as it is read back. -/
structure StoredSpan where
  traceID : String
  spanID : String
  parentSpanID : String
  name : String
  service : String
  container : String
  entityUID : String
  startTS : Time
  endTS : Time
  durationMs : Extended
  status : String
  kind : String
  source : String
  attributes : Fields

/-- One round of `scanTraceSpans`: attributes that cannot be decoded are none. -/
def SpanRow.scan (r : SpanRow) : StoredSpan where
  traceID := r.traceID
  spanID := r.spanID
  parentSpanID := r.parentSpanID
  name := r.name
  service := r.service
  container := r.container
  entityUID := r.entityUID
  startTS := r.startTS
  endTS := r.endTS
  durationMs := r.durationMs
  status := r.status
  kind := r.kind
  source := r.source
  attributes := (unmarshalFields r.attributesJSON).getD ∅

/-- `traceKey`. -/
def traceKey (rt : Runtime) (traceID : String) : String :=
  rt.toLower (dropDashes (trimSpace traceID))

/-- `replace(lower(trace_id), '-', '')`. The `lower` of SQL is taken to be the `strings.ToLower` of
`traceKey`, as it is in a database whose locale has the case mapping of Unicode. -/
def storedKey (rt : Runtime) (traceID : String) : String := dropDashes (rt.toLower traceID)

/-- `replace(lower(trace_id), '-', '') = ? OR trace_id LIKE ?`. -/
def spanWhere (rt : Runtime) (norm : String) (r : SpanRow) : Bool :=
  storedKey rt r.traceID == norm || like (containing norm) r.traceID

/-- The possible results of `GetTraceSpans`, an error among them: `ORDER BY start_ts ASC`. -/
@[irreducible]
def GetTraceSpans (rt : Runtime) (table : List SpanRow) (traceID : String)
    (out : Option (List StoredSpan)) : Prop :=
  let norm := traceKey rt traceID
  if norm = "" then out = some []
  else if !validText norm then out = none
  else ∃ rows : List SpanRow, rows.Perm (table.filter (spanWhere rt norm)) ∧
    rows.Pairwise (fun a b => sortsBefore b.startTS a.startTS = false) ∧
      out = some (rows.map SpanRow.scan)

/-! ### Keys in Go and in SQL -/

/-- Lower case keeps dashes, and makes no new ones. -/
def Runtime.KeepsDashes (rt : Runtime) : Prop := ∀ c, rt.lower c = '-' ↔ c = '-'

theorem storedKey_eq {rt : Runtime} (hrt : rt.KeepsDashes) (id : String) :
    storedKey rt id = rt.toLower (dropDashes id) := by
  have hiff : ∀ c, (rt.lower c != '-') = (c != '-') := by
    intro c
    by_cases hc : c = '-'
    · rw [hc, (hrt '-').mpr rfl]
    · rw [bne_iff_ne.mpr hc, bne_iff_ne.mpr fun h => hc ((hrt c).mp h)]
  simp only [storedKey, Runtime.toLower, dropDashes, String.toList_ofList, List.filter_map,
    Function.comp_def, hiff]

/-- An id without white space around it has the same key in both. -/
theorem storedKey_of_trimmed {rt : Runtime} (hrt : rt.KeepsDashes) {id : String}
    (h : trimSpace id = id) : storedKey rt id = traceKey rt id := by
  rw [storedKey_eq hrt, traceKey, h]

/-- White space around an id makes the key in SQL longer. -/
theorem trimmed_of_storedKey {rt : Runtime} (hrt : rt.KeepsDashes) {id : String}
    (h : storedKey rt id = traceKey rt id) : trimSpace id = id := by
  obtain ⟨pre, post, hsplit, hspace⟩ := exists_trimSpace id
  have hkept : ∀ l : List Char, (∀ c ∈ l, isSpace c = true) → l.filter (· != '-') = l := by
    refine fun l hl => List.filter_eq_self.mpr fun c hc => bne_iff_ne.mpr ?_
    rintro rfl
    exact absurd (hl _ hc) (by decide)
  have hlength := congrArg (List.length ∘ String.toList) h
  rw [storedKey_eq hrt, traceKey] at hlength
  simp only [Function.comp_apply, Runtime.toLower, dropDashes, String.toList_ofList,
    List.length_map, hsplit, List.filter_append, List.length_append,
    hkept pre fun c hc => hspace c (List.mem_append_left _ hc),
    hkept post fun c hc => hspace c (List.mem_append_right _ hc)] at hlength
  obtain rfl : pre = [] := List.length_eq_zero_iff.mp (by omega)
  obtain rfl : post = [] := List.length_eq_zero_iff.mp (by omega)
  exact String.toList_inj.mp (by simpa using hsplit.symm)

/-! ### Detail and list -/

/-- The detail of an id shows the spans of its trace, whatever order the store returns them in. -/
def ShowsTrace (rt : Runtime) (table : List SpanRow) (traceID : String) : Prop :=
  ∀ out, GetTraceSpans rt table traceID out → ∃ spans, out = some spans ∧
    spans.Perm ((table.filter fun r => traceKey rt r.traceID == traceKey rt traceID).map
      SpanRow.scan)

/-- What a stored id must be for the query of a key to find it exactly when it has the key. -/
structure Findable (rt : Runtime) (key id : String) : Prop where
  /-- An id of the trace has no white space around it, or the pattern finds it all the same. -/
  own : traceKey rt id = key → trimSpace id = id ∨ like (containing key) id = true
  /-- The pattern finds no id of another trace, and no such id is the key but for trimming. -/
  other : traceKey rt id ≠ key → like (containing key) id = false ∧ storedKey rt id ≠ key

theorem spanWhere_iff {rt : Runtime} (hrt : rt.KeepsDashes) {key : String} {r : SpanRow} :
    (spanWhere rt key r = true ↔ traceKey rt r.traceID = key) ↔ Findable rt key r.traceID := by
  rw [spanWhere, Bool.or_eq_true, beq_iff_eq]
  constructor
  · intro h
    refine ⟨fun hkey => ?_, fun hkey => ?_⟩
    · refine (h.mpr hkey).imp_left fun hstored => trimmed_of_storedKey hrt ?_
      rw [hstored, hkey]
    · obtain ⟨hstored, hlike⟩ := not_or.mp (mt h.mp hkey)
      exact ⟨Bool.not_eq_true _ ▸ hlike, hstored⟩
  · rintro ⟨hown, hother⟩
    constructor
    · intro hfound
      by_contra hkey
      obtain ⟨hlike, hstored⟩ := hother hkey
      exact hfound.elim hstored fun h => Bool.false_ne_true (hlike.symm.trans h)
    · intro hkey
      refine (hown hkey).imp_left fun htrim => ?_
      rw [storedKey_of_trimmed hrt htrim, hkey]

theorem getTraceSpans_of_empty {rt : Runtime} {table : List SpanRow} {traceID : String}
    {out : Option (List StoredSpan)} (hempty : traceKey rt traceID = "") :
    GetTraceSpans rt table traceID out ↔ out = some [] := by
  simp only [GetTraceSpans, if_pos hempty]

theorem getTraceSpans_of_invalid {rt : Runtime} {table : List SpanRow} {traceID : String}
    {out : Option (List StoredSpan)} (hempty : traceKey rt traceID ≠ "")
    (hvalid : validText (traceKey rt traceID) = false) :
    GetTraceSpans rt table traceID out ↔ out = none := by
  simp only [GetTraceSpans, if_neg hempty, hvalid, Bool.not_false, if_true]

theorem getTraceSpans_of_valid {rt : Runtime} {table : List SpanRow} {traceID : String}
    {out : Option (List StoredSpan)} (hempty : traceKey rt traceID ≠ "")
    (hvalid : validText (traceKey rt traceID) = true) :
    GetTraceSpans rt table traceID out ↔
      ∃ rows : List SpanRow, rows.Perm (table.filter (spanWhere rt (traceKey rt traceID))) ∧
        rows.Pairwise (fun a b => sortsBefore b.startTS a.startTS = false) ∧
          out = some (rows.map SpanRow.scan) := by
  simp only [GetTraceSpans, if_neg hempty, hvalid, Bool.not_true, Bool.false_eq_true, if_false]

/-- An empty key shows nothing. -/
theorem showsTrace_of_empty {rt : Runtime} {table : List SpanRow} {traceID : String}
    (hempty : traceKey rt traceID = "") :
    ShowsTrace rt table traceID ↔ ∀ r ∈ table, traceKey rt r.traceID ≠ "" := by
  have hfilter : ([] : List StoredSpan).Perm ((table.filter fun r =>
      traceKey rt r.traceID == traceKey rt traceID).map SpanRow.scan) ↔
        ∀ r ∈ table, traceKey rt r.traceID ≠ "" := by
    rw [List.nil_perm, List.map_eq_nil_iff, List.filter_eq_nil_iff, hempty]
    exact forall_congr' fun r => imp_congr_right fun _ => not_congr beq_iff_eq
  rw [← hfilter]
  constructor
  · intro h
    obtain ⟨spans, heq, hperm⟩ := h _ ((getTraceSpans_of_empty hempty).mpr rfl)
    obtain rfl := Option.some.inj heq
    exact hperm
  · intro h out hout
    exact ⟨[], (getTraceSpans_of_empty hempty).mp hout, h⟩

/-- Filters that differ on a row find other ids. -/
theorem spanWhere_of_perm {rt : Runtime} {table : List SpanRow} {key : String}
    (h : ((table.filter (spanWhere rt key)).map SpanRow.scan).Perm
      ((table.filter fun r => traceKey rt r.traceID == key).map SpanRow.scan)) {r : SpanRow}
    (hr : r ∈ table) : spanWhere rt key r = true ↔ traceKey rt r.traceID = key := by
  have hid : ∀ {r r' : SpanRow}, r'.scan = r.scan → r'.traceID = r.traceID := fun h =>
    congrArg StoredSpan.traceID h
  constructor
  · intro hfound
    obtain ⟨r', hr', hscan⟩ := List.mem_map.mp (h.mem_iff.mp
      (List.mem_map_of_mem (List.mem_filter.mpr ⟨hr, hfound⟩)))
    rw [← hid hscan]
    exact beq_iff_eq.mp (List.mem_filter.mp hr').2
  · intro hkey
    obtain ⟨r', hr', hscan⟩ := List.mem_map.mp (h.mem_iff.mpr
      (List.mem_map_of_mem (List.mem_filter.mpr ⟨hr, beq_iff_eq.mpr hkey⟩)))
    have hfound := (List.mem_filter.mp hr').2
    rwa [spanWhere, hid hscan] at hfound

theorem showsTrace_of_valid {rt : Runtime} (hrt : rt.KeepsDashes) {table : List SpanRow}
    {traceID : String} (hempty : traceKey rt traceID ≠ "")
    (hvalid : validText (traceKey rt traceID) = true) :
    ShowsTrace rt table traceID ↔
      ∀ r ∈ table, Findable rt (traceKey rt traceID) r.traceID := by
  constructor
  · intro h r hr
    obtain ⟨rows, hperm, hsorted⟩ := exists_sorted_asc
      (table.filter (spanWhere rt (traceKey rt traceID))) SpanRow.startTS
    obtain ⟨spans, heq, hspans⟩ := h _
      ((getTraceSpans_of_valid hempty hvalid).mpr ⟨rows, hperm, hsorted, rfl⟩)
    obtain rfl := Option.some.inj heq
    have hfilters := (hperm.map SpanRow.scan).symm.trans hspans
    exact (spanWhere_iff hrt).mp (spanWhere_of_perm hfilters hr)
  · intro h out hout
    obtain ⟨rows, hperm, -, rfl⟩ := (getTraceSpans_of_valid hempty hvalid).mp hout
    refine ⟨_, rfl, (hperm.map SpanRow.scan).trans ?_⟩
    have hfilter : table.filter (spanWhere rt (traceKey rt traceID)) =
        table.filter fun r => traceKey rt r.traceID == traceKey rt traceID := by
      refine List.filter_congr fun r hr => Bool.eq_iff_iff.mpr ?_
      rw [(spanWhere_iff hrt).mpr (h r hr), beq_iff_eq]
    rw [hfilter]

/-- **When the detail shows the trace.** The detail of an id shows exactly the spans that the list
groups under its key if and only if the key is a valid text, no stored id has an empty key when
the key is empty, and otherwise every stored id can be found. -/
theorem detail_iff {rt : Runtime} (hrt : rt.KeepsDashes) (table : List SpanRow) (traceID : String) :
    ShowsTrace rt table traceID ↔
      validText (traceKey rt traceID) = true ∧
        (traceKey rt traceID = "" → ∀ r ∈ table, traceKey rt r.traceID ≠ "") ∧
          (traceKey rt traceID ≠ "" →
            ∀ r ∈ table, Findable rt (traceKey rt traceID) r.traceID) := by
  by_cases hempty : traceKey rt traceID = ""
  · rw [showsTrace_of_empty hempty]
    have hvalid : validText (traceKey rt traceID) = true := by rw [hempty]; rfl
    exact ⟨fun h => ⟨hvalid, fun _ => h, fun hne => absurd hempty hne⟩, fun h => h.2.1 hempty⟩
  · constructor
    · intro h
      have hvalid : validText (traceKey rt traceID) = true := by
        by_contra hinvalid
        obtain ⟨spans, heq, -⟩ := h none ((getTraceSpans_of_invalid hempty
          (Bool.eq_false_iff.mpr hinvalid)).mpr rfl)
        exact nomatch heq
      exact ⟨hvalid, fun heq => absurd heq hempty,
        fun _ => (showsTrace_of_valid hrt hempty hvalid).mp h⟩
    · rintro ⟨hvalid, -, h⟩
      exact (showsTrace_of_valid hrt hempty hvalid).mpr (h hempty)

/-- A span without anything but an id. -/
def sampleSpan (traceID : String) : SpanRow :=
  ⟨traceID, "", "", "", "", "", "", ⟨0⟩, ⟨0⟩, .finite 0, "", "", "", ""⟩

/-- No letter has a dash as its lower case. -/
theorem keepsDashes_asciiRuntime : asciiRuntime.KeepsDashes := by
  intro c
  constructor
  · intro h
    change lowerChar c = '-' at h
    unfold lowerChar at h
    split_ifs at h with hupper
    · have hlow : 65 ≤ c.toNat := hupper.1
      have hhigh : c.toNat ≤ 90 := hupper.2
      have hvalid : (c.toNat + 32).isValidChar := Or.inl (by omega)
      rw [Char.ofNat, dif_pos hvalid] at h
      have htoNat : c.toNat + 32 = 45 := congrArg Char.toNat h
      omega
    · exact absurd h (by decide)
    · exact absurd h (by decide)
    · exact h
  · rintro rfl
    rfl

/-- Two traces of which neither id contains the other. -/
theorem detail_iff_of_two :
    ShowsTrace asciiRuntime [sampleSpan "AB-1", sampleSpan "cd2"] "ab1" := by
  refine (detail_iff keepsDashes_asciiRuntime _ _).mpr ⟨by decide, by decide, fun _ r hr => ?_⟩
  rcases List.mem_pair.mp hr with rfl | rfl
  · exact ⟨fun _ => Or.inl (by decide), fun h => absurd (by decide) h⟩
  · exact ⟨fun h => absurd h (by decide), fun _ => ⟨by decide, by decide⟩⟩

/-- The detail of `abc` also shows the trace `xabcx`. -/
theorem other_trace_shown :
    ¬ ∀ rt : Runtime, rt.KeepsDashes → ∀ (table : List SpanRow) (traceID : String),
      ShowsTrace rt table traceID := by
  intro h
  have hvalid : traceKey asciiRuntime "abc" ≠ "" := by decide
  have hrows : GetTraceSpans asciiRuntime [sampleSpan "xabcx"] "abc"
      (some [(sampleSpan "xabcx").scan]) :=
    (getTraceSpans_of_valid hvalid (by decide)).mpr
      ⟨[sampleSpan "xabcx"], List.Perm.refl _, List.pairwise_singleton _ _, rfl⟩
  obtain ⟨spans, heq, hspans⟩ := h asciiRuntime keepsDashes_asciiRuntime _ _ _ hrows
  obtain rfl := Option.some.inj heq
  exact absurd hspans.length_eq (by decide)

end Argus
