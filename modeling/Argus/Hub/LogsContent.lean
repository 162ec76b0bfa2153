import Argus.Foundations.JsonLines
import Argus.Hub.LogsIngest
import Argus.Store.PatternCuts

/-!
# The content of a batch of logs

A `TEXT` column refuses U+0000, and a pause of a garbage collection that is no finite number has no
JSON. The hub checks neither. `run_handleLogsBatch` says what a request comes to when no operation
of the database fails: a batch whose entries can be stored is in the store, and what is derived from
a message, and the labels, can always be stored; any other batch is answered 500 and changes
nothing.
-/

namespace Argus

open Foundations

/-! ### Texts that can be stored -/

theorem ne_nul_of_goShortEscape {c e : Char} (h : goShortEscape c = some e) : e ≠ '\x00' := by
  rintro rfl
  rw [goShortEscape] at h
  split_ifs at h with hmark
  · obtain rfl := Option.some.inj h
    exact absurd hmark (by decide)
  all_goals exact absurd (Option.some.inj h) (by decide)

/-- `json.Marshal` writes no character of number zero. -/
theorem nul_notMem_write (c : Char) : ∀ d ∈ goEscape.write c, d ≠ '\x00' := by
  have hdigit : ∀ n, hexDigit (n % 16) ≠ '\x00' := fun n =>
    (by decide : ∀ m < 16, hexDigit m ≠ '\x00') _ (Nat.mod_lt n (by decide))
  rcases h : goShortEscape c with - | e
  · have hwrite : goEscape.write c =
        if isControl c || goLongEscape c then '\\' :: 'u' :: hexFour c.toNat else [c] := by
      simp only [goEscape, Escape.of, h]
    rw [hwrite]
    split_ifs with hlong
    · simp only [hexFour, List.forall_mem_cons]
      exact ⟨by decide, by decide, hdigit _, hdigit _, hdigit _, hdigit _, List.forall_mem_nil _⟩
    · -- the character itself would have been escaped
      refine List.forall_mem_singleton.mpr ?_
      rintro rfl
      exact hlong (by decide)
  · have hwrite : goEscape.write c = ['\\', e] := by simp only [goEscape, Escape.of, h]
    rw [hwrite]
    exact List.forall_mem_cons.mpr
      ⟨by decide, List.forall_mem_singleton.mpr (ne_nul_of_goShortEscape h)⟩

/-- What `json.Marshal` writes can be stored. -/
theorem validText_render (v : Json) : validText (String.ofList (v.render goEscape)) = true := by
  rw [validText_iff, String.toList_ofList]
  refine fun hmem => Json.forall_mem_render (P := fun c => c ≠ '\x00') ?_ ?_ nul_notMem_write v _
    hmem rfl
  · exact forall_mem_of_all (by decide)
  · rintro c hc rfl
    exact absurd hc (by decide)

/-! ### Entries that can be stored -/

/-- An entry can be stored: its texts have no character of number zero, and a pause that is read
off its message is finite. -/
structure LogEntry.Storable (rt : Runtime) (e : LogEntry) : Prop where
  texts : validTexts [e.message, e.level, e.entityUID] = true
  pause : ∀ p, (ClassifyLog rt e.message e.level).2 = some p → ∃ q, p = .finite q

theorem toElements_map_str (number : ℚ → Number) (texts : List String) :
    Any.toElements number (texts.map .str) = some (texts.map .str) := by
  induction texts with
  | nil => rfl
  | cons s texts ih =>
    rw [List.map_cons, Any.toElements, ih]
    rfl

/-- The entries of a map have a text when all of them have one. -/
theorem isSome_toMembers {number : ℚ → Number} {l : List (String × Any)} :
    (Any.toMembers number l).isSome ↔ ∀ e ∈ l, (Any.toJson number e.2).isSome := by
  induction l with
  | nil => simp [Any.toMembers]
  | cons e l ih =>
    rw [List.forall_mem_cons, ← ih, Any.toMembers]
    rcases Any.toJson number e.2 with - | v
    · simp
    · rcases Any.toMembers number l with - | vs
      · simp
      · simp

theorem isSome_marshal_iff {number : ℚ → Number} {fields : Fields} :
    (Fields.marshal number fields).isSome ↔
      ∀ k x, fields.get? k = some x → (Any.toJson number x).isSome := by
  rw [Fields.marshal, Option.isSome_map, isSome_toMembers]
  exact ⟨fun h k x hx => h (k, x) (SortedMap.mem_entries.mpr hx),
    fun h e he => h e.1 e.2 (SortedMap.mem_entries.mp he)⟩

/-- Members that are texts leave the other values. -/
theorem text_of_get?_foldl_insert {l : List (String × String)} {m : Fields} {k : String} {x : Any}
    (h : (l.foldl (fun m e => m.insert e.1 (.str e.2)) m).get? k = some x) :
    (∃ s, x = .str s) ∨ m.get? k = some x := by
  induction l generalizing m with
  | nil => exact .inr h
  | cons e l ih =>
    rw [List.foldl_cons] at h
    refine (ih h).elim .inl fun hm => ?_
    rw [SortedMap.get?_insert] at hm
    split_ifs at hm
    · exact .inl ⟨e.2, (Option.some.inj hm).symm⟩
    · exact .inr hm

/-- The fields of an entry are texts and lists of texts, but for a pause. -/
theorem value_of_get?_enrichLog {rt : Runtime} {message level k : String} {x : Any}
    (h : (EnrichLog rt message level).2.get? k = some x) :
    (∃ texts : List String, x = .arr (texts.map .str)) ∨ (∃ s, x = .str s) ∨
      ∃ p, (ClassifyLog rt message level).2 = some p ∧ x = .num p := by
  rw [EnrichLog] at h
  by_cases hkey : "topics" = k
  · rw [hkey, SortedMap.get?_insert_self] at h
    exact .inl ⟨_, (Option.some.inj h).symm⟩
  rw [SortedMap.get?_insert_of_ne hkey] at h
  rcases text_of_get?_foldl_insert h with htext | hpause
  · exact .inr (.inl htext)
  · rcases hsome : (ClassifyLog rt message level).2 with - | p
    · rw [hsome] at hpause
      exact absurd hpause (Option.some_ne_none x).symm
    · rw [hsome] at hpause
      dsimp only at hpause
      rw [SortedMap.get?_insert] at hpause
      split_ifs at hpause
      · exact .inr (.inr ⟨p, rfl, (Option.some.inj hpause).symm⟩)
      · exact absurd hpause (by simp)

/-- A pause is one of the fields. -/
theorem get?_gc_pause_ms {rt : Runtime} {message level : String} {p : Extended}
    (h : (ClassifyLog rt message level).2 = some p) :
    (EnrichLog rt message level).2.get? "gc_pause_ms" = some (.num p) := by
  have hkeys : ∀ e ∈ (ParseTraceFields rt message).members, e.1 ≠ "gc_pause_ms" := by
    intro e he
    have hmem := (List.mem_filter.mp he).1
    simp only [List.mem_cons, List.not_mem_nil, or_false] at hmem
    rcases hmem with rfl | rfl | rfl | rfl <;> simp
  rw [EnrichLog, SortedMap.get?_insert_of_ne (by decide), get?_foldl_insert hkeys, h]
  exact SortedMap.get?_insert_self _ _ _

/-- The fields of an entry have a text exactly when a pause among them is finite. -/
theorem isSome_marshal_enriched {rt : Runtime} {number : ℚ → Number} {e : LogEntry} :
    (Fields.marshal number (e.enriched rt).fields).isSome ↔
      ∀ p, (ClassifyLog rt e.message e.level).2 = some p → ∃ q, p = .finite q := by
  rw [isSome_marshal_iff]
  constructor
  · intro h p hp
    have hsome := h _ _ (get?_gc_pause_ms hp)
    rcases p with q | negative
    · exact ⟨q, rfl⟩
    · exact absurd hsome (by simp [Any.toJson])
  · intro h k x hx
    rcases value_of_get?_enrichLog hx with ⟨texts, rfl⟩ | ⟨s, rfl⟩ | ⟨p, hp, rfl⟩
    · rw [Any.toJson, toElements_map_str]
      rfl
    · rfl
    · obtain ⟨q, rfl⟩ := h p hp
      rfl

/-- The store takes the row of an entry exactly when the entry can be stored. -/
theorem isSome_row_iff {rt : Runtime} {number : ℚ → Number} {e : LogEntry} :
    (((e.enriched rt).row number).filter LogRow.valid).isSome ↔ e.Storable rt := by
  have hlabels : validText e.labels.marshal = true := validText_render _
  have hrow : ∀ text, Fields.marshal number (e.enriched rt).fields = some text →
      validText text = true := by
    intro text htext
    obtain ⟨l, -, rfl⟩ := Option.map_eq_some_iff.mp htext
    exact validText_render _
  rw [LogEntry.row]
  constructor
  · intro h
    rcases htext : Fields.marshal number (e.enriched rt).fields with - | text
    · rw [htext] at h
      exact absurd h (by simp)
    · rw [htext, Option.map_some, Option.filter_some] at h
      split_ifs at h with hvalid
      · refine ⟨?_, isSome_marshal_enriched.mp (Option.isSome_of_mem htext)⟩
        simp only [LogRow.valid, validTexts, List.all_cons, Bool.and_eq_true] at hvalid
        simp only [validTexts, List.all_cons, Bool.and_eq_true]
        exact ⟨hvalid.2.1, hvalid.2.2.1, hvalid.2.2.2.1, rfl⟩
      · exact absurd h (by simp)
  · rintro ⟨htexts, hpause⟩
    obtain ⟨text, htext⟩ := Option.isSome_iff_exists.mp
      ((@isSome_marshal_enriched rt number e).mpr hpause)
    simp only [validTexts, List.all_cons, Bool.and_eq_true] at htexts
    rw [htext, Option.map_some, Option.filter_some, if_pos]
    · rfl
    · simp only [LogRow.valid, validTexts, List.all_cons, Bool.and_eq_true]
      exact ⟨validText_format _, htexts.1, htexts.2.1, htexts.2.2.1, hlabels, hrow text htext, rfl⟩

/-! ### Requests against a healthy database -/

section Statements

variable {rt : Runtime} {number : ℚ → Number} {entries : List LogEntry}

theorem isSome_logRows_iff : (logRows number (entries.map (LogEntry.enriched rt))).isSome ↔
    ∀ e ∈ entries, e.Storable rt := by
  rw [logRows]
  induction entries with
  | nil => simp
  | cons e entries ih =>
    rw [List.forall_mem_cons, ← ih, ← @isSome_row_iff rt number e, List.map_cons,
      List.mapM_cons]
    rcases ((e.enriched rt).row number).filter LogRow.valid with - | row
    · simp
    · generalize List.mapM (fun e => (e.row number).filter LogRow.valid)
        (entries.map (LogEntry.enriched rt)) = rest
      cases rest with
      | none => simp
      | some rows => simp

/-- A point of an entry that can be stored can be stored. -/
theorem valid_of_mem_derivedPoints (h : ∀ e ∈ entries, e.Storable rt) {p : MetricPoint}
    (hp : p ∈ derivedPoints rt entries) : p.valid = true := by
  obtain ⟨e', he', hp⟩ := List.mem_flatMap.mp hp
  obtain ⟨e, he, rfl⟩ := List.mem_map.mp he'
  obtain ⟨labels, value, name, hname, rfl⟩ := exists_of_mem_deriveMetrics hp
  have htexts := (h e he).texts
  simp only [validTexts, List.all_cons, Bool.and_eq_true] at htexts
  have hvalid : ∀ name ∈ derivedNames, validText name = true := by decide
  simp only [MetricPoint.valid, validTexts, List.all_cons, Bool.and_eq_true]
  exact ⟨hvalid name hname, validText_format _, htexts.2.2.1, validText_render _, rfl⟩

/-- No point goes to `workload_latest`. -/
theorem keyedPoints_derivedPoints : keyedPoints (derivedPoints rt entries) = [] := by
  rw [keyedPoints, List.filterMap_eq_nil_iff]
  intro p hp
  obtain ⟨e, -, hp⟩ := List.mem_flatMap.mp hp
  rw [key?_of_mem_deriveMetrics hp, Option.map_none]

/-- What the statements of a request leave: its rows and its points, if every entry can be
stored. -/
theorem applyAll_batchStatements (t : IngestTables) :
    applyAll IngestTables.apply t
        (batchStatements rt number (entries.map (LogEntry.enriched rt))) =
      (logRows number (entries.map (LogEntry.enriched rt))).map fun rows =>
        { t with
          logs := t.logs ++ rows
          metrics := { t.metrics with
            points := t.metrics.points ++ (derivedPoints rt entries).map MetricPoint.toRow } } := by
  rw [batchStatements, applyAll_append, applyAll_logStatements]
  rcases hrows : logRows number (entries.map (LogEntry.enriched rt)) with - | rows
  · rfl
  rw [Option.map_some, Option.bind_some, Option.map_some]
  have hstorable : ∀ e ∈ entries, e.Storable rt :=
    isSome_logRows_iff.mp (Option.isSome_of_mem hrows)
  have hpoints : (derivedPoints rt entries).all MetricPoint.valid = true :=
    List.all_eq_true.mpr fun p hp => valid_of_mem_derivedPoints hstorable hp
  dsimp only
  rw [← derivedPoints]
  split_ifs with hnil
  · rw [hnil, applyAll, List.map_nil, List.append_nil]
  · rw [applyAll_metricStatements, insertMetrics_eq_ite, if_pos hpoints,
      keyedPoints_derivedPoints]
    rfl

/-- A batch can be stored: its id, which only counts where there are entries, and every entry. -/
structure BatchStorable (rt : Runtime) (header : String) (entries : List LogEntry) : Prop where
  id : entries ≠ [] → validText (requestBatchID header) = true
  entries : ∀ e ∈ entries, e.Storable rt

/-- The id of a batch was applied before. -/
def Known (header : String) (t : IngestTables) : Prop :=
  requestBatchID header ≠ "" ∧ (t.batches.get? (requestBatchID header)).isSome = true

/-- A batch is in the store: its id was known, and nothing is changed, or its rows and its points
are appended. -/
def Kept (rt : Runtime) (number : ℚ → Number) (header : String) (entries : List LogEntry)
    (t t' : IngestTables) : Prop :=
  (Known header t ∧ t' = t) ∨
    ∃ rows, logRows number (entries.map (LogEntry.enriched rt)) = some rows ∧
      t'.logs = t.logs ++ rows ∧ t'.metrics.points =
        t.metrics.points ++ (derivedPoints rt entries).map MetricPoint.toRow

/-- What a healthy database makes of a request. -/
structure Handled (rt : Runtime) (number : ℚ → Number) (header : String)
    (entries : List LogEntry) (answer : Except HttpError (List LogEntry))
    (t t' : IngestTables) : Prop where
  /-- It is stored, and that is answered 202, or it is refused and changes nothing. -/
  result : (answerStatus answer = 202 ∧ Kept rt number header entries t t') ∨
    (answerStatus answer = 500 ∧ t' = t)
  /-- What can be stored is stored. -/
  stored : BatchStorable rt header entries → answerStatus answer = 202
  /-- What cannot be stored is refused when its id is new. -/
  refused : ¬ BatchStorable rt header entries → ¬ Known header t → answerStatus answer = 500

/-- Every operation is answered. -/
def healthy : ℕ → Fate := fun _ => .answered

/-- What the statements of a request leave is a batch in the store. -/
theorem kept_of_applyAll {header : String} {t t₀ t' : IngestTables}
    (h : applyAll IngestTables.apply t₀
      (batchStatements rt number (entries.map (LogEntry.enriched rt))) = some t')
    (hlogs : t₀.logs = t.logs) (hmetrics : t₀.metrics = t.metrics) :
    Kept rt number header entries t t' := by
  rw [applyAll_batchStatements] at h
  obtain ⟨rows, hrows, rfl⟩ := Option.map_eq_some_iff.mp h
  refine .inr ⟨rows, hrows, ?_, ?_⟩
  · rw [← hlogs]
  · rw [← hmetrics]

theorem applyAll_batchStatements_eq_none_iff {t : IngestTables} :
    applyAll IngestTables.apply t
        (batchStatements rt number (entries.map (LogEntry.enriched rt))) = none ↔
      ¬ ∀ e ∈ entries, e.Storable rt := by
  rw [applyAll_batchStatements, Option.map_eq_none_iff, ← @isSome_logRows_iff rt number entries,
    Option.not_isSome_iff_eq_none]

/-- Without an id, two transactions do what the statements do one after the other. -/
theorem run_writeLogsBatch_healthy (t : IngestTables) :
    ∃ ok t' i, (writeLogsBatch rt number entries false).run
        (txAnswer IngestTables.apply healthy) ⟨t, none, 0⟩ = (ok, ⟨t', none, i⟩) ∧
      if ok then applyAll IngestTables.apply t
        (batchStatements rt number (entries.map (LogEntry.enriched rt))) = some t'
      else (¬ ∀ e ∈ entries, e.Storable rt) ∧ t' = t := by
  -- in a healthy database only the content of a statement is an error
  have hworks : ∀ n i, ¬ ∃ j < n, healthy (i + j) ≠ .answered := fun n i h =>
    h.elim fun j hj => hj.2 rfl
  rw [writeLogsBatch, WriteLogs, if_neg Bool.false_ne_true, WriteMetrics,
    if_neg Bool.false_ne_true, insertLogsTx_eq, insertMetricsTx_eq, Program.run_bind]
  rcases run_transaction IngestTables.apply healthy t 0
      (logStatements number (entries.map (LogEntry.enriched rt))) with
    ⟨t₁, happly, -, hrun⟩ | ⟨hfail, i', hrun⟩
  · have hrows := happly
    rw [applyAll_logStatements] at hrows
    obtain ⟨rows, hrows, -⟩ := Option.map_eq_some_iff.mp hrows
    have hstorable : ∀ e ∈ entries, e.Storable rt :=
      isSome_logRows_iff.mp (Option.isSome_of_mem hrows)
    rw [hrun]
    simp only [if_true]
    split_ifs with hnil
    · refine ⟨true, t₁, _, rfl, ?_⟩
      rw [if_pos rfl, batchStatements, applyAll_append, happly, Option.bind_some, if_pos hnil]
      rfl
    · rcases run_transaction IngestTables.apply healthy t₁
          (0 + (logStatements number (entries.map (LogEntry.enriched rt))).length + 2)
          (metricStatements (derivedPoints rt entries)) with
        ⟨t₂, happly₂, -, hrun₂⟩ | ⟨hfail, -⟩
      · refine ⟨true, t₂, _, hrun₂, ?_⟩
        rw [if_pos rfl, batchStatements, applyAll_append, happly, Option.bind_some, if_neg hnil]
        exact happly₂
      · -- the points of entries that can be stored are not refused
        have hpoints : (derivedPoints rt entries).all MetricPoint.valid = true :=
          List.all_eq_true.mpr fun p hp => valid_of_mem_derivedPoints hstorable hp
        have hnone := hfail.resolve_right (hworks _ _)
        rw [applyAll_metricStatements, insertMetrics_eq_ite, if_pos hpoints,
          keyedPoints_derivedPoints] at hnone
        exact absurd hnone (Option.some_ne_none _)
  · have hnone := hfail.resolve_right (hworks _ _)
    rw [leftByError_of_none hnone] at hrun
    refine ⟨false, t, i', by rw [hrun]; rfl, ?_⟩
    rw [applyAll_logStatements, Option.map_eq_none_iff, ← Option.not_isSome_iff_eq_none,
      isSome_logRows_iff] at hnone
    rw [if_neg Bool.false_ne_true]
    exact ⟨hnone, rfl⟩

/-- An id that is no text for the column is an error. -/
theorem run_applyBatch_of_invalid {now : Time} {batchID : String} (hid : batchID ≠ "")
    (htext : validTexts [batchID, now.format] = false) (fn : Bool → StoreM Bool)
    (t : IngestTables) :
    ∃ i, (ApplyBatch now batchID fn).run (txAnswer IngestTables.apply healthy) ⟨t, none, 0⟩ =
      (none, ⟨t, none, i⟩) := by
  rw [ApplyBatch, if_neg hid]
  simp only [Program.call_bind, Program.ret_bind, Program.run_call]
  exact ⟨2, by simp [txAnswer, healthy, IngestTables.apply, htext]⟩

/-- **A request against a healthy database.** -/
theorem run_handleLogsBatch (number : ℚ → Number) (now : Time) (header : String)
    (entries : List LogEntry) (t : IngestTables) :
    ∃ answer t' i, (handleLogsBatch rt number now header (some entries)).run
        (txAnswer IngestTables.apply healthy) ⟨t, none, 0⟩ = (answer, ⟨t', none, i⟩) ∧
      Handled rt number header entries answer t t' := by
  rcases eq_or_ne entries [] with rfl | hne
  · have hnothing : BatchStorable rt header [] :=
      ⟨fun h => absurd rfl h, fun e he => absurd he List.not_mem_nil⟩
    exact ⟨.ok [], t, 0, rfl, .inl ⟨rfl, .inr ⟨[], rfl, by simp, by simp [derivedPoints]⟩⟩,
      fun _ => rfl, fun h => absurd hnothing h⟩
  rw [handleLogsBatch.eq_3 _ _ _ _ _ hne, applyIngest]
  -- without an id the closure runs on its own
  by_cases hid : requestBatchID header = ""
  · obtain ⟨ok, t', i, hrun, hleft⟩ := @run_writeLogsBatch_healthy rt number entries t
    have hvalid : validText (requestBatchID header) = true := by
      rw [hid]
      rfl
    rw [hid, ApplyBatch, if_pos rfl, Program.run_bind, Program.run_bind, Program.run_bind, hrun]
    cases ok with
    | true =>
      rw [if_pos rfl] at hleft
      have hstorable : ∀ e ∈ entries, e.Storable rt := by
        by_contra hnot
        rw [applyAll_batchStatements_eq_none_iff.mpr hnot] at hleft
        exact absurd hleft (Option.some_ne_none t').symm
      exact ⟨_, t', i, rfl, .inl ⟨rfl, kept_of_applyAll hleft rfl rfl⟩, fun _ => rfl,
        fun hnot => absurd ⟨fun _ => hvalid, hstorable⟩ hnot⟩
    | false =>
      rw [if_neg Bool.false_ne_true] at hleft
      exact ⟨_, t', i, rfl, .inr ⟨rfl, hleft.2⟩, fun h => absurd h.entries hleft.1,
        fun _ _ => rfl⟩
  -- an id that is no text is refused before the closure runs
  by_cases htext : validTexts [requestBatchID header, now.format] = true
  swap
  · rw [Bool.not_eq_true] at htext
    have hinvalid : validText (requestBatchID header) ≠ true := by
      intro hvalid
      rw [validTexts, List.all_cons, hvalid, List.all_cons, validText_format] at htext
      exact absurd htext (by decide)
    obtain ⟨i, hrun⟩ := run_applyBatch_of_invalid hid htext (writeLogsBatch rt number entries) t
    rw [Program.run_bind, Program.run_bind, hrun]
    exact ⟨_, t, i, rfl, .inr ⟨rfl, rfl⟩, fun h => absurd (h.id hne) hinvalid, fun _ _ => rfl⟩
  have hvalid : validText (requestBatchID header) = true := by
    rw [validTexts, List.all_cons, Bool.and_eq_true] at htext
    exact htext.1
  obtain ⟨res, t', i, hrun, hclaimed⟩ := run_applyBatch healthy now hid
    (writeLogsBatch_inTx rt number entries) t
  rw [Program.run_bind, Program.run_bind, hrun]
  rcases res with - | - | -
  · have hnot : ¬ ∀ e ∈ entries, e.Storable rt := by
      rcases hclaimed.healthy (fun _ => rfl) rfl with hfalse | hnone
      · exact absurd (hfalse.symm.trans htext) Bool.false_ne_true
      · exact applyAll_batchStatements_eq_none_iff.mp hnone
    have hleft := (hclaimed.error rfl).trans (leftByError_of_answered (fun _ => rfl) _ _ _)
    exact ⟨_, t', i, rfl, .inr ⟨rfl, hleft⟩, fun h => absurd h.entries hnot, fun _ _ => rfl⟩
  · obtain ⟨hsame, hknown⟩ := hclaimed.repeated rfl
    exact ⟨_, t', i, rfl, .inl ⟨rfl, .inl ⟨⟨hid, hknown⟩, hsame⟩⟩, fun _ => rfl,
      fun _ hnew => absurd ⟨hid, hknown⟩ hnew⟩
  · obtain ⟨-, happly⟩ := hclaimed.applied rfl
    have hstorable : ∀ e ∈ entries, e.Storable rt := by
      by_contra hnot
      rw [applyAll_batchStatements_eq_none_iff.mpr hnot] at happly
      exact absurd happly (Option.some_ne_none t').symm
    exact ⟨_, t', i, rfl, .inl ⟨rfl, kept_of_applyAll happly rfl rfl⟩, fun _ => rfl,
      fun hnot => absurd ⟨fun _ => hvalid, hstorable⟩ hnot⟩

end Statements

end Argus
