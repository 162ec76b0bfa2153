import Argus.Insights.Enrich
import Argus.Store.Logs

/-!
# Searching the logs of a trace

The trace view without spans is built from log lines: `logWhere` selects those in which a pattern
of the id occurs, and package `traces` keeps those whose own id, `traceIDFromEntry`, matches. An
id is compared without dashes and case there, but the patterns are searched as they are. So
`findsTrace_iff`: a line is found under every id that matches its own exactly if its id, in lower
case and without dashes, or the UUID of it, occurs in the row.
-/

namespace Argus

open Foundations

/-! ### The id of an entry -/

/-- `normalizeTrace`. -/
def normalizeTrace (rt : Runtime) (fallback raw : String) : String :=
  if trimSpace raw = "" then fallback else dropDashes (rt.toLower (trimSpace raw))

/-- `log.Fields[k].(string)`, where it is not empty. -/
def textField (fields : Fields) (k : String) : Option String :=
  match fields.get? k with
  | some (.str v) => if v = "" then none else some v
  | _ => none

/-- `traceIDFromEntry`. -/
def traceIDFromEntry (rt : Runtime) (e : LogEntry) : String :=
  match (textField e.fields "trace_id").or (textField e.fields "traceId") with
  | some v => normalizeTrace rt "" v
  | none =>
    let v := (ParseTraceFields rt e.message).traceID
    if v = "" then "" else normalizeTrace rt "" v

/-- `traceIDsMatch`, for an `a` of ASCII characters. -/
def traceIDsMatch (rt : Runtime) (a b : String) : Bool :=
  normalizeTrace rt a a == normalizeTrace rt b b || equalFold (dropDashes b) (dropDashes a)

/-- An entry as `handleLogsBatch` stores it. -/
def LogEntry.enriched (rt : Runtime) (e : LogEntry) : LogEntry :=
  { e with fields := (EnrichLog rt e.message e.level).2 }

/-- The search for a trace leaves out no id that matches: a row that meets the rest of a filter is
selected if the filter asks for an id that matches the one of the entry. -/
def FindsTrace (rt : Runtime) (e : LogEntry) (r : LogRow) : Prop :=
  ∀ filter : LogSearchFilter, traceIDsMatch rt (traceIDFromEntry rt e) filter.traceID = true →
    logWhere rt { filter with traceID := "" } r = true → logWhere rt filter r = true

/-- A text occurs in the message or in the fields. -/
def Shows (r : LogRow) (s : String) : Prop :=
  s.toList <:+: r.fieldsJSON.toList ∨ s.toList <:+: r.message.toList

/-! ### Lower-case hexadecimal ids -/

/-- A text of lower-case hexadecimal digits. -/
def LowerHex (s : String) : Prop := ∀ c ∈ s.toList, isLowerHex c = true

theorem LowerHex.hexDash {s : String} (h : LowerHex s) : HexDash s := fun c hc =>
  hexDashSet_of_hexSet (hexSet_of_isLowerHex (h c hc))

theorem isPlain_of_hexDashSet {c : Char} (h : hexDashSet c = true) : isPlain c = true := by
  rw [isPlain, Bool.and_eq_true, Bool.and_eq_true, bne_iff_ne, bne_iff_ne, bne_iff_ne]
  refine ⟨⟨?_, ?_⟩, ?_⟩ <;>
  · rintro rfl
    exact absurd h (by decide)

/-- What is normalized has lower-case digits only. -/
theorem HexDash.lowerHex {rt : Runtime} (hrt : rt.LowersAscii) {s : String} (h : HexDash s) :
    LowerHex (Argus.dropDashes (rt.toLower s)) := by
  intro c hc
  rw [Argus.dropDashes, Runtime.toLower, String.toList_ofList, String.toList_ofList] at hc
  obtain ⟨hmem, hdash⟩ := List.mem_filter.mp hc
  obtain ⟨d, hd, rfl⟩ := List.mem_map.mp hmem
  refine (hrt.lower (h d hd)).resolve_right fun hlower => ?_
  rw [hlower.1] at hdash
  exact absurd hdash (by decide)

theorem LowerHex.lower_eq {rt : Runtime} (hrt : rt.LowersAscii) {c : Char}
    (h : isLowerHex c = true) : rt.lower c = c := by
  have hlt := toNat_lt_of_isLowerHex h
  rw [hrt c (by omega), lowerChar, if_neg, if_neg, if_neg]
  · rintro rfl
    exact absurd h (by decide)
  · rintro rfl
    exact absurd h (by decide)
  · rintro ⟨hA, hZ⟩
    have hA : 65 ≤ c.toNat := hA
    have hZ : c.toNat ≤ 90 := hZ
    omega

theorem LowerHex.toLower {rt : Runtime} (hrt : rt.LowersAscii) {s : String} (h : LowerHex s) :
    rt.toLower s = s := by
  have hlower : s.toList.map rt.lower = s.toList := by
    conv_rhs => rw [← List.map_id s.toList]
    exact List.map_congr_left fun c hc => LowerHex.lower_eq hrt (h c hc)
  rw [Runtime.toLower, hlower, String.ofList_toList]

theorem LowerHex.dropDashes {s : String} (h : LowerHex s) : dropDashes s = s := by
  have hkept : s.toList.filter (· != '-') = s.toList := List.filter_eq_self.mpr fun c hc => by
    rw [bne_iff_ne]
    rintro rfl
    exact absurd (h _ hc) (by decide)
  rw [Argus.dropDashes, hkept, String.ofList_toList]

/-! ### Ids that match -/

/-- The own id of a stored entry with a trace id: what was found, normalized. -/
theorem traceIDFromEntry_enriched {rt : Runtime} (hrt : rt.LowersAscii) {e : LogEntry} {v : String}
    (hv : (e.enriched rt).fields.get? "trace_id" = some (.str v)) :
    HexDash v ∧ traceIDFromEntry rt (e.enriched rt) = dropDashes (rt.toLower v) := by
  have hfound := (get?_trace_id rt e.message e.level).symm.trans hv
  split_ifs at hfound with hblank
  obtain rfl := Any.str.inj (Option.some.inj hfound)
  have hform := hexDash_traceID hrt e.message
  have hfield : textField (e.enriched rt).fields "trace_id" =
      some (ParseTraceFields rt e.message).traceID := by
    simp only [textField, hv, if_neg hblank]
  refine ⟨hform, ?_⟩
  simp only [traceIDFromEntry, hfield, Option.some_or, normalizeTrace, hform.trimSpace_eq,
    if_neg hblank]

theorem traceIDsMatch_self (rt : Runtime) (a : String) : traceIDsMatch rt a a = true := by
  rw [traceIDsMatch, beq_self_eq_true, Bool.true_or]

/-- A text that folds to an id has the id as its lower case, but for dashes. -/
theorem normalizeTraceID_of_equalFold {rt : Runtime} (hrt : rt.LowersAscii) {a q : String}
    (ha : LowerHex a) (h : equalFold (dropDashes q) a = true) :
    HexDash q ∧ dropDashes (rt.toLower q) = a := by
  have hfold : (q.toList.filter (· != '-')).map foldRune = a.toList.map foldRune := by
    rw [equalFold, beq_iff_eq, dropDashes, String.toList_ofList] at h
    exact h
  have hself : a.toList.map foldRune = a.toList := by
    conv_rhs => rw [← List.map_id a.toList]
    refine List.map_congr_left fun c hc => ?_
    have hhex := ha c hc
    rw [foldRune_eq_lowerChar (hexSet_of_isLowerHex hhex)]
    exact (hrt c (isLowerHex_lowerChar (hexSet_of_isLowerHex hhex)).2).symm.trans
      (LowerHex.lower_eq hrt hhex)
  rw [hself] at hfold
  have hset : ∀ c ∈ q.toList, c ≠ '-' → hexSet c = true := fun c hc hdash =>
    Bool.or_eq_true_iff.mpr (.inr (ha _ (hfold ▸
      List.mem_map_of_mem (List.mem_filter.mpr ⟨hc, bne_iff_ne.mpr hdash⟩))))
  have hq : HexDash q := fun c hc => by
    by_cases hdash : c = '-'
    · rw [hdash]
      decide
    · exact hexDashSet_of_hexSet (hset c hc hdash)
  refine ⟨hq, String.toList_inj.mp ?_⟩
  have hdashes : ∀ c ∈ q.toList, ((· != '-') ∘ rt.lower) c = (c != '-') := by
    intro c hc
    rw [Function.comp_apply]
    rcases hrt.lower (hq c hc) with hlower | ⟨hlower, rfl⟩
    · have hne : rt.lower c ≠ '-' := by
        intro heq
        rw [heq] at hlower
        exact absurd hlower (by decide)
      have hne' : c ≠ '-' := by
        rintro rfl
        exact hne (hrt '-' (by decide))
      rw [bne_iff_ne.mpr hne, bne_iff_ne.mpr hne']
    · rw [hlower]
  rw [dropDashes, Runtime.toLower, String.toList_ofList, String.toList_ofList, List.filter_map,
    List.filter_congr hdashes, ← hfold]
  refine List.map_congr_left fun c hc => ?_
  obtain ⟨hc, hdash⟩ := List.mem_filter.mp hc
  have hhex := hset c hc (bne_iff_ne.mp hdash)
  rw [hrt c (isLowerHex_lowerChar hhex).2, foldRune_eq_lowerChar hhex]

/-- **What matches an id.** A query that matches an id is not blank, and normalizes to it. -/
theorem normalizeTraceID_of_match {rt : Runtime} (hrt : rt.LowersAscii) {a q : String}
    (ha : LowerHex a) (hne : a ≠ "") (h : traceIDsMatch rt a q = true) :
    trimSpace q ≠ "" ∧ normalizeTraceID rt q = a := by
  rw [traceIDsMatch, Bool.or_eq_true, beq_iff_eq] at h
  have hnorm : normalizeTrace rt a a = a := by
    rw [normalizeTrace, ha.hexDash.trimSpace_eq, if_neg hne, ha.toLower hrt, ha.dropDashes]
  rcases h with h | h
  · rw [hnorm, normalizeTrace] at h
    split_ifs at h with hblank
    · rw [← h, ha.hexDash.trimSpace_eq] at hblank
      exact absurd hblank hne
    · exact ⟨hblank, h.symm⟩
  · rw [ha.dropDashes] at h
    obtain ⟨hq, hlower⟩ := normalizeTraceID_of_equalFold hrt ha h
    rw [normalizeTraceID, hq.trimSpace_eq]
    refine ⟨?_, hlower⟩
    rintro rfl
    exact hne (hlower.symm.trans rfl)

/-! ### What the patterns find -/

theorem toNat_of_hexDashSet {c : Char} (h : hexDashSet c = true) : c.toNat < 128 := by
  rcases Bool.or_eq_true_iff.mp h with h | h
  · exact (isLowerHex_lowerChar h).2
  · rw [beq_iff_eq.mp h]
    decide

/-- Pieces of an id are ids. -/
theorem sliceBytes_hexDash {s : String} (h : HexDash s) (i j : ℕ) :
    ∃ piece, sliceBytes i j s.toList = some piece ∧ ∀ c ∈ piece, hexDashSet c = true := by
  have hcut := cutBytes_ascii fun c hc => toNat_of_hexDashSet (h c hc)
  refine ⟨_, by rw [sliceBytes, hcut, hcut]; rfl, fun c hc => ?_⟩
  exact h c (List.mem_of_mem_take (List.mem_of_mem_drop hc))

/-- The UUID of an id is a text, of hexadecimal digits and dashes. -/
theorem exists_formatUUID {s : String} (h : HexDash s) (hne : s ≠ "") :
    ∃ uuid, formatUUID s = some uuid ∧ HexDash uuid ∧ uuid ≠ "" := by
  rw [formatUUID]
  split_ifs
  · exact ⟨s, rfl, h, hne⟩
  · obtain ⟨a, ha, hina⟩ := sliceBytes_hexDash h 0 8
    obtain ⟨b, hb, hinb⟩ := sliceBytes_hexDash h 8 12
    obtain ⟨c, hc, hinc⟩ := sliceBytes_hexDash h 12 16
    obtain ⟨d, hd, hind⟩ := sliceBytes_hexDash h 16 20
    obtain ⟨e, he, hine⟩ := sliceBytes_hexDash h 20 32
    refine ⟨_, by rw [ha, hb, hc, hd, he]; rfl, fun x hx => ?_, fun hblank => ?_⟩
    swap
    · simpa using congrArg String.toList hblank
    rw [String.toList_ofList] at hx
    have hdash : hexDashSet '-' = true := by decide
    simp only [List.mem_append, List.mem_cons] at hx
    rcases hx with hx | rfl | hx | rfl | hx | rfl | hx | rfl | hx
    · exact hina x hx
    · exact hdash
    · exact hinb x hx
    · exact hdash
    · exact hinc x hx
    · exact hdash
    · exact hind x hx
    · exact hdash
    · exact hine x hx

/-- The patterns of a query whose normalized id is given. -/
theorem TraceSearchPatterns_eq {rt : Runtime} {q id uuid : String} (hq : trimSpace q ≠ "")
    (hid : normalizeTraceID rt q = id) (huuid : formatUUID id = some uuid) :
    TraceSearchPatterns rt q = some
      (List.foldl addPattern [] ([trimSpace q, rt.toLower (trimSpace q), id] ++
        if byteLength id = 32 then [uuid, quotedMember "traceId" uuid, quotedMember "traceId" id,
          quotedMember "trace_id" id] else [])) := by
  have hid' : normalizeTraceID rt (trimSpace q) = id := by
    rw [← hid, normalizeTraceID, normalizeTraceID, trimSpace_trimSpace]
  simp only [TraceSearchPatterns, if_neg hq, traceFragments, hid', huuid]
  split_ifs <;> rfl

/-- A row is selected exactly if one of the patterns is found in it. -/
theorem traceWhere_iff {rt : Runtime} {q pat : String} {patterns : List String} {r : LogRow}
    (h : TraceSearchPatterns rt q = some patterns) (hpat : pat ∈ patterns) :
    traceWhere rt q r = true ↔
      ∃ p ∈ patterns, like p r.fieldsJSON = true ∨ like p r.message = true := by
  have hany : traceWhere rt q r =
      patterns.any fun p => like p r.fieldsJSON || like p r.message := by
    rcases patterns with - | ⟨p, patterns⟩
    · exact absurd hpat List.not_mem_nil
    · rw [traceWhere, h]
  rw [hany, List.any_eq_true]
  simp only [Bool.or_eq_true]

/-- A pattern of hexadecimal digits and dashes is found where the text occurs. -/
theorem shows_iff {s : String} (h : HexDash s) (r : LogRow) :
    (like (containing s) r.fieldsJSON = true ∨ like (containing s) r.message = true) ↔
      Shows r s := by
  have hplain : ∀ c ∈ s.toList, isPlain c = true := fun c hc => isPlain_of_hexDashSet (h c hc)
  rw [like_containing hplain, like_containing hplain, Shows]

/-- The pattern of a member is found only where its value occurs. -/
theorem shows_of_quotedMember {key value : String} {r : LogRow}
    (hkey : ∀ c ∈ key.toList, isSpace c = false ∧ c ≠ '\\') (hvalue : HexDash value)
    (h : like (containing (trimSpace (quotedMember key value))) r.fieldsJSON = true ∨
      like (containing (trimSpace (quotedMember key value))) r.message = true) : Shows r value := by
  have htrim : trimSpace (quotedMember key value) = quotedMember key value := by
    refine trimSpace_eq_self fun c hc => ?_
    simp only [quotedMember, String.toList_append, List.mem_append] at hc
    rcases hc with (((hc | hc) | hc) | hc) | hc
    · exact (forall_mem_of_all (by decide) : ∀ c ∈ "\"".toList, isSpace c = false) c hc
    · exact (hkey c hc).1
    · exact (forall_mem_of_all (by decide) : ∀ c ∈ "\":\"".toList, isSpace c = false) c hc
    · exact isSpace_of_hexDashSet (hvalue c hc)
    · exact (forall_mem_of_all (by decide) : ∀ c ∈ "\"".toList, isSpace c = false) c hc
  have hsplit : containing (quotedMember key value) =
      ("%\"" ++ key ++ "\":\"") ++ value ++ "\"%" := by
    refine String.toList_inj.mp ?_
    simp only [containing, quotedMember, String.toList_append, List.append_assoc]
    rfl
  have hescape : ∀ c ∈ ("%\"" ++ key ++ "\":\"").toList, c ≠ '\\' := by
    intro c hc
    rw [String.toList_append, String.toList_append] at hc
    rcases List.mem_append.mp hc with hc | hc
    · rcases List.mem_append.mp hc with hc | hc
      · exact (forall_mem_of_all (by decide) : ∀ c ∈ "%\"".toList, c ≠ '\\') c hc
      · exact (hkey c hc).2
    · exact (forall_mem_of_all (by decide) : ∀ c ∈ "\":\"".toList, c ≠ '\\') c hc
  have hplain : ∀ c ∈ value.toList, isPlain c = true := fun c hc =>
    isPlain_of_hexDashSet (hvalue c hc)
  rw [htrim, hsplit] at h
  exact h.imp (infix_of_like hescape hplain) (infix_of_like hescape hplain)

/-- A row with the id or its UUID is selected by every query that normalizes to the id. -/
theorem traceWhere_of_shows {rt : Runtime} {q id uuid : String} {r : LogRow} (hid : HexDash id)
    (hne : id ≠ "") (hq : trimSpace q ≠ "") (hnorm : normalizeTraceID rt q = id)
    (huuid : formatUUID id = some uuid) (hin : HexDash uuid) (hune : uuid ≠ "")
    (h : Shows r id ∨ Shows r uuid) : traceWhere rt q r = true := by
  have hpatterns := TraceSearchPatterns_eq hq hnorm huuid
  have hmem : ∀ {s : String}, HexDash s → s ≠ "" → ∀ {fragments : List String}, s ∈ fragments →
      containing s ∈ fragments.foldl addPattern [] := by
    intro s hs hblank fragments hs'
    refine mem_foldl_addPattern.mpr (.inr ⟨s, hs', ?_⟩)
    rw [hs.trimSpace_eq]
    exact ⟨hblank, rfl⟩
  have hidmem : containing id ∈ List.foldl addPattern []
      ([trimSpace q, rt.toLower (trimSpace q), id] ++ if byteLength id = 32 then
        [uuid, quotedMember "traceId" uuid, quotedMember "traceId" id, quotedMember "trace_id" id]
      else []) := hmem hid hne (by simp)
  refine (traceWhere_iff hpatterns hidmem).mpr ?_
  rcases h with h | h
  · exact ⟨_, hidmem, (shows_iff hid r).mpr h⟩
  · by_cases hlen : byteLength id = 32
    · exact ⟨containing uuid, hmem hin hune (by simp [hlen]), (shows_iff hin r).mpr h⟩
    · rw [formatUUID, if_pos hlen, Option.some.injEq] at huuid
      exact ⟨_, hidmem, (shows_iff hid r).mpr (huuid ▸ h)⟩

/-- A row that the normalized id selects has the id or its UUID. -/
theorem shows_of_traceWhere {rt : Runtime} (hrt : rt.LowersAscii) {id uuid : String} {r : LogRow}
    (hid : LowerHex id) (hne : id ≠ "") (huuid : formatUUID id = some uuid) (hin : HexDash uuid)
    (h : traceWhere rt id r = true) : Shows r id ∨ Shows r uuid := by
  have hq : trimSpace id = id := hid.hexDash.trimSpace_eq
  have hnorm : normalizeTraceID rt id = id := by
    rw [normalizeTraceID, hq, hid.toLower hrt, hid.dropDashes]
  have hpatterns := TraceSearchPatterns_eq (by rwa [hq]) hnorm huuid
  rw [hq, hid.toLower hrt] at hpatterns
  have hmem : containing id ∈ List.foldl addPattern [] ([id, id, id] ++
      if byteLength id = 32 then [uuid, quotedMember "traceId" uuid, quotedMember "traceId" id,
        quotedMember "trace_id" id] else []) := by
    refine mem_foldl_addPattern.mpr (.inr ⟨id, by simp, ?_⟩)
    rw [hq]
    exact ⟨hne, rfl⟩
  obtain ⟨p, hp, hlike⟩ := (traceWhere_iff hpatterns hmem).mp h
  obtain ⟨f, hf, -, rfl⟩ := (mem_foldl_addPattern.mp hp).resolve_left List.not_mem_nil
  have hkey : ∀ c ∈ "traceId".toList, isSpace c = false ∧ c ≠ '\\' :=
    forall_mem_of_all (by decide)
  have hkey' : ∀ c ∈ "trace_id".toList, isSpace c = false ∧ c ≠ '\\' :=
    forall_mem_of_all (by decide)
  have hcases : f = id ∨ f = uuid ∨ f = quotedMember "traceId" uuid ∨
      f = quotedMember "traceId" id ∨ f = quotedMember "trace_id" id := by
    split_ifs at hf
    · simpa using hf
    · exact .inl (by simpa using hf)
  rcases hcases with rfl | rfl | rfl | rfl | rfl
  · rw [hq] at hlike
    exact .inl ((shows_iff hid.hexDash r).mp hlike)
  · rw [hin.trimSpace_eq] at hlike
    exact .inr ((shows_iff hin r).mp hlike)
  · exact .inr (shows_of_quotedMember hkey hin hlike)
  · exact .inl (shows_of_quotedMember hkey hid.hexDash hlike)
  · exact .inl (shows_of_quotedMember hkey' hid.hexDash hlike)

/-! ### Which entries are found -/

theorem logWhere_traceID (rt : Runtime) (filter : LogSearchFilter) (r : LogRow) :
    logWhere rt filter r = true ↔ logWhere rt { filter with traceID := "" } r = true ∧
      (filter.traceID = "" ∨ traceWhere rt filter.traceID r = true) := by
  have htrace : (filter.traceID == "" || traceWhere rt filter.traceID r) = true ↔
      filter.traceID = "" ∨ traceWhere rt filter.traceID r = true := by
    rw [Bool.or_eq_true, beq_iff_eq]
  have hand : ∀ before trace after : Bool, (before && trace && after) = true ↔
      (before && true && after) = true ∧ trace = true := by decide
  rw [← htrace]
  exact hand _ _ _

/-- The filter that only asks for a trace, from the time of a row on. -/
def traceFilter (r : LogRow) (traceID : String) : LogSearchFilter where
  query := ""
  entityUID := ""
  container := ""
  containers := []
  level := ""
  topic := ""
  traceID := traceID
  since := r.ts
  until_ := ⟨0⟩

theorem logWhere_traceFilter (rt : Runtime) (r : LogRow) :
    logWhere rt (traceFilter r "") r = true := by
  simp [logWhere, traceFilter, inWindow, sinceFilter, untilFilter, Time.isZero]

/-- An entry is not found under an id of more dashes than the row has characters. -/
theorem not_findsTrace_of_blank {rt : Runtime} (hrt : rt.LowersAscii) {e : LogEntry} (r : LogRow)
    (hblank : traceIDFromEntry rt e = "") : ¬ FindsTrace rt e r := by
  intro hfinds
  -- an id of dashes only, longer than the texts of the row
  obtain ⟨n, hn⟩ : ∃ n, n = r.fieldsJSON.toList.length + r.message.toList.length + 1 := ⟨_, rfl⟩
  obtain ⟨q, hchars⟩ : ∃ q : String, q.toList = List.replicate n '-' :=
    ⟨String.ofList (List.replicate n '-'), String.toList_ofList⟩
  have hdash : HexDash q := fun c hc => by
    rw [hchars] at hc
    rw [List.eq_of_mem_replicate hc]
    decide
  have hqne : q ≠ "" := by
    intro h
    have hnil : q.toList = [] := by rw [h]; rfl
    rw [hchars] at hnil
    exact absurd hnil (by simp [hn])
  have hlower : rt.toLower q = q := by
    refine String.toList_inj.mp ?_
    rw [Runtime.toLower, String.toList_ofList, hchars, List.map_replicate, hrt '-' (by decide)]
    rfl
  have hnone : dropDashes q = "" := by
    rw [dropDashes, hchars, List.filter_replicate]
    rfl
  have hmatch : traceIDsMatch rt (traceIDFromEntry rt e) q = true := by
    have hblank' : normalizeTrace rt "" "" = "" := rfl
    rw [traceIDsMatch, hblank, hblank', normalizeTrace, hdash.trimSpace_eq, if_neg hqne, hlower,
      hnone]
    rfl
  have hselected := (logWhere_traceID rt (traceFilter r q) r).mp
    (hfinds (traceFilter r q) hmatch (logWhere_traceFilter rt r))
  have hwhere : traceWhere rt q r = true := hselected.2.resolve_left hqne
  -- without its dashes nothing is left of it, so that the id itself is the only pattern
  have hnorm : normalizeTraceID rt q = "" := by
    rw [normalizeTraceID, hdash.trimSpace_eq, hlower, hnone]
  have huuid : formatUUID "" = some "" := rfl
  have hpatterns := TraceSearchPatterns_eq (by rwa [hdash.trimSpace_eq]) hnorm huuid
  rw [hdash.trimSpace_eq, hlower] at hpatterns
  have hmem : containing q ∈ List.foldl addPattern [] ([q, q, ""] ++
      if byteLength "" = 32 then ["", quotedMember "traceId" "", quotedMember "traceId" "",
        quotedMember "trace_id" ""] else []) := by
    refine mem_foldl_addPattern.mpr (.inr ⟨q, by simp, ?_⟩)
    rw [hdash.trimSpace_eq]
    exact ⟨hqne, rfl⟩
  obtain ⟨p, hp, hlike⟩ := (traceWhere_iff hpatterns hmem).mp hwhere
  obtain ⟨f, hf, hfne, rfl⟩ := (mem_foldl_addPattern.mp hp).resolve_left List.not_mem_nil
  have hfq : f = q := by
    have hlen : byteLength "" ≠ 32 := by decide
    rw [if_neg hlen] at hf
    simp only [List.append_nil, List.mem_cons, List.not_mem_nil, or_false] at hf
    rcases hf with h | h | h
    · exact h
    · exact h
    · exact absurd (by rw [h]; rfl) hfne
  rw [hfq, hdash.trimSpace_eq] at hlike
  -- what shows the id is at least as long
  have hlength : q.toList.length = n := by rw [hchars, List.length_replicate]
  rcases (shows_iff hdash r).mp hlike with h | h <;>
  · have := h.length_le
    omega

/-- A row is selected under every id that matches the one of an entry exactly if this id is not
blank and the row has it or the UUID of it. -/
theorem findsTrace_row_iff {rt : Runtime} (hrt : rt.LowersAscii) {e : LogEntry} (r : LogRow)
    (hid : LowerHex (traceIDFromEntry rt e)) :
    FindsTrace rt e r ↔ traceIDFromEntry rt e ≠ "" ∧
      ∃ s, (s = traceIDFromEntry rt e ∨ formatUUID (traceIDFromEntry rt e) = some s) ∧
        Shows r s := by
  constructor
  · intro hfinds
    have hne : traceIDFromEntry rt e ≠ "" := fun hblank =>
      not_findsTrace_of_blank hrt r hblank hfinds
    obtain ⟨uuid, huuid, hin, -⟩ := exists_formatUUID hid.hexDash hne
    have hselected := (logWhere_traceID rt (traceFilter r (traceIDFromEntry rt e)) r).mp
      (hfinds _ (traceIDsMatch_self rt _) (logWhere_traceFilter rt r))
    refine ⟨hne, ?_⟩
    rcases shows_of_traceWhere hrt hid hne huuid hin (hselected.2.resolve_left hne) with h | h
    · exact ⟨_, .inl rfl, h⟩
    · exact ⟨uuid, .inr huuid, h⟩
  · rintro ⟨hne, s, hs, hshows⟩ filter hmatch hrest
    obtain ⟨hq, hnorm⟩ := normalizeTraceID_of_match hrt hid hne hmatch
    obtain ⟨uuid, huuid, hin, hune⟩ := exists_formatUUID hid.hexDash hne
    refine (logWhere_traceID rt filter r).mpr ⟨hrest, .inr ?_⟩
    refine traceWhere_of_shows hid.hexDash hne hq hnorm huuid hin hune ?_
    rcases hs with rfl | hs
    · exact .inl hshows
    · rw [huuid, Option.some.injEq] at hs
      exact .inr (hs ▸ hshows)

/-- **When the id finds the entry.** A stored entry with a trace id is selected under every id that
matches its own exactly if its own id is not blank and the id, in lower case and without dashes, or
the UUID of it occurs in the message or in the text of the fields. -/
theorem findsTrace_iff {rt : Runtime} (hrt : rt.LowersAscii) {number : ℚ → Number} {e : LogEntry}
    {r : LogRow} {v : String} (hrow : (e.enriched rt).row number = some r)
    (hv : (e.enriched rt).fields.get? "trace_id" = some (.str v)) :
    FindsTrace rt (e.enriched rt) r ↔ traceIDFromEntry rt (e.enriched rt) ≠ "" ∧
      ∃ s, (s = traceIDFromEntry rt (e.enriched rt) ∨
          formatUUID (traceIDFromEntry rt (e.enriched rt)) = some s) ∧
        (s.toList <:+: r.fieldsJSON.toList ∨ s.toList <:+: e.message.toList) := by
  obtain ⟨hform, hown⟩ := traceIDFromEntry_enriched hrt hv
  have hid : LowerHex (traceIDFromEntry rt (e.enriched rt)) := hown ▸ hform.lowerHex hrt
  have hmessage : r.message = e.message := by
    obtain ⟨fieldsJSON, -, rfl⟩ := Option.map_eq_some_iff.mp hrow
    rfl
  rw [findsTrace_row_iff hrt r hid]
  simp only [Shows, hmessage]

/-- An entry with the id of a request, which becomes its trace id. -/
def requestEntry (id : String) : LogEntry where
  ts := ⟨1⟩
  message := "request_id=" ++ id
  level := "info"
  entityUID := "docker:h:api"
  labels := ∅
  fields := ∅

/-- The row of `requestEntry`. -/
def requestRow (id : String) : LogRow where
  ts := ⟨1⟩
  message := "request_id=" ++ id
  level := "info"
  entityUID := "docker:h:api"
  labelsJSON := "\x7b\x7d"
  fieldsJSON := "\x7b\"request_id\":\"" ++ id ++
    "\",\"topics\":[\"general\",\"trace\"],\"trace_id\":\"" ++ id ++ "\"\x7d"

/-- The id that is found is the one among the fields. -/
theorem get?_enriched {rt : Runtime} {e : LogEntry} {id : String}
    (h : (ParseTraceFields rt e.message).traceID = id) (hne : id ≠ "") :
    (e.enriched rt).fields.get? "trace_id" = some (.str id) := by
  have hfield := get?_trace_id rt e.message e.level
  rwa [h, if_neg hne] at hfield

/-- What `insertLogs` makes of `requestEntry`. -/
theorem row_requestEntry {id : String}
    (hfields : Fields.marshal (fun _ => Number.ofDigit 0)
      ((requestEntry id).enriched asciiRuntime).fields = some (requestRow id).fieldsJSON) :
    ((requestEntry id).enriched asciiRuntime).row (fun _ => Number.ofDigit 0) =
      some (requestRow id) := by
  have hlabels : Labels.marshal ∅ = "\x7b\x7d" := by decide
  rw [LogEntry.row, hfields, Option.map_some]
  exact congrArg some (congrArg (LogRow.mk ⟨1⟩ ("request_id=" ++ id) "info" "docker:h:api" ·
    (requestRow id).fieldsJSON) hlabels)

/-- An id without dashes is found. -/
theorem findsTrace_plain : FindsTrace asciiRuntime
    ((requestEntry "ab12cd34").enriched asciiRuntime) (requestRow "ab12cd34") := by
  have hrow := @row_requestEntry "ab12cd34" (by decide +kernel)
  have hv := @get?_enriched asciiRuntime (requestEntry "ab12cd34") "ab12cd34" (by decide +kernel)
    (by decide)
  have hown : traceIDFromEntry asciiRuntime ((requestEntry "ab12cd34").enriched asciiRuntime) =
      "ab12cd34" := by
    rw [(traceIDFromEntry_enriched (fun _ _ => rfl) hv).2]
    decide
  refine (findsTrace_iff (fun _ _ => rfl) hrow hv).mpr ⟨?_, "ab12cd34", .inl hown.symm, ?_⟩
  · rw [hown]
    decide
  · exact .inr (by decide +kernel)

/-- The entry with the id `ab12-cd34` is not found under `ab12cd34`, although the two match. -/
theorem dashed_id_missed :
    ¬ ∀ (rt : Runtime) (number : ℚ → Number) (e : LogEntry) (r : LogRow) (v : String),
      rt.LowersAscii → (e.enriched rt).row number = some r →
        (e.enriched rt).fields.get? "trace_id" = some (.str v) →
          FindsTrace rt (e.enriched rt) r := by
  intro h
  have hrow := @row_requestEntry "ab12-cd34" (by decide +kernel)
  have hv := @get?_enriched asciiRuntime (requestEntry "ab12-cd34") "ab12-cd34" (by decide +kernel)
    (by decide)
  have hown : traceIDFromEntry asciiRuntime ((requestEntry "ab12-cd34").enriched asciiRuntime) =
      "ab12cd34" := by
    rw [(traceIDFromEntry_enriched (fun _ _ => rfl) hv).2]
    decide
  have hid : LowerHex (traceIDFromEntry asciiRuntime
      ((requestEntry "ab12-cd34").enriched asciiRuntime)) := by
    rw [hown]
    exact forall_mem_of_all (by decide)
  have hfinds := h asciiRuntime _ _ _ _ (fun _ _ => rfl) hrow hv
  obtain ⟨-, s, hs, hshows⟩ :=
    (findsTrace_row_iff (fun _ _ => rfl) (requestRow "ab12-cd34") hid).mp hfinds
  rw [hown] at hs
  have hs : s = "ab12cd34" := hs.elim id fun hs => (Option.some.inj hs).symm
  subst hs
  have hmissing : ¬ ("ab12cd34".toList <:+: (requestRow "ab12-cd34").fieldsJSON.toList ∨
      "ab12cd34".toList <:+: (requestRow "ab12-cd34").message.toList) := by decide +kernel
  exact hmissing hshows

end Argus
