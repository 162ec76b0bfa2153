import Argus.Store.Patterns

/-!
# Patterns of long messages

`NormalizeLogMessage` cuts a text after 240 bytes and `RecordLogPatterns` a message after 200. A cut
inside a character leaves bytes that are no text, which the database refuses, and the transaction
fails for the whole batch. `recorded_iff` says for which batches that does not happen.
-/

namespace Argus

open Foundations SortedMap

/-! ### Entries that count -/

/-- The message is not blank. -/
def LogEntry.hasMessage (e : LogEntry) : Bool := trimSpace e.message ≠ ""

/-- The pattern and the container that an entry counts for, where the pattern is a text. -/
def LogEntry.pattern? (rt : Runtime) (e : LogEntry) : Option PatternKey :=
  if e.hasMessage then
    (normalizeLogMessage e.message).map fun norm =>
      toLex (patternKey rt norm, e.labels.get "container")
  else none

/-- How many of the entries count for a key. -/
def occurrences (rt : Runtime) (entries : List LogEntry) (k : PatternKey) : ℕ :=
  entries.countP fun e => decide (e.pattern? rt = some k)

/-- The count of a pattern in the table. -/
def patternCount (table : SortedMap PatternKey PatternRow) (k : PatternKey) : ℕ :=
  ((table.get? k).map PatternRow.count).getD 0

/-- Patterns and samples are texts, the transaction goes through, and every entry with a message is
counted. -/
structure RecordedInFull (rt : Runtime) (table : SortedMap PatternKey PatternRow)
    (entries : List LogEntry) : Prop where
  texts : ∀ e ∈ entries, e.hasMessage = true →
    (normalizeLogMessage e.message).isSome = true ∧ (sampleOf e.message).isSome = true
  counted : ∃ table', recordLogPatterns rt table entries = some table' ∧
    ∀ k, patternCount table' k = patternCount table k + occurrences rt entries k

/-- Of every entry with a message, byte 200 of the message and byte 240 of the normalized text are
ends of characters, container and service are texts for the store, and the counts fit their
column. -/
structure CutsCleanly (rt : Runtime) (table : SortedMap PatternKey PatternRow)
    (entries : List LogEntry) : Prop where
  message : ∀ e ∈ entries, e.hasMessage = true → AtBoundary 200 e.message.toList
  normalized : ∀ e ∈ entries, e.hasMessage = true → AtBoundary 240 (normalizedText e.message)
  labels : ∀ e ∈ entries, e.hasMessage = true →
    validTexts [e.labels.get "container", e.service] = true
  counts : ∀ k, 0 < occurrences rt entries k →
    patternCount table k + occurrences rt entries k < 2 ^ 31

/-! ### Texts -/

theorem validText_iff {s : String} : validText s = true ↔ '\x00' ∉ s.toList := by
  rw [validText, Bool.not_eq_true', List.contains_eq_mem, decide_eq_false_iff_not]

/-- The text of a timestamp has no character of number zero. -/
theorem validText_format (t : Time) : validText t.format = true := by
  have hpad : ∀ w n, '\x00' ∉ pad w n := fun w n h => absurd (mem_pad h).1 (by decide)
  have hfraction : '\x00' ∉ t.fraction := fun h => hpad _ _ ((trimZeros_isPrefix _).subset h)
  rw [validText_iff, Time.format, String.toList_ofList, List.mem_append, not_or]
  refine ⟨?_, ?_⟩
  · simp [Time.secondText, Time.dateText, Time.clockText, hpad]
  · cases hdigits : t.fraction with
    | nil => decide
    | cons d rest =>
      rw [hdigits] at hfraction
      simpa [Time.fractionText] using hfraction

theorem validText_patternKey (rt : Runtime) (norm : String) :
    validText (patternKey rt norm) = true := by
  have hdigit : ∀ n, n < 16 → hexDigit n ≠ '\x00' := by decide
  rw [validText_iff, patternKey, String.toList_ofList, hexText, List.mem_flatMap]
  rintro ⟨b, -, hb⟩
  rcases List.mem_pair.mp hb with h | h
  · exact hdigit _ (Nat.mod_lt _ (by norm_num)) h.symm
  · exact hdigit _ (Nat.mod_lt _ (by norm_num)) h.symm

section Entry

variable {rt : Runtime} {e : LogEntry}

/-- A normalized text has no character of number zero that the message has not. -/
theorem validText_normalize {norm : String} (h : validText e.message = true)
    (hnorm : normalizeLogMessage e.message = some norm) : validText norm = true := by
  rw [normalizeLogMessage_eq, Option.map_eq_some_iff] at hnorm
  obtain ⟨cut, hcut, rfl⟩ := hnorm
  rw [validText_iff, String.toList_ofList]
  intro hmem
  rcases mem_of_mem_normalizedText ((cutBytes_isPrefix hcut).subset hmem) with hmessage | hown
  · exact validText_iff.mp h hmessage
  · exact absurd hown (by decide)

theorem validText_sample {sample : String} (h : validText e.message = true)
    (hsample : sampleOf e.message = some sample) : validText sample = true := by
  obtain ⟨cut, hcut, rfl⟩ := Option.map_eq_some_iff.mp hsample
  rw [validText_iff, String.toList_ofList]
  exact fun hmem => validText_iff.mp h ((cutBytes_isPrefix hcut).subset hmem)

theorem isSome_normalize_iff :
    (normalizeLogMessage e.message).isSome = true ↔ AtBoundary 240 (normalizedText e.message) := by
  rw [normalizeLogMessage_eq, Option.isSome_map, isSome_cutBytes_iff]

theorem isSome_sample_iff :
    (sampleOf e.message).isSome = true ↔ AtBoundary 200 e.message.toList := by
  rw [sampleOf, Option.isSome_map, isSome_cutBytes_iff]

/-- The normalized text of a message that is blank is empty, and of no other message. -/
theorem normalize_eq_empty_iff {norm : String} (h : normalizeLogMessage e.message = some norm) :
    norm = "" ↔ e.hasMessage = false := by
  rw [LogEntry.hasMessage, decide_eq_false_iff_not, not_not]
  rw [normalizeLogMessage_eq, Option.map_eq_some_iff] at h
  obtain ⟨cut, hcut, rfl⟩ := h
  constructor
  · intro hempty
    by_contra hmessage
    have hne := cutBytes_ne_nil (normalizedText_ne_nil hmessage) hcut
    exact hne (by simpa using congrArg String.toList hempty)
  · intro hblank
    rw [normalizedText, if_pos hblank, cutBytes, Option.some.injEq] at hcut
    rw [← hcut]

/-- What the columns take of an entry. -/
theorem patternValid_iff (h : validText e.message = true) : patternValid rt e = true ↔
    (e.hasMessage = true → (normalizeLogMessage e.message).isSome = true ∧
      (sampleOf e.message).isSome = true ∧
        validTexts [e.labels.get "container", e.service] = true) := by
  rw [patternValid]
  cases hnorm : normalizeLogMessage e.message with
  | none =>
    have hmessage : e.hasMessage = true := by
      by_contra hblank
      rw [LogEntry.hasMessage, decide_eq_true_iff, not_not] at hblank
      rw [normalizeLogMessage_eq, normalizedText, if_pos hblank, cutBytes] at hnorm
      exact absurd hnorm (by simp)
    simp [hmessage]
  | some norm =>
    have hempty := normalize_eq_empty_iff hnorm
    cases hmessage : e.hasMessage with
    | false =>
      have hnil : norm = "" := hempty.mpr hmessage
      cases hsample : sampleOf e.message with
      | none => simp [hnil]
      | some sample => simp [hnil]
    | true =>
      have hne : (norm == "") = false :=
        beq_eq_false_iff_ne.mpr fun hnil => absurd (hempty.mp hnil) (by simp [hmessage])
      cases hsample : sampleOf e.message with
      | none => simp [hne]
      | some sample =>
        simp [hne, validTexts, validText_patternKey, validText_normalize h hnorm,
          validText_format, validText_sample h hsample]

/-- An entry with a message counts for the pattern of its normalized text. -/
theorem pattern?_eq {norm : String} (h : normalizeLogMessage e.message = some norm) :
    e.pattern? rt =
      if norm = "" then none else some (toLex (patternKey rt norm, e.labels.get "container")) := by
  have hempty := normalize_eq_empty_iff h
  rw [LogEntry.pattern?, h, Option.map_some]
  cases hmessage : e.hasMessage with
  | false => rw [if_pos (hempty.mpr hmessage), if_neg (by decide)]
  | true =>
    rw [if_neg fun hnil => absurd (hmessage.symm.trans (hempty.mp hnil)) (by decide), if_pos rfl]

/-- The row of a valid entry is one for the pattern that it counts for. -/
theorem rowsFor_patternRows (h : patternValid rt e = true) (k : PatternKey) :
    (rowsFor k (patternRows rt e)).map PatternRow.count =
      if e.pattern? rt = some k then [1] else [] := by
  rw [patternRows]
  split
  · rename_i norm sample hnorm hsample
    rw [pattern?_eq hnorm]
    by_cases hnil : norm = ""
    · rw [dif_pos hnil, if_pos hnil, if_neg (by simp)]
      rfl
    · rw [dif_neg hnil, if_neg hnil, rowsFor_cons]
      by_cases hkey : toLex (patternKey rt norm, e.labels.get "container") = k
      · rw [if_pos hkey, if_pos (congrArg some hkey)]
        rfl
      · rw [if_neg hkey, if_neg (mt Option.some.inj hkey)]
        rfl
  · rename_i hnone
    -- without a sample the entry is valid only if it is blank
    rw [patternValid] at h
    cases hnorm : normalizeLogMessage e.message with
    | none =>
      rw [hnorm] at h
      exact absurd h Bool.false_ne_true
    | some norm =>
      cases hsample : sampleOf e.message with
      | some sample => exact absurd hsample (hnone norm sample hnorm)
      | none =>
        rw [hnorm, hsample] at h
        rw [pattern?_eq hnorm, if_pos (eq_of_beq h), if_neg (by simp)]
        rfl

end Entry

/-! ### Batches -/

section Batch

variable {rt : Runtime} {table : SortedMap PatternKey PatternRow} {entries : List LogEntry}

/-- What the rows of valid entries add to a count. -/
theorem sum_counts (h : ∀ e ∈ entries, patternValid rt e = true) (k : PatternKey) :
    ((rowsFor k (entries.flatMap (patternRows rt))).map PatternRow.count).sum =
      occurrences rt entries k := by
  induction entries with
  | nil => rfl
  | cons e entries ih =>
    obtain ⟨he, hentries⟩ := List.forall_mem_cons.mp h
    rw [List.flatMap_cons, rowsFor_append, List.map_append, List.sum_append, ih hentries,
      rowsFor_patternRows he, occurrences, occurrences, List.countP_cons, Nat.add_comm]
    simp only [decide_eq_true_eq]
    split_ifs <;> rfl

/-- Which keys the rows of valid entries have. -/
theorem exists_row_iff (h : ∀ e ∈ entries, patternValid rt e = true) {k : PatternKey} :
    (∃ r ∈ entries.flatMap (patternRows rt), r.1 = k) ↔ 0 < occurrences rt entries k := by
  have hcount : ∀ r ∈ entries.flatMap (patternRows rt), r.2.count = 1 := by
    intro r hr
    obtain ⟨e, -, hr⟩ := List.mem_flatMap.mp hr
    rw [patternRows] at hr
    split at hr
    · split_ifs at hr
      · exact absurd hr List.not_mem_nil
      · rw [List.mem_singleton.mp hr]
    · exact absurd hr List.not_mem_nil
  have hones : ∀ n ∈ (rowsFor k (entries.flatMap (patternRows rt))).map PatternRow.count,
      n = 1 := by
    intro n hn
    obtain ⟨x, hx, rfl⟩ := List.mem_map.mp hn
    exact hcount _ (mem_rowsFor.mp hx)
  rw [← sum_counts h, List.eq_replicate_of_mem hones, List.sum_replicate, List.length_map,
    nsmul_eq_mul, mul_one, Nat.cast_id, List.length_pos_iff_exists_mem]
  constructor
  · rintro ⟨⟨k, x⟩, hr, rfl⟩
    exact ⟨x, mem_rowsFor.mpr hr⟩
  · rintro ⟨x, hx⟩
    exact ⟨(k, x), mem_rowsFor.mp hx, rfl⟩

/-- When the transaction of a batch goes through, and what it leaves. -/
theorem recordLogPatterns_eq_some {table' : SortedMap PatternKey PatternRow} :
    recordLogPatterns rt table entries = some table' ↔
      (∀ e ∈ entries, patternValid rt e = true) ∧
        table' = table.upsertAll mergePattern (entries.flatMap (patternRows rt)) ∧
          ∀ k, 0 < occurrences rt entries k →
            patternCount table k + occurrences rt entries k < 2 ^ 31 := by
  rw [recordLogPatterns, execAll_eq_some]
  refine and_congr_right fun hvalid => ?_
  have hmono : ∀ a b : PatternRow, validInteger (mergePattern a b).count = true →
      validInteger a.count = true := by
    intro a b h
    have hcount : (mergePattern a b).count = a.count + b.count := rfl
    rw [hcount, validInteger_natCast] at h
    rw [validInteger_natCast]
    omega
  refine (@tryUpsertAll_eq_some PatternKey PatternRow _ (fun r => validInteger r.count)
    mergePattern hmono (entries.flatMap (patternRows rt)) table table').trans ?_
  refine and_congr_right fun _ => ?_
  have hrow : ∀ k, ((table.upsertAll mergePattern (entries.flatMap (patternRows rt))).get? k).all
      (fun r => validInteger r.count) = true ↔
        patternCount table k + occurrences rt entries k < 2 ^ 31 := by
    intro k
    have hcount : patternCount (table.upsertAll mergePattern (entries.flatMap (patternRows rt))) k =
        patternCount table k + occurrences rt entries k := by
      rw [← sum_counts hvalid, patternCount, get?_upsertAll]
      exact patternAccumulator.count_foldl _ _
    rw [← hcount, patternCount]
    cases (table.upsertAll mergePattern (entries.flatMap (patternRows rt))).get? k with
    | none => simp
    | some r =>
      rw [Option.all_some, Option.map_some, Option.getD_some]
      exact validInteger_natCast r.count
  constructor
  · intro h k hk
    obtain ⟨r, hr, rfl⟩ := (exists_row_iff hvalid).mpr hk
    exact (hrow r.1).mp (h r hr)
  · intro h r hr
    exact (hrow r.1).mpr (h r.1 ((exists_row_iff hvalid).mp ⟨r, hr, rfl⟩))

/-- **Key result.** Every entry with a message is counted, and what is written are texts, if and
only if no cut falls inside a character: the rest of the condition is about labels and counts that
no column takes. -/
theorem recorded_iff (hmessages : ∀ e ∈ entries, validText e.message = true) :
    RecordedInFull rt table entries ↔ CutsCleanly rt table entries := by
  have hvalid : (∀ e ∈ entries, patternValid rt e = true) ↔ ∀ e ∈ entries, e.hasMessage = true →
      AtBoundary 240 (normalizedText e.message) ∧ AtBoundary 200 e.message.toList ∧
        validTexts [e.labels.get "container", e.service] = true := by
    refine forall₂_congr fun e he => ?_
    rw [patternValid_iff (hmessages e he), isSome_normalize_iff, isSome_sample_iff]
  constructor
  · rintro ⟨-, table', hrun, -⟩
    obtain ⟨hentries, -, hcounts⟩ := recordLogPatterns_eq_some.mp hrun
    have hclean := hvalid.mp hentries
    exact ⟨fun e he hm => (hclean e he hm).2.1, fun e he hm => (hclean e he hm).1,
      fun e he hm => (hclean e he hm).2.2, hcounts⟩
  · rintro ⟨hmessage, hnormalized, hlabels, hcounts⟩
    have hentries := hvalid.mpr fun e he hm =>
      ⟨hnormalized e he hm, hmessage e he hm, hlabels e he hm⟩
    refine ⟨fun e he hm => ⟨isSome_normalize_iff.mpr (hnormalized e he hm),
      isSome_sample_iff.mpr (hmessage e he hm)⟩, _,
      recordLogPatterns_eq_some.mpr ⟨hentries, rfl, hcounts⟩, fun k => ?_⟩
    rw [← sum_counts hentries, patternCount, get?_upsertAll]
    exact patternAccumulator.count_foldl _ _

end Batch

/-- An entry with a message of a container. -/
def plainEntry (message : String) : LogEntry where
  ts := ⟨63844891200000000000⟩
  message := message
  level := "info"
  entityUID := "docker:h:api"
  labels := ∅
  fields := ∅

/-- A short message is recorded. -/
theorem recorded_short : RecordedInFull asciiRuntime ∅ [plainEntry "started"] := by
  have hsize : (("started".toList).map Char.utf8Size).sum ≤ 200 := by decide
  have hnormalized : ((normalizedText "started").map Char.utf8Size).sum ≤ 240 := by decide +kernel
  refine (recorded_iff (by decide)).mpr ⟨?_, ?_, ?_, fun k _ => ?_⟩
  · exact List.forall_mem_singleton.mpr fun _ => .inl hsize
  · exact List.forall_mem_singleton.mpr fun _ => .inl hnormalized
  · exact List.forall_mem_singleton.mpr fun _ => by decide
  · have hle : occurrences asciiRuntime [plainEntry "started"] k ≤ 1 := List.countP_le_length
    have hempty : patternCount ∅ k = 0 := rfl
    rw [hempty]
    exact lt_of_le_of_lt (by omega) (by norm_num : 1 < 2 ^ 31)

/-- A message whose byte 200 is the first of a character of two. -/
def splitMessage : String := String.ofList (List.replicate 199 'a' ++ ['é'])

theorem toList_splitMessage : splitMessage.toList = List.replicate 199 'a' ++ ['é'] :=
  String.toList_ofList

theorem validText_splitMessage : validText (plainEntry splitMessage).message = true := by
  rw [plainEntry, validText, toList_splitMessage]
  decide +kernel

theorem hasMessage_splitMessage : (plainEntry splitMessage).hasMessage = true := by
  have hvisible : ∀ c ∈ splitMessage.toList, isSpace c = false := by
    rw [toList_splitMessage]
    exact forall_mem_of_all (by decide +kernel)
  have hmem : 'é' ∈ splitMessage.toList := by
    rw [toList_splitMessage]
    exact List.mem_append_right _ (List.mem_singleton_self _)
  have hne : splitMessage ≠ "" := fun hnil => by
    rw [hnil] at hmem
    exact absurd hmem (by decide)
  refine decide_eq_true ?_
  rw [plainEntry, trimSpace_eq_self hvisible]
  exact hne

/-- Such a message is refused, and another one of its batch is not counted either. -/
theorem split_sample_spoils_batch :
    (∀ e ∈ [plainEntry "started", plainEntry splitMessage], validText e.message = true) ∧
      sampleOf splitMessage = none ∧
      recordLogPatterns asciiRuntime ∅ [plainEntry "started", plainEntry splitMessage] = none ∧
        ¬ RecordedInFull asciiRuntime ∅ [plainEntry "started", plainEntry splitMessage] := by
  have hsample : sampleOf splitMessage = none := by
    rw [sampleOf, toList_splitMessage]
    decide +kernel
  have hvalid : ∀ e ∈ [plainEntry "started", plainEntry splitMessage],
      validText e.message = true := by
    refine List.forall_mem_cons.mpr ⟨by decide, List.forall_mem_singleton.mpr ?_⟩
    exact validText_splitMessage
  refine ⟨hvalid, hsample, ?_, fun h => ?_⟩
  · by_contra hne
    obtain ⟨table', hrun⟩ := Option.ne_none_iff_exists'.mp hne
    have hvalid := (recordLogPatterns_eq_some.mp hrun).1 (plainEntry splitMessage) (by simp)
    have htexts := (patternValid_iff validText_splitMessage).mp hvalid hasMessage_splitMessage
    exact absurd (hsample ▸ htexts.2.1) (by decide)
  · obtain ⟨-, htext⟩ := h.texts (plainEntry splitMessage) (by simp) hasMessage_splitMessage
    exact absurd (hsample ▸ htext) (by decide)

end Argus
