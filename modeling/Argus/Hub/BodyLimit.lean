import Argus.Agent.LogSends
import Argus.Foundations.JsonSizes
import Argus.Hub.LogsIngest

/-!
# The size of a batch of logs

The agent reads at most `bodyLimit` bytes of the log of each container and sends what it keeps of
all containers in one request. The hub reads at most `maxBodyBytes` bytes of a request and answers
400 to a longer one, which the agent does not retry. `smallEnough_iff` adds up what the lines that
are kept need as JSON: a batch is small enough exactly when the sum is.
-/

namespace Argus

open Foundations

/-! ### What is posted -/

/-- The batch of `SendLogs`. -/
def logsBatch (id : String) (entries : List LogEntry) : Batch :=
  ⟨"/api/v1/logs/batch", id, .arr (entries.map collectedJson)⟩

theorem sendLogs_eq {entries : List LogEntry} (h : entries ≠ []) (fuel : ℕ) (spool : Option ℕ)
    (id : String) :
    sendLogs fuel spool id entries = sendBatch fuel spool (logsBatch id entries) := by
  rw [sendLogs, if_neg (by rwa [List.isEmpty_iff]), logsBatch]

/-- The texts that `json.Marshal` may write where a text has `invalid` of its U+FFFD from bytes that
are not part of a character: those are escaped. -/
inductive Spells : ℕ → List Char → List Char → Prop
  | nil : Spells 0 [] []
  | same (c : Char) {invalid : ℕ} {cs text : List Char} (h : Spells invalid cs text) :
      Spells invalid (c :: cs) (c :: text)
  | escaped {invalid : ℕ} {cs text : List Char} (h : Spells invalid cs text) :
      Spells (invalid + 1) ('\uFFFD' :: cs) ('\\' :: 'u' :: hexFour 0xFFFD ++ text)

theorem Spells.refl (cs : List Char) : Spells 0 cs cs := by
  induction cs with
  | nil => exact .nil
  | cons c cs ih => exact .same c ih

theorem Spells.textBytes_eq {invalid : ℕ} {cs text : List Char} (h : Spells invalid cs text) :
    textBytes text = textBytes cs + 3 * invalid := by
  induction h with
  | nil => rfl
  | same c h ih => rw [textBytes_cons, ih, textBytes_cons, Nat.add_assoc]
  | escaped h ih =>
    have hescape : textBytes ('\\' :: 'u' :: hexFour 0xFFFD) = 6 := by decide
    have hchar : ('\uFFFD' : Char).utf8Size = 3 := by decide
    rw [textBytes_append, hescape, ih, textBytes_cons, hchar]
    omega

/-- A body that is posted for a batch: the text of `json.Marshal`. -/
def Batch.Writes (b : Batch) (invalid : ℕ) (body : List Char) : Prop :=
  Spells invalid (b.body.render goEscape) body

/-! ### What is answered -/

/-- `MaxBodyBytes` of `NewServer`. -/
def maxBodyBytes (configured : ℤ) : ℕ := if configured ≤ 0 then 8 <<< 20 else configured.toNat

/-- What the decoder gets from `http.MaxBytesReader`. A longer body ends in an error before the
bracket that closes it. -/
def readLimited (limit : ℕ) (body : List Char) : Option (List Char) :=
  if textBytes body ≤ limit then some body else none

/-- `ingest` around `handleLogsBatch`, for a request that has got a slot. -/
def ingestLogsBatch (rt : Runtime) (number : ℚ → Number) (now : Time) (header : String)
    (decode : List Char → Option (List LogEntry)) (configured : ℤ) (body : List Char) :
    StoreM (Except HttpError (List LogEntry)) :=
  handleLogsBatch rt number now header ((readLimited (maxBodyBytes configured) body).bind decode)

/-- The agent gives up a batch that is answered with this status. -/
def permanent (status : ℕ) : Bool := decide (300 ≤ status) && !retryable (some (.status status))

/-- A body is small enough for a hub: it is within the limit, and a decoder that can read it finds
it whole, so that no answer of the hub makes the agent give the batch up. -/
structure SmallEnough (rt : Runtime) (number : ℚ → Number) (now : Time) (header : String)
    (configured : ℤ) (body : List Char) : Prop where
  fits : textBytes body ≤ maxBodyBytes configured
  taken : ∀ (decode : List Char → Option (List LogEntry)) (fate : ℕ → Fate) (t : IngestTables),
    (decode body).isSome → permanent (answerStatus ((ingestLogsBatch rt number now header decode
      configured body).run (txAnswer IngestTables.apply fate) ⟨t, none, 0⟩).1) = false

/-- What can be decoded is taken, or fails in the store: the agent does not give it up. -/
theorem not_permanent_handleLogsBatch (rt : Runtime) (number : ℚ → Number) (now : Time)
    (header : String) (entries : List LogEntry) (fate : ℕ → Fate)
    (s : TxSession IngestTables) :
    permanent (answerStatus ((handleLogsBatch rt number now header (some entries)).run
      (txAnswer IngestTables.apply fate) s).1) = false := by
  cases entries with
  | nil => rfl
  | cons e entries =>
    rw [handleLogsBatch.eq_3 _ _ _ _ _ (List.cons_ne_nil e entries), applyIngest,
      Program.run_bind, Program.run_bind]
    rcases ((ApplyBatch now (requestBatchID header) (writeLogsBatch rt number
      (e :: entries))).run (txAnswer IngestTables.apply fate) s).1 with - | applied
    · rfl
    · rfl

section

variable {rt : Runtime} {number : ℚ → Number} {now : Time} {header : String} {configured : ℤ}
  {body : List Char}

/-- The limit decides. -/
theorem smallEnough_iff_fits : SmallEnough rt number now header configured body ↔
    textBytes body ≤ maxBodyBytes configured := by
  refine ⟨SmallEnough.fits, fun hfits => ⟨hfits, fun decode fate t hdecode => ?_⟩⟩
  obtain ⟨entries, hentries⟩ := Option.isSome_iff_exists.mp hdecode
  rw [ingestLogsBatch, readLimited, if_pos hfits, Option.bind_some, hentries]
  exact not_permanent_handleLogsBatch rt number now header entries fate _

/-- A body over the limit is answered 400, whatever is in it. -/
theorem ingestLogsBatch_of_lt (h : maxBodyBytes configured < textBytes body)
    (decode : List Char → Option (List LogEntry)) :
    ingestLogsBatch rt number now header decode configured body =
      pure (.error ⟨400, "invalid json"⟩) := by
  rw [ingestLogsBatch, readLimited, if_neg (Nat.not_le.mpr h)]
  rfl

end

/-- **Dropped.** A batch that is answered 400 is neither sent again nor stored. -/
theorem lost_of_badRequest (spool : Option ℕ) (clock : Time) (id : String)
    (sources : List LogSource) {entries : List LogEntry} (hne : entries ≠ []) (s : LogState) :
    ∃ s', (sendLogs 2 spool id entries).replay
        (scripted none (fun _ => some (.status 400)) clock) ⟨.empty, []⟩ =
          some (some (.status 400), s') ∧
      SentLogs.Lost ⟨id, sources, entries, some (.status 400), ⟨.empty, []⟩, s', s⟩ := by
  refine ⟨⟨.empty, [.posted .caller id, .answered .caller (logsBatch id entries)
    (some (.status 400))]⟩, ?_, Option.some_ne_none _, fun c h => ?_, List.not_mem_nil⟩
  · rw [sendLogs_eq hne]
    cases spool with
    | none => rfl
    | some maxBytes => rfl
  · simp at h

/-! ### How much is posted -/

/-- The bytes of a character in a string of JSON. -/
def charBytes (c : Char) : ℕ :=
  if (goShortEscape c).isSome then 2 else if isControl c || goLongEscape c then 6 else c.utf8Size

theorem utf8Size_hexDigit (n : ℕ) : (hexDigit (n % 16)).utf8Size = 1 := by
  have hdigit : ∀ m < 16, (hexDigit m).utf8Size = 1 := by decide
  exact hdigit _ (Nat.mod_lt n (by decide))

/-- A short escape is a letter or a mark. -/
theorem utf8Size_of_goShortEscape {c e : Char} (h : goShortEscape c = some e) :
    e.utf8Size = 1 := by
  rw [goShortEscape] at h
  split_ifs at h with h₁
  · obtain rfl : c = e := Option.some.inj h
    rcases h₁ with rfl | rfl
    · rfl
    · rfl
  all_goals
    obtain rfl := Option.some.inj h
    rfl

theorem cost_goEscape : goEscape.cost = charBytes := by
  funext c
  rw [charBytes]
  rcases h : goShortEscape c with - | e
  · have hwrite : goEscape.write c =
        if isControl c || goLongEscape c then '\\' :: 'u' :: hexFour c.toNat else [c] := by
      simp only [goEscape, Escape.of, h]
    rw [Escape.cost, hwrite, Option.isSome_none, if_neg Bool.false_ne_true]
    split_ifs
    · simp only [hexFour, textBytes_cons, textBytes_nil, utf8Size_hexDigit]
      rfl
    · rw [textBytes_cons, textBytes_nil, Nat.add_zero]
  · have hwrite : goEscape.write c = ['\\', e] := by simp only [goEscape, Escape.of, h]
    have hslash : ('\\' : Char).utf8Size = 1 := rfl
    have he : e.utf8Size = 1 := utf8Size_of_goShortEscape h
    rw [Escape.cost, hwrite, textBytes_cons, textBytes_cons, textBytes_nil, hslash, he,
      Option.isSome_some, if_pos rfl]

/-- The bytes of a text in JSON, without the quotation marks. -/
def stringBytes (s : String) : ℕ := (s.toList.map charBytes).sum

theorem quoteSize_goEscape (s : String) : goEscape.quoteSize s = stringBytes s + 2 := by
  rw [Escape.quoteSize, cost_goEscape, stringBytes]

/-- The bytes of the labels of a container in JSON. -/
def labelBytes (labels : Labels) : ℕ :=
  (labels.entries.map fun e => stringBytes e.1 + stringBytes e.2 + 6).sum + 1

/-- The bytes that a line which is kept needs in the body. -/
def lineBytes (rt : Runtime) (hostID : String) (ctr : ContainerInfo) (line : ParsedLine) : ℕ :=
  60 + stringBytes line.ts.format + stringBytes (stripANSI line.message) +
    stringBytes (inferLogLevel rt (stripANSI line.message)) +
    stringBytes (entityUID hostID ctr.name) + labelBytes (entityLabels hostID ctr.name ctr.labels)

theorem size_toJson {labels : Labels} (h : labels.entries ≠ []) :
    labels.toJson.size goEscape = labelBytes labels := by
  rw [Labels.toJson, Json.size_obj (by simpa using h), List.map_map, labelBytes]
  refine congrArg (fun l => List.sum l + 1) (List.map_congr_left fun e _ => ?_)
  rw [Function.comp_apply, Json.size, quoteSize_goEscape, quoteSize_goEscape]
  dsimp only
  omega

/-- An entry, with the comma or the bracket before it. -/
theorem size_collectedJson (rt : Runtime) (hostID : String) (ctr : ContainerInfo)
    (line : ParsedLine) :
    1 + (collectedJson (logEntry rt hostID ctr line)).size goEscape =
      lineBytes rt hostID ctr line := by
  have hlabels : (entityLabels hostID ctr.name ctr.labels).entries ≠ [] := by
    have hmem := SortedMap.mem_entries.mpr
      (get?_container_entityLabels hostID ctr.name ctr.labels)
    exact List.ne_nil_of_mem hmem
  have hts : stringBytes "ts" = 2 := by decide
  have hmessage : stringBytes "message" = 7 := by decide
  have hlevel : stringBytes "level" = 5 := by decide
  have huid : stringBytes "entity_uid" = 10 := by decide
  have hkey : stringBytes "labels" = 6 := by decide
  rw [collectedJson, Json.size_obj (List.cons_ne_nil _ _)]
  simp only [List.map_cons, List.map_nil, List.sum_cons, List.sum_nil, Json.size,
    quoteSize_goEscape, hts, hmessage, hlevel, huid, hkey, lineBytes]
  have hsize : (logEntry rt hostID ctr line).labels.toJson.size goEscape =
      labelBytes (entityLabels hostID ctr.name ctr.labels) := size_toJson hlabels
  rw [hsize]
  simp only [logEntry, entityFor]
  omega

section

variable {rt : Runtime} {hostID : String} {sources : List LogSource} {s s' : LogState}
  {entries : List LogEntry} {id : String} {invalid : ℕ} {body : List Char}

/-- **The size of a body.** What the lines that are kept need, and a bracket. -/
theorem textBytes_body (hcollect : collectLogs rt hostID s sources = some (entries, s'))
    (hne : entries ≠ []) (hbody : (logsBatch id entries).Writes invalid body) :
    textBytes body = ((keptLines s.get? sources).map fun p => lineBytes rt hostID p.1 p.2).sum + 1 +
      3 * invalid := by
  have hrender : (logsBatch id entries).body = .arr (entries.map collectedJson) := rfl
  rw [Spells.textBytes_eq hbody, Json.textBytes_render, hrender,
    Json.size_arr (by simpa using hne), collectLogs_eq hcollect, List.map_map, List.map_map]
  refine congrArg (fun l => List.sum l + 1 + 3 * invalid) (List.map_congr_left fun p _ => ?_)
  exact size_collectedJson rt hostID p.1 p.2

/-- **Key result.** The batch of what is collected is small enough for a hub with the default limit
if and only if the lines that are kept need at most 8388608 bytes, with the bracket at the end and
three more bytes for each byte that is not part of a character. -/
theorem smallEnough_iff (number : ℚ → Number) (now : Time) (header : String)
    (hcollect : collectLogs rt hostID s sources = some (entries, s'))
    (hne : entries ≠ []) (hbody : (logsBatch id entries).Writes invalid body) :
    SmallEnough rt number now header 0 body ↔
      ((keptLines s.get? sources).map fun p => lineBytes rt hostID p.1 p.2).sum + 1 +
        3 * invalid ≤ 8388608 := by
  rw [smallEnough_iff_fits, textBytes_body hcollect hne hbody]
  rfl

end

/-- The batch of one short line is small enough. -/
theorem oneLine_smallEnough : ∃ s', collectLogs asciiRuntime "h" ∅ [oneSource] =
      some ([oneEntry], s') ∧
    SmallEnough asciiRuntime (fun _ => Number.ofDigit 0) ⟨0⟩ "b1" 0
      ((logsBatch "b1" [oneEntry]).body.render goEscape) := by
  obtain ⟨s', hcollect⟩ := collectLogs_oneSource
  have hwrites : (logsBatch "b1" [oneEntry]).Writes 0
      ((logsBatch "b1" [oneEntry]).body.render goEscape) := Spells.refl _
  refine ⟨s', hcollect, (smallEnough_iff (fun _ => Number.ofDigit 0) ⟨0⟩ "b1" hcollect
    (List.cons_ne_nil _ _) hwrites).mpr ?_⟩
  have hsize := textBytes_body hcollect (List.cons_ne_nil _ _) hwrites
  rw [Json.textBytes_render] at hsize
  rw [← hsize]
  decide +kernel

/-! ### Many containers -/

/-- A frame is not cut. -/
theorem demux_frame (r : LogRecord) :
    demuxDockerLogs (r.frame.take bodyLimit) = some [r.parsed] := by
  have hlength : r.frame.length ≤ bodyLimit := by
    have hline := r.line_lt
    have hscan : scanLimit = 262144 := rfl
    have hlimit : bodyLimit = 524288 := rfl
    rw [r.length_frame]
    omega
  have hframes := demuxDockerLogs_flatMap [r]
  rwa [List.flatMap_singleton, List.map_singleton, ← List.take_of_length_le hlength] at hframes

/-- One line of visible text is read as it is. -/
theorem coalesceLogLines_single (clock : ℕ → Time) {line : ParsedLine}
    (hvisible : ∀ c ∈ line.message.toList, isSpace c = false) (hne : line.message ≠ "")
    (hts : line.ts.isZero = false) : coalesceLogLines clock [line] = [line] := by
  have htrim : trimSpace line.message = line.message := trimSpace_eq_self hvisible
  have hcr : trimRightCR line.message = line.message := by
    have hkeep : line.message.toList.rdropWhile (· == '\r') = line.message.toList := by
      rw [List.rdropWhile_eq_self_iff]
      intro hl hlast
      have hspace := hvisible _ (List.getLast_mem hl)
      rw [beq_iff_eq.mp hlast] at hspace
      exact absurd hspace (by decide)
    rw [trimRightCR, hkeep, String.ofList_toList]
  have hblocks : logBlocks [line] = [[line]] := by
    rw [logBlocks, nonBlankLines_cons, hcr, htrim, if_neg hne]
    rfl
  have hentry : blockEntry (clock 0) [line] =
      ⟨if line.ts.isZero then clock 0 else line.ts, trimSpace (joinLines [line])⟩ := rfl
  rw [coalesceLogLines_eq, hblocks, blockEntries, blockEntries, hentry, hts, joinLines_singleton,
    htrim]
  rfl

/-- Where there is no escape character, nothing is taken out. -/
theorem stripANSI_of_notMem {s : String} (h : '\x1b' ∉ s.toList) : stripANSI s = s := by
  have hescape : '\x1b' ∈ "\x1b".toList := by decide
  have hnone : ¬ contains s "\x1b" = true := fun hcontains =>
    h ((infix_of_contains hcontains).subset hescape)
  rw [stripANSI, if_neg hnone]

/-- Of containers with different names, each with one line, all lines are kept. -/
theorem keptLines_single {seen : String → Option Time} {sources : List LogSource}
    {line : LogSource → ParsedLine} (hlines : ∀ source ∈ sources, source.lines = [line source])
    (hnames : (sources.map fun source => source.ctr.name).Nodup)
    (hseen : ∀ source ∈ sources, seen source.ctr.name = none) :
    keptLines seen sources = sources.map fun source => (source.ctr, line source) := by
  induction sources generalizing seen with
  | nil => rfl
  | cons source sources ih =>
    obtain ⟨hline, hlines⟩ := List.forall_mem_cons.mp hlines
    obtain ⟨hnew, hseen⟩ := List.forall_mem_cons.mp hseen
    rw [List.map_cons, List.nodup_cons] at hnames
    have hother : ∀ other ∈ sources, Function.update seen source.ctr.name
        (some (line source).ts) other.ctr.name = none := by
      intro other hmem
      have hne : other.ctr.name ≠ source.ctr.name := fun heq =>
        hnames.1 (List.mem_map.mpr ⟨other, hmem, heq⟩)
      rw [Function.update_of_ne hne]
      exact hseen other hmem
    rw [keptLines, hline, hnew, List.map_cons, ← ih hlines hnames.2 hother]
    rfl

/-- The text of a line that is all markup. -/
def markup : List Char := List.replicate 16000 '<'

theorem markup_visible : ∀ c ∈ markup, c = '<' := fun _ hc => List.eq_of_mem_replicate hc

/-- A line of 16000 characters that are escaped. -/
def markupRecord : LogRecord :=
  LogRecord.ofText (stampAt false) (by decide +kernel) markup
    (fun c hc => by rw [markup_visible c hc]; decide)
    (fun h => absurd (markup_visible _ h) (by decide))
    (trimSpace_eq_self fun c hc => by
      rw [String.toList_ofList] at hc
      rw [markup_visible c hc]
      decide)
    (List.ne_nil_of_length_eq_add_one (n := 15999) List.length_replicate)
    (by rw [markup, List.length_replicate]; decide)

/-- What is read of the line. -/
def markupLine : ParsedLine := ⟨(stampAt false).time, String.ofList markup⟩

/-- A container with the line. -/
def markupSource (n : ℕ) : LogSource where
  ctr := ⟨String.ofList (List.replicate (n + 1) 'c'), ∅, "running", ""⟩
  body := some markupRecord.frame
  clock _ := ⟨0⟩

/-- 88 containers. -/
def markupSources : List LogSource := (List.range 88).map markupSource

theorem parsed_markupRecord : markupRecord.parsed = markupLine :=
  congrArg (ParsedLine.mk _) (goString_asciiBytes fun c hc => by
    rw [markup_visible c hc]
    decide)

theorem lines_markupSource (n : ℕ) : (markupSource n).lines = [markupLine] := by
  have hbody : demuxDockerLogs (markupRecord.frame.take bodyLimit) = some [markupLine] := by
    rw [demux_frame, parsed_markupRecord]
  have hvisible : ∀ c ∈ markupLine.message.toList, isSpace c = false := by
    intro c hc
    rw [markupLine, String.toList_ofList] at hc
    rw [markup_visible c hc]
    decide
  have hne : markupLine.message ≠ "" := by
    rw [markupLine, ne_eq, String.ofList_eq_empty_iff]
    exact List.ne_nil_of_length_eq_add_one (n := 15999) List.length_replicate
  rw [LogSource.lines, LogSource.window, markupSource, Option.bind_some, hbody, Option.getD_some]
  exact coalesceLogLines_single _ hvisible hne (by decide)

/-- The lines of all containers are kept. -/
theorem keptLines_markupSources : keptLines (∅ : LogState).get? markupSources =
    markupSources.map fun source => (source.ctr, markupLine) := by
  refine keptLines_single (fun source hmem => ?_) ?_ fun _ _ => rfl
  · obtain ⟨n, -, rfl⟩ := List.mem_map.mp hmem
    exact lines_markupSource n
  · rw [markupSources, List.map_map]
    refine List.Nodup.map (fun n m h => ?_) List.nodup_range
    have hlength := congrArg (fun name => name.toList.length) h
    simpa [markupSource] using hlength

/-- A line needs more than 96000 bytes. -/
theorem lt_lineBytes_markupLine (ctr : ContainerInfo) :
    96000 < lineBytes asciiRuntime "h" ctr markupLine := by
  have hstrip : stripANSI markupLine.message = markupLine.message := by
    refine stripANSI_of_notMem fun hmem => ?_
    rw [markupLine, String.toList_ofList] at hmem
    exact absurd (markup_visible _ hmem) (by decide)
  have hmessage : stringBytes markupLine.message = 96000 := by
    have hchar : charBytes '<' = 6 := by decide
    rw [stringBytes, markupLine, String.toList_ofList, markup, List.map_replicate,
      List.sum_replicate, hchar]
    rfl
  rw [lineBytes, hstrip, hmessage]
  omega

/-- All lines need more than the limit. -/
theorem lt_sum_markupSources :
    8388608 < ((keptLines (∅ : LogState).get? markupSources).map fun p =>
      lineBytes asciiRuntime "h" p.1 p.2).sum := by
  have hsum : (markupSources.map fun _ => 96000).sum ≤
      (markupSources.map fun source => lineBytes asciiRuntime "h" source.ctr markupLine).sum :=
    List.sum_le_sum fun source _ => (lt_lineBytes_markupLine source.ctr).le
  rw [List.map_const', List.sum_replicate, markupSources, List.length_map, List.length_range]
    at hsum
  rw [keptLines_markupSources, List.map_map]
  exact lt_of_lt_of_le (by decide) hsum

/-- **An oversized batch.** Each of 88 containers has written one line of 16000 characters. The body
is over the limit, the hub answers 400, and the batch is lost. -/
theorem markup_batch_dropped : ∃ entries s', collectLogs asciiRuntime "h" ∅ markupSources =
      some (entries, s') ∧
    ∃ body, (logsBatch "b1" entries).Writes 0 body ∧ maxBodyBytes 0 < textBytes body ∧
      (∀ decode, ingestLogsBatch asciiRuntime (fun _ => Number.ofDigit 0) ⟨0⟩ "b1" decode 0 body =
        pure (.error ⟨400, "invalid json"⟩)) ∧
      ∃ a', (sendLogs 2 (some 1048576) "b1" entries).replay
          (scripted none (fun _ => some (.status 400)) ⟨0⟩) ⟨.empty, []⟩ =
            some (some (.status 400), a') ∧
        SentLogs.Lost ⟨"b1", markupSources, entries, some (.status 400), ⟨.empty, []⟩, a', s'⟩ := by
  have hread : ∀ source ∈ markupSources, ∀ body ∈ source.body,
      (demuxDockerLogs (body.take bodyLimit)).isSome := by
    intro source hmem body hbody
    obtain ⟨n, -, rfl⟩ := List.mem_map.mp hmem
    obtain rfl := Option.some.inj hbody
    rw [demux_frame]
    rfl
  obtain ⟨entries, s', hcollect⟩ := exists_collectLogs asciiRuntime "h" hread ∅
  have hne : entries ≠ [] := by
    rintro rfl
    have hnone := List.map_eq_nil_iff.mp (collectLogs_eq hcollect).symm
    have hmany := lt_sum_markupSources
    rw [hnone] at hmany
    exact absurd hmany (by decide)
  have hwrites : (logsBatch "b1" entries).Writes 0
      ((logsBatch "b1" entries).body.render goEscape) := Spells.refl _
  have hlarge : maxBodyBytes 0 <
      textBytes ((logsBatch "b1" entries).body.render goEscape) := by
    have hmany := lt_sum_markupSources
    have hlimit : maxBodyBytes 0 = 8388608 := rfl
    rw [textBytes_body hcollect hne hwrites, hlimit]
    omega
  exact ⟨entries, s', hcollect, _, hwrites, hlarge, ingestLogsBatch_of_lt hlarge,
    lost_of_badRequest (some 1048576) ⟨0⟩ "b1" markupSources hne s'⟩

end Argus
