import Argus.Agent.LogFrames
import Argus.Fleet
import Argus.Insights.Text
import Argus.Logs
import Argus.Unmarshal

/-!
# Polls of the logs of a container

`containerLogs` reads a window of the log of a container, merges its lines into entries and keeps
those that are later than the last one it kept of the container. The windows of one log overlap.
`lines_exactlyOnce_iff` says when each line is part of exactly one entry all the same: the entries
that the lines of a window are merged into meet the lines that were read before.
-/

namespace Argus

open Foundations Regex

/-! ### Messages and levels -/

/-- `ansiEscape`. -/
def ansiEscape : Regex := alt
  (seqs [char '\x1b', char '[', many (fun c => c.isDigit || c == ';' || c == '?'),
    many (fun c => ' ' ≤ c && c ≤ '/'), one (fun c => '@' ≤ c && c ≤ '~')])
  (seqs [char '\x1b', char ']', many (fun c => c != '\x07' && c != '\x1b'),
    alts [char '\x07', seqs [char '\x1b', char '\\']]])

/-- `stripANSI`. -/
def stripANSI (s : String) : String :=
  if contains s "\x1b" then ansiEscape.replaceAll s "" else s

/-- `[a-z]` under `(?i)`. -/
def letterSet : Char → Bool := folded fun c => 'a' ≤ c && c ≤ 'z'

/-- `structuredLevel`. -/
def structuredLevel : Regex := seqs [char '"',
  alts [word "level", word "severity", word "lvl", word "loglevel", word "log.level"], char '"',
  many spaceSet, char ':', many spaceSet, opt (char '"'),
  group (alts [some' letterSet, some' Char.isDigit]), opt (char '"')]

/-- `logfmtLevel`, for a text with a space before it: the start of the text counts as one. -/
def logfmtLevel : Regex := seqs [one spaceSet, alts [word "level", word "lvl", word "severity"],
  char '=', opt (one fun c => c == '"' || c == '\''), group (some' letterSet)]

/-- `errorWord`. -/
def errorWord : Regex := seqs [boundary,
  alts [literal "fatal", literal "panic", literal "error", literal "exception"], boundary]

/-- `warnWord`. -/
def warnWord : Regex := seqs [boundary, literal "warn", opt (literal "ing"), boundary]

/-- `debugWord`. -/
def debugWord : Regex := seqs [boundary, alts [literal "debug", literal "trace"], boundary]

/-- `normalizeLevel`. -/
def normalizeLevel (rt : Runtime) (v : String) : String :=
  match atoi v with
  | some n =>
    if 50 ≤ n then "error" else if 40 ≤ n then "warn" else if 30 ≤ n then "info" else "debug"
  | none =>
    let level := rt.toLower v
    if level ∈ ["fatal", "panic", "error", "err", "critical", "crit", "alert", "emerg",
      "emergency", "severe"] then "error"
    else if level ∈ ["warn", "warning"] then "warn"
    else if level ∈ ["info", "information", "informational", "notice"] then "info"
    else if level ∈ ["debug", "trace", "verbose", "fine", "finer", "finest"] then "debug"
    else ""

/-- `inferLogLevel`. -/
def inferLogLevel (rt : Runtime) (msg : String) : String :=
  let declared := [firstGroup structuredLevel msg, firstGroup logfmtLevel (" " ++ msg)].filterMap
    fun m => m.bind fun v => if normalizeLevel rt v = "" then none else some (normalizeLevel rt v)
  match declared with
  | level :: _ => level
  | [] =>
    let lower := rt.toLower msg
    if errorWord.isMatch lower then "error"
    else if warnWord.isMatch lower then "warn"
    else if debugWord.isMatch lower then "debug"
    else "info"

/-! ### Polls -/

/-- `LogState`: `lastSeen`. -/
abbrev LogState : Type := SortedMap String Time

/-- `LogState.shouldKeep`. -/
def LogState.shouldKeep (s : LogState) (name : String) (ts : Time) : Bool × LogState :=
  match s.get? name with
  | some prev => if prev < ts then (true, s.insert name ts) else (false, s)
  | none => (true, s.insert name ts)

/-- The entry of a line. -/
def logEntry (rt : Runtime) (hostID : String) (ctr : ContainerInfo) (line : ParsedLine) :
    LogEntry where
  ts := line.ts
  message := stripANSI line.message
  level := inferLogLevel rt (stripANSI line.message)
  entityUID := (entityFor hostID ctr.name ctr.labels).1
  labels := (entityFor hostID ctr.name ctr.labels).2
  fields := ∅

/-- The loop of `containerLogs`. -/
def keepLines (name : String) (entry : ParsedLine → LogEntry) :
    LogState → List ParsedLine → List LogEntry × LogState
  | s, [] => ([], s)
  | s, line :: lines =>
    match s.shouldKeep name line.ts with
    | (true, s) =>
      let (out, s) := keepLines name entry s lines
      (entry line :: out, s)
    | (false, s) => keepLines name entry s lines

/-- How much of a body is read. -/
def bodyLimit : ℕ := 512 * 1024

/-- `Collector.containerLogs`, for the body of the answer. -/
def containerLogs (rt : Runtime) (hostID : String) (clock : ℕ → Time) (ctr : ContainerInfo)
    (body : List UInt8) (s : LogState) : Option (List LogEntry × LogState) :=
  (demuxDockerLogs (body.take bodyLimit)).map fun lines =>
    keepLines ctr.name (logEntry rt hostID ctr) s (coalesceLogLines clock lines)

/-! ### What is kept -/

/-- The last entry that was kept of a container decides what is kept. -/
theorem shouldKeep_eq (s : LogState) (name : String) (ts : Time) :
    s.shouldKeep name ts =
      if later (s.get? name) ts then (true, s.insert name ts) else (false, s) := by
  rw [LogState.shouldKeep]
  cases s.get? name with
  | none => rfl
  | some prev => simp [later]

/-- The loop keeps what is later than all that was kept before. -/
theorem keepLines_eq (name : String) (entry : ParsedLine → LogEntry) (s : LogState)
    (lines : List ParsedLine) :
    (keepLines name entry s lines).1 =
        (keepLater ParsedLine.ts (s.get? name) lines).1.map entry ∧
      (keepLines name entry s lines).2.get? name =
        (keepLater ParsedLine.ts (s.get? name) lines).2 := by
  induction lines generalizing s with
  | nil => exact ⟨rfl, rfl⟩
  | cons line lines ih =>
    rw [keepLines, keepLater, shouldKeep_eq]
    by_cases hlater : later (s.get? name) line.ts = true
    · have hinsert := ih (s.insert name line.ts)
      rw [SortedMap.get?_insert_self] at hinsert
      rw [if_pos hlater, if_pos hlater]
      exact ⟨congrArg (entry line :: ·) hinsert.1, hinsert.2⟩
    · rw [if_neg hlater, if_neg hlater]
      exact ih s

/-- Other containers do not matter. -/
theorem get?_keepLines_of_ne {name other : String} (h : other ≠ name)
    (entry : ParsedLine → LogEntry) (s : LogState) (lines : List ParsedLine) :
    (keepLines name entry s lines).2.get? other = s.get? other := by
  induction lines generalizing s with
  | nil => rfl
  | cons line lines ih =>
    rw [keepLines, shouldKeep_eq]
    by_cases hlater : later (s.get? name) line.ts = true
    · rw [if_pos hlater]
      exact (ih _).trans (SortedMap.get?_insert_of_ne (Ne.symm h))
    · rw [if_neg hlater]
      exact ih s

/-- The entry that a block is merged into, where its first line has a timestamp. -/
def mergedLine (block : List ParsedLine) : ParsedLine := blockEntry ⟨0⟩ block

/-- Blocks whose first line has a timestamp. -/
def Stamped (blocks : List (List ParsedLine)) : Prop :=
  ∀ block ∈ blocks, ∃ line rest, block = line :: rest ∧ line.ts.isZero = false

theorem Stamped.ts_mergedLine {blocks : List (List ParsedLine)} (h : Stamped blocks)
    {block : List ParsedLine} (hblock : block ∈ blocks) :
    block.head?.map ParsedLine.ts = some (mergedLine block).ts := by
  obtain ⟨line, rest, rfl, hts⟩ := h block hblock
  have hmerged : (mergedLine (line :: rest)).ts = if line.ts.isZero then ⟨0⟩ else line.ts := rfl
  rw [hmerged, hts]
  rfl

theorem Stamped.blockEntries_eq {blocks : List (List ParsedLine)} (h : Stamped blocks)
    (clock : ℕ → Time) (n : ℕ) : blockEntries clock n blocks = blocks.map mergedLine := by
  induction blocks generalizing n with
  | nil => rfl
  | cons block blocks ih =>
    obtain ⟨line, rest, rfl, hts⟩ := h block List.mem_cons_self
    have hentry : ∀ now, blockEntry now (line :: rest) =
        ⟨line.ts, trimSpace (joinLines (line :: rest))⟩ := by
      intro now
      have hentry : blockEntry now (line :: rest) =
          ⟨if line.ts.isZero then now else line.ts, trimSpace (joinLines (line :: rest))⟩ := rfl
      rw [hentry, hts]
      rfl
    rw [blockEntries, List.map_cons, ih fun b hb => h b (List.mem_cons_of_mem _ hb), mergedLine,
      hentry, hentry]

section

variable (rt : Runtime) (hostID : String) (ctr : ContainerInfo)

/-- **One poll.** The blocks of the window that start later than the last entry of the container are
kept. -/
theorem containerLogs_window (clock : ℕ → Time) {body : List UInt8} {s : LogState}
    {lines : List ParsedLine} {w : Window ParsedLine}
    (hbody : demuxDockerLogs (body.take bodyLimit) = some lines)
    (hlines : nonBlankLines lines = w.whole)
    (hsorted : w.whole.Pairwise fun line line' => line.ts < line'.ts)
    (hstamped : ∀ line ∈ w.whole, line.ts.isZero = false) :
    ∃ s', containerLogs rt hostID clock ctr body s =
        some ((w.kept logCutter ParsedLine.ts (s.get? ctr.name)).map fun block =>
          logEntry rt hostID ctr (mergedLine block), s') ∧
      s'.get? ctr.name = w.markAfter logCutter ParsedLine.ts (s.get? ctr.name) := by
  -- the times of the blocks are those of Docker, so that the clock is not asked
  have hblocks : Stamped (logCutter.cut w.whole) := by
    intro block hblock
    obtain ⟨line, rest, rfl⟩ := List.exists_cons_of_ne_nil (logCutter.ne_nil_of_mem_cut hblock)
    refine ⟨line, rest, rfl, hstamped line ?_⟩
    rw [← logCutter.flatten_cut w.whole]
    exact List.mem_flatten.mpr ⟨_, hblock, List.mem_cons_self⟩
  have hentries : coalesceLogLines clock lines = (logCutter.cut w.whole).map mergedLine := by
    rw [coalesceLogLines_eq, logBlocks, hlines, hblocks.blockEntries_eq]
  have htimes : ((logCutter.cut w.whole).map mergedLine).Pairwise
      fun line line' => line.ts < line'.ts := by
    rw [← logCutter.flatten_cut w.whole, List.pairwise_flatten] at hsorted
    rw [List.pairwise_map]
    refine List.Pairwise.imp_of_mem (fun {b b'} hb hb' hlt => ?_) hsorted.2
    obtain ⟨line, hline, hts⟩ := Option.map_eq_some_iff.mp (hblocks.ts_mergedLine hb)
    obtain ⟨line', hline', hts'⟩ := Option.map_eq_some_iff.mp (hblocks.ts_mergedLine hb')
    rw [← hts, ← hts']
    exact hlt line (List.mem_of_head? hline) line' (List.mem_of_head? hline')
  -- a merged line is later when the first line of its block is
  have hkept : ((logCutter.cut w.whole).map mergedLine).filter
      (fun line => later (s.get? ctr.name) line.ts) =
        (w.kept logCutter ParsedLine.ts (s.get? ctr.name)).map mergedLine := by
    rw [List.filter_map, Window.kept]
    refine congrArg (List.map mergedLine) (List.filter_congr fun block hblock => ?_)
    obtain ⟨line, hline, hts⟩ := Option.map_eq_some_iff.mp (hblocks.ts_mergedLine hblock)
    rw [startsLater, hline, Option.all_some, hts]
    rfl
  obtain ⟨hout, hstate⟩ := keepLines_eq ctr.name (logEntry rt hostID ctr) s
    ((logCutter.cut w.whole).map mergedLine)
  rw [keepLater_of_sorted htimes, hkept] at hout hstate
  refine ⟨(keepLines ctr.name (logEntry rt hostID ctr) s
    ((logCutter.cut w.whole).map mergedLine)).2, ?_, ?_⟩
  · rw [containerLogs, hbody, Option.map_some, hentries]
    refine congrArg some (Prod.ext ?_ rfl)
    rw [hout, List.map_map]
    rfl
  · rw [hstate, Window.markAfter, List.getLast?_map]
    rcases hlast : (w.kept logCutter ParsedLine.ts (s.get? ctr.name)).getLast? with - | block
    · rfl
    · have hmem : block ∈ logCutter.cut w.whole :=
        (List.mem_filter.mp (List.mem_of_getLast? hlast)).1
      rw [Option.map_some, Option.map_some, Option.bind_some, hblocks.ts_mergedLine hmem]

/-- A poll: the window of the log that its answer shows, the body, and the clock. -/
structure Poll where
  first : ℕ
  last : ℕ
  body : List UInt8
  clock : ℕ → Time

/-- The polls of a log. Each reads a window of it that reaches back at least to the first line that
was not read before, of which the first `seen` were. -/
def Reads (log : List ParsedLine) : ℕ → List Poll → Prop
  | _, [] => True
  | seen, p :: polls => p.first ≤ seen ∧ seen ≤ p.last ∧ p.last ≤ log.length ∧
    demuxDockerLogs (p.body.take bodyLimit) = some ((log.take p.last).drop p.first) ∧
    Reads log p.last polls

/-- The polls of a container, one after the other. -/
def runPolls (rt : Runtime) (hostID : String) (ctr : ContainerInfo) :
    LogState → List Poll → Option (List LogEntry × LogState)
  | s, [] => some ([], s)
  | s, p :: polls => do
    let (out, s) ← containerLogs rt hostID p.clock ctr p.body s
    let (more, s) ← runPolls rt hostID ctr s polls
    some (out ++ more, s)

/-- The lines of each poll that are not blank: those that were read before, and the new ones. -/
def pollWindows (log : List ParsedLine) : ℕ → List Poll → List (Window ParsedLine)
  | _, [] => []
  | seen, p :: polls =>
    ⟨nonBlankLines ((log.take seen).drop p.first), nonBlankLines ((log.take p.last).drop seen)⟩ ::
      pollWindows log p.last polls

/-- How many lines were read after some polls. -/
def lastRead (seen : ℕ) (polls : List Poll) : ℕ := (polls.getLast?.map Poll.last).getD seen

theorem lastRead_cons (seen : ℕ) (p : Poll) (polls : List Poll) :
    lastRead seen (p :: polls) = lastRead p.last polls := by
  rcases List.eq_nil_or_concat polls with rfl | ⟨init, q, rfl⟩
  · rfl
  · simp [lastRead, List.getLast?_cons]

variable {log : List ParsedLine} {polls : List Poll} {seen : ℕ}

theorem drop_take_append {i j k : ℕ} (hij : i ≤ j) (hjk : j ≤ k) (l : List ParsedLine) :
    (l.take j).drop i ++ (l.take k).drop j = (l.take k).drop i := by
  have htake : l.take k = l.take j ++ (l.take k).drop j := by
    conv_lhs => rw [← List.take_append_drop j (l.take k)]
    rw [List.take_take, Nat.min_eq_left hjk]
  rcases Nat.le_total l.length i with hlong | hshort
  · have hnil : ∀ m n, i ≤ n → (l.take m).drop n = [] := fun m n hn =>
      List.drop_eq_nil_of_le (by rw [List.length_take]; omega)
    rw [hnil j i le_rfl, hnil k j hij, hnil k i le_rfl, List.append_nil]
  · conv_rhs => rw [htake]
    rw [List.drop_append_of_le_length (by rw [List.length_take]; omega)]

theorem pollWindows_take (log : List ParsedLine) (seen : ℕ) (polls : List Poll) (n : ℕ) :
    pollWindows log seen (polls.take n) = (pollWindows log seen polls).take n := by
  induction polls generalizing seen n with
  | nil => rw [List.take_nil, pollWindows, List.take_nil]
  | cons p polls ih =>
    cases n with
    | zero => rfl
    | succ n => exact congrArg (List.cons _) (ih p.last n)

/-- What the polls read is the log up to the end of the last window. -/
theorem flatMap_new_pollWindows (h : Reads log seen polls) :
    nonBlankLines (log.take seen) ++ (pollWindows log seen polls).flatMap Window.new =
      nonBlankLines (log.take (lastRead seen polls)) := by
  induction polls generalizing seen with
  | nil => exact List.append_nil _
  | cons p polls ih =>
    obtain ⟨-, hlast, -, -, hrest⟩ := h
    have hstep : nonBlankLines (log.take seen) ++ nonBlankLines ((log.take p.last).drop seen) =
        nonBlankLines (log.take p.last) := by
      have hdrop := drop_take_append (Nat.zero_le seen) hlast log
      rw [List.drop_zero, List.drop_zero] at hdrop
      rw [← nonBlankLines_append, hdrop]
    rw [pollWindows, List.flatMap_cons, ← List.append_assoc, hstep, ih hrest, lastRead_cons]

theorem overlap_pollWindows (h : Reads log seen polls) :
    Window.Overlap (nonBlankLines (log.take seen)) (pollWindows log seen polls) := by
  induction polls generalizing seen with
  | nil => trivial
  | cons p polls ih =>
    obtain ⟨hfirst, hlast, -, -, hrest⟩ := h
    have hstep : nonBlankLines (log.take seen) ++ nonBlankLines ((log.take p.last).drop seen) =
        nonBlankLines (log.take p.last) := by
      have hdrop := drop_take_append (Nat.zero_le seen) hlast log
      rw [List.drop_zero, List.drop_zero] at hdrop
      rw [← nonBlankLines_append, hdrop]
    refine ⟨?_, hstep ▸ ih hrest⟩
    have hold := List.take_append_drop p.first (log.take seen)
    refine ⟨nonBlankLines ((log.take seen).take p.first), ?_⟩
    rw [← nonBlankLines_append, hold]

theorem pairwise_nonBlankLines {lines : List ParsedLine}
    (h : lines.Pairwise fun line line' => line.ts < line'.ts) :
    (nonBlankLines lines).Pairwise fun line line' => line.ts < line'.ts := by
  have hmap : (lines.map fun line => ({ line with message := trimRightCR line.message } :
      ParsedLine)).Pairwise fun line line' => line.ts < line'.ts := List.pairwise_map.mpr h
  exact hmap.filter _

theorem stamped_nonBlankLines {lines : List ParsedLine}
    (h : ∀ line ∈ lines, line.ts.isZero = false) :
    ∀ line ∈ nonBlankLines lines, line.ts.isZero = false := by
  intro line hline
  obtain ⟨line', hline', rfl⟩ := List.mem_map.mp (List.mem_filter.mp hline).1
  exact h line' hline'

/-- **A run of polls.** The entries are those of the blocks that are kept of the windows. -/
theorem runPolls_eq (hsorted : log.Pairwise fun line line' => line.ts < line'.ts)
    (hstamped : ∀ line ∈ log, line.ts.isZero = false) (hreads : Reads log seen polls)
    (s : LogState) :
    ∃ s', runPolls rt hostID ctr s polls =
      some ((Window.emitted logCutter ParsedLine.ts (s.get? ctr.name)
        (pollWindows log seen polls)).map
          fun block => logEntry rt hostID ctr (mergedLine block), s') := by
  induction polls generalizing seen s with
  | nil => exact ⟨s, rfl⟩
  | cons p polls ih =>
    obtain ⟨hfirst, hlast, -, hbody, hrest⟩ := hreads
    have hsub : ((log.take p.last).drop p.first).Sublist log :=
      (List.drop_sublist _ _).trans (List.take_sublist _ _)
    have hwhole : nonBlankLines ((log.take p.last).drop p.first) =
        (⟨nonBlankLines ((log.take seen).drop p.first),
          nonBlankLines ((log.take p.last).drop seen)⟩ : Window ParsedLine).whole := by
      rw [Window.whole, ← nonBlankLines_append, drop_take_append hfirst hlast]
    have htimes := pairwise_nonBlankLines (hsorted.sublist hsub)
    have hzero := stamped_nonBlankLines fun line hline => hstamped line (hsub.subset hline)
    rw [hwhole] at htimes hzero
    obtain ⟨s₁, hpoll, hmark⟩ := containerLogs_window rt hostID ctr p.clock (s := s) hbody hwhole
      htimes hzero
    obtain ⟨s₂, hpolls⟩ := ih hrest s₁
    refine ⟨s₂, ?_⟩
    rw [runPolls, hpoll]
    simp only [Option.bind_eq_bind, Option.bind_some, hpolls]
    rw [pollWindows, Window.emitted, List.map_append, hmark]

theorem Reads.take (h : Reads log seen polls) (n : ℕ) : Reads log seen (polls.take n) := by
  induction polls generalizing seen n with
  | nil => rw [List.take_nil]; exact h
  | cons p polls ih =>
    cases n with
    | zero => trivial
    | succ n =>
      obtain ⟨hfirst, hlast, hlength, hbody, hrest⟩ := h
      exact ⟨hfirst, hlast, hlength, hbody, ih hrest n⟩

/-- **Key result.** Every line that is not blank is part of exactly one entry, after each of the
polls, if and only if the blocks of each window meet the lines that were read before: no block that
starts in them starts later than the last one that was kept, and the first new line starts one. -/
theorem lines_exactlyOnce_iff (hsorted : log.Pairwise fun line line' => line.ts < line'.ts)
    (hstamped : ∀ line ∈ log, line.ts.isZero = false) (hreads : Reads log 0 polls)
    {s : LogState} (hs : s.get? ctr.name = none) :
    (∃ s', runPolls rt hostID ctr s polls =
      some ((Window.emitted logCutter ParsedLine.ts none (pollWindows log 0 polls)).map fun block =>
        logEntry rt hostID ctr (mergedLine block), s')) ∧
    ((∀ n, ∀ line ∈ nonBlankLines (log.take (lastRead 0 (polls.take n))),
        (Window.emitted logCutter ParsedLine.ts none
          (pollWindows log 0 (polls.take n))).flatten.count line = 1) ↔
      Window.AllMeet logCutter ParsedLine.ts none (pollWindows log 0 polls)) := by
  obtain ⟨s', hrun⟩ := runPolls_eq rt hostID ctr hsorted hstamped hreads s
  rw [hs] at hrun
  refine ⟨⟨s', hrun⟩, ?_⟩
  have hread : ∀ n, (pollWindows log 0 (polls.take n)).flatMap Window.new =
      nonBlankLines (log.take (lastRead 0 (polls.take n))) :=
    fun n => flatMap_new_pollWindows (hreads.take n)
  have htimes : ([] ++ (pollWindows log 0 polls).flatMap Window.new).Pairwise
      fun line line' : ParsedLine => line.ts < line'.ts := by
    have hall := hread polls.length
    rw [List.take_length] at hall
    rw [List.nil_append, hall]
    exact pairwise_nonBlankLines (hsorted.sublist (List.take_sublist _ _))
  have honce : (∀ before, before <+: pollWindows log 0 polls →
      Window.KeepsOnce logCutter ParsedLine.ts [] none before) ↔
        Window.AllMeet logCutter ParsedLine.ts none (pollWindows log 0 polls) :=
    Window.keepsOnce_iff (overlap_pollWindows hreads) htimes fun _ _ => rfl
  rw [← honce]
  constructor
  · intro h before hbefore
    have heq : before = pollWindows log 0 (polls.take before.length) := by
      rw [pollWindows_take]
      exact List.prefix_iff_eq_take.mp hbefore
    refine ⟨fun _ hb => absurd hb List.not_mem_nil, fun line hline => ?_⟩
    rw [heq]
    rw [heq, hread] at hline
    exact h _ line hline
  · intro h n line hline
    have hbefore : pollWindows log 0 (polls.take n) <+: pollWindows log 0 polls := by
      rw [pollWindows_take]
      exact List.take_prefix _ _
    exact (h _ hbefore).2 line (hread n ▸ hline)

end

/-- Two times, a second apart, as they are written. -/
def stampAt (later : Bool) : Stamp :=
  Stamp.ofTime ⟨bif later then 2000000000 else 1000000000⟩ (by revert later; decide)

/-- A record of one character. -/
def charRecord (later : Bool) (c : Fin 3) : LogRecord :=
  LogRecord.ofText (stampAt later) (by revert later; decide +kernel) [['\x7b', '\x7d', 'x'].get c]
    (forall_mem_of_all (by revert c; decide)) (by revert c; decide) (by revert c; decide +kernel)
    (by simp) (by simp)

theorem parsed_charRecord (later : Bool) (c : Fin 3) : (charRecord later c).parsed =
    ⟨(stampAt later).time, String.ofList [['\x7b', '\x7d', 'x'].get c]⟩ :=
  congrArg (ParsedLine.mk _) (goString_asciiBytes (forall_mem_of_all (by revert c; decide)))

/-- A poll that reads some records. -/
def pollOf (records : List LogRecord) (first last : ℕ) : Poll where
  first := first
  last := last
  body := ((records.take last).drop first).flatMap LogRecord.frame
  clock _ := ⟨0⟩

theorem demux_pollOf (records : List LogRecord) (first last : ℕ)
    (h : (pollOf records first last).body.length ≤ bodyLimit) :
    demuxDockerLogs ((pollOf records first last).body.take bodyLimit) =
      some (((records.map LogRecord.parsed).take last).drop first) := by
  rw [List.take_of_length_le h, pollOf, demuxDockerLogs_flatMap, ← List.map_take, ← List.map_drop]

/-- Two records, the first of which is read twice. -/
def twoRecords (c d : Fin 3) : List LogRecord := [charRecord false c, charRecord true d]

/-- The polls of two records. -/
def twoPolls (c d : Fin 3) : List Poll := [pollOf (twoRecords c d) 0 1, pollOf (twoRecords c d) 0 2]

/-- What is read of two records. -/
def twoLines (c d : Fin 3) : List ParsedLine :=
  [⟨(stampAt false).time, String.ofList [['\x7b', '\x7d', 'x'].get c]⟩,
    ⟨(stampAt true).time, String.ofList [['\x7b', '\x7d', 'x'].get d]⟩]

theorem reads_twoPolls (c d : Fin 3) : Reads (twoLines c d) 0 (twoPolls c d) := by
  have hparsed : (twoRecords c d).map LogRecord.parsed = twoLines c d := by
    rw [twoRecords, List.map_cons, List.map_singleton, parsed_charRecord, parsed_charRecord]
    rfl
  have hshort : ∀ n c, (charRecord n c).frame.length ≤ 100 := fun n c => by
    have hstamp := (charRecord n c).stamp_short
    have hmessage : (charRecord n c).message.length = 1 := rfl
    rw [LogRecord.length_frame, LogRecord.length_line]
    omega
  have hlimit : bodyLimit = 524288 := rfl
  have hdemux : ∀ last, demuxDockerLogs ((pollOf (twoRecords c d) 0 last).body.take bodyLimit) =
      some (((twoLines c d).take last).drop 0) := by
    intro last
    rw [← hparsed]
    refine demux_pollOf _ 0 last ?_
    have hsub : ((twoRecords c d).take last).flatMap LogRecord.frame <+:
        (twoRecords c d).flatMap LogRecord.frame := by
      conv_rhs => rw [← List.take_append_drop last (twoRecords c d), List.flatMap_append]
      exact List.prefix_append _ _
    have hlength := hsub.length_le
    have h₀ := hshort false c
    have h₁ := hshort true d
    simp only [twoRecords, List.flatMap_cons, List.flatMap_nil, List.append_nil,
      List.length_append] at hlength
    change (((twoRecords c d).take last).flatMap LogRecord.frame).length ≤ bodyLimit
    rw [twoRecords]
    omega
  exact ⟨le_rfl, Nat.zero_le 1, Nat.le_succ 1, hdemux 1, Nat.zero_le 1, Nat.le_succ 1, le_rfl,
    hdemux 2, trivial⟩

theorem sorted_twoLines (c d : Fin 3) :
    (twoLines c d).Pairwise fun line line' => line.ts < line'.ts :=
  List.pairwise_pair.mpr (show (stampAt false).time < (stampAt true).time by decide)

theorem stamped_twoLines (c d : Fin 3) : ∀ line ∈ twoLines c d, line.ts.isZero = false :=
  List.forall_mem_cons.mpr ⟨show (stampAt false).time.isZero = false by decide,
    List.forall_mem_singleton.mpr (show (stampAt true).time.isZero = false by decide)⟩

/-- A container. -/
def someContainer : ContainerInfo := ⟨"web", ∅, "running", ""⟩

/-- Two lines that have nothing to do with each other are each part of one entry. -/
theorem exactlyOnce_twoLines :
    (∃ s', runPolls asciiRuntime "h" someContainer ∅ (twoPolls 2 2) =
      some ((Window.emitted logCutter ParsedLine.ts none
        (pollWindows (twoLines 2 2) 0 (twoPolls 2 2))).map fun block =>
          logEntry asciiRuntime "h" someContainer (mergedLine block), s')) ∧
    ∀ n, ∀ line ∈ nonBlankLines ((twoLines 2 2).take (lastRead 0 ((twoPolls 2 2).take n))),
      (Window.emitted logCutter ParsedLine.ts none
        (pollWindows (twoLines 2 2) 0 ((twoPolls 2 2).take n))).flatten.count line = 1 :=
  (lines_exactlyOnce_iff asciiRuntime "h" someContainer (sorted_twoLines 2 2) (stamped_twoLines 2 2)
    (reads_twoPolls 2 2) (s := ∅) rfl).imp_right fun hiff => hiff.mpr (by decide +kernel)

/-- An opening brace that is read before the closing one is written: both lines are in the second
window, but only the first one is in an entry. -/
theorem closingBrace_lost :
    (∃ s', runPolls asciiRuntime "h" someContainer ∅ (twoPolls 0 1) =
      some ([logEntry asciiRuntime "h" someContainer ⟨(stampAt false).time, "\x7b"⟩], s')) ∧
    Reads (twoLines 0 1) 0 (twoPolls 0 1) ∧
    (⟨(stampAt true).time, "\x7d"⟩ : ParsedLine) ∈
      nonBlankLines ((twoLines 0 1).take (lastRead 0 (twoPolls 0 1))) ∧
    (Window.emitted logCutter ParsedLine.ts none
      (pollWindows (twoLines 0 1) 0 (twoPolls 0 1))).flatten.count
        ⟨(stampAt true).time, "\x7d"⟩ = 0 := by
  obtain ⟨s', hrun⟩ := runPolls_eq asciiRuntime "h" someContainer (sorted_twoLines 0 1)
    (stamped_twoLines 0 1) (reads_twoPolls 0 1) ∅
  have hblocks : (Window.emitted logCutter ParsedLine.ts none
      (pollWindows (twoLines 0 1) 0 (twoPolls 0 1))).map mergedLine =
        [⟨(stampAt false).time, "\x7b"⟩] := by decide +kernel
  refine ⟨⟨s', ?_⟩, reads_twoPolls 0 1, by decide +kernel, by decide +kernel⟩
  rw [hrun]
  have hentries := congrArg (List.map (logEntry asciiRuntime "h" someContainer)) hblocks
  rw [List.map_map] at hentries
  exact congrArg (fun entries => some (entries, s')) hentries

end Argus
