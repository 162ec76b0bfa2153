import Argus.Agent.LogPolls
import Argus.Agent.World

/-!
# Sending the logs of the containers

`runLogCollector` collects the logs of all containers and sends what it kept. `LogState` moves on
while the logs are collected, before it is known whether they can be sent. A line with a timestamp
of Docker is not let through a second time; one without gets the time of the poll, a later one with
every poll. `remembers_iff` says what follows: no line of a lost batch is forgotten if and only if
the lost batches have only lines without a timestamp.
-/

namespace Argus

open Foundations

/-! ### Collecting -/

/-- What a container answers: the body of its logs, unless there is none. -/
structure LogSource where
  ctr : ContainerInfo
  body : Option (List UInt8)
  clock : ℕ → Time

/-- `Collector.CollectLogs`, for the containers that are listed. -/
def collectLogs (rt : Runtime) (hostID : String) :
    LogState → List LogSource → Option (List LogEntry × LogState)
  | s, [] => some ([], s)
  | s, source :: sources =>
    match source.body with
    | none => collectLogs rt hostID s sources
    | some body => do
      let (batch, s) ← containerLogs rt hostID source.clock source.ctr body s
      let (entries, s) ← collectLogs rt hostID s sources
      some (batch ++ entries, s)

/-- The lines that the answer of a container shows. -/
def LogSource.window (source : LogSource) : List ParsedLine :=
  (source.body.bind fun body => demuxDockerLogs (body.take bodyLimit)).getD []

/-- The lines that are read of a container, as `containerLogs` merges them. -/
def LogSource.lines (source : LogSource) : List ParsedLine :=
  coalesceLogLines source.clock source.window

/-! ### Sending -/

/-- The JSON of an entry that was collected: it has no fields. -/
def collectedJson (e : LogEntry) : Json :=
  .obj [("ts", .str e.ts.format), ("message", .str e.message), ("level", .str e.level),
    ("entity_uid", .str e.entityUID), ("labels", e.labels.toJson)]

/-- `Client.SendLogs`. -/
def sendLogs (fuel : ℕ) (spool : Option ℕ) (id : String) (entries : List LogEntry) :
    AgentM (Option PostErr) :=
  if entries.isEmpty then pure none
  else sendBatch fuel spool ⟨"/api/v1/logs/batch", id, .arr (entries.map collectedJson)⟩

/-- A batch that was sent: its id, the answers it was collected from and its entries, what
`SendLogs` returned, the agent before and after the call, and what `LogState` remembers. -/
structure SentLogs where
  id : String
  sources : List LogSource
  entries : List LogEntry
  err : Option PostErr
  before : AgentState
  after : AgentState
  state : LogState

/-- The call failed, the hub did not accept the batch, and it is not in the spool. -/
def SentLogs.Lost (r : SentLogs) : Prop :=
  r.err ≠ none ∧ (∀ c, .accepted c r.id ∉ r.after.log.drop r.before.log.length) ∧
    r.id ∉ r.after.spooled

/-- A line that is collected: the container, and the lines of its log that are merged. -/
structure CollectedLine where
  ctr : ContainerInfo
  block : List ParsedLine

namespace CollectedLine

/-- Whether Docker has written a timestamp before the line. -/
def stamped (l : CollectedLine) : Bool := l.block.head?.any fun line => !line.ts.isZero

/-- The entry of a line, for what the clock says when it is made. -/
def entry (rt : Runtime) (hostID : String) (l : CollectedLine) (now : Time) : LogEntry :=
  logEntry rt hostID l.ctr (blockEntry now l.block)

end CollectedLine

/-- The answer of a container shows a line. -/
def LogSource.Shows (source : LogSource) (l : CollectedLine) : Prop :=
  source.ctr = l.ctr ∧ l.block ∈ logBlocks source.window

/-- A line of a batch: one of the answers shows it, and the batch has its entry. -/
def SentLogs.Has (rt : Runtime) (hostID : String) (r : SentLogs) (l : CollectedLine) : Prop :=
  (∃ source ∈ r.sources, source.Shows l) ∧ ∃ now, l.entry rt hostID now ∈ r.entries

/-- The clock goes on: it shows other times than before, later than what is remembered of the
container and than the timestamps that the answer has. -/
structure LogSource.Ahead (source : LogSource) (s : LogState) : Prop where
  forward : ∀ m n, m < n → source.clock m < source.clock n
  remembered : ∀ n t, s.get? source.ctr.name = some t → t < source.clock n
  written : ∀ n, ∀ line ∈ source.window, line.ts < source.clock n

/-- A line is let through again: `CollectLogs` emits it, whatever the containers answer, if one of
the answers shows it. The containers have different names, and the clock goes on. -/
def LogState.EmitsAgain (rt : Runtime) (hostID : String) (s : LogState)
    (l : CollectedLine) : Prop :=
  ∀ sources entries s', collectLogs rt hostID s sources = some (entries, s') →
    (sources.map fun source => source.ctr.name).Nodup → (∀ source ∈ sources, source.Ahead s) →
      (∃ source ∈ sources, source.Shows l) → ∃ now, l.entry rt hostID now ∈ entries

/-- The rounds of `runLogCollector`, and the batches that are sent in them. -/
inductive LogRun (Healthy : Prop) (rt : Runtime) (hostID : String) (spool : Option ℕ) :
    LogState → AgentState → List SentLogs → LogState → AgentState → Prop
  /-- Nothing more is collected. -/
  | nil (s : LogState) (a : AgentState) : LogRun Healthy rt hostID spool s a [] s a
  /-- The containers cannot be listed. -/
  | unlisted {s s' : LogState} {a a' : AgentState} {sent : List SentLogs}
      (rest : LogRun Healthy rt hostID spool s a sent s' a') :
      LogRun Healthy rt hostID spool s a sent s' a'
  /-- There is nothing to send. -/
  | quiet {s s₁ s' : LogState} {a a' : AgentState} {sources : List LogSource}
      {sent : List SentLogs} (collect : collectLogs rt hostID s sources = some ([], s₁))
      (rest : LogRun Healthy rt hostID spool s₁ a sent s' a') :
      LogRun Healthy rt hostID spool s a sent s' a'
  /-- A batch is sent. -/
  | sent {s s₁ s' : LogState} {a a₁ a' : AgentState} {sources : List LogSource}
      {entries : List LogEntry} {fuel : ℕ} {id : String} {err : Option PostErr}
      {sent : List SentLogs} (collect : collectLogs rt hostID s sources = some (entries, s₁))
      (nonempty : entries ≠ [])
      (send : Program.Steps (agentEffect Healthy) (sendLogs fuel spool id entries, a)
        (.ret err, a₁))
      (rest : LogRun Healthy rt hostID spool s₁ a₁ sent s' a') :
      LogRun Healthy rt hostID spool s a (⟨id, sources, entries, err, a, a₁, s₁⟩ :: sent) s' a'

/-! ### What is collected -/

/-- The lines that are kept of the containers: of each, those that are later than all that was kept
of it before. -/
def keptLines : (String → Option Time) → List LogSource → List (ContainerInfo × ParsedLine)
  | _, [] => []
  | seen, source :: sources =>
    let kept := keepLater ParsedLine.ts (seen source.ctr.name) source.lines
    kept.1.map (source.ctr, ·) ++
      keptLines (Function.update seen source.ctr.name kept.2) sources

/-- **What is collected.** An entry for each line that is kept. -/
theorem collectLogs_eq {rt : Runtime} {hostID : String} {sources : List LogSource}
    {s s' : LogState} {entries : List LogEntry}
    (h : collectLogs rt hostID s sources = some (entries, s')) :
    entries = (keptLines s.get? sources).map fun p => logEntry rt hostID p.1 p.2 := by
  induction sources generalizing s s' entries with
  | nil =>
    obtain ⟨rfl, -⟩ := Prod.mk.inj (Option.some.inj h)
    rfl
  | cons source sources ih =>
    rw [collectLogs] at h
    rcases hbody : source.body with - | body
    · -- nothing is read of this container
      have hlines : source.lines = [] := by
        rw [LogSource.lines, LogSource.window, hbody]
        rfl
      rw [hbody] at h
      rw [keptLines, hlines, keepLater]
      simp only [List.map_nil, List.nil_append, Function.update_eq_self]
      exact ih h
    · rw [hbody] at h
      simp only [Option.bind_eq_bind, Option.bind_eq_some_iff, Prod.exists] at h
      obtain ⟨batch, s₁, hbatch, rest, s₂, hrest, heq⟩ := h
      obtain ⟨rfl, -⟩ := Prod.mk.inj (Option.some.inj heq)
      obtain ⟨lines, hlines, hkeep⟩ := Option.map_eq_some_iff.mp hbatch
      have hread : source.lines = coalesceLogLines source.clock lines := by
        rw [LogSource.lines, LogSource.window, hbody, Option.bind_some, hlines, Option.getD_some]
      obtain ⟨hout, hmark⟩ := keepLines_eq source.ctr.name (logEntry rt hostID source.ctr) s
        (coalesceLogLines source.clock lines)
      rw [hkeep] at hout hmark
      have hseen : s₁.get? = Function.update s.get? source.ctr.name
          (keepLater ParsedLine.ts (s.get? source.ctr.name) source.lines).2 := by
        funext other
        by_cases hname : other = source.ctr.name
        · rw [hname, Function.update_self, hread]
          exact hmark
        · rw [Function.update_of_ne hname]
          have hother := get?_keepLines_of_ne hname (logEntry rt hostID source.ctr) s
            (coalesceLogLines source.clock lines)
          rwa [hkeep] at hother
      rw [keptLines, List.map_append, ih hrest, ← hseen, List.map_map, hread]
      exact congrArg (· ++ _) hout

/-- Containers whose frames can be read are collected. -/
theorem exists_collectLogs (rt : Runtime) (hostID : String) {sources : List LogSource}
    (h : ∀ source ∈ sources, ∀ body ∈ source.body, (demuxDockerLogs (body.take bodyLimit)).isSome)
    (s : LogState) : ∃ entries s', collectLogs rt hostID s sources = some (entries, s') := by
  induction sources generalizing s with
  | nil => exact ⟨[], s, rfl⟩
  | cons source sources ih =>
    obtain ⟨hsource, hsources⟩ := List.forall_mem_cons.mp h
    rw [collectLogs]
    rcases hbody : source.body with - | body
    · exact ih hsources s
    · obtain ⟨lines, hlines⟩ := Option.isSome_iff_exists.mp (hsource body hbody)
      obtain ⟨entries, s', hrest⟩ := ih hsources (keepLines source.ctr.name
        (logEntry rt hostID source.ctr) s (coalesceLogLines source.clock lines)).2
      refine ⟨(keepLines source.ctr.name (logEntry rt hostID source.ctr) s
        (coalesceLogLines source.clock lines)).1 ++ entries, s', ?_⟩
      simp only [containerLogs, hlines, Option.map_some, Option.bind_eq_bind, Option.bind_some,
        hrest]

/-! ### What is remembered -/

/-- What was kept of each container is not before what was kept earlier. -/
def LogState.Grows (s s' : LogState) : Prop :=
  ∀ name t, s.get? name = some t → ∃ t', s'.get? name = some t' ∧ t ≤ t'

theorem LogState.Grows.refl (s : LogState) : s.Grows s := fun _ t h => ⟨t, h, le_rfl⟩

theorem LogState.Grows.trans {s s' s'' : LogState} (h : s.Grows s') (h' : s'.Grows s'') :
    s.Grows s'' := by
  intro name t ht
  obtain ⟨t', ht', hle⟩ := h name t ht
  obtain ⟨t'', ht'', hle'⟩ := h' name t' ht'
  exact ⟨t'', ht'', hle.trans hle'⟩

/-- An entry is remembered: something that is not earlier was kept of its container. -/
def LogState.Remembers (s : LogState) (e : LogEntry) : Prop :=
  ∃ t, s.get? (e.labels.get "container") = some t ∧ e.ts ≤ t

theorem LogState.Remembers.grows {s s' : LogState} {e : LogEntry} (h : s.Remembers e)
    (hgrows : s.Grows s') : s'.Remembers e := by
  obtain ⟨t, ht, hle⟩ := h
  obtain ⟨t', ht', hle'⟩ := hgrows _ t ht
  exact ⟨t', ht', hle.trans hle'⟩

theorem grows_insert {s : LogState} {name : String} {ts : Time}
    (h : later (s.get? name) ts = true) : s.Grows (s.insert name ts) := by
  intro other t ht
  by_cases heq : name = other
  · subst heq
    rw [ht] at h
    exact ⟨ts, SortedMap.get?_insert_self _ _ _, (of_decide_eq_true h).le⟩
  · exact ⟨t, (SortedMap.get?_insert_of_ne heq).trans ht, le_rfl⟩

/-- The loop of `containerLogs` remembers what it keeps. -/
theorem keepLines_remembers {name : String} {entry : ParsedLine → LogEntry}
    (hentry : ∀ line, (entry line).labels.get "container" = name ∧ (entry line).ts = line.ts)
    (s : LogState) (lines : List ParsedLine) :
    s.Grows (keepLines name entry s lines).2 ∧
      ∀ e ∈ (keepLines name entry s lines).1, (keepLines name entry s lines).2.Remembers e := by
  induction lines generalizing s with
  | nil => exact ⟨.refl s, fun e he => absurd he List.not_mem_nil⟩
  | cons line lines ih =>
    rw [keepLines, shouldKeep_eq]
    by_cases hlater : later (s.get? name) line.ts = true
    · rw [if_pos hlater]
      obtain ⟨hgrows, hremembers⟩ := ih (s.insert name line.ts)
      refine ⟨(grows_insert hlater).trans hgrows, fun e he => ?_⟩
      rcases List.mem_cons.mp he with rfl | he
      · have hkept : LogState.Remembers (s.insert name line.ts) (entry line) := by
          refine ⟨line.ts, ?_, (hentry line).2.le⟩
          rw [(hentry line).1]
          exact SortedMap.get?_insert_self _ _ _
        exact hkept.grows hgrows
      · exact hremembers e he
    · rw [if_neg hlater]
      exact ih s

variable {rt : Runtime} {hostID : String}

theorem containerLogs_remembers {clock : ℕ → Time} {ctr : ContainerInfo} {body : List UInt8}
    {s s' : LogState} {entries : List LogEntry}
    (h : containerLogs rt hostID clock ctr body s = some (entries, s')) :
    s.Grows s' ∧ ∀ e ∈ entries, s'.Remembers e := by
  obtain ⟨lines, -, hkeep⟩ := Option.map_eq_some_iff.mp h
  have hentry : ∀ line, (logEntry rt hostID ctr line).labels.get "container" = ctr.name ∧
      (logEntry rt hostID ctr line).ts = line.ts := fun line =>
    ⟨get_container_entityLabels hostID ctr.name ctr.labels, rfl⟩
  have hremembers := keepLines_remembers hentry s (coalesceLogLines clock lines)
  rw [hkeep] at hremembers
  exact hremembers

/-- **What is collected is remembered.** -/
theorem collectLogs_remembers {sources : List LogSource} {s s' : LogState}
    {entries : List LogEntry} (h : collectLogs rt hostID s sources = some (entries, s')) :
    s.Grows s' ∧ ∀ e ∈ entries, s'.Remembers e := by
  induction sources generalizing s entries with
  | nil =>
    obtain ⟨rfl, rfl⟩ := Prod.mk.inj (Option.some.inj h)
    exact ⟨.refl s, fun e he => absurd he List.not_mem_nil⟩
  | cons source sources ih =>
    rw [collectLogs] at h
    rcases hbody : source.body with - | body
    · rw [hbody] at h
      exact ih h
    · rw [hbody] at h
      simp only [Option.bind_eq_bind, Option.bind_eq_some_iff, Prod.exists] at h
      obtain ⟨batch, s₁, hbatch, rest, s₂, hrest, heq⟩ := h
      obtain ⟨rfl, rfl⟩ := Prod.mk.inj (Option.some.inj heq)
      obtain ⟨hgrows, hbatch⟩ := containerLogs_remembers hbatch
      obtain ⟨hgrows', hrest⟩ := ih hrest
      refine ⟨hgrows.trans hgrows', fun e he => ?_⟩
      rcases List.mem_append.mp he with he | he
      · exact (hbatch e he).grows hgrows'
      · exact hrest e he

/-! ### What is let through again -/

/-- What is kept is later than all that was kept of its container. -/
theorem later_of_mem_keptLines {seen : String → Option Time} {sources : List LogSource}
    {p : ContainerInfo × ParsedLine} (h : p ∈ keptLines seen sources) :
    later (seen p.1.name) p.2.ts = true := by
  induction sources generalizing seen with
  | nil => exact absurd h List.not_mem_nil
  | cons source sources ih =>
    rw [keptLines] at h
    rcases List.mem_append.mp h with h | h
    · obtain ⟨line, hline, rfl⟩ := List.mem_map.mp h
      exact later_of_mem_keepLater hline
    · have hlater := ih h
      by_cases hname : p.1.name = source.ctr.name
      · rw [hname, Function.update_self] at hlater
        rw [hname]
        exact later_of_later_keepLater hlater
      · rwa [Function.update_of_ne hname] at hlater

/-- What is kept is one of the lines that are shown. -/
theorem exists_source_of_mem_keptLines {seen : String → Option Time} {sources : List LogSource}
    {p : ContainerInfo × ParsedLine} (h : p ∈ keptLines seen sources) :
    ∃ source ∈ sources, p.1 = source.ctr ∧ p.2 ∈ source.lines := by
  induction sources generalizing seen with
  | nil => exact absurd h List.not_mem_nil
  | cons source sources ih =>
    rw [keptLines] at h
    rcases List.mem_append.mp h with h | h
    · obtain ⟨line, hline, rfl⟩ := List.mem_map.mp h
      exact ⟨source, List.mem_cons_self, rfl, mem_of_mem_keepLater hline⟩
    · obtain ⟨source', hmem, hp⟩ := ih h
      exact ⟨source', List.mem_cons_of_mem _ hmem, hp⟩

/-- What is kept of one of several containers. -/
theorem mem_keptLines {seen : String → Option Time} {sources : List LogSource}
    (hnames : (sources.map fun source => source.ctr.name).Nodup) {source : LogSource}
    (hsource : source ∈ sources) {line : ParsedLine}
    (hline : line ∈ (keepLater ParsedLine.ts (seen source.ctr.name) source.lines).1) :
    (source.ctr, line) ∈ keptLines seen sources := by
  induction sources generalizing seen with
  | nil => exact absurd hsource List.not_mem_nil
  | cons first sources ih =>
    rw [List.map_cons, List.nodup_cons] at hnames
    rw [keptLines]
    rcases List.mem_cons.mp hsource with rfl | hsource
    · exact List.mem_append_left _ (List.mem_map_of_mem hline)
    · have hname : source.ctr.name ≠ first.ctr.name := fun heq =>
        hnames.1 (List.mem_map.mpr ⟨source, hsource, heq⟩)
      refine List.mem_append_right _ (ih hnames.2 hsource ?_)
      rwa [Function.update_of_ne hname]

/-- What is remembered is not emitted. -/
theorem LogState.Remembers.notMem {sources : List LogSource} {s s' : LogState} {e : LogEntry}
    {entries : List LogEntry} (h : s.Remembers e)
    (hcollect : collectLogs rt hostID s sources = some (entries, s')) : e ∉ entries := by
  rw [collectLogs_eq hcollect]
  intro hmem
  obtain ⟨p, hp, rfl⟩ := List.mem_map.mp hmem
  obtain ⟨t, ht, hle⟩ := h
  have hname : (logEntry rt hostID p.1 p.2).labels.get "container" = p.1.name :=
    get_container_entityLabels hostID p.1.name p.1.labels
  have hlater := later_of_mem_keptLines hp
  rw [← hname, ht] at hlater
  exact absurd (of_decide_eq_true hlater) (not_lt.mpr hle)

theorem lines_eq (source : LogSource) :
    source.lines = blockEntries source.clock 0 (logBlocks source.window) := by
  rw [LogSource.lines, coalesceLogLines_eq]

/-- Every entry of a batch is that of a line. -/
theorem exists_line_of_mem {sources : List LogSource} {s s' : LogState} {entries : List LogEntry}
    (hcollect : collectLogs rt hostID s sources = some (entries, s')) {e : LogEntry}
    (he : e ∈ entries) : ∃ l : CollectedLine, (∃ source ∈ sources, source.Shows l) ∧
      ∃ now, e = l.entry rt hostID now := by
  rw [collectLogs_eq hcollect] at he
  obtain ⟨p, hp, rfl⟩ := List.mem_map.mp he
  obtain ⟨source, hsource, hctr, hline⟩ := exists_source_of_mem_keptLines hp
  rw [lines_eq] at hline
  obtain ⟨i, block, -, hblock, heq⟩ := exists_of_mem_blockEntries hline
  refine ⟨⟨source.ctr, block⟩, ⟨source, hsource, rfl, hblock⟩, source.clock i, ?_⟩
  rw [CollectedLine.entry, hctr, heq]

/-- The entry of a line with a timestamp does not depend on the clock. -/
theorem CollectedLine.entry_eq {l : CollectedLine} (h : l.stamped = true) (now now' : Time) :
    l.entry rt hostID now = l.entry rt hostID now' := by
  obtain ⟨line, hline, hts⟩ := (Option.any_eq_true _ _).mp h
  have hzero : ((l.block.head?.map ParsedLine.ts).getD ⟨0⟩).isZero = false := by
    rw [hline]
    exact Bool.not_eq_true' _ ▸ hts
  rw [CollectedLine.entry, CollectedLine.entry, blockEntry, blockEntry]
  simp only [hzero, Bool.false_eq_true, if_false]

/-- The timestamps of a block are those of the lines. -/
theorem exists_ts_of_mem_logBlocks {lines block : List ParsedLine}
    (hblock : block ∈ logBlocks lines) {line : ParsedLine} (hline : line ∈ block) :
    ∃ line' ∈ lines, line.ts = line'.ts := by
  have hmem : line ∈ nonBlankLines lines := by
    rw [← logCutter.flatten_cut (nonBlankLines lines)]
    exact List.mem_flatten.mpr ⟨block, hblock, hline⟩
  obtain ⟨line', hline', rfl⟩ := List.mem_map.mp (List.mem_filter.mp hmem).1
  exact ⟨line', hline', rfl⟩

/-- A line without a timestamp is kept at every poll: it gets a later time than all before it. -/
theorem LogSource.Ahead.keeps {source : LogSource} {s : LogState} (h : source.Ahead s)
    {l : CollectedLine} (hshows : source.Shows l) (hstamped : l.stamped = false) :
    ∃ now, blockEntry now l.block ∈
      (keepLater ParsedLine.ts (s.get? source.ctr.name) source.lines).1 := by
  obtain ⟨before, after, hblocks⟩ := List.append_of_mem hshows.2
  have hnow : ∀ now, (blockEntry now l.block).ts = now := by
    intro now
    rcases hhead : l.block.head? with - | line
    · rw [blockEntry, hhead]
      rfl
    · rw [CollectedLine.stamped, hhead, Option.any_some, Bool.not_eq_false'] at hstamped
      rw [blockEntry, hhead]
      exact if_pos hstamped
  refine ⟨source.clock before.length, ?_⟩
  rw [lines_eq, hblocks, blockEntries_append, blockEntries, Nat.zero_add]
  refine mem_keepLater ?_ fun line hline => ?_
  · rw [hnow]
    rcases hmark : s.get? source.ctr.name with - | t
    · rfl
    · exact decide_eq_true (h.remembered _ t hmark)
  · rw [hnow]
    obtain ⟨i, block, hi, hblock, rfl⟩ := exists_of_mem_blockEntries hline
    have hclock := h.forward i before.length (by omega)
    have hmem : block ∈ logBlocks source.window := hblocks ▸ List.mem_append_left _ hblock
    rw [blockEntry]
    simp only
    split_ifs with hzero
    · exact hclock
    · rcases hhead : block.head? with - | line
      · rw [hhead] at hzero
        exact absurd rfl hzero
      · obtain ⟨line', hline', hts⟩ := exists_ts_of_mem_logBlocks hmem (List.mem_of_head? hhead)
        rw [Option.map_some, Option.getD_some, hts]
        exact h.written _ line' hline'

/-- **A line without a timestamp is let through again**, whatever is remembered. -/
theorem emitsAgain_of_not_stamped {l : CollectedLine} (h : l.stamped = false) (s : LogState) :
    s.EmitsAgain rt hostID l := by
  rintro sources entries s' hcollect hnames hahead ⟨source, hsource, hshows⟩
  obtain ⟨now, hkept⟩ := (hahead source hsource).keeps hshows h
  refine ⟨now, ?_⟩
  rw [collectLogs_eq hcollect, CollectedLine.entry, ← hshows.1]
  exact List.mem_map_of_mem (f := fun p : ContainerInfo × ParsedLine => logEntry rt hostID p.1 p.2)
    (mem_keptLines hnames hsource hkept)

/-- A container polled once more, with a clock that is past all that was seen. -/
def LogSource.again (source : LogSource) (s : LogState) : LogSource :=
  { source with
    clock := fun n => ⟨(s.get? source.ctr.name).elim 0 Time.ns +
      (source.window.map fun line => line.ts.ns).sum + n + 1⟩ }

theorem LogSource.ahead_again (source : LogSource) (s : LogState) : (source.again s).Ahead s where
  forward m n hmn := by
    rw [Time.lt_def]
    exact Nat.succ_lt_succ (Nat.add_lt_add_left hmn _)
  remembered n t ht := by
    have hname : (source.again s).ctr = source.ctr := rfl
    rw [hname] at ht
    rw [Time.lt_def, LogSource.again, ht, Option.elim_some]
    simp only
    omega
  written n line hline := by
    have hle : line.ts.ns ≤ (source.window.map fun line => line.ts.ns).sum :=
      List.le_sum_of_mem (List.mem_map_of_mem hline)
    rw [Time.lt_def, LogSource.again]
    simp only
    omega

variable {Healthy : Prop} {spool : Option ℕ} {s s' : LogState} {a a' : AgentState}
  {sent : List SentLogs}

/-- A batch is what was collected of its answers. -/
theorem LogRun.collected (h : LogRun Healthy rt hostID spool s a sent s' a') :
    ∀ r ∈ sent, ∃ s₀, collectLogs rt hostID s₀ r.sources = some (r.entries, r.state) := by
  induction h with
  | nil => exact fun r hr => absurd hr List.not_mem_nil
  | unlisted rest ih => exact ih
  | quiet collect rest ih => exact ih
  | sent collect nonempty send rest ih => exact List.forall_mem_cons.mpr ⟨⟨_, collect⟩, ih⟩

/-- The answers of a collection can be read. -/
theorem demux_of_collected {sources : List LogSource} {s s' : LogState} {entries : List LogEntry}
    (h : collectLogs rt hostID s sources = some (entries, s')) {source : LogSource}
    (hsource : source ∈ sources) {body : List UInt8} (hbody : source.body = some body) :
    ∃ lines, demuxDockerLogs (body.take bodyLimit) = some lines := by
  induction sources generalizing s s' entries with
  | nil => exact absurd hsource List.not_mem_nil
  | cons first sources ih =>
    rw [collectLogs] at h
    rcases hfirst : first.body with - | body'
    · rw [hfirst] at h
      rcases List.mem_cons.mp hsource with rfl | hsource
      · exact absurd (hfirst.symm.trans hbody) (Option.some_ne_none _).symm
      · exact ih h hsource
    · rw [hfirst] at h
      simp only [Option.bind_eq_bind, Option.bind_eq_some_iff, Prod.exists] at h
      obtain ⟨batch, s₁, hbatch, rest, s₂, hrest, -⟩ := h
      rcases List.mem_cons.mp hsource with rfl | hsource
      · obtain ⟨lines, hlines, -⟩ := Option.map_eq_some_iff.mp hbatch
        obtain rfl := Option.some.inj (hfirst.symm.trans hbody)
        exact ⟨lines, hlines⟩
      · exact ih hrest hsource

/-- **A line with a timestamp is not let through again**, however the call ended. -/
theorem LogRun.not_emitsAgain (h : LogRun Healthy rt hostID spool s a sent s' a') {r : SentLogs}
    (hr : r ∈ sent) {l : CollectedLine} (hhas : r.Has rt hostID l) (hstamped : l.stamped = true) :
    ¬ r.state.EmitsAgain rt hostID l := by
  obtain ⟨s₀, hcollect⟩ := h.collected r hr
  obtain ⟨⟨source, hsource, hctr, hblock⟩, now, hentry⟩ := hhas
  have hremembers : r.state.Remembers (l.entry rt hostID now) :=
    (collectLogs_remembers hcollect).2 _ hentry
  intro hagain
  rcases hbody : source.body with - | body
  · rw [LogSource.window, hbody] at hblock
    exact absurd hblock (by simp [logBlocks, nonBlankLines, Cutter.cut])
  · obtain ⟨lines, hlines⟩ := demux_of_collected hcollect hsource hbody
    have hread : ∀ source' ∈ [source.again r.state], ∀ body' ∈ source'.body,
        (demuxDockerLogs (body'.take bodyLimit)).isSome := by
      refine List.forall_mem_singleton.mpr fun body' hbody' => ?_
      obtain rfl := Option.some.inj (hbody.symm.trans hbody')
      rw [hlines]
      rfl
    obtain ⟨entries, s'', hpoll⟩ := exists_collectLogs rt hostID hread r.state
    obtain ⟨now', hmem⟩ := hagain [source.again r.state] entries s'' hpoll (List.nodup_singleton _)
      (List.forall_mem_singleton.mpr (source.ahead_again r.state))
      ⟨_, List.mem_singleton_self _, hctr, hblock⟩
    rw [CollectedLine.entry_eq hstamped now' now] at hmem
    exact hremembers.notMem hpoll hmem

/-- **Key result.** Every entry that is sent is that of a line of its batch. The lines of all
batches that are lost are let through again if and only if none of them has a timestamp of
Docker. -/
theorem remembers_iff (h : LogRun Healthy rt hostID spool s a sent s' a') :
    (∀ r ∈ sent, ∀ e ∈ r.entries, ∃ l, r.Has rt hostID l ∧ ∃ now, e = l.entry rt hostID now) ∧
    ((∀ r ∈ sent, r.Lost → ∀ l, r.Has rt hostID l → r.state.EmitsAgain rt hostID l) ↔
      ∀ r ∈ sent, r.Lost → ∀ l, r.Has rt hostID l → l.stamped = false) := by
  refine ⟨fun r hr e he => ?_, fun hagain r hr hlost l hhas => ?_,
    fun hplain r hr hlost l hhas => ?_⟩
  · obtain ⟨s₀, hcollect⟩ := h.collected r hr
    obtain ⟨l, hshows, now, rfl⟩ := exists_line_of_mem hcollect he
    exact ⟨l, ⟨hshows, now, he⟩, now, rfl⟩
  · by_contra hstamped
    exact h.not_emitsAgain hr hhas (eq_true_of_ne_false hstamped) (hagain r hr hlost l hhas)
  · exact emitsAgain_of_not_stamped (hplain r hr hlost l hhas) r.state

/-- One container with one line. -/
def oneSource : LogSource where
  ctr := someContainer
  body := some ([charRecord false 2].flatMap LogRecord.frame)
  clock _ := ⟨0⟩

/-- The entry of the line. -/
def oneEntry : LogEntry :=
  logEntry asciiRuntime "h" someContainer ⟨(stampAt false).time, "x"⟩

theorem demux_oneSource :
    demuxDockerLogs (([charRecord false 2].flatMap LogRecord.frame).take bodyLimit) =
      some [⟨(stampAt false).time, "x"⟩] := by
  have hlength : ([charRecord false 2].flatMap LogRecord.frame).length ≤ bodyLimit := by
    have hstamp := (charRecord false 2).stamp_short
    have hmessage : (charRecord false 2).message.length = 1 := rfl
    have hlimit : bodyLimit = 524288 := rfl
    rw [List.flatMap_singleton, LogRecord.length_frame, LogRecord.length_line]
    omega
  rw [List.take_of_length_le hlength, demuxDockerLogs_flatMap, List.map_singleton,
    parsed_charRecord]
  rfl

/-- The line is collected. -/
theorem collectLogs_oneSource : ∃ s, collectLogs asciiRuntime "h" ∅ [oneSource] =
    some ([oneEntry], s) := by
  obtain ⟨s, hs, -⟩ := containerLogs_window asciiRuntime "h" someContainer (fun _ => ⟨0⟩) (s := ∅)
    (w := ⟨[], [⟨(stampAt false).time, "x"⟩]⟩) demux_oneSource (by decide +kernel)
    (List.pairwise_singleton _ _) (List.forall_mem_singleton.mpr (by decide))
  refine ⟨s, ?_⟩
  rw [collectLogs]
  simp only [oneSource, hs, collectLogs, Option.bind_eq_bind, Option.bind_some, List.append_nil]
  have hblocks : (Window.kept logCutter ParsedLine.ts ((∅ : LogState).get? someContainer.name)
      ⟨[], [⟨(stampAt false).time, "x"⟩]⟩).map mergedLine = [⟨(stampAt false).time, "x"⟩] := by
    decide +kernel
  have hentries := congrArg (List.map (logEntry asciiRuntime "h" someContainer)) hblocks
  rw [List.map_map] at hentries
  exact congrArg (fun entries => some (entries, s)) hentries

/-- One container with one line, without a timestamp. -/
def unstampedSource : LogSource where
  ctr := someContainer
  body := some (asciiBytes ['x', '\n'])
  clock n := ⟨n + 1⟩

/-- The entry of the line. -/
def unstampedEntry : LogEntry := logEntry asciiRuntime "h" someContainer ⟨⟨1⟩, "x"⟩

theorem demux_unstampedSource :
    demuxDockerLogs ((asciiBytes ['x', '\n']).take bodyLimit) = some [⟨⟨0⟩, "x"⟩] := by
  decide +kernel

/-- The line is collected, with the time of the poll. -/
theorem collectLogs_unstampedSource : ∃ s, collectLogs asciiRuntime "h" ∅ [unstampedSource] =
    some ([unstampedEntry], s) := by
  have hread : ∀ source ∈ [unstampedSource], ∀ body ∈ source.body,
      (demuxDockerLogs (body.take bodyLimit)).isSome := by
    refine List.forall_mem_singleton.mpr fun body hbody => ?_
    obtain rfl := Option.some.inj hbody
    rw [demux_unstampedSource]
    rfl
  obtain ⟨entries, s, hcollect⟩ := exists_collectLogs asciiRuntime "h" hread ∅
  have hlines : unstampedSource.lines = [⟨⟨1⟩, "x"⟩] := by
    have hwindow : unstampedSource.window = [⟨⟨0⟩, "x"⟩] :=
      congrArg (·.getD []) demux_unstampedSource
    rw [LogSource.lines, hwindow]
    decide +kernel
  have hentries : entries = [unstampedEntry] := by
    rw [collectLogs_eq hcollect, keptLines, hlines]
    rfl
  exact ⟨s, hentries ▸ hcollect⟩

/-- A batch of one entry. -/
def oneBatch (e : LogEntry) : Batch := ⟨"/api/v1/logs/batch", "b1", .arr [collectedJson e]⟩

/-- What is known of a batch of one entry that the hub, without a spool, answers 400. -/
def rejected (source : LogSource) (e : LogEntry) (s : LogState) : SentLogs where
  id := "b1"
  sources := [source]
  entries := [e]
  err := some (.status 400)
  before := ⟨.empty, []⟩
  after := ⟨.empty, [.posted .caller "b1", .answered .caller (oneBatch e) (some (.status 400))]⟩
  state := s

theorem lost_rejected (source : LogSource) (e : LogEntry) (s : LogState) :
    (rejected source e s).Lost :=
  ⟨Option.some_ne_none _, fun c h => by simp [rejected] at h, List.not_mem_nil⟩

/-- A run in which one batch is sent, without a spool, to a hub that answers 400. -/
theorem logRun_rejected {source : LogSource} {e : LogEntry} {s : LogState}
    (hcollect : collectLogs asciiRuntime "h" ∅ [source] = some ([e], s)) :
    LogRun True asciiRuntime "h" none ∅ ⟨.empty, []⟩ [rejected source e s] s
      (rejected source e s).after := by
  have hsend : (sendLogs 1 none "b1" [e]).replay
      (scripted none (fun _ => some (.status 400)) ⟨0⟩) ⟨.empty, []⟩ =
        some (some (.status 400), (rejected source e s).after) := rfl
  have hsteps := Program.steps_of_replay (E := agentEffect True)
    (agentEffect_of_scripted fun _ => ⟨by decide, fun code h => by cases h; decide⟩) hsend
  exact .sent hcollect (List.cons_ne_nil _ _) hsteps (.nil s _)

/-- A batch of a line without a timestamp is lost, and the line is let through again. -/
theorem remembers_unstamped : ∃ s, LogRun True asciiRuntime "h" none ∅ ⟨.empty, []⟩
      [rejected unstampedSource unstampedEntry s] s
      (rejected unstampedSource unstampedEntry s).after ∧
    (rejected unstampedSource unstampedEntry s).Lost ∧
    (∃ l, (rejected unstampedSource unstampedEntry s).Has asciiRuntime "h" l) ∧
    ∀ l, (rejected unstampedSource unstampedEntry s).Has asciiRuntime "h" l →
      s.EmitsAgain asciiRuntime "h" l := by
  obtain ⟨s, hcollect⟩ := collectLogs_unstampedSource
  have hrun := logRun_rejected hcollect
  obtain ⟨hlines, hiff⟩ := remembers_iff hrun
  obtain ⟨l, hl, -⟩ :=
    hlines _ (List.mem_singleton_self _) unstampedEntry (List.mem_singleton_self _)
  refine ⟨s, hrun, lost_rejected _ _ _, ⟨l, hl⟩, ?_⟩
  refine hiff.mpr (List.forall_mem_singleton.mpr fun _ l hhas => ?_) _ (List.mem_singleton_self _)
    (lost_rejected _ _ _)
  -- the only block has no timestamp
  obtain ⟨⟨source, hsource, -, hblock⟩, -⟩ := hhas
  obtain rfl := List.mem_singleton.mp hsource
  have hwindow : unstampedSource.window = [⟨⟨0⟩, "x"⟩] := congrArg (·.getD []) demux_unstampedSource
  have hblocks : logBlocks unstampedSource.window = [[⟨⟨0⟩, "x"⟩]] := by
    rw [hwindow]
    decide +kernel
  rw [hblocks] at hblock
  rw [CollectedLine.stamped, List.mem_singleton.mp hblock]
  rfl

/-- A batch that the hub rejects is lost, and its line, which has a timestamp, is not let through
again. -/
theorem rejected_forgotten : ∃ s, LogRun True asciiRuntime "h" none ∅ ⟨.empty, []⟩
      [rejected oneSource oneEntry s] s (rejected oneSource oneEntry s).after ∧
    (rejected oneSource oneEntry s).Lost ∧
    ∃ l, (rejected oneSource oneEntry s).Has asciiRuntime "h" l ∧
      ¬ s.EmitsAgain asciiRuntime "h" l := by
  obtain ⟨s, hcollect⟩ := collectLogs_oneSource
  have hrun := logRun_rejected hcollect
  have hline : oneSource.window = [⟨(stampAt false).time, "x"⟩] :=
    congrArg (·.getD []) demux_oneSource
  have hblocks : logBlocks oneSource.window = [[⟨(stampAt false).time, "x"⟩]] := by
    rw [hline]
    decide +kernel
  have hhas : (rejected oneSource oneEntry s).Has asciiRuntime "h"
      ⟨someContainer, [⟨(stampAt false).time, "x"⟩]⟩ := by
    refine ⟨⟨oneSource, List.mem_singleton_self _, rfl, ?_⟩, ⟨0⟩, ?_⟩
    · rw [hblocks]
      exact List.mem_singleton_self _
    · refine List.mem_singleton.mpr ?_
      have hentry : blockEntry ⟨0⟩ [⟨(stampAt false).time, "x"⟩] = ⟨(stampAt false).time, "x"⟩ := by
        decide +kernel
      rw [CollectedLine.entry, hentry, oneEntry]
  exact ⟨s, hrun, lost_rejected _ _ _, _, hhas, hrun.not_emitsAgain (List.mem_singleton_self _) hhas
    (by decide +kernel)⟩

end Argus
