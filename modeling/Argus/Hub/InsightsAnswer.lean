import Argus.Foundations.Grouping
import Argus.Foundations.Ranking
import Argus.Hub.DerivedViews
import Argus.Hub.Groups
import Argus.Insights.Generate
import Argus.Store.Workloads

/-!
# The insights of the hub

`handleInsights` reads the workloads, the counts of topics, the fleet status, the repeated patterns
and the topology, each at a moment of its own, and adds the active alerts to what is generated from
them. An error of one of the first three is an error of the answer; the patterns and the topology
are left out then.

`insights_answer` says what the answer of a hub is whose tables hold what agents have sent: exactly
the insights that are due, the critical ones first. Their ids are different, up to edges that are
written alike.
-/

namespace Argus

open Foundations
open Model (TopologyGraph)

/-! ### Reads -/

/-- `t.Format(time.RFC3339)`, in UTC. -/
def Time.formatSeconds (t : Time) : String := String.ofList (Time.secondText t.sec ++ ['Z'])

/-- A row of `log_patterns`. -/
def patternOf (e : PatternKey × PatternRow) : LogPattern where
  patternKey := (ofLex e.1).1
  pattern := e.2.pattern
  container := (ofLex e.1).2
  service := e.2.service
  count := e.2.count
  lastSeen := e.2.lastSeen
  sample := e.2.sample

/-- The possible results of `ListLogPatterns`: `ORDER BY count DESC LIMIT ?`. -/
def ListLogPatterns (table : SortedMap PatternKey PatternRow) (since : Time) (limit : ℕ)
    (out : List LogPattern) : Prop :=
  ∃ sorted, Ranked LogPattern.count
      ((table.entries.filter fun e => sinceFilter since e.2.lastSeen).map patternOf) sorted ∧
    out = sorted.take (if limit = 0 then 50 else limit)

/-- The insight about an active alert. -/
def ActiveAlert.insight (key : String) (a : ActiveAlert) : Insight where
  id := "alert:" ++ key
  theme := "alert_active"
  severity := a.severity
  title := a.title
  summary := a.summary
  container := a.container
  entityUID := a.entityUID
  evidence := .ofList [("rule_id", .str a.ruleID), ("fired_at", .str a.firedAt.formatSeconds),
    ("value", .float a.value)]
  recommendations := ["Alert is active. Check the container metrics and logs."]

/-- The possible results of `ActiveInsights`. -/
def Engine.ActiveInsights (e : Engine) (out : List Insight) : Prop :=
  out.Perm (e.active.entries.map fun a => a.2.insight a.1)

/-- What `handleInsights` reads, where an error is `none`. -/
structure InsightReads where
  workloads : Option (List WorkloadSnapshot)
  logStats : Option (List (TopicKey × ℕ))
  fleetRows : Option (List FleetStatus)
  group : Except StoreError NamedGroup
  patterns : Option (List LogPattern)
  graph : Option TopologyGraph
  rules : Engine

/-! ### The handler -/

/-- An element of `wlMem`. -/
def WorkloadSnapshot.memory (w : WorkloadSnapshot) : WorkloadMemory where
  container := w.container
  entityUID := w.entityUID
  cpuUsage := w.cpuUsage
  memoryPct := w.memoryPct
  memoryUsage := w.memoryUsage
  memoryLimit := w.memoryLimit

/-- An element of `logStats`. -/
def topicStats (e : TopicKey × ℕ) : LogTopicStats :=
  ⟨(ofLex e.1).1, (ofLex (ofLex e.1).2).1, (ofLex (ofLex e.1).2).2, e.2⟩

/-- `model.InsightsResponse`. -/
structure InsightsResponse where
  since : String
  insights : List Insight

/-- The insights before the active alerts, with or without a group. -/
def generated (r : InsightReads) (groupID : String) (workloads : List WorkloadSnapshot)
    (logStats : List LogTopicStats) (fleetRows : List FleetStatus)
    (out : Except HttpError (List Insight)) : Prop :=
  if groupID ≠ "" then
    match r.group with
    | .error err => out = .error err.http
    | .ok g => out = .ok (GenerateGroup g (FilterWorkloads workloads g.toWorkloadGroup) logStats
        fleetRows)
  else ∃ ins, Generate (workloads.map WorkloadSnapshot.memory) logStats ins ∧
    out = .ok (ins ++ GenerateFleet fleetRows ++ r.patterns.elim [] GeneratePatternSpikes ++
      r.graph.elim [] fun graph => GenerateTopologyChain graph logStats)

/-- The possible results of `handleInsights`. -/
def handleInsights (tt : TimeTexts) (now : Time) (since groupID : String) (r : InsightReads)
    (out : Except HttpError InsightsResponse) : Prop :=
  match requestWindow tt now hour since with
  | none => out = .error ⟨400, "invalid range"⟩
  | some window =>
    match r.workloads, r.logStats, r.fleetRows with
    | some workloads, some counts, some fleetRows =>
      ∃ result alerts, generated r groupID workloads (counts.map topicStats) fleetRows result ∧
        r.rules.ActiveInsights alerts ∧
        out = result.map fun ins =>
          ⟨window.1.formatSeconds, SortBySeverity (ins ++ alerts)⟩
    | _, _, _ => out = .error ⟨500, "store error"⟩

/-! ### What is due -/

/-- The tables of a hub, each as it was when it was read. -/
structure InsightTables where
  metrics : MetricTables
  logs : List LogRow
  fleet : FleetTable
  patterns : SortedMap PatternKey PatternRow
  topology : TopologyTables

/-- The tables hold what agents have sent. -/
structure InsightTables.FromAgents (t : InsightTables) : Prop where
  metrics : ∃ batches, writeAll batches = some t.metrics ∧
    ∀ p ∈ batches.flatten, workloadMetric p.metricName = true → FromHost p
  fleet : ∃ arrived, fleetRun arrived = some t.fleet
  patterns : ∀ k ∈ t.patterns.keys, ':' ∉ (ofLex k).1.toList

/-- What is read is in the tables. -/
structure InsightReads.From (r : InsightReads) (t : InsightTables) (start : Time) : Prop where
  workloads : ∀ out, r.workloads = some out → ListWorkloads t.metrics start out
  logStats : ∀ out, r.logStats = some out → CountLogTopics t.logs start out
  fleetRows : ∀ out, r.fleetRows = some out → GetFleetStatus t.fleet out
  patterns : ∀ out, r.patterns = some out → ListLogPatterns t.patterns start 30 out
  graph : ∀ out, r.graph = some out → GetTopology t.topology start out

/-- The lines of a container since a time that have some topics, each as often as it has one. -/
def linesSince (logs : List LogRow) (start : Time) (topics : List String) (container : String) :
    ℕ :=
  ((entriesSince logs start).flatMap LogRow.topicKeys).countP fun k =>
    topics.contains (ofLex (ofLex k).2).2 && (ofLex k).1 == container

/-- The insights that are due to what was read, and to the lines in the log. -/
inductive InsightDue (r : InsightReads) (lines : List String → String → ℕ) : Insight → Prop
  | memoryCritical {workloads : List WorkloadSnapshot} (read : r.workloads = some workloads)
      {w : WorkloadSnapshot} (mem : w ∈ workloads) (pct : w.memoryPct.atLeast 90 = true) :
      InsightDue r lines w.memory.memoryCritical
  | memoryHigh {workloads : List WorkloadSnapshot} (read : r.workloads = some workloads)
      {w : WorkloadSnapshot} (mem : w ∈ workloads) (low : w.memoryPct.atLeast 90 = false)
      (pct : w.memoryPct.atLeast 75 = true) : InsightDue r lines w.memory.memoryHigh
  | cpuHot {workloads : List WorkloadSnapshot} (read : r.workloads = some workloads)
      {w : WorkloadSnapshot} (mem : w ∈ workloads)
      (cpu : Double.atLeast 80 (some w.cpuUsage) = true) : InsightDue r lines w.memory.cpuHot
  | gcThrash {counts : List (TopicKey × ℕ)} (read : r.logStats = some counts) (container : String)
      (enough : 15 ≤ lines ["gc"] container) :
      InsightDue r lines (gcThrash (entityByContainer (counts.map topicStats)) container
        (lines ["gc"] container))
  | oomRisk {counts : List (TopicKey × ℕ)} (read : r.logStats = some counts) (container : String)
      (enough : 1 ≤ lines ["oom", "memory"] container) :
      InsightDue r lines (oomRisk (entityByContainer (counts.map topicStats)) container
        (lines ["oom", "memory"] container))
  | errorSpike {counts : List (TopicKey × ℕ)} (read : r.logStats = some counts) (container : String)
      (enough : 10 ≤ lines ["error"] container) :
      InsightDue r lines (errorSpike (entityByContainer (counts.map topicStats)) container
        (lines ["error"] container))
  | oomKill {rows : List FleetStatus} (read : r.fleetRows = some rows) {c : FleetStatus}
      (mem : c ∈ rows) (killed : c.oomKilled = true) : InsightDue r lines c.oomKill
  | restartLoop {rows : List FleetStatus} (read : r.fleetRows = some rows) {c : FleetStatus}
      (mem : c ∈ rows) (restarts : 3 < c.restartCount) : InsightDue r lines c.restartLoop
  | unhealthy {rows : List FleetStatus} (read : r.fleetRows = some rows) {c : FleetStatus}
      (mem : c ∈ rows) (health : c.health = "unhealthy") : InsightDue r lines c.unhealthy
  | spike {patterns : List LogPattern} (read : r.patterns = some patterns) {p : LogPattern}
      (mem : p ∈ patterns) (often : 50 ≤ p.count) : InsightDue r lines p.spike
  | chain {graph : TopologyGraph} (read : r.graph = some graph) {e : Model.TopologyEdge}
      (mem : e ∈ graph.edges) (errors : 10 ≤ lines ["error"] e.target) :
      InsightDue r lines (chainDegradation (lines ["error"] e.target) e)
  | alert {key : String} {a : ActiveAlert} (active : r.rules.active.get? key = some a) :
      InsightDue r lines (a.insight key)

/-- The arrow between two services. -/
def arrow (e : Model.TopologyEdge) : String := e.source ++ "->" ++ e.target

/-- The arrows of the edges in the topology whose targets have errors. -/
def failingArrows (r : InsightReads) (lines : List String → String → ℕ) : List String :=
  ((r.graph.elim [] TopologyGraph.edges).filter fun e => 10 ≤ lines ["error"] e.target).map arrow

/-! ### Names -/

/-- The counts that were read are those of the log. -/
theorem linesIn_topicStats {logs : List LogRow} {start : Time} {counts : List (TopicKey × ℕ)}
    (h : CountLogTopics logs start counts) (topics : List String) (container : String) :
    linesIn topics (counts.map topicStats) container =
      (linesSince logs start topics container : ℕ) := by
  have hfilter : ((counts.map topicStats).filter fun s =>
      topics.contains s.topic && s.container == container) =
        (counts.filter fun e => topics.contains (ofLex (ofLex e.1).2).2 &&
          (ofLex e.1).1 == container).map topicStats := List.filter_map
  have hcount : (counts.filter fun e => topics.contains (ofLex (ofLex e.1).2).2 &&
      (ofLex e.1).1 == container).map (LogTopicStats.count ∘ topicStats) =
        ((counts.filter fun e => topics.contains (ofLex (ofLex e.1).2).2 &&
          (ofLex e.1).1 == container).map Prod.snd).map Nat.cast := by
    rw [List.map_map]
    rfl
  rw [linesIn, hfilter, List.map_map, hcount, ← Nat.cast_list_sum,
    ((h.filter _).map Prod.snd).sum_eq, linesSince, entriesSince, topicCounts,
    SortedMap.sum_filter_tally fun k : TopicKey =>
      topics.contains (ofLex (ofLex k).2).2 && (ofLex k).1 == container]

/-- The counts that were read have the last parts of entities as containers. -/
theorem plain_topicStats {logs : List LogRow} {start : Time} {counts : List (TopicKey × ℕ)}
    (h : CountLogTopics logs start counts) :
    ∀ s ∈ counts.map topicStats, ':' ∉ s.container.toList := by
  intro s hs
  obtain ⟨e, he, rfl⟩ := List.mem_map.mp hs
  have hkey : (topicCounts (entriesSince logs start)).get? e.1 = some e.2 :=
    SortedMap.mem_entries.mp (h.mem_iff.mp he)
  obtain ⟨row, -, hrow⟩ := List.mem_flatMap.mp (SortedMap.mem_of_get?_tally hkey)
  obtain ⟨topic, -, htopic⟩ := List.mem_map.mp hrow
  rw [topicStats, ← htopic]
  exact colon_notMem_lastPart row.entityUID

/-- The names of the workloads that were read. -/
theorem names_listWorkloads {db : MetricTables} {batches : List (List MetricPoint)}
    (hwrite : writeAll batches = some db)
    (hfrom : ∀ p ∈ batches.flatten, workloadMetric p.metricName = true → FromHost p) {since : Time}
    {out : List WorkloadSnapshot} (h : ListWorkloads db since out) :
    (out.map WorkloadSnapshot.container).Nodup ∧ ∀ w ∈ out, ':' ∉ w.container.toList := by
  obtain ⟨rows, hscan, hperm⟩ := h
  have hname : ∀ e ∈ (mergeRows rows).entries, e.2.container = e.1 := fun e he =>
    ((merged_scan hwrite hscan).snapshots e.1 e.2 (SortedMap.mem_entries.mp he)).1
  have hnames : (mergeRows rows).values.map WorkloadSnapshot.container = (mergeRows rows).keys := by
    rw [SortedMap.values, SortedMap.keys, List.map_map]
    exact List.map_congr_left hname
  refine ⟨?_, fun w hw => ?_⟩
  · rw [(hperm.map _).nodup_iff, hnames]
    exact (mergeRows rows).sorted_keys.imp fun h => h.ne
  · obtain ⟨c, hc⟩ := SortedMap.mem_values.mp (hperm.mem_iff.mp hw)
    obtain ⟨p, hp, hmetric, hcontainer, -⟩ := exists_point_of_snapshot hwrite hscan hc
    obtain ⟨hostID, name, dockerLabels, hdocker, hentity⟩ := hfrom p hp hmetric
    have hc' : name = c := by
      rw [← hcontainer, (Prod.mk.inj hentity).2]
      exact (get_container_entityLabels _ _ _).symm
    rw [((merged_scan hwrite hscan).snapshots c w hc).1, ← hc']
    exact hdocker.2

/-- The names of the containers that were read. -/
theorem names_getFleetStatus {arrived : List FleetSnapshot} {table : FleetTable}
    (h : fleetRun arrived = some table) {out : List FleetStatus} (hout : GetFleetStatus table out) :
    (out.map FleetStatus.container).Nodup ∧ ∀ c ∈ out, ':' ∉ c.container.toList := by
  have hmem := mem_getFleetStatus h hout
  have hrows : (lastRows arrived).Pairwise (fun a b => a.container ≠ b.container) ∧
      ∀ c ∈ lastRows arrived, ':' ∉ c.container.toList := by
    rw [lastRows]
    split
    · exact ⟨List.Pairwise.nil, fun c hc => absurd hc List.not_mem_nil⟩
    · rename_i s _
      exact ⟨s.distinct, fun c hc => (s.ofHost c hc).1.2⟩
  have hperm : out.Perm (lastRows arrived) :=
    (List.perm_ext_iff_of_nodup (nodup_getFleetStatus hout)
      (hrows.1.imp fun hne heq => hne (congrArg _ heq))).mpr hmem
  refine ⟨?_, fun c hc => hrows.2 c ((hmem c).mp hc)⟩
  rw [(hperm.map _).nodup_iff]
  exact List.pairwise_map.mpr hrows.1

/-- The keys of the active alerts are those of rules and entities. -/
theorem exists_call_of_active {calls : List EvalCall} {key : String} {a : ActiveAlert}
    (h : (NewEngine.evalAll calls).active.get? key = some a) : ∃ c ∈ calls, key = c.key := by
  induction calls using List.reverseRecOn with
  | nil => exact absurd h (by simp [Engine.evalAll, NewEngine])
  | append_singleton calls c ih =>
    rw [Engine.evalAll, List.foldl_append, List.foldl_cons, List.foldl_nil,
      ← Engine.evalAll] at h
    by_cases hkey : key = c.key
    · exact ⟨c, by simp, hkey⟩
    · rw [(Engine.evalRule_other _ c hkey).2] at h
      obtain ⟨c', hc', hkey'⟩ := ih h
      exact ⟨c', List.mem_append_left _ hc', hkey'⟩

/-! ### Ids -/

/-- A text is cut at the first mark in one way. -/
theorem cut_unique {mark : Char} {before before' after after' : List Char} (h : mark ∉ before)
    (h' : mark ∉ before') (heq : before ++ mark :: after = before' ++ mark :: after') :
    before = before' ∧ after = after' := by
  have htakes : ∀ {l : List Char} (rest : List Char), mark ∉ l →
      (l ++ mark :: rest).takeWhile (· != mark) = l := by
    intro l rest hl
    rw [List.takeWhile_append_of_pos, List.takeWhile_cons_of_neg (by simp), List.append_nil]
    exact fun c hc => bne_iff_ne.mpr fun heq => hl (heq ▸ hc)
  obtain rfl : before = before' := by
    rw [← htakes after h, heq, htakes after' h']
  exact ⟨rfl, (List.cons.inj (List.append_cancel_left heq)).2⟩

/-- The id of an insight that is not about a container alone. -/
def Insight.Beside (before : String) (i : Insight) : Prop :=
  ∃ after, i.id.toList = before.toList ++ ':' :: after ∧ (':' ∈ after ∨ '>' ∈ after)

/-- Such an id is not the name of a container and a kind. -/
theorem WellNamed.ne_beside {kinds : List String} {l : List Insight} (h : WellNamed kinds l)
    (hkinds : ∀ kind ∈ kinds, '>' ∉ kind.toList) {before : String} {j : Insight}
    (hj : j.Beside before) : ∀ i ∈ l, i.id ≠ j.id := by
  intro i hi heq
  obtain ⟨kind, hkind, hnamed⟩ := h.named i hi
  obtain ⟨after, hafter, hmark⟩ := hj
  obtain ⟨-, hsame⟩ := hnamed.inj ((congrArg String.toList heq).trans hafter)
  rcases hmark with hmark | hmark
  · exact hnamed.kind (hsame ▸ hmark)
  · exact hkinds kind hkind (hsame ▸ hmark)

theorem Insight.Beside.ne {before before' : String} (hne : before ≠ before')
    (hplain : ':' ∉ before.toList) (hplain' : ':' ∉ before'.toList) {i j : Insight}
    (hi : i.Beside before) (hj : j.Beside before') : i.id ≠ j.id := by
  obtain ⟨after, hafter, -⟩ := hi
  obtain ⟨after', hafter', -⟩ := hj
  intro heq
  obtain ⟨hsame, -⟩ := cut_unique hplain hplain'
    (hafter.symm.trans ((congrArg String.toList heq).trans hafter'))
  exact hne (String.toList_inj.mp hsame)

theorem LogPattern.spike_id (p : LogPattern) : p.spike.id.toList =
    "pattern".toList ++ ':' :: (p.patternKey.toList ++ ':' :: p.container.toList) := by
  simp only [spike, String.toList_append, List.append_assoc]
  rfl

theorem chainDegradation_id (errors : ℤ) (e : Model.TopologyEdge) :
    (chainDegradation errors e).id.toList =
      "topo:".toList ++ ((e.source.toList ++ ['-']) ++ '>' :: e.target.toList) := by
  simp only [chainDegradation, String.toList_append, List.append_assoc]
  rfl

theorem ActiveAlert.insight_id (a : ActiveAlert) (c : EvalCall) : (a.insight c.key).id.toList =
    "alert".toList ++ ':' :: (c.rule.id.toList ++ ':' :: c.entityUID.toList) := by
  simp only [insight, EvalCall.key, ruleKey, String.toList_append, List.append_assoc]
  rfl

/-- Patterns with different keys or containers have different ids. -/
theorem nodup_spikes {table : SortedMap PatternKey PatternRow} {start : Time} {limit : ℕ}
    (hkeys : ∀ k ∈ table.keys, ':' ∉ (ofLex k).1.toList) {patterns : List LogPattern}
    (h : ListLogPatterns table start limit patterns) :
    (GeneratePatternSpikes patterns).Pairwise fun i j => i.id ≠ j.id := by
  obtain ⟨sorted, ⟨hperm, -⟩, rfl⟩ := h
  have hrows : (((table.entries.filter fun e => sinceFilter start e.2.lastSeen).map
      patternOf)).Pairwise fun p q => p.spike.id ≠ q.spike.id := by
    rw [List.pairwise_map]
    refine (table.sorted.filter _).imp_of_mem fun {d e} hd he hlt heq => hlt.ne ?_
    have hplain : ∀ e ∈ table.entries, ':' ∉ (ofLex e.1).1.toList := fun e he =>
      hkeys e.1 (List.mem_map_of_mem he)
    have hids := congrArg String.toList heq
    rw [LogPattern.spike_id, LogPattern.spike_id] at hids
    obtain ⟨hkey, hcontainer⟩ := cut_unique (hplain d (List.mem_of_mem_filter hd))
      (hplain e (List.mem_of_mem_filter he)) (List.cons.inj (List.append_cancel_left hids)).2
    exact ofLex.injective (Prod.ext (String.toList_inj.mp hkey) (String.toList_inj.mp hcontainer))
  have hsorted := hperm.symm.pairwise hrows fun hne => hne.symm
  exact List.pairwise_map.mpr ((hsorted.sublist (List.take_sublist _ _)).filter _)

/-- Edges have different ids when they are written differently. -/
theorem nodup_chains_iff {lines : String → ℤ} {edges : List Model.TopologyEdge} :
    (edges.map fun e => chainDegradation (lines e.target) e).Pairwise (fun i j => i.id ≠ j.id) ↔
      (edges.map arrow).Nodup := by
  have hid : ∀ e : Model.TopologyEdge, (chainDegradation (lines e.target) e).id =
      "topo:" ++ arrow e := fun e => by
    simp only [chainDegradation, arrow, String.append_assoc]
  rw [List.Nodup, List.pairwise_map, List.pairwise_map]
  refine List.Pairwise.iff_of_mem fun {d e} _ _ => not_congr ?_
  rw [hid, hid, String.append_right_inj]

/-! ### The answer -/

/-- What the answer of a hub shows. -/
structure InsightsShown (r : InsightReads) (lines : List String → String → ℕ) (start : Time)
    (out : InsightsResponse) : Prop where
  since : out.since = start.formatSeconds
  /-- The insights that are due, and no others. -/
  due : ∀ i, i ∈ out.insights ↔ InsightDue r lines i
  /-- The critical ones first. -/
  sorted : out.insights.Pairwise fun i j => severityOrder i.severity ≤ severityOrder j.severity
  /-- Under different ids, if no two edges with targets that have errors are written alike. -/
  unique : (out.insights.map Insight.id).Nodup ↔ (failingArrows r lines).Nodup

section Answer

variable {t : InsightTables} {r : InsightReads} {start : Time} {workloads : List WorkloadSnapshot}
  {counts : List (TopicKey × ℕ)} {rows : List FleetStatus} {ins alerts : List Insight}

/-- What is due to the workloads and the lines is due. -/
theorem due_of_generated (hread : r.From t start) (hworkloads : r.workloads = some workloads)
    (hcounts : r.logStats = some counts) {i : Insight}
    (h : (∃ w ∈ workloads.map WorkloadSnapshot.memory, i ∈ w.candidates) ∨
      LinesDue (counts.map topicStats) i) : InsightDue r (linesSince t.logs start) i := by
  have hlines := linesIn_topicStats (hread.logStats _ hcounts)
  rcases h with ⟨w, hw, hi⟩ | ⟨c, ⟨henough, rfl⟩ | ⟨henough, rfl⟩ | ⟨henough, rfl⟩⟩
  · obtain ⟨w, hmem, rfl⟩ := List.mem_map.mp hw
    rcases WorkloadMemory.mem_candidates.mp hi with ⟨hpct, rfl⟩ | ⟨hlow, hpct, rfl⟩ | ⟨hcpu, rfl⟩
    · exact .memoryCritical hworkloads hmem hpct
    · exact .memoryHigh hworkloads hmem hlow hpct
    · exact .cpuHot hworkloads hmem hcpu
  · rw [hlines] at henough ⊢
    exact .gcThrash hcounts c (by exact_mod_cast henough)
  · rw [hlines] at henough ⊢
    exact .oomRisk hcounts c (Nat.one_le_iff_ne_zero.mpr (by exact_mod_cast henough))
  · rw [hlines] at henough ⊢
    exact .errorSpike hcounts c (by exact_mod_cast henough)

/-- The errors of a service are the lines of its container that have the topic. -/
theorem errorsOf_topicStats (hread : r.From t start) (hcounts : r.logStats = some counts)
    (service : String) : errorsOf (counts.map topicStats) service =
      (linesSince t.logs start ["error"] service : ℕ) :=
  (getD_byContainer _ _ _).trans (linesIn_topicStats (hread.logStats _ hcounts) _ _)

/-- What is due to the fleet is due. -/
theorem due_of_fleet {lines : List String → String → ℕ} (hrows : r.fleetRows = some rows)
    {c : FleetStatus} (hc : c ∈ rows) {i : Insight} (h : i ∈ c.candidates) :
    InsightDue r lines i := by
  rcases FleetStatus.mem_candidates.mp h with ⟨hkilled, rfl⟩ | ⟨hcount, rfl⟩ | ⟨hhealth, rfl⟩
  · exact .oomKill hrows hc hkilled
  · exact .restartLoop hrows hc hcount
  · exact .unhealthy hrows hc hhealth

/-- What is due to the patterns is due. -/
theorem due_of_spikes {lines : List String → String → ℕ} {i : Insight}
    (h : i ∈ r.patterns.elim [] GeneratePatternSpikes) : InsightDue r lines i := by
  rcases hpatterns : r.patterns with - | patterns
  · rw [hpatterns] at h
    exact absurd h List.not_mem_nil
  · rw [hpatterns] at h
    obtain ⟨p, hp, rfl⟩ := List.mem_map.mp h
    obtain ⟨hp, hoften⟩ := List.mem_filter.mp hp
    exact .spike hpatterns hp (of_decide_eq_true hoften)

/-- What is due to the edges is due. -/
theorem due_of_chains (hread : r.From t start) (hcounts : r.logStats = some counts) {i : Insight}
    (h : i ∈ r.graph.elim [] fun graph => GenerateTopologyChain graph (counts.map topicStats)) :
    InsightDue r (linesSince t.logs start) i := by
  rcases hgraph : r.graph with - | graph
  · rw [hgraph] at h
    exact absurd h List.not_mem_nil
  · rw [hgraph] at h
    obtain ⟨e, he, rfl⟩ := List.mem_map.mp h
    obtain ⟨he, hmany⟩ := List.mem_filter.mp he
    rw [errorsOf_topicStats hread hcounts] at hmany ⊢
    exact .chain hgraph he (by exact_mod_cast of_decide_eq_true hmany)

/-- What is due is in one of the parts of the answer. -/
theorem mem_parts_of_due (hread : r.From t start)
    (hworkloads : r.workloads = some workloads) (hcounts : r.logStats = some counts)
    (hrows : r.fleetRows = some rows)
    (hins : ∀ i, i ∈ ins ↔ (∃ w ∈ workloads.map WorkloadSnapshot.memory, i ∈ w.candidates) ∨
      LinesDue (counts.map topicStats) i)
    (hfleet : ∀ i, i ∈ GenerateFleet rows ↔ ∃ c ∈ rows, i ∈ c.candidates)
    (halerts : r.rules.ActiveInsights alerts) {i : Insight}
    (h : InsightDue r (linesSince t.logs start) i) :
    i ∈ ins ∨ i ∈ GenerateFleet rows ∨ i ∈ r.patterns.elim [] GeneratePatternSpikes ∨
      (i ∈ r.graph.elim [] fun graph => GenerateTopologyChain graph (counts.map topicStats)) ∨
        i ∈ alerts := by
  have hlines := linesIn_topicStats (hread.logStats _ hcounts)
  -- where something was read, it was read once
  have hsame : ∀ {α : Type} {o : Option α} {x y : α}, o = some x → o = some y → x = y :=
    fun hx hy => Option.some.inj (hx.symm.trans hy)
  cases h with
  | memoryCritical read mem pct =>
    obtain rfl := hsame hworkloads read
    exact .inl ((hins _).mpr (.inl ⟨_, List.mem_map_of_mem mem,
      WorkloadMemory.mem_candidates.mpr (.inl ⟨pct, rfl⟩)⟩))
  | memoryHigh read mem low pct =>
    obtain rfl := hsame hworkloads read
    exact .inl ((hins _).mpr (.inl ⟨_, List.mem_map_of_mem mem,
      WorkloadMemory.mem_candidates.mpr (.inr (.inl ⟨low, pct, rfl⟩))⟩))
  | cpuHot read mem cpu =>
    obtain rfl := hsame hworkloads read
    exact .inl ((hins _).mpr (.inl ⟨_, List.mem_map_of_mem mem,
      WorkloadMemory.mem_candidates.mpr (.inr (.inr ⟨cpu, rfl⟩))⟩))
  | gcThrash read container enough =>
    obtain rfl := hsame hcounts read
    refine .inl ((hins _).mpr (.inr ⟨container, .inl ?_⟩))
    rw [hlines]
    exact ⟨by exact_mod_cast enough, rfl⟩
  | oomRisk read container enough =>
    obtain rfl := hsame hcounts read
    refine .inl ((hins _).mpr (.inr ⟨container, .inr (.inl ?_)⟩))
    rw [hlines]
    exact ⟨by exact_mod_cast Nat.one_le_iff_ne_zero.mp enough, rfl⟩
  | errorSpike read container enough =>
    obtain rfl := hsame hcounts read
    refine .inl ((hins _).mpr (.inr ⟨container, .inr (.inr ?_)⟩))
    rw [hlines]
    exact ⟨by exact_mod_cast enough, rfl⟩
  | oomKill read mem killed =>
    obtain rfl := hsame hrows read
    exact .inr (.inl ((hfleet _).mpr ⟨_, mem,
      FleetStatus.mem_candidates.mpr (.inl ⟨killed, rfl⟩)⟩))
  | restartLoop read mem restarts =>
    obtain rfl := hsame hrows read
    exact .inr (.inl ((hfleet _).mpr ⟨_, mem,
      FleetStatus.mem_candidates.mpr (.inr (.inl ⟨restarts, rfl⟩))⟩))
  | unhealthy read mem health =>
    obtain rfl := hsame hrows read
    exact .inr (.inl ((hfleet _).mpr ⟨_, mem,
      FleetStatus.mem_candidates.mpr (.inr (.inr ⟨health, rfl⟩))⟩))
  | spike read mem often =>
    rw [read]
    exact .inr (.inr (.inl (List.mem_map_of_mem
      (List.mem_filter.mpr ⟨mem, decide_eq_true often⟩))))
  | chain read mem errors =>
    rw [read]
    refine .inr (.inr (.inr (.inl (List.mem_map.mpr ⟨_, List.mem_filter.mpr ⟨mem, ?_⟩, ?_⟩))))
    · rw [errorsOf_topicStats hread hcounts]
      exact decide_eq_true (by exact_mod_cast errors)
    · rw [errorsOf_topicStats hread hcounts]
  | alert active =>
    exact .inr (.inr (.inr (.inr (halerts.mem_iff.mpr (List.mem_map.mpr
      ⟨(_, _), SortedMap.mem_entries.mpr active, rfl⟩)))))

/-- The parts of the answer together are what is due. -/
theorem due_iff (hread : r.From t start)
    (hworkloads : r.workloads = some workloads) (hcounts : r.logStats = some counts)
    (hrows : r.fleetRows = some rows)
    (hins : ∀ i, i ∈ ins ↔ (∃ w ∈ workloads.map WorkloadSnapshot.memory, i ∈ w.candidates) ∨
      LinesDue (counts.map topicStats) i)
    (hfleet : ∀ i, i ∈ GenerateFleet rows ↔ ∃ c ∈ rows, i ∈ c.candidates)
    (halerts : r.rules.ActiveInsights alerts) (i : Insight) :
    i ∈ ins ++ GenerateFleet rows ++ r.patterns.elim [] GeneratePatternSpikes ++
        (r.graph.elim [] fun graph => GenerateTopologyChain graph (counts.map topicStats)) ++
          alerts ↔
      InsightDue r (linesSince t.logs start) i := by
  simp only [List.mem_append, or_assoc]
  refine ⟨?_, mem_parts_of_due hread hworkloads hcounts hrows hins hfleet halerts⟩
  rintro (hi | hi | hi | hi | hi)
  · exact due_of_generated hread hworkloads hcounts ((hins i).mp hi)
  · obtain ⟨c, hc, hi⟩ := (hfleet i).mp hi
    exact due_of_fleet hrows hc hi
  · exact due_of_spikes hi
  · exact due_of_chains hread hcounts hi
  · obtain ⟨e, he, rfl⟩ := List.mem_map.mp (halerts.mem_iff.mp hi)
    exact .alert (SortedMap.mem_entries.mp he)

/-- The ids of the parts together are different but for edges that are written alike. -/
theorem unique_iff {spikes chains : List Insight} {arrows : List String}
    (hbase : WellNamed (generateKinds ++ fleetKinds) ins)
    (hspikes : spikes.Pairwise fun i j => i.id ≠ j.id) (hpattern : ∀ i ∈ spikes, i.Beside "pattern")
    (hchains : chains.Pairwise (fun i j => i.id ≠ j.id) ↔ arrows.Nodup)
    (htopo : ∀ i ∈ chains, i.Beside "topo")
    (halerts : alerts.Pairwise fun i j => i.id ≠ j.id) (halert : ∀ i ∈ alerts, i.Beside "alert") :
    (ins ++ spikes ++ chains ++ alerts).Pairwise (fun i j => i.id ≠ j.id) ↔ arrows.Nodup := by
  have hkinds : ∀ kind ∈ generateKinds ++ fleetKinds, '>' ∉ kind.toList := by decide
  rw [← hchains]
  constructor
  · intro h
    exact (List.pairwise_append.mp (List.pairwise_append.mp h).1).2.1
  · intro h
    refine List.pairwise_append.mpr ⟨List.pairwise_append.mpr ⟨List.pairwise_append.mpr
      ⟨hbase.ids, hspikes, fun i hi j hj => hbase.ne_beside hkinds (hpattern j hj) i hi⟩, h,
      fun i hi j hj => ?_⟩, halerts, fun i hi j hj => ?_⟩
    · rcases List.mem_append.mp hi with hi | hi
      · exact hbase.ne_beside hkinds (htopo j hj) i hi
      · exact (hpattern i hi).ne (by decide) (by decide) (by decide) (htopo j hj)
    · rcases List.mem_append.mp hi with hi | hi
      · rcases List.mem_append.mp hi with hi | hi
        · exact hbase.ne_beside hkinds (halert j hj) i hi
        · exact (hpattern i hi).ne (by decide) (by decide) (by decide) (halert j hj)
      · exact (htopo i hi).ne (by decide) (by decide) (by decide) (halert j hj)

/-- The insights about alerts have different ids. -/
theorem alerts_ids {calls : List EvalCall}
    (h : (NewEngine.evalAll calls).ActiveInsights alerts) :
    alerts.Pairwise (fun i j => i.id ≠ j.id) ∧ ∀ i ∈ alerts, i.Beside "alert" := by
  refine ⟨?_, fun i hi => ?_⟩
  · have hentries : ((NewEngine.evalAll calls).active.entries.map fun a =>
        a.2.insight a.1).Pairwise fun i j => i.id ≠ j.id := by
      rw [List.pairwise_map]
      refine (NewEngine.evalAll calls).active.sorted.imp fun {a b} hlt heq => hlt.ne ?_
      exact (String.append_right_inj "alert:").mp heq
    exact h.symm.pairwise hentries fun hne => hne.symm
  · obtain ⟨e, he, rfl⟩ := List.mem_map.mp (h.mem_iff.mp hi)
    obtain ⟨c, -, hkey⟩ := exists_call_of_active (SortedMap.mem_entries.mp he)
    rw [hkey]
    exact ⟨_, e.2.insight_id c, .inl (by simp)⟩

end Answer

/-- **Key result: the insights of a hub.** When its tables hold what agents have sent, the answer to
a request without a group has, whatever order its maps are gone over in, exactly the insights that
are due to what was read, the critical ones first. No two have one id, unless the topology has two
edges that are written alike and whose targets have errors. -/
theorem insights_answer {tt : TimeTexts} {now start stop : Time} {since : String}
    {t : InsightTables} {r : InsightReads} {response : InsightsResponse}
    (hwindow : requestWindow tt now hour since = some (start, stop)) (hagents : t.FromAgents)
    (hrules : ∃ calls, r.rules = NewEngine.evalAll calls) (hread : r.From t start)
    (h : handleInsights tt now since "" r (.ok response)) :
    InsightsShown r (linesSince t.logs start) start response := by
  rw [handleInsights, hwindow] at h
  -- the three reads whose errors answer 500 have all succeeded
  rcases hworkloads : r.workloads with - | workloads
  · simp [hworkloads] at h
  rcases hcounts : r.logStats with - | counts
  · simp [hworkloads, hcounts] at h
  rcases hrows : r.fleetRows with - | rows
  · simp [hworkloads, hcounts, hrows] at h
  simp only [hworkloads, hcounts, hrows] at h
  obtain ⟨result, alerts, hresult, halerts, hout⟩ := h
  rw [generated, if_neg (not_not.mpr rfl)] at hresult
  obtain ⟨ins, hins, rfl⟩ := hresult
  obtain rfl := Except.ok.inj hout
  obtain ⟨batches, hwrite, hfrom⟩ := hagents.metrics
  obtain ⟨arrived, harrived⟩ := hagents.fleet
  obtain ⟨calls, hcalls⟩ := hrules
  -- the names that the hub's own writes leave in the tables
  have hnames := names_listWorkloads hwrite hfrom (hread.workloads _ hworkloads)
  have hfleetNames := names_getFleetStatus harrived (hread.fleetRows _ hrows)
  have hplain : PlainNames (workloads.map WorkloadSnapshot.memory) (counts.map topicStats) :=
    ⟨by rw [List.map_map]; exact hnames.1, List.forall_mem_map.mpr hnames.2,
      plain_topicStats (hread.logStats _ hcounts)⟩
  obtain ⟨hmem, hnamed⟩ := generate_of_distinct hplain hins
  obtain ⟨hfleetMem, hfleetNamed⟩ := generateFleet_of_distinct hfleetNames.1 hfleetNames.2
  -- sorting neither drops nor repeats an insight
  have hperm := sortBySeverity_perm (ins ++ GenerateFleet rows ++
    r.patterns.elim [] GeneratePatternSpikes ++
      (r.graph.elim [] fun graph => GenerateTopologyChain graph (counts.map topicStats)) ++ alerts)
  refine ⟨rfl, fun i => hperm.mem_iff.trans
    (due_iff hread hworkloads hcounts hrows hmem hfleetMem halerts i),
    sortBySeverity_pairwise _, ?_⟩
  have halertIds := alerts_ids (hcalls ▸ halerts)
  rw [(hperm.map _).nodup_iff, List.Nodup, List.pairwise_map]
  refine unique_iff (hnamed.append hfleetNamed (by decide)) ?_ ?_ ?_ ?_ halertIds.1 halertIds.2
  · rcases hpatterns : r.patterns with - | patterns
    · exact List.Pairwise.nil
    · exact nodup_spikes hagents.patterns (hread.patterns _ hpatterns)
  · intro i hi
    rcases hpatterns : r.patterns with - | patterns
    · rw [hpatterns] at hi
      exact absurd hi List.not_mem_nil
    · rw [hpatterns] at hi
      obtain ⟨p, -, rfl⟩ := List.mem_map.mp hi
      exact ⟨_, p.spike_id, .inl (by simp)⟩
  · rcases hgraph : r.graph with - | graph
    · rw [failingArrows, hgraph]
      exact iff_of_true List.Pairwise.nil List.nodup_nil
    · have hfilter : (graph.edges.filter fun e =>
          10 ≤ errorsOf (counts.map topicStats) e.target) =
            graph.edges.filter fun e => 10 ≤ linesSince t.logs start ["error"] e.target := by
        refine List.filter_congr fun e _ => decide_eq_decide.mpr ?_
        rw [errorsOf, getD_byContainer, linesIn_topicStats (hread.logStats _ hcounts)]
        exact_mod_cast Iff.rfl
      rw [failingArrows, hgraph]
      change (GenerateTopologyChain graph (counts.map topicStats)).Pairwise _ ↔ _
      rw [GenerateTopologyChain, nodup_chains_iff, hfilter]
      rfl
  · intro i hi
    rcases hgraph : r.graph with - | graph
    · rw [hgraph] at hi
      exact absurd hi List.not_mem_nil
    · rw [hgraph] at hi
      obtain ⟨e, -, rfl⟩ := List.mem_map.mp hi
      exact ⟨_, chainDegradation_id _ e, .inr (by simp)⟩

/-! ### A hub in trouble -/

/-- What was read without an error is answered. -/
theorem exists_response {tt : TimeTexts} {now start stop : Time} {since : String} {r : InsightReads}
    {workloads : List WorkloadSnapshot} {counts : List (TopicKey × ℕ)} {rows : List FleetStatus}
    (hwindow : requestWindow tt now hour since = some (start, stop))
    (hworkloads : r.workloads = some workloads) (hcounts : r.logStats = some counts)
    (hrows : r.fleetRows = some rows) :
    ∃ response, handleInsights tt now since "" r (.ok response) := by
  obtain ⟨ins, hins⟩ : ∃ ins, Generate (workloads.map WorkloadSnapshot.memory)
      (counts.map topicStats) ins :=
    ⟨_, _, _, _, List.Perm.refl _, List.Perm.refl _, List.Perm.refl _, rfl⟩
  obtain ⟨out, hgenerated⟩ : ∃ out, generated r "" workloads (counts.map topicStats) rows
      (.ok out) := by
    simp only [generated, if_neg (not_not.mpr (rfl : "" = ""))]
    exact ⟨_, ins, hins, rfl⟩
  simp only [handleInsights, hwindow, hworkloads, hcounts, hrows]
  exact ⟨_, _, _, hgenerated, List.Perm.refl _, rfl⟩

/-- Noon on 2024-03-01. -/
def troubleTime : Time := ⟨63844891200000000000⟩

/-- The hour before. -/
def troubleStart : Time := troubleTime.add (-hour)

/-- A container that was killed. -/
def killedContainer : FleetStatus where
  container := "api"
  entityUID := entityUID "a" "api"
  service := "api"
  state := "exited"
  health := ""
  restartCount := 0
  exitCode := 137
  oomKilled := true
  statusText := "Exited (137)"
  disposition := "oom"
  updatedAt := troubleTime

/-- A container that fails its healthcheck. -/
def failingContainer : FleetStatus where
  container := "web"
  entityUID := entityUID "a" "web"
  service := "web"
  state := "running"
  health := "unhealthy"
  restartCount := 1
  exitCode := 0
  oomKilled := false
  statusText := "Up (unhealthy)"
  disposition := ""
  updatedAt := troubleTime

/-- The snapshot of their host. -/
def troubledSnapshot : FleetSnapshot where
  hostID := "a"
  updatedAt := troubleTime
  rows := [killedContainer, failingContainer]
  ofHost := by decide
  distinct := by decide

/-- The points of a third container, at 95 of 100 bytes. -/
def troubledPoints : List MetricPoint :=
  collectContainer "a" "db" ∅ troubleTime (.finite 10) (.finite 95) (.finite 100)

/-- Ten errors of the first. -/
def troubledLogs : List LogRow :=
  List.replicate 10 ⟨troubleTime, "boom", "error", "docker:a:api", "\x7b\x7d",
    "\x7b\"topics\":[\"error\"]\x7d"⟩

/-- A call of the second to the first, which was seen three times. -/
def troubledEdge : TopologyEdgeRow := ⟨"web", "api", "http", 3⟩

/-- The tables of the metrics. -/
def troubledMetrics : MetricTables := (writeAll [troubledPoints]).getD MetricTables.empty

/-- A pattern that was repeated sixty times. -/
def troubledPatterns : SortedMap PatternKey PatternRow :=
  SortedMap.ofList [(toLex ("abc", "api"), ⟨"boom", "api", 60, troubleTime, ⟨"boom", by decide⟩⟩)]

/-- The tables of the hub. -/
def troubledTables (fleet : FleetTable) : InsightTables where
  metrics := troubledMetrics
  logs := troubledLogs
  fleet := fleet
  patterns := troubledPatterns
  topology :=
    ⟨∅, SortedMap.ofList [(toLex ("web", toLex ("api", "http")), ⟨3, troubleTime⟩)],
      fun _ h => absurd h List.not_mem_nil⟩

/-- The pattern as it is read. -/
def troubledPattern : LogPattern := ⟨"abc", "boom", "api", "api", 60, troubleTime, "boom"⟩

/-- The CPU of the third container, twice at 95 per cent. -/
def troubledCalls : List EvalCall :=
  [⟨cpuHigh, "docker:a:db", "db", ∅, some (.finite 95), troubleStart, ("1", "2")⟩,
    ⟨cpuHigh, "docker:a:db", "db", ∅, some (.finite 95), troubleTime, ("3", "4")⟩]

/-- What is read of them. -/
def troubledReads (rows : List FleetStatus) : InsightReads where
  workloads := some (mergeRows troubledMetrics.latest.entries).values
  logStats := some (topicCounts (entriesSince troubledLogs troubleStart)).entries
  fleetRows := some rows
  group := .error .notFound
  patterns := some [troubledPattern]
  graph := some ⟨topologyNodes [troubledEdge.edge], [troubledEdge.edge]⟩
  rules := NewEngine.evalAll troubledCalls

theorem fromAgents_troubled {fleet : FleetTable} (h : fleetRun [troubledSnapshot] = some fleet) :
    (troubledTables fleet).FromAgents := by
  have hwrite : (writeAll [troubledPoints]).isSome := by decide +kernel
  have hkeys : ∀ k ∈ troubledPatterns.keys, ':' ∉ (ofLex k).1.toList := by decide +kernel
  refine ⟨⟨[troubledPoints], ?_, fun p hp _ => ?_⟩, ⟨_, h⟩, hkeys⟩
  · obtain ⟨db, hdb⟩ := Option.isSome_iff_exists.mp hwrite
    rw [troubledTables, troubledMetrics, hdb, Option.getD_some]
  · rw [List.flatten_singleton] at hp
    exact fromHost_collectContainer (by decide) _ _ _ _ _ p hp

theorem from_troubled {fleet : FleetTable} {rows : List FleetStatus}
    (hrows : GetFleetStatus fleet rows) :
    (troubledReads rows).From (troubledTables fleet) troubleStart := by
  refine ⟨fun out hout => ?_, fun out hout => ?_, fun out hout => ?_, fun out hout => ?_,
    fun out hout => ?_⟩
  · obtain rfl := Option.some.inj hout
    have hall : troubledMetrics.latest.entries.filter (fun e => sinceFilter troubleStart e.2.ts) =
        troubledMetrics.latest.entries := by decide +kernel
    refine ⟨_, ⟨?_, by decide +kernel⟩, List.Perm.refl _⟩
    rw [troubledTables, hall]
  · obtain rfl := Option.some.inj hout
    exact List.Perm.refl _
  · obtain rfl := Option.some.inj hout
    exact hrows
  · obtain rfl := Option.some.inj hout
    exact ⟨[troubledPattern], ⟨List.Perm.refl _, List.pairwise_singleton _ _⟩, rfl⟩
  · obtain rfl := Option.some.inj hout
    refine ⟨[], [troubledEdge], ⟨[], ⟨List.Perm.refl _, List.Pairwise.nil⟩, rfl⟩,
      ⟨[troubledEdge], ⟨List.Perm.refl _, List.pairwise_singleton _ _⟩, rfl⟩, ?_⟩
    have hmerged : mergedEdges [] [troubledEdge] = [troubledEdge.edge] := by
      simp [mergedEdges, unseen, rankStable, topologyEdgeLimit]
    rw [hmerged]

/-- There is a table of the fleet. -/
theorem exists_troubledFleet : ∃ fleet, fleetRun [troubledSnapshot] = some fleet :=
  Option.isSome_iff_exists.mp (by decide +kernel)

theorem linesSince_troubledLogs : linesSince troubledLogs troubleStart ["error"] "api" = 10 := by
  decide +kernel

/-- Every source of the insights has one that is due. -/
theorem insightDue_troubled {fleet : FleetTable} {rows : List FleetStatus}
    (hfleet : fleetRun [troubledSnapshot] = some fleet) (hrows : GetFleetStatus fleet rows)
    {due : Insight → Prop}
    (hdue : ∀ i, due i ↔ InsightDue (troubledReads rows) (linesSince troubledLogs troubleStart) i) :
    due killedContainer.oomKill ∧ due failingContainer.unhealthy ∧
      (∃ w, due (WorkloadMemory.memoryCritical w)) ∧
      (∃ entities, due (errorSpike entities "api" 10)) ∧ due troubledPattern.spike ∧
      due (chainDegradation 10 troubledEdge.edge) ∧
      ∃ a, due (ActiveAlert.insight "cpu-high:docker:a:db" a) := by
  have hmem := mem_getFleetStatus hfleet hrows
  have hkilled : killedContainer ∈ rows := (hmem _).mpr (by decide +kernel)
  have hfailing : failingContainer ∈ rows := (hmem _).mpr (by decide +kernel)
  have hfull : ∃ w ∈ (mergeRows troubledMetrics.latest.entries).values,
      w.memoryPct.atLeast 90 = true := by decide +kernel
  have hactive : ((NewEngine.evalAll troubledCalls).active.get? "cpu-high:docker:a:db").isSome := by
    decide +kernel
  have herrors : 10 ≤ linesSince troubledLogs troubleStart ["error"] "api" :=
    Nat.le_of_eq linesSince_troubledLogs.symm
  simp only [hdue]
  refine ⟨.oomKill rfl hkilled rfl, .unhealthy rfl hfailing rfl, ?_, ?_, ?_, ?_, ?_⟩
  · obtain ⟨w, hw, hpct⟩ := hfull
    exact ⟨_, .memoryCritical rfl hw hpct⟩
  · have hspike := InsightDue.errorSpike (r := troubledReads rows) rfl "api" herrors
    rw [linesSince_troubledLogs] at hspike
    exact ⟨_, hspike⟩
  · exact .spike rfl (List.mem_singleton_self _) (by decide)
  · have hmem : troubledEdge.edge ∈ [troubledEdge.edge] := List.mem_singleton_self _
    have hchain := InsightDue.chain (r := troubledReads rows) rfl hmem herrors
    rwa [show troubledEdge.edge.target = "api" from rfl, linesSince_troubledLogs] at hchain
  · obtain ⟨a, ha⟩ := Option.isSome_iff_exists.mp hactive
    exact ⟨a, .alert ha⟩

/-- There is one edge, and so one arrow. -/
theorem nodup_failingArrows_troubled (rows : List FleetStatus)
    (lines : List String → String → ℕ) : (failingArrows (troubledReads rows) lines).Nodup := by
  have hedges : (troubledReads rows).graph.elim [] TopologyGraph.edges = [troubledEdge.edge] := rfl
  rw [failingArrows, hedges, List.filter_singleton]
  cases decide (10 ≤ lines ["error"] troubledEdge.edge.target)
  · exact List.nodup_nil
  · exact List.nodup_singleton _

/-- The answer of the hub shows an insight from every source, each under an id of its own. -/
theorem insights_answer_troubled : ∃ (fleet : FleetTable) (rows : List FleetStatus)
    (response : InsightsResponse), fleetRun [troubledSnapshot] = some fleet ∧
      GetFleetStatus fleet rows ∧
      InsightsShown (troubledReads rows) (linesSince troubledLogs troubleStart) troubleStart
        response ∧
      (response.insights.map Insight.id).Nodup ∧ killedContainer.oomKill ∈ response.insights ∧
      failingContainer.unhealthy ∈ response.insights ∧
      (∃ w, WorkloadMemory.memoryCritical w ∈ response.insights) ∧
      (∃ entities, errorSpike entities "api" 10 ∈ response.insights) ∧
      troubledPattern.spike ∈ response.insights ∧
      chainDegradation 10 troubledEdge.edge ∈ response.insights ∧
      ∃ a, ActiveAlert.insight "cpu-high:docker:a:db" a ∈ response.insights := by
  obtain ⟨fleet, hfleet⟩ := exists_troubledFleet
  obtain ⟨rows, hrows⟩ := exists_getFleetStatus fleet
  have hwindow : requestWindow ⟨fun _ => none, fun _ => none⟩ troubleTime hour "" =
      some (troubleStart, ⟨0⟩) := rfl
  obtain ⟨response, hanswer⟩ := exists_response (r := troubledReads rows) hwindow rfl rfl rfl
  have hrules : ∃ calls, (troubledReads rows).rules = NewEngine.evalAll calls :=
    ⟨troubledCalls, rfl⟩
  have hshown := insights_answer hwindow (fromAgents_troubled hfleet) hrules (from_troubled hrows)
    hanswer
  exact ⟨fleet, rows, response, hfleet, hrows, hshown,
    hshown.unique.mpr (nodup_failingArrows_troubled rows _),
    insightDue_troubled hfleet hrows hshown.due⟩

end Argus
