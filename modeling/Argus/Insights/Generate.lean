import Argus.Foundations.Bytes
import Argus.Foundations.FirstSeen
import Argus.Insights.Group
import Argus.Store.Patterns
import Argus.Store.Topology

/-!
# Insights of the whole hub

`Generate` looks at the workloads one by one and at the log lines of each container, and skips an
insight whose id it has already given: the loop over the workloads then goes on with the next one.
`GenerateFleet` has the same loop over the fleet status. The two generators behind them look at the
repeated patterns and at the edges of the topology.

An id is the name of a container and a kind. `generate_of_distinct` and `generateFleet_of_distinct`
say what comes out when no two workloads, or rows, have one name: nothing is skipped.
-/

namespace Argus

open Foundations
open Model (TopologyGraph)

/-! ### Workloads -/

/-- `WorkloadMemory`. -/
structure WorkloadMemory where
  container : String
  entityUID : String
  cpuUsage : Extended
  memoryPct : Double
  memoryUsage : Extended
  memoryLimit : Extended

namespace WorkloadMemory

variable (w : WorkloadMemory)

/-- `x / 1024 / 1024`. -/
def mebibytes (x : Extended) : Double :=
  (Double.div x (.finite 1024)).bind fun x => Double.div x (.finite 1024)

/-- The insight about critical memory. -/
def memoryCritical : Insight where
  id := w.container ++ ":memory_critical"
  theme := "memory_pressure"
  severity := "critical"
  title := "Critical memory — " ++ w.container
  summary := "Using " ++ w.memoryPct.format 0 ++ "% of the limit (" ++
    (mebibytes w.memoryUsage).format 0 ++ " MiB of " ++ (mebibytes w.memoryLimit).format 0 ++
    " MiB). An OOM kill is likely soon."
  container := w.container
  entityUID := w.entityUID
  evidence := .ofList [("memory_pct", .float w.memoryPct), ("cpu_usage", .float (some w.cpuUsage))]
  recommendations := ["Review the memory limit in compose and the application heap",
    "Compare with GC logs and OutOfMemory errors",
    "Consider scaling out or shrinking in-memory caches"]

/-- The insight about high memory. -/
def memoryHigh : Insight where
  id := w.container ++ ":memory_high"
  theme := "memory_pressure"
  severity := "warning"
  title := "High memory — " ++ w.container
  summary := "Sustained use at " ++ w.memoryPct.format 0 ++ "% of the limit."
  container := w.container
  entityUID := w.entityUID
  evidence := .ofList [("memory_pct", .float w.memoryPct)]
  recommendations := ["Watch the growth trend (RSS against heap)",
    "Filter logs by the GC topic to spot thrashing"]

/-- The insight about the CPU. -/
def cpuHot : Insight where
  id := w.container ++ ":cpu_hot"
  theme := "cpu_hot"
  severity := "warning"
  title := "CPU saturated — " ++ w.container
  summary := "CPU at " ++ Double.format 1 (some w.cpuUsage) ++
    "%. Possible bottleneck or busy loop."
  container := w.container
  entityUID := w.entityUID
  evidence := .ofList [("cpu_usage", .float (some w.cpuUsage))]
  recommendations := ["Check for blocked threads and profile the CPU",
    "Compare with performance and latency logs"]

/-- The insights that a round of the loop considers. -/
def candidates : List Insight :=
  (if w.memoryPct.atLeast 90 then [w.memoryCritical]
    else if w.memoryPct.atLeast 75 then [w.memoryHigh] else []) ++
  if Double.atLeast 80 (some w.cpuUsage) then [w.cpuHot] else []

end WorkloadMemory

/-! ### Log lines -/

/-- `gcByContainer`, `oomByContainer` and `errByContainer`: the lines of some topics. -/
def byContainer (topics : List String) (logStats : List LogTopicStats) : SortedMap String ℤ :=
  logStats.foldl (fun m s => if topics.contains s.topic then
    m.insert s.container ((m.get? s.container).getD 0 + s.count) else m) ∅

/-- `entityByContainer`. -/
def entityByContainer (logStats : List LogTopicStats) : SortedMap String String :=
  logStats.foldl (fun m s => m.insert s.container s.entityUID) ∅

section LogLines

variable (entities : SortedMap String String) (container : String) (count : ℤ)

/-- The insight about GC lines. -/
def gcThrash : Insight where
  id := container ++ ":gc_thrash"
  theme := "gc_thrashing"
  severity := if 50 ≤ count then "critical" else "warning"
  title := "GC pressure — " ++ container
  summary := toString count ++
    " GC lines in this period. Possible thrashing or an undersized heap."
  container := container
  entityUID := (entities.get? container).getD ""
  evidence := .ofList [("gc_log_lines", .int count)]
  recommendations := ["Tune the JVM heap (-Xmx/-Xms) or the GC collector (G1/ZGC)",
    "Look for short-lived object allocation",
    "Use the GC log topic to find long pauses"]

/-- The insight about lines on memory. -/
def oomRisk : Insight where
  id := container ++ ":oom"
  theme := "oom_risk"
  severity := "critical"
  title := "OOM signs — " ++ container
  summary := toString count ++ " memory or OOM related lines in the logs."
  container := container
  entityUID := (entities.get? container).getD ""
  evidence := .ofList [("oom_log_lines", .int count)]
  recommendations := ["First raise the limit or reduce the memory footprint",
    "Look for leaks and caches without a TTL"]

/-- The insight about errors. -/
def errorSpike : Insight where
  id := container ++ ":errors"
  theme := "error_spike"
  severity := "warning"
  title := "Error spike — " ++ container
  summary := toString count ++ " error or exception lines in this period."
  container := container
  entityUID := (entities.get? container).getD ""
  evidence := .ofList [("error_log_lines", .int count)]
  recommendations := ["Group repeated stack traces",
    "Check for unavailable external dependencies"]

end LogLines

/-- The rounds over one of the maps, which come in any order. -/
def topicRounds (due : ℤ → Bool) (insight : String → ℤ → Insight) (order : List (String × ℤ)) :
    List (List Insight) :=
  order.map fun e => if due e.2 then [insight e.1 e.2] else []

/-- The possible results of `Generate`. -/
def Generate (workloads : List WorkloadMemory) (logStats : List LogTopicStats)
    (out : List Insight) : Prop :=
  ∃ gc oom err : List (String × ℤ),
    gc.Perm (byContainer ["gc"] logStats).entries ∧
    oom.Perm (byContainer ["oom", "memory"] logStats).entries ∧
    err.Perm (byContainer ["error"] logStats).entries ∧
    out = SortBySeverity (Taken.takeGroups Insight.id {} (workloads.map WorkloadMemory.candidates ++
      topicRounds (15 ≤ ·) (gcThrash (entityByContainer logStats)) gc ++
      topicRounds (· ≠ 0) (oomRisk (entityByContainer logStats)) oom ++
      topicRounds (10 ≤ ·) (errorSpike (entityByContainer logStats)) err)).out

/-! ### Fleet -/

namespace FleetStatus

variable (c : FleetStatus)

/-- The insight about a kill. -/
def oomKill : Insight where
  id := c.container ++ ":oom_killed"
  theme := "oom_killed"
  severity := "critical"
  title := "OOM kill — " ++ c.container
  summary := "The container was killed for running out of memory (OOMKilled)."
  container := c.container
  entityUID := c.entityUID
  evidence := .ofList [("oom_killed", .bool true), ("restart_count", .int c.restartCount)]
  recommendations := ["Raise the memory limit in compose or reduce heap and caches",
    "Compare with GC and memory logs before the kill"]

/-- The insight about restarts. -/
def restartLoop : Insight where
  id := c.container ++ ":restart_loop"
  theme := "restart_loop"
  severity := if 10 < c.restartCount then "critical" else "warning"
  title := "Restart loop — " ++ c.container
  summary := toString c.restartCount ++
    " restarts so far. The container is unstable or crash looping."
  container := c.container
  entityUID := c.entityUID
  evidence := .ofList [("restart_count", .int c.restartCount), ("state", .str c.state)]
  recommendations := ["Check the startup logs and the exit code",
    "Check the healthcheck and dependencies (database, queues)"]

/-- The insight about the health. -/
def unhealthy : Insight where
  id := c.container ++ ":unhealthy"
  theme := "unhealthy"
  severity := "warning"
  title := "Healthcheck failing — " ++ c.container
  summary := "The Docker healthcheck reports unhealthy."
  container := c.container
  entityUID := c.entityUID
  evidence := .ofList [("health", .str c.health), ("status_text", .str c.statusText)]
  recommendations := ["Inspect the application health endpoint",
    "Check for latency or an unavailable dependency"]

/-- The insights that a round of the loop considers. -/
def candidates : List Insight :=
  (if c.oomKilled then [c.oomKill] else []) ++
  ((if 3 < c.restartCount then [c.restartLoop] else []) ++
    if c.health == "unhealthy" then [c.unhealthy] else [])

end FleetStatus

/-- `GenerateFleet`. -/
def GenerateFleet (containers : List FleetStatus) : List Insight :=
  (Taken.takeGroups Insight.id {} (containers.map FleetStatus.candidates)).out

/-- It gives no two insights one id, whatever the fleet table has. -/
theorem nodup_generateFleet (containers : List FleetStatus) :
    ((GenerateFleet containers).map Insight.id).Nodup :=
  Taken.nodup_takeGroups _

/-! ### Patterns and edges -/

/-- `model.LogPattern`. -/
structure LogPattern where
  patternKey : String
  pattern : String
  container : String
  service : String
  count : ℕ
  lastSeen : Time
  sample : String

/-- `truncate`. The bytes of a character that is cut are not valid, and are sent as such. -/
def truncateBytes (s : String) (n : ℕ) : String :=
  if byteLength s ≤ n then s
  else String.ofList (decodeUtf8 ((utf8 s.toList).take n)) ++ "…"

/-- The insight about a pattern. -/
def LogPattern.spike (p : LogPattern) : Insight where
  id := "pattern:" ++ p.patternKey ++ ":" ++ p.container
  theme := "log_pattern_spike"
  severity := if 200 ≤ p.count then "critical" else "warning"
  title := "Repeated pattern — " ++ if p.service == "" then p.container else p.service
  summary := toString p.count ++ " occurrences: " ++ truncateBytes p.pattern 120
  container := p.container
  evidence := .ofList [("pattern_key", .str p.patternKey), ("count", .int p.count),
    ("sample", .str p.sample)]
  recommendations := ["Find the root cause of the repeated pattern",
    "Open Logs in Repeated patterns mode to see the lines"]

/-- `GeneratePatternSpikes`. -/
def GeneratePatternSpikes (patterns : List LogPattern) : List Insight :=
  (patterns.filter fun p => 50 ≤ p.count).map LogPattern.spike

/-- The insight about an edge whose target has errors. -/
def chainDegradation (errors : ℤ) (e : Model.TopologyEdge) : Insight where
  id := "topo:" ++ e.source ++ "->" ++ e.target
  theme := "chain_degradation"
  severity := "warning"
  title := "Cascading degradation — " ++ e.source ++ " → " ++ e.target
  summary := "The target has " ++ toString errors ++ " errors across " ++ toString e.count ++
    " observed calls (" ++ e.kind ++ ")."
  container := e.target
  evidence := .ofList [("source", .str e.source), ("target", .str e.target), ("kind", .str e.kind),
    ("edge_count", .int e.count), ("target_errors", .int errors)]
  recommendations := ["Check upstream latency and downstream timeouts",
    "Open the topology and the target service logs"]

/-- `errByService[service]`. -/
def errorsOf (logStats : List LogTopicStats) (service : String) : ℤ :=
  ((byContainer ["error"] logStats).get? service).getD 0

/-- `GenerateTopologyChain`. -/
def GenerateTopologyChain (graph : TopologyGraph) (logStats : List LogTopicStats) : List Insight :=
  (graph.edges.filter fun e => 10 ≤ errorsOf logStats e.target).map fun e =>
    chainDegradation (errorsOf logStats e.target) e

/-! ### Ids -/

/-- The id of an insight is the name of its container, which has no colon, and a kind. -/
structure Insight.Named (i : Insight) (kind : String) : Prop where
  id : i.id.toList = i.container.toList ++ ':' :: kind.toList
  plain : ':' ∉ i.container.toList
  kind : ':' ∉ kind.toList

/-- Such an id is no other text with a colon. -/
theorem Insight.Named.inj {i : Insight} {kind : String} (h : i.Named kind)
    {before after : List Char} (heq : i.id.toList = before ++ ':' :: after) :
    i.container.toList = before ∧ kind.toList = after := by
  obtain ⟨hname, -, hkind⟩ :=
    (List.append_cons_inj_of_notMem h.plain h.kind).mp (h.id.symm.trans heq)
  exact ⟨hname, hkind⟩

/-- All insights of a list are named, with kinds from a list. -/
def NamedBy (kinds : List String) (l : List Insight) : Prop := ∀ i ∈ l, ∃ kind ∈ kinds, i.Named kind

/-- Different kinds have different ids. -/
theorem NamedBy.ne {kinds kinds' : List String} {l l' : List Insight} (h : NamedBy kinds l)
    (h' : NamedBy kinds' l') (hkinds : ∀ kind ∈ kinds, kind ∉ kinds') :
    ∀ i ∈ l, ∀ j ∈ l', i.id ≠ j.id := by
  intro i hi j hj heq
  obtain ⟨kind, hkind, hnamed⟩ := h i hi
  obtain ⟨kind', hkind', hnamed'⟩ := h' j hj
  obtain ⟨-, hsame⟩ := hnamed.inj ((congrArg String.toList heq).trans hnamed'.id)
  exact hkinds kind hkind (String.toList_inj.mp hsame ▸ hkind')

/-- Insights of some kinds, with different ids. -/
structure WellNamed (kinds : List String) (l : List Insight) : Prop where
  named : NamedBy kinds l
  ids : l.Pairwise fun i j => i.id ≠ j.id

theorem WellNamed.append {kinds kinds' : List String} {l l' : List Insight} (h : WellNamed kinds l)
    (h' : WellNamed kinds' l') (hkinds : ∀ kind ∈ kinds, kind ∉ kinds') :
    WellNamed (kinds ++ kinds') (l ++ l') where
  named := by
    intro i hi
    rcases List.mem_append.mp hi with hi | hi
    · obtain ⟨kind, hkind, hnamed⟩ := h.named i hi
      exact ⟨kind, List.mem_append_left _ hkind, hnamed⟩
    · obtain ⟨kind, hkind, hnamed⟩ := h'.named i hi
      exact ⟨kind, List.mem_append_right _ hkind, hnamed⟩
  ids := List.pairwise_append.mpr ⟨h.ids, h'.ids, h.named.ne h'.named hkinds⟩

theorem WellNamed.of_perm {kinds : List String} {l l' : List Insight} (h : WellNamed kinds l)
    (hperm : l'.Perm l) : WellNamed kinds l' where
  named i hi := h.named i (hperm.mem_iff.mp hi)
  ids := hperm.symm.pairwise h.ids fun hne => hne.symm

/-- Rounds over different names give different ids, when each round does. -/
theorem wellNamed_rounds {β : Type} {f : β → List Insight} {name : β → String} {kinds : List String}
    {l : List β} (hf : ∀ x ∈ l, NamedBy kinds (f x) ∧ ∀ i ∈ f x, i.container = name x)
    (hround : ∀ x ∈ l, (f x).Pairwise fun i j => i.id ≠ j.id) (hnames : (l.map name).Nodup) :
    WellNamed kinds (l.map f).flatten := by
  refine ⟨fun i hi => ?_, List.pairwise_flatten.mpr ⟨List.forall_mem_map.mpr hround, ?_⟩⟩
  · obtain ⟨group, hgroup, hi⟩ := List.mem_flatten.mp hi
    obtain ⟨x, hx, rfl⟩ := List.mem_map.mp hgroup
    exact (hf x hx).1 i hi
  rw [List.pairwise_map]
  rw [List.Nodup, List.pairwise_map] at hnames
  refine hnames.imp_of_mem fun {x y} hx hy hne i hi j hj heq => hne ?_
  obtain ⟨kind, -, hnamed⟩ := (hf x hx).1 i hi
  obtain ⟨kind', -, hnamed'⟩ := (hf y hy).1 j hj
  obtain ⟨hname, -⟩ := hnamed.inj ((congrArg String.toList heq).trans hnamed'.id)
  rw [← (hf x hx).2 i hi, ← (hf y hy).2 j hj]
  exact String.toList_inj.mp hname

/-- The kinds of `Generate`, from the workloads. -/
def workloadKinds : List String := ["memory_critical", "memory_high", "cpu_hot"]

/-- The kinds of `GenerateFleet`. -/
def fleetKinds : List String := ["oom_killed", "restart_loop", "unhealthy"]

theorem WorkloadMemory.mem_candidates {w : WorkloadMemory} {i : Insight} :
    i ∈ w.candidates ↔ (w.memoryPct.atLeast 90 = true ∧ i = w.memoryCritical) ∨
      (w.memoryPct.atLeast 90 = false ∧ w.memoryPct.atLeast 75 = true ∧ i = w.memoryHigh) ∨
        (Double.atLeast 80 (some w.cpuUsage) = true ∧ i = w.cpuHot) := by
  rw [candidates, List.mem_append, or_assoc.symm]
  refine or_congr ?_ (by rw [List.mem_ite_nil_right, List.mem_singleton])
  cases w.memoryPct.atLeast 90 <;> cases w.memoryPct.atLeast 75 <;> simp

theorem FleetStatus.mem_candidates {c : FleetStatus} {i : Insight} :
    i ∈ c.candidates ↔ (c.oomKilled = true ∧ i = c.oomKill) ∨
      (3 < c.restartCount ∧ i = c.restartLoop) ∨ (c.health = "unhealthy" ∧ i = c.unhealthy) := by
  simp only [candidates, List.mem_append, List.mem_ite_nil_right, List.mem_singleton, beq_iff_eq]

theorem namedBy_workload {w : WorkloadMemory} (h : ':' ∉ w.container.toList) :
    NamedBy workloadKinds w.candidates ∧ ∀ i ∈ w.candidates, i.container = w.container := by
  refine ⟨fun i hi => ?_, fun i hi => ?_⟩
  · rcases WorkloadMemory.mem_candidates.mp hi with ⟨-, rfl⟩ | ⟨-, -, rfl⟩ | ⟨-, rfl⟩
    · exact ⟨"memory_critical", by decide, String.toList_append, h, by decide⟩
    · exact ⟨"memory_high", by decide, String.toList_append, h, by decide⟩
    · exact ⟨"cpu_hot", by decide, String.toList_append, h, by decide⟩
  · rcases WorkloadMemory.mem_candidates.mp hi with ⟨-, rfl⟩ | ⟨-, -, rfl⟩ | ⟨-, rfl⟩
    · rfl
    · rfl
    · rfl

theorem namedBy_fleet {c : FleetStatus} (h : ':' ∉ c.container.toList) :
    NamedBy fleetKinds c.candidates ∧ ∀ i ∈ c.candidates, i.container = c.container := by
  refine ⟨fun i hi => ?_, fun i hi => ?_⟩
  · rcases FleetStatus.mem_candidates.mp hi with ⟨-, rfl⟩ | ⟨-, rfl⟩ | ⟨-, rfl⟩
    · exact ⟨"oom_killed", by decide, String.toList_append, h, by decide⟩
    · exact ⟨"restart_loop", by decide, String.toList_append, h, by decide⟩
    · exact ⟨"unhealthy", by decide, String.toList_append, h, by decide⟩
  · rcases FleetStatus.mem_candidates.mp hi with ⟨-, rfl⟩ | ⟨-, rfl⟩ | ⟨-, rfl⟩
    · rfl
    · rfl
    · rfl

/-- The ids that a round gives are different. -/
theorem nodup_workload (w : WorkloadMemory) :
    w.candidates.Pairwise fun i j => i.id ≠ j.id := by
  have hkinds : ∀ a b : String, a ≠ b → w.container ++ a ≠ w.container ++ b := fun a b hne heq =>
    hne ((String.append_right_inj w.container).mp heq)
  rw [WorkloadMemory.candidates]
  split_ifs <;> simp [WorkloadMemory.memoryCritical, WorkloadMemory.memoryHigh,
    WorkloadMemory.cpuHot, hkinds]

theorem nodup_fleet (c : FleetStatus) : c.candidates.Pairwise fun i j => i.id ≠ j.id := by
  have hkinds : ∀ a b : String, a ≠ b → c.container ++ a ≠ c.container ++ b := fun a b hne heq =>
    hne ((String.append_right_inj c.container).mp heq)
  rw [FleetStatus.candidates]
  split_ifs <;> simp [FleetStatus.oomKill, FleetStatus.restartLoop, FleetStatus.unhealthy, hkinds]

/-! ### Lines of a container -/

/-- The lines of a container that have some topics. -/
def linesIn (topics : List String) (logStats : List LogTopicStats) (container : String) : ℤ :=
  ((logStats.filter fun s => topics.contains s.topic && s.container == container).map
    LogTopicStats.count).sum

theorem byContainer_concat (topics : List String) (logStats : List LogTopicStats)
    (s : LogTopicStats) :
    byContainer topics (logStats ++ [s]) = if topics.contains s.topic then
      (byContainer topics logStats).insert s.container
        (((byContainer topics logStats).get? s.container).getD 0 + s.count)
      else byContainer topics logStats := by
  rw [byContainer, List.foldl_append]
  rfl

/-- The maps count the lines. -/
theorem getD_byContainer (topics : List String) (logStats : List LogTopicStats) (c : String) :
    ((byContainer topics logStats).get? c).getD 0 = linesIn topics logStats c := by
  induction logStats using List.reverseRecOn with
  | nil => rfl
  | append_singleton logStats s ih =>
    rw [byContainer_concat, linesIn, List.filter_append, List.map_append, List.sum_append,
      ← linesIn, ← ih, List.filter_singleton]
    cases htopic : topics.contains s.topic with
    | false => simp
    | true =>
      rw [if_pos rfl, SortedMap.get?_insert, Bool.true_and]
      by_cases hc : s.container = c
      · subst hc
        simp
      · simp [hc, beq_eq_false_iff_ne.mpr hc]

/-- The containers of the maps are those of the counts. -/
theorem exists_of_mem_byContainer {topics : List String} {logStats : List LogTopicStats}
    {e : String × ℤ} (h : e ∈ (byContainer topics logStats).entries) :
    ∃ s ∈ logStats, s.container = e.1 := by
  suffices ∀ c, ((byContainer topics logStats).get? c).isSome → ∃ s ∈ logStats, s.container = c from
    this e.1 (Option.isSome_iff_exists.mpr ⟨e.2, SortedMap.mem_entries.mp h⟩)
  clear h
  intro c hc
  induction logStats using List.reverseRecOn with
  | nil => exact absurd hc (by simp [byContainer])
  | append_singleton logStats s ih =>
    rw [byContainer_concat] at hc
    by_cases hs : s.container = c
    · exact ⟨s, by simp, hs⟩
    · have hbefore : ((byContainer topics logStats).get? c).isSome := by
        split_ifs at hc
        · rwa [SortedMap.get?_insert, if_neg hs] at hc
        · exact hc
      obtain ⟨s', hs', hcontainer⟩ := ih hbefore
      exact ⟨s', List.mem_append_left _ hs', hcontainer⟩

section TopicRounds

variable {due : ℤ → Bool} {insight : String → ℤ → Insight} {kind : String}

/-- What comes from one of the maps. -/
theorem mem_topicRounds {order : List (String × ℤ)} {i : Insight} :
    i ∈ (topicRounds due insight order).flatten ↔
      ∃ e ∈ order, due e.2 = true ∧ i = insight e.1 e.2 := by
  rw [topicRounds, List.mem_flatten]
  simp only [List.mem_map, exists_exists_and_eq_and, List.mem_ite_nil_right, List.mem_singleton]

/-- They are due to the lines of the containers, as no lines are no reason. -/
theorem mem_topicRounds_lines {topics : List String} {logStats : List LogTopicStats}
    {order : List (String × ℤ)} (horder : order.Perm (byContainer topics logStats).entries)
    (hzero : due 0 = false) {i : Insight} :
    i ∈ (topicRounds due insight order).flatten ↔
      ∃ c, due (linesIn topics logStats c) = true ∧ i = insight c (linesIn topics logStats c) := by
  rw [mem_topicRounds]
  constructor
  · rintro ⟨⟨c, n⟩, he, hdue, rfl⟩
    have hlines := getD_byContainer topics logStats c
    rw [SortedMap.mem_entries.mp (horder.mem_iff.mp he), Option.getD_some] at hlines
    exact ⟨c, hlines ▸ hdue, by rw [hlines]⟩
  · rintro ⟨c, hdue, rfl⟩
    have hlines := getD_byContainer topics logStats c
    cases hget : (byContainer topics logStats).get? c with
    | none =>
      rw [hget, Option.getD_none] at hlines
      rw [← hlines, hzero] at hdue
      exact absurd hdue Bool.false_ne_true
    | some n =>
      rw [hget, Option.getD_some] at hlines
      exact ⟨(c, n), horder.mem_iff.mpr (SortedMap.mem_entries.mpr hget), hlines ▸ hdue,
        by rw [hlines]⟩

/-- The insights from one of the maps have one kind, and different ids. -/
theorem wellNamed_topicRounds {m : SortedMap String ℤ} {order : List (String × ℤ)}
    (horder : order.Perm m.entries) (hplain : ∀ e ∈ order, ':' ∉ e.1.toList)
    (hinsight : ∀ c n, (insight c n).id = c ++ ":" ++ kind ∧ (insight c n).container = c)
    (hkind : ':' ∉ kind.toList) :
    WellNamed [kind] (topicRounds due insight order).flatten := by
  have hnamed : ∀ e ∈ order, (insight e.1 e.2).Named kind := by
    intro e he
    obtain ⟨hid, hcontainer⟩ := hinsight e.1 e.2
    refine ⟨?_, by rw [hcontainer]; exact hplain e he, hkind⟩
    rw [hid, hcontainer, String.toList_append, String.toList_append, List.append_assoc]
    rfl
  have hnames : (order.map Prod.fst).Nodup := by
    rw [(horder.map Prod.fst).nodup_iff]
    exact m.sorted_keys.imp fun h => h.ne
  have hrounds : ∀ e ∈ order, NamedBy [kind] (if due e.2 then [insight e.1 e.2] else []) ∧
      ∀ i ∈ (if due e.2 then [insight e.1 e.2] else []), i.container = e.1 := by
    refine fun e he => ⟨fun i hi => ?_, fun i hi => ?_⟩
    · obtain ⟨-, hi⟩ := List.mem_ite_nil_right.mp hi
      rw [List.mem_singleton.mp hi]
      exact ⟨kind, List.mem_singleton_self _, hnamed e he⟩
    · obtain ⟨-, hi⟩ := List.mem_ite_nil_right.mp hi
      rw [List.mem_singleton.mp hi]
      exact (hinsight e.1 e.2).2
  refine wellNamed_rounds hrounds (fun e _ => ?_) hnames
  split_ifs
  · exact List.pairwise_singleton _ _
  · exact List.Pairwise.nil

end TopicRounds

/-! ### What is generated -/

/-- What is due to the log lines of a container. -/
def LinesDue (logStats : List LogTopicStats) (i : Insight) : Prop :=
  ∃ c, (15 ≤ linesIn ["gc"] logStats c ∧
      i = gcThrash (entityByContainer logStats) c (linesIn ["gc"] logStats c)) ∨
    (linesIn ["oom", "memory"] logStats c ≠ 0 ∧
      i = oomRisk (entityByContainer logStats) c (linesIn ["oom", "memory"] logStats c)) ∨
    (10 ≤ linesIn ["error"] logStats c ∧
      i = errorSpike (entityByContainer logStats) c (linesIn ["error"] logStats c))

/-- Names that ids can be made of: no two workloads have one name, and no name has a colon. -/
structure PlainNames (workloads : List WorkloadMemory) (logStats : List LogTopicStats) : Prop where
  nodup : (workloads.map WorkloadMemory.container).Nodup
  workloads : ∀ w ∈ workloads, ':' ∉ w.container.toList
  logStats : ∀ s ∈ logStats, ':' ∉ s.container.toList

/-- The kinds of `Generate`. -/
def generateKinds : List String := workloadKinds ++ ["gc_thrash"] ++ ["oom"] ++ ["errors"]

/-- What is taken is all that was considered, when the ids are different to begin with. -/
theorem WellNamed.taken {kinds : List String} {groups : List (List Insight)}
    (h : WellNamed kinds groups.flatten) :
    (Taken.takeGroups Insight.id {} groups).out = groups.flatten :=
  Taken.takeGroups_eq_flatten (List.pairwise_map.mpr h.ids)

/-- **What `Generate` gives**, in whatever order it goes over its maps: an insight for every
threshold that a workload or the lines of a container reach, each under an id of its own. -/
theorem generate_of_distinct {workloads : List WorkloadMemory} {logStats : List LogTopicStats}
    {out : List Insight} (hplain : PlainNames workloads logStats)
    (h : Generate workloads logStats out) :
    (∀ i, i ∈ out ↔ (∃ w ∈ workloads, i ∈ w.candidates) ∨ LinesDue logStats i) ∧
      WellNamed generateKinds out := by
  obtain ⟨gc, oom, err, hgc, hoom, herr, rfl⟩ := h
  have hkeys : ∀ {topics : List String} {order : List (String × ℤ)},
      order.Perm (byContainer topics logStats).entries → ∀ e ∈ order, ':' ∉ e.1.toList := by
    intro topics order horder e he
    obtain ⟨s, hs, hcontainer⟩ := exists_of_mem_byContainer (horder.mem_iff.mp he)
    exact hcontainer ▸ hplain.logStats s hs
  have hworkloads : WellNamed workloadKinds (workloads.map WorkloadMemory.candidates).flatten :=
    wellNamed_rounds (fun w hw => namedBy_workload (hplain.workloads w hw))
      (fun w _ => nodup_workload w) hplain.nodup
  have hgcNamed : WellNamed ["gc_thrash"] (topicRounds (15 ≤ ·)
      (gcThrash (entityByContainer logStats)) gc).flatten :=
    wellNamed_topicRounds hgc (hkeys hgc) (fun c n => ⟨by rw [String.append_assoc]; rfl, rfl⟩)
      (by decide)
  have hoomNamed : WellNamed ["oom"] (topicRounds (· ≠ 0)
      (oomRisk (entityByContainer logStats)) oom).flatten :=
    wellNamed_topicRounds hoom (hkeys hoom) (fun c n => ⟨by rw [String.append_assoc]; rfl, rfl⟩)
      (by decide)
  have herrNamed : WellNamed ["errors"] (topicRounds (10 ≤ ·)
      (errorSpike (entityByContainer logStats)) err).flatten :=
    wellNamed_topicRounds herr (hkeys herr) (fun c n => ⟨by rw [String.append_assoc]; rfl, rfl⟩)
      (by decide)
  have hall : WellNamed generateKinds (workloads.map WorkloadMemory.candidates ++
      topicRounds (15 ≤ ·) (gcThrash (entityByContainer logStats)) gc ++
      topicRounds (· ≠ 0) (oomRisk (entityByContainer logStats)) oom ++
      topicRounds (10 ≤ ·) (errorSpike (entityByContainer logStats)) err).flatten := by
    rw [List.flatten_append, List.flatten_append, List.flatten_append]
    exact ((hworkloads.append hgcNamed (by decide)).append hoomNamed (by decide)).append herrNamed
      (by decide)
  rw [hall.taken]
  refine ⟨fun i => ?_, hall.of_perm (sortBySeverity_perm _)⟩
  rw [(sortBySeverity_perm _).mem_iff, List.flatten_append, List.flatten_append,
    List.flatten_append, List.mem_append, List.mem_append, List.mem_append,
    mem_topicRounds_lines hgc (by decide), mem_topicRounds_lines hoom (by decide),
    mem_topicRounds_lines herr (by decide), LinesDue, or_assoc, or_assoc]
  simp only [List.mem_flatten, List.mem_map, exists_exists_and_eq_and, decide_eq_true_iff,
    exists_or]

theorem generateFleet_of_distinct {containers : List FleetStatus}
    (hnodup : (containers.map FleetStatus.container).Nodup)
    (hplain : ∀ c ∈ containers, ':' ∉ c.container.toList) :
    (∀ i, i ∈ GenerateFleet containers ↔ ∃ c ∈ containers, i ∈ c.candidates) ∧
      WellNamed fleetKinds (GenerateFleet containers) := by
  have hall : WellNamed fleetKinds (containers.map FleetStatus.candidates).flatten :=
    wellNamed_rounds (fun c hc => namedBy_fleet (hplain c hc)) (fun c _ => nodup_fleet c) hnodup
  rw [GenerateFleet, hall.taken]
  refine ⟨fun i => ?_, hall⟩
  simp only [List.mem_flatten, List.mem_map, exists_exists_and_eq_and]

end Argus
