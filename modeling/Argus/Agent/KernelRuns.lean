import Argus.Agent.KernelSample
import Argus.Agent.World
import Mathlib.Data.List.DropRight

/-!
# Rounds of the kernel collector

`runKernelCollect` reads what the kernel counted since the last reading, and sends it as links and
points. The tracker has moved on when `Flows` returns. A round that fails after that, because the
workloads cannot be listed or a batch is not delivered, has nothing left to report again, and
`sentCount_eq_iff` says that the counts of the run are complete only if there is no such round
before the last one that succeeded.
-/

namespace Argus

open Foundations

/-! ### Sending -/

/-- The JSON of a link. -/
def TopologyLink.toJson (l : TopologyLink) : Json :=
  .obj ([("source", .str l.source), ("target", .str l.target), ("kind", .str l.kind)] ++
    (if l.port = 0 then [] else [("port", .num (Number.ofNat l.port))]) ++
    [("count", .num (Number.ofNat l.count)), ("ts", .str l.ts.format)])

/-- The JSON of a point, unless its value is an infinity. -/
def MetricPoint.toJson (number : ℚ → Number) (p : MetricPoint) : Option Json :=
  match p.value with
  | .finite q => some (.obj [("metric_name", .str p.metricName), ("ts", .str p.ts.format),
      ("value", .num (number q)), ("entity_uid", .str p.entityUID), ("labels", p.labels.toJson)])
  | .infinite _ => none

/-- `Client.SendTopology`. -/
def sendTopology (fuel : ℕ) (spool : Option ℕ) (id : String) (links : List TopologyLink) :
    AgentM (Option PostErr) :=
  if links.isEmpty then pure none
  else sendBatch fuel spool ⟨"/api/v1/topology/batch", id, .arr (links.map TopologyLink.toJson)⟩

/-- `Client.SendMetrics`. -/
def sendMetrics (number : ℚ → Number) (fuel : ℕ) (spool : Option ℕ) (id : String)
    (points : List MetricPoint) : AgentM (Option PostErr) :=
  if points.isEmpty then pure none
  else
    match points.mapM (MetricPoint.toJson number) with
    -- the error of `json.Marshal`
    | none => pure (some .transport)
    | some body => sendBatch fuel spool ⟨"/api/v1/metrics/batch", id, .arr body⟩

/-! ### Rounds -/

/-- The tracker, and the agent with its spool. -/
structure KernelState where
  previous : List UInt8 → ℕ
  agent : AgentState

/-- The sample of a round, and the ids of its two batches. -/
structure SentSample where
  sample : Sample
  topologyID : String
  metricsID : String

/-- A round: the entries of the kernel map if they could be read, what `Flows` returned, and what
was sent if the workloads could be listed. -/
structure KernelRound where
  reading : Option (Reading FlowKey)
  flows : List Flow
  sent : Option SentSample

/-- `runKernelCollect`. -/
inductive RunKernelCollect (Healthy : Prop) (number : ℚ → Number) (hostID : String)
    (spool : Option ℕ) : KernelState → KernelRound → KernelState → Prop
  /-- The map cannot be read. -/
  | unread (s : KernelState) : RunKernelCollect Healthy number hostID spool s ⟨none, [], none⟩ s
  /-- Nothing was counted. -/
  | quiet {s : KernelState} {r : Reading FlowKey} {current : List UInt8 → ℕ}
      (read : collectFlows s.previous r = (current, [])) :
      RunKernelCollect Healthy number hostID spool s ⟨some r, [], none⟩ ⟨current, s.agent⟩
  /-- The workloads cannot be listed. -/
  | unlisted {s : KernelState} {r : Reading FlowKey} {current : List UInt8 → ℕ} {flows : List Flow}
      (read : collectFlows s.previous r = (current, flows)) (nonempty : flows ≠ []) :
      RunKernelCollect Healthy number hostID spool s ⟨some r, flows, none⟩ ⟨current, s.agent⟩
  /-- The sample is sent. An error is only logged. -/
  | sent {s : KernelState} {r : Reading FlowKey} {current : List UInt8 → ℕ} {flows : List Flow}
      {resolver : Resolver} {ts : Time} {sample : Sample} {topologyID metricsID : String}
      {fuel : ℕ} {err err' : Option PostErr} {a a' : AgentState}
      (read : collectFlows s.previous r = (current, flows)) (nonempty : flows ≠ [])
      (build : BuildSample flows resolver hostID ts sample)
      (topology : Program.Steps (agentEffect Healthy)
        (sendTopology fuel spool topologyID sample.links, s.agent) (.ret err, a))
      (metrics : Program.Steps (agentEffect Healthy)
        (sendMetrics number fuel spool metricsID sample.metrics, a) (.ret err', a')) :
      RunKernelCollect Healthy number hostID spool s
        ⟨some r, flows, some ⟨sample, topologyID, metricsID⟩⟩ ⟨current, a'⟩

/-- Rounds one after the other. -/
inductive KernelRun (Healthy : Prop) (number : ℚ → Number) (hostID : String)
    (spool : Option ℕ) : KernelState → List KernelRound → KernelState → Prop
  | nil (s : KernelState) : KernelRun Healthy number hostID spool s [] s
  | cons {s s₁ s' : KernelState} {round : KernelRound} {rounds : List KernelRound}
      (first : RunKernelCollect Healthy number hostID spool s round s₁)
      (rest : KernelRun Healthy number hostID spool s₁ rounds s') :
      KernelRun Healthy number hostID spool s (round :: rounds) s'

/-! ### Accounts -/

/-- A batch was accepted by the hub, or it is in the spool. -/
def AgentState.has (a : AgentState) (id : String) : Bool :=
  (a.log.any fun e => match e with
    | .accepted _ id' => id' == id
    | _ => false) || a.spooled.contains id

/-- What was counted in a round. -/
def KernelRound.count (round : KernelRound) : ℕ := (round.flows.map Flow.count).sum

/-- The flows of a round were sent or are in the spool: each of its two batches, unless there is
nothing in it. -/
def KernelRound.reported (a : AgentState) (round : KernelRound) : Bool :=
  match round.sent with
  | some ⟨sample, topologyID, metricsID⟩ =>
    (sample.links.isEmpty || a.has topologyID) && (sample.metrics.isEmpty || a.has metricsID)
  | none => false

/-- A round succeeded: the map was read, and what was counted, if anything, was reported. -/
def KernelRound.succeeded (a : AgentState) (round : KernelRound) : Bool :=
  round.reading.isSome && (round.flows.isEmpty || round.reported a)

/-- The rounds up to the last one that succeeded. -/
def untilSuccess (a : AgentState) (rounds : List KernelRound) : List KernelRound :=
  rounds.rdropWhile fun round => !round.succeeded a

/-- The counters at the last round that succeeded. -/
def countersAtSuccess (a : AgentState) (rounds : List KernelRound) : ℕ :=
  (((untilSuccess a rounds).getLast?.bind KernelRound.reading).getD []).total

/-- The counts that were sent in the rounds or are in the spool. -/
def sentCount (a : AgentState) (rounds : List KernelRound) : ℕ :=
  ((rounds.filter (KernelRound.reported a)).map KernelRound.count).sum

/-! ### What a round reads -/

/-- What is reported of a flow counts something. -/
theorem count_ne_zero_of_mem_increment {previous : ℕ} {f g : Flow} (h : f ∈ increment previous g) :
    f.count ≠ 0 := by
  simp only [increment] at h
  split_ifs at h with hle heq hzero hzero
  · exact absurd h List.not_mem_nil
  · exact absurd h List.not_mem_nil
  · rwa [List.mem_singleton.mp h]
  · exact absurd h List.not_mem_nil
  · rwa [List.mem_singleton.mp h]

theorem count_ne_zero_of_mem_collectFlows {previous : List UInt8 → ℕ} {r : Reading FlowKey}
    {f : Flow} (h : f ∈ (collectFlows previous r).2) : f.count ≠ 0 := by
  rw [collectFlows_eq] at h
  obtain ⟨e, -, h⟩ := List.mem_flatMap.mp h
  exact count_ne_zero_of_mem_increment h

section Round

variable {Healthy : Prop} {number : ℚ → Number} {hostID : String} {spool : Option ℕ}
  {s s' : KernelState} {round : KernelRound} {rounds : List KernelRound}

/-- **What a round does.** It reports nothing and leaves the tracker as it is, or what it reports
is the window of a reading, after which the tracker has moved on. -/
theorem RunKernelCollect.window (h : RunKernelCollect Healthy number hostID spool s round s') :
    (round.reading = none ∧ round.flows = [] ∧ round.sent = none ∧ s'.previous = s.previous) ∨
      ∃ r, round.reading = some r ∧ collectFlows s.previous r = (s'.previous, round.flows) := by
  cases h with
  | unread => exact .inl ⟨rfl, rfl, rfl, rfl⟩
  | quiet read => exact .inr ⟨_, rfl, read⟩
  | unlisted read nonempty => exact .inr ⟨_, rfl, read⟩
  | sent read nonempty build topology metrics => exact .inr ⟨_, rfl, read⟩

/-- A round that counted something read the map. -/
theorem KernelRun.nonzero (h : KernelRun Healthy number hostID spool s rounds s') :
    ∀ round ∈ rounds, (round.reading = none → round.sent = none) ∧
      ∀ f ∈ round.flows, f.count ≠ 0 := by
  induction h with
  | nil => exact fun round hround => absurd hround List.not_mem_nil
  | @cons s s₁ s' round rounds first rest ih =>
    refine List.forall_mem_cons.mpr ⟨?_, ih⟩
    rcases first.window with ⟨hnone, hflows, hsent, -⟩ | ⟨r, hr, hread⟩
    · rw [hflows]
      exact ⟨fun _ => hsent, fun f hf => absurd hf List.not_mem_nil⟩
    · refine ⟨fun hnone => absurd (hr.symm.trans hnone) (Option.some_ne_none r), fun f hf => ?_⟩
      have hwindow : (collectFlows s.previous r).2 = round.flows := congrArg Prod.snd hread
      rw [← hwindow] at hf
      exact count_ne_zero_of_mem_collectFlows hf

/-- The first rounds of a run count what the windows of their readings do. -/
theorem KernelRun.sum_count (h : KernelRun Healthy number hostID spool s rounds s')
    {part : List KernelRound} (hpart : part <+: rounds) :
    (part.map KernelRound.count).sum =
      ((windows s.previous (part.filterMap KernelRound.reading)).flatten.map Flow.count).sum := by
  induction h generalizing part with
  | nil =>
    rw [List.prefix_nil.mp hpart]
    rfl
  | cons first rest ih =>
    rcases List.prefix_cons_iff.mp hpart with rfl | ⟨part, rfl, htail⟩
    · rfl
    · rw [List.map_cons, List.sum_cons, ih htail]
      rcases first.window with ⟨hnone, hflows, -, hprevious⟩ | ⟨r, hr, hread⟩
      · rw [List.filterMap_cons_none hnone, hprevious, KernelRound.count, hflows, List.map_nil,
          List.sum_nil, Nat.zero_add]
      · rw [List.filterMap_cons_some hr, windows, hread, List.flatten_cons, List.map_append,
          List.sum_append, KernelRound.count]

/-- The rounds up to the last one that succeeded are none, or end with it. -/
theorem untilSuccess_cases (a : AgentState) (rounds : List KernelRound) :
    untilSuccess a rounds = [] ∨
      ∃ front last, untilSuccess a rounds = front ++ [last] ∧ last.succeeded a = true := by
  rcases List.eq_nil_or_concat' (untilSuccess a rounds) with hnil | ⟨front, last, hconcat⟩
  · exact .inl hnil
  · refine .inr ⟨front, last, hconcat, ?_⟩
    have hidem : (front ++ [last]).rdropWhile (fun round => !round.succeeded a) = front ++ [last] :=
      hconcat ▸ List.rdropWhile_idempotent _ rounds
    rw [List.rdropWhile_concat] at hidem
    split_ifs at hidem with hfails
    · have hlength := (List.rdropWhile_prefix (fun round => !round.succeeded a) front).length_le
      rw [hidem, List.length_append] at hlength
      exact absurd hlength (by simp)
    · simpa using hfails

/-- The counts of all rounds up to the last that succeeded are the counters at that round. -/
theorem KernelRun.sum_untilSuccess (h : KernelRun Healthy number hostID spool s rounds s')
    {K : Set FlowKey} (hK : Distinct K) (hprevious : s.previous = fun _ => 0)
    (hreadings : Cumulative (rounds.filterMap KernelRound.reading))
    (hkeys : ∀ r ∈ rounds.filterMap KernelRound.reading, ∀ e ∈ r, e.1 ∈ K) (a : AgentState) :
    ((untilSuccess a rounds).map KernelRound.count).sum = countersAtSuccess a rounds := by
  have hpart : untilSuccess a rounds <+: rounds := List.rdropWhile_prefix _ _
  have hsub := hpart.filterMap KernelRound.reading
  have hcumulative : Cumulative ((untilSuccess a rounds).filterMap KernelRound.reading) :=
    ⟨fun r hr => hreadings.nodup r (hsub.mem hr), hreadings.grows.prefix hsub⟩
  rw [h.sum_count hpart, hprevious]
  refine (reported_eq_lastTotal hK hcumulative fun r hr => hkeys r (hsub.mem hr)).trans ?_
  rw [lastTotal, countersAtSuccess]
  rcases untilSuccess_cases a rounds with hnil | ⟨front, last, hconcat, hlast⟩
  · rw [hnil]
    rfl
  · obtain ⟨r, hr⟩ := Option.isSome_iff_exists.mp (Bool.and_eq_true_iff.mp hlast).1
    rw [hconcat, List.filterMap_append, List.filterMap_cons_some hr, List.getLast?_append,
      List.getLast?_append]
    simp [hr]

/-- After the last round that succeeded nothing was reported. -/
theorem KernelRun.filter_reported (h : KernelRun Healthy number hostID spool s rounds s')
    (a : AgentState) :
    rounds.filter (KernelRound.reported a) =
      (untilSuccess a rounds).filter (KernelRound.reported a) := by
  have hsplit : untilSuccess a rounds ++ rounds.rtakeWhile (fun round => !round.succeeded a) =
      rounds := List.rdropWhile_append_rtakeWhile
  have hrest : (rounds.rtakeWhile fun round => !round.succeeded a).filter
      (KernelRound.reported a) = [] := by
    refine List.filter_eq_nil_iff.mpr fun round hround hreported => ?_
    have hfailed := List.mem_rtakeWhile_imp hround
    have hmem : round ∈ rounds := (List.rtakeWhile_suffix _ _).mem hround
    rw [KernelRound.succeeded, hreported, Bool.or_true, Bool.and_true, Bool.not_eq_true',
      Option.isSome_eq_false_iff, Option.isNone_iff_eq_none] at hfailed
    rw [KernelRound.reported, (h.nonzero round hmem).1 hfailed] at hreported
    exact Bool.false_ne_true hreported
  rw [← hsplit, List.filter_append, hrest, List.append_nil, hsplit]

/-- A round that counted nothing had no flows. -/
theorem KernelRun.count_eq_zero (h : KernelRun Healthy number hostID spool s rounds s')
    (hround : round ∈ rounds) : round.count = 0 ↔ round.flows = [] := by
  constructor
  · intro hzero
    by_contra hne
    obtain ⟨f, hf⟩ := List.exists_mem_of_ne_nil _ hne
    have hle : f.count ≤ round.count := List.le_sum_of_mem (List.mem_map_of_mem hf)
    have hnonzero := (h.nonzero round hround).2 f hf
    omega
  · intro hnil
    rw [KernelRound.count, hnil]
    rfl

/-- **Key result.** In every run of a new collector over flows with keys of their own, the counts
that were sent or are in the spool are the counters at the last round that succeeded, if and only
if no round before it failed after something was counted. -/
theorem sentCount_eq_iff (h : KernelRun Healthy number hostID spool s rounds s')
    (hprevious : s.previous = fun _ => 0)
    (hreadings : Cumulative (rounds.filterMap KernelRound.reading))
    {K : Set FlowKey} (hK : Distinct K)
    (hkeys : ∀ r ∈ rounds.filterMap KernelRound.reading, ∀ e ∈ r, e.1 ∈ K) :
    sentCount s'.agent rounds = countersAtSuccess s'.agent rounds ↔
      ∀ round ∈ untilSuccess s'.agent rounds, round.flows ≠ [] →
        round.reported s'.agent = true := by
  rw [← h.sum_untilSuccess hK hprevious hreadings hkeys, sentCount, h.filter_reported]
  have hpart : untilSuccess s'.agent rounds <+: rounds := List.rdropWhile_prefix _ _
  refine (sum_filter_eq_sum_iff _ _ _).trans ?_
  refine forall_congr' fun round => forall_congr' fun hround => ?_
  rw [ne_eq, ne_eq, h.count_eq_zero (hpart.mem hround)]

end Round

/-! ### A run -/

/-- The state after a batch that the hub accepts at once. -/
def AgentState.accept (a : AgentState) (b : Batch) : AgentState :=
  ((a.record (.posted .caller b.batchID)).record (.accepted .caller b.batchID)).record
    (.answered .caller b none)

/-- Without a spool, a batch that the hub accepts is sent in one attempt. -/
theorem sendBatch_accepted (a : AgentState) (b : Batch) :
    Program.Steps (agentEffect True) (sendBatch 1 none b, a) (.ret none, a.accept b) := by
  have hreplay : (sendBatch 1 none b).replay (scripted none (fun _ => none) ⟨0⟩) a =
      some (none, a.accept b) := rfl
  exact Program.steps_of_replay
    (agentEffect_of_scripted fun _ => ⟨by decide, fun code h => by cases h⟩) hreplay

theorem has_accept (a : AgentState) (b : Batch) : (a.accept b).has b.batchID = true := by
  simp [AgentState.has, AgentState.accept, AgentState.record]

/-- What the agent has it keeps. -/
theorem has_accept_of_has {a : AgentState} {id : String} (h : a.has id = true) (b : Batch) :
    (a.accept b).has id = true := by
  have hspooled : (a.accept b).spooled = a.spooled := rfl
  rw [AgentState.has, Bool.or_eq_true] at h ⊢
  rw [hspooled]
  refine h.imp_left fun hlog => ?_
  obtain ⟨e, he, heq⟩ := List.any_eq_true.mp hlog
  refine List.any_eq_true.mpr ⟨e, ?_, heq⟩
  simp [AgentState.accept, AgentState.record, he]

/-- Without a spool, links that the hub accepts are sent. -/
theorem sendTopology_accepted (a : AgentState) (id : String) (links : List TopologyLink) :
    ∃ a', Program.Steps (agentEffect True) (sendTopology 1 none id links, a) (.ret none, a') ∧
      (links.isEmpty || a'.has id) = true := by
  rw [sendTopology]
  split_ifs with h
  · exact ⟨a, .refl, by rw [h]; rfl⟩
  · exact ⟨_, sendBatch_accepted a _, by rw [has_accept, Bool.or_true]⟩

/-- Without a spool, points that the hub accepts are sent, and what was sent before stays so. -/
theorem sendMetrics_accepted {number : ℚ → Number} (a : AgentState) (id : String)
    {points : List MetricPoint} (h : (points.mapM (MetricPoint.toJson number)).isSome = true) :
    ∃ a', Program.Steps (agentEffect True) (sendMetrics number 1 none id points, a)
        (.ret none, a') ∧
      (points.isEmpty || a'.has id) = true ∧ ∀ id', a.has id' = true → a'.has id' = true := by
  obtain ⟨body, hbody⟩ := Option.isSome_iff_exists.mp h
  rw [sendMetrics, hbody]
  split_ifs with hempty
  · exact ⟨a, .refl, by rw [hempty]; rfl, fun _ hid => hid⟩
  · refine ⟨_, sendBatch_accepted a _, by rw [has_accept, Bool.or_true], fun id' hid => ?_⟩
    exact has_accept_of_has hid _

/-- One connection, and then two more: the workloads cannot be listed in the first round. -/
def unlistedRounds (sent : SentSample) : List KernelRound :=
  [⟨some [(ipv4Key, 1)], [ipv4Key.flow 1], none⟩,
    ⟨some [(ipv4Key, 3)], [ipv4Key.flow 2], some sent⟩]

/-- Without a spool, and with a hub that accepts everything. -/
theorem exists_kernelRun : ∃ sent s', KernelRun True (fun _ => Number.ofDigit 0) "1" none
      ⟨fun _ => 0, ⟨.empty, []⟩⟩ (unlistedRounds sent) s' ∧
    KernelRound.reported s'.agent ⟨some [(ipv4Key, 3)], [ipv4Key.flow 2], some sent⟩ = true := by
  obtain ⟨sample, hsample⟩ := exists_buildSample [ipv4Key.flow 2] gatewayResolver "1" ⟨0⟩
  have hbody :
      (sample.metrics.mapM (MetricPoint.toJson fun _ => Number.ofDigit 0)).isSome = true := by
    rw [hsample.2.2]
    decide +kernel
  obtain ⟨a, htopology, hlinks⟩ := sendTopology_accepted ⟨.empty, []⟩ "t" sample.links
  obtain ⟨a', hmetrics, hpoints, hkept⟩ := sendMetrics_accepted a "m" hbody
  refine ⟨⟨sample, "t", "m"⟩, _, .cons (.unlisted rfl (List.cons_ne_nil _ _))
    (.cons (.sent rfl (List.cons_ne_nil _ _) hsample htopology hmetrics) (.nil _)), ?_⟩
  refine Bool.and_eq_true_iff.mpr ⟨?_, hpoints⟩
  rw [Bool.or_eq_true] at hlinks ⊢
  exact hlinks.imp_right (hkept "t")

theorem unlistedRounds_cumulative (sent : SentSample) :
    Cumulative ((unlistedRounds sent).filterMap KernelRound.reading) := by
  refine ⟨fun r hr => ?_, List.isChain_pair.mpr fun e he => ?_⟩
  · rcases List.mem_pair.mp hr with rfl | rfl
    · exact List.nodup_singleton _
    · exact List.nodup_singleton _
  · obtain rfl := List.mem_singleton.mp he
    exact ⟨3, by decide, List.mem_singleton_self _⟩

/-- The rounds of the run: two flows were reported, and the counter is at three. -/
theorem unlistedRounds_counts {a : AgentState} {sent : SentSample}
    (h : KernelRound.reported a ⟨some [(ipv4Key, 3)], [ipv4Key.flow 2], some sent⟩ = true) :
    sentCount a (unlistedRounds sent) = 2 ∧ countersAtSuccess a (unlistedRounds sent) = 3 := by
  have hsucceeded : KernelRound.succeeded a
      ⟨some [(ipv4Key, 3)], [ipv4Key.flow 2], some sent⟩ = true := by
    rw [KernelRound.succeeded, h]
    rfl
  have huntil : untilSuccess a (unlistedRounds sent) = unlistedRounds sent :=
    List.rdropWhile_concat_neg _ [_] _ (by rw [hsucceeded]; decide)
  refine ⟨?_, ?_⟩
  · rw [sentCount, unlistedRounds, List.filter_cons_of_neg Bool.false_ne_true,
      List.filter_cons_of_pos h, List.filter_nil]
    rfl
  · rw [countersAtSuccess, huntil]
    rfl

/-- The rule for the run: its first round failed. -/
theorem sentCount_eq_iff_unlisted : ∃ sent s', KernelRun True (fun _ => Number.ofDigit 0) "1" none
      ⟨fun _ => 0, ⟨.empty, []⟩⟩ (unlistedRounds sent) s' ∧
    (sentCount s'.agent (unlistedRounds sent) = countersAtSuccess s'.agent (unlistedRounds sent) ↔
      ∀ round ∈ untilSuccess s'.agent (unlistedRounds sent), round.flows ≠ [] →
        round.reported s'.agent = true) := by
  obtain ⟨sent, s', hrun, -⟩ := exists_kernelRun
  refine ⟨sent, s', hrun, sentCount_eq_iff hrun rfl (unlistedRounds_cumulative sent)
    (K := {ipv4Key}) (fun a ha b hb _ => ha.trans hb.symm) fun r hr e he => ?_⟩
  rcases List.mem_pair.mp hr with rfl | rfl
  · exact congrArg Prod.fst (List.mem_singleton.mp he)
  · exact congrArg Prod.fst (List.mem_singleton.mp he)

/-- **A round that fails is not reported later.** The connection of the first round is lost. -/
theorem unlisted_flow_lost : ¬ ∀ (number : ℚ → Number) (hostID : String) (spool : Option ℕ)
    (rounds : List KernelRound) (s' : KernelState),
      KernelRun True number hostID spool ⟨fun _ => 0, ⟨.empty, []⟩⟩ rounds s' →
        Cumulative (rounds.filterMap KernelRound.reading) →
          sentCount s'.agent rounds = countersAtSuccess s'.agent rounds := by
  intro h
  obtain ⟨sent, s', hrun, hreported⟩ := exists_kernelRun
  have heq := h _ _ _ _ _ hrun (unlistedRounds_cumulative sent)
  obtain ⟨hsent, hcounters⟩ := unlistedRounds_counts hreported
  rw [hsent, hcounters] at heq
  exact absurd heq (by decide)

end Argus
