import Argus.Agent.Kernel
import Argus.Floats
import Argus.Foundations.Ranking
import Argus.Store.Metrics
import Argus.Store.Patterns

/-!
# Samples of the kernel collector

`BuildSample` makes topology links and connection counts of the flows of a window. It walks the
flows once: the count of a link is that of the inbound flows until the first outbound flow comes,
which starts it anew, and of the outbound flows from then on.

`SampleMeets` is what a sample should be, without an order: sums over the flows of a link and of a
workload. `buildSample_meets` says that every sample is that, so that the order of the flows does
not matter.
-/

namespace Argus

open Foundations SortedMap

/-! ### Addresses -/

/-- `ip.To4()`: the last four bytes of an IPv4-mapped address. -/
def to4 (ip : Address) : Option (List UInt8) :=
  if ip.toList.take 12 = [0, 0, 0, 0, 0, 0, 0, 0, 0, 0, 0xff, 0xff] then
    some (ip.toList.drop 12)
  else none

/-- `ip.IsUnspecified()`. -/
def isUnspecified (ip : Address) : Bool := ip = ipv4 0 0 0 0 || ip = Vector.replicate 16 0

/-- `ip.IsLoopback()`. -/
def isLoopback (ip : Address) : Bool :=
  match to4 ip with
  | some bytes => bytes.head? = some 127
  | none => ip = #v[0, 0, 0, 0, 0, 0, 0, 0, 0, 0, 0, 0, 0, 0, 0, 1]

/-- The eight groups of sixteen bits. -/
def groups : List UInt8 → List ℕ
  | a :: b :: rest => (a.toNat * 256 + b.toNat) :: groups rest
  | _ => []

/-- The zeros at a place of the groups. -/
def zerosAt (gs : List ℕ) (i : ℕ) : ℕ := ((gs.drop i).takeWhile (· = 0)).length

/-- The first of the longest runs of at least two zero groups: where it begins, and its length. -/
def zeroRun (gs : List ℕ) : Option (ℕ × ℕ) :=
  (List.range gs.length).foldl (fun best i =>
    if 2 ≤ zerosAt gs i ∧ (best.map Prod.snd).getD 0 < zerosAt gs i then some (i, zerosAt gs i)
    else best) none

/-- Groups in hexadecimal digits, with colons between them. -/
def joinGroups (gs : List ℕ) : List Char :=
  [':'].intercalate (gs.map (Nat.toDigits 16))

/-- `ip.String()`. -/
def ipString (ip : Address) : String :=
  match to4 ip with
  | some bytes => String.ofList (['.'].intercalate (bytes.map fun b => Nat.toDigits 10 b.toNat))
  | none =>
    let gs := groups ip.toList
    match zeroRun gs with
    | none => String.ofList (joinGroups gs)
    | some (i, n) =>
      String.ofList (joinGroups (gs.take i) ++ [':', ':'] ++ joinGroups (gs.drop (i + n)))

example : ipString (ipv4 192 0 2 10) = "192.0.2.10" := by decide +kernel

example : ipString #v[0xfe, 0x80, 0, 0, 0, 0, 0, 0, 0, 1, 0, 0, 0, 0, 0, 0x2a] =
    "fe80::1:0:0:2a" := by decide +kernel

/-! ### Names -/

/-- `Workload`. -/
structure Workload where
  entityUID : String
  service : String
  container : String
  deriving DecidableEq

/-- `Resolver`: the local workload of an address. -/
abbrev Resolver : Type := Address → Option Workload

/-- `nodeName`, of a workload that is there if it is local. -/
def nodeName (w : Option Workload) (ip : Address) : String :=
  let outside :=
    if isUnspecified ip then "" else if isLoopback ip then "localhost" else ipString ip
  match w with
  | some w =>
    if w.service ≠ "" then w.service else if w.container ≠ "" then w.container else outside
  | none => outside

/-- `portKinds`. -/
def portKinds : List (ℕ × String) :=
  [(80, "http"), (443, "http"), (3000, "http"), (5432, "postgres"), (3306, "mysql"),
    (6379, "redis"), (5672, "amqp"), (15672, "amqp"), (27017, "mongodb"), (9092, "kafka"),
    (11211, "memcached"), (9200, "elasticsearch"), (53, "dns"), (25, "smtp"), (1883, "mqtt")]

/-- `KindForPort`. -/
def kindForPort (port : ℕ) : String :=
  match portKinds.lookup port with
  | some kind => kind
  | none => if 8000 ≤ port ∧ port ≤ 8999 then "http" else "tcp"

/-- `DirectionOut`. -/
def directionOut : UInt8 := 0

/-- `DirectionIn`. -/
def directionIn : UInt8 := 1

/-- `DirectionRetransmit`. -/
def directionRetransmit : UInt8 := 2

/-- `ServicePort`. -/
def Flow.servicePort (f : Flow) : UInt16 :=
  if f.direction = directionIn then f.sourcePort else f.destPort

/-- `clientIP`. -/
def Flow.clientIP (f : Flow) : Address := if f.direction = directionIn then f.dest else f.source

/-- `serverIP`. -/
def Flow.serverIP (f : Flow) : Address := if f.direction = directionIn then f.source else f.dest

/-! ### The sample -/

/-- `Sample`. -/
structure Sample where
  links : List TopologyLink
  metrics : List MetricPoint

/-- `edgeAgg`. -/
structure EdgeAgg where
  link : TopologyLink
  fromLocal : Bool

/-- The sum of two `uint64`. -/
def add64 (m n : ℕ) : ℕ := (m + n) % 2 ^ 64

/-- The maps of `BuildSample`. -/
structure SampleState where
  edges : SortedMap LinkKey EdgeAgg
  outbound : SortedMap String ℕ
  inbound : SortedMap String ℕ
  retransmits : SortedMap String ℕ
  owners : SortedMap String Workload

/-- The maps before the first flow. -/
def SampleState.empty : SampleState := ⟨∅, ∅, ∅, ∅, ∅⟩

/-- The edge of the first flow of a key. -/
def newEdge (ts : Time) (source target : String) (f : Flow) : EdgeAgg where
  link := {
    source := source
    target := target
    kind := kindForPort f.servicePort.toNat
    port := f.servicePort.toNat
    count := f.count
    ts := ts }
  fromLocal := f.direction = directionOut

/-- What a further flow does to the edge of its key. -/
def updateEdge (agg : EdgeAgg) (f : Flow) : EdgeAgg :=
  if agg.fromLocal ∧ f.direction = directionIn then agg
  else if !agg.fromLocal ∧ f.direction = directionOut then
    { link := { agg.link with count := f.count }, fromLocal := true }
  else { agg with link := { agg.link with count := add64 agg.link.count f.count } }

/-- Count a flow for a workload. -/
def countFor (counts : SortedMap String ℕ) (w : Workload) (f : Flow) : SortedMap String ℕ :=
  counts.insert w.entityUID (add64 ((counts.get? w.entityUID).getD 0) f.count)

/-- Whether two workloads are both local and the same. -/
def sameWorkload : Option Workload → Option Workload → Bool
  | some w, some w' => w.entityUID == w'.entityUID
  | _, _ => false

/-- One round of the loop of `BuildSample`. -/
def sampleStep (resolver : Resolver) (ts : Time) (st : SampleState) (f : Flow) : SampleState :=
  if f.count = 0 then st
  else
    let src := resolver f.source
    let dst := resolver f.dest
    if f.direction = directionRetransmit then
      match src with
      | some w => { st with
          retransmits := countFor st.retransmits w f, owners := st.owners.insert w.entityUID w }
      | none => st
    else
      let client := if f.direction = directionIn then dst else src
      let server := if f.direction = directionIn then src else dst
      let self := sameWorkload client server
      let st := match client with
        | some w =>
          if f.direction = directionOut ∧ !self then
            { st with
              outbound := countFor st.outbound w f, owners := st.owners.insert w.entityUID w }
          else st
        | none => st
      let st := match server with
        | some w =>
          if f.direction = directionIn ∧ !self then
            { st with
              inbound := countFor st.inbound w f, owners := st.owners.insert w.entityUID w }
          else st
        | none => st
      let sourceName := nodeName client f.clientIP
      let targetName := nodeName server f.serverIP
      if sourceName = "" ∨ targetName = "" ∨ sourceName = targetName then st
      else
        let key : LinkKey := toLex (sourceName, toLex (targetName, f.servicePort.toNat))
        { st with edges := st.edges.insert key (match st.edges.get? key with
          | none => newEdge ts sourceName targetName f
          | some agg => updateEdge agg f) }

/-- The labels of a metric. -/
def metricLabels (hostID : String) (w : Workload) : Labels :=
  let labels : Labels :=
    SortedMap.ofList [("host", hostID), ("runtime", "docker"), ("source", "ebpf")]
  let labels := if w.container ≠ "" then labels.insert "container" w.container else labels
  if w.service ≠ "" then labels.insert "service" w.service else labels

/-- `metricsFor`, whose points are sorted by the uid of the entity. -/
def metricsFor (owners : SortedMap String Workload) (counts : SortedMap String ℕ)
    (name hostID : String) (ts : Time) : List MetricPoint :=
  counts.entries.map fun e => {
    metricName := name
    ts := ts
    value := float64 (.finite e.2)
    entityUID := e.1
    labels := metricLabels hostID ((owners.get? e.1).getD ⟨"", "", ""⟩) }

/-- The order in which the links are sorted. -/
def linkBefore (a b : TopologyLink) : Bool :=
  if a.count ≠ b.count then a.count > b.count
  else a.source ++ a.target < b.source ++ b.target

/-- The possible results of `BuildSample`: links that the order does not tell apart come in any
order. -/
def BuildSample (flows : List Flow) (resolver : Resolver) (hostID : String) (ts : Time)
    (sample : Sample) : Prop :=
  let st := flows.foldl (sampleStep resolver ts) SampleState.empty
  sample.links.Perm (st.edges.values.map EdgeAgg.link) ∧
    (sample.links.Pairwise fun a b => linkBefore b a = false) ∧
    sample.metrics = metricsFor st.owners st.outbound "net.connections.out" hostID ts ++
      metricsFor st.owners st.inbound "net.connections.in" hostID ts ++
      metricsFor st.owners st.retransmits "net.retransmits" hostID ts

/-! ### What a sample should be -/

/-- The names of the two ends of a flow. -/
def endNames (resolver : Resolver) (f : Flow) : String × String :=
  (nodeName (resolver f.clientIP) f.clientIP, nodeName (resolver f.serverIP) f.serverIP)

/-- The link that a flow is an observation of: its ends have names, and not the same. -/
def linkOf (resolver : Resolver) (f : Flow) : Option LinkKey :=
  let (source, target) := endNames resolver f
  if f.count = 0 ∨ f.direction = directionRetransmit then none
  else if source = "" ∨ target = "" ∨ source = target then none
  else some (toLex (source, toLex (target, f.servicePort.toNat)))

/-- The local workload that is counted for a flow of a direction: the one at the source. A
connection of a workload with itself is not counted. -/
def counted (direction : UInt8) (resolver : Resolver) (f : Flow) : Option Workload :=
  if f.count = 0 ∨ f.direction ≠ direction then none
  else if direction ≠ directionRetransmit ∧ sameWorkload (resolver f.source) (resolver f.dest) then
    none
  else resolver f.source

/-- The sum of the counts of flows, as a `uint64`. -/
def sumCounts (flows : List Flow) : ℕ := (flows.map Flow.count).sum % 2 ^ 64

/-- The flows of a link that a direction reports. -/
def linkFlows (resolver : Resolver) (direction : UInt8) (key : LinkKey) (flows : List Flow) :
    List Flow :=
  flows.filter fun f => linkOf resolver f = some key ∧ f.direction = direction

/-- The count of a link: that of the outbound flows if there are any, else of the inbound ones. -/
def linkCount (resolver : Resolver) (key : LinkKey) (flows : List Flow) : ℕ :=
  if linkFlows resolver directionOut key flows = [] then
    sumCounts (linkFlows resolver directionIn key flows)
  else sumCounts (linkFlows resolver directionOut key flows)

/-- The link of a key with a count. -/
def linkWith (ts : Time) (key : LinkKey) (count : ℕ) : TopologyLink where
  source := (ofLex key).1
  target := (ofLex (ofLex key).2).1
  kind := kindForPort (ofLex (ofLex key).2).2
  port := (ofLex (ofLex key).2).2
  count := count
  ts := ts

/-- The point of a workload with a count. -/
def pointWith (name hostID : String) (ts : Time) (w : Workload) (count : ℕ) : MetricPoint where
  metricName := name
  ts := ts
  value := float64 (.finite count)
  entityUID := w.entityUID
  labels := metricLabels hostID w

/-- The metrics and the directions that they count. -/
def sampleMetrics : List (String × UInt8) :=
  [("net.connections.out", directionOut), ("net.connections.in", directionIn),
    ("net.retransmits", directionRetransmit)]

/-- What a sample of flows should be. -/
structure SampleMeets (flows : List Flow) (resolver : Resolver) (hostID : String) (ts : Time)
    (sample : Sample) : Prop where
  /-- The links are those of the flows, with their counts. -/
  links : ∀ l, l ∈ sample.links ↔
    ∃ key, (∃ f ∈ flows, linkOf resolver f = some key) ∧
      l = linkWith ts key (linkCount resolver key flows)
  /-- There is one for each pair of names and port. -/
  oneLink : (sample.links.map fun l => (l.source, l.target, l.port)).Nodup
  /-- The names are there, and not the same. -/
  names : ∀ l ∈ sample.links, l.source ≠ "" ∧ l.target ≠ "" ∧ l.source ≠ l.target
  /-- The points are those of the workloads for which flows are counted, with the sums. -/
  metrics : ∀ p, p ∈ sample.metrics ↔
    ∃ e ∈ sampleMetrics, ∃ w, (∃ f ∈ flows, counted e.2 resolver f = some w) ∧
      p = pointWith e.1 hostID ts w
        (sumCounts (flows.filter fun f => counted e.2 resolver f = some w))
  /-- There is one for each metric and workload. -/
  onePoint : (sample.metrics.map fun p => (p.metricName, p.entityUID)).Nodup

/-- A uid determines its workload. -/
def Determined (resolver : Resolver) : Prop :=
  ∀ ip w ip' w', resolver ip = some w → resolver ip' = some w' → w.entityUID = w'.entityUID →
    w = w'

/-- A flow that the kernel program can report: one of three directions, and a 64-bit count. -/
structure Flow.Reported (f : Flow) : Prop where
  direction : f.direction = directionOut ∨ f.direction = directionIn ∨
    f.direction = directionRetransmit
  count : f.count < 2 ^ 64

/-! ### One flow -/

section Step

variable {resolver : Resolver} {ts : Time}

/-- The edge of a key after one more of its flows. -/
def nextEdge (ts : Time) (key : LinkKey) (f : Flow) : Option EdgeAgg → EdgeAgg
  | none => newEdge ts (ofLex key).1 (ofLex (ofLex key).2).1 f
  | some agg => updateEdge agg f

/-- The workload that is counted for a flow, of whatever direction. -/
def recorded (resolver : Resolver) (f : Flow) : Option Workload :=
  ((counted directionOut resolver f).or (counted directionIn resolver f)).or
    (counted directionRetransmit resolver f)

theorem sameWorkload_comm (a b : Option Workload) : sameWorkload a b = sameWorkload b a := by
  rcases a with - | w <;> rcases b with - | w'
  · rfl
  · rfl
  · rfl
  · exact Bool.beq_comm

theorem counted_of_direction_ne {direction : UInt8} {f : Flow} (h : f.direction ≠ direction) :
    counted direction resolver f = none :=
  if_pos (.inr h)

theorem counted_of_connection {direction : UInt8} {f : Flow} (hcount : f.count ≠ 0)
    (h : f.direction = direction) (hconnection : direction ≠ directionRetransmit) :
    counted direction resolver f =
      if sameWorkload (resolver f.source) (resolver f.dest) then none else resolver f.source := by
  rw [counted, if_neg (not_or.mpr ⟨hcount, not_not_intro h⟩)]
  simp only [hconnection, ne_eq, not_false_eq_true, true_and]

theorem counted_of_retransmit {f : Flow} (hcount : f.count ≠ 0)
    (h : f.direction = directionRetransmit) :
    counted directionRetransmit resolver f = resolver f.source := by
  rw [counted, if_neg (not_or.mpr ⟨hcount, not_not_intro h⟩), if_neg fun hne => hne.1 rfl]

variable (ts) in
/-- The map of edges changes at the link of the flow. -/
theorem edges_of_connection {f : Flow} {source target : String}
    (hnames : endNames resolver f = (source, target)) (hcount : f.count ≠ 0)
    (hconnection : f.direction ≠ directionRetransmit) (st : SampleState) :
    (if source = "" ∨ target = "" ∨ source = target then st
      else
        let key : LinkKey := toLex (source, toLex (target, f.servicePort.toNat))
        { st with edges := st.edges.insert key (match st.edges.get? key with
          | none => newEdge ts source target f
          | some agg => updateEdge agg f) }) =
      { st with edges := st.edges.changeAt (linkOf resolver f) fun o =>
          nextEdge ts ((linkOf resolver f).getD (toLex ("", toLex ("", 0)))) f o } := by
  rw [linkOf, hnames]
  simp only [if_neg (not_or.mpr ⟨hcount, hconnection⟩)]
  split_ifs with h
  · rfl
  · rcases hget : st.edges.get? (toLex (source, toLex (target, f.servicePort.toNat))) with - | agg
    · simp only [changeAt, hget, Option.getD_some]
      rfl
    · simp only [changeAt, hget, Option.getD_some]
      rfl

/-- **What one round does.** Each map changes under at most one key. -/
theorem sampleStep_eq (st : SampleState) (f : Flow) :
    sampleStep resolver ts st f = {
      edges := st.edges.changeAt (linkOf resolver f) fun o =>
        nextEdge ts ((linkOf resolver f).getD (toLex ("", toLex ("", 0)))) f o
      outbound := st.outbound.changeAt ((counted directionOut resolver f).map Workload.entityUID)
        fun o => add64 (o.getD 0) f.count
      inbound := st.inbound.changeAt ((counted directionIn resolver f).map Workload.entityUID)
        fun o => add64 (o.getD 0) f.count
      retransmits :=
        st.retransmits.changeAt ((counted directionRetransmit resolver f).map Workload.entityUID)
          fun o => add64 (o.getD 0) f.count
      owners := st.owners.changeAt ((recorded resolver f).map Workload.entityUID)
        fun _ => (recorded resolver f).getD ⟨"", "", ""⟩ } := by
  by_cases hcount : f.count = 0
  · simp [sampleStep, linkOf, counted, recorded, hcount, changeAt]
  by_cases hretransmit : f.direction = directionRetransmit
  · have hout : f.direction ≠ directionOut := hretransmit ▸ by decide
    have hin : f.direction ≠ directionIn := hretransmit ▸ by decide
    have hlink : linkOf resolver f = none := if_pos (.inr hretransmit)
    rw [hlink, recorded, counted_of_direction_ne hout, counted_of_direction_ne hin,
      counted_of_retransmit hcount hretransmit, sampleStep, if_neg hcount, if_pos hretransmit]
    rcases resolver f.source with - | w
    · rfl
    · rfl
  have hne : directionIn ≠ directionOut := by decide
  by_cases hin : f.direction = directionIn
  · have hout : f.direction ≠ directionOut := hin ▸ hne
    have hends : endNames resolver f =
        (nodeName (resolver f.dest) f.clientIP, nodeName (resolver f.source) f.serverIP) := by
      rw [endNames, Flow.clientIP, Flow.serverIP, if_pos hin, if_pos hin]
    have hedges := edges_of_connection ts hends hcount hretransmit
    rw [recorded, counted_of_direction_ne hout, counted_of_direction_ne hretransmit,
      counted_of_connection hcount hin (by decide), sampleStep, if_neg hcount, if_neg hretransmit]
    simp only [if_pos hin]
    rw [hedges, sameWorkload_comm (resolver f.dest)]
    -- the workload of the source listens; the one of the destination is not counted
    generalize sameWorkload (resolver f.source) (resolver f.dest) = self
    rcases resolver f.dest with - | w' <;> rcases resolver f.source with - | w <;> cases self <;>
      simp [hin, hne, changeAt, countFor]
  · have hends : endNames resolver f =
        (nodeName (resolver f.source) f.clientIP, nodeName (resolver f.dest) f.serverIP) := by
      rw [endNames, Flow.clientIP, Flow.serverIP, if_neg hin, if_neg hin]
    have hedges := edges_of_connection ts hends hcount hretransmit
    rw [recorded, counted_of_direction_ne hin, counted_of_direction_ne hretransmit, sampleStep,
      if_neg hcount, if_neg hretransmit]
    simp only [if_neg hin]
    rw [hedges]
    by_cases hout : f.direction = directionOut
    · rw [counted_of_connection hcount hout (by decide)]
      generalize sameWorkload (resolver f.source) (resolver f.dest) = self
      rcases resolver f.dest with - | w' <;> rcases resolver f.source with - | w <;> cases self <;>
        simp [hout, hne.symm, changeAt, countFor]
    · rw [counted_of_direction_ne hout]
      rcases resolver f.dest with - | w' <;> rcases resolver f.source with - | w <;>
        simp [hin, hout, changeAt]

/-! ### The flows of a window -/

/-- The edges of flows. -/
def sampleEdges (resolver : Resolver) (ts : Time) (flows : List Flow) : SortedMap LinkKey EdgeAgg :=
  flows.foldl (fun m f => m.changeAt (linkOf resolver f) fun o =>
    nextEdge ts ((linkOf resolver f).getD (toLex ("", toLex ("", 0)))) f o) ∅

/-- The counts of the flows of a direction. -/
def sampleCounts (direction : UInt8) (resolver : Resolver) (flows : List Flow) :
    SortedMap String ℕ :=
  flows.foldl (fun m f => m.changeAt ((counted direction resolver f).map Workload.entityUID)
    fun o => add64 (o.getD 0) f.count) ∅

/-- The workloads of the counts. -/
def sampleOwners (resolver : Resolver) (flows : List Flow) : SortedMap String Workload :=
  flows.foldl (fun m f => m.changeAt ((recorded resolver f).map Workload.entityUID)
    fun _ => (recorded resolver f).getD ⟨"", "", ""⟩) ∅

/-- The loop fills the five maps independently of each other. -/
theorem foldl_sampleStep (flows : List Flow) :
    flows.foldl (sampleStep resolver ts) SampleState.empty = {
      edges := sampleEdges resolver ts flows
      outbound := sampleCounts directionOut resolver flows
      inbound := sampleCounts directionIn resolver flows
      retransmits := sampleCounts directionRetransmit resolver flows
      owners := sampleOwners resolver flows } := by
  induction flows using List.reverseRecOn with
  | nil => rfl
  | append_singleton flows f ih =>
    rw [List.foldl_concat, ih, sampleStep_eq]
    simp only [sampleEdges, sampleCounts, sampleOwners, List.foldl_concat]

theorem sumCounts_concat (flows : List Flow) (f : Flow) :
    sumCounts (flows ++ [f]) = add64 (sumCounts flows) f.count := by
  rw [sumCounts, sumCounts, add64, List.map_append, List.sum_append, List.map_singleton,
    List.sum_singleton, Nat.mod_add_mod]

/-- Under a uid lies the sum of the flows that are counted for it. -/
theorem get?_sampleCounts (direction : UInt8) (flows : List Flow) (uid : String) :
    (sampleCounts direction resolver flows).get? uid =
      let rows := flows.filter fun f =>
        (counted direction resolver f).map Workload.entityUID = some uid
      if rows = [] then none else some (sumCounts rows) := by
  rw [sampleCounts, get?_foldl_changeAt]
  induction flows.filter fun f =>
      (counted direction resolver f).map Workload.entityUID = some uid using List.reverseRecOn with
  | nil => rfl
  | append_singleton rows f ih =>
    rw [List.foldl_concat, ih]
    simp only [List.append_eq_nil_iff, List.cons_ne_self, and_false, if_false, sumCounts_concat]
    split_ifs with h
    · rw [h]
      rfl
    · rfl

/-- A flow of a link is a connection in one of the two directions, between two names. -/
theorem linkOf_eq_some {f : Flow} {key : LinkKey} (h : linkOf resolver f = some key) :
    f.direction ≠ directionRetransmit ∧ (ofLex (ofLex key).2).2 = f.servicePort.toNat ∧
      (ofLex key).1 ≠ "" ∧ (ofLex (ofLex key).2).1 ≠ "" ∧
        (ofLex key).1 ≠ (ofLex (ofLex key).2).1 := by
  rw [linkOf] at h
  rcases endNames resolver f with ⟨source, target⟩
  simp only at h
  split_ifs at h with hflow hnames
  obtain rfl := Option.some.inj h
  obtain ⟨hsource, htarget, hne⟩ := not_or.mp hnames |>.imp_right not_or.mp
  exact ⟨fun heq => hflow (.inr heq), rfl, hsource, htarget, hne⟩

theorem direction_of_linkOf {f : Flow} {key : LinkKey} (hf : f.Reported)
    (h : linkOf resolver f = some key) :
    f.direction = directionOut ∨ f.direction = directionIn := by
  rcases hf.direction with hout | hin | hretransmit
  · exact .inl hout
  · exact .inr hin
  · exact absurd hretransmit (linkOf_eq_some h).1

theorem sumCounts_singleton {f : Flow} (hf : f.Reported) : sumCounts [f] = f.count := by
  rw [sumCounts, List.map_singleton, List.sum_singleton, Nat.mod_eq_of_lt hf.count]

/-- The edge of a link of which there are outbound and inbound flows. -/
def edgeWith (ts : Time) (key : LinkKey) (outs ins : List Flow) : EdgeAgg where
  link := linkWith ts key (if outs = [] then sumCounts ins else sumCounts outs)
  fromLocal := outs ≠ []

theorem edgeWith_nil (key : LinkKey) (ins : List Flow) :
    edgeWith ts key [] ins = ⟨linkWith ts key (sumCounts ins), false⟩ := rfl

theorem edgeWith_of_ne_nil (key : LinkKey) {outs : List Flow} (h : outs ≠ []) (ins : List Flow) :
    edgeWith ts key outs ins = ⟨linkWith ts key (sumCounts outs), true⟩ := by
  rw [edgeWith, if_neg h, decide_eq_true h]

/-- An outbound flow: the first one starts the count anew. -/
theorem nextEdge_outbound {key : LinkKey} {f : Flow} (hf : f.Reported)
    (hlink : linkOf resolver f = some key) (hout : f.direction = directionOut)
    (outs ins : List Flow) :
    nextEdge ts key f (if outs = [] ∧ ins = [] then none else some (edgeWith ts key outs ins)) =
      edgeWith ts key (outs ++ [f]) ins := by
  have hne : f.direction ≠ directionIn := hout ▸ by decide
  rw [edgeWith_of_ne_nil key (List.append_ne_nil_of_right_ne_nil outs (List.cons_ne_nil f []))]
  by_cases houts : outs = []
  · rw [houts, List.nil_append, sumCounts_singleton hf, edgeWith_nil]
    by_cases hins : ins = []
    · rw [if_pos ⟨rfl, hins⟩, nextEdge, newEdge, linkWith, (linkOf_eq_some hlink).2.1,
        decide_eq_true hout]
    · rw [if_neg fun h => hins h.2, nextEdge, updateEdge, if_neg fun h => hne h.2,
        if_pos ⟨rfl, hout⟩]
      rfl
  · rw [if_neg fun h => houts h.1, edgeWith_of_ne_nil key houts, sumCounts_concat, nextEdge,
      updateEdge, if_neg fun h => hne h.2, if_neg fun h => Bool.false_ne_true h.1]
    rfl

/-- An inbound flow: after an outbound one it is dropped. -/
theorem nextEdge_inbound {key : LinkKey} {f : Flow} (hf : f.Reported)
    (hlink : linkOf resolver f = some key) (hin : f.direction = directionIn)
    (outs ins : List Flow) :
    nextEdge ts key f (if outs = [] ∧ ins = [] then none else some (edgeWith ts key outs ins)) =
      edgeWith ts key outs (ins ++ [f]) := by
  have hne : f.direction ≠ directionOut := hin ▸ by decide
  by_cases houts : outs = []
  · rw [houts, edgeWith_nil, edgeWith_nil]
    by_cases hins : ins = []
    · rw [if_pos ⟨rfl, hins⟩, nextEdge, newEdge, hins, List.nil_append, sumCounts_singleton hf,
        linkWith, (linkOf_eq_some hlink).2.1, decide_eq_false hne]
    · rw [if_neg fun h => hins h.2, nextEdge, updateEdge, if_neg fun h => Bool.false_ne_true h.1,
        if_neg fun h => hne h.2, sumCounts_concat]
      rfl
  · rw [if_neg fun h => houts h.1, edgeWith_of_ne_nil key houts, edgeWith_of_ne_nil key houts,
      nextEdge, updateEdge, if_pos ⟨rfl, hin⟩]

theorem linkFlows_concat_of_pos {direction : UInt8} {key : LinkKey} {f : Flow}
    (h : linkOf resolver f = some key ∧ f.direction = direction) (flows : List Flow) :
    linkFlows resolver direction key (flows ++ [f]) =
      linkFlows resolver direction key flows ++ [f] := by
  have hsingle : linkFlows resolver direction key [f] = [f] :=
    List.filter_cons_of_pos (decide_eq_true h)
  rw [linkFlows, List.filter_append, ← linkFlows, ← linkFlows, hsingle]

theorem linkFlows_concat_of_neg {direction : UInt8} {key : LinkKey} {f : Flow}
    (h : ¬(linkOf resolver f = some key ∧ f.direction = direction)) (flows : List Flow) :
    linkFlows resolver direction key (flows ++ [f]) = linkFlows resolver direction key flows := by
  have hsingle : linkFlows resolver direction key [f] = [] :=
    List.filter_cons_of_neg (mt of_decide_eq_true h)
  rw [linkFlows, List.filter_append, ← linkFlows, ← linkFlows, hsingle, List.append_nil]

/-- **The count of a link does not depend on the order.** Under a key lies the sum of the outbound
flows, or of the inbound ones when there are no others. -/
theorem get?_sampleEdges {flows : List Flow} (hflows : ∀ f ∈ flows, f.Reported) (key : LinkKey) :
    (sampleEdges resolver ts flows).get? key =
      if linkFlows resolver directionOut key flows = [] ∧
          linkFlows resolver directionIn key flows = [] then none
      else some (edgeWith ts key (linkFlows resolver directionOut key flows)
        (linkFlows resolver directionIn key flows)) := by
  induction flows using List.reverseRecOn with
  | nil => rfl
  | append_singleton flows f ih =>
    have hf := hflows f List.mem_concat_self
    specialize ih fun g hg => hflows g (List.mem_append_left _ hg)
    rw [sampleEdges, List.foldl_concat, ← sampleEdges, get?_changeAt, ih]
    have happend (l : List Flow) : l ++ [f] ≠ [] :=
      List.append_ne_nil_of_right_ne_nil l (List.cons_ne_nil f [])
    by_cases hlink : linkOf resolver f = some key
    · rw [if_pos hlink, hlink, Option.getD_some]
      rcases direction_of_linkOf hf hlink with hout | hin
      · have hne : f.direction ≠ directionIn := hout ▸ by decide
        rw [nextEdge_outbound hf hlink hout, linkFlows_concat_of_pos ⟨hlink, hout⟩,
          linkFlows_concat_of_neg fun h => hne h.2, if_neg fun h => happend _ h.1]
      · have hne : f.direction ≠ directionOut := hin ▸ by decide
        rw [nextEdge_inbound hf hlink hin, linkFlows_concat_of_neg fun h => hne h.2,
          linkFlows_concat_of_pos ⟨hlink, hin⟩, if_neg fun h => happend _ h.2]
    · rw [if_neg hlink, linkFlows_concat_of_neg fun h => hlink h.1,
        linkFlows_concat_of_neg fun h => hlink h.1]

/-- What is counted for a workload is recorded. -/
theorem recorded_eq_some {direction : UInt8} (hdirection : ∃ e ∈ sampleMetrics, e.2 = direction)
    {f : Flow} {w : Workload} (h : counted direction resolver f = some w) :
    recorded resolver f = some w := by
  have hdir : f.direction = direction := by
    by_contra hne
    rw [counted_of_direction_ne hne] at h
    cases h
  have hother (d : UInt8) (hd : d ≠ direction) : counted d resolver f = none :=
    counted_of_direction_ne (hdir ▸ hd.symm)
  obtain ⟨e, he, rfl⟩ := hdirection
  simp only [sampleMetrics, List.mem_cons, List.not_mem_nil, or_false] at he
  rcases he with rfl | rfl | rfl
  · rw [recorded, h, hother _ (by decide), hother _ (by decide)]
    rfl
  · rw [recorded, h, hother _ (by decide), hother _ (by decide)]
    rfl
  · rw [recorded, h, hother _ (by decide), hother _ (by decide)]
    rfl

theorem exists_of_counted {direction : UInt8} {f : Flow} {w : Workload}
    (h : counted direction resolver f = some w) : resolver f.source = some w := by
  rw [counted] at h
  split_ifs at h
  exact h

theorem exists_of_recorded {f : Flow} {w : Workload} (h : recorded resolver f = some w) :
    resolver f.source = some w := by
  rw [recorded, Option.or_eq_some_iff, Option.or_eq_some_iff] at h
  rcases h with (h | ⟨-, h⟩) | ⟨-, h⟩
  · exact exists_of_counted h
  · exact exists_of_counted h
  · exact exists_of_counted h

/-- The workload of a uid that is recorded. -/
theorem get?_sampleOwners (hresolver : Determined resolver) {flows : List Flow} {f : Flow}
    (hf : f ∈ flows) {w : Workload} (hw : recorded resolver f = some w) :
    (sampleOwners resolver flows).get? w.entityUID = some w := by
  rw [sampleOwners, get?_foldl_changeAt]
  have hmem : f ∈ flows.filter fun g =>
      (recorded resolver g).map Workload.entityUID = some w.entityUID :=
    List.mem_filter.mpr ⟨hf, by simp [hw]⟩
  have hrows : ∀ g ∈ flows.filter (fun g =>
      (recorded resolver g).map Workload.entityUID = some w.entityUID),
      recorded resolver g = some w := by
    intro g hg
    obtain ⟨w', hw', huid⟩ :=
      Option.map_eq_some_iff.mp (of_decide_eq_true (List.mem_filter.mp hg).2)
    rw [hw', hresolver _ _ _ _ (exists_of_recorded hw') (exists_of_recorded hw) huid]
  -- the last flow of the uid decides
  obtain ⟨rows, g, hconcat⟩ := (List.eq_nil_or_concat' _).resolve_left (List.ne_nil_of_mem hmem)
  rw [hconcat] at hrows ⊢
  rw [List.foldl_concat, hrows g List.mem_concat_self]
  rfl

/-! ### Metrics -/

/-- The flows of a uid are those of its workload. -/
theorem filter_counted (hresolver : Determined resolver) {direction : UInt8} {flows : List Flow}
    {f : Flow} {w : Workload} (hw : counted direction resolver f = some w) :
    (flows.filter fun g =>
        (counted direction resolver g).map Workload.entityUID = some w.entityUID) =
      flows.filter fun g => counted direction resolver g = some w := by
  refine List.filter_congr fun g _ => decide_eq_decide.mpr ⟨fun h => ?_, fun h => by rw [h]; rfl⟩
  obtain ⟨w', hw', huid⟩ := Option.map_eq_some_iff.mp h
  rw [hw', hresolver _ _ _ _ (exists_of_counted hw') (exists_of_counted hw) huid]

/-- The points of a metric are those of the workloads that it counts. -/
theorem mem_metricsFor (hresolver : Determined resolver) {e : String × UInt8}
    (he : e ∈ sampleMetrics) {flows : List Flow} {hostID : String} {p : MetricPoint} :
    p ∈ metricsFor (sampleOwners resolver flows) (sampleCounts e.2 resolver flows) e.1 hostID ts ↔
      ∃ w, (∃ f ∈ flows, counted e.2 resolver f = some w) ∧
        p = pointWith e.1 hostID ts w
          (sumCounts (flows.filter fun f => counted e.2 resolver f = some w)) := by
  have hget {f : Flow} (hf : f ∈ flows) {w : Workload} (hw : counted e.2 resolver f = some w) :
      (sampleCounts e.2 resolver flows).get? w.entityUID =
        some (sumCounts (flows.filter fun f => counted e.2 resolver f = some w)) ∧
      (sampleOwners resolver flows).get? w.entityUID = some w := by
    refine ⟨?_, get?_sampleOwners hresolver hf (recorded_eq_some ⟨e, he, rfl⟩ hw)⟩
    rw [get?_sampleCounts, filter_counted hresolver hw]
    refine if_neg fun hnil => ?_
    exact List.filter_eq_nil_iff.mp hnil f hf (decide_eq_true hw)
  rw [metricsFor, List.mem_map]
  constructor
  · rintro ⟨⟨uid, count⟩, hentry, rfl⟩
    have hcount := mem_entries.mp hentry
    rw [get?_sampleCounts] at hcount
    simp only at hcount
    split_ifs at hcount with hrows
    obtain ⟨f, hmem⟩ := List.exists_mem_of_ne_nil _ hrows
    obtain ⟨hf, huid⟩ := List.mem_filter.mp hmem
    obtain ⟨w, hw, rfl⟩ := Option.map_eq_some_iff.mp (of_decide_eq_true huid)
    obtain ⟨hsum, howner⟩ := hget hf hw
    obtain rfl : count = _ := Option.some.inj ((mem_entries.mp hentry).symm.trans hsum)
    refine ⟨w, ⟨f, hf, hw⟩, ?_⟩
    rw [howner, pointWith, Option.getD_some]
  · rintro ⟨w, ⟨f, hf, hw⟩, rfl⟩
    obtain ⟨hsum, howner⟩ := hget hf hw
    refine ⟨(w.entityUID, _), mem_entries.mpr hsum, ?_⟩
    rw [howner, pointWith, Option.getD_some]

/-- A metric has one point for each uid. -/
theorem map_metricsFor (owners : SortedMap String Workload) (counts : SortedMap String ℕ)
    (name hostID : String) :
    ((metricsFor owners counts name hostID ts).map fun p => (p.metricName, p.entityUID)) =
      counts.keys.map (Prod.mk name) := by
  rw [metricsFor, List.map_map, keys, List.map_map]
  rfl

/-! ### Links -/

theorem linkFlows_ne_nil {direction : UInt8} {key : LinkKey} {flows : List Flow} :
    linkFlows resolver direction key flows ≠ [] ↔
      ∃ f ∈ flows, linkOf resolver f = some key ∧ f.direction = direction := by
  rw [linkFlows, ne_eq, List.filter_eq_nil_iff]
  push Not
  simp only [decide_eq_true_eq]

/-- The edges are those of the links of the flows. -/
theorem get?_sampleEdges_eq_some {flows : List Flow} (hflows : ∀ f ∈ flows, f.Reported)
    {key : LinkKey} {agg : EdgeAgg} :
    (sampleEdges resolver ts flows).get? key = some agg ↔
      (∃ f ∈ flows, linkOf resolver f = some key) ∧
        agg = edgeWith ts key (linkFlows resolver directionOut key flows)
          (linkFlows resolver directionIn key flows) := by
  have hsome : (∃ f ∈ flows, linkOf resolver f = some key) ↔
      ¬(linkFlows resolver directionOut key flows = [] ∧
        linkFlows resolver directionIn key flows = []) := by
    rw [not_and_or, ← ne_eq, ← ne_eq, linkFlows_ne_nil, linkFlows_ne_nil]
    constructor
    · rintro ⟨f, hf, hlink⟩
      rcases direction_of_linkOf (hflows f hf) hlink with hout | hin
      · exact .inl ⟨f, hf, hlink, hout⟩
      · exact .inr ⟨f, hf, hlink, hin⟩
    · rintro (⟨f, hf, hlink, -⟩ | ⟨f, hf, hlink, -⟩)
      · exact ⟨f, hf, hlink⟩
      · exact ⟨f, hf, hlink⟩
  rw [get?_sampleEdges hflows, hsome]
  split_ifs with h
  · exact ⟨False.elim, fun hand => absurd h hand.1⟩
  · rw [Option.some.injEq]
    exact ⟨fun heq => ⟨h, heq.symm⟩, fun hand => hand.2.symm⟩

/-- The links of a window. -/
theorem mem_links {flows : List Flow} (hflows : ∀ f ∈ flows, f.Reported) {l : TopologyLink} :
    l ∈ (sampleEdges resolver ts flows).values.map EdgeAgg.link ↔
      ∃ key, (∃ f ∈ flows, linkOf resolver f = some key) ∧
        l = linkWith ts key (linkCount resolver key flows) := by
  rw [List.mem_map]
  constructor
  · rintro ⟨agg, hagg, rfl⟩
    obtain ⟨key, hget⟩ := mem_values.mp hagg
    obtain ⟨hexists, rfl⟩ := (get?_sampleEdges_eq_some hflows).mp hget
    exact ⟨key, hexists, rfl⟩
  · rintro ⟨key, hexists, rfl⟩
    exact ⟨_, mem_values.mpr ⟨key, (get?_sampleEdges_eq_some hflows).mpr ⟨hexists, rfl⟩⟩, rfl⟩

/-- One link for each key. -/
theorem nodup_links {flows : List Flow} (hflows : ∀ f ∈ flows, f.Reported) :
    (((sampleEdges resolver ts flows).values.map EdgeAgg.link).map fun l =>
      (l.source, l.target, l.port)).Nodup := by
  have hkeys : ((sampleEdges resolver ts flows).values.map EdgeAgg.link).map (fun l =>
      (l.source, l.target, l.port)) = (sampleEdges resolver ts flows).keys.map fun key =>
        ((ofLex key).1, (ofLex (ofLex key).2).1, (ofLex (ofLex key).2).2) := by
    rw [values, keys, List.map_map, List.map_map, List.map_map]
    refine List.map_congr_left fun e he => ?_
    obtain ⟨-, hagg⟩ := (get?_sampleEdges_eq_some hflows).mp (mem_entries.mp he)
    simp only [Function.comp_apply, hagg]
    rfl
  rw [hkeys]
  refine List.Nodup.map (fun key key' h => ?_)
    ((sampleEdges resolver ts flows).sorted_keys.imp fun hlt => hlt.ne)
  have hpair : (ofLex key).1 = (ofLex key').1 ∧ (ofLex key).2 = (ofLex key').2 := by
    simpa [Prod.ext_iff] using h
  exact ofLex.injective (Prod.ext hpair.1 hpair.2)

end Step

/-- What the links are sorted by, largest first. -/
def linkRank (l : TopologyLink) : ℕ ×ₗ Stringᵒᵈ :=
  toLex (l.count, OrderDual.toDual (l.source ++ l.target))

theorem linkBefore_eq_false {a b : TopologyLink} :
    linkBefore b a = false ↔ linkRank b ≤ linkRank a := by
  rw [linkBefore, linkRank, linkRank, Prod.Lex.toLex_le_toLex, OrderDual.toDual_le_toDual]
  split_ifs with h
  · simp only [decide_eq_false_iff_not, not_lt]
    exact ⟨fun hle => .inl (lt_of_le_of_ne hle h), fun hor => hor.elim le_of_lt fun heq => heq.1.le⟩
  · rw [decide_eq_false_iff_not, not_lt]
    exact ⟨fun hle => .inr ⟨not_not.mp h, hle⟩,
      fun hor => hor.elim (fun hlt => absurd hlt.ne h) And.right⟩

/-! ### Samples -/

section Sample

variable {flows : List Flow} {resolver : Resolver} {hostID : String} {ts : Time} {sample : Sample}

/-- There is a sample. -/
theorem exists_buildSample (flows : List Flow) (resolver : Resolver) (hostID : String) (ts : Time) :
    ∃ sample, BuildSample flows resolver hostID ts sample := by
  have hranked := ranked_rankStable linkRank
    ((flows.foldl (sampleStep resolver ts) SampleState.empty).edges.values.map EdgeAgg.link)
  exact ⟨⟨_, _⟩, hranked.1, hranked.2.imp linkBefore_eq_false.mpr, rfl⟩

/-- The metrics one after the other. -/
theorem BuildSample.metrics_eq (h : BuildSample flows resolver hostID ts sample) :
    sample.metrics = sampleMetrics.flatMap fun e =>
      metricsFor (sampleOwners resolver flows) (sampleCounts e.2 resolver flows) e.1 hostID ts := by
  rw [h.2.2, foldl_sampleStep, List.append_assoc]
  simp only [sampleMetrics, List.flatMap_cons, List.flatMap_nil, List.append_nil]

/-- **Every sample is what it should be.** -/
theorem BuildSample.meets (h : BuildSample flows resolver hostID ts sample)
    (hresolver : Determined resolver) (hflows : ∀ f ∈ flows, f.Reported) :
    SampleMeets flows resolver hostID ts sample := by
  have hlinks : sample.links.Perm ((sampleEdges resolver ts flows).values.map EdgeAgg.link) := by
    have hperm := h.1
    rwa [foldl_sampleStep] at hperm
  have hmem (l : TopologyLink) : l ∈ sample.links ↔ _ := hlinks.mem_iff.trans (mem_links hflows)
  refine ⟨hmem, ?_, fun l hl => ?_, fun p => ?_, ?_⟩
  · exact (hlinks.map _).nodup_iff.mpr (nodup_links hflows)
  · obtain ⟨key, ⟨f, -, hlink⟩, rfl⟩ := (hmem l).mp hl
    exact (linkOf_eq_some hlink).2.2
  · rw [h.metrics_eq, List.mem_flatMap]
    refine exists_congr fun e => and_congr_right fun he => ?_
    exact mem_metricsFor hresolver he
  · rw [h.metrics_eq, List.map_flatMap, List.nodup_flatMap]
    refine ⟨fun e _ => ?_, ?_⟩
    · rw [map_metricsFor]
      exact List.Nodup.map (Prod.mk_right_injective e.1)
        ((sampleCounts e.2 resolver flows).sorted_keys.imp fun hlt => hlt.ne)
    · have hnames : sampleMetrics.Pairwise fun e e' => e.1 ≠ e'.1 := by decide
      refine hnames.imp fun hne q hq hq' => ?_
      simp only [map_metricsFor] at hq hq'
      obtain ⟨uid, -, rfl⟩ := List.mem_map.mp hq
      obtain ⟨uid', -, heq⟩ := List.mem_map.mp hq'
      exact hne (congrArg Prod.fst heq).symm

theorem sumCounts_perm {rows rows' : List Flow} (h : rows.Perm rows') :
    sumCounts rows = sumCounts rows' := by
  rw [sumCounts, sumCounts, (h.map Flow.count).sum_eq]

theorem linkCount_perm {flows' : List Flow} (h : flows.Perm flows') (key : LinkKey) :
    linkCount resolver key flows = linkCount resolver key flows' := by
  have hflows (direction : UInt8) : (linkFlows resolver direction key flows).Perm
      (linkFlows resolver direction key flows') := h.filter _
  have hnil : linkFlows resolver directionOut key flows = [] ↔
      linkFlows resolver directionOut key flows' = [] := by
    rw [← List.length_eq_zero_iff, ← List.length_eq_zero_iff, (hflows directionOut).length_eq]
  rw [linkCount, linkCount, sumCounts_perm (hflows directionOut),
    sumCounts_perm (hflows directionIn)]
  simp only [hnil]

/-- What a sample should be does not depend on the order of the flows. -/
theorem SampleMeets.perm {flows' : List Flow} (hperm : flows.Perm flows')
    (h : SampleMeets flows resolver hostID ts sample) :
    SampleMeets flows' resolver hostID ts sample := by
  refine ⟨fun l => (h.links l).trans ?_, h.oneLink, h.names, fun p => (h.metrics p).trans ?_,
    h.onePoint⟩
  · simp only [linkCount_perm hperm, hperm.mem_iff]
  · simp only [sumCounts_perm (hperm.filter _), hperm.mem_iff]

/-- Two samples that are what they should be have the same links and points. -/
theorem SampleMeets.unique {sample' : Sample} (h : SampleMeets flows resolver hostID ts sample)
    (h' : SampleMeets flows resolver hostID ts sample') :
    sample'.links.Perm sample.links ∧ sample'.metrics.Perm sample.metrics := by
  refine ⟨(List.perm_ext_iff_of_nodup h'.oneLink.of_map h.oneLink.of_map).mpr fun l => ?_,
    (List.perm_ext_iff_of_nodup h'.onePoint.of_map h.onePoint.of_map).mpr fun p => ?_⟩
  · exact (h'.links l).trans (h.links l).symm
  · exact (h'.metrics p).trans (h.metrics p).symm

end Sample

/-- **Key result.** `BuildSample` sums up the flows of a window: the outbound ones of a link if
there are any, else the inbound ones, and those that are counted for each workload. Every order of
the flows gives the same links and points. -/
theorem buildSample_meets {flows : List Flow} {resolver : Resolver} {hostID : String} {ts : Time}
    (hresolver : Determined resolver) (hflows : ∀ f ∈ flows, f.Reported) :
    (∃ sample, BuildSample flows resolver hostID ts sample) ∧
      ∀ sample, BuildSample flows resolver hostID ts sample →
        SampleMeets flows resolver hostID ts sample ∧
          ∀ flows', flows'.Perm flows → ∀ sample', BuildSample flows' resolver hostID ts sample' →
            sample'.links.Perm sample.links ∧ sample'.metrics.Perm sample.metrics := by
  refine ⟨exists_buildSample flows resolver hostID ts, fun sample h => ?_⟩
  have hmeets := h.meets hresolver hflows
  refine ⟨hmeets, fun flows' hperm sample' h' => ?_⟩
  have hmeets' := h'.meets hresolver fun f hf => hflows f (hperm.mem_iff.mp hf)
  exact hmeets.unique (hmeets'.perm hperm)

/-- Two workloads. -/
def gatewayResolver : Resolver := fun ip =>
  if ip = ipv4 10 0 0 2 then some ⟨"docker:1:gateway", "gateway", "gateway-1"⟩
  else if ip = ipv4 10 0 0 3 then some ⟨"docker:1:api", "api", "api-1"⟩
  else none

/-- Five connections that the server reports first. -/
def gatewayFlows : List Flow :=
  [⟨ipv4 10 0 0 3, ipv4 10 0 0 2, 8080, 41000, directionIn, 5⟩,
    ⟨ipv4 10 0 0 2, ipv4 10 0 0 3, 41000, 8080, directionOut, 5⟩,
    ⟨ipv4 10 0 0 2, ipv4 10 0 0 3, 41000, 8080, directionRetransmit, 3⟩]

theorem gatewayResolver_determined : Determined gatewayResolver := by
  intro ip w ip' w' h h' huid
  simp only [gatewayResolver] at h h'
  split_ifs at h h' <;> grind

theorem gatewayFlows_reported : ∀ f ∈ gatewayFlows, f.Reported := by
  intro f hf
  simp only [gatewayFlows, List.mem_cons, List.not_mem_nil, or_false] at hf
  rcases hf with rfl | rfl | rfl
  · exact ⟨.inr (.inl rfl), by decide⟩
  · exact ⟨.inl rfl, by decide⟩
  · exact ⟨.inr (.inr rfl), by decide⟩

/-- The window of a gateway and an API. -/
theorem buildSample_meets_gateway :
    (∃ sample, BuildSample gatewayFlows gatewayResolver "1" ⟨0⟩ sample) ∧
      ∀ sample, BuildSample gatewayFlows gatewayResolver "1" ⟨0⟩ sample →
        SampleMeets gatewayFlows gatewayResolver "1" ⟨0⟩ sample ∧
          ∀ flows', flows'.Perm gatewayFlows →
            ∀ sample', BuildSample flows' gatewayResolver "1" ⟨0⟩ sample' →
              sample'.links.Perm sample.links ∧ sample'.metrics.Perm sample.metrics :=
  buildSample_meets gatewayResolver_determined gatewayFlows_reported

end Argus
