import Argus.Foundations.Cooldown
import Argus.Foundations.Grouping
import Argus.Hub.MemoryPct

/-!
# Resource pressure

After a batch of metrics the hub publishes `resource.pressure` for the entities whose CPU or memory
is short, each at most once in five minutes. The requests of several agents are handled at the same
time: each has read the clock when it began, and the lock around `lastAlert` puts their alerts in
any order. `pressure_spaced` says that alerts of one kind are five minutes apart all the same, and
`pressure_covered` that no shortage goes without one.
-/

namespace Argus

open Foundations

/-! ### The check -/

/-- `entityMetrics`. -/
structure EntityMetrics where
  cpu : Extended
  memUse : Extended
  memLim : Extended
  labels : Labels

/-- The switch over the metric name. -/
def EntityMetrics.add (em : EntityMetrics) (p : MetricPoint) : EntityMetrics :=
  if p.metricName = "cpu.usage" then { em with cpu := p.value }
  else if p.metricName = "memory.usage" then { em with memUse := p.value }
  else if p.metricName = "memory.limit" then { em with memLim := p.value }
  else em

/-- An entity that is seen for the first time. -/
def EntityMetrics.start (p : MetricPoint) : EntityMetrics :=
  ⟨.finite 0, .finite 0, .finite 0, p.labels⟩

/-- One round of the loop over the points. -/
def addMetrics (byEntity : SortedMap String EntityMetrics) (p : MetricPoint) :
    SortedMap String EntityMetrics :=
  byEntity.insert p.entityUID (((byEntity.get? p.entityUID).getD (.start p)).add p)

/-- An alert that asks for its key. -/
abbrev PressureAlert : Type := Alert String Time Model.Event

/-- `resource.pressure`. -/
def resourcePressure (id entityUID : String) (labels : Labels) (now : Time) (payload : Fields) :
    Model.Event where
  id := id
  type := "resource.pressure"
  ts := now
  severity := "warning"
  source := "hub"
  entityUID := entityUID
  labels := labels
  payload := payload

/-- The alert on the CPU. -/
def cpuAlert (id entityUID : String) (em : EntityMetrics) (now : Time) : PressureAlert where
  key := entityUID ++ ":cpu"
  time := now
  event := resourcePressure id entityUID em.labels now (SortedMap.ofList
    [("metric", .str "cpu.usage"), ("value", .num em.cpu), ("threshold", .num (.finite 80))])

/-- The alert on the memory. -/
def memAlert (id entityUID : String) (em : EntityMetrics) (pct : Extended) (now : Time) :
    PressureAlert where
  key := entityUID ++ ":mem"
  time := now
  event := resourcePressure id entityUID em.labels now (SortedMap.ofList
    [("metric", .str "memory.usage"), ("value_pct", .num pct), ("threshold", .num (.finite 90))])

/-- The calls of `maybeAlert` for an entity, with the ids of its events. -/
def EntityMetrics.alerts (ids : String → String × String) (now : Time)
    (e : String × EntityMetrics) : List PressureAlert :=
  (if greater e.2.cpu (.finite 80) then [cpuAlert (ids e.1).1 e.1 e.2 now] else []) ++
    if Extended.positive e.2.memLim then
      let pct := usageShare e.2.memUse e.2.memLim
      if greater pct (.finite 90) then [memAlert (ids e.1).2 e.1 e.2 pct now] else []
    else []

/-- The possible calls of `maybeAlert` of a `checkResourcePressure`: the entities come in the order
of a map. -/
def CheckResourcePressure (points : List MetricPoint) (now : Time)
    (calls : List PressureAlert) : Prop :=
  ∃ (ids : String → String × String) (entries : List (String × EntityMetrics)),
    entries.Perm (points.foldl addMetrics ∅).entries ∧
    calls = entries.flatMap (EntityMetrics.alerts ids now)

/-- `now.Sub(last) < 5*time.Minute`. -/
def recentAlert (last now : Time) : Bool := now.sub last < 5 * 60 * 1000000000

/-! ### The hub -/

/-- `lastAlert`, what was published, the calls that the requests in progress are still to make, and
the checks that began, each with the points of its batch and its time. -/
structure PressureState where
  lastAlert : SortedMap String Time
  published : List Model.Event
  pending : List (List PressureAlert)
  checks : List (List MetricPoint × Time)

/-- `maybeAlert`. -/
def PressureState.maybeAlert (s : PressureState) (n : PressureAlert) : PressureState :=
  let (lastAlert, out) := Cooldown.letThrough recentAlert s.lastAlert n
  { s with lastAlert := lastAlert, published := s.published ++ out.toList.map Alert.event }

/-- A hub that has just been started. -/
def PressureState.initial : PressureState := ⟨∅, [], [], []⟩

/-- A check begins, or a request in progress makes its next call under the lock. -/
inductive PressureStep : PressureState → PressureState → Prop
  | check (s : PressureState) {points : List MetricPoint} {now : Time} {calls : List PressureAlert}
      (h : CheckResourcePressure points now calls) :
      PressureStep s
        { s with pending := calls :: s.pending, checks := s.checks ++ [(points, now)] }
  | alert {s : PressureState} {l₁ l₂ : List (List PressureAlert)} {n : PressureAlert}
      {calls : List PressureAlert} (pending : s.pending = l₁ ++ (n :: calls) :: l₂) :
      PressureStep s { s.maybeAlert n with pending := l₁ ++ calls :: l₂ }

/-- The states of every interleaving. -/
def PressureState.Reachable (s : PressureState) : Prop :=
  Relation.ReflTransGen PressureStep .initial s

/-! ### What is kept of an entity -/

/-- The last sample of a metric, zero if there is none. -/
def lastValue (metricName : String) (points : List MetricPoint) : Extended :=
  ((lastOf metricName points).map MetricPoint.value).getD (.finite 0)

/-- What the loop keeps of the points of one entity. -/
def metricsOf (p : MetricPoint) (points : List MetricPoint) : EntityMetrics where
  cpu := lastValue "cpu.usage" points
  memUse := lastValue "memory.usage" points
  memLim := lastValue "memory.limit" points
  labels := p.labels

theorem lastValue_concat (metricName : String) (points : List MetricPoint) (p : MetricPoint) :
    lastValue metricName (points ++ [p]) =
      if p.metricName = metricName then p.value else lastValue metricName points := by
  rw [lastValue, lastOf_concat]
  split_ifs <;> rfl

theorem foldl_addMetrics (p : MetricPoint) (points : List MetricPoint) :
    points.foldl EntityMetrics.add (.start p) = metricsOf p points := by
  induction points using List.reverseRecOn with
  | nil => rfl
  | append_singleton points q ih =>
    rw [List.foldl_append, ih, List.foldl_cons, List.foldl_nil, EntityMetrics.add, metricsOf,
      metricsOf]
    simp only [lastValue_concat]
    by_cases hcpu : q.metricName = "cpu.usage"
    · simp [hcpu]
    · by_cases husage : q.metricName = "memory.usage"
      · simp [husage]
      · by_cases hlimit : q.metricName = "memory.limit"
        · simp [hlimit]
        · simp [hcpu, husage, hlimit]

/-- What the loop has of an entity in the end. -/
theorem get?_addMetrics (points : List MetricPoint) (uid : String) :
    (points.foldl addMetrics ∅).get? uid =
      (pointsOf uid points).head?.map fun p => metricsOf p (pointsOf uid points) := by
  have hfirst : (points.foldl addMetrics ∅).get? uid = _ :=
    SortedMap.get?_foldl_first (fun _ _ => rfl) points uid
  rw [hfirst]
  simp only [foldl_addMetrics]
  rfl

/-! ### What a check asks for -/

/-- What may be short. -/
inductive Resource
  | cpu
  | mem
  deriving DecidableEq

/-- The end of the keys of a resource. -/
def Resource.suffix : Resource → String
  | .cpu => ":cpu"
  | .mem => ":mem"

/-- The metric that the alerts on a resource name. -/
def Resource.metric : Resource → String
  | .cpu => "cpu.usage"
  | .mem => "memory.usage"

/-- The entry of the payload with the value. -/
def Resource.valueName : Resource → String
  | .cpu => "value"
  | .mem => "value_pct"

/-- The value that the last samples of an entity in a batch show: the CPU, or the share of the
memory. -/
def Resource.value (r : Resource) (points : List MetricPoint) (uid : String) : Extended :=
  match r with
  | .cpu => lastValue "cpu.usage" (pointsOf uid points)
  | .mem => usageShare (lastValue "memory.usage" (pointsOf uid points))
      (lastValue "memory.limit" (pointsOf uid points))

/-- The last samples of an entity in a batch are above the threshold. -/
def Resource.Short (r : Resource) (points : List MetricPoint) (uid : String) : Prop :=
  match r with
  | .cpu => greater (r.value points uid) (.finite 80) = true
  | .mem => Extended.positive (lastValue "memory.limit" (pointsOf uid points)) = true ∧
      greater (r.value points uid) (.finite 90) = true

/-- An event is the alert on a resource of an entity. -/
structure AlertOn (r : Resource) (uid : String) (e : Model.Event) : Prop where
  type : e.type = "resource.pressure"
  entityUID : e.entityUID = uid
  metric : e.payload.get? "metric" = some (.str r.metric)

/-- A call asks for the alert on a resource of an entity, in view of a batch. -/
structure Asks (r : Resource) (uid : String) (points : List MetricPoint) (now : Time)
    (n : PressureAlert) : Prop where
  key : n.key = uid ++ r.suffix
  time : n.time = now
  ts : n.event.ts = now
  alert : AlertOn r uid n.event
  short : r.Short points uid
  value : n.event.payload.get? r.valueName = some (.num (r.value points uid))

theorem suffix_inj {uid uid' : String} {r r' : Resource} (h : uid ++ r.suffix = uid' ++ r'.suffix) :
    uid = uid' ∧ r = r' := by
  have hlist := congrArg String.toList h
  rw [String.toList_append, String.toList_append] at hlist
  obtain ⟨huid, hsuffix⟩ := List.append_inj' hlist (by cases r <;> cases r' <;> rfl)
  refine ⟨String.toList_inj.mp huid, ?_⟩
  cases r <;> cases r'
  · rfl
  · exact absurd hsuffix (by decide)
  · exact absurd hsuffix (by decide)
  · rfl

theorem metric_inj {r r' : Resource} (h : Any.str r.metric = Any.str r'.metric) : r = r' := by
  have hmetric := Any.str.inj h
  cases r <;> cases r'
  · rfl
  · exact absurd hmetric (by decide)
  · exact absurd hmetric (by decide)
  · rfl

theorem Asks.key_eq {r r' : Resource} {uid uid' : String} {points : List MetricPoint} {now : Time}
    {n : PressureAlert} (h : Asks r uid points now n) (halert : AlertOn r' uid' n.event) :
    n.key = uid' ++ r'.suffix := by
  obtain rfl := metric_inj (Option.some_inj.mp (h.alert.metric.symm.trans halert.metric))
  rw [h.key, ← h.alert.entityUID, halert.entityUID]

variable {points : List MetricPoint} {now : Time} {calls : List PressureAlert} {uid : String}
  {r : Resource} {ids : String → String × String}

theorem asks_cpuAlert (id : String) (em : EntityMetrics)
    (hem : em.cpu = lastValue "cpu.usage" (pointsOf uid points))
    (hshort : greater em.cpu (.finite 80) = true) :
    Asks .cpu uid points now (cpuAlert id uid em now) := by
  refine ⟨rfl, rfl, rfl, ⟨rfl, rfl, ?_⟩, ?_, ?_⟩
  · simp [cpuAlert, resourcePressure, SortedMap.ofList, SortedMap.get?_insert, Resource.metric]
  · rw [Resource.Short, Resource.value, ← hem]
    exact hshort
  · rw [Resource.value, ← hem]
    simp [cpuAlert, resourcePressure, SortedMap.ofList, SortedMap.get?_insert, Resource.valueName]

theorem asks_memAlert (id : String) (em : EntityMetrics) (hshort : Resource.mem.Short points uid) :
    Asks .mem uid points now (memAlert id uid em (Resource.mem.value points uid) now) := by
  refine ⟨rfl, rfl, rfl, ⟨rfl, rfl, ?_⟩, hshort, ?_⟩
  · simp [memAlert, resourcePressure, SortedMap.ofList, SortedMap.get?_insert, Resource.metric]
  · simp [memAlert, resourcePressure, SortedMap.ofList, SortedMap.get?_insert, Resource.valueName]

/-- The calls of an entity. -/
theorem mem_alerts {em : EntityMetrics} {n : PressureAlert} {p : MetricPoint}
    (hem : em = metricsOf p (pointsOf uid points)) :
    n ∈ EntityMetrics.alerts ids now (uid, em) → ∃ r, Asks r uid points now n := by
  rw [EntityMetrics.alerts, hem]
  intro h
  rcases List.mem_append.mp h with h | h
  · split_ifs at h with hcpu
    · rw [List.mem_singleton.mp h]
      exact ⟨.cpu, asks_cpuAlert _ _ rfl hcpu⟩
    · exact absurd h List.not_mem_nil
  · simp only at h
    split_ifs at h with hlim hmem
    · rw [List.mem_singleton.mp h]
      exact ⟨.mem, asks_memAlert _ _ ⟨hlim, hmem⟩⟩
    · exact absurd h List.not_mem_nil
    · exact absurd h List.not_mem_nil

theorem exists_alert (ids : String → String × String) (now : Time) (hshort : r.Short points uid)
    (p : MetricPoint) :
    ∃ n ∈ EntityMetrics.alerts ids now (uid, metricsOf p (pointsOf uid points)),
      Asks r uid points now n := by
  rw [EntityMetrics.alerts]
  cases r with
  | cpu =>
    refine ⟨_, List.mem_append_left _ ?_, asks_cpuAlert (ids uid).1 (metricsOf p _) rfl hshort⟩
    have hcpu : greater (metricsOf p (pointsOf uid points)).cpu (.finite 80) = true := hshort
    rw [if_pos hcpu]
    exact List.mem_singleton_self _
  | mem =>
    refine ⟨_, List.mem_append_right _ ?_,
      asks_memAlert (ids uid).2 (metricsOf p (pointsOf uid points)) hshort⟩
    obtain ⟨hlim, hmem⟩ := hshort
    have hlim' : Extended.positive (metricsOf p (pointsOf uid points)).memLim = true := hlim
    have hmem' : greater (usageShare (metricsOf p (pointsOf uid points)).memUse
        (metricsOf p (pointsOf uid points)).memLim) (.finite 90) = true := hmem
    dsimp only
    rw [if_pos hlim', if_pos hmem']
    exact List.mem_singleton_self _

/-- An entity without samples is not short of anything. -/
theorem pointsOf_ne_nil (h : r.Short points uid) : pointsOf uid points ≠ [] := by
  intro hnil
  cases r with
  | cpu =>
    rw [Resource.Short, Resource.value, hnil] at h
    exact absurd h (by decide)
  | mem =>
    rw [Resource.Short, hnil] at h
    exact absurd h.1 (by decide)

/-- **What a check asks for.** Each call is about a shortage that the batch shows. -/
theorem CheckResourcePressure.asks (h : CheckResourcePressure points now calls)
    {n : PressureAlert} (hn : n ∈ calls) : ∃ r uid, Asks r uid points now n := by
  obtain ⟨ids, entries, hperm, rfl⟩ := h
  obtain ⟨⟨uid, em⟩, he, hn⟩ := List.mem_flatMap.mp hn
  have hget := SortedMap.mem_entries.mp (hperm.subset he)
  rw [get?_addMetrics] at hget
  obtain ⟨p, -, hem⟩ := Option.map_eq_some_iff.mp hget
  obtain ⟨r, hasks⟩ := mem_alerts hem.symm hn
  exact ⟨r, uid, hasks⟩

/-- **Every shortage is asked for.** -/
theorem CheckResourcePressure.exists_asks (h : CheckResourcePressure points now calls)
    (hshort : r.Short points uid) : ∃ n ∈ calls, Asks r uid points now n := by
  obtain ⟨ids, entries, hperm, rfl⟩ := h
  cases hpoints : pointsOf uid points with
  | nil => exact absurd hpoints (pointsOf_ne_nil hshort)
  | cons p l =>
    obtain ⟨n, hn, hasks⟩ := exists_alert ids now hshort p
    refine ⟨n, List.mem_flatMap.mpr
      ⟨_, hperm.symm.subset (SortedMap.mem_entries.mpr ?_), hn⟩, hasks⟩
    rw [get?_addMetrics, hpoints]
    rfl

/-! ### Every interleaving -/

/-- What holds at any time, with the calls that were made, in the order of the lock. -/
structure PressureInv (s : PressureState) (made : List PressureAlert) : Prop where
  last : s.lastAlert = (Cooldown.run recentAlert ∅ made).1
  published : s.published = (Cooldown.run recentAlert ∅ made).2.map Alert.event
  asks : ∀ n, n ∈ made ∨ (∃ calls ∈ s.pending, n ∈ calls) →
    ∃ c ∈ s.checks, ∃ r uid, Asks r uid c.1 c.2 n
  asked : ∀ c ∈ s.checks, ∀ r uid, Resource.Short r c.1 uid →
    ∃ n, Asks r uid c.1 c.2 n ∧ (n ∈ made ∨ ∃ calls ∈ s.pending, n ∈ calls)

theorem pressureInv_initial : PressureInv .initial [] where
  last := rfl
  published := rfl
  asks n h := by
    rcases h with h | ⟨calls, h, -⟩
    · exact absurd h List.not_mem_nil
    · exact absurd h List.not_mem_nil
  asked c h := absurd h List.not_mem_nil

theorem PressureInv.check {s : PressureState} {made : List PressureAlert} (h : PressureInv s made)
    (hcheck : CheckResourcePressure points now calls) :
    PressureInv { s with pending := calls :: s.pending, checks := s.checks ++ [(points, now)] }
      made := by
  refine ⟨h.last, h.published, fun n hn => ?_, fun c hc r uid hshort => ?_⟩
  · have hold : n ∈ made ∨ (∃ calls ∈ s.pending, n ∈ calls) →
        ∃ c ∈ s.checks ++ [(points, now)], ∃ r uid, Asks r uid c.1 c.2 n := by
      intro hn
      obtain ⟨c, hc, hasks⟩ := h.asks n hn
      exact ⟨c, List.mem_append_left _ hc, hasks⟩
    rcases hn with hn | ⟨calls', hcalls', hn⟩
    · exact hold (.inl hn)
    · rcases List.mem_cons.mp hcalls' with rfl | hcalls'
      · exact ⟨_, List.mem_append_right _ (List.mem_singleton_self _), hcheck.asks hn⟩
      · exact hold (.inr ⟨calls', hcalls', hn⟩)
  · rcases List.mem_append.mp hc with hc | hc
    · obtain ⟨n, hasks, hn⟩ := h.asked c hc r uid hshort
      refine ⟨n, hasks, hn.imp_right ?_⟩
      rintro ⟨calls', hcalls', hn⟩
      exact ⟨calls', List.mem_cons_of_mem _ hcalls', hn⟩
    · rw [List.mem_singleton.mp hc] at hshort ⊢
      obtain ⟨n, hn, hasks⟩ := hcheck.exists_asks hshort
      exact ⟨n, hasks, .inr ⟨calls, List.mem_cons_self, hn⟩⟩

theorem PressureInv.alert {s : PressureState} {made : List PressureAlert}
    (h : PressureInv s made) {l₁ l₂ : List (List PressureAlert)} {n : PressureAlert}
    (pending : s.pending = l₁ ++ (n :: calls) :: l₂) :
    PressureInv { s.maybeAlert n with pending := l₁ ++ calls :: l₂ } (made ++ [n]) := by
  have hmem (n' : PressureAlert) : (n' ∈ made ++ [n] ∨ ∃ calls' ∈ l₁ ++ calls :: l₂, n' ∈ calls') ↔
      (n' ∈ made ∨ ∃ calls' ∈ s.pending, n' ∈ calls') := by
    rw [pending]
    simp only [List.mem_append, List.mem_cons, List.not_mem_nil, or_false]
    grind
  refine ⟨?_, ?_, fun n' hn' => h.asks n' ((hmem n').mp hn'), fun c hc r uid hshort => ?_⟩
  · rw [Cooldown.run_concat, ← h.last]
    rfl
  · rw [Cooldown.run_concat, List.map_append, ← h.last, ← h.published]
    rfl
  · obtain ⟨n', hasks, hn'⟩ := h.asked c hc r uid hshort
    exact ⟨n', hasks, (hmem n').mpr hn'⟩

theorem PressureState.Reachable.inv {s : PressureState} (h : s.Reachable) :
    ∃ made, PressureInv s made := by
  induction h with
  | refl => exact ⟨[], pressureInv_initial⟩
  | tail _ hstep ih =>
    obtain ⟨made, hinv⟩ := ih
    cases hstep with
    | check hcheck => exact ⟨made, hinv.check hcheck⟩
    | alert pending => exact ⟨_, hinv.alert pending⟩

/-! ### Spacing and cover -/

/-- Five minutes, in nanoseconds. -/
def alertCooldown : ℕ := 5 * 60 * 1000000000

theorem recentAlert_eq_false {last now : Time} :
    recentAlert last now = false ↔ last.ns + alertCooldown ≤ now.ns := by
  rw [recentAlert, decide_eq_false_iff_not, not_lt, Time.sub, alertCooldown]
  omega

/-- **Spacing.** However the requests interleave and whatever their clocks show, any two alerts on
one resource of one entity are five minutes apart, in the order in which they were published. -/
theorem pressure_spaced {s : PressureState} (h : s.Reachable) :
    s.published.Pairwise fun a b => ∀ r uid, AlertOn r uid a → AlertOn r uid b →
      a.ts.ns + alertCooldown ≤ b.ts.ns := by
  obtain ⟨made, hinv⟩ := h.inv
  have hspaced := Cooldown.admitted_pairwise recentAlert made fun a b c hab hbc => by
    rw [recentAlert_eq_false] at hab hbc ⊢
    omega
  rw [hinv.published, List.pairwise_map]
  refine hspaced.imp_of_mem fun {a b} ha hb hrecent r uid hra hrb => ?_
  obtain ⟨c, -, r₁, uid₁, ha⟩ := hinv.asks a (.inl (Cooldown.mem_of_admitted ha))
  obtain ⟨c', -, r₂, uid₂, hb⟩ := hinv.asks b (.inl (Cooldown.mem_of_admitted hb))
  have hkey : a.key = b.key := by rw [ha.key_eq hra, hb.key_eq hrb]
  have hspace := recentAlert_eq_false.mp (hrecent hkey)
  rw [ha.time, hb.time] at hspace
  rw [ha.ts, hb.ts]
  exact hspace

/-- **Cover.** A shortage that a batch shows is still to be asked for by its request, or there is
an alert on it that is not five minutes older than the check. -/
theorem pressure_covered {s : PressureState} (h : s.Reachable) {points : List MetricPoint}
    {now : Time} (hcheck : (points, now) ∈ s.checks) {r : Resource} {uid : String}
    (hshort : r.Short points uid) :
    (∃ calls ∈ s.pending, ∃ n ∈ calls, Asks r uid points now n) ∨
      ∃ e ∈ s.published, AlertOn r uid e ∧ now.ns < e.ts.ns + alertCooldown := by
  obtain ⟨made, hinv⟩ := h.inv
  obtain ⟨n, hasks, hmade | ⟨calls, hcalls, hn⟩⟩ := hinv.asked _ hcheck r uid hshort
  · refine .inr ?_
    rw [hinv.published]
    rcases Cooldown.recent_admitted recentAlert hmade with hn | ⟨m, hm, hkey, hrecent⟩
    · refine ⟨n.event, List.mem_map_of_mem hn, hasks.alert, ?_⟩
      rw [hasks.ts]
      exact Nat.lt_add_of_pos_right (by decide)
    · obtain ⟨c, -, r', uid', hm'⟩ := hinv.asks m (.inl (Cooldown.mem_of_admitted hm))
      obtain ⟨rfl, rfl⟩ := suffix_inj ((hm'.key.symm.trans hkey).trans hasks.key)
      refine ⟨m.event, List.mem_map_of_mem hm, hm'.alert, ?_⟩
      have hlt : ¬m.time.ns + alertCooldown ≤ n.time.ns := by
        rw [← recentAlert_eq_false, hrecent]
        decide
      rw [hm'.time, hasks.time] at hlt
      rw [hm'.ts]
      exact not_le.mp hlt
  · exact .inl ⟨calls, hcalls, n, hn, hasks⟩

/-- **No false alert.** What is published is an alert on a resource of which the last samples of the
entity, in a batch that was checked at the time of the alert, are above the threshold, and shows
their value. -/
theorem pressure_sound {s : PressureState} (h : s.Reachable) {e : Model.Event}
    (he : e ∈ s.published) : ∃ points r, (points, e.ts) ∈ s.checks ∧ AlertOn r e.entityUID e ∧
      r.Short points e.entityUID ∧
        e.payload.get? r.valueName = some (.num (r.value points e.entityUID)) := by
  obtain ⟨made, hinv⟩ := h.inv
  rw [hinv.published] at he
  obtain ⟨n, hn, rfl⟩ := List.mem_map.mp he
  obtain ⟨⟨points, now⟩, hc, r, uid, hasks⟩ := hinv.asks n (.inl (Cooldown.mem_of_admitted hn))
  obtain ⟨hkey, htime, rfl, halert, hshort, hvalue⟩ := hasks
  obtain rfl := halert.entityUID
  exact ⟨points, r, hc, halert, hshort, hvalue⟩

/-! ### Two batches -/

/-- A sample of ninety-five percent. -/
def shortPoint : MetricPoint := ⟨"cpu.usage", ⟨0⟩, .finite 95, "container:a", ∅⟩

/-- The alert that a batch of the sample asks for. -/
def shortAlert (now : Time) : PressureAlert :=
  cpuAlert "alert" "container:a" (metricsOf shortPoint [shortPoint]) now

theorem check_shortPoint (now : Time) :
    CheckResourcePressure [shortPoint] now [shortAlert now] :=
  ⟨fun _ => ("alert", "alert"), _, .refl _, rfl⟩

/-- Two requests have begun five minutes apart, and the later one was first at the lock. -/
def twoChecks : PressureState where
  lastAlert := (∅ : SortedMap String Time).insert "container:a:cpu" ⟨alertCooldown⟩
  published := [(shortAlert ⟨alertCooldown⟩).event]
  pending := [[], []]
  checks := [([shortPoint], ⟨0⟩), ([shortPoint], ⟨alertCooldown⟩)]

theorem maybeAlert_of_recent {s : PressureState} {n : PressureAlert}
    (h : (s.lastAlert.get? n.key).any (fun t => recentAlert t n.time) = true) :
    s.maybeAlert n = s := by
  rw [PressureState.maybeAlert, Cooldown.letThrough, if_pos h]
  simp

theorem reachable_twoChecks : twoChecks.Reachable := by
  have hfirst : PressureState.Reachable ⟨∅, [], [[shortAlert ⟨0⟩]], [([shortPoint], ⟨0⟩)]⟩ :=
    .single (.check .initial (check_shortPoint ⟨0⟩))
  have hsecond := hfirst.tail (.check _ (check_shortPoint ⟨alertCooldown⟩))
  have hlater := hsecond.tail (.alert (List.nil_append _).symm)
  have hpending : [[], [shortAlert ⟨0⟩]] = [[]] ++ (shortAlert ⟨0⟩ :: []) :: [] := rfl
  have hearlier := hlater.tail (.alert hpending)
  rw [maybeAlert_of_recent] at hearlier
  · exact hearlier
  · decide

/-- One alert is enough for both. -/
theorem pressure_spaced_twoChecks : twoChecks.published.Pairwise fun a b => ∀ r uid,
    AlertOn r uid a → AlertOn r uid b → a.ts.ns + alertCooldown ≤ b.ts.ns :=
  pressure_spaced reachable_twoChecks

theorem pressure_covered_twoChecks :
    (∃ calls ∈ twoChecks.pending, ∃ n ∈ calls,
      Asks .cpu "container:a" [shortPoint] ⟨0⟩ n) ∨
    ∃ e ∈ twoChecks.published, AlertOn .cpu "container:a" e ∧ 0 < e.ts.ns + alertCooldown :=
  pressure_covered reachable_twoChecks List.mem_cons_self (r := .cpu) rfl

theorem pressure_sound_twoChecks : ∃ points r, (points, ⟨alertCooldown⟩) ∈ twoChecks.checks ∧
    AlertOn r "container:a" (shortAlert ⟨alertCooldown⟩).event ∧ r.Short points "container:a" ∧
      (shortAlert ⟨alertCooldown⟩).event.payload.get? r.valueName =
        some (.num (r.value points "container:a")) :=
  pressure_sound reachable_twoChecks (List.mem_singleton_self _)

end Argus
