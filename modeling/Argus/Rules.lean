import Argus.Floats
import Argus.Foundations.Alarm
import Argus.Store.Metrics

/-!
# The rule engine

`Engine` keeps a tracker and, when the rule has fired, an active alert under the key of a rule and
an entity. `evalRule` is called with the value of every workload at every tick.

Under each key the engine is an alarm with a delay: `evalRule_alarm` says what a call does there,
`evalRule_other` that it does nothing elsewhere, and `run_keyCorrect` what any calls leave. The
clock never shows the zero time.
-/

namespace Argus

open Foundations

/-! ### Numbers -/

/-- A `float64`, with `none` for no number. -/
abbrev Double : Type := Option Extended

namespace Double

/-- `x >= threshold`, which no number satisfies that is none. -/
def atLeast (threshold : ℚ) : Double → Bool
  | none => false
  | some (.finite q) => threshold ≤ q
  | some (.infinite negative) => !negative

/-- `x / y`, for a `y` larger than zero. -/
def div : Extended → Extended → Double
  | .finite q, .finite p => some (float64 (.finite (q / p)))
  | .finite _, .infinite _ => some (.finite 0)
  | .infinite negative, .finite _ => some (.infinite negative)
  | .infinite _, .infinite _ => none

/-- `x * 100`. -/
def percent : Double → Double
  | some (.finite q) => some (float64 (.finite (q * 100)))
  | x => x

/-- The verb `%.kf`. -/
def format (k : ℕ) : Double → String
  | none => "NaN"
  | some (.infinite negative) => if negative then "-Inf" else "+Inf"
  | some (.finite q) =>
    let n := (roundHalfEven (|q| * 10 ^ k)).toNat
    (if q < 0 then "-" else "") ++ String.ofList (Nat.toDigits 10 (n / 10 ^ k)) ++
      if k = 0 then "" else "." ++ String.ofList (pad k (n % 10 ^ k))

end Double

/-! ### The engine -/

/-- `Rule`. The duration is in nanoseconds. -/
structure Rule where
  id : String
  metric : String
  threshold : ℚ
  duration : ℕ
  severity : String
  title : String
  deriving DecidableEq

/-- `tracker`. -/
structure Tracker where
  since : Time
  fired : Bool

/-- `ActiveAlert`. -/
structure ActiveAlert where
  ruleID : String
  entityUID : String
  container : String
  title : String
  severity : String
  summary : String
  firedAt : Time
  value : Double

/-- An event of the engine, with the entries of its payload. -/
structure AlertEvent where
  id : String
  type : String
  ts : Time
  severity : String
  source : String
  entityUID : String
  labels : Labels
  ruleID : String
  metric : String
  value : Double
  threshold : ℚ

/-- `Engine`: its trackers and active alerts. -/
structure Engine where
  track : SortedMap String Tracker
  active : SortedMap String ActiveAlert

/-- The rule on the CPU. -/
def cpuHigh : Rule :=
  ⟨"cpu-high", "cpu.usage", 80, 5 * 60 * 1000000000, "warning", "High CPU"⟩

/-- The rule on the memory. -/
def memoryHigh : Rule :=
  ⟨"memory-high", "memory.usage_pct", 90, 5 * 60 * 1000000000, "critical", "Critical memory"⟩

/-- The rules of `NewEngine`. -/
def engineRules : List Rule := [cpuHigh, memoryHigh]

/-- `NewEngine`. -/
def NewEngine : Engine := ⟨∅, ∅⟩

/-- A call of `evalRule`, with the ids that its events get. -/
structure EvalCall where
  rule : Rule
  entityUID : String
  container : String
  labels : Labels
  value : Double
  now : Time
  uuids : String × String

/-- The key of a rule and an entity. -/
def ruleKey (rule : Rule) (entityUID : String) : String := rule.id ++ ":" ++ entityUID

/-- `mergeLabels`. -/
def mergeLabels (labels : Labels) (ruleID : String) : Labels :=
  labels.entries.foldl (fun out e => out.insert e.1 e.2) (SortedMap.ofList [("rule", ruleID)])

namespace EvalCall

variable (c : EvalCall)

/-- The key of a call. -/
def key : String := ruleKey c.rule c.entityUID

/-- Whether the value is at or above the threshold. -/
def above : Bool := c.value.atLeast c.rule.threshold

/-- An event of this type. -/
def event (uuid type severity : String) : AlertEvent where
  id := uuid
  type := type
  ts := c.now
  severity := severity
  source := "rule-engine"
  entityUID := c.entityUID
  labels := mergeLabels c.labels c.rule.id
  ruleID := c.rule.id
  metric := c.rule.metric
  value := c.value
  threshold := c.rule.threshold

/-- The alert that `fire` makes active. -/
def alert : ActiveAlert where
  ruleID := c.rule.id
  entityUID := c.entityUID
  container := c.container
  title := c.rule.title ++ " — " ++ c.container
  severity := c.rule.severity
  summary := c.rule.metric ++ " at " ++ c.value.format 1 ++ " (threshold " ++
    Double.format 0 (some (.finite c.rule.threshold)) ++ ")"
  firedAt := c.now
  value := c.value

end EvalCall

namespace Engine

/-- `fire`. -/
def fire (e : Engine) (c : EvalCall) : Engine × List AlertEvent :=
  ({ e with active := e.active.insert c.key c.alert },
    [c.event c.uuids.1 "alert.fired" c.rule.severity,
      c.event c.uuids.2 "metric.threshold" c.rule.severity])

/-- `resolve`. -/
def resolve (e : Engine) (c : EvalCall) : Engine × List AlertEvent :=
  ({ e with active := e.active.erase c.key }, [c.event c.uuids.1 "alert.resolved" "info"])

/-- `evalRule`: the engine afterwards, and what is published. -/
def evalRule (e : Engine) (c : EvalCall) : Engine × List AlertEvent :=
  let tr := (e.track.get? c.key).getD ⟨⟨0⟩, false⟩
  if c.above then
    let tr := if tr.since.isZero then { tr with since := c.now } else tr
    if !tr.fired && decide ((c.rule.duration : ℤ) ≤ c.now.sub tr.since) then
      ({ e with track := e.track.insert c.key { tr with fired := true } } : Engine).fire c
    else ({ e with track := e.track.insert c.key tr }, [])
  else
    let (e, events) := if tr.fired then e.resolve c else (e, [])
    ({ e with track := e.track.erase c.key }, events)

/-- `ActiveAlerts`, in no order. -/
def ActiveAlerts (e : Engine) : List ActiveAlert := e.active.values

end Engine

/-- The value of a workload that a rule is called with. -/
def ruleValue (rule : Rule) (w : WorkloadSnapshot) : Double :=
  if rule.metric = "memory.usage_pct" then
    if Extended.positive w.memoryLimit then Double.percent (Double.div w.memoryUsage w.memoryLimit)
    else some (.finite 0)
  else some w.cpuUsage

/-- The calls of `evalRule` for a workload. -/
def workloadCalls (now : Time) (uuid : WorkloadSnapshot → Rule → String × String)
    (w : WorkloadSnapshot) : List EvalCall :=
  engineRules.map fun rule =>
    ⟨rule, w.entityUID, w.container, w.labels, ruleValue rule w, now, uuid w rule⟩

/-- Some calls of `evalRule`. -/
def Engine.evalAll (e : Engine) (calls : List EvalCall) : Engine :=
  calls.foldl (fun e c => (e.evalRule c).1) e

/-- `Evaluate`, after the workloads have been listed. -/
def Engine.Evaluate (e : Engine) (workloads : List WorkloadSnapshot) (now : Time)
    (uuid : WorkloadSnapshot → Rule → String × String) : Engine :=
  e.evalAll (workloads.flatMap (workloadCalls now uuid))

/-! ### One call -/

/-- Whether a run of readings has lasted for the duration of a rule. -/
def Rule.held (rule : Rule) (since now : Time) : Bool := since.ns + rule.duration ≤ now.ns

/-- The signal of an event, when it is an alert of this rule and entity. -/
def signalOf (rule : Rule) (entityUID : String) (evt : AlertEvent) : Option Signal :=
  if evt.ruleID = rule.id ∧ evt.entityUID = entityUID then
    if evt.type = "alert.fired" then some .fired
    else if evt.type = "alert.resolved" then some .resolved
    else none
  else none

namespace Engine

variable {e : Engine} {c : EvalCall}

/-- The alarm under a key. -/
def alarm (e : Engine) (key : String) : Alarm.State Time :=
  (e.track.get? key).map fun tr => (tr.since, tr.fired)

/-- What every engine keeps: trackers have a start, and the alerts are active that have fired. -/
structure Valid (e : Engine) : Prop where
  started : ∀ key tr, e.track.get? key = some tr → tr.since.isZero = false
  paired : ∀ key, (e.active.get? key).isSome = ((e.alarm key).map Prod.snd).getD false

theorem valid_new : NewEngine.Valid := ⟨fun key tr h => by simp [NewEngine] at h, fun _ => rfl⟩

/-- The cut of `Sub` does not matter for a duration of a rule. -/
theorem le_sub_iff {d : ℕ} (hd : d < 2 ^ 63) (now since : Time) :
    (d : ℤ) ≤ now.sub since ↔ since.ns + d ≤ now.ns := by
  rw [Time.sub]
  omega

/-- The start of the present run, or else of one that begins now. -/
def since (e : Engine) (c : EvalCall) : Time := ((e.alarm c.key).map Prod.fst).getD c.now

/-- Whether the rule has fired and not been resolved. -/
def on (e : Engine) (key : String) : Bool := ((e.alarm key).map Prod.snd).getD false

/-- A call, in terms of the alarm under its key. -/
theorem evalRule_eq (he : e.Valid) (hduration : c.rule.duration < 2 ^ 63) :
    e.evalRule c =
      if c.above then
        if !e.on c.key && c.rule.held (e.since c) c.now then
          ({ track := e.track.insert c.key ⟨e.since c, true⟩,
             active := e.active.insert c.key c.alert },
            [c.event c.uuids.1 "alert.fired" c.rule.severity,
              c.event c.uuids.2 "metric.threshold" c.rule.severity])
        else ({ e with track := e.track.insert c.key ⟨e.since c, e.on c.key⟩ }, [])
      else if e.on c.key then
        ({ track := e.track.erase c.key, active := e.active.erase c.key },
          [c.event c.uuids.1 "alert.resolved" "info"])
      else ({ e with track := e.track.erase c.key }, []) := by
  have hheld : ∀ since : Time,
      decide ((c.rule.duration : ℤ) ≤ c.now.sub since) = c.rule.held since c.now := fun since =>
    decide_eq_decide.mpr (le_sub_iff hduration c.now since)
  rw [evalRule]
  rcases htrack : e.track.get? c.key with - | ⟨begun, fired⟩
  · have hsince : e.since c = c.now := by rw [since, alarm, htrack]; rfl
    have hon : e.on c.key = false := by rw [on, alarm, htrack]; rfl
    have hzero : Time.isZero ⟨0⟩ = true := rfl
    simp only [Option.getD_none, hsince, hon, hzero, hheld, if_true, Bool.false_eq_true, if_false]
    rfl
  · have hsince : e.since c = begun := by rw [since, alarm, htrack]; rfl
    have hon : e.on c.key = fired := by rw [on, alarm, htrack]; rfl
    have hstarted : begun.isZero = false := he.started _ _ htrack
    simp only [Option.getD_some, hsince, hon, hstarted, hheld, Bool.false_eq_true, if_false]
    cases fired <;> rfl

/-- **A call is a reading of the alarm under its key.** -/
theorem evalRule_alarm (he : e.Valid) (hduration : c.rule.duration < 2 ^ 63) :
    (e.evalRule c).1.alarm c.key =
        (Alarm.next c.rule.held (e.alarm c.key) c.above c.now).1 ∧
      (e.evalRule c).2.filterMap (signalOf c.rule c.entityUID) =
        (Alarm.next c.rule.held (e.alarm c.key) c.above c.now).2 := by
  have hsignal : ∀ uuid type severity,
      signalOf c.rule c.entityUID (c.event uuid type severity) =
        if type = "alert.fired" then some .fired
        else if type = "alert.resolved" then some .resolved else none :=
    fun _ _ _ => if_pos ⟨rfl, rfl⟩
  rw [evalRule_eq he hduration, Alarm.next, ← since, ← on]
  split_ifs with habove hfire hon
  · simp [alarm, hsignal]
  · simp [alarm]
  · simp [alarm, hsignal, SortedMap.get?_erase]
  · simp [alarm, SortedMap.get?_erase]

/-- A call does nothing under another key. -/
theorem evalRule_other (e : Engine) (c : EvalCall) {key : String} (h : key ≠ c.key) :
    (e.evalRule c).1.track.get? key = e.track.get? key ∧
      (e.evalRule c).1.active.get? key = e.active.get? key := by
  rw [evalRule]
  simp only
  split_ifs <;>
    simp [fire, resolve, SortedMap.get?_insert_of_ne h.symm, SortedMap.get?_erase, h]

/-- Every call keeps the engine valid. -/
theorem valid_evalRule (he : e.Valid) (hnow : c.now.isZero = false)
    (hduration : c.rule.duration < 2 ^ 63) : (e.evalRule c).1.Valid where
  started key tr htr := by
    by_cases hkey : key = c.key
    · have hsince : (e.since c).isZero = false := by
        rw [since, alarm]
        rcases htrack : e.track.get? c.key with - | tr'
        · exact hnow
        · exact he.started _ _ htrack
      rw [hkey, evalRule_eq he hduration] at htr
      split_ifs at htr
      · obtain rfl := Option.some.inj ((SortedMap.get?_insert_self _ _ _).symm.trans htr)
        exact hsince
      · obtain rfl := Option.some.inj ((SortedMap.get?_insert_self _ _ _).symm.trans htr)
        exact hsince
      · simp [SortedMap.get?_erase] at htr
      · simp [SortedMap.get?_erase] at htr
    · rw [(evalRule_other e c hkey).1] at htr
      exact he.started key tr htr
  paired key := by
    by_cases hkey : key = c.key
    · have hpaired := he.paired c.key
      rw [← on] at hpaired
      rw [hkey, evalRule_eq he hduration]
      split_ifs with habove hfire hon
      · simp [alarm]
      · simp [alarm, hpaired]
      · simp [alarm, SortedMap.get?_erase]
      · simp [alarm, SortedMap.get?_erase, hpaired, hon]
    · rw [alarm, (evalRule_other e c hkey).1, (evalRule_other e c hkey).2]
      exact he.paired key

/-- What a call may publish. -/
theorem events_evalRule (e : Engine) (c : EvalCall) :
    (e.evalRule c).2 = [] ∨
      (e.evalRule c).2 = [c.event c.uuids.1 "alert.fired" c.rule.severity,
        c.event c.uuids.2 "metric.threshold" c.rule.severity] ∨
      (e.evalRule c).2 = [c.event c.uuids.1 "alert.resolved" "info"] := by
  rw [evalRule]
  simp only
  split_ifs <;> simp [fire, resolve]

/-- What a call publishes is about its rule and entity. -/
theorem of_mem_evalRule {evt : AlertEvent} (h : evt ∈ (e.evalRule c).2) :
    evt.ruleID = c.rule.id ∧ evt.entityUID = c.entityUID := by
  have hevent : ∀ uuid type severity, evt = c.event uuid type severity →
      evt.ruleID = c.rule.id ∧ evt.entityUID = c.entityUID := by
    rintro _ _ _ rfl
    exact ⟨rfl, rfl⟩
  rcases events_evalRule e c with hevents | hevents | hevents
  · rw [hevents] at h
    exact absurd h List.not_mem_nil
  · rw [hevents] at h
    rcases List.mem_cons.mp h with h | h
    · exact hevent _ _ _ h
    · exact hevent _ _ _ (List.mem_singleton.mp h)
  · rw [hevents] at h
    exact hevent _ _ _ (List.mem_singleton.mp h)

/-! ### All calls -/

/-- The calls so far, each with what it published. -/
abbrev Trace : Type := List (EvalCall × List AlertEvent)

/-- One more call. -/
def step (s : Engine × Trace) (c : EvalCall) : Engine × Trace :=
  ((s.1.evalRule c).1, s.2 ++ [(c, (s.1.evalRule c).2)])

/-- The engine after some calls, and what they published. -/
def run (calls : List EvalCall) : Engine × Trace := calls.foldl step (NewEngine, [])

/-- The calls for a rule and an entity, as readings. -/
def readings (rule : Rule) (entityUID : String) (trace : Trace) : List (Sample Time) :=
  (trace.filter fun t => t.1.rule = rule ∧ t.1.entityUID = entityUID).map fun t =>
    ⟨t.1.above, t.1.now, t.2.filterMap (signalOf rule entityUID)⟩

/-- The alerts of a rule and an entity, in the order in which they were published. -/
def alerts (rule : Rule) (entityUID : String) (trace : Trace) : List Signal :=
  (trace.flatMap Prod.snd).filterMap (signalOf rule entityUID)

/-- What the engine does for a rule and an entity. -/
structure KeyCorrect (rule : Rule) (entityUID : String) (s : Engine × Trace) : Prop where
  /-- An alert is fired and resolved at the right calls. -/
  judged : Always (Alarm.Judged rule.held) (readings rule entityUID s.2)
  /-- The alerts alternate, the first of them fired. -/
  alternates : (alerts rule entityUID s.2).IsChain (· ≠ ·) ∧
    ∀ first ∈ (alerts rule entityUID s.2).head?, first = Signal.fired
  /-- The alert is active when it was fired and not resolved since. -/
  active : (s.1.active.get? (ruleKey rule entityUID)).isSome ↔
    (alerts rule entityUID s.2).getLast? = some .fired
  /-- A call for another rule or entity does nothing here. -/
  others : ∀ c : EvalCall, c.rule ∈ engineRules → ¬(c.rule = rule ∧ c.entityUID = entityUID) →
    (s.1.evalRule c).1.track.get? (ruleKey rule entityUID) =
        s.1.track.get? (ruleKey rule entityUID) ∧
      (s.1.evalRule c).1.active.get? (ruleKey rule entityUID) =
        s.1.active.get? (ruleKey rule entityUID) ∧
      (s.1.evalRule c).2.filterMap (signalOf rule entityUID) = []

theorem run_concat (calls : List EvalCall) (c : EvalCall) :
    run (calls ++ [c]) = step (run calls) c := by
  rw [run, List.foldl_append, List.foldl_cons, List.foldl_nil, run]

/-- The keys of different rules and entities are different. -/
theorem ruleKey_inj {r r' : Rule} (hr : r ∈ engineRules) (hr' : r' ∈ engineRules)
    {uid uid' : String} (h : ruleKey r uid = ruleKey r' uid') : r = r' ∧ uid = uid' := by
  have htext := congrArg String.toList h
  rw [ruleKey, ruleKey, String.toList_append, String.toList_append, String.toList_append,
    String.toList_append, List.append_assoc, List.append_assoc] at htext
  simp only [engineRules, List.mem_cons, List.not_mem_nil, or_false] at hr hr'
  -- the two ids differ in their first letter
  rcases hr with rfl | rfl <;> rcases hr' with rfl | rfl
  · exact ⟨rfl, String.toList_inj.mp (List.append_cancel_left (List.append_cancel_left htext))⟩
  · exact absurd (List.cons.inj htext).1 (by decide)
  · exact absurd (List.cons.inj htext).1 (by decide)
  · exact ⟨rfl, String.toList_inj.mp (List.append_cancel_left (List.append_cancel_left htext))⟩

theorem rule_eq_of_id {r r' : Rule} (hr : r ∈ engineRules) (hr' : r' ∈ engineRules)
    (h : r.id = r'.id) : r = r' :=
  (ruleKey_inj hr hr' (show ruleKey r "" = ruleKey r' "" by rw [ruleKey, ruleKey, h])).1

theorem duration_lt {rule : Rule} (h : rule ∈ engineRules) : rule.duration < 2 ^ 63 := by
  simp only [engineRules, List.mem_cons, List.not_mem_nil, or_false] at h
  rcases h with rfl | rfl
  · norm_num [cpuHigh]
  · norm_num [memoryHigh]

/-- A call publishes no alert of another rule or entity. -/
theorem filterMap_signalOf_other {rule : Rule} (hrule : rule ∈ engineRules)
    (hc : c.rule ∈ engineRules) {entityUID : String}
    (h : ¬(c.rule = rule ∧ c.entityUID = entityUID)) :
    (e.evalRule c).2.filterMap (signalOf rule entityUID) = [] := by
  refine List.filterMap_eq_nil_iff.mpr fun evt hevt => if_neg ?_
  obtain ⟨hid, huid⟩ := of_mem_evalRule hevt
  rintro ⟨hid', huid'⟩
  exact h ⟨rule_eq_of_id hc hrule (hid.symm.trans hid'), huid.symm.trans huid'⟩

theorem key_ne {rule : Rule} (hrule : rule ∈ engineRules) (hc : c.rule ∈ engineRules)
    {entityUID : String} (h : ¬(c.rule = rule ∧ c.entityUID = entityUID)) :
    ruleKey rule entityUID ≠ c.key := fun heq => h (ruleKey_inj hc hrule heq.symm)

theorem readings_concat (rule : Rule) (entityUID : String) (trace : Trace) (c : EvalCall)
    (events : List AlertEvent) :
    readings rule entityUID (trace ++ [(c, events)]) =
      if c.rule = rule ∧ c.entityUID = entityUID then
        readings rule entityUID trace ++
          [⟨c.above, c.now, events.filterMap (signalOf rule entityUID)⟩]
      else readings rule entityUID trace := by
  rw [readings, List.filter_append, List.map_append, ← readings]
  split_ifs with h
  · rw [List.filter_cons_of_pos (by simpa using h)]
    rfl
  · rw [List.filter_cons_of_neg (by simpa using h)]
    exact List.append_nil _

/-- **The engine is an alarm under each key.** -/
theorem run_alarm {calls : List EvalCall} (hrules : ∀ c ∈ calls, c.rule ∈ engineRules)
    (hclock : ∀ c ∈ calls, c.now.isZero = false) {rule : Rule} (hrule : rule ∈ engineRules)
    (entityUID : String) :
    (run calls).1.Valid ∧
      (run calls).1.alarm (ruleKey rule entityUID) =
        Alarm.stateOf (readings rule entityUID (run calls).2) ∧
      Always (Alarm.Judged rule.held) (readings rule entityUID (run calls).2) ∧
      alerts rule entityUID (run calls).2 =
        Alarm.signals (readings rule entityUID (run calls).2) := by
  induction calls using List.reverseRecOn with
  | nil => exact ⟨valid_new, rfl, always_nil, rfl⟩
  | append_singleton calls c ih =>
    obtain ⟨hc, hnow⟩ : c.rule ∈ engineRules ∧ c.now.isZero = false :=
      ⟨hrules c (by simp), hclock c (by simp)⟩
    obtain ⟨hvalid, halarm, hjudged, halerts⟩ :=
      ih (fun c hc => hrules c (List.mem_append_left _ hc))
        fun c hc => hclock c (List.mem_append_left _ hc)
    rw [run_concat, step]
    refine ⟨valid_evalRule hvalid hnow (duration_lt hc), ?_⟩
    have hpublished : alerts rule entityUID
          ((run calls).2 ++ [(c, ((run calls).1.evalRule c).2)]) =
        alerts rule entityUID (run calls).2 ++
          ((run calls).1.evalRule c).2.filterMap (signalOf rule entityUID) := by
      rw [alerts, List.flatMap_append, List.filterMap_append, ← alerts, List.flatMap_singleton]
    rw [readings_concat, hpublished, halerts]
    split_ifs with hsame
    · -- the call is one more reading
      obtain ⟨rfl, rfl⟩ := hsame
      obtain ⟨hstate, hsignals⟩ := evalRule_alarm hvalid (duration_lt hc)
      rw [EvalCall.key, halarm] at hstate hsignals
      rw [hsignals]
      refine ⟨hstate.trans (Alarm.next_fst_stateOf _ _ _),
        always_concat.mpr ⟨hjudged, Alarm.judged_next _ _ _⟩, ?_⟩
      rw [Alarm.signals_concat]
    · rw [filterMap_signalOf_other hrule hc hsame, List.append_nil]
      refine ⟨?_, hjudged, rfl⟩
      rw [← halarm, alarm, (evalRule_other _ c (key_ne hrule hc hsame)).1, alarm]

/-- **Key result: the rule engine.** For every rule and entity, whatever is called. -/
theorem run_keyCorrect {calls : List EvalCall} (hrules : ∀ c ∈ calls, c.rule ∈ engineRules)
    (hclock : ∀ c ∈ calls, c.now.isZero = false) {rule : Rule} (hrule : rule ∈ engineRules)
    (entityUID : String) : KeyCorrect rule entityUID (run calls) := by
  obtain ⟨hvalid, halarm, hjudged, halerts⟩ := run_alarm hrules hclock hrule entityUID
  refine ⟨hjudged, ?_, ?_, fun c hc hother => ?_⟩
  · rw [halerts]
    exact Alarm.alternates hjudged
  · rw [halerts, Alarm.getLast?_signals hjudged, hvalid.paired, halarm, Alarm.on_of_stateOf]
  · obtain ⟨htrack, hactive⟩ := evalRule_other (run calls).1 c (key_ne hrule hc hother)
    exact ⟨htrack, hactive, filterMap_signalOf_other hrule hc hother⟩

/-- A container is at 90 per cent of a CPU for five minutes and then at 10. -/
theorem run_keyCorrect_cpu : KeyCorrect cpuHigh "docker:h:web" (run [
    ⟨cpuHigh, "docker:h:web", "web", ∅, some (.finite 90), ⟨1000000000⟩, ("1", "2")⟩,
    ⟨cpuHigh, "docker:h:web", "web", ∅, some (.finite 90), ⟨301000000000⟩, ("3", "4")⟩,
    ⟨cpuHigh, "docker:h:web", "web", ∅, some (.finite 10), ⟨331000000000⟩, ("5", "6")⟩]) := by
  refine run_keyCorrect ?_ ?_ (by decide) _
  · simp only [List.forall_mem_cons, List.not_mem_nil, false_implies, implies_true, and_true]
    decide
  · simp only [List.forall_mem_cons, List.not_mem_nil, false_implies, implies_true, and_true]
    decide

end Engine

end Argus
