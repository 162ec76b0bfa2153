import Argus.Rules
import Argus.Store.Workloads

/-!
# The rules of the hub

Metrics are written, and at every tick `Evaluate` reads the workloads of the last ten minutes. A
rule is only called for the workloads of the list, so that nothing happens to the alert of a
container that has gone. `alerts_last_listed` says when a tracker and an alert are there, and that
they stay until the container is listed again below the threshold.
-/

namespace Argus

open Foundations

/-- The window of `Evaluate`: ten minutes. -/
def evaluateWindow : ℤ := 10 * 60 * 1000000000

/-- What happens to the rules of the hub. -/
inductive RulesEvent
  | write (points : List MetricPoint)
  /-- `Evaluate` reads the clock, the workloads and the clock again. -/
  | tick (readAt now : Time) (workloads : List WorkloadSnapshot)
    (uuid : WorkloadSnapshot → Rule → String × String)

/-- What a rule finds of an entity at an event: whether the value is at or above the threshold, for
each workload of the list that is the entity, and the clock. -/
def RulesEvent.found (rule : Rule) (entityUID : String) : RulesEvent → List (Bool × Time)
  | write _ => []
  | tick _ now workloads _ => (workloads.filter fun w => w.entityUID = entityUID).map fun w =>
      ((ruleValue rule w).atLeast rule.threshold, now)

/-- What a rule has found of an entity. -/
def found (rule : Rule) (entityUID : String) (evs : List RulesEvent) : List (Bool × Time) :=
  evs.flatMap (RulesEvent.found rule entityUID)

/-- What a rule has found of an entity since it was listed below the threshold. -/
def foundAbove (rule : Rule) (entityUID : String) (evs : List RulesEvent) : List (Bool × Time) :=
  (found rule entityUID evs).rtakeWhile Prod.fst

/-- An entity was at or above the threshold when it was listed last. -/
def LastAbove (rule : Rule) (entityUID : String) (evs : List RulesEvent) : Prop :=
  ∃ last ∈ (found rule entityUID evs).getLast?, last.1 = true

/-- Since it was listed below the threshold, an entity was listed at some time that is the duration
of the rule or more after the first. -/
def LongAbove (rule : Rule) (entityUID : String) (evs : List RulesEvent) : Prop :=
  ∃ first ∈ (foundAbove rule entityUID evs).head?, ∃ s ∈ foundAbove rule entityUID evs,
    rule.held first.2 s.2 = true

/-- What may happen, from a hub without metrics, when no call of the store fails. -/
inductive RulesRun : List RulesEvent → MetricTables → Engine → Prop
  | nil : RulesRun [] MetricTables.empty NewEngine
  | write {evs : List RulesEvent} {db db' : MetricTables} {e : Engine} {points : List MetricPoint}
    (h : RulesRun evs db e) (hwrite : insertMetrics db points = some db') :
    RulesRun (evs ++ [.write points]) db' e
  | tick {evs : List RulesEvent} {db : MetricTables} {e : Engine} {readAt now : Time}
    {workloads : List WorkloadSnapshot} (uuid : WorkloadSnapshot → Rule → String × String)
    (h : RulesRun evs db e) (hnow : now.isZero = false)
    (hlist : ListWorkloads db (readAt.add (-evaluateWindow)) workloads) :
    RulesRun (evs ++ [.tick readAt now workloads uuid]) db (e.Evaluate workloads now uuid)

/-! ### The calls of a run -/

/-- The calls of `evalRule` at an event. -/
def RulesEvent.calls : RulesEvent → List EvalCall
  | write _ => []
  | tick _ now workloads uuid => workloads.flatMap (workloadCalls now uuid)

/-- The calls of `evalRule` in a run. -/
def callsOf (evs : List RulesEvent) : List EvalCall := evs.flatMap RulesEvent.calls

/-- A workload has one call for each rule. -/
theorem filter_workloadCalls {rule : Rule} (hrule : rule ∈ engineRules) (entityUID : String)
    (now : Time) (uuid : WorkloadSnapshot → Rule → String × String) (w : WorkloadSnapshot) :
    (((workloadCalls now uuid w).filter fun c => c.rule = rule ∧ c.entityUID = entityUID).map
      fun c => (c.above, c.now)) =
        if w.entityUID = entityUID then [((ruleValue rule w).atLeast rule.threshold, now)]
        else [] := by
  have hdistinct : cpuHigh ≠ memoryHigh := by decide
  simp only [engineRules, List.mem_cons, List.not_mem_nil, or_false] at hrule
  rcases hrule with rfl | rfl <;> split_ifs with huid <;>
    simp [workloadCalls, engineRules, huid, hdistinct, hdistinct.symm, EvalCall.above]

/-- The calls for a rule and an entity are what the rule finds of the entity. -/
theorem filter_callsOf {rule : Rule} (hrule : rule ∈ engineRules) (entityUID : String)
    (evs : List RulesEvent) :
    ((callsOf evs).filter fun c => c.rule = rule ∧ c.entityUID = entityUID).map
      (fun c => (c.above, c.now)) = found rule entityUID evs := by
  rw [callsOf, found, List.filter_flatMap, List.map_flatMap]
  refine List.flatMap_congr fun evt _ => ?_
  cases evt with
  | write points => rfl
  | tick readAt now workloads uuid =>
    rw [RulesEvent.calls, RulesEvent.found, List.filter_flatMap, List.map_flatMap]
    clear * - hrule
    induction workloads with
    | nil => rfl
    | cons w workloads ih =>
      rw [List.flatMap_cons, ih, filter_workloadCalls hrule, List.filter_cons]
      by_cases huid : w.entityUID = entityUID <;> simp [huid]

/-- The readings of a rule and an entity are the calls for them. -/
theorem readings_run (rule : Rule) (entityUID : String) (calls : List EvalCall) :
    (Engine.readings rule entityUID (Engine.run calls).2).map (fun r => (r.above, r.time)) =
      (calls.filter fun c => c.rule = rule ∧ c.entityUID = entityUID).map
        fun c => (c.above, c.now) := by
  induction calls using List.reverseRecOn with
  | nil => rfl
  | append_singleton calls c ih =>
    rw [Engine.run_concat, Engine.step, Engine.readings_concat, List.filter_append,
      List.map_append, ← ih]
    split_ifs with hsame
    · rw [List.filter_cons_of_pos (by simpa using hsame), List.map_append]
      rfl
    · rw [List.filter_cons_of_neg (by simpa using hsame)]
      exact (List.append_nil _).symm

theorem fst_run (calls : List EvalCall) : (Engine.run calls).1 = NewEngine.evalAll calls := by
  induction calls using List.reverseRecOn with
  | nil => rfl
  | append_singleton calls c ih =>
    rw [Engine.run_concat, Engine.step, ih, Engine.evalAll, Engine.evalAll, List.foldl_append]
    rfl

theorem evalAll_append (e : Engine) (calls later : List EvalCall) :
    e.evalAll (calls ++ later) = (e.evalAll calls).evalAll later := List.foldl_append

theorem callsOf_concat (evs : List RulesEvent) (evt : RulesEvent) :
    callsOf (evs ++ [evt]) = callsOf evs ++ evt.calls := by
  rw [callsOf, List.flatMap_append, List.flatMap_singleton, ← callsOf]

/-- The engine after a run is that after its calls. -/
theorem engine_of_run {evs : List RulesEvent} {db : MetricTables} {e : Engine}
    (h : RulesRun evs db e) : e = NewEngine.evalAll (callsOf evs) := by
  induction h with
  | nil => rfl
  | write h hwrite ih => rwa [callsOf_concat, RulesEvent.calls, List.append_nil]
  | tick uuid h hnow hlist ih => rw [callsOf_concat, evalAll_append, ← ih]; rfl

/-- The rules and the clock of the calls of a run. -/
theorem calls_of_run {evs : List RulesEvent} {db : MetricTables} {e : Engine}
    (h : RulesRun evs db e) : ∀ c ∈ callsOf evs, c.rule ∈ engineRules ∧ c.now.isZero = false := by
  induction h with
  | nil => exact fun c hc => absurd hc List.not_mem_nil
  | write h hwrite ih =>
    intro c hc
    rw [callsOf_concat, RulesEvent.calls, List.append_nil] at hc
    exact ih c hc
  | tick uuid h hnow hlist ih =>
    intro c hc
    rw [callsOf_concat, RulesEvent.calls] at hc
    rcases List.mem_append.mp hc with hc | hc
    · exact ih c hc
    · obtain ⟨w, hw, hc⟩ := List.mem_flatMap.mp hc
      obtain ⟨rule, hrule, rfl⟩ := List.mem_map.mp hc
      exact ⟨hrule, hnow⟩

/-! ### Alerts and trackers that stay -/

section Stay

variable {e : Engine} {calls : List EvalCall}

/-- Every tracker is under the key of a rule and an entity, and every alert under its own. -/
structure Engine.Named (e : Engine) : Prop where
  tracked : ∀ key, (e.track.get? key).isSome → ∃ rule ∈ engineRules, ∃ entityUID,
    key = ruleKey rule entityUID
  active : ∀ key a, e.active.get? key = some a → ∃ rule ∈ engineRules,
    a.ruleID = rule.id ∧ key = ruleKey rule a.entityUID

/-- What a call leaves active was active before, or is the alert of the call. -/
theorem active_evalRule {c : EvalCall} {key : String} {a : ActiveAlert}
    (h : (e.evalRule c).1.active.get? key = some a) :
    e.active.get? key = some a ∨ (key = c.key ∧ a = c.alert) := by
  have hactive : (e.evalRule c).1.active = e.active ∨
      (e.evalRule c).1.active = e.active.insert c.key c.alert ∨
      (e.evalRule c).1.active = e.active.erase c.key := by
    rw [Engine.evalRule]
    simp only
    split_ifs <;> simp [Engine.fire, Engine.resolve]
  rcases hactive with heq | heq | heq
  · exact .inl (heq ▸ h)
  · rw [heq, SortedMap.get?_insert] at h
    split_ifs at h with hkey
    · exact .inr ⟨hkey.symm, (Option.some.inj h).symm⟩
    · exact .inl h
  · rw [heq, SortedMap.get?_erase] at h
    split_ifs at h
    exact .inl h

theorem named_evalAll (he : e.Named) (hcalls : ∀ c ∈ calls, c.rule ∈ engineRules) :
    (e.evalAll calls).Named := by
  induction calls using List.reverseRecOn with
  | nil => exact he
  | append_singleton calls c ih =>
    have hc := hcalls c (by simp)
    replace ih := ih fun c hc => hcalls c (List.mem_append_left _ hc)
    rw [evalAll_append, Engine.evalAll, List.foldl_cons, List.foldl_nil]
    refine ⟨fun key hkey => ?_, fun key a ha => ?_⟩
    · by_cases hsame : key = c.key
      · exact ⟨c.rule, hc, c.entityUID, hsame⟩
      · rw [(Engine.evalRule_other _ c hsame).1] at hkey
        exact ih.tracked key hkey
    · rcases active_evalRule ha with ha | ⟨rfl, rfl⟩
      · exact ih.active key a ha
      · exact ⟨c.rule, hc, rfl, rfl⟩

theorem valid_evalAll (he : e.Valid)
    (hcalls : ∀ c ∈ calls, c.rule ∈ engineRules ∧ c.now.isZero = false) :
    (e.evalAll calls).Valid := by
  induction calls using List.reverseRecOn with
  | nil => exact he
  | append_singleton calls c ih =>
    rw [evalAll_append, Engine.evalAll, List.foldl_cons, List.foldl_nil]
    obtain ⟨hc, hnow⟩ := hcalls c (by simp)
    exact Engine.valid_evalRule (ih fun c hc => hcalls c (List.mem_append_left _ hc)) hnow
      (Engine.duration_lt hc)

/-- What is under a key of an engine stays in another: the alert, and the tracker with its start. -/
structure Stays (key : String) (e e' : Engine) : Prop where
  alert : ∀ a, e.active.get? key = some a → e'.active.get? key = some a
  tracker : ∀ tr, e.track.get? key = some tr →
    ∃ tr', e'.track.get? key = some tr' ∧ tr'.since = tr.since

/-- A call that is not below the threshold leaves what is under a key. -/
theorem stays_evalRule (he : e.Valid) {c : EvalCall} (hduration : c.rule.duration < 2 ^ 63)
    {key : String} (h : c.key = key → c.above = true) : Stays key e (e.evalRule c).1 := by
  by_cases hkey : key = c.key
  · subst hkey
    have hon : ∀ a, e.active.get? c.key = some a → e.on c.key = true := fun a ha => by
      rw [Engine.on, ← he.paired, ha]
      rfl
    have hsince : ∀ tr, e.track.get? c.key = some tr → e.since c = tr.since := fun tr htr => by
      rw [Engine.since, Engine.alarm, htr]
      rfl
    rw [Engine.evalRule_eq he hduration, if_pos (h rfl)]
    split_ifs with hfire
    · refine ⟨fun a ha => ?_, fun tr htr => ⟨_, SortedMap.get?_insert_self _ _ _, hsince tr htr⟩⟩
      rw [hon a ha] at hfire
      exact absurd hfire (by simp)
    · exact ⟨fun a ha => ha, fun tr htr => ⟨_, SortedMap.get?_insert_self _ _ _, hsince tr htr⟩⟩
  · obtain ⟨htrack, hactive⟩ := Engine.evalRule_other e c hkey
    exact ⟨fun a ha => hactive.trans ha, fun tr htr => ⟨tr, htrack.trans htr, rfl⟩⟩

theorem stays_evalAll (he : e.Valid)
    (hcalls : ∀ c ∈ calls, c.rule ∈ engineRules ∧ c.now.isZero = false) {key : String}
    (h : ∀ c ∈ calls, c.key = key → c.above = true) : Stays key e (e.evalAll calls) := by
  induction calls using List.reverseRecOn with
  | nil => exact ⟨fun a ha => ha, fun tr htr => ⟨tr, htr, rfl⟩⟩
  | append_singleton calls c ih =>
    have hbefore : ∀ c ∈ calls, c.rule ∈ engineRules ∧ c.now.isZero = false := fun c hc =>
      hcalls c (List.mem_append_left _ hc)
    replace ih := ih hbefore fun c hc => h c (List.mem_append_left _ hc)
    obtain ⟨hc, hnow⟩ := hcalls c (by simp)
    have hlast := stays_evalRule (valid_evalAll he hbefore) (Engine.duration_lt hc) (h c (by simp))
    rw [evalAll_append, Engine.evalAll, List.foldl_cons, List.foldl_nil]
    refine ⟨fun a ha => hlast.alert a (ih.alert a ha), fun tr htr => ?_⟩
    obtain ⟨tr', htr', hsince⟩ := ih.tracker tr htr
    obtain ⟨tr'', htr'', hsince'⟩ := hlast.tracker tr' htr'
    exact ⟨tr'', htr'', hsince'.trans hsince⟩

end Stay

/-! ### All ticks -/

/-- What holds after a run. -/
structure AlertsPersist (evs : List RulesEvent) (e : Engine) : Prop where
  /-- There is a tracker for what was at or above the threshold when it was listed last. -/
  tracked : ∀ key, (e.track.get? key).isSome ↔ ∃ rule ∈ engineRules, ∃ entityUID,
    key = ruleKey rule entityUID ∧ LastAbove rule entityUID evs
  /-- An active alert is that of a rule, on an entity that was not listed below since. -/
  ruled : ∀ a ∈ e.ActiveAlerts, ∃ rule ∈ engineRules,
    a.ruleID = rule.id ∧ LastAbove rule a.entityUID evs
  /-- There is an active alert for what has been at or above the threshold for long enough. -/
  active : ∀ rule ∈ engineRules, ∀ entityUID,
    (∃ a ∈ e.ActiveAlerts, a.ruleID = rule.id ∧ a.entityUID = entityUID) ↔
      LongAbove rule entityUID evs
  /-- Alerts and trackers stay as long as the entity is not listed below the threshold. -/
  stays : ∀ later db' e', RulesRun (evs ++ later) db' e' → ∀ rule ∈ engineRules, ∀ entityUID,
    (∀ s ∈ found rule entityUID later, s.1 = true) →
      (∀ a ∈ e.ActiveAlerts, a.ruleID = rule.id → a.entityUID = entityUID → a ∈ e'.ActiveAlerts) ∧
      Stays (ruleKey rule entityUID) e e'

section Run

variable {evs : List RulesEvent} {db : MetricTables} {e : Engine}

theorem valid_of_run (h : RulesRun evs db e) : e.Valid :=
  engine_of_run h ▸ valid_evalAll Engine.valid_new (calls_of_run h)

theorem named_of_run (h : RulesRun evs db e) : e.Named :=
  engine_of_run h ▸ named_evalAll ⟨fun key hkey => by simp [NewEngine] at hkey,
    fun key a ha => by simp [NewEngine] at ha⟩ fun c hc => (calls_of_run h c hc).1

theorem map_rtakeWhile {α β : Type} (f : α → β) (p : β → Bool) (l : List α) :
    (l.rtakeWhile fun a => p (f a)).map f = (l.map f).rtakeWhile p := by
  rw [List.rtakeWhile, List.rtakeWhile, List.map_reverse, ← List.map_reverse (l := l),
    List.takeWhile_map]
  rfl

/-- After a run, the engine is under each key the alarm of what the rule has found. -/
theorem alarm_of_run (h : RulesRun evs db e) {rule : Rule} (hrule : rule ∈ engineRules)
    (entityUID : String) : ∃ readings : List (Sample Time),
      e.alarm (ruleKey rule entityUID) = Alarm.stateOf readings ∧
        Always (Alarm.Judged rule.held) readings ∧
          readings.map (fun r => (r.above, r.time)) = found rule entityUID evs ∧
            (Alarm.run readings).map (fun r => (r.above, r.time)) =
              foundAbove rule entityUID evs := by
  have hcalls := calls_of_run h
  obtain ⟨-, halarm, hjudged, -⟩ := Engine.run_alarm (fun c hc => (hcalls c hc).1)
    (fun c hc => (hcalls c hc).2) hrule entityUID
  rw [fst_run, ← engine_of_run h] at halarm
  have hfound :=
    (readings_run rule entityUID (callsOf evs)).trans (filter_callsOf hrule entityUID evs)
  exact ⟨_, halarm, hjudged, hfound, by rw [foundAbove, ← hfound, ← map_rtakeWhile]; rfl⟩

theorem tracked_iff (h : RulesRun evs db e) {rule : Rule} (hrule : rule ∈ engineRules)
    (entityUID : String) :
    (e.track.get? (ruleKey rule entityUID)).isSome ↔ LastAbove rule entityUID evs := by
  obtain ⟨readings, halarm, -, hfound, -⟩ := alarm_of_run h hrule entityUID
  have hsome := Alarm.isSome_stateOf readings
  rw [← halarm, Engine.alarm, Option.isSome_map] at hsome
  rw [hsome, LastAbove, ← hfound, List.getLast?_map]
  simp

theorem active_iff (h : RulesRun evs db e) {rule : Rule} (hrule : rule ∈ engineRules)
    (entityUID : String) :
    (e.active.get? (ruleKey rule entityUID)).isSome ↔ LongAbove rule entityUID evs := by
  obtain ⟨readings, halarm, hjudged, -, habove⟩ := alarm_of_run h hrule entityUID
  rw [(valid_of_run h).paired, halarm, Alarm.on_of_stateOf, Alarm.on_iff_held hjudged, LongAbove,
    ← habove, List.head?_map]
  simp

/-- The alert of a rule and an entity is the one under their key. -/
theorem mem_activeAlerts (h : e.Named) {a : ActiveAlert} {rule : Rule} (hrule : rule ∈ engineRules)
    (hid : a.ruleID = rule.id) :
    a ∈ e.ActiveAlerts ↔ e.active.get? (ruleKey rule a.entityUID) = some a := by
  rw [Engine.ActiveAlerts, SortedMap.mem_values]
  constructor
  · rintro ⟨key, ha⟩
    obtain ⟨rule', hrule', hid', rfl⟩ := h.active key a ha
    rwa [Engine.rule_eq_of_id hrule hrule' (hid.symm.trans hid')]
  · exact fun ha => ⟨_, ha⟩

end Run

/-- **Key result: alerts outlive their containers.** After every run there is a tracker exactly for
the entities that were at or above the threshold when they were listed last, and an active alert for
those that had been so for the duration of the rule. Both stay, whatever happens, until a tick lists
the entity below the threshold. -/
theorem alerts_last_listed {evs : List RulesEvent} {db : MetricTables} {e : Engine}
    (h : RulesRun evs db e) : AlertsPersist evs e where
  tracked key := by
    constructor
    · intro hkey
      obtain ⟨rule, hrule, entityUID, rfl⟩ := (named_of_run h).tracked key hkey
      exact ⟨rule, hrule, entityUID, rfl, (tracked_iff h hrule entityUID).mp hkey⟩
    · rintro ⟨rule, hrule, entityUID, rfl, hlast⟩
      exact (tracked_iff h hrule entityUID).mpr hlast
  ruled a ha := by
    obtain ⟨key, hactive⟩ := SortedMap.mem_values.mp ha
    obtain ⟨rule, hrule, hid, rfl⟩ := (named_of_run h).active key a hactive
    refine ⟨rule, hrule, hid, (tracked_iff h hrule _).mp ?_⟩
    -- a firing key has a tracker
    have hpaired := (valid_of_run h).paired (ruleKey rule a.entityUID)
    rw [hactive, Engine.alarm] at hpaired
    rcases htrack : e.track.get? (ruleKey rule a.entityUID) with - | tr
    · rw [htrack] at hpaired
      exact absurd hpaired (by simp)
    · rfl
  active rule hrule entityUID := by
    rw [← active_iff h hrule entityUID]
    constructor
    · rintro ⟨a, ha, hid, rfl⟩
      rw [(mem_activeAlerts (named_of_run h) hrule hid).mp ha]
      rfl
    · intro hsome
      obtain ⟨a, ha⟩ := Option.isSome_iff_exists.mp hsome
      obtain ⟨rule', hrule', hid, hkey⟩ := (named_of_run h).active _ a ha
      -- a key names its rule and its entity
      obtain ⟨rfl, rfl⟩ := Engine.ruleKey_inj hrule hrule' hkey
      exact ⟨a, SortedMap.mem_values.mpr ⟨_, ha⟩, hid, rfl⟩
  stays later db' e' hlater rule hrule entityUID hfound := by
    have hcalls := calls_of_run hlater
    have happend : callsOf (evs ++ later) = callsOf evs ++ callsOf later := List.flatMap_append
    -- the later calls of this key are the answers in which the entity is listed
    have habove : ∀ c ∈ callsOf later, c.key = ruleKey rule entityUID → c.above = true := by
      intro c hc hkey
      have hrule' := (hcalls c (happend ▸ List.mem_append_right _ hc)).1
      obtain ⟨hsame, huid⟩ := Engine.ruleKey_inj hrule' hrule hkey
      refine hfound (c.above, c.now) ?_
      rw [← filter_callsOf hrule entityUID later]
      exact List.mem_map_of_mem (f := fun c : EvalCall => (c.above, c.now))
        (List.mem_filter.mpr ⟨hc, by simpa using ⟨hsame, huid⟩⟩)
    have hstays : Stays (ruleKey rule entityUID) e e' := by
      rw [engine_of_run hlater, happend, evalAll_append, ← engine_of_run h]
      exact stays_evalAll (valid_of_run h)
        (fun c hc => hcalls c (happend ▸ List.mem_append_right _ hc)) habove
    refine ⟨fun a ha hid huid => ?_, hstays⟩
    subst huid
    exact (mem_activeAlerts (named_of_run hlater) hrule hid).mpr
      (hstays.alert a ((mem_activeAlerts (named_of_run h) hrule hid).mp ha))

/-! ### A container that goes -/

/-- The CPU of a container at 90 per cent. -/
def webPoint (ts : Time) : MetricPoint :=
  ⟨"cpu.usage", ts, .finite 90, (entityFor "h" "web" ∅).1, (entityFor "h" "web" ∅).2⟩

/-- What `Evaluate` lists when the rows of the window come in the order of their keys. -/
def listed (db : MetricTables) (readAt : Time) : List WorkloadSnapshot :=
  (mergeRows (db.latest.entries.filter fun e =>
    sinceFilter (readAt.add (-evaluateWindow)) e.2.ts)).values

/-- The tables after some batches; none are left when a batch fails. -/
def tablesOf (batches : List (List MetricPoint)) : MetricTables :=
  (writeAll batches).getD MetricTables.empty

/-- The ids of the example. -/
def webIDs : WorkloadSnapshot → Rule → String × String := fun _ _ => ("1", "2")

theorem listWorkloads_listed {db : MetricTables} {readAt : Time}
    (h : (db.latest.entries.filter fun e =>
      sinceFilter (readAt.add (-evaluateWindow)) e.2.ts).Pairwise
        fun a b => sortsBefore a.2.ts b.2.ts = false) :
    ListWorkloads db (readAt.add (-evaluateWindow)) (listed db readAt) :=
  ⟨_, ⟨List.Perm.refl _, h⟩, List.Perm.refl _⟩

/-- Noon, and the times of the next two ticks: five and twenty minutes later. -/
def noon : Time := ⟨63844891200000000000⟩

/-- Five minutes past noon. -/
def fivePast : Time := ⟨63844891500000000000⟩

/-- Twenty minutes past noon. -/
def twentyPast : Time := ⟨63844892400000000000⟩

/-- The tables with the point of noon. -/
def noonTables : MetricTables := tablesOf [[webPoint noon]]

/-- The tables with both points. -/
def bothTables : MetricTables := tablesOf [[webPoint noon], [webPoint fivePast]]

/-- The engine after the first tick. -/
def noonEngine : Engine := NewEngine.Evaluate (listed noonTables noon) noon webIDs

/-- The engine after the second tick. -/
def fiveEngine : Engine := noonEngine.Evaluate (listed bothTables fivePast) fivePast webIDs

/-- The tables of the two points come from the store, and so do the lists of the three ticks. -/
theorem web_listed :
    insertMetrics MetricTables.empty [webPoint noon] = some noonTables ∧
    insertMetrics noonTables [webPoint fivePast] = some bothTables ∧
    ListWorkloads noonTables (noon.add (-evaluateWindow)) (listed noonTables noon) ∧
    ListWorkloads bothTables (fivePast.add (-evaluateWindow)) (listed bothTables fivePast) ∧
    ListWorkloads bothTables (twentyPast.add (-evaluateWindow)) [] := by
  have hempty : listed bothTables twentyPast = [] := by decide +kernel
  exact ⟨by decide +kernel, by decide +kernel, listWorkloads_listed (by decide +kernel),
    listWorkloads_listed (by decide +kernel), hempty ▸ listWorkloads_listed (by decide +kernel)⟩

/-- The container is listed at noon and five minutes later, both times at 90 per cent. -/
def webEvents : List RulesEvent :=
  [.write [webPoint noon], .tick noon noon (listed noonTables noon) webIDs,
    .write [webPoint fivePast], .tick fivePast fivePast (listed bothTables fivePast) webIDs]

theorem web_run : RulesRun webEvents bothTables fiveEngine := by
  obtain ⟨hfirst, hsecond, hnoon, hfive, -⟩ := web_listed
  have hclock : noon.isZero = false ∧ fivePast.isZero = false := by decide
  exact (((RulesRun.nil.write hfirst).tick webIDs hclock.1 hnoon).write hsecond).tick webIDs
    hclock.2 hfive

/-- The tick of twenty past lists nothing, and changes nothing. -/
theorem web_gone : RulesRun (webEvents ++ [.tick twentyPast twentyPast [] webIDs]) bothTables
    fiveEngine := by
  have hsame : fiveEngine.Evaluate [] twentyPast webIDs = fiveEngine := by
    rw [Engine.Evaluate, List.flatMap_nil, Engine.evalAll, List.foldl_nil]
  have hlast := web_run.tick webIDs (show twentyPast.isZero = false by decide) web_listed.2.2.2.2
  rwa [hsame] at hlast

theorem activeAlerts_fiveEngine : fiveEngine.ActiveAlerts ≠ [] := by
  have hlength : fiveEngine.ActiveAlerts.length = 1 := by decide +kernel
  intro hnil
  rw [hnil] at hlength
  exact absurd hlength (by decide)

/-- An alert is active at five past, and so it is at twenty past, when the container has gone. -/
theorem alerts_last_listed_web : AlertsPersist webEvents fiveEngine ∧
    fiveEngine.ActiveAlerts ≠ [] ∧
    AlertsPersist (webEvents ++ [.tick twentyPast twentyPast [] webIDs]) fiveEngine :=
  ⟨alerts_last_listed web_run, activeAlerts_fiveEngine, alerts_last_listed web_gone⟩

/-- A container is removed while its alert is active: fifteen minutes later it is not listed, and
the alert is still active. -/
theorem alert_outlives_container : ¬ ∀ (evs : List RulesEvent) (db : MetricTables) (e : Engine)
    (readAt now : Time) (workloads : List WorkloadSnapshot)
    (uuid : WorkloadSnapshot → Rule → String × String),
    RulesRun (evs ++ [.tick readAt now workloads uuid]) db e →
      ∀ a ∈ e.ActiveAlerts, ∃ w ∈ workloads, w.entityUID = a.entityUID := by
  intro hall
  obtain ⟨a, ha⟩ := List.exists_mem_of_ne_nil _ activeAlerts_fiveEngine
  obtain ⟨w, hw, -⟩ := hall _ _ _ _ _ _ _ web_gone a ha
  exact absurd hw List.not_mem_nil

end Argus
