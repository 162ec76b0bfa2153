import Argus.Fleet
import Argus.Foundations.Resume
import Argus.Logs
import Argus.Unmarshal
import Mathlib.Data.List.Sigma

/-!
# The stream of container events

`StreamEvents` follows the events API of Docker: `followEvents` reads one connection, line by
line, and passes to `emit` what `mapDockerEvent` makes of the lines; when the connection is over
another one is opened, which asks for the events since the second that the clock then shows. What
`followEvents` learns about the time of the last event stays in a copy of its own.

What a connection gives, what `emit` says and what the clock shows are the environment's. A line
carries its place on the stream, which the code does not see. The context is not cancelled.
`events_exactlyOnce_iff` says when every event is emitted once.
-/

namespace Argus

open Foundations

/-! ### Events -/

/-- The actor of a `dockerEvent`. -/
structure DockerActor where
  id : String
  attributes : Labels

/-- `dockerEvent`. -/
structure DockerEvent where
  type : String
  action : String
  actor : DockerActor
  time : ℤ
  timeNano : ℤ

/-- The fields of the actor. -/
def dockerActorFields : List (String × Decoder DockerActor) := [
  ("ID", Decoder.field DockerActor.id (fun a x => { a with id := x }) Decoder.string),
  ("Attributes",
    Decoder.field DockerActor.attributes (fun a x => { a with attributes := x }) Decoder.stringMap)]

/-- The fields of `dockerEvent`. -/
def dockerEventFields : List (String × Decoder DockerEvent) := [
  ("Type", Decoder.field DockerEvent.type (fun e x => { e with type := x }) Decoder.string),
  ("Action", Decoder.field DockerEvent.action (fun e x => { e with action := x }) Decoder.string),
  ("Actor", Decoder.field DockerEvent.actor (fun e x => { e with actor := x })
    (Decoder.struct dockerActorFields)),
  ("time", Decoder.field DockerEvent.time (fun e x => { e with time := x }) Decoder.int),
  ("timeNano",
    Decoder.field DockerEvent.timeNano (fun e x => { e with timeNano := x }) Decoder.int)]

/-- The event of a line, unless the line is blank or cannot be read. -/
def decodeEvent (line : String) : Option DockerEvent :=
  if trimSpace line = "" then none
  else (Json.parse (trimSpace line).toList).bind fun v =>
    Decoder.struct dockerEventFields v ⟨"", "", ⟨"", ∅⟩, 0, 0⟩

/-- `time.Unix(0, n)`, after the year 0. -/
def unixTime (n : ℤ) : Time := ⟨(62135596800 * 1000000000 + n).toNat⟩

/-- `containerNameFromEvent`. -/
def containerNameFromEvent (raw : DockerEvent) : String :=
  let n := raw.actor.attributes.get "name"
  if hasPrefix n "/" then String.ofList (n.toList.drop 1) else n

/-- The payload that all events have. -/
def eventPayload (raw : DockerEvent) : Fields :=
  raw.actor.attributes.entries.foldl
    (fun payload e =>
      if e.1 ∈ ["exitCode", "signal", "image"] then payload.insert e.1 (.str e.2) else payload)
    (SortedMap.ofList [("action", .str raw.action), ("container_id", .str raw.actor.id)])

/-- The cases of `mapDockerEvent`: type, severity and payload. -/
def eventKind (raw : DockerEvent) : Option (String × String × Fields) :=
  if raw.action = "start" then some ("container.start", "info", eventPayload raw)
  else if raw.action = "die" then
    let cause := stopDisposition "exited"
      ((atoi (raw.actor.attributes.get "exitCode")).getD 1) false
    some ("container.die", if cause = "intentional" then "info" else "warning",
      (eventPayload raw).insert "cause" (.str cause))
  else if raw.action ∈ ["kill", "stop"] then
    some ("container." ++ raw.action, "info",
      (eventPayload raw).insert "cause" (.str "intentional"))
  else if raw.action = "oom" then some ("container.oom", "critical", eventPayload raw)
  else if raw.action = "restart" then some ("container.restart", "warning", eventPayload raw)
  else if raw.action ∈ ["pause", "unpause", "destroy", "rename"] then
    some ("container." ++ raw.action, "info", eventPayload raw)
  else none

/-- `mapDockerEvent`, which gives the event the id `uuid`. -/
def mapDockerEvent (hostID name : String) (raw : DockerEvent) (uuid : String) :
    Option Model.Event :=
  (eventKind raw).map fun kind =>
    { id := uuid, type := kind.1,
      ts := if raw.timeNano > 0 then unixTime raw.timeNano else unixTime (raw.time * 1000000000),
      severity := kind.2.1, source := "agent", entityUID := entityUID hostID name,
      labels := entityLabels hostID name raw.actor.attributes, payload := kind.2.2 }

/-! ### Connections -/

/-- The part of `Collector` that events depend on, with `ARGUS_NAME_PREFIX`. -/
structure EventCollector where
  hostID : String
  namePrefix : String

/-- One call of `followEvents` and the clock after it: the lines that are scanned, with their
places on the stream, whether the connection fails or ends in an error, what `emit` says and the id
of the event for the line at a place, and the second in which the next connection is opened. -/
structure EventConn where
  lines : List (String × ℕ)
  broken : Bool
  accepts : ℕ → Bool
  uuid : ℕ → String
  clock : ℤ

/-- A call of `emit`: the line that it is made for, the event, and whether it succeeds. -/
structure Emission where
  line : String × ℕ
  event : Model.Event
  ok : Bool

namespace EventCollector

variable (c : EventCollector)

/-- The event of a line with the name of its container, when the line is about a container of this
collector. -/
def heeds (line : String) : Option (DockerEvent × String) :=
  (decodeEvent line).bind fun raw =>
    let name := containerNameFromEvent raw
    if raw.type ≠ "container" ∨ name = "" ∨ (c.namePrefix ≠ "" ∧ !hasPrefix name c.namePrefix) then
      none
    else some (raw, name)

/-- The loop of `followEvents`: what is emitted, the last `since`, and whether there is an error. -/
def followLoop (conn : EventConn) : ℤ → List (String × ℕ) → List Emission × ℤ × Bool
  | since, [] => ([], since, conn.broken)
  | since, line :: lines =>
    match c.heeds line.1 with
    | none => followLoop conn since lines
    | some (raw, name) =>
      match mapDockerEvent c.hostID name raw (conn.uuid line.2) with
      | none => followLoop conn since lines
      | some evt =>
        if conn.accepts line.2 then
          let rest := followLoop conn (if raw.time > since then raw.time else since) lines
          (⟨line, evt, true⟩ :: rest.1, rest.2)
        else ([⟨line, evt, false⟩], since, true)

/-- `followEvents`: what is emitted, and whether there is an error. -/
def followEvents (since : ℤ) (conn : EventConn) : List Emission × Bool :=
  let (emissions, _, err) := c.followLoop conn since conn.lines
  (emissions, err)

/-- `StreamEvents` over these connections. The clock is read after the wait, if there was an
error. -/
def StreamEvents : ℤ → List EventConn → List Emission
  | _, [] => []
  | since, conn :: conns => (c.followEvents since conn).1 ++ StreamEvents conn.clock conns

/-- The lines that were emitted, each as often as that succeeded. -/
def emittedLines (since : ℤ) (conns : List EventConn) : List (String × ℕ) :=
  ((c.StreamEvents since conns).filter Emission.ok).map Emission.line

/-- Whether an event is made of a line. -/
def maps (line : String) : Bool := (c.heeds line).any fun e => (eventKind e.1).isSome

/-- The lines of a connection up to the end or to the first event that `emit` fails for. -/
def passed (conn : EventConn) : List (String × ℕ) :=
  conn.lines.takeWhile fun line => !c.maps line.1 || conn.accepts line.2

end EventCollector

/-! ### Runs -/

/-- `time` of the event of a line. -/
def timeOf (line : String) : ℤ := ((decodeEvent line).map DockerEvent.time).getD 0

/-- The events API: the lines of a stream since a second, with their places. -/
def eventsSince (stream : List String) (since : ℤ) : List (String × ℕ) :=
  stream.zipIdx.filter fun line => since ≤ timeOf line.1

/-- The connections to a stream, the first opened in the second `since`. The clock does not go
back, and the last connection has given all lines and goes on. -/
inductive EventRun (stream : List String) : ℤ → List EventConn → Prop
  | live {since : ℤ} {conn : EventConn} (hlines : conn.lines = eventsSince stream since)
    (haccepts : ∀ line ∈ conn.lines, conn.accepts line.2 = true) : EventRun stream since [conn]
  | reconnect {since : ℤ} {conn : EventConn} {conns : List EventConn}
    (hlines : conn.lines <+: eventsSince stream since) (hclock : since ≤ conn.clock)
    (hconns : EventRun stream conn.clock conns) : EventRun stream since (conn :: conns)

namespace EventCollector

variable (c : EventCollector)

/-- Exactly-once delivery: every event since the start that is mapped is emitted once. -/
def ExactlyOnce (stream : List String) (start : ℤ) (conns : List EventConn) : Prop :=
  ∀ line ∈ stream.zipIdx, c.maps line.1 = true → start ≤ timeOf line.1 →
    (c.emittedLines start conns).count line = 1

/-- The connections as sessions of a reader. -/
def sessions : ℤ → List EventConn → List (Session (String × ℕ) ℤ)
  | _, [] => []
  | since, conn :: conns => ⟨since, c.passed conn⟩ :: sessions conn.clock conns

/-- Whenever a connection is opened, all mapped events before that second have been emitted, and
none in or after it, unless the connection ends before it comes to anything. -/
def Seamless (stream : List String) (start : ℤ) (conns : List EventConn) : Prop :=
  ∀ before s after, c.sessions start conns = before ++ s :: after →
    Session.Seamless (fun line => timeOf line.1) (fun line => c.maps line.1) stream.zipIdx start
      before s

/-! ### What is emitted -/

variable {c : EventCollector} {stream : List String} {start since : ℤ} {conn : EventConn}
  {conns : List EventConn}

theorem isSome_mapDockerEvent (hostID name : String) (raw : DockerEvent) (uuid : String) :
    (mapDockerEvent hostID name raw uuid).isSome = (eventKind raw).isSome := Option.isSome_map

/-- The loop emits, of the lines that it passes, those that are mapped. -/
theorem emitted_followLoop (conn : EventConn) (since : ℤ) (lines : List (String × ℕ)) :
    (((c.followLoop conn since lines).1.filter Emission.ok).map Emission.line) =
      (lines.takeWhile fun line => !c.maps line.1 || conn.accepts line.2).filter
        fun line => c.maps line.1 := by
  induction lines generalizing since with
  | nil => rfl
  | cons line lines ih =>
    have hskip : c.maps line.1 = false →
        ((line :: lines).takeWhile fun line => !c.maps line.1 || conn.accepts line.2).filter
            (fun line => c.maps line.1) =
          (lines.takeWhile fun line => !c.maps line.1 || conn.accepts line.2).filter
            fun line => c.maps line.1 := fun hmaps => by
      rw [List.takeWhile_cons_of_pos (by rw [hmaps]; rfl),
        List.filter_cons_of_neg (by simp [hmaps])]
    rw [followLoop]
    rcases hheeds : c.heeds line.1 with - | ⟨raw, name⟩
    · rw [hskip (by rw [maps, hheeds]; rfl)]
      exact ih since
    · have hmaps : c.maps line.1 = (eventKind raw).isSome := by rw [maps, hheeds]; rfl
      rcases hevt : mapDockerEvent c.hostID name raw (conn.uuid line.2) with - | evt
      · have hkind := isSome_mapDockerEvent c.hostID name raw (conn.uuid line.2)
        rw [hevt] at hkind
        rw [hskip (hmaps.trans hkind.symm)]
        simp only [hevt]
        exact ih since
      · have hkind := isSome_mapDockerEvent c.hostID name raw (conn.uuid line.2)
        rw [hevt] at hkind
        have htrue : c.maps line.1 = true := hmaps.trans hkind.symm
        simp only [hevt]
        by_cases haccepts : conn.accepts line.2 = true
        · have hcons : ∀ rest, (line :: rest).filter (fun line => c.maps line.1) =
              line :: rest.filter fun line => c.maps line.1 := fun rest => by
            rw [List.filter_cons, if_pos htrue]
          rw [if_pos haccepts, List.takeWhile_cons_of_pos (by rw [haccepts, Bool.or_true]), hcons,
            ← ih]
          rfl
        · -- the failure ends the connection
          rw [if_neg haccepts,
            List.takeWhile_cons_of_neg (by simp only [htrue, Bool.not_true, Bool.false_or, haccepts,
              Bool.false_eq_true, not_false_eq_true])]
          rfl

/-- What is emitted over all connections is what the sessions emit. -/
theorem emittedLines_eq (since : ℤ) (conns : List EventConn) :
    c.emittedLines since conns =
      Session.emittedAll (fun line => c.maps line.1) (c.sessions since conns) := by
  induction conns generalizing since with
  | nil => rfl
  | cons conn conns ih =>
    rw [emittedLines, StreamEvents, List.filter_append, List.map_append, ← emittedLines, ih]
    exact congrArg (· ++ _) (emitted_followLoop conn since conn.lines)

/-! ### Runs as sessions -/

/-- Every session gets a beginning of what it is offered. -/
theorem passed_isPrefix (h : EventRun stream since conns) : ∀ s ∈ c.sessions since conns,
    s.passed <+: s.offered (fun line => timeOf line.1) stream.zipIdx ∧ since ≤ s.since := by
  induction h with
  | live hlines haccepts =>
    intro s hs
    obtain rfl := List.mem_singleton.mp hs
    exact ⟨(List.takeWhile_prefix _).trans (hlines ▸ List.prefix_rfl), le_rfl⟩
  | reconnect hlines hclock hconns ih =>
    intro s hs
    rcases List.mem_cons.mp hs with rfl | hs
    · exact ⟨(List.takeWhile_prefix _).trans hlines, le_rfl⟩
    · exact ⟨(ih s hs).1, hclock.trans (ih s hs).2⟩

/-- The starts do not go back. -/
theorem sorted_sessions (h : EventRun stream since conns) :
    (c.sessions since conns).Pairwise fun s₁ s₂ => s₁.since ≤ s₂.since := by
  induction h with
  | live hlines haccepts => exact List.pairwise_singleton _ _
  | reconnect hlines hclock hconns ih =>
    exact List.pairwise_cons.mpr ⟨fun s hs => hclock.trans (passed_isPrefix hconns s hs).2, ih⟩

/-- The last session passes all that it is offered. -/
theorem exists_last (h : EventRun stream since conns) : ∃ ss s, c.sessions since conns = ss ++ [s] ∧
    s.passed = s.offered (fun line => timeOf line.1) stream.zipIdx := by
  induction h with
  | @live since conn hlines haccepts =>
    refine ⟨[], ⟨since, c.passed conn⟩, rfl, ?_⟩
    have hall : c.passed conn = conn.lines := by
      refine List.takeWhile_eq_self_iff.mpr fun line hline => ?_
      rw [haccepts line hline, Bool.or_true]
    exact hall.trans hlines
  | @reconnect since conn _ hlines hclock hconns ih =>
    obtain ⟨ss, s, hsessions, hpassed⟩ := ih
    exact ⟨⟨since, c.passed conn⟩ :: ss, s, by rw [sessions, hsessions, List.cons_append], hpassed⟩

end EventCollector

/-- **Key result: events survive reconnects exactly when the clock is right.** Every mapped event
is emitted once if and only if each connection is opened in a second after those of all mapped
events that were emitted, unless it comes to nothing, and not after that of any other. -/
theorem events_exactlyOnce_iff {c : EventCollector} {stream : List String} {start : ℤ}
    {conns : List EventConn} (h : EventRun stream start conns) :
    c.ExactlyOnce stream start conns ↔ c.Seamless stream start conns := by
  have hstream : stream.zipIdx.Nodup := (List.nodup_zipIdx_map_snd stream).of_map
  obtain ⟨ss, s, hsessions, hlast⟩ := EventCollector.exists_last (c := c) h
  have hpassed := EventCollector.passed_isPrefix (c := c) h
  have hsorted := EventCollector.sorted_sessions (c := c) h
  rw [EventCollector.ExactlyOnce, EventCollector.Seamless, EventCollector.emittedLines_eq]
  rw [hsessions] at hpassed hsorted ⊢
  exact Session.exactlyOnce_iff hstream (fun s' hs' => (hpassed s' hs').1)
    (fun s' hs' => (hpassed s' hs').2) hsorted hlast

/-! ### Examples -/

/-- The line of a container that is started in the second 103. -/
def startLine : String :=
  "\x7b\"Type\":\"container\",\"Action\":\"start\",\"Actor\":\x7b\"Attributes\":" ++
    "\x7b\"name\":\"web\"\x7d\x7d,\"time\":103\x7d"

/-- A connection that gives these lines, all of which `emit` takes. -/
def quietConn (lines : List (String × ℕ)) (broken : Bool) (clock : ℤ) : EventConn :=
  ⟨lines, broken, fun _ => true, fun _ => "id", clock⟩

theorem timeOf_startLine : timeOf startLine = 103 := by decide +kernel

theorem maps_startLine : (EventCollector.mk "h" "").maps startLine = true := by decide +kernel

theorem eventsSince_startLine (since : ℤ) :
    eventsSince [startLine] since = if since ≤ 103 then [(startLine, 0)] else [] := by
  rw [eventsSince, List.zipIdx_singleton, List.filter_singleton, timeOf_startLine]
  split_ifs with h <;> simp [h]

/-- A container that is started while the collector waits to reconnect is never reported, and one
that is started in the second of a reconnect is reported twice. -/
theorem events_lost_or_twice :
    (EventRun [startLine] 100 [quietConn [] true 105, quietConn [] false 105] ∧
      ¬(EventCollector.mk "h" "").ExactlyOnce [startLine] 100
        [quietConn [] true 105, quietConn [] false 105]) ∧
    (EventRun [startLine] 100
        [quietConn [(startLine, 0)] false 103, quietConn [(startLine, 0)] false 103] ∧
      ¬(EventCollector.mk "h" "").ExactlyOnce [startLine] 100
        [quietConn [(startLine, 0)] false 103, quietConn [(startLine, 0)] false 103]) := by
  have hlate : eventsSince [startLine] 105 = [] := by
    rw [eventsSince_startLine, if_neg (by norm_num)]
  have hsame : eventsSince [startLine] 103 = [(startLine, 0)] := by
    rw [eventsSince_startLine, if_pos (by norm_num)]
  have hstart : eventsSince [startLine] 100 = [(startLine, 0)] := by
    rw [eventsSince_startLine, if_pos (by norm_num)]
  have hmem : (startLine, 0) ∈ [startLine].zipIdx := by
    rw [List.zipIdx_singleton]
    exact List.mem_singleton_self _
  have hold : (100 : ℤ) ≤ timeOf startLine := by rw [timeOf_startLine]; norm_num
  refine ⟨⟨?_, fun h => ?_⟩, ⟨?_, fun h => ?_⟩⟩
  · exact .reconnect List.nil_prefix (by decide) (.live hlate.symm fun _ _ => rfl)
  · have hnone := h _ hmem maps_startLine hold
    have hempty : (EventCollector.mk "h" "").emittedLines 100
        [quietConn [] true 105, quietConn [] false 105] = [] := rfl
    rw [hempty, List.count_nil] at hnone
    exact absurd hnone Nat.zero_ne_one
  · refine .reconnect ?_ (by decide) (.live hsame.symm fun _ _ => rfl)
    rw [hstart]
    exact List.prefix_rfl
  · have hpassed : ∀ clock, (EventCollector.mk "h" "").passed
        (quietConn [(startLine, 0)] false clock) = [(startLine, 0)] := fun clock => by
      refine List.takeWhile_eq_self_iff.mpr fun line _ => ?_
      exact Bool.or_true _
    have htwice := h _ hmem maps_startLine hold
    rw [EventCollector.emittedLines_eq, EventCollector.sessions, EventCollector.sessions,
      EventCollector.sessions, hpassed] at htwice
    simp [Session.emittedAll, Session.emitted, maps_startLine] at htwice

/-- A container that is started while the collector is connected is reported once. -/
theorem events_exactlyOnce_live :
    (EventCollector.mk "h" "").ExactlyOnce [startLine] 100 [quietConn [(startLine, 0)] false 103] ↔
      (EventCollector.mk "h" "").Seamless [startLine] 100 [quietConn [(startLine, 0)] false 103] :=
  events_exactlyOnce_iff (.live
    (by rw [quietConn, eventsSince_startLine, if_pos (by norm_num)]) fun _ _ => rfl)

end Argus
