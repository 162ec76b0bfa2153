import Argus.Foundations.Notices
import Argus.Logs
import Argus.Store.Columns
import Argus.Store.Windows
import Mathlib.Data.List.Flatten
import Mathlib.Logic.Relation

/-!
# Liveness of agents

`staleLoop` marks the agents that were not seen for a while in `staleAgents`, and `handleRegister`
and `handleHeartbeat` take the marks away. The map is behind a lock, which is released before the
change is published, so that there are changes that are decided and not yet told.

`liveness_in_order` says that the events tell the state of an agent as long as no publication
overtakes an earlier one about the same agent with something else to tell.
-/

namespace Argus

open Foundations

/-! ### The table of agents -/

/-- `registerRequest`. -/
structure RegisterRequest where
  agentID : String
  hostID : String
  runtime : String
  labels : Labels

/-- The request with its default runtime. -/
def RegisterRequest.withRuntime (req : RegisterRequest) : RegisterRequest :=
  if req.runtime = "" then { req with runtime := "docker" } else req

/-- `Postgres.UpsertAgent`. -/
def UpsertAgent (agents : SortedMap String AgentRow) (req : RegisterRequest) (now : Time) :
    Option (SortedMap String AgentRow) :=
  let row : AgentRow := ⟨req.agentID, req.hostID, req.runtime, req.labels.marshal, now⟩
  if validText row.agentID && validText row.hostID && validText row.runtime &&
      validText row.labelsJSON then
    some (agents.insert req.agentID row)
  else none

/-- `Postgres.TouchAgent`. -/
def TouchAgent (agents : SortedMap String AgentRow) (agentID : String) (now : Time) :
    Option (SortedMap String AgentRow) :=
  if validText agentID then
    match agents.get? agentID with
    | some row => some (agents.insert agentID { row with lastSeen := now })
    | none => some agents
  else none

/-- The host of a reconnect: that of `GetAgent`, and the agent itself when there is none. -/
def reconnectHost (agentID : String) (reg : Option AgentRow) : String :=
  match reg with
  | some row => if row.hostID = "" then agentID else row.hostID
  | none => agentID

/-! ### What is told -/

/-- A change of `staleAgents` that is decided and not yet published. A reconnect is without its
host until `GetAgent` has answered. -/
inductive Publication
  | disconnect (a : AgentRow)
  | register (req : RegisterRequest) (now : Time)
  | reconnect (agentID : String) (hostID : Option String)

namespace Publication

/-- The agent that a publication is about. -/
def agentID : Publication → String
  | disconnect a => a.agentID
  | register req _ => req.agentID
  | reconnect agentID _ => agentID

/-- What a publication tells. -/
def notice : Publication → Notice
  | disconnect _ => .lost
  | register _ _ => .joined
  | reconnect _ _ => .back

/-- The event of a publication, which is made when it is published. -/
def event (uuid : String) (now : Time) : Publication → Option Model.Event
  | disconnect a => some {
      id := uuid, type := "agent.disconnect", ts := now, severity := "warning", source := "hub"
      entityUID := "host:" ++ a.hostID
      labels := SortedMap.ofList [("host", a.hostID), ("agent_id", a.agentID)]
      payload := SortedMap.ofList [("last_seen", .str a.lastSeen.format)] }
  | register req ts => some {
      id := uuid, type := "agent.register", ts := ts, severity := "info", source := "hub"
      entityUID := "host:" ++ req.hostID
      labels := SortedMap.ofList
        [("host", req.hostID), ("agent_id", req.agentID), ("runtime", req.runtime)]
      payload := ∅ }
  | reconnect agentID hostID => hostID.map fun hostID => {
      id := uuid, type := "agent.reconnect", ts := now, severity := "info", source := "hub"
      entityUID := "host:" ++ hostID
      labels := SortedMap.ofList [("host", hostID), ("agent_id", agentID)]
      payload := ∅ }

end Publication

/-- What an event on the bus tells of an agent. -/
def noticeOf (agentID : String) (evt : Model.Event) : Option Notice :=
  if evt.labels.get "agent_id" = agentID then
    if evt.type = "agent.disconnect" then some .lost
    else if evt.type = "agent.reconnect" then some .back
    else if evt.type = "agent.register" then some .joined
    else none
  else none

/-- The notices of an agent, in the order in which they were published. -/
def noticesOf (agentID : String) (published : List Model.Event) : List Notice :=
  published.filterMap (noticeOf agentID)

theorem noticeOf_event {uuid : String} {now : Time} {p : Publication} {evt : Model.Event}
    (h : p.event uuid now = some evt) (agentID : String) :
    noticeOf agentID evt = if p.agentID = agentID then some p.notice else none := by
  have hlabel : evt.labels.get "agent_id" = p.agentID ∧
      (evt.type = "agent.disconnect" ∧ p.notice = .lost ∨
        evt.type = "agent.reconnect" ∧ p.notice = .back ∨
        evt.type = "agent.register" ∧ p.notice = .joined) := by
    cases p with
    | disconnect a =>
      obtain rfl := Option.some.inj h
      refine ⟨?_, .inl ⟨rfl, rfl⟩⟩
      simp [Labels.get, SortedMap.ofList, Publication.agentID]
    | register req ts =>
      obtain rfl := Option.some.inj h
      refine ⟨?_, .inr (.inr ⟨rfl, rfl⟩)⟩
      simp [Labels.get, SortedMap.ofList, Publication.agentID, SortedMap.get?_insert_of_ne]
    | reconnect id hostID =>
      obtain ⟨host, -, rfl⟩ := Option.map_eq_some_iff.mp h
      refine ⟨?_, .inr (.inl ⟨rfl, rfl⟩)⟩
      simp [Labels.get, SortedMap.ofList, Publication.agentID]
  obtain ⟨hagent, ⟨htype, hnotice⟩ | ⟨htype, hnotice⟩ | ⟨htype, hnotice⟩⟩ := hlabel
  · simp [noticeOf, hagent, htype, hnotice]
  · simp [noticeOf, hagent, htype, hnotice]
  · simp [noticeOf, hagent, htype, hnotice]

/-! ### The hub -/

/-- A handler between its statement and the lock. -/
inductive LivenessCall
  | register (req : RegisterRequest) (now : Time)
  | heartbeat (agentID : String)

/-- Where `staleLoop` is: at the ticker, at the rows that are left, or publishing with these rows
to come. -/
inductive StaleLoop
  | waiting
  | visiting (rows : List AgentRow)
  | publishing (rows : List AgentRow)

/-- The state of the hub: the table, the map behind the lock, the loop and the handlers, and the
publications that are decided, in the order of the decisions. -/
structure Liveness where
  agents : SortedMap String AgentRow
  staleAgents : SortedMap String Bool
  loop : StaleLoop
  calls : List LivenessCall
  pending : List Publication
  published : List Model.Event

namespace Liveness

/-- A hub that has just been started. -/
def start (agents : SortedMap String AgentRow) : Liveness := ⟨agents, ∅, .waiting, [], [], []⟩

/-- `s.staleAgents[agentID]`. -/
def isStale (s : Liveness) (agentID : String) : Bool := (s.staleAgents.get? agentID).getD false

/-- No handler and no iteration of the loop is in progress. -/
def Quiet (s : Liveness) : Prop := s.loop = .waiting ∧ s.calls = [] ∧ s.pending = []

/-- The locked section of `handleRegister`. -/
def registered (s : Liveness) (req : RegisterRequest) (now : Time) : Liveness :=
  { s with
    staleAgents := s.staleAgents.erase req.agentID
    pending := s.pending ++ [.register req now] }

/-- The locked section of `handleHeartbeat`. -/
def beat (s : Liveness) (agentID : String) : Liveness :=
  if s.isStale agentID then
    { s with
      staleAgents := s.staleAgents.erase agentID
      pending := s.pending ++ [.reconnect agentID none] }
  else s

/-- The locked section of `staleLoop`, with the rows that come next. -/
def visited (s : Liveness) (a : AgentRow) (rows : List AgentRow) : Liveness :=
  if s.isStale a.agentID then { s with loop := .visiting rows }
  else
    { s with
      staleAgents := s.staleAgents.insert a.agentID true
      loop := .publishing rows
      pending := s.pending ++ [.disconnect a] }

/-- The loop goes on when its publication is done. -/
def resume (p : Publication) (loop : StaleLoop) : StaleLoop :=
  match p, loop with
  | .disconnect _, .publishing rows => .visiting rows
  | _, loop => loop

/-- A publication is done: the one at a place among those that are decided. -/
def publish (s : Liveness) (i : ℕ) (p : Publication) (evt : Model.Event) : Liveness :=
  { s with
    loop := resume p s.loop
    pending := s.pending.eraseIdx i
    published := s.published ++ [evt] }

/-- What a step is, as far as the order of publications is concerned. -/
inductive Action
  | work
  | publish (i : ℕ)

/-- A step of a handler, of the loop or of the bus. A statement that fails changes nothing. -/
inductive Step : Liveness → Action → Liveness → Prop
  | upsert {s : Liveness} {req : RegisterRequest} {now : Time} {agents : SortedMap String AgentRow}
      (hagent : req.agentID ≠ "") (hhost : req.hostID ≠ "")
      (h : UpsertAgent s.agents req.withRuntime now = some agents) :
      Step s .work { s with agents := agents, calls := .register req.withRuntime now :: s.calls }
  | touch {s : Liveness} {agentID : String} {now : Time} {agents : SortedMap String AgentRow}
      (hagent : agentID ≠ "") (h : TouchAgent s.agents agentID now = some agents) :
      Step s .work { s with agents := agents, calls := .heartbeat agentID :: s.calls }
  | registered {s : Liveness} {req : RegisterRequest} {now : Time}
      {before after : List LivenessCall} (h : s.calls = before ++ .register req now :: after) :
      Step s .work { s.registered req now with calls := before ++ after }
  | beat {s : Liveness} {agentID : String} {before after : List LivenessCall}
      (h : s.calls = before ++ .heartbeat agentID :: after) :
      Step s .work { s.beat agentID with calls := before ++ after }
  | getAgent {s : Liveness} {agentID : String} {reg : Option AgentRow}
      {before after : List Publication} (h : s.pending = before ++ .reconnect agentID none :: after)
      (hreg : reg = s.agents.get? agentID ∨ reg = none) :
      Step s .work { s with
        pending := before ++ .reconnect agentID (some (reconnectHost agentID reg)) :: after }
  | tick {s : Liveness} {cutoff : Time} {rows : List AgentRow} (hloop : s.loop = .waiting)
      (h : rows.Perm (Argus.staleAgents s.agents cutoff)) :
      Step s .work { s with loop := .visiting rows }
  | visit {s : Liveness} {a : AgentRow} {rows : List AgentRow}
      (hloop : s.loop = .visiting (a :: rows)) : Step s .work (s.visited a rows)
  | rest {s : Liveness} (hloop : s.loop = .visiting []) :
      Step s .work { s with loop := .waiting }
  | publish {s : Liveness} {i : ℕ} {p : Publication} {uuid : String} {now : Time}
      {evt : Model.Event} (hp : s.pending[i]? = some p) (hevt : p.event uuid now = some evt) :
      Step s (.publish i) (s.publish i p evt)

/-- A publication overtakes no earlier one about the same agent with something else to tell. -/
def InOrder (s : Liveness) : Action → Prop
  | .work => True
  | .publish i => ∀ p ∈ s.pending[i]?, ∀ q ∈ s.pending.take i,
    q.agentID = p.agentID → q.notice = p.notice

/-- The states that any order of the steps reaches. -/
def Run : Liveness → Liveness → Prop :=
  Relation.ReflTransGen fun s s' => ∃ action, Step s action s'

/-- The states that are reached when the publications keep their order. -/
def OrderedRun : Liveness → Liveness → Prop :=
  Relation.ReflTransGen fun s s' => ∃ action, s.InOrder action ∧ Step s action s'

/-- The notices of an agent that are decided and not yet published. -/
def owed (agentID : String) (pending : List Publication) : List Notice :=
  pending.filterMap fun p => if p.agentID = agentID then some p.notice else none

/-- With what is still owed, the notices of each agent go with its mark. -/
def Settled (s : Liveness) : Prop := ∀ agentID,
  Coherent (noticesOf agentID s.published ++ owed agentID s.pending) (s.isStale agentID)

/-- What the events tell of an agent is true. -/
structure LivenessTold (s : Liveness) (agentID : String) : Prop where
  told : Told (noticesOf agentID s.published)
  last : s.Quiet → ((noticesOf agentID s.published).getLast? = some .lost ↔
    s.isStale agentID = true)

section Steps

variable {s s' : Liveness} {agentID : String}

theorem owed_concat (pending : List Publication) (p : Publication) :
    owed agentID (pending ++ [p]) =
      owed agentID pending ++ if p.agentID = agentID then [p.notice] else [] := by
  rw [owed, owed, List.filterMap_append, List.filterMap_cons, List.filterMap_nil]
  split_ifs <;> rfl

theorem isStale_erase {t : Liveness} {id : String} (ht : t.staleAgents = s.staleAgents.erase id)
    (agentID : String) :
    t.isStale agentID = if id = agentID then false else s.isStale agentID := by
  rw [isStale, ht, SortedMap.get?_erase, isStale]
  split_ifs with h₁ h₂ h₂
  · rfl
  · exact absurd h₁.symm h₂
  · exact absurd h₂.symm h₁
  · rfl

/-- A decision keeps the law when it does for its agent. -/
theorem Settled.decide (h : Settled s) {p : Publication}
    (hagents : ∀ id, id ≠ p.agentID → s'.isStale id = s.isStale id)
    (hpublished : s'.published = s.published) (hpending : s'.pending = s.pending ++ [p])
    (hself : ∀ l, Coherent l (s.isStale p.agentID) →
      Coherent (l ++ [p.notice]) (s'.isStale p.agentID)) : Settled s' := by
  intro id
  rw [hpublished, hpending, owed_concat, ← List.append_assoc]
  split_ifs with hid
  · rw [← hid]
    exact hself _ (h p.agentID)
  · rw [List.append_nil, hagents id (Ne.symm hid)]
    exact h id

theorem Settled.registered (h : Settled s) (req : RegisterRequest) (now : Time) :
    Settled (s.registered req now) := by
  have hstale := isStale_erase
    (rfl : (s.registered req now).staleAgents = s.staleAgents.erase req.agentID)
  refine h.decide (p := .register req now) (fun id hid => ?_) rfl rfl fun l hl => ?_
  · exact (hstale id).trans (if_neg (Ne.symm hid))
  · rw [hstale, Publication.agentID, if_pos rfl]
    exact hl.joined

theorem Settled.beat (h : Settled s) (agentID : String) : Settled (s.beat agentID) := by
  rw [Liveness.beat]
  split_ifs with hmarked
  · have hstale := isStale_erase
      (rfl : Liveness.staleAgents { s with
        staleAgents := s.staleAgents.erase agentID
        pending := s.pending ++ [.reconnect agentID none] } = s.staleAgents.erase agentID)
    refine h.decide (p := .reconnect agentID none) (fun id hid => ?_) rfl rfl fun l hl => ?_
    · exact (hstale id).trans (if_neg (Ne.symm hid))
    · rw [hstale, Publication.agentID, if_pos rfl]
      rw [Publication.agentID, hmarked] at hl
      exact hl.back
  · exact h

theorem Settled.visited (h : Settled s) (a : AgentRow) (rows : List AgentRow) :
    Settled (s.visited a rows) := by
  rw [Liveness.visited]
  split_ifs with hmarked
  · exact h
  · refine h.decide (p := .disconnect a) (fun id hid => ?_) rfl rfl fun l hl => ?_
    · exact congrArg (fun o : Option Bool => o.getD false)
        (SortedMap.get?_insert_of_ne (Ne.symm hid))
    · rw [Publication.agentID, eq_false_of_ne_true hmarked] at hl
      rw [isStale, Publication.agentID, SortedMap.get?_insert_self]
      exact hl.lost

/-- A publication that keeps its order changes nothing of what is told in the end. -/
theorem Settled.publish (h : Settled s) {i : ℕ} {p : Publication} {uuid : String} {now : Time}
    {evt : Model.Event} (horder : s.InOrder (.publish i)) (hp : s.pending[i]? = some p)
    (hevt : p.event uuid now = some evt) : Settled (s.publish i p evt) := by
  intro id
  obtain ⟨hi, hget⟩ := List.getElem?_eq_some_iff.mp hp
  have hpending : s.pending = s.pending.take i ++ p :: s.pending.drop (i + 1) := by
    rw [← hget, List.getElem_cons_drop, List.take_append_drop]
  have hnotice := noticeOf_event hevt id
  have hlaw := h id
  rw [hpending, owed, List.filterMap_append, List.filterMap_cons] at hlaw
  change Coherent (noticesOf id (s.published ++ [evt]) ++ owed id (s.pending.eraseIdx i))
    (s.isStale id)
  rw [List.eraseIdx_eq_take_drop_succ, noticesOf, List.filterMap_append, List.filterMap_cons,
    List.filterMap_nil, hnotice, owed, List.filterMap_append, List.append_assoc]
  by_cases hid : p.agentID = id
  · -- what is overtaken says the same
    have hsame : ∀ n ∈ (s.pending.take i).filterMap
        (fun q => if q.agentID = id then some q.notice else none), n = p.notice := by
      intro n hn
      obtain ⟨q, hq, hqn⟩ := List.mem_filterMap.mp hn
      split_ifs at hqn with hqid
      rw [← Option.some.inj hqn]
      exact horder p hp q hq (hqid.trans hid.symm)
    rw [if_pos hid] at hlaw ⊢
    rw [List.singleton_append, cons_append_of_forall_eq hsame]
    exact hlaw
  · rw [if_neg hid] at hlaw ⊢
    exact hlaw

/-- The answer of `GetAgent` changes nothing of what is told. -/
theorem owed_getAgent {before after : List Publication} {id : String} {hostID : Option String} :
    owed agentID (before ++ .reconnect id hostID :: after) =
      owed agentID (before ++ .reconnect id none :: after) := by
  rw [owed, owed, List.filterMap_append, List.filterMap_append, List.filterMap_cons,
    List.filterMap_cons]
  rfl

/-- One step. -/
theorem Settled.step (h : Settled s) {action : Action} (horder : s.InOrder action)
    (hstep : Step s action s') : Settled s' := by
  cases hstep with
  | upsert | touch | tick | rest => exact h
  | registered _ => exact h.registered _ _
  | beat _ => exact h.beat _
  | visit _ => exact h.visited _ _
  | getAgent hpending _ =>
    intro id
    have hlaw := h id
    rw [hpending] at hlaw
    rw [owed_getAgent]
    exact hlaw
  | publish hp hevt => exact h.publish horder hp hevt

/-- Every run. -/
theorem Settled.run (h : Settled s) (hrun : OrderedRun s s') : Settled s' := by
  induction hrun with
  | refl => exact h
  | tail _ hstep ih =>
    obtain ⟨action, horder, hstep⟩ := hstep
    exact ih.step horder hstep

theorem Settled.livenessTold (h : Settled s) (agentID : String) : s.LivenessTold agentID := by
  refine ⟨(h agentID).told.of_append, fun hquiet => ?_⟩
  have hlast := (h agentID).last
  rw [hquiet.2.2, owed, List.filterMap_nil, List.append_nil] at hlast
  exact hlast

end Steps

/-- **Key result.** When the publications keep their order, the events of each agent tell its state:
two disconnects have a reconnect or a register between them, a reconnect follows a disconnect, and
at rest the last event is a disconnect exactly for the agents in `staleAgents`. -/
theorem liveness_in_order {agents : SortedMap String AgentRow} {s : Liveness}
    (h : OrderedRun (start agents) s) (agentID : String) : s.LivenessTold agentID := by
  have hstart : Settled (start agents) := fun _ => coherent_nil
  exact (hstart.run h).livenessTold agentID

/-- An agent that was last seen long ago. -/
def lostRow : AgentRow := ⟨"a", "h", "docker", "\x7b\x7d", ⟨0⟩⟩

/-- A hub with this agent. -/
def lonelyHub : Liveness := start ((∅ : SortedMap String AgentRow).insert "a" lostRow)

/-- The hub when the loop has marked the agent and is about to publish it. -/
def markedHub : Liveness :=
  ({ lonelyHub with loop := .visiting [lostRow] } : Liveness).visited lostRow []

theorem step_tick : Step lonelyHub .work { lonelyHub with loop := .visiting [lostRow] } := by
  have hrows : [lostRow] = Argus.staleAgents lonelyHub.agents ⟨1000000000⟩ := by decide +kernel
  exact .tick rfl (List.Perm.of_eq hrows)

theorem step_marked : Step { lonelyHub with loop := .visiting [lostRow] } .work markedHub :=
  .visit rfl

/-- The mark is published. -/
theorem liveness_in_order_marked : (markedHub.publish 0 (.disconnect lostRow)
    ⟨"1", "agent.disconnect", ⟨1000000000⟩, "warning", "hub", "host:h",
      SortedMap.ofList [("host", "h"), ("agent_id", "a")],
      SortedMap.ofList [("last_seen", .str (Time.format ⟨0⟩))]⟩).LivenessTold "a" := by
  have hpending : markedHub.pending = [.disconnect lostRow] := rfl
  refine liveness_in_order (((Relation.ReflTransGen.refl.tail ⟨.work, trivial, step_tick⟩).tail
    ⟨.work, trivial, step_marked⟩).tail ⟨.publish 0, fun p _ q hq => ?_, .publish rfl rfl⟩) "a"
  exact absurd hq List.not_mem_nil

/-- A heartbeat between the mark and its publication: the reconnect is published first. -/
theorem reconnect_before_disconnect : ¬ ∀ (agents : SortedMap String AgentRow) (s : Liveness),
    Run (start agents) s → ∀ agentID, s.LivenessTold agentID := by
  intro h
  obtain ⟨agents, htouch⟩ : ∃ agents, TouchAgent markedHub.agents "a" ⟨2000000000⟩ = some agents :=
    Option.isSome_iff_exists.mp (by decide +kernel)
  have hmarked : Run lonelyHub markedHub :=
    (Relation.ReflTransGen.refl.tail ⟨_, step_tick⟩).tail ⟨_, step_marked⟩
  have htouched := hmarked.tail ⟨_, .touch (by decide) htouch⟩
  set touched : Liveness := { markedHub with
    agents := agents
    calls := .heartbeat "a" :: markedHub.calls } with htouched_eq
  have hcalls : touched.calls = [] ++ .heartbeat "a" :: [] := rfl
  have hstale : touched.isStale "a" = true := (by decide +kernel : markedHub.isStale "a" = true)
  have hbeat := htouched.tail ⟨_, .beat hcalls⟩
  rw [Liveness.beat, if_pos hstale] at hbeat
  have hpending : markedHub.pending ++ [.reconnect "a" none] =
      [.disconnect lostRow] ++ .reconnect "a" none :: [] := rfl
  have hnamed := hbeat.tail ⟨_, .getAgent hpending (.inr rfl)⟩
  obtain ⟨evt, hevt, hnotice⟩ : ∃ evt, Publication.event "1" ⟨3000000000⟩
      (.reconnect "a" (some (reconnectHost "a" none))) = some evt ∧
        noticesOf "a" [evt] = [.back] := ⟨_, rfl, by decide +kernel⟩
  have hpublished := hnamed.tail ⟨.publish 1, .publish rfl hevt⟩
  obtain ⟨l₃, l₄, hnil, -⟩ := (h _ _ hpublished "a").told.back [] [] hnotice
  exact absurd hnil (by simp)

end Liveness

end Argus
