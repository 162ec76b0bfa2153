import Argus.Agent.Client
import Argus.Fleet
import Argus.Foundations.SharedStore
import Argus.Hub.LogsIngest
import Argus.Hub.MemoryPct
import Argus.Store.Patterns

/-!
# The endpoints for batches

The five endpoints that an agent sends batches to. Each decodes the body, runs its writes with
`ApplyBatch`, which claims the id of the batch in the same transaction, and then does what follows
from a new batch: a check of the resources, an entry in the pattern queue, or a publication on the
bus, whose subscriber writes the event once more under its id.

A request is a program over the operations of its database session and its follow-ups.
`wp_serve` says what a request has done whenever it stops: a transaction that it tried to commit
holds the claim and all writes of its batch, or is the write of a publication; nothing follows
before the batch is committed, and then one thing does; and with a status below 300 the batch is
committed or its id was found.
-/

namespace Argus

open Foundations Program

/-! ### The store -/

/-- The statements of the store methods behind the endpoints. -/
inductive HubStatement
  /-- A statement for logs or metrics, or the claim of an id. -/
  | ingest (st : IngestStatement)
  /-- The upsert into `events`. -/
  | upsertEvent (row : EventRow)
  /-- `DELETE FROM container_fleet`. -/
  | deleteFleet
  /-- `INSERT INTO container_fleet`. -/
  | insertFleet (row : FleetStatus)
  /-- The upsert into `topology_links`. -/
  | upsertLink (key : LinkKey) (row : LinkRow)

/-- The id that a statement inserts into `ingest_batches`. -/
def HubStatement.claimed : HubStatement → Option String
  | .ingest (.claim batchID _) => some batchID
  | _ => none

/-- A program of the hub over its store. -/
abbrev HubTx (α : Type) : Type := TxM HubStatement ℕ α

/-- The row of `insertEvents`, where the payload can be written. -/
def Model.Event.row (number : ℚ → Number) (e : Model.Event) : Option EventRow :=
  (Fields.marshal number e.payload).map fun payloadJSON =>
    { id := e.id, type := e.type, ts := e.ts, severity := e.severity, source := e.source,
      entityUID := e.entityUID, labelsJSON := e.labels.marshal, payloadJSON := payloadJSON }

/-- The statements of `insertEvents`. -/
def eventStatements (number : ℚ → Number) (events : List Model.Event) :
    List (Option HubStatement) :=
  some (.ingest (.prepare "events")) :: events.map fun e => (e.row number).map .upsertEvent

/-- The statements of `upsertFleet`. -/
def fleetStatements (rows : List FleetStatus) : List (Option HubStatement) :=
  some .deleteFleet :: some (.ingest (.prepare "container_fleet")) ::
    rows.map fun r => some (.insertFleet r)

/-- The statements of `insertTopologyLinks`. -/
def linkStatements (links : List TopologyLink) : List (Option HubStatement) :=
  some (.ingest (.prepare "topology_links")) ::
    (links.flatMap linkRows).map fun e => some (.upsertLink e.1 e.2)

/-- Statements in the transaction of the context, or in one of their own. -/
def inContext (inTx : Bool) (stmts : List (Option HubStatement)) : HubTx Bool :=
  if inTx then Foundations.execAll stmts else transaction (Foundations.execAll stmts)

/-- `WriteEvents`. -/
def WriteEvents (number : ℚ → Number) (inTx : Bool) (events : List Model.Event) : HubTx Bool :=
  inContext inTx (eventStatements number events)

/-- `UpsertFleetStatus`. -/
def UpsertFleetStatus (inTx : Bool) (rows : List FleetStatus) : HubTx Bool :=
  inContext inTx (fleetStatements rows)

/-- `RecordTopologyLinks`. -/
def RecordTopologyLinks (inTx : Bool) (links : List TopologyLink) : HubTx Bool :=
  if links.isEmpty then pure true else inContext inTx (linkStatements links)

/-- `ApplyBatch` over any statements, with the insert that claims the id. -/
def applyBatchWith {S : Type} (claim : S) (batchID : String) (fn : Bool → TxM S ℕ Bool) :
    TxM S ℕ (Option Bool) :=
  if batchID = "" then do
    if ← fn false then pure (some true) else pure none
  else do
    if ← beginTx then
      match ← execTx claim with
      | none => do
        rollbackTx
        pure none
      | some 0 => do
        rollbackTx
        pure (some false)
      | some _ => do
        if ← fn true then
          if ← commitTx then pure (some true) else pure none
        else
          rollbackTx
          pure none
    else pure none

theorem ApplyBatch_eq (now : Time) (batchID : String) (fn : Bool → StoreM Bool) :
    ApplyBatch now batchID fn = applyBatchWith (.claim batchID now) batchID fn := rfl

theorem mapStatements_applyBatchWith {S S' : Type} (f : S → S') (claim : S) (batchID : String)
    (fn : Bool → TxM S ℕ Bool) :
    mapStatements f (applyBatchWith claim batchID fn) =
      applyBatchWith (f claim) batchID fun inTx => mapStatements f (fn inTx) := by
  rw [applyBatchWith, applyBatchWith]
  split_ifs
  · rw [mapStatements_bind]
    refine congrArg _ (funext fun ok => ?_)
    cases ok <;> rfl
  · refine congrArg (call TxOp.begin) (funext fun begun => ?_)
    cases begun with
    | false => rfl
    | true =>
      refine congrArg (call (TxOp.exec (f claim))) (funext fun r => ?_)
      match r with
      | none => rfl
      | some 0 => rfl
      | some (n + 1) =>
        refine (mapStatements_bind f (fn true) _).trans (congrArg _ (funext fun ok => ?_))
        cases ok with
        | false => rfl
        | true =>
          refine congrArg (call TxOp.commit) (funext fun committed => ?_)
          cases committed <;> rfl

/-! ### Requests -/

/-- What follows from a new batch. -/
inductive FollowUp
  /-- `checkResourcePressure`. -/
  | checkResourcePressure (points : List MetricPoint)
  /-- The entries are put into the pattern queue, unless it is full. -/
  | patternQueue (entries : List LogEntry)
  /-- `Publish`. -/
  | publish (evt : Model.Event)

/-- The check of the resources publishes alerts. -/
abbrev FollowUp.Answer : FollowUp → Type
  | checkResourcePressure _ => List Model.Event
  | patternQueue _ => Unit
  | publish _ => Unit

/-- What a request asks for: operations of its database session, and its follow-ups. -/
inductive HubOp
  | store (o : TxOp HubStatement)
  | followUp (f : FollowUp)

/-- The answers. -/
abbrev HubOp.Answer : HubOp → Type
  | store o => TxOp.Answer ℕ o
  | followUp f => f.Answer

/-- The program of a request. -/
abbrev HubM (α : Type) : Type := Program HubOp HubOp.Answer α

/-- A program over the store, in a request. -/
def onStore {α : Type} : HubTx α → HubM α
  | .ret a => .ret a
  | .call o k => .call (.store o) fun r => onStore (k r)

/-- A follow-up. -/
abbrev followUp (f : FollowUp) : HubM f.Answer := .call (.followUp f) .ret

/-- The libraries that the endpoints use: the runtime, how numbers are written, and what an element
of a body is decoded into. -/
structure IngestLibrary where
  rt : Runtime
  number : ℚ → Number
  point : Json → Option MetricPoint
  entry : Json → Option LogEntry
  event : Json → Option Model.Event
  status : Json → Option FleetStatus
  link : Json → Option TopologyLink

/-- What is decided before the handler of a request is called. -/
inductive Gate
  | unauthorized
  | busy
  | admitted

/-- What else a request depends on: whether its body was read to the end, the clock when it is
handled and when its batch is claimed, a new id, and the order in which `deriveMemoryPct` goes
through its map. -/
structure Arrival where
  gate : Gate
  complete : Bool
  now : Time
  receivedAt : Time
  newID : String
  derive : List MetricPoint → List MetricPoint
  derived : ∀ points, DeriveMemoryPct points (derive points)

/-- Decode a body into a slice. -/
def decodeSlice {α : Type} (element : Json → Option α) : Json → Option (List α)
  | .arr l => l.mapM element
  | .null => some []
  | _ => none

/-- `onEvent`, the one subscriber of the bus. -/
def onEvent (number : ℚ → Number) (evt : Model.Event) : HubM Unit := do
  let _ ← onStore (WriteEvents number false [evt])
  pure ()

/-- The bus hands events to its subscriber. -/
def publishAll (number : ℚ → Number) : List Model.Event → HubM Unit
  | [] => pure ()
  | evt :: events => do
    onEvent number evt
    publishAll number events

section Endpoints

variable (lib : IngestLibrary) (a : Arrival) (header : String)

/-- `applyIngest`: the status that was answered, unless `fn` was applied. -/
def applyIngestWith (fn : Bool → HubTx Bool) : HubM (Option ℕ) := do
  match ← onStore (applyBatchWith (.ingest (.claim (requestBatchID header) a.receivedAt))
    (requestBatchID header) fn) with
  | none => pure (some 500)
  | some false => pure (some 202)
  | some true => pure none

/-- The end of a handler: it stops unless `fn` was applied, and does what follows else. -/
def takeBatch (fn : Bool → HubTx Bool) (next : HubM Unit) : HubM ℕ := do
  match ← applyIngestWith a header fn with
  | some status => pure status
  | none => do
    next
    pure 202

/-- `handleMetricsBatch`. -/
def handleMetricsBatch : Option (List MetricPoint) → HubM ℕ
  | none => pure 400
  | some [] => pure 202
  | some points =>
    takeBatch a header
      (fun inTx => mapStatements .ingest (WriteMetrics inTx (points ++ a.derive points))) do
        let alerts ← followUp (.checkResourcePressure (points ++ a.derive points))
        publishAll lib.number alerts

/-- `handleLogsBatch`, with what it does with the entries of a new batch. -/
def serveLogsBatch (body : Option (List LogEntry)) : HubM ℕ := do
  match ← onStore (mapStatements .ingest
    (handleLogsBatch lib.rt lib.number a.receivedAt header body)) with
  | .error e => pure e.status
  | .ok [] => pure 202
  | .ok entries => do
    followUp (.patternQueue entries)
    pure 202

/-- The event with an id and a time. -/
def Arrival.completeEvent (evt : Model.Event) : Model.Event :=
  { evt with
    id := if evt.id = "" then a.newID else evt.id
    ts := if evt.ts.isZero then a.now else evt.ts }

/-- `handleEventIngest`. -/
def handleEventIngest : Option Model.Event → HubM ℕ
  | none => pure 400
  | some evt =>
    takeBatch a header (fun inTx => WriteEvents lib.number inTx [a.completeEvent evt]) do
      followUp (.publish (a.completeEvent evt))
      onEvent lib.number (a.completeEvent evt)

/-- `handleFleetBatch`. -/
def serveFleetBatch : Option (List FleetStatus) → HubM ℕ
  | none => pure 400
  | some [] => pure 202
  | some rows => takeBatch a header (fun inTx => UpsertFleetStatus inTx rows) (pure ())

/-- A link with a time and a kind. -/
def Arrival.completeLink (l : TopologyLink) : TopologyLink :=
  { l with
    ts := if l.ts.isZero then a.now else l.ts
    kind := if l.kind = "" then "tcp" else l.kind }

/-- `handleTopologyBatch`. -/
def handleTopologyBatch : Option (List TopologyLink) → HubM ℕ
  | none => pure 400
  | some [] => pure 202
  | some links =>
    takeBatch a header (fun inTx => RecordTopologyLinks inTx (links.map a.completeLink)) (pure ())

/-- A body that was not read to the end cannot be decoded. -/
def Arrival.read {α : Type} (decoded : Option α) : Option α := if a.complete then decoded else none

/-- A request for a batch: the limits of `ingest`, and the endpoint. -/
def serve (b : Batch) : HubM ℕ :=
  match a.gate with
  | .unauthorized => pure 401
  | .busy => pure 503
  | .admitted =>
    if b.path = "/api/v1/metrics/batch" then
      handleMetricsBatch lib a b.batchID (a.read (decodeSlice lib.point b.body))
    else if b.path = "/api/v1/logs/batch" then
      serveLogsBatch lib a b.batchID (a.read (decodeSlice lib.entry b.body))
    else if b.path = "/api/v1/events" then
      handleEventIngest lib a b.batchID (a.read (lib.event b.body))
    else if b.path = "/api/v1/fleet/batch" then
      serveFleetBatch a b.batchID (a.read (decodeSlice lib.status b.body))
    else if b.path = "/api/v1/topology/batch" then
      handleTopologyBatch a b.batchID (a.read (decodeSlice lib.link b.body))
    else pure 404

/-- The writes of a batch, when it is taken by a request. -/
inductive Writes (b : Batch) : List (Option HubStatement) → Prop
  | metrics {points : List MetricPoint} (path : b.path = "/api/v1/metrics/batch")
      (body : decodeSlice lib.point b.body = some points) :
      Writes b ((metricStatements (points ++ a.derive points)).map (Option.map .ingest))
  /-- The rows of the entries, and those of the metrics that are derived from them. -/
  | logs {entries : List LogEntry} (path : b.path = "/api/v1/logs/batch")
      (body : decodeSlice lib.entry b.body = some entries) :
      Writes b ((batchStatements lib.rt lib.number (entries.map (LogEntry.enriched lib.rt))).map
        (Option.map .ingest))
  | event {evt : Model.Event} (path : b.path = "/api/v1/events")
      (body : lib.event b.body = some evt) :
      Writes b (eventStatements lib.number [a.completeEvent evt])
  | fleet {rows : List FleetStatus} (path : b.path = "/api/v1/fleet/batch")
      (body : decodeSlice lib.status b.body = some rows) : Writes b (fleetStatements rows)
  | topology {links : List TopologyLink} (path : b.path = "/api/v1/topology/batch")
      (body : decodeSlice lib.link b.body = some links) :
      Writes b (linkStatements (links.map a.completeLink))

end Endpoints

/-- A batch as the methods of `Client` send it: to one of the endpoints, and never an empty list. -/
structure Batch.FromClient (b : Batch) : Prop where
  path : b.path ∈ ["/api/v1/metrics/batch", "/api/v1/logs/batch", "/api/v1/events",
    "/api/v1/fleet/batch", "/api/v1/topology/batch"]
  body : b.path ≠ "/api/v1/events" → ∃ v l, b.body = .arr (v :: l)

/-! ### The history of a request -/

/-- What a request has learned from its session, and what it has done afterwards, newest first. -/
structure RequestHistory where
  tx : TxHistory HubStatement String
  followUps : List FollowUp

namespace RequestHistory

/-- Before a request is handled. -/
def start : RequestHistory := ⟨.start, []⟩

/-- What an answer adds. -/
inductive Next (h : RequestHistory) : (o : HubOp) → o.Answer → RequestHistory → Prop
  | store {o : TxOp HubStatement} {r : TxOp.Answer ℕ o} {tx : TxHistory HubStatement String}
      (next : TxHistory.Next HubStatement.claimed h.tx o r tx) :
      Next h (.store o) r { h with tx := tx }
  | followUp {f : FollowUp} {r : f.Answer} :
      Next h (.followUp f) r { h with followUps := f :: h.followUps }

end RequestHistory

section Requests

variable {lib : IngestLibrary} {a : Arrival} {b : Batch} {J : RequestHistory → Prop}
  {h : RequestHistory}

theorem onStore_bind {α β : Type} (p : HubTx α) (q : α → HubTx β) :
    onStore (p >>= q) = onStore p >>= fun x => onStore (q x) := by
  induction p with
  | ret x => rfl
  | call o k ih => exact congrArg (call _) (funext fun r => ih r)

/-- A program over the store, in a request. -/
theorem wp_onStore {α : Type} {p : HubTx α} {Q : α → TxHistory HubStatement String → Prop}
    (hp : p.wp (TxHistory.Next HubStatement.claimed) (fun tx => J { h with tx := tx }) Q h.tx) :
    (onStore p).wp RequestHistory.Next J
      (fun x h' => ∃ tx, h' = { h with tx := tx } ∧ Q x tx) h := by
  obtain ⟨tx, followUps⟩ := h
  induction p generalizing tx with
  | ret x => exact ⟨tx, rfl, hp⟩
  | call o k ih =>
    intro r h' hE
    cases hE with
    | @store _ _ tx' hnext => exact ⟨(hp r tx' hnext).1, ih r tx' (hp r tx' hnext).2⟩

/-- **A claim and its writes.** At most the transaction of the claim and all writes is tried. The
answer says that it is confirmed, or that the id was found. -/
theorem wp_applyBatchWith {S : Type} {key : S → Option String} {J : TxHistory S String → Prop}
    {h : TxHistory S String} {claim : S} {batchID : String} {fn : Bool → TxM S ℕ Bool}
    {stmts : List (Option S)} (hid : batchID ≠ "") (hclaim : key claim = some batchID)
    (hfn : fn true = Foundations.execAll stmts) (hplain : ∀ st, some st ∈ stmts → key st = none)
    (hJ : ∀ h', h.Adds (fun l => l.map some = some claim :: stmts) h' → J h') :
    (applyBatchWith claim batchID fn).wp (TxHistory.Next key) J (fun res h' =>
      h.Adds (fun l => l.map some = some claim :: stmts) h' ∧
        (res = some true → ∃ l ∈ h'.confirmed, l.map some = some claim :: stmts) ∧
        (res = some false → batchID ∈ h'.found)) h := by
  have hnothing : ∀ ran found, h.Adds (fun l => l.map some = some claim :: stmts)
      ⟨ran, h.tried, h.confirmed, found⟩ := fun _ _ => TxHistory.adds_nothing rfl rfl
  simp only [applyBatchWith, if_neg hid, call_bind, ret_bind]
  intro begun h₁ hE
  cases hE with
  | notBegun => exact ⟨hJ _ (hnothing _ _), hnothing _ _, nofun, nofun⟩
  | begun =>
    simp only [if_true]
    refine ⟨hJ _ (hnothing _ _), ?_⟩
    intro r h₂ hE
    cases hE with
    | failed =>
      refine ⟨hJ _ (hnothing _ _), ?_⟩
      intro r h₃ hE
      cases hE
      exact ⟨hJ _ (hnothing _ _), hnothing _ _, nofun, nofun⟩
    | own hkeyed hown => exact absurd hown List.not_mem_nil
    | @found _ k hkeyed =>
      obtain rfl : batchID = k := Option.some.inj (hclaim.symm.trans hkeyed)
      refine ⟨hJ _ (hnothing _ _), ?_⟩
      intro r h₃ hE
      cases hE
      exact ⟨hJ _ (hnothing _ _), hnothing _ _, nofun, fun _ => List.mem_cons_self⟩
    | @ran _ n hplain' =>
      obtain ⟨n, rfl⟩ := Nat.exists_eq_succ_of_ne_zero
        (hplain'.resolve_left fun hnone => nomatch hclaim.symm.trans hnone)
      refine ⟨hJ _ (hnothing _ _), ?_⟩
      simp only [hfn]
      refine wp_seq (wp_execAll hplain fun l => hJ _ (hnothing l _)) ?_
      rintro ok h₃ ⟨l, rfl, hl⟩
      cases ok with
      | false =>
        intro r h₄ hE
        cases hE
        exact ⟨hJ _ (hnothing _ _), hnothing _ _, nofun, nofun⟩
      | true =>
        -- the claim is the first statement of the transaction
        have hwhole : (claim :: l).map some = some claim :: stmts := by
          rw [List.map_cons, hl rfl]
        intro r h₄ hE
        cases hE with
        | committed =>
          have hadds : h.Adds (fun l => l.map some = some claim :: stmts)
              ⟨claim :: l, (claim :: l) :: h.tried, (claim :: l) :: h.confirmed, h.found⟩ :=
            TxHistory.adds_one hwhole rfl (.inr rfl)
          exact ⟨hJ _ hadds, hadds, fun _ => ⟨_, List.mem_cons_self, hwhole⟩, nofun⟩
        | uncommitted =>
          have hadds : h.Adds (fun l => l.map some = some claim :: stmts)
              ⟨claim :: l, (claim :: l) :: h.tried, h.confirmed, h.found⟩ :=
            TxHistory.adds_one hwhole rfl (.inl rfl)
          exact ⟨hJ _ hadds, hadds, nofun, nofun⟩

theorem plain_eventStatements (number : ℚ → Number) (events : List Model.Event) :
    ∀ st, some st ∈ eventStatements number events → st.claimed = none := by
  intro st hst
  rcases List.mem_cons.mp hst with hst | hst
  · exact Option.some.inj hst ▸ rfl
  · obtain ⟨evt, -, hst⟩ := List.mem_map.mp hst
    obtain ⟨row, -, rfl⟩ := Option.map_eq_some_iff.mp hst
    rfl

theorem plain_metricStatements (points : List MetricPoint) :
    ∀ st, some st ∈ metricStatements points → (HubStatement.ingest st).claimed = none := by
  intro st hst
  simp only [metricStatements, latestStatements, List.mem_append, List.mem_cons,
    List.mem_map] at hst
  rcases hst with (hst | ⟨p, -, hst⟩) | hst
  · exact Option.some.inj hst ▸ rfl
  · exact Option.some.inj hst ▸ rfl
  · split_ifs at hst
    · exact absurd hst List.not_mem_nil
    · rcases List.mem_cons.mp hst with hst | hst
      · exact Option.some.inj hst ▸ rfl
      · obtain ⟨e, -, hst⟩ := List.mem_map.mp hst
        exact Option.some.inj hst ▸ rfl

theorem plain_batchStatements (rt : Runtime) (number : ℚ → Number) (entries : List LogEntry) :
    ∀ st, some st ∈ batchStatements rt number entries →
      (HubStatement.ingest st).claimed = none := by
  intro st hst
  rcases List.mem_append.mp hst with hst | hst
  · rcases List.mem_cons.mp hst with hst | hst
    · exact Option.some.inj hst ▸ rfl
    · obtain ⟨e, -, hst⟩ := List.mem_map.mp hst
      obtain ⟨row, -, rfl⟩ := Option.map_eq_some_iff.mp hst
      rfl
  · split_ifs at hst
    · exact absurd hst List.not_mem_nil
    · exact plain_metricStatements _ st hst

/-- No write claims an id. -/
theorem Writes.plain {stmts : List (Option HubStatement)} (hwrites : Writes lib a b stmts) :
    ∀ st, some st ∈ stmts → st.claimed = none := by
  have hingest : ∀ stmts : List (Option IngestStatement),
      (∀ st, some st ∈ stmts → (HubStatement.ingest st).claimed = none) →
      ∀ st, some st ∈ stmts.map (Option.map HubStatement.ingest) → st.claimed = none := by
    intro stmts hstmts st hst
    obtain ⟨o, ho, heq⟩ := List.mem_map.mp hst
    obtain ⟨st', rfl, rfl⟩ := Option.map_eq_some_iff.mp heq
    exact hstmts st' ho
  cases hwrites with
  | metrics _ _ => exact hingest _ (plain_metricStatements _)
  | logs _ _ => exact hingest _ (plain_batchStatements _ _ _)
  | event _ _ => exact plain_eventStatements _ _
  | fleet _ _ =>
    intro st hst
    simp only [fleetStatements, List.mem_cons, List.mem_map] at hst
    rcases hst with hst | hst | ⟨r, -, hst⟩ <;> exact Option.some.inj hst ▸ rfl
  | topology _ _ =>
    intro st hst
    rcases List.mem_cons.mp hst with hst | hst
    · exact Option.some.inj hst ▸ rfl
    · obtain ⟨e, -, hst⟩ := List.mem_map.mp hst
      exact Option.some.inj hst ▸ rfl

/-! ### What a request has done -/

variable (lib b) in
/-- A transaction with the claim of a batch and all its writes. -/
def Whole (l : List HubStatement) : Prop :=
  ∃ a stmts, Writes lib a b stmts ∧
    l.map some = some (.ingest (.claim b.batchID a.receivedAt)) :: stmts

/-- A whole transaction claims the id of its batch, and no other. -/
theorem Whole.keysOf {l : List HubStatement} (hwhole : Whole lib b l) :
    keysOf HubStatement.claimed l = [b.batchID] := by
  obtain ⟨a, stmts, hwrites, hl⟩ := hwhole
  cases l with
  | nil => exact nomatch hl
  | cons st l =>
    obtain ⟨hst, rfl⟩ := List.cons.inj hl
    obtain rfl := Option.some.inj hst
    have hplain : l.filterMap HubStatement.claimed = [] :=
      List.filterMap_eq_nil_iff.mpr fun st hst =>
        hwrites.plain st (List.mem_map.mpr ⟨st, hst, rfl⟩)
    rw [Foundations.keysOf, List.filterMap_cons, hplain]
    rfl

variable (lib) in
/-- The transaction of `onEvent`. -/
def Republished (l : List HubStatement) : Prop :=
  ∃ evt, l.map some = eventStatements lib.number [evt]

variable (lib b) in
/-- The commit of a batch was confirmed. -/
def RequestHistory.Applied (h : RequestHistory) : Prop := ∃ l ∈ h.tx.confirmed, Whole lib b l

variable (lib b) in
/-- What a request for a batch keeps. -/
structure RequestInv (h : RequestHistory) : Prop where
  /-- It tries the whole batch, and later what the bus makes of it. -/
  tried : ∀ l ∈ h.tx.tried, Whole lib b l ∨ Republished lib l ∧ h.Applied lib b
  /-- One thing follows. -/
  single : h.followUps.length ≤ 1
  /-- It follows when the batch is committed. -/
  applied : h.followUps ≠ [] → h.Applied lib b

theorem requestInv_start : RequestInv lib b .start := ⟨nofun, Nat.zero_le _, fun h => absurd rfl h⟩

theorem RequestHistory.Applied.adds {P : List HubStatement → Prop}
    {tx : TxHistory HubStatement String} (happlied : h.Applied lib b) (hadds : h.tx.Adds P tx) :
    RequestHistory.Applied lib b { h with tx := tx } := by
  obtain ⟨l, hl, hwhole⟩ := happlied
  refine ⟨l, ?_, hwhole⟩
  rcases hadds.confirmed with heq | ⟨l', -, heq⟩
  · exact heq ▸ hl
  · exact heq ▸ List.mem_cons_of_mem _ hl

theorem RequestInv.adds {P : List HubStatement → Prop} {tx : TxHistory HubStatement String}
    (hinv : RequestInv lib b h) (hadds : h.tx.Adds P tx)
    (hP : ∀ l, P l → Whole lib b l ∨ Republished lib l ∧ h.Applied lib b) :
    RequestInv lib b { h with tx := tx } := by
  have hmono : ∀ l, Whole lib b l ∨ Republished lib l ∧ h.Applied lib b →
      Whole lib b l ∨ Republished lib l ∧ RequestHistory.Applied lib b { h with tx := tx } :=
    fun l => Or.imp_right (And.imp_right fun happlied => happlied.adds hadds)
  refine ⟨fun l hl => hmono l ?_, hinv.single, fun hne => (hinv.applied hne).adds hadds⟩
  rcases hadds.tried with heq | ⟨l', hl', heq⟩
  · exact hinv.tried l (heq ▸ hl)
  · rcases List.mem_cons.mp (heq ▸ hl : l ∈ l' :: h.tx.tried) with rfl | hl
    · exact hP l hl'
    · exact hinv.tried l hl

/-- The first follow-up, of a batch that is committed. -/
theorem RequestInv.follow (hinv : RequestInv lib b h) (happlied : h.Applied lib b)
    (hnone : h.followUps = []) (f : FollowUp) :
    RequestInv lib b { h with followUps := f :: h.followUps } where
  tried := hinv.tried
  single := by rw [hnone]; exact Nat.le_refl 1
  applied _ := happlied

theorem wp_onEvent {evt : Model.Event} (hinv : RequestInv lib b h) (happlied : h.Applied lib b) :
    (onEvent lib.number evt).wp RequestHistory.Next (RequestInv lib b)
      (fun _ h' => RequestInv lib b h' ∧ h'.Applied lib b) h := by
  have hadds : ∀ {tx}, h.tx.Adds (fun l => l.map some = eventStatements lib.number [evt]) tx →
      RequestInv lib b { h with tx := tx } := fun hadds =>
    hinv.adds hadds fun l hl => .inr ⟨⟨evt, hl⟩, happlied⟩
  refine wp_seq (wp_onStore (wp_transaction (plain_eventStatements lib.number [evt])
    fun tx htx => hadds htx)) ?_
  rintro ok _ ⟨tx, rfl, htx, -⟩
  exact ⟨hadds htx, happlied.adds htx⟩

theorem wp_publishAll {events : List Model.Event} (hinv : RequestInv lib b h)
    (happlied : h.Applied lib b) :
    (publishAll lib.number events).wp RequestHistory.Next (RequestInv lib b)
      (fun _ h' => h'.Applied lib b) h := by
  induction events generalizing h with
  | nil => exact happlied
  | cons evt events ih => exact wp_seq (wp_onEvent hinv happlied) fun _ _ h' => ih h'.1 h'.2

variable (lib b) in
/-- The answer of a request: with a status below 300 its batch is committed, or its id was found. -/
def Answered (status : ℕ) (h : RequestHistory) : Prop :=
  status < 300 → h.Applied lib b ∨ b.batchID ∈ h.tx.found

theorem wp_refused {status : ℕ} (hstatus : 300 ≤ status) :
    (ret status : HubM ℕ).wp RequestHistory.Next (RequestInv lib b) (Answered lib b) .start :=
  fun hlt => absurd hlt (Nat.not_lt.mpr hstatus)

/-- **Taking a batch.** -/
theorem wp_takeBatch {fn : Bool → HubTx Bool} {next : HubM Unit}
    {stmts : List (Option HubStatement)} (hid : b.batchID ≠ "")
    (htrim : trimSpace b.batchID = b.batchID) (hfn : fn true = Foundations.execAll stmts)
    (hwrites : Writes lib a b stmts)
    (hnext : ∀ h, RequestInv lib b h → h.Applied lib b → h.followUps = [] →
      next.wp RequestHistory.Next (RequestInv lib b) (fun _ h' => h'.Applied lib b) h) :
    (takeBatch a b.batchID fn next).wp RequestHistory.Next (RequestInv lib b) (Answered lib b)
      .start := by
  have hheader : requestBatchID b.batchID = b.batchID := htrim
  have hinv : ∀ {tx}, TxHistory.start.Adds
      (fun l => l.map some = some (.ingest (.claim b.batchID a.receivedAt)) :: stmts) tx →
      RequestInv lib b ⟨tx, []⟩ := fun hadds =>
    requestInv_start.adds hadds fun l hl => .inl ⟨a, stmts, hwrites, hl⟩
  have hclaim : (HubStatement.ingest (.claim b.batchID a.receivedAt)).claimed = some b.batchID :=
    rfl
  have happly := wp_applyBatchWith (J := fun tx => RequestInv lib b ⟨tx, []⟩) hid hclaim hfn
    hwrites.plain fun tx htx => hinv htx
  rw [takeBatch, applyIngestWith, hheader, bind_assoc]
  refine wp_seq (wp_onStore happly) ?_
  rintro res _ ⟨tx, rfl, hadds, happlied, hfound⟩
  match res with
  | none => exact fun hstatus => absurd hstatus (by decide)
  | some false => exact fun _ => .inr (hfound rfl)
  | some true =>
    obtain ⟨l, hl, hwhole⟩ := happlied rfl
    have happlied : RequestHistory.Applied lib b ⟨tx, []⟩ := ⟨l, hl, a, stmts, hwrites, hwhole⟩
    simp only [pure_def, ret_bind]
    exact wp_seq (hnext _ (hinv hadds) happlied rfl) fun _ _ h' _ => .inl h'

-- from here on a batch is taken by `wp_takeBatch`
attribute [local irreducible] takeBatch

/-- The store part of `handleLogsBatch` is taking a batch. -/
theorem serveLogsBatch_cons (header : String) (e : LogEntry) (entries : List LogEntry) :
    serveLogsBatch lib a header (some (e :: entries)) =
      takeBatch a header
        (fun inTx => mapStatements .ingest (writeLogsBatch lib.rt lib.number (e :: entries) inTx))
        (followUp (.patternQueue ((e :: entries).map (LogEntry.enriched lib.rt)))) := by
  rw [serveLogsBatch, handleLogsBatch.eq_3 _ _ _ _ _ (List.cons_ne_nil e entries), applyIngest,
    takeBatch, applyIngestWith, ApplyBatch_eq, bind_assoc, mapStatements_bind,
    mapStatements_applyBatchWith, onStore_bind, bind_assoc, bind_assoc]
  refine congrArg _ (funext fun res => ?_)
  rcases res with - | - | -
  · rfl
  · rfl
  · rfl

/-- The body of a batch cannot be read, or is decoded into a slice with elements. -/
theorem read_slice {α : Type} (element : Json → Option α) (hbody : ∃ v l, b.body = .arr (v :: l)) :
    a.read (decodeSlice element b.body) = none ∨ ∃ x xs,
      a.read (decodeSlice element b.body) = some (x :: xs) ∧
        decodeSlice element b.body = some (x :: xs) := by
  obtain ⟨v, l, hbody⟩ := hbody
  rw [Arrival.read]
  split_ifs
  · cases hdecoded : decodeSlice element b.body with
    | none => exact .inl rfl
    | some xs =>
      rw [hbody, decodeSlice, List.mapM_cons] at hdecoded
      obtain ⟨x, -, hdecoded⟩ := Option.bind_eq_some_iff.mp hdecoded
      obtain ⟨xs', -, hdecoded⟩ := Option.bind_eq_some_iff.mp hdecoded
      obtain rfl : x :: xs' = xs := Option.some.inj hdecoded
      exact .inr ⟨x, xs', rfl, rfl⟩
  · exact .inl rfl

section Batches

variable (hbody : ∃ v l, b.body = .arr (v :: l)) (hid : b.batchID ≠ "")
  (htrim : trimSpace b.batchID = b.batchID)
include hbody hid htrim

theorem wp_handleMetricsBatch (hpath : b.path = "/api/v1/metrics/batch") :
    (handleMetricsBatch lib a b.batchID (a.read (decodeSlice lib.point b.body))).wp
      RequestHistory.Next (RequestInv lib b) (Answered lib b) .start := by
  rcases read_slice lib.point hbody with hread | ⟨p, points, hread, hdecoded⟩
  · rw [hread]
    exact wp_refused (by decide)
  · rw [hread, handleMetricsBatch.eq_3 _ _ _ _ (List.cons_ne_nil p points)]
    have hfn : mapStatements HubStatement.ingest
        (WriteMetrics true (p :: points ++ a.derive (p :: points))) =
          Foundations.execAll ((metricStatements (p :: points ++ a.derive (p :: points))).map
            (Option.map .ingest)) := by
      rw [WriteMetrics, if_pos rfl, insertMetricsTx_eq, mapStatements_execAll]
    refine wp_takeBatch hid htrim hfn (.metrics hpath hdecoded) ?_
    intro h hinv happlied hnone alerts h' hE
    cases hE
    have hinv' := hinv.follow happlied hnone
      (.checkResourcePressure (p :: points ++ a.derive (p :: points)))
    exact ⟨hinv', wp_publishAll hinv' happlied⟩

theorem wp_serveLogsBatch (hpath : b.path = "/api/v1/logs/batch") :
    (serveLogsBatch lib a b.batchID (a.read (decodeSlice lib.entry b.body))).wp
      RequestHistory.Next (RequestInv lib b) (Answered lib b) .start := by
  rcases read_slice lib.entry hbody with hread | ⟨e, entries, hread, hdecoded⟩
  · rw [hread]
    exact wp_refused (by decide)
  · rw [hread, serveLogsBatch_cons]
    have hfn : mapStatements HubStatement.ingest
        (writeLogsBatch lib.rt lib.number (e :: entries) true) = Foundations.execAll
          ((batchStatements lib.rt lib.number ((e :: entries).map (LogEntry.enriched lib.rt))).map
            (Option.map .ingest)) := by
      rw [writeLogsBatch_inTx, mapStatements_execAll]
    refine wp_takeBatch hid htrim hfn (.logs hpath hdecoded) ?_
    intro h hinv happlied hnone r h' hE
    cases hE
    exact ⟨hinv.follow happlied hnone _, happlied⟩

theorem wp_serveFleetBatch (hpath : b.path = "/api/v1/fleet/batch") :
    (serveFleetBatch a b.batchID (a.read (decodeSlice lib.status b.body))).wp
      RequestHistory.Next (RequestInv lib b) (Answered lib b) .start := by
  rcases read_slice lib.status hbody with hread | ⟨r, rows, hread, hdecoded⟩
  · rw [hread]
    exact wp_refused (by decide)
  · rw [hread, serveFleetBatch.eq_3 _ _ _ (List.cons_ne_nil r rows)]
    exact wp_takeBatch hid htrim rfl (.fleet hpath hdecoded) fun h _ happlied _ => happlied

theorem wp_handleTopologyBatch (hpath : b.path = "/api/v1/topology/batch") :
    (handleTopologyBatch a b.batchID (a.read (decodeSlice lib.link b.body))).wp
      RequestHistory.Next (RequestInv lib b) (Answered lib b) .start := by
  rcases read_slice lib.link hbody with hread | ⟨l, links, hread, hdecoded⟩
  · rw [hread]
    exact wp_refused (by decide)
  · rw [hread, handleTopologyBatch.eq_3 _ _ _ (List.cons_ne_nil l links)]
    exact wp_takeBatch hid htrim rfl (.topology hpath hdecoded) fun h _ happlied _ => happlied

end Batches

theorem wp_handleEventIngest (hid : b.batchID ≠ "") (htrim : trimSpace b.batchID = b.batchID)
    (hpath : b.path = "/api/v1/events") :
    (handleEventIngest lib a b.batchID (a.read (lib.event b.body))).wp
      RequestHistory.Next (RequestInv lib b) (Answered lib b) .start := by
  rw [Arrival.read]
  split_ifs
  swap
  · exact wp_refused (by decide)
  cases hdecoded : lib.event b.body with
  | none => exact wp_refused (by decide)
  | some evt =>
    rw [handleEventIngest]
    refine wp_takeBatch hid htrim rfl (.event hpath hdecoded) ?_
    intro h hinv happlied hnone r h' hE
    cases hE
    have hinv' := hinv.follow happlied hnone (.publish (a.completeEvent evt))
    exact ⟨hinv', wp_post (wp_onEvent hinv' happlied) fun _ _ h' => h'.2⟩

/-- **A request.** A request for a batch keeps `RequestInv`, and with a status below 300 its batch
is committed or its id was found. -/
theorem wp_serve (hb : b.FromClient) (hid : b.batchID ≠ "")
    (htrim : trimSpace b.batchID = b.batchID) :
    (serve lib a b).wp RequestHistory.Next (RequestInv lib b) (Answered lib b) .start := by
  rw [serve]
  cases a.gate with
  | unauthorized => exact wp_refused (by decide)
  | busy => exact wp_refused (by decide)
  | admitted =>
    simp only
    split_ifs with hmetrics hlogs hevent hfleet htopology
    · exact wp_handleMetricsBatch (hb.body (by rw [hmetrics]; decide)) hid htrim hmetrics
    · exact wp_serveLogsBatch (hb.body (by rw [hlogs]; decide)) hid htrim hlogs
    · exact wp_handleEventIngest hid htrim hevent
    · exact wp_serveFleetBatch (hb.body (by rw [hfleet]; decide)) hid htrim hfleet
    · exact wp_handleTopologyBatch (hb.body (by rw [htopology]; decide)) hid htrim htopology
    · exact wp_refused (by decide)

end Requests

end Argus
