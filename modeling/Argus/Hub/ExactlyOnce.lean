import Argus.Agent.Acknowledged
import Argus.Hub.Endpoints

/-!
# Batches are applied once

An agent that sends batches to a hub, with all that can happen on the way: requests that get lost,
arrive late or arrive twice, answers that get lost, retries and replays, restarts of both sides,
and requests for the same batch that are handled at the same time. The steps of an `Exchange` are
those of the programs `sendBatch` and `serve`, in any order.

`exactlyOnce` says what holds in every state: the writes of a batch are committed at most once, and
all of them in one transaction; one thing follows from a batch, once; and a batch that the agent
knows to be taken, or removes from its spool on that account, is committed. The invariant is in two
parts. `HubInv` follows each request by what it has learned from its session, and
`SpoolHolds` knows where the batches of the agent come from.
-/

namespace Argus

open Foundations Program SharedStore

/-! ### The agent, the hub and what is between them -/

/-- A request at the hub: it is handled, it was answered, or the hub has lost it. -/
inductive Delivery
  | serving (b : Batch) (p : HubM ℕ)
  | answered (b : Batch) (status : ℕ)
  | lost (b : Batch)

/-- An agent and a hub. -/
structure Exchange where
  /-- The bytes that the spool may hold, if the agent has one. -/
  spool : Option ℕ
  agent : AgentState
  /-- The calls of `sendBatch` that have not returned. -/
  calls : ℕ → Option (AgentM (Option PostErr))
  /-- The requests that were sent. -/
  sent : List Batch
  deliveries : ℕ → Option Delivery
  store : SharedStore HubStatement
  /-- What followed from the requests, newest first. -/
  followUps : List (ℕ × Batch × FollowUp)

namespace Exchange

/-- Nothing has happened yet. -/
def start (spool : Option ℕ) : Exchange :=
  ⟨spool, ⟨.empty, []⟩, fun _ => none, [], fun _ => none, .empty, []⟩

/-- Some request for a batch was answered with a status below 300. -/
def Took (s : Exchange) (b : Batch) : Prop :=
  ∃ d status, s.deliveries d = some (.answered b status) ∧ status < 300

/-- The steps, where the calls of `sendBatch` are for `batches`. -/
inductive Step (lib : IngestLibrary) (batches : ℕ → Batch) : Exchange → Exchange → Prop
  /-- A call begins. With a spool it holds `batchMu` to its end. -/
  | call {s : Exchange} {i k fuel : ℕ} (idle : s.calls i = none)
      (lock : s.spool.isSome → ∀ j, s.calls j = none) :
      Step lib batches s
        { s with calls := Function.update s.calls i (some (sendBatch fuel s.spool (batches k))) }
  /-- A call returns. -/
  | returns {s : Exchange} {i : ℕ} {r : Option PostErr} (done : s.calls i = some (.ret r)) :
      Step lib batches s { s with calls := Function.update s.calls i none }
  /-- The request of an attempt is sent. -/
  | send {s : Exchange} {i attempt : ℕ} {c : Ctx} {b : Batch}
      {k : Option PostErr → AgentM (Option PostErr)}
      (attempts : s.calls i = some (.call (.postOnce c attempt b) k)) :
      Step lib batches s { s with sent := b :: s.sent }
  /-- An operation of a call is answered. Files may fail. -/
  | agent {s : Exchange} {i : ℕ} {o : AgentOp} {k : o.Answer → AgentM (Option PostErr)}
      {r : o.Answer} {agent : AgentState} (asks : s.calls i = some (.call o k))
      (answer : agentEffect False s.agent o r agent) (taken : ∀ b, o.Takes b r → s.Took b) :
      Step lib batches s
        { s with agent := agent, calls := Function.update s.calls i (some (k r)) }
  /-- The agent is started again, with or without a spool, and the files of the spool are there. -/
  | restart {s : Exchange} (spool : Option ℕ) :
      Step lib batches s { s with spool := spool, calls := fun _ => none }
  /-- A request arrives, for the first time or again. -/
  | arrive {s : Exchange} {d : ℕ} {b : Batch} (a : Arrival) (sent : b ∈ s.sent)
      (new : s.deliveries d = none) :
      Step lib batches s
        { s with deliveries := Function.update s.deliveries d (some (.serving b (serve lib a b))) }
  /-- An operation on the store is answered. -/
  | store {s : Exchange} {d : ℕ} {b : Batch} {o : TxOp HubStatement}
      {k : TxOp.Answer ℕ o → HubM ℕ} {r : TxOp.Answer ℕ o} {store : SharedStore HubStatement}
      (asks : s.deliveries d = some (.serving b (.call (.store o) k)))
      (answer : s.store.Answers HubStatement.claimed d o r store) :
      Step lib batches s
        { s with
          deliveries := Function.update s.deliveries d (some (.serving b (k r)))
          store := store }
  /-- What follows from a new batch is done. -/
  | follow {s : Exchange} {d : ℕ} {b : Batch} {f : FollowUp} {k : f.Answer → HubM ℕ}
      (r : f.Answer) (asks : s.deliveries d = some (.serving b (.call (.followUp f) k))) :
      Step lib batches s
        { s with
          deliveries := Function.update s.deliveries d (some (.serving b (k r)))
          followUps := (d, b, f) :: s.followUps }
  /-- A request is answered. -/
  | answer {s : Exchange} {d status : ℕ} {b : Batch}
      (done : s.deliveries d = some (.serving b (.ret status))) :
      Step lib batches s
        { s with deliveries := Function.update s.deliveries d (some (.answered b status)) }
  /-- The database loses a session. -/
  | disconnect {s : Exchange} (d : ℕ) :
      Step lib batches s { s with store := s.store.setRunning d none }
  /-- The hub loses a request, at a crash or when the client is gone. -/
  | lose {s : Exchange} {d : ℕ} {b : Batch} {p : HubM ℕ}
      (serving : s.deliveries d = some (.serving b p)) :
      Step lib batches s
        { s with
          deliveries := Function.update s.deliveries d (some (.lost b))
          store := s.store.setRunning d none }

/-- The committed transactions that hold the claim of an id. -/
def applications (s : Exchange) (batchID : String) : List (ℕ × List HubStatement) :=
  s.store.committed.filter fun t => batchID ∈ keysOf HubStatement.claimed t.2

/-- What followed from the requests for a batch. -/
def followUpsOf (s : Exchange) (batchID : String) : List (ℕ × Batch × FollowUp) :=
  s.followUps.filter fun e => e.2.1.batchID = batchID

end Exchange

/-- The batches that `sendBatch` is called with: made by the methods of `Client`, with ids of
`uuid.NewString`. -/
structure FreshBatches (batches : ℕ → Batch) : Prop where
  fromClient : ∀ k, (batches k).FromClient
  nonempty : ∀ k, (batches k).batchID ≠ ""
  trimmed : ∀ k, trimSpace (batches k).batchID = (batches k).batchID
  distinct : ∀ j k, (batches j).batchID = (batches k).batchID → j = k

/-! ### The hub -/

section Hub

/-- What is known of a request that is handled, by its history. -/
structure Serving (lib : IngestLibrary) (store : SharedStore HubStatement)
    (followUps : List (ℕ × Batch × FollowUp)) (d : ℕ) (b : Batch) (p : HubM ℕ)
    (h : RequestHistory) : Prop where
  inv : RequestInv lib b h
  coupled : Coupled HubStatement.claimed d store h.tx
  safe : p.wp RequestHistory.Next (RequestInv lib b) (Answered lib b) h
  quiet : h.followUps = [] → ∀ e ∈ followUps, e.1 ≠ d

/-- What is known of a request. -/
def DeliveryInv (lib : IngestLibrary) (Known : Batch → Prop) (store : SharedStore HubStatement)
    (followUps : List (ℕ × Batch × FollowUp)) (d : ℕ) : Option Delivery → Prop
  | none => Coupled (K := String) HubStatement.claimed d store .start ∧ ∀ e ∈ followUps, e.1 ≠ d
  | some (.serving b p) => Known b ∧ ∃ h, Serving lib store followUps d b p h
  | some (.answered b status) => status < 300 → b.batchID ∈ store.keys HubStatement.claimed
  | some (.lost _) => True

/-- What is known of the hub. -/
structure HubInv (lib : IngestLibrary) (Known : Batch → Prop) (store : SharedStore HubStatement)
    (deliveries : ℕ → Option Delivery) (followUps : List (ℕ × Batch × FollowUp)) : Prop where
  exclusive : Exclusive HubStatement.claimed store
  /-- Committed is a whole batch, or what the bus makes of one that is committed. -/
  committed : ∀ t ∈ store.committed, (∃ b, Known b ∧ Whole lib b t.2) ∨
    Republished lib t.2 ∧ ∃ b l, Known b ∧ Whole lib b l ∧ (t.1, l) ∈ store.committed
  /-- What follows from a batch follows from the request that committed it. -/
  followed : ∀ e ∈ followUps, ∃ l, Whole lib e.2.1 l ∧ (e.1, l) ∈ store.committed
  single : (followUps.map Prod.fst).Nodup
  deliveries : ∀ d, DeliveryInv lib Known store followUps d (deliveries d)

variable {lib : IngestLibrary} {Known : Batch → Prop} {store store' : SharedStore HubStatement}
  {deliveries : ℕ → Option Delivery} {followUps followUps' : List (ℕ × Batch × FollowUp)}
  {d d' : ℕ} {b : Batch}

/-- A request whose commit was confirmed has committed its batch. -/
theorem Serving.mem_committed {p : HubM ℕ} {h : RequestHistory}
    (hserving : Serving lib store followUps d b p h) (happlied : h.Applied lib b) :
    ∃ l, Whole lib b l ∧ (d, l) ∈ store.committed := by
  obtain ⟨l, hl, hwhole⟩ := happlied
  exact ⟨l, hwhole, hserving.coupled.confirmed l hl⟩

theorem mem_keys_of_whole {l : List HubStatement} (hwhole : Whole lib b l)
    (hl : (d, l) ∈ store.committed) : b.batchID ∈ store.keys HubStatement.claimed :=
  mem_keys.mpr ⟨_, hl, hwhole.keysOf ▸ List.mem_singleton_self _⟩

/-- What is known of a request stays so when another one goes on. -/
theorem DeliveryInv.beside {x : Option Delivery}
    (hinv : DeliveryInv lib Known store followUps d' x)
    (hcoupled : ∀ h : TxHistory HubStatement String, Coupled HubStatement.claimed d' store h →
      Coupled HubStatement.claimed d' store' h)
    (hkeys : ∀ k ∈ store.keys HubStatement.claimed, k ∈ store'.keys HubStatement.claimed)
    (hfollow : ∀ e ∈ followUps', e ∈ followUps ∨ e.1 ≠ d') :
    DeliveryInv lib Known store' followUps' d' x := by
  have hquiet : (∀ e ∈ followUps, e.1 ≠ d') → ∀ e ∈ followUps', e.1 ≠ d' := fun hquiet e he =>
    (hfollow e he).elim (hquiet e) id
  match x with
  | none => exact ⟨hcoupled _ hinv.1, hquiet hinv.2⟩
  | some (.serving b p) =>
    obtain ⟨hb, h, hserving⟩ := hinv
    exact ⟨hb, h, hserving.inv, hcoupled _ hserving.coupled, hserving.safe, fun hnone =>
      hquiet (hserving.quiet hnone)⟩
  | some (.answered b status) => exact fun hstatus => hkeys _ (hinv hstatus)
  | some (.lost _) => trivial

/-- The requests after a step of one of them. -/
theorem deliveryInv_update {x : Option Delivery} (hself : DeliveryInv lib Known store followUps d x)
    (hothers : ∀ d', d' ≠ d → DeliveryInv lib Known store followUps d' (deliveries d')) :
    ∀ d', DeliveryInv lib Known store followUps d' (Function.update deliveries d x d') := by
  intro d'
  by_cases hd : d' = d
  · rw [hd, Function.update_self]
    exact hself
  · rw [Function.update_of_ne hd]
    exact hothers d' hd

/-- A request arrives. -/
theorem HubInv.arrive (hinv : HubInv lib Known store deliveries followUps) (hb : Known b)
    (hclient : b.FromClient) (hid : b.batchID ≠ "") (htrim : trimSpace b.batchID = b.batchID)
    (hnew : deliveries d = none) (a : Arrival) : HubInv lib Known store
      (Function.update deliveries d (some (.serving b (serve lib a b)))) followUps := by
  obtain ⟨hcoupled, hquiet⟩ := (hnew ▸ hinv.deliveries d :)
  exact { hinv with
    deliveries := deliveryInv_update
      ⟨hb, .start, requestInv_start, hcoupled, wp_serve hclient hid htrim, fun _ => hquiet⟩
      fun d' _ => hinv.deliveries d' }

/-- An operation of a request on the store is answered. -/
theorem HubInv.execute (hinv : HubInv lib Known store deliveries followUps) {o : TxOp HubStatement}
    {k : TxOp.Answer ℕ o → HubM ℕ} {r : TxOp.Answer ℕ o}
    (hasks : deliveries d = some (.serving b (.call (.store o) k)))
    (hanswer : store.Answers HubStatement.claimed d o r store') : HubInv lib Known store'
      (Function.update deliveries d (some (.serving b (k r)))) followUps := by
  obtain ⟨hb, h, hserving⟩ := (hasks ▸ hinv.deliveries d :)
  obtain ⟨tx, hnext, hcoupled⟩ := hserving.coupled.own hanswer
  have hsafe := hserving.safe r _ (.store hnext)
  have hself : Serving lib store' followUps d b (k r) { h with tx := tx } :=
    ⟨hsafe.1, hcoupled, hsafe.2, hserving.quiet⟩
  have hprefix := hanswer.committed_prefix
  refine ⟨hinv.exclusive.answers hanswer, fun t ht => ?_, fun e he => ?_, hinv.single,
    deliveryInv_update ⟨hb, _, hself⟩ fun d' hd => ?_⟩
  · rcases hanswer.mem_committed ht with hold | hd
    · refine (hinv.committed t hold).imp_right fun ⟨hrepublished, b', l, hb', hwhole, hl⟩ => ?_
      exact ⟨hrepublished, b', l, hb', hwhole, hprefix.subset hl⟩
    · -- a transaction of the request itself, which it tried to commit
      obtain ⟨d', l⟩ := t
      obtain rfl : d' = d := hd
      refine (hself.inv.tried l (hcoupled.tried l ht)).imp (fun hwhole => ⟨b, hb, hwhole⟩) ?_
      rintro ⟨hrepublished, happlied⟩
      obtain ⟨l', hwhole, hl'⟩ := hself.mem_committed happlied
      exact ⟨hrepublished, b, l', hb, hwhole, hl'⟩
  · obtain ⟨l, hwhole, hl⟩ := hinv.followed e he
    exact ⟨l, hwhole, hprefix.subset hl⟩
  · exact (hinv.deliveries d').beside (fun _ hcoupled => hcoupled.other hd hanswer)
      (fun _ => hanswer.mem_keys_of_mem) fun _ => .inl

/-- What follows from a new batch is done. -/
theorem HubInv.follow (hinv : HubInv lib Known store deliveries followUps) {f : FollowUp}
    {k : f.Answer → HubM ℕ} {r : f.Answer}
    (hasks : deliveries d = some (.serving b (.call (.followUp f) k))) : HubInv lib Known store
      (Function.update deliveries d (some (.serving b (k r)))) ((d, b, f) :: followUps) := by
  obtain ⟨hb, h, hserving⟩ := (hasks ▸ hinv.deliveries d :)
  obtain ⟨hinv', hsafe⟩ := hserving.safe r _ .followUp
  have hfirst : h.followUps = [] := List.length_eq_zero_iff.mp (Nat.le_zero.mp
    (Nat.le_of_succ_le_succ hinv'.single))
  have hquiet := hserving.quiet hfirst
  obtain ⟨l, hwhole, hl⟩ := hserving.mem_committed (hinv'.applied (List.cons_ne_nil _ _))
  refine ⟨hinv.exclusive, hinv.committed, fun e he => ?_, ?_, deliveryInv_update
    ⟨hb, _, hinv', hserving.coupled, hsafe, fun hnil => absurd hnil (List.cons_ne_nil _ _)⟩
      fun d' hd => ?_⟩
  · rcases List.mem_cons.mp he with rfl | he
    · exact ⟨l, hwhole, hl⟩
    · exact hinv.followed e he
  · refine List.nodup_cons.mpr ⟨fun hmem => ?_, hinv.single⟩
    obtain ⟨e, he, hed⟩ := List.mem_map.mp hmem
    exact hquiet e he hed
  · refine (hinv.deliveries d').beside (fun _ => id) (fun _ => id) fun e he => ?_
    rcases List.mem_cons.mp he with rfl | he
    · exact .inr hd.symm
    · exact .inl he

/-- A request is answered. -/
theorem HubInv.answer (hinv : HubInv lib Known store deliveries followUps) {status : ℕ}
    (hdone : deliveries d = some (.serving b (.ret status))) : HubInv lib Known store
      (Function.update deliveries d (some (.answered b status))) followUps := by
  obtain ⟨hb, h, hserving⟩ := (hdone ▸ hinv.deliveries d :)
  refine { hinv with
    deliveries := deliveryInv_update (fun hstatus => ?_) fun d' _ => hinv.deliveries d' }
  rcases hserving.safe hstatus with happlied | hfound
  · obtain ⟨l, hwhole, hl⟩ := hserving.mem_committed happlied
    exact mem_keys_of_whole hwhole hl
  · exact hserving.coupled.found _ hfound

/-- The database loses a session. -/
theorem HubInv.disconnect (hinv : HubInv lib Known store deliveries followUps) (d : ℕ) :
    HubInv lib Known (store.setRunning d none) deliveries followUps where
  exclusive := hinv.exclusive.ended d
  committed := hinv.committed
  followed := hinv.followed
  single := hinv.single
  deliveries d' := (hinv.deliveries d').beside (fun _ hcoupled => hcoupled.lost d) (fun _ => id)
    fun _ => .inl

/-- The hub loses a request. -/
theorem HubInv.lose (hinv : HubInv lib Known store deliveries followUps) (d : ℕ) (b : Batch) :
    HubInv lib Known (store.setRunning d none) (Function.update deliveries d (some (.lost b)))
      followUps :=
  { hinv.disconnect d with
    deliveries := deliveryInv_update trivial fun d' _ => (hinv.disconnect d).deliveries d' }

end Hub

/-! ### The agent -/

section Agent

variable {lib : IngestLibrary} {batches : ℕ → Batch} {s s' : Exchange}

/-- A batch of the agent. -/
def IsBatch (batches : ℕ → Batch) (b : Batch) : Prop := ∃ k, batches k = b

/-- What is known of the calls: without a spool they post batches; with one there is one call at a
time, and it keeps the spool. -/
def CallInv (batches : ℕ → Batch) (s : Exchange) (i : ℕ) (p : AgentM (Option PostErr)) : Prop :=
  match s.spool with
  | none => p.Calls (AgentOp.Posts (IsBatch batches))
  | some _ => (∀ j, j ≠ i → s.calls j = none) ∧
    p.wp (agentEffect False) (SpoolHolds (IsBatch batches))
      (fun _ agent => SpoolHolds (IsBatch batches) agent) s.agent

/-- The invariant. -/
structure ExchangeInv (lib : IngestLibrary) (batches : ℕ → Batch) (s : Exchange) : Prop where
  hub : HubInv lib (IsBatch batches) s.store s.deliveries s.followUps
  agent : SpoolHolds (IsBatch batches) s.agent
  calls : ∀ i p, s.calls i = some p → CallInv batches s i p
  sent : ∀ b ∈ s.sent, IsBatch batches b
  /-- What the agent knows to be taken is committed. -/
  taken : ∀ c b, .answered c b none ∈ s.agent.log → b.batchID ∈ s.store.keys HubStatement.claimed

theorem exchangeInv_start (spool : Option ℕ) : ExchangeInv lib batches (.start spool) where
  hub := ⟨exclusive_empty, nofun, nofun, List.nodup_nil, fun _ => ⟨coupled_start rfl nofun, nofun⟩⟩
  agent := ⟨nofun, nofun, always_nil⟩
  calls := nofun
  sent := nofun
  taken := nofun

/-- A call that asks for an operation, and what is known of it when it is answered. -/
theorem CallInv.step {i : ℕ} {o : AgentOp} {k : o.Answer → AgentM (Option PostErr)}
    (h : CallInv batches s i (.call o k)) (hagent : SpoolHolds (IsBatch batches) s.agent)
    {r : o.Answer} {agent : AgentState} (hE : agentEffect False s.agent o r agent) :
    SpoolHolds (IsBatch batches) agent ∧
      CallInv batches { s with agent := agent, calls := Function.update s.calls i (some (k r)) } i
        (k r) := by
  unfold CallInv at h ⊢
  dsimp only
  cases hspool : s.spool with
  | none =>
    rw [hspool] at h
    exact ⟨(hagent.posts h.1 hE).1, h.2 r⟩
  | some maxBytes =>
    rw [hspool] at h
    obtain ⟨hagent', hsafe⟩ := h.2 r agent hE
    refine ⟨hagent', fun j hj => ?_, hsafe⟩
    rw [Function.update_of_ne hj]
    exact h.1 j hj

/-- What an attempt posts is a batch of the agent. -/
theorem CallInv.isBatch {i attempt : ℕ} {c : Ctx} {b : Batch}
    {k : Option PostErr → AgentM (Option PostErr)}
    (h : CallInv batches s i (.call (.postOnce c attempt b) k))
    (hagent : SpoolHolds (IsBatch batches) s.agent) : IsBatch batches b := by
  -- the attempt may fail, and that would be in the log
  have hE : agentEffect False s.agent (.postOnce c attempt b) (some .transport) _ :=
    ⟨false, nofun, nofun, fun _ => nofun, rfl⟩
  refine (h.step hagent hE).1.answered c b (some .transport) ?_
  exact log_recordIf_interrupted (List.mem_append_right _ List.mem_cons_self)

/-- With a spool, a call that runs is the only one. -/
theorem CallInv.alone {i j : ℕ} {p : AgentM (Option PostErr)} (h : CallInv batches s i p)
    (hj : j ≠ i) (hspool : s.spool.isSome = true) : s.calls j = none := by
  rw [CallInv] at h
  cases hs : s.spool with
  | none => rw [hs] at hspool; exact nomatch hspool
  | some maxBytes =>
    rw [hs] at h
    exact h.1 j hj

/-- The calls after a step of one of them, which is the only one if there is a spool. -/
theorem callInv_update (h : ExchangeInv lib batches s) {i : ℕ}
    {x : Option (AgentM (Option PostErr))} (hspool : s'.spool = s.spool)
    (hcalls : s'.calls = Function.update s.calls i x)
    (halone : s.spool.isSome → ∀ j, j ≠ i → s.calls j = none)
    (hself : ∀ p, x = some p → CallInv batches s' i p) :
    ∀ j p, s'.calls j = some p → CallInv batches s' j p := by
  intro j p hp
  rw [hcalls] at hp
  by_cases hj : j = i
  · rw [hj, Function.update_self] at hp
    exact hj ▸ hself p hp
  · rw [Function.update_of_ne hj] at hp
    have hold := h.calls j p hp
    rw [CallInv] at hold ⊢
    rw [hspool]
    cases hs : s.spool with
    | none =>
      rw [hs] at hold
      exact hold
    | some maxBytes =>
      rw [halone (by rw [hs]; rfl) j hj] at hp
      exact nomatch hp

/-- **Step lemma.** -/
theorem ExchangeInv.step (hfresh : FreshBatches batches) (h : ExchangeInv lib batches s)
    (hstep : Exchange.Step lib batches s s') : ExchangeInv lib batches s' := by
  cases hstep with
  | @call i k fuel hidle hlock =>
    refine { h with calls := callInv_update h rfl rfl (fun hs j _ => hlock hs j) ?_ }
    rintro p ⟨⟩
    rw [CallInv]
    cases hs : s.spool with
    | none => exact calls_sendBatch_none ⟨k, rfl⟩
    | some maxBytes =>
      refine ⟨fun j hj => ?_, wp_sendBatch_holds h.agent ⟨k, rfl⟩⟩
      exact (Function.update_of_ne hj ..).trans (hlock (by rw [hs]; rfl) j)
  | @returns i r hdone =>
    exact { h with
      calls := callInv_update h rfl rfl
        (fun hs j hj => (h.calls i _ hdone).alone hj hs) fun p hp => nomatch hp }
  | @send i attempt c b k hattempts =>
    refine { h with sent := fun b' hb' => ?_ }
    rcases List.mem_cons.mp hb' with rfl | hb'
    · exact (h.calls i _ hattempts).isBatch h.agent
    · exact h.sent b' hb'
  | @agent i o k r agent hasks hanswer htaken =>
    obtain ⟨hagent, hcall⟩ := (h.calls i _ hasks).step h.agent hanswer
    refine { h with
      agent := hagent
      calls := callInv_update h rfl rfl (fun hs j hj => (h.calls i _ hasks).alone hj hs) ?_
      taken := fun c b hmem => ?_ }
    · rintro p ⟨⟩
      exact hcall
    · rcases mem_log_of_effect hanswer hmem with hmem | htakes
      · exact h.taken c b hmem
      · obtain ⟨d, status, hd, hstatus⟩ := htaken b htakes
        exact (hd ▸ h.hub.deliveries d :) hstatus
  | restart spool => exact { h with calls := nofun }
  | @arrive d b a hsent hnew =>
    obtain ⟨k, rfl⟩ := h.sent b hsent
    exact { h with
      hub := h.hub.arrive ⟨k, rfl⟩ (hfresh.fromClient k) (hfresh.nonempty k) (hfresh.trimmed k)
        hnew a }
  | store hasks hanswer => exact { h with
      hub := h.hub.execute hasks hanswer
      taken := fun c b hmem => hanswer.mem_keys_of_mem (h.taken c b hmem) }
  | follow r hasks => exact { h with hub := h.hub.follow hasks }
  | answer hdone => exact { h with hub := h.hub.answer hdone }
  | disconnect d => exact { h with hub := h.hub.disconnect d }
  | lose hserving => exact { h with hub := h.hub.lose _ _ }

/-- **Run lemma.** -/
theorem exchangeInv_of_run (hfresh : FreshBatches batches) {spool : Option ℕ}
    (hrun : Relation.ReflTransGen (Exchange.Step lib batches) (.start spool) s) :
    ExchangeInv lib batches s := by
  induction hrun with
  | refl => exact exchangeInv_start spool
  | tail _ hstep ih => exact ih.step hfresh hstep

/-! ### Once -/

/-- What holds of the batches in a state. -/
structure ExactlyOnce (lib : IngestLibrary) (batches : ℕ → Batch) (s : Exchange) : Prop where
  /-- The writes of a batch are committed at most once. -/
  once : ∀ k, (s.applications (batches k).batchID).length ≤ 1
  /-- They are committed together. -/
  whole : ∀ k, ∀ t ∈ s.applications (batches k).batchID, Whole lib (batches k) t.2
  /-- Nothing else is committed but an event that the bus handed on, by the request that committed
  its batch. -/
  rest : ∀ t ∈ s.store.committed, (∃ k, Whole lib (batches k) t.2) ∨
    Republished lib t.2 ∧ ∃ k l, Whole lib (batches k) l ∧ (t.1, l) ∈ s.store.committed
  /-- One thing follows from a batch, once. -/
  followed : ∀ k, (s.followUpsOf (batches k).batchID).length ≤ 1
  /-- A batch that the agent knows to be taken is committed. -/
  acknowledged : ∀ k c, .answered c (batches k) none ∈ s.agent.log →
    (s.applications (batches k).batchID).length = 1
  /-- So is one that it removes from the spool when it learns that a batch was taken. -/
  removed : ∀ k pre c b post,
    s.agent.log = pre ++ .answered c b none :: .removed (batches k).batchID :: post →
      (s.applications (batches k).batchID).length = 1

/-- What the bus makes of an event claims no id. -/
theorem Republished.keysOf {l : List HubStatement} (h : Republished lib l) :
    keysOf HubStatement.claimed l = [] := by
  obtain ⟨evt, hl⟩ := h
  refine List.filterMap_eq_nil_iff.mpr fun st hst => ?_
  exact plain_eventStatements lib.number [evt] st (hl ▸ List.mem_map_of_mem hst)

/-- A transaction with the claim of a batch is its whole transaction. -/
theorem ExchangeInv.whole (hfresh : FreshBatches batches) (h : ExchangeInv lib batches s) {k : ℕ}
    {t : ℕ × List HubStatement} (ht : t ∈ s.applications (batches k).batchID) :
    Whole lib (batches k) t.2 := by
  obtain ⟨ht, hid⟩ := List.mem_filter.mp ht
  replace hid := of_decide_eq_true hid
  rcases h.hub.committed t ht with ⟨_, ⟨j, rfl⟩, hwhole⟩ | ⟨hrepublished, -⟩
  · rw [hwhole.keysOf, List.mem_singleton] at hid
    exact hfresh.distinct k j hid ▸ hwhole
  · rw [hrepublished.keysOf] at hid
    exact absurd hid List.not_mem_nil

/-- An id that is there was claimed by one transaction. -/
theorem ExchangeInv.length_eq_one (h : ExchangeInv lib batches s) {batchID : String}
    (hid : batchID ∈ s.store.keys HubStatement.claimed) :
    (s.applications batchID).length = 1 := by
  obtain ⟨t, ht, hmem⟩ := mem_keys.mp hid
  have happlied : t ∈ s.applications batchID := List.mem_filter.mpr ⟨ht, decide_eq_true hmem⟩
  exact Nat.le_antisymm (h.hub.exclusive.length_le_one batchID) (List.length_pos_of_mem happlied)

/-- What follows from a batch follows from one request, and once. -/
theorem ExchangeInv.followed (h : ExchangeInv lib batches s) (batchID : String) :
    (s.followUpsOf batchID).length ≤ 1 := by
  have hsame : ∀ e ∈ s.followUpsOf batchID, ∀ e' ∈ s.followUpsOf batchID, e.1 = e'.1 := by
    intro e he e' he'
    obtain ⟨he, hid⟩ := List.mem_filter.mp he
    obtain ⟨he', hid'⟩ := List.mem_filter.mp he'
    obtain ⟨l, hwhole, hl⟩ := h.hub.followed e he
    obtain ⟨l', hwhole', hl'⟩ := h.hub.followed e' he'
    have hk : batchID ∈ keysOf HubStatement.claimed l := by
      rw [hwhole.keysOf, List.mem_singleton]
      exact (of_decide_eq_true hid).symm
    have hk' : batchID ∈ keysOf HubStatement.claimed l' := by
      rw [hwhole'.keysOf, List.mem_singleton]
      exact (of_decide_eq_true hid').symm
    exact (Prod.mk.inj (h.hub.exclusive.eq_of_mem hl hl' hk hk')).1
  have hnodup : ((s.followUpsOf batchID).map Prod.fst).Nodup :=
    h.hub.single.sublist (List.filter_sublist.map _)
  match hl : s.followUpsOf batchID with
  | [] => exact Nat.zero_le _
  | [e] => exact Nat.le_refl 1
  | e :: e' :: rest =>
    rw [hl] at hsame hnodup
    have heq := hsame e List.mem_cons_self e' (List.mem_cons_of_mem _ List.mem_cons_self)
    exact absurd (heq ▸ List.mem_cons_self) (List.nodup_cons.mp hnodup).1

/-- **Batches are applied once.** In every run, whatever is lost or comes twice, the writes of a
batch are committed at most once and together, one thing follows from it at most once, and when the
agent knows it to be taken or removes it from the spool for that, it is committed. -/
theorem exactlyOnce (hfresh : FreshBatches batches) {spool : Option ℕ}
    (hrun : Relation.ReflTransGen (Exchange.Step lib batches) (.start spool) s) :
    ExactlyOnce lib batches s := by
  have h := exchangeInv_of_run hfresh hrun
  constructor
  case once => exact fun k => h.hub.exclusive.length_le_one _
  case whole => exact fun k t ht => h.whole hfresh ht
  case rest =>
    intro t ht
    rcases h.hub.committed t ht with ⟨_, ⟨k, rfl⟩, hwhole⟩ | ⟨hrest, _, l, ⟨k, rfl⟩, hwhole, hl⟩
    · exact .inl ⟨k, hwhole⟩
    · exact .inr ⟨hrest, k, l, hwhole, hl⟩
  case followed => exact fun k => h.followed _
  case acknowledged => exact fun k c htaken => h.length_eq_one (h.taken c _ htaken)
  case removed =>
    intro k pre c b post hlog
    have hid : (batches k).batchID = b.batchID := by
      refine h.agent.removed (pre ++ [.answered c b none]) _ post ?_ _ c b rfl ?_
      · rw [hlog, List.append_assoc, List.singleton_append]
      · exact List.getLast?_concat
    rw [hid]
    refine h.length_eq_one (h.taken c b ?_)
    rw [hlog]
    exact List.mem_append_right _ List.mem_cons_self

end Agent

/-! ### A lost answer -/

/-- An id without spaces at its ends. -/
theorem trimSpace_ofList {a z : Char} (ha : isSpace a = false) (hz : isSpace z = false)
    (l : List Char) :
    trimSpace (String.ofList (a :: (l ++ [z]))) = String.ofList (a :: (l ++ [z])) := by
  have hfront : (a :: (l ++ [z])).dropWhile isSpace = a :: (l ++ [z]) :=
    List.dropWhile_cons_of_neg (by rw [ha]; exact Bool.false_ne_true)
  have hback : (a :: (l ++ [z])).reverse.dropWhile isSpace = (a :: (l ++ [z])).reverse := by
    rw [List.reverse_cons, List.reverse_append, List.reverse_singleton, List.singleton_append,
      List.cons_append]
    exact List.dropWhile_cons_of_neg (by rw [hz]; exact Bool.false_ne_true)
  rw [trimSpace, String.toList_ofList, hfront, hback, List.reverse_reverse]

/-- The batches of an agent that reports its only container again and again. -/
def fleetBatches (k : ℕ) : Batch where
  path := "/api/v1/fleet/batch"
  batchID := String.ofList ('b' :: (Nat.toDigits 10 k ++ ['f']))
  body := .arr [.obj [("container", .str "api"), ("state", .str "running")]]

theorem freshBatches_fleet : FreshBatches fleetBatches where
  fromClient _ := ⟨by simp [fleetBatches], fun _ => ⟨_, _, rfl⟩⟩
  nonempty k h := by
    have := congrArg String.toList h
    rw [fleetBatches, String.toList_ofList] at this
    exact nomatch this
  trimmed k := trimSpace_ofList (by decide) (by decide) _
  distinct j k h := by
    have := congrArg String.toList h
    simp only [fleetBatches, String.toList_ofList, List.cons.injEq, true_and,
      List.append_cancel_right_eq] at this
    rw [← Nat.ofDigitChars_ten_toDigits (n := j), this, Nat.ofDigitChars_ten_toDigits]

/-- The libraries, as far as the batches of `fleetBatches` need them. -/
def fleetLibrary : IngestLibrary where
  rt := asciiRuntime
  number _ := Number.ofDigit ⟨0, Nat.succ_pos 9⟩
  point _ := none
  entry _ := none
  event _ := none
  status v := Decoder.struct
    [("container", Decoder.field FleetStatus.container (fun r x => { r with container := x })
      Decoder.string),
    ("state", Decoder.field FleetStatus.state (fun r x => { r with state := x }) Decoder.string)]
    v ⟨"", "", "", "", "", 0, 0, false, "", "", ⟨0⟩⟩
  link _ := none

/-- A request that is let in, and whose body is read. -/
def admittedArrival : Arrival where
  gate := .admitted
  complete := true
  now := ⟨63844891260000000000⟩
  receivedAt := ⟨63844891260000000000⟩
  newID := ""
  derive points :=
    ((points.foldl addSample ∅).values.filter fun em : MemorySnap => Extended.positive em.lim).map
      MemorySnap.point
  derived _ := List.Perm.refl _

section Runs

variable {lib : IngestLibrary} {batches : ℕ → Batch} {spool : Option ℕ} {agent agent' : AgentState}
  {calls : ℕ → Option (AgentM (Option PostErr))} {sent : List Batch}
  {deliveries : ℕ → Option Delivery} {store store' : SharedStore HubStatement}
  {followUps : List (ℕ × Batch × FollowUp)} {s : Exchange}

/-- A run in which a request goes on. -/
theorem run_store {d : ℕ} {b : Batch} {o : TxOp HubStatement} {k : TxOp.Answer ℕ o → HubM ℕ}
    {r : TxOp.Answer ℕ o}
    (hrun : Relation.ReflTransGen (Exchange.Step lib batches) s ⟨spool, agent, calls, sent,
      Function.update deliveries d (some (.serving b (.call (.store o) k))), store, followUps⟩)
    (hanswer : store.Answers HubStatement.claimed d o r store') :
    Relation.ReflTransGen (Exchange.Step lib batches) s ⟨spool, agent, calls, sent,
      Function.update deliveries d (some (.serving b (k r))), store', followUps⟩ := by
  have hstep := hrun.tail (.store (Function.update_self ..) hanswer)
  rwa [Function.update_idem] at hstep

/-- A run in which a call goes on. -/
theorem run_agent {i : ℕ} {o : AgentOp} {k : o.Answer → AgentM (Option PostErr)} {r : o.Answer}
    (hrun : Relation.ReflTransGen (Exchange.Step lib batches) s ⟨spool, agent,
      Function.update calls i (some (.call o k)), sent, deliveries, store, followUps⟩)
    (hanswer : agentEffect False agent o r agent')
    (htaken : ∀ b, o.Takes b r → ∃ d status,
      deliveries d = some (.answered b status) ∧ status < 300) :
    Relation.ReflTransGen (Exchange.Step lib batches) s ⟨spool, agent',
      Function.update calls i (some (k r)), sent, deliveries, store, followUps⟩ := by
  have hstep := hrun.tail (.agent (Function.update_self ..) hanswer htaken)
  rwa [Function.update_idem] at hstep

end Runs

section Fleet

variable {spool : Option ℕ} {agent : AgentState} {calls : ℕ → Option (AgentM (Option PostErr))}
  {sent : List Batch} {deliveries : ℕ → Option Delivery} {store : SharedStore HubStatement}
  {followUps : List (ℕ × Batch × FollowUp)} {s : Exchange} {d k : ℕ}

/-- What the body of `fleetBatches` is decoded into. -/
def fleetRow : FleetStatus := ⟨"api", "", "", "running", "", 0, 0, false, "", "", ⟨0⟩⟩

theorem serve_fleet (k : ℕ) : serve fleetLibrary admittedArrival (fleetBatches k) =
    takeBatch admittedArrival (fleetBatches k).batchID
      (fun inTx => UpsertFleetStatus inTx [fleetRow]) (pure ()) := by
  have hread : admittedArrival.read (decodeSlice fleetLibrary.status (fleetBatches k).body) =
      some [fleetRow] := by
    change admittedArrival.read (decodeSlice fleetLibrary.status
      (.arr [.obj [("container", .str "api"), ("state", .str "running")]])) = _
    decide
  rw [serve, hread]
  simp [admittedArrival, fleetBatches, serveFleetBatch]

theorem requestBatchID_fleet (k : ℕ) :
    requestBatchID (fleetBatches k).batchID = (fleetBatches k).batchID :=
  freshBatches_fleet.trimmed k

/-- The first request for a batch commits it. -/
theorem run_taken (hrun : Relation.ReflTransGen (Exchange.Step fleetLibrary fleetBatches) s
      ⟨spool, agent, calls, sent, Function.update deliveries d (some
        (.serving (fleetBatches k) (serve fleetLibrary admittedArrival (fleetBatches k)))),
        .empty, followUps⟩) :
    ∃ store : SharedStore HubStatement,
      (fleetBatches k).batchID ∈ store.keys HubStatement.claimed ∧
      Relation.ReflTransGen (Exchange.Step fleetLibrary fleetBatches) s ⟨spool, agent, calls, sent,
        Function.update deliveries d (some (.answered (fleetBatches k) 202)), store,
        followUps⟩ := by
  rw [serve_fleet, takeBatch, applyIngestWith, requestBatchID_fleet, applyBatchWith,
    if_neg (freshBatches_fleet.nonempty k)] at hrun
  have h₁ := run_store hrun .begun
  have hclaim {now : Time} : (SharedStore.setRunning .empty d (some [])).Answers
      HubStatement.claimed d (.exec (.ingest (.claim (fleetBatches k).batchID now))) (some 1)
      (.setRunning (.setRunning .empty d (some [])) d
        (some [.ingest (.claim (fleetBatches k).batchID now)])) := by
    refine .inserted (setRunning_self _) rfl List.not_mem_nil fun d' l hl => ?_
    by_cases hd : d' = d
    · obtain rfl : [] = l := by
        rw [hd, setRunning_self] at hl
        exact Option.some.inj hl
      exact List.not_mem_nil
    · cases (setRunning_ne hd _).symm.trans hl
  have h₂ := run_store h₁ hclaim
  have h₃ := run_store h₂ (.ran (n := 0) (setRunning_self _) rfl)
  have h₄ := run_store h₃ (.ran (n := 0) (setRunning_self _) rfl)
  have h₅ := run_store h₄ (.ran (n := 1) (setRunning_self _) rfl)
  have h₆ := run_store h₅ (.committed (setRunning_self _))
  have h₇ := h₆.tail (.answer (Function.update_self ..))
  rw [Function.update_idem] at h₇
  refine ⟨_, ?_, h₇⟩
  rw [commit_keys]
  exact List.mem_append_right _ List.mem_cons_self

/-- A later request finds its id, and is acknowledged. -/
theorem run_repeated (hid : (fleetBatches k).batchID ∈ store.keys HubStatement.claimed)
    (hrun : Relation.ReflTransGen (Exchange.Step fleetLibrary fleetBatches) s
      ⟨spool, agent, calls, sent, Function.update deliveries d (some
        (.serving (fleetBatches k) (serve fleetLibrary admittedArrival (fleetBatches k)))),
        store, followUps⟩) :
    ∃ store, Relation.ReflTransGen (Exchange.Step fleetLibrary fleetBatches) s
      ⟨spool, agent, calls, sent,
        Function.update deliveries d (some (.answered (fleetBatches k) 202)), store,
        followUps⟩ := by
  rw [serve_fleet, takeBatch, applyIngestWith, requestBatchID_fleet, applyBatchWith,
    if_neg (freshBatches_fleet.nonempty k)] at hrun
  have h₁ := run_store hrun .begun
  have hclaim {now : Time} : (store.setRunning d (some [])).Answers HubStatement.claimed d
      (.exec (.ingest (.claim (fleetBatches k).batchID now))) (some 0)
      (store.setRunning d (some [])) :=
    .found (setRunning_self _) rfl (.inl hid)
  have h₂ := run_store h₁ hclaim
  have h₃ := run_store h₂ .rolledBack
  have h₄ := h₃.tail (.answer (Function.update_self ..))
  rw [Function.update_idem] at h₄
  exact ⟨_, h₄⟩

end Fleet

/-- The first answer is lost, and the second request finds the id. -/
theorem exactlyOnce_lostAnswer : ∃ s,
    Relation.ReflTransGen (Exchange.Step fleetLibrary fleetBatches) (.start (some 2000)) s ∧
      .answered .caller (fleetBatches 0) none ∈ s.agent.log ∧
      ExactlyOnce fleetLibrary fleetBatches s := by
  have h₀ : Relation.ReflTransGen (Exchange.Step fleetLibrary fleetBatches) (.start (some 2000))
      (.start (some 2000)) := .refl
  have h₁ := h₀.tail (@Exchange.Step.call fleetLibrary fleetBatches _ 0 0 5 rfl fun _ _ => rfl)
  -- the spool is empty
  have h₂ := run_agent h₁ (r := none) ⟨nofun, rfl⟩ nofun
  have h₃ := run_agent h₂ (r := some []) ⟨.inl rfl, rfl⟩ nofun
  have h₄ := run_agent h₃ (r := none) ⟨nofun, rfl⟩ nofun
  have h₅ := h₄.tail (.send (Function.update_self ..))
  have h₆ := h₅.tail (.arrive (d := 0) admittedArrival List.mem_cons_self rfl)
  obtain ⟨store, hid, h₇⟩ := run_taken h₆
  have h₈ := run_agent h₇ (r := some .transport) ⟨false, nofun, nofun, fun _ => nofun, rfl⟩
    fun _ h => nomatch h.2
  have h₉ := run_agent h₈ (r := none) ⟨nofun, rfl⟩ nofun
  have h₁₀ := run_agent h₉ (r := true) rfl nofun
  have h₁₁ := h₁₀.tail (.send (Function.update_self ..))
  have h₁₂ := h₁₁.tail (.arrive (d := 1) admittedArrival List.mem_cons_self rfl)
  obtain ⟨store', h₁₃⟩ := run_repeated hid h₁₂
  have h₁₄ := run_agent h₁₃ (r := none) ⟨true, fun _ => rfl, nofun, fun _ => nofun, rfl⟩
    fun _ h => ⟨1, 202, h.1 ▸ Function.update_self .., by decide⟩
  refine ⟨_, h₁₄, ?_, exactlyOnce freshBatches_fleet h₁₄⟩
  exact log_recordIf_interrupted (List.mem_append_right _ List.mem_cons_self)

end Argus
