import Argus.Agent.Kernel
import Argus.Foundations.Program
import Argus.Foundations.SharedTally

/-!
# The programs in the kernel

`l4.bpf.c` counts connections and retransmissions in a map that all processors share. A program
looks for the flow in the map, and then adds one to the counter that it found or inserts a new one.
Programs on other processors, the evictions of the map and the reader in the agent may come between
any two of its calls. `events_conserved` says what becomes of every counted event all the same, and
what the three statistics say.
-/

namespace Argus

open Foundations

/-! ### Calls -/

/-- The slots of the map `stats`. -/
inductive StatSlot
  | events
  | skipped
  | mapErrors
  deriving DecidableEq

/-- What a program calls. -/
inductive KernelOp
  /-- `bpf_map_lookup_elem(&flows, key)`. -/
  | lookup (key : FlowKey)
  /-- `__sync_fetch_and_add(&existing->count, 1)`. -/
  | fetchAdd (existing : ℕ)
  /-- `bpf_map_update_elem(&flows, key, &fresh, BPF_ANY)`, where `fresh` counts one. -/
  | update (key : FlowKey)
  /-- `__sync_fetch_and_add(slot_value, 1)`. -/
  | bump (slot : StatSlot)
  deriving DecidableEq

/-- The answers: the entry that is found, and whether an update failed. -/
abbrev KernelOp.Answer : KernelOp → Type
  | .lookup _ => Option ℕ
  | .fetchAdd _ => Unit
  | .update _ => Bool
  | .bump _ => Unit

/-- A program of the kernel. -/
abbrev KernelM : Type → Type := Program KernelOp KernelOp.Answer

/-- One call. -/
def callKernel (o : KernelOp) : KernelM o.Answer := Program.perform o

/-- `bump`. -/
def bump (slot : StatSlot) : KernelM Unit := callKernel (.bump slot)

/-- `account`, without the time of the last event. -/
def account (key : FlowKey) : KernelM Unit := do
  match ← callKernel (.lookup key) with
  | some existing =>
    callKernel (.fetchAdd existing)
    bump .events
  | none =>
    if ← callKernel (.update key) then bump .mapErrors
    else bump .events

/-! ### Tracepoints -/

/-- The context of a tracepoint. The four addresses follow each other in memory. -/
structure TraceContext where
  sport : UInt16
  dport : UInt16
  family : UInt16
  saddr : Vector UInt8 4
  daddr : Vector UInt8 4
  saddrV6 : Address
  daddrV6 : Address

/-- The addresses, one after the other. -/
def TraceContext.addresses (ctx : TraceContext) : Vector UInt8 40 :=
  ctx.saddr ++ ctx.daddr ++ ctx.saddrV6 ++ ctx.daddrV6

/-- The fields of the addresses. -/
inductive AddressField
  | saddr
  | daddr
  | saddrV6
  | daddrV6

/-- Where a field begins. -/
def AddressField.offset : AddressField → ℕ
  | .saddr => 0
  | .daddr => 4
  | .saddrV6 => 8
  | .daddrV6 => 24

theorem AddressField.size (f : AddressField) : min (f.offset + 16) 40 - f.offset = 16 := by
  cases f <;> rfl

/-- `BPF_CORE_READ_INTO`, which reads as many bytes as the destination has. -/
def TraceContext.readInto (ctx : TraceContext) (f : AddressField) : Address :=
  (ctx.addresses.extract f.offset (f.offset + 16)).cast f.size

/-- `AF_INET`. -/
def afInet : UInt16 := 2

/-- `AF_INET6`. -/
def afInet6 : UInt16 := 10

/-- `FLOW_OUT`. -/
def flowOut : UInt8 := 0

/-- `FLOW_IN`. -/
def flowIn : UInt8 := 1

/-- `FLOW_RETRANSMIT`. -/
def flowRetransmit : UInt8 := 2

/-- Fill in the key and account for it, as both programs end. -/
def accountContext (ctx : TraceContext) (direction : UInt8) : KernelM Unit :=
  if ctx.family = afInet then
    account
      { source := ctx.readInto .saddr, dest := ctx.readInto .daddr
        sourcePort := ctx.sport, destPort := ctx.dport, family := 4, direction := direction }
  else if ctx.family = afInet6 then
    account
      { source := ctx.readInto .saddrV6, dest := ctx.readInto .daddrV6
        sourcePort := ctx.sport, destPort := ctx.dport, family := 6, direction := direction }
  else bump .skipped

/-- What `inet_sock_set_state` shows of a socket. -/
structure SetStateContext extends TraceContext where
  protocol : UInt16
  oldstate : ℤ
  newstate : ℤ

/-- `IPPROTO_TCP`. -/
def ipprotoTcp : UInt16 := 6

/-- `TCP_SYN_SENT`. -/
def tcpSynSent : ℤ := 2

/-- `TCP_SYN_RECV`. -/
def tcpSynRecv : ℤ := 3

/-- `TCP_LISTEN`. -/
def tcpListen : ℤ := 10

/-- `argus_inet_sock_set_state`. -/
def inetSockSetState (ctx : SetStateContext) : KernelM Unit :=
  if ctx.protocol ≠ ipprotoTcp then pure ()
  else if ctx.newstate = tcpSynSent then accountContext ctx.toTraceContext flowOut
  else if ctx.oldstate = tcpListen ∧ ctx.newstate = tcpSynRecv then
    accountContext ctx.toTraceContext flowIn
  else pure ()

/-- `argus_tcp_retransmit_skb`. -/
def tcpRetransmitSkb (ctx : TraceContext) : KernelM Unit := accountContext ctx flowRetransmit

/-- What the kernel traces. -/
inductive Tracepoint
  | setState (ctx : SetStateContext)
  | retransmit (ctx : TraceContext)

/-- The program of a tracepoint. -/
def Tracepoint.program : Tracepoint → KernelM Unit
  | .setState ctx => inetSockSetState ctx
  | .retransmit ctx => tcpRetransmitSkb ctx

/-- The call that a program makes next. -/
def nextOp : KernelM Unit → Option KernelOp
  | .ret _ => none
  | .call o _ => some o

/-- The flow that a program is about to look for. -/
def soughtKey (p : KernelM Unit) : Option FlowKey :=
  match nextOp p with
  | some (.lookup key) => some key
  | _ => none

/-- The flow that a tracepoint accounts for. -/
def Tracepoint.key (tp : Tracepoint) : Option FlowKey := soughtKey tp.program

/-- A tracepoint of another address family. -/
def Tracepoint.skipped (tp : Tracepoint) : Bool := nextOp tp.program = some (.bump .skipped)

/-- What a tracepoint shows. -/
def Tracepoint.context : Tracepoint → TraceContext
  | .setState ctx => ctx.toTraceContext
  | .retransmit ctx => ctx

/-- The tracepoints that are counted: a connection of TCP that is begun or accepted, and every
retransmission. -/
def Tracepoint.Counted : Tracepoint → Prop
  | .setState ctx => ctx.protocol = ipprotoTcp ∧ (ctx.newstate = tcpSynSent ∨
      (ctx.oldstate = tcpListen ∧ ctx.newstate = tcpSynRecv))
  | .retransmit _ => True

/-- The address families that have a key. -/
def TraceContext.HasKey (ctx : TraceContext) : Prop := ctx.family = afInet ∨ ctx.family = afInet6

theorem isSome_soughtKey_accountContext_iff (ctx : TraceContext) (direction : UInt8) :
    (soughtKey (accountContext ctx direction)).isSome ↔ ctx.HasKey := by
  rw [accountContext, TraceContext.HasKey]
  split_ifs with h₁ h₂
  · exact iff_of_true rfl (.inl h₁)
  · exact iff_of_true rfl (.inr h₂)
  · exact iff_of_false Bool.false_ne_true (not_or.mpr ⟨h₁, h₂⟩)

theorem nextOp_accountContext_iff (ctx : TraceContext) (direction : UInt8) :
    nextOp (accountContext ctx direction) = some (.bump .skipped) ↔ ¬ ctx.HasKey := by
  rw [accountContext, TraceContext.HasKey]
  split_ifs with h₁ h₂
  · exact iff_of_false (fun h => KernelOp.noConfusion (Option.some.inj h)) (not_not.mpr (.inl h₁))
  · exact iff_of_false (fun h => KernelOp.noConfusion (Option.some.inj h)) (not_not.mpr (.inr h₂))
  · exact iff_of_true rfl (not_or.mpr ⟨h₁, h₂⟩)

/-- What a program does depends on whether its tracepoint is counted. -/
theorem Tracepoint.program_eq (tp : Tracepoint) :
    (tp.Counted ∧ ∃ direction, tp.program = accountContext tp.context direction) ∨
      (¬ tp.Counted ∧ tp.program = pure ()) := by
  cases tp with
  | retransmit ctx => exact .inl ⟨trivial, flowRetransmit, rfl⟩
  | setState ctx =>
    rw [Tracepoint.program, inetSockSetState, Counted]
    split_ifs with hprotocol hsent hreceived
    · exact .inr ⟨fun h => hprotocol h.1, rfl⟩
    · exact .inl ⟨⟨not_not.mp hprotocol, .inl hsent⟩, flowOut, rfl⟩
    · exact .inl ⟨⟨not_not.mp hprotocol, .inr hreceived⟩, flowIn, rfl⟩
    · exact .inr ⟨fun h => h.2.elim hsent hreceived, rfl⟩

/-- **Which tracepoints have a key**: those that are counted, of a family that has one. -/
theorem Tracepoint.isSome_key_iff (tp : Tracepoint) :
    tp.key.isSome ↔ tp.Counted ∧ tp.context.HasKey := by
  rw [key]
  rcases tp.program_eq with ⟨hcounted, direction, hprogram⟩ | ⟨hcounted, hprogram⟩
  · rw [hprogram, isSome_soughtKey_accountContext_iff, and_iff_right hcounted]
  · rw [hprogram]
    exact iff_of_false Bool.false_ne_true fun h => hcounted h.1

/-- **Which tracepoints are skipped**: those that are counted, of any other family. -/
theorem Tracepoint.skipped_iff (tp : Tracepoint) :
    tp.skipped = true ↔ tp.Counted ∧ ¬ tp.context.HasKey := by
  rw [skipped, decide_eq_true_iff]
  rcases tp.program_eq with ⟨hcounted, direction, hprogram⟩ | ⟨hcounted, hprogram⟩
  · rw [hprogram, nextOp_accountContext_iff, and_iff_right hcounted]
  · rw [hprogram]
    exact iff_of_false (Option.some_ne_none _ ·.symm) fun h => hcounted h.1

/-! ### Interleaving -/

/-- The maps. -/
structure KernelMemory where
  flows : SharedTally FlowKey
  stats : StatSlot → ℕ

/-- What a call does to the maps. An update may fail, and the entry that it inserts has a place of
its own. -/
def kernelEffect : Effect KernelMemory KernelOp KernelOp.Answer
  | m, .lookup key => fun existing m' => existing = m.flows.find? key ∧ m' = m
  | m, .fetchAdd existing => fun _ m' => m' = { m with flows := m.flows.add existing }
  | m, .update key => fun failed m' =>
    if failed = true then m' = m
    else ∃ id ∉ m.flows.cells.map Cell.id, m' = { m with flows := m.flows.insert id key }
  | m, .bump slot => fun _ m' =>
    m' = { m with stats := Function.update m.stats slot (m.stats slot + 1) }

/-- A program that runs, and the flow that it accounts for. -/
structure KernelTask where
  key : Option FlowKey
  program : KernelM Unit

/-- The iteration of `Flows` over the map: the entries that were there when it began, and those
that were read so far. -/
structure KernelPass where
  due : Reading FlowKey
  entries : Reading FlowKey

/-- The maps, the programs that run, the tracepoints that were hit, the flows whose update failed,
the iteration of the reader, what was counted when its last complete one began, and the complete
ones. -/
structure KernelWorld where
  memory : KernelMemory
  running : List KernelTask
  traced : List Tracepoint
  failed : List FlowKey
  pass : Option KernelPass
  begun : ℕ
  readings : List (Reading FlowKey)

/-- Nothing has happened. -/
def KernelWorld.initial : KernelWorld := ⟨⟨.empty, fun _ => 0⟩, [], [], [], none, 0, []⟩

/-- The flow of a failed update. -/
def failedKeys : (o : KernelOp) → o.Answer → List FlowKey
  | .update key, true => [key]
  | _, _ => []

/-- One step of the kernel or of the reader. -/
inductive KernelStep : KernelWorld → KernelWorld → Prop
  /-- A tracepoint is hit. -/
  | trace (s : KernelWorld) (tp : Tracepoint) :
      KernelStep s
        { s with running := ⟨tp.key, tp.program⟩ :: s.running, traced := s.traced ++ [tp] }
  /-- A program makes a call. -/
  | call {s : KernelWorld} {l₁ l₂ : List KernelTask} {key : Option FlowKey} {o : KernelOp}
      {k : o.Answer → KernelM Unit} {r : o.Answer} {m : KernelMemory}
      (running : s.running = l₁ ++ ⟨key, .call o k⟩ :: l₂)
      (effect : kernelEffect s.memory o r m) :
      KernelStep s
        { s with
          memory := m, running := l₁ ++ ⟨key, k r⟩ :: l₂, failed := s.failed ++ failedKeys o r }
  /-- A program ends. -/
  | exit {s : KernelWorld} {l₁ l₂ : List KernelTask} {key : Option FlowKey}
      (running : s.running = l₁ ++ ⟨key, .ret ()⟩ :: l₂) :
      KernelStep s { s with running := l₁ ++ l₂ }
  /-- The map evicts an entry. -/
  | evict (s : KernelWorld) (key : FlowKey) :
      KernelStep s { s with memory := { s.memory with flows := s.memory.flows.evict key } }
  /-- The reader begins. -/
  | begin (s : KernelWorld) :
      KernelStep s { s with pass := some ⟨s.memory.flows.reading, []⟩ }
  /-- The reader reads an entry. -/
  | read {s : KernelWorld} {p : KernelPass} {key : FlowKey} (pass : s.pass = some p)
      (there : key ∈ s.memory.flows.reading.keys) :
      KernelStep s
        { s with
          pass := some
            { p with entries := p.entries ++ [(key, s.memory.flows.reading.counter key)] } }
  /-- The reader fails. -/
  | abort (s : KernelWorld) : KernelStep s { s with pass := none }
  /-- The reader is done. As long as no entry was deleted, it has met every entry that was there
  when it began, and none twice. -/
  | finish {s : KernelWorld} {p : KernelPass} (pass : s.pass = some p)
      (once : s.memory.flows.lost = 0 → p.entries.keys.Nodup ∧ p.due.keys ⊆ p.entries.keys) :
      KernelStep s
        { s with pass := none, begun := p.due.total, readings := s.readings ++ [p.entries] }

/-- The reachable states. -/
def KernelWorld.Reachable (s : KernelWorld) : Prop :=
  Relation.ReflTransGen KernelStep KernelWorld.initial s

/-! ### What a program may do -/

/-- `account` with the entry that it found. -/
def countFound (existing : ℕ) : KernelM Unit := do
  callKernel (.fetchAdd existing)
  bump .events

/-- `account` where it found none. -/
def countFresh (key : FlowKey) : KernelM Unit := do
  if ← callKernel (.update key) then bump .mapErrors
  else bump .events

/-- The stages of the programs. -/
inductive KernelStage : KernelTask → Prop
  | entered (key : FlowKey) : KernelStage ⟨some key, account key⟩
  | found (key : FlowKey) (existing : ℕ) : KernelStage ⟨some key, countFound existing⟩
  | missing (key : FlowKey) : KernelStage ⟨some key, countFresh key⟩
  | counted (key : FlowKey) : KernelStage ⟨some key, bump .events⟩
  | failed (key : FlowKey) : KernelStage ⟨some key, bump .mapErrors⟩
  | skipping : KernelStage ⟨none, bump .skipped⟩
  | done (key : Option FlowKey) : KernelStage ⟨key, pure ()⟩

/-- The calls of the stages, with what they leave of the maps and the flows that fail. -/
inductive KernelCall (m : KernelMemory) :
    KernelTask → KernelMemory → KernelTask → List FlowKey → Prop
  | found (key : FlowKey) (existing : ℕ) (h : m.flows.find? key = some existing) :
      KernelCall m ⟨some key, account key⟩ m ⟨some key, countFound existing⟩ []
  | missing (key : FlowKey) (h : m.flows.find? key = none) :
      KernelCall m ⟨some key, account key⟩ m ⟨some key, countFresh key⟩ []
  | added (key : FlowKey) (existing : ℕ) :
      KernelCall m ⟨some key, countFound existing⟩ { m with flows := m.flows.add existing }
        ⟨some key, bump .events⟩ []
  | inserted (key : FlowKey) (id : ℕ) (h : id ∉ m.flows.cells.map Cell.id) :
      KernelCall m ⟨some key, countFresh key⟩ { m with flows := m.flows.insert id key }
        ⟨some key, bump .events⟩ []
  | failed (key : FlowKey) :
      KernelCall m ⟨some key, countFresh key⟩ m ⟨some key, bump .mapErrors⟩ [key]
  | bumped (key : Option FlowKey) (slot : StatSlot) (h : slot = .skipped ↔ key = none) :
      KernelCall m ⟨key, bump slot⟩
        { m with stats := Function.update m.stats slot (m.stats slot + 1) } ⟨key, pure ()⟩ []

/-- The programs before their first call. -/
inductive KernelEntry : KernelTask → Prop
  | account (key : FlowKey) : KernelEntry ⟨some key, account key⟩
  | skip : KernelEntry ⟨none, bump .skipped⟩
  | ignore : KernelEntry ⟨none, pure ()⟩

theorem entry_accountContext (ctx : TraceContext) (direction : UInt8) :
    KernelEntry ⟨soughtKey (accountContext ctx direction), accountContext ctx direction⟩ := by
  rw [accountContext]
  split_ifs
  · exact .account _
  · exact .account _
  · exact .skip

theorem entry_program (tp : Tracepoint) : KernelEntry ⟨tp.key, tp.program⟩ := by
  rw [Tracepoint.key]
  cases tp with
  | retransmit ctx => exact entry_accountContext ctx flowRetransmit
  | setState ctx =>
    rw [Tracepoint.program, inetSockSetState]
    split_ifs
    · exact .ignore
    · exact entry_accountContext ctx.toTraceContext flowOut
    · exact entry_accountContext ctx.toTraceContext flowIn
    · exact .ignore

theorem KernelEntry.stage {t : KernelTask} (h : KernelEntry t) : KernelStage t := by
  cases h with
  | account key => exact .entered key
  | skip => exact .skipping
  | ignore => exact .done none

/-- **What a call does.** -/
theorem kernelCall_of_stage {key : Option FlowKey} {o : KernelOp} {k : o.Answer → KernelM Unit}
    {r : o.Answer} {m m' : KernelMemory} (hstage : KernelStage ⟨key, .call o k⟩)
    (h : kernelEffect m o r m') :
    KernelCall m ⟨key, .call o k⟩ m' ⟨key, k r⟩ (failedKeys o r) := by
  generalize ht : (⟨key, .call o k⟩ : KernelTask) = t at hstage
  cases hstage with
  | entered key =>
    cases ht
    obtain ⟨rfl, rfl⟩ := h
    cases hfind : m'.flows.find? key with
    | none => exact .missing key hfind
    | some existing => exact .found key existing hfind
  | found key existing =>
    cases ht
    cases h
    exact .added key existing
  | missing key =>
    cases ht
    cases r with
    | true =>
      cases h
      exact .failed key
    | false =>
      obtain ⟨id, hid, rfl⟩ := h
      exact .inserted key id hid
  | counted key =>
    cases ht
    cases h
    exact .bumped (some key) .events (by simp)
  | failed key =>
    cases ht
    cases h
    exact .bumped (some key) .mapErrors (by simp)
  | skipping =>
    cases ht
    cases h
    exact .bumped none .skipped (by simp)
  | done key => cases ht

theorem KernelCall.stage {m m' : KernelMemory} {t t' : KernelTask} {keys : List FlowKey}
    (h : KernelCall m t m' t' keys) : KernelStage t' := by
  cases h with
  | found key existing => exact .found key existing
  | missing key => exact .missing key
  | added key => exact .counted key
  | inserted key => exact .counted key
  | failed key => exact .failed key
  | bumped key => exact .done key

@[simp] theorem nextOp_account (key : FlowKey) : nextOp (account key) = some (.lookup key) := rfl

@[simp] theorem nextOp_countFound (existing : ℕ) :
    nextOp (countFound existing) = some (.fetchAdd existing) := rfl

@[simp] theorem nextOp_countFresh (key : FlowKey) :
    nextOp (countFresh key) = some (.update key) := rfl

@[simp] theorem nextOp_bump (slot : StatSlot) : nextOp (bump slot) = some (.bump slot) := rfl

@[simp] theorem nextOp_ret : nextOp (.ret ()) = none := rfl

/-! ### What is counted -/

/-- The programs that are about to make a call. -/
def about (o : KernelOp) (running : List KernelTask) : ℕ :=
  running.countP fun t => nextOp t.program = some o

/-- The programs that account for a flow. -/
def accounting (running : List KernelTask) : ℕ :=
  running.countP fun t => t.key.isSome && (nextOp t.program).isSome

/-- A call on the way to a count. -/
def KernelOp.counts : KernelOp → Bool
  | .bump _ => false
  | _ => true

/-- The programs that are still to count a flow. -/
def owing (key : FlowKey) (running : List KernelTask) : ℕ :=
  running.countP fun t => t.key = some key && (nextOp t.program).any KernelOp.counts

theorem countP_replace (p : KernelTask → Bool) (l₁ l₂ : List KernelTask) (t t' : KernelTask) :
    (l₁ ++ t' :: l₂).countP p + (if p t then 1 else 0) =
      (l₁ ++ t :: l₂).countP p + if p t' then 1 else 0 := by
  simp only [List.countP_append, List.countP_cons]
  omega

theorem about_replace (o : KernelOp) (l₁ l₂ : List KernelTask) (t t' : KernelTask) :
    about o (l₁ ++ t' :: l₂) + (if nextOp t.program = some o then 1 else 0) =
      about o (l₁ ++ t :: l₂) + if nextOp t'.program = some o then 1 else 0 := by
  rw [about, about]
  simpa only [decide_eq_true_iff] using
    countP_replace (fun t => nextOp t.program = some o) l₁ l₂ t t'

theorem accounting_replace (l₁ l₂ : List KernelTask) (t t' : KernelTask) :
    accounting (l₁ ++ t' :: l₂) + (if t.key.isSome && (nextOp t.program).isSome then 1 else 0) =
      accounting (l₁ ++ t :: l₂) +
        if t'.key.isSome && (nextOp t'.program).isSome then 1 else 0 :=
  countP_replace (fun t => t.key.isSome && (nextOp t.program).isSome) l₁ l₂ t t'

/-- What holds of the counts at any time. -/
structure KernelInv (s : KernelWorld) : Prop where
  wellFormed : s.memory.flows.WellFormed
  stages : ∀ t ∈ s.running, KernelStage t
  conserved : s.memory.flows.total + s.memory.flows.lost =
    s.memory.stats .events + about (.bump .events) s.running
  accounted : s.memory.stats .events + s.memory.stats .mapErrors + accounting s.running =
    s.traced.countP fun tp => tp.key.isSome
  failures : s.memory.stats .mapErrors + about (.bump .mapErrors) s.running = s.failed.length
  skips : s.memory.stats .skipped + about (.bump .skipped) s.running =
    s.traced.countP Tracepoint.skipped

theorem kernelInv_initial : KernelInv KernelWorld.initial :=
  ⟨SharedTally.wellFormed_empty, fun _ h => absurd h List.not_mem_nil, rfl, rfl, rfl, rfl⟩

theorem KernelEntry.nextOp_ne {t : KernelTask} (h : KernelEntry t) (slot : StatSlot)
    (hslot : slot ≠ .skipped) : nextOp t.program ≠ some (.bump slot) := by
  cases h with
  | account key => exact fun heq => KernelOp.noConfusion (Option.some_inj.mp heq)
  | skip => exact fun heq => hslot (KernelOp.bump.inj (Option.some_inj.mp heq)).symm
  | ignore => exact (Option.some_ne_none _).symm

theorem KernelEntry.accounting_eq {t : KernelTask} (h : KernelEntry t) :
    (t.key.isSome && (nextOp t.program).isSome) = t.key.isSome := by
  cases h <;> rfl

theorem KernelInv.trace {s : KernelWorld} (h : KernelInv s) (tp : Tracepoint) :
    KernelInv { s with
      running := ⟨tp.key, tp.program⟩ :: s.running, traced := s.traced ++ [tp] } := by
  have hentry := entry_program tp
  refine ⟨h.wellFormed, List.forall_mem_cons.mpr ⟨hentry.stage, h.stages⟩, ?_, ?_, ?_, ?_⟩
  · have hne := hentry.nextOp_ne .events (by simp)
    rw [about, List.countP_cons_of_neg (by simpa using hne)]
    exact h.conserved
  · have haccounted := h.accounted
    rw [accounting] at haccounted
    rw [accounting, List.countP_cons, hentry.accounting_eq, List.countP_append,
      List.countP_singleton, ← haccounted]
    exact (Nat.add_assoc ..).symm
  · have hne := hentry.nextOp_ne .mapErrors (by simp)
    rw [about, List.countP_cons_of_neg (by simpa using hne)]
    exact h.failures
  · have hskips := h.skips
    rw [about] at hskips
    rw [about, List.countP_cons, List.countP_append, List.countP_singleton, ← hskips,
      Tracepoint.skipped]
    exact (Nat.add_assoc ..).symm

variable {l₁ l₂ : List KernelTask} {t t' : KernelTask}

theorem KernelInv.stage {s : KernelWorld} (h : KernelInv s) (running : s.running = l₁ ++ t :: l₂) :
    KernelStage t := by
  refine h.stages t ?_
  rw [running]
  exact List.mem_append_right _ List.mem_cons_self

theorem KernelInv.stages_replace {s : KernelWorld} (h : KernelInv s)
    (running : s.running = l₁ ++ t :: l₂) (ht' : KernelStage t') :
    ∀ t'' ∈ l₁ ++ t' :: l₂, KernelStage t'' := by
  have hstages := h.stages
  rw [running] at hstages
  intro t'' ht
  rcases List.mem_append.mp ht with ht | ht
  · exact hstages t'' (List.mem_append_left _ ht)
  · rcases List.mem_cons.mp ht with rfl | ht
    · exact ht'
    · exact hstages t'' (List.mem_append_right _ (List.mem_cons_of_mem _ ht))

/-! ### What a call changes -/

variable {m m' : KernelMemory} {keys : List FlowKey}

theorem KernelCall.wellFormed (h : KernelCall m t m' t' keys) (hwf : m.flows.WellFormed) :
    m'.flows.WellFormed := by
  cases h with
  | added key existing => exact hwf.add existing
  | inserted key id hid => exact hwf.insert hid key
  | found => exact hwf
  | missing => exact hwf
  | failed => exact hwf
  | bumped => exact hwf

/-- What is counted or lost is then an event. -/
theorem KernelCall.conserved (h : KernelCall m t m' t' keys) (hwf : m.flows.WellFormed) :
    m'.flows.total + m'.flows.lost + m.stats .events +
        (if nextOp t.program = some (.bump .events) then 1 else 0) =
      m.flows.total + m.flows.lost + m'.stats .events +
        if nextOp t'.program = some (.bump .events) then 1 else 0 := by
  cases h with
  | added key existing =>
    have hsum := SharedTally.sum_add hwf existing
    simp
    omega
  | inserted key id hid =>
    have hsum := SharedTally.sum_insert hwf id key
    simp
    omega
  | found => simp
  | missing => simp
  | failed => simp
  | bumped key slot hslot =>
    cases slot <;> simp
    omega

/-- A program accounts until it has said what became of its event. -/
theorem KernelCall.accounted (h : KernelCall m t m' t' keys) :
    m'.stats .events + m'.stats .mapErrors +
        (if t'.key.isSome && (nextOp t'.program).isSome then 1 else 0) =
      m.stats .events + m.stats .mapErrors +
        if t.key.isSome && (nextOp t.program).isSome then 1 else 0 := by
  cases h with
  | added => simp
  | inserted => simp
  | found => simp
  | missing => simp
  | failed => simp
  | bumped key slot hslot =>
    cases slot <;> cases key <;> simp at hslot <;> simp <;> omega

theorem KernelCall.failures (h : KernelCall m t m' t' keys) :
    m'.stats .mapErrors + (if nextOp t'.program = some (.bump .mapErrors) then 1 else 0) =
      m.stats .mapErrors + keys.length +
        if nextOp t.program = some (.bump .mapErrors) then 1 else 0 := by
  cases h with
  | bumped key slot hslot => cases slot <;> simp
  | _ => simp

theorem KernelCall.skips (h : KernelCall m t m' t' keys) :
    m'.stats .skipped + (if nextOp t'.program = some (.bump .skipped) then 1 else 0) =
      m.stats .skipped + if nextOp t.program = some (.bump .skipped) then 1 else 0 := by
  cases h with
  | bumped key slot hslot => cases slot <;> simp
  | _ => simp

theorem KernelInv.call {s : KernelWorld} (h : KernelInv s) (running : s.running = l₁ ++ t :: l₂)
    (hcall : KernelCall s.memory t m' t' keys) :
    KernelInv { s with memory := m', running := l₁ ++ t' :: l₂, failed := s.failed ++ keys } := by
  have hstages := h.stages_replace running hcall.stage
  obtain ⟨hwf, -, hconserved, haccounted, hfailures, hskips⟩ := h
  rw [running] at hconserved haccounted hfailures hskips
  refine ⟨hcall.wellFormed hwf, hstages, ?_, ?_, ?_, ?_⟩
  · have hevents := about_replace (.bump .events) l₁ l₂ t t'
    have hmoved := hcall.conserved hwf
    dsimp only
    omega
  · have haccounting := accounting_replace l₁ l₂ t t'
    have hmoved := hcall.accounted
    dsimp only
    omega
  · have herrors := about_replace (.bump .mapErrors) l₁ l₂ t t'
    have hmoved := hcall.failures
    rw [List.length_append]
    dsimp only
    omega
  · have hskipped := about_replace (.bump .skipped) l₁ l₂ t t'
    have hmoved := hcall.skips
    dsimp only
    omega

theorem KernelInv.exit {s : KernelWorld} (h : KernelInv s) {key : Option FlowKey}
    (running : s.running = l₁ ++ ⟨key, .ret ()⟩ :: l₂) :
    KernelInv { s with running := l₁ ++ l₂ } := by
  have hcount (p : KernelTask → Bool) (hp : p ⟨key, .ret ()⟩ = false) :
      (l₁ ++ l₂).countP p = s.running.countP p := by
    rw [running, List.countP_append, List.countP_append, List.countP_cons_of_neg (by simp [hp])]
  have habout (o : KernelOp) : about o (l₁ ++ l₂) = about o s.running := hcount _ rfl
  have haccounting : accounting (l₁ ++ l₂) = accounting s.running := hcount _ (Bool.and_false _)
  have hstages := h.stages
  rw [running] at hstages
  refine ⟨h.wellFormed, fun t ht => hstages t ?_, ?_, ?_, ?_, ?_⟩
  · rcases List.mem_append.mp ht with ht | ht
    · exact List.mem_append_left _ ht
    · exact List.mem_append_right _ (List.mem_cons_of_mem _ ht)
  · rw [habout]
    exact h.conserved
  · rw [haccounting]
    exact h.accounted
  · rw [habout]
    exact h.failures
  · rw [habout]
    exact h.skips

/-- **One step.** -/
theorem KernelStep.inv {s s' : KernelWorld} (hstep : KernelStep s s') (h : KernelInv s) :
    KernelInv s' := by
  cases hstep with
  | trace tp => exact h.trace tp
  | call running effect => exact h.call running (kernelCall_of_stage (h.stage running) effect)
  | exit running => exact h.exit running
  | evict key =>
    refine ⟨h.wellFormed.evict key, h.stages, ?_, h.accounted, h.failures, h.skips⟩
    exact (SharedTally.sum_evict h.wellFormed key).trans h.conserved
  | begin => exact ⟨h.wellFormed, h.stages, h.conserved, h.accounted, h.failures, h.skips⟩
  | read pass there =>
    exact ⟨h.wellFormed, h.stages, h.conserved, h.accounted, h.failures, h.skips⟩
  | abort => exact ⟨h.wellFormed, h.stages, h.conserved, h.accounted, h.failures, h.skips⟩
  | finish pass once =>
    exact ⟨h.wellFormed, h.stages, h.conserved, h.accounted, h.failures, h.skips⟩

theorem KernelWorld.Reachable.inv {s : KernelWorld} (h : s.Reachable) : KernelInv s := by
  induction h with
  | refl => exact kernelInv_initial
  | tail _ hstep ih => exact hstep.inv ih

/-! ### The accounting -/

/-- **What becomes of an event.** In every interleaving, a traced connection or retransmission is
counted in an entry of the map, is lost in an entry that was evicted, replaced or gone, has failed
to be inserted, or is still to be counted by a program that runs; and the three statistics are the
events that were counted or lost, the failed updates and the events of other address families, but
for the programs that are about to say so. -/
theorem events_conserved {s : KernelWorld} (h : s.Reachable) :
    s.memory.flows.total + s.memory.flows.lost =
        s.memory.stats .events + about (.bump .events) s.running ∧
      s.memory.stats .events + s.memory.stats .mapErrors + accounting s.running =
        s.traced.countP (fun tp => tp.key.isSome) ∧
      s.memory.stats .mapErrors + about (.bump .mapErrors) s.running = s.failed.length ∧
      s.memory.stats .skipped + about (.bump .skipped) s.running =
        s.traced.countP Tracepoint.skipped :=
  ⟨h.inv.conserved, h.inv.accounted, h.inv.failures, h.inv.skips⟩

end Argus
