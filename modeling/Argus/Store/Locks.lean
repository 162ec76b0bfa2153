import Argus.Foundations.Locks
import Argus.Otlp
import Argus.Store.Metrics
import Argus.Store.Patterns

/-!
# The order of row locks

An ingest transaction locks a row with every upsert until it ends. `upsertWorkloadLatest` sorts its
keys first; `insertTopologyLinks` and `insertTraceSpans` write theirs in the order of the payload.
`oneLockOrder_iff` says for which payloads the orders of concurrent transactions still agree.
The claim on the batch id comes before all of these and is held by no transaction that waits for
one, so it is left out.
-/

namespace Argus

open Foundations SortedMap

/-- A row that several transactions may upsert. -/
inductive LockKey
  | workload (key : WorkloadKey)
  | link (key : LinkKey)
  | span (key : String × String)

/-- The writes of an ingest transaction: those of `WriteMetrics`, `RecordTopologyLinks` or
`WriteTraceSpans`. -/
inductive IngestTx
  | metrics (points : List MetricPoint)
  | links (batch : List TopologyLink)
  | spans (batch : List TraceSpan)

/-- The keys that `upsertWorkloadLatest` writes, in sorted order. -/
def IngestTx.workloadKeys : IngestTx → List WorkloadKey
  | .metrics points => ((∅ : SortedMap WorkloadKey MetricPoint).upsertAll keepLatest
      (keyedPoints points)).keys
  | _ => []

/-- The keys that `insertTopologyLinks` writes, in the order of the payload. -/
def IngestTx.linkKeys : IngestTx → List LinkKey
  | .links batch => (batch.flatMap linkRows).map Prod.fst
  | _ => []

/-- The keys that `insertTraceSpans` writes, in the order of the payload. -/
def IngestTx.spanKeys : IngestTx → List (String × String)
  | .spans batch => batch.map fun sp => (sp.traceID, sp.spanID)
  | _ => []

/-- The keys that a transaction upserts, in the order of its statements. One that fails has
upserted a beginning of them. -/
def IngestTx.upserts (tx : IngestTx) : List LockKey :=
  tx.workloadKeys.map .workload ++ tx.linkKeys.map .link ++ tx.spanKeys.map .span

/-- All transactions lock the rows they share in one order, and none ever waits for itself through
others. -/
def OneLockOrder {ι : Type} [DecidableEq ι] (txs : ι → IngestTx) : Prop :=
  InOneOrder (fun i => (txs i).upserts) ∧ NoDeadlock fun i => (txs i).upserts

section Tables

variable {ι : Type} (txs : ι → IngestTx)

theorem embeds_workload :
    Embeds LockKey.workload (fun i => (txs i).workloadKeys) fun i => (txs i).upserts := by
  intro i
  rcases htx : txs i with points | batch | batch <;>
    simp [htx, IngestTx.upserts, IngestTx.workloadKeys, IngestTx.linkKeys, IngestTx.spanKeys]

theorem embeds_link : Embeds LockKey.link (fun i => (txs i).linkKeys) fun i => (txs i).upserts := by
  intro i
  rcases htx : txs i with points | batch | batch <;>
    simp [htx, IngestTx.upserts, IngestTx.workloadKeys, IngestTx.linkKeys, IngestTx.spanKeys]

theorem embeds_span : Embeds LockKey.span (fun i => (txs i).spanKeys) fun i => (txs i).upserts := by
  intro i
  rcases htx : txs i with points | batch | batch <;>
    simp [htx, IngestTx.upserts, IngestTx.workloadKeys, IngestTx.linkKeys, IngestTx.spanKeys]

/-- The sorted keys of `upsertWorkloadLatest` make no ring. -/
theorem noRing_workload : NoRing fun i => (txs i).workloadKeys := by
  refine noRing_of_sorted fun i => ?_
  rcases txs i with points | batch | batch
  · exact SortedMap.sorted_keys _
  · exact List.Pairwise.nil
  · exact List.Pairwise.nil

/-- **When locks are taken in one order.** Concurrent ingest transactions lock shared rows in one
order, without a deadlock in any run, if and only if the payloads of the link batches list no
shared links in a ring, and those of the trace batches no shared spans. -/
theorem oneLockOrder_iff [DecidableEq ι] : OneLockOrder txs ↔
    NoRing (fun i => (txs i).linkKeys) ∧ NoRing fun i => (txs i).spanKeys := by
  have hworkload : Function.Injective LockKey.workload := fun _ _ => LockKey.workload.inj
  have hlink : Function.Injective LockKey.link := fun _ _ => LockKey.link.inj
  have hspan : Function.Injective LockKey.span := fun _ _ => LockKey.span.inj
  have hiff : InOneOrder (fun i => (txs i).upserts) ↔
      NoRing (fun i => (txs i).linkKeys) ∧ NoRing fun i => (txs i).spanKeys := by
    rw [inOneOrder_iff, ← (embeds_link txs).noRing hlink, ← (embeds_span txs).noRing hspan]
    constructor
    · exact fun h => ⟨fun a => h (.link a), fun a => h (.span a)⟩
    · rintro ⟨hlinks, hspans⟩ (a | a | a)
      · exact ((embeds_workload txs).noRing hworkload).mpr (noRing_workload txs) a
      · exact hlinks a
      · exact hspans a
  rw [OneLockOrder, ← hiff]
  exact ⟨And.left, fun h => ⟨h, no_deadlock h⟩⟩

end Tables

/-- A link from one service to another. -/
def sampleLink (source target : String) : TopologyLink := ⟨source, target, "http", 80, 1, ⟨0⟩⟩

/-- Two agents that report the same links in different orders. -/
def crossedTxs : Bool → IngestTx
  | true => .links [sampleLink "web" "api", sampleLink "api" "db"]
  | false => .links [sampleLink "api" "db", sampleLink "web" "api"]

/-- Two batches with the same links in different orders do not lock them in one order. -/
theorem crossed_links :
    ¬ ∀ (ι : Type) [DecidableEq ι] (txs : ι → IngestTx), OneLockOrder txs := by
  intro h
  obtain ⟨⟨le, hle, hlt⟩, -⟩ := h Bool crossedTxs
  let web : LockKey := .link (toLex ("web", toLex ("api", 80)))
  let api : LockKey := .link (toLex ("api", toLex ("db", 80)))
  have htrue : (crossedTxs true).upserts = [web, api] := rfl
  have hfalse : (crossedTxs false).upserts = [api, web] := rfl
  have hne : api ≠ web := by simp [api, web]
  have hweb : Contended (fun i => (crossedTxs i).upserts) web :=
    ⟨true, false, by decide, by simp [htrue], by simp [hfalse]⟩
  have hapi : Contended (fun i => (crossedTxs i).upserts) api :=
    ⟨true, false, by decide, by simp [htrue], by simp [hfalse]⟩
  obtain ⟨hfirst, -⟩ :=
    hlt web api ⟨hweb, hapi, true, [web], [], htrue, by simpa using hne, by simp⟩
  obtain ⟨hsecond, -⟩ :=
    hlt api web ⟨hapi, hweb, false, [api], [], hfalse, by simpa using hne.symm, by simp⟩
  exact hne (antisymm hsecond hfirst)

end Argus
