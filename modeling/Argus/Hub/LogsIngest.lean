import Argus.Foundations.Transactions
import Argus.Hub.Groups
import Argus.Insights.DeriveMetrics
import Argus.Store.TraceSearch
import Argus.Store.WorkloadLatest

/-!
# Taking a batch of logs

`handleLogsBatch` stores the entries of a request and the metrics derived from them. With a batch
id, `ApplyBatch` claims the id and runs both writes in one transaction; without one it just runs
them, and each store method opens a transaction of its own.

The programs work against the sessions of `Foundations.Transactions`. `applyAll_logStatements`
and `applyAll_metricStatements` say what their statements leave; for the metrics it is what
`insertMetrics` computes. `failedLogs_leaves` describes the tables after every request that is
answered with an error of the store.
-/

namespace Argus

open Foundations

/-! ### The tables and their statements -/

/-- The tables that a batch of logs is written to. -/
structure IngestTables where
  logs : List LogRow
  metrics : MetricTables
  /-- `ingest_batches`: the ids that were applied, and when. -/
  batches : SortedMap String Time

/-- The tables of an empty store. -/
def IngestTables.empty : IngestTables := ⟨[], MetricTables.empty, ∅⟩

/-- The statements. -/
inductive IngestStatement
  /-- `INSERT INTO ingest_batches ... ON CONFLICT (batch_id) DO NOTHING`. -/
  | claim (batchID : String) (receivedAt : Time)
  /-- `PrepareContext` of an insert into the table. -/
  | prepare (table : String)
  /-- `INSERT INTO log_entries`. -/
  | insertLog (row : LogRow)
  /-- `INSERT INTO metric_points`. -/
  | insertMetric (p : MetricPoint)
  /-- The upsert into `workload_latest`. -/
  | upsertLatest (key : WorkloadKey) (p : MetricPoint)

/-- Whether the insert of a row succeeds. -/
def LogRow.valid (r : LogRow) : Bool :=
  validTexts [r.ts.format, r.message, r.level, r.entityUID, r.labelsJSON, r.fieldsJSON]

/-- What a statement does, with the number of rows that it affects. -/
def IngestTables.apply (t : IngestTables) : IngestStatement → Option (ℕ × IngestTables)
  | .claim batchID receivedAt =>
    if !validTexts [batchID, receivedAt.format] then none
    else if (t.batches.get? batchID).isSome then some (0, t)
    else some (1, { t with batches := t.batches.insert batchID receivedAt })
  | .prepare _ => some (0, t)
  | .insertLog row =>
    if row.valid then some (1, { t with logs := t.logs ++ [row] }) else none
  | .insertMetric p =>
    if p.valid then
      some (1, { t with metrics := { t.metrics with points := t.metrics.points ++ [p.toRow] } })
    else none
  | .upsertLatest key p =>
    if upsertValid (key, p) then
      some (1, { t with
        metrics := { t.metrics with
          latest := t.metrics.latest.upsert keepGuarded key p.toLatest } })
    else none

/-- A program of the hub over its store. -/
abbrev StoreM (α : Type) : Type := TxM IngestStatement ℕ α

/-! ### The programs -/

/-- `insertLogs`, where the fields of an entry may have no text. -/
def insertLogsTx (number : ℚ → Number) (entries : List LogEntry) : StoreM Bool := do
  match ← execTx (.prepare "log_entries") with
  | none => pure false
  | some _ => execAll (entries.map fun e => (e.row number).map .insertLog)

/-- `WriteLogs`, in the transaction of the context or in one of its own. -/
def WriteLogs (number : ℚ → Number) (inTx : Bool) (entries : List LogEntry) : StoreM Bool :=
  if inTx then insertLogsTx number entries else transaction (insertLogsTx number entries)

/-- `upsertWorkloadLatest`. -/
def upsertWorkloadLatestTx (latest : SortedMap WorkloadKey MetricPoint) : StoreM Bool :=
  if latest.entries = [] then pure true
  else do
    match ← execTx (.prepare "workload_latest") with
    | none => pure false
    | some _ => execAll (latest.entries.map fun e => some (.upsertLatest e.1 e.2))

/-- `insertMetrics`. The points that go to `workload_latest` are noted on the way. -/
def insertMetricsTx (points : List MetricPoint) : StoreM Bool := do
  match ← execTx (.prepare "metric_points") with
  | none => pure false
  | some _ => do
    if ← execAll (points.map fun p => some (.insertMetric p)) then
      upsertWorkloadLatestTx ((∅ : SortedMap WorkloadKey MetricPoint).upsertAll keepLatest
        (keyedPoints points))
    else pure false

/-- `WriteMetrics`, in the transaction of the context or in one of its own. -/
def WriteMetrics (inTx : Bool) (points : List MetricPoint) : StoreM Bool :=
  if inTx then insertMetricsTx points else transaction (insertMetricsTx points)

/-- `ApplyBatch`: an error, or whether `fn` was applied. Whether the context of `fn` holds a
transaction is its argument. -/
def ApplyBatch (now : Time) (batchID : String) (fn : Bool → StoreM Bool) :
    StoreM (Option Bool) :=
  if batchID = "" then do
    if ← fn false then pure (some true) else pure none
  else do
    if ← beginTx then
      match ← execTx (.claim batchID now) with
      | none => do
        rollbackTx
        pure none
      | some 0 => do
        rollbackTx
        pure (some false)
      | some _ => do
        if ← fn true then
          if ← commitTx then pure (some true) else pure none
        else
          rollbackTx
          pure none
    else pure none

/-- `requestBatchID`. -/
def requestBatchID (header : String) : String := trimSpace header

/-- `applyIngest`: the error that was answered, or whether `fn` was applied. Otherwise a repeat
was acknowledged. -/
def applyIngest (now : Time) (header : String) (fn : Bool → StoreM Bool) :
    StoreM (Except HttpError Bool) := do
  match ← ApplyBatch now (requestBatchID header) fn with
  | none => pure (.error ⟨500, "store error"⟩)
  | some applied => pure (.ok applied)

/-- The closure of `handleLogsBatch`. -/
def writeLogsBatch (rt : Runtime) (number : ℚ → Number) (entries : List LogEntry)
    (inTx : Bool) : StoreM Bool := do
  if ← WriteLogs number inTx (entries.map (LogEntry.enriched rt)) then
    if (entries.map (LogEntry.enriched rt)).flatMap (deriveMetricsFromLog rt) = [] then pure true
    else WriteMetrics inTx ((entries.map (LogEntry.enriched rt)).flatMap (deriveMetricsFromLog rt))
  else pure false

/-- `handleLogsBatch` with the value of `X-Argus-Batch-Id` and the decoded body, if it can be
decoded: the error, or, with the status 202, the entries that go into the pattern queue. -/
def handleLogsBatch (rt : Runtime) (number : ℚ → Number) (now : Time) (header : String) :
    Option (List LogEntry) → StoreM (Except HttpError (List LogEntry))
  | none => pure (.error ⟨400, "invalid json"⟩)
  | some [] => pure (.ok [])
  | some entries => do
    match ← applyIngest now header (writeLogsBatch rt number entries) with
    | .error e => pure (.error e)
    | .ok applied =>
      pure (.ok (if applied then entries.map (LogEntry.enriched rt) else []))

/-- The status of an answer. -/
def answerStatus {α : Type} : Except HttpError α → ℕ
  | .error e => e.status
  | .ok _ => 202

/-! ### What the statements leave -/

/-- The statements of `insertLogs`. -/
def logStatements (number : ℚ → Number) (entries : List LogEntry) :
    List (Option IngestStatement) :=
  some (.prepare "log_entries") :: entries.map fun e => (e.row number).map .insertLog

/-- The statements of `upsertWorkloadLatest`. -/
def latestStatements (latest : SortedMap WorkloadKey MetricPoint) :
    List (Option IngestStatement) :=
  if latest.entries = [] then []
  else some (.prepare "workload_latest") ::
    latest.entries.map fun e => some (.upsertLatest e.1 e.2)

/-- The statements of `insertMetrics`. -/
def metricStatements (points : List MetricPoint) : List (Option IngestStatement) :=
  (some (.prepare "metric_points") :: points.map fun p => some (.insertMetric p)) ++
    latestStatements ((∅ : SortedMap WorkloadKey MetricPoint).upsertAll keepLatest
      (keyedPoints points))

/-- The statements of a request: those of the logs, and those of the metrics if there are any. -/
def batchStatements (rt : Runtime) (number : ℚ → Number) (entries : List LogEntry) :
    List (Option IngestStatement) :=
  let derived := entries.flatMap (deriveMetricsFromLog rt)
  logStatements number entries ++ if derived = [] then [] else metricStatements derived

theorem insertLogsTx_eq (number : ℚ → Number) (entries : List LogEntry) :
    insertLogsTx number entries = execAll (logStatements number entries) := by
  refine congrArg (Program.call (TxOp.exec (IngestStatement.prepare "log_entries")))
    (funext fun r => ?_)
  cases r <;> rfl

theorem upsertWorkloadLatestTx_eq (latest : SortedMap WorkloadKey MetricPoint) :
    upsertWorkloadLatestTx latest = execAll (latestStatements latest) := by
  rw [upsertWorkloadLatestTx, latestStatements]
  split_ifs
  · rfl
  · refine congrArg (Program.call (TxOp.exec (IngestStatement.prepare "workload_latest")))
      (funext fun r => ?_)
    cases r <;> rfl

theorem insertMetricsTx_eq (points : List MetricPoint) :
    insertMetricsTx points = execAll (metricStatements points) := by
  rw [insertMetricsTx, metricStatements, execAll_append, upsertWorkloadLatestTx_eq]
  refine congrArg (Program.call (TxOp.exec (IngestStatement.prepare "metric_points")))
    (funext fun r => ?_)
  cases r <;> rfl

/-- In one transaction the closure runs all its statements. -/
theorem writeLogsBatch_inTx (rt : Runtime) (number : ℚ → Number) (entries : List LogEntry) :
    writeLogsBatch rt number entries true =
      execAll (batchStatements rt number (entries.map (LogEntry.enriched rt))) := by
  rw [batchStatements, execAll_append, writeLogsBatch, WriteLogs, if_pos rfl, WriteMetrics,
    if_pos rfl, insertLogsTx_eq, insertMetricsTx_eq]
  split_ifs <;> rfl

/-- The rows of the entries, where each has one that the store takes. -/
def logRows (number : ℚ → Number) (entries : List LogEntry) : Option (List LogRow) :=
  entries.mapM fun e => (e.row number).filter LogRow.valid

/-- The statements of `insertLogs` append the rows. -/
theorem applyAll_logStatements (number : ℚ → Number) (entries : List LogEntry)
    (t : IngestTables) :
    applyAll IngestTables.apply t (logStatements number entries) =
      (logRows number entries).map fun rows => { t with logs := t.logs ++ rows } := by
  rw [logStatements, applyAll, IngestTables.apply, Option.bind_some]
  dsimp only
  induction entries generalizing t with
  | nil => simp [applyAll, logRows]
  | cons e entries ih =>
    rw [List.map_cons, logRows, List.mapM_cons, ← logRows]
    cases hrow : e.row number with
    | none => rfl
    | some row =>
      rw [Option.map_some, applyAll, IngestTables.apply, Option.filter_some]
      by_cases hvalid : row.valid = true
      · rw [if_pos hvalid, if_pos hvalid, Option.bind_some, ih]
        cases logRows number entries with
        | none => rfl
        | some rows => simp
      · rw [if_neg hvalid, if_neg hvalid]
        rfl

/-- The inserts of the points. -/
theorem applyAll_insertMetric (points : List MetricPoint) (t : IngestTables) :
    applyAll IngestTables.apply t (points.map fun p => some (.insertMetric p)) =
      if points.all MetricPoint.valid then
        some { t with metrics :=
          { t.metrics with points := t.metrics.points ++ points.map MetricPoint.toRow } }
      else none := by
  induction points generalizing t with
  | nil => simp [applyAll]
  | cons p points ih =>
    rw [List.map_cons, applyAll, IngestTables.apply, List.all_cons]
    by_cases hvalid : p.valid = true
    · rw [if_pos hvalid, Option.bind_some, ih, hvalid, Bool.true_and]
      simp
    · rw [if_neg hvalid, Bool.not_eq_true _ |>.mp hvalid]
      rfl

/-- The upserts of the newest points. -/
theorem applyAll_latestStatements (latest : SortedMap WorkloadKey MetricPoint)
    (t : IngestTables) :
    applyAll IngestTables.apply t (latestStatements latest) =
      (upsertWorkloadLatest t.metrics.latest latest.entries).map fun table =>
        { t with metrics := { t.metrics with latest := table } } := by
  have hentries : ∀ (entries : List (WorkloadKey × MetricPoint)) (t : IngestTables),
      applyAll IngestTables.apply t (entries.map fun e => some (.upsertLatest e.1 e.2)) =
        (upsertWorkloadLatest t.metrics.latest entries).map fun table =>
          { t with metrics := { t.metrics with latest := table } } := by
    intro entries
    induction entries with
    | nil => exact fun t => rfl
    | cons e entries ih =>
      intro t
      rw [List.map_cons, applyAll, IngestTables.apply, upsertWorkloadLatest_eq_ite,
        List.all_cons]
      by_cases hvalid : upsertValid (e.1, e.2) = true
      · rw [if_pos hvalid, Option.bind_some, ih, upsertWorkloadLatest_eq_ite, hvalid,
          Bool.true_and]
        split_ifs <;> rfl
      · rw [if_neg hvalid, Bool.not_eq_true _ |>.mp hvalid]
        rfl
  rw [latestStatements]
  split_ifs with hnil
  · rw [hnil]
    rfl
  · rw [applyAll, IngestTables.apply, Option.bind_some]
    exact hentries latest.entries t

/-- The statements of `insertMetrics` do what `insertMetrics` computes. -/
theorem applyAll_metricStatements (points : List MetricPoint) (t : IngestTables) :
    applyAll IngestTables.apply t (metricStatements points) =
      (insertMetrics t.metrics points).map fun metrics => { t with metrics := metrics } := by
  rw [metricStatements, applyAll_append, applyAll, IngestTables.apply, Option.bind_some,
    applyAll_insertMetric, insertMetrics_eq_ite]
  split_ifs
  · rw [Option.bind_some, applyAll_latestStatements, Option.map_map]
    rfl
  · rfl

/-! ### What a request leaves -/

/-- The statements of a batch with an id. -/
def claimStatements (now : Time) (batchID : String) (stmts : List (Option IngestStatement)) :
    List (Option IngestStatement) :=
  some (.claim batchID now) :: stmts

/-- What a claimed batch comes to. -/
structure Claimed (fate : ℕ → Fate) (now : Time) (batchID : String)
    (stmts : List (Option IngestStatement)) (t t' : IngestTables) (res : Option Bool) : Prop where
  /-- An error leaves the tables, or the whole batch if the answer of the commit is lost. -/
  error : res = none →
    t' = leftByError IngestTables.apply fate 0 (claimStatements now batchID stmts) t
  /-- A repeat finds its id, and leaves the tables. -/
  repeated : res = some false → t' = t ∧ (t.batches.get? batchID).isSome
  /-- What is applied is the claim and all statements. -/
  applied : res = some true → (t.batches.get? batchID).isSome = false ∧
    applyAll IngestTables.apply { t with batches := t.batches.insert batchID now } stmts = some t'
  /-- Nothing but an operation without an answer or the content of a statement is an error. -/
  healthy : (∀ i, fate i = .answered) → res = none → validTexts [batchID, now.format] = false ∨
    applyAll IngestTables.apply { t with batches := t.batches.insert batchID now } stmts = none

/-- A claim that is made goes on to all statements and the commit. -/
theorem run_claimed {fate : ℕ → Fate} {now : Time} {batchID : String}
    {stmts : List (Option IngestStatement)} {t : IngestTables} (hbegin : fate 0 = .answered)
    (hclaim : fate 1 = .answered) (hseen : (t.batches.get? batchID).isSome = false)
    (hclaimed : applyAll IngestTables.apply t (claimStatements now batchID stmts) =
      applyAll IngestTables.apply { t with batches := t.batches.insert batchID now } stmts) :
    ∃ res t' i, (execAll stmts >>= fun ok =>
        if ok then do
          if ← commitTx then pure (some true) else pure none
        else do
          rollbackTx
          pure none : StoreM (Option Bool)).run (txAnswer IngestTables.apply fate)
        ⟨t, some { t with batches := t.batches.insert batchID now }, 2⟩ = (res, ⟨t', none, i⟩) ∧
      Claimed fate now batchID stmts t t' res := by
  have hlength : (claimStatements now batchID stmts).length = stmts.length + 1 := rfl
  rw [Program.run_bind]
  rcases run_execAll IngestTables.apply fate t
      { t with batches := t.batches.insert batchID now } 2 stmts with
    ⟨w', happly, hok, hrun⟩ | ⟨hfail, w', i', hrun⟩
  · rw [hrun]
    simp only [if_true, Program.call_bind, Program.ret_bind, Program.run_call]
    have hbefore : ∀ j < stmts.length + 2, fate j = .answered := by
      rintro (- | - | j) hj
      · exact hbegin
      · exact hclaim
      · rw [show j + 1 + 1 = 2 + j by omega]
        exact hok j (by omega)
    have hlast : 0 + (stmts.length + 1) + 1 = 2 + stmts.length := by omega
    rcases hcommit : fate (2 + stmts.length) with - | - | -
    · exact ⟨some true, w', 2 + stmts.length + 1, by simp [txAnswer, hcommit], by simp, by simp,
        fun _ => ⟨hseen, happly⟩, by simp⟩
    · -- the commit is not carried out
      have hlost : ¬ CommitLost fate 0 (claimStatements now batchID stmts).length := fun h =>
        absurd (hcommit.symm.trans (hlast ▸ h.2)) (by decide)
      refine ⟨none, t, 2 + stmts.length + 1, by simp [txAnswer, hcommit],
        fun _ => (if_neg hlost).symm, by simp, by simp, fun h => ?_⟩
      exact absurd (hcommit.symm.trans (h _)) (by decide)
    · -- the commit is carried out, and its answer is lost
      have hlost : CommitLost fate 0 (claimStatements now batchID stmts).length :=
        ⟨fun j hj => by rw [Nat.zero_add]; exact hbefore j hj, hlast ▸ hcommit⟩
      refine ⟨none, w', 2 + stmts.length + 1, by simp [txAnswer, hcommit], fun _ => ?_, by simp,
        by simp, fun h => ?_⟩
      · rw [leftByError, if_pos hlost, hclaimed, happly, Option.getD_some]
      · exact absurd (hcommit.symm.trans (h _)) (by decide)
  · -- a statement is an error, for its content or its fate
    refine ⟨none, t, i', by rw [hrun]; rfl, fun _ => ?_, by simp, by simp, fun h _ => ?_⟩
    · rcases hfail with hnone | ⟨j, hj, hfate⟩
      · exact (leftByError_of_none (hclaimed.trans hnone)).symm
      · exact (leftByError_of_ne (i := 0) (j := 2 + j) (by omega) (by rwa [Nat.zero_add])).symm
    · refine .inr (hfail.resolve_right ?_)
      rintro ⟨j, -, hj⟩
      exact hj (h (2 + j))

/-- **A batch with an id.** -/
theorem run_applyBatch (fate : ℕ → Fate) (now : Time) {batchID : String} (hid : batchID ≠ "")
    {fn : Bool → StoreM Bool} {stmts : List (Option IngestStatement)}
    (hfn : fn true = execAll stmts) (t : IngestTables) :
    ∃ res t' i, (ApplyBatch now batchID fn).run (txAnswer IngestTables.apply fate)
        ⟨t, none, 0⟩ = (res, ⟨t', none, i⟩) ∧ Claimed fate now batchID stmts t t' res := by
  have hleft : ∀ j < stmts.length + 2, fate j ≠ .answered →
      t = leftByError IngestTables.apply fate 0 (claimStatements now batchID stmts) t :=
    fun j hj hfate => (leftByError_of_ne (i := 0) hj (by rwa [Nat.zero_add])).symm
  rw [ApplyBatch, if_neg hid]
  simp only [Program.call_bind, Program.ret_bind, Program.run_call]
  by_cases hbegin : fate 0 = .answered
  swap
  · refine ⟨none, t, 1, ?_, fun _ => hleft 0 (by omega) hbegin, by simp, by simp,
      fun h => absurd (h 0) hbegin⟩
    rcases hfate : fate 0 with - | - | -
    · exact absurd hfate hbegin
    · simp [txAnswer, hfate]
    · simp [txAnswer, hfate]
  have hstart : txAnswer IngestTables.apply fate ⟨t, none, 0⟩ TxOp.begin =
      (true, ⟨t, some t, 1⟩) := by
    simp [txAnswer, hbegin]
  rw [hstart]
  simp only [if_true, Program.run_call]
  by_cases hclaim : fate 1 = .answered
  swap
  · obtain ⟨w', hanswer⟩ := exec_of_ne IngestTables.apply t t hclaim (.claim batchID now)
    refine ⟨none, t, 2, ?_, fun _ => hleft 1 (by omega) hclaim, by simp, by simp,
      fun h => absurd (h 1) hclaim⟩
    rw [hanswer]
    rfl
  by_cases htext : validTexts [batchID, now.format] = true
  swap
  · -- the id or the time is no text for the column
    rw [Bool.not_eq_true] at htext
    have hnone : applyAll IngestTables.apply t (claimStatements now batchID stmts) = none := by
      simp [claimStatements, applyAll, IngestTables.apply, htext]
    refine ⟨none, t, 2, ?_, fun _ => (leftByError_of_none hnone).symm, by simp, by simp,
      fun _ _ => .inl htext⟩
    simp [txAnswer, hclaim, IngestTables.apply, htext]
  by_cases hseen : (t.batches.get? batchID).isSome = true
  · -- a repeat affects no row
    refine ⟨some false, t, 2, ?_, by simp, fun _ => ⟨rfl, hseen⟩, by simp, by simp⟩
    simp [txAnswer, hclaim, IngestTables.apply, htext, hseen]
  rw [Bool.not_eq_true] at hseen
  have hinsert : txAnswer IngestTables.apply fate ⟨t, some t, 1⟩ (TxOp.exec (.claim batchID now)) =
      (some 1, ⟨t, some { t with batches := t.batches.insert batchID now }, 2⟩) := by
    simp [txAnswer, hclaim, IngestTables.apply, htext, hseen]
  rw [hinsert]
  simp only
  rw [hfn]
  exact run_claimed hbegin hclaim hseen
    (by simp [claimStatements, applyAll, IngestTables.apply, htext, hseen])

/-- The tables with the rows of a request, where each entry has one that the store takes. -/
def withLogs (number : ℚ → Number) (entries : List LogEntry) (t : IngestTables) : IngestTables :=
  (logRows number entries).elim t fun rows => { t with logs := t.logs ++ rows }

theorem length_logStatements (number : ℚ → Number) (entries : List LogEntry) :
    (logStatements number entries).length = entries.length + 1 := by
  rw [logStatements, List.length_cons, List.length_map]

/-- The points that are derived from the entries of a request. -/
def derivedPoints (rt : Runtime) (entries : List LogEntry) : List MetricPoint :=
  (entries.map (LogEntry.enriched rt)).flatMap (deriveMetricsFromLog rt)

/-- What a request without a batch id leaves when it ends in an error: a transaction for the rows,
and, when that one is answered, one for the metrics. -/
def leftWithoutID (rt : Runtime) (number : ℚ → Number) (entries : List LogEntry) (fate : ℕ → Fate)
    (t : IngestTables) : IngestTables :=
  let logs := logStatements number (entries.map (LogEntry.enriched rt))
  if (logRows number (entries.map (LogEntry.enriched rt))).isSome ∧
      ∀ j < entries.length + 3, fate j = .answered then
    leftByError IngestTables.apply fate (entries.length + 3)
      (metricStatements (derivedPoints rt entries))
      (withLogs number (entries.map (LogEntry.enriched rt)) t)
  else leftByError IngestTables.apply fate 0 logs t

/-- **A batch without an id.** Two transactions: an error leaves the log rows when the first one
was committed. -/
theorem run_writeLogsBatch (rt : Runtime) (number : ℚ → Number) (entries : List LogEntry)
    (fate : ℕ → Fate) (t : IngestTables) :
    ∃ ok t' i, (writeLogsBatch rt number entries false).run (txAnswer IngestTables.apply fate)
        ⟨t, none, 0⟩ = (ok, ⟨t', none, i⟩) ∧
      (ok = false → t' = leftWithoutID rt number entries fate t) := by
  have hlength : (logStatements number (entries.map (LogEntry.enriched rt))).length + 2 =
      entries.length + 3 := by
    rw [length_logStatements, List.length_map]
  rw [writeLogsBatch, WriteLogs, if_neg Bool.false_ne_true, WriteMetrics,
    if_neg Bool.false_ne_true, insertLogsTx_eq, insertMetricsTx_eq, Program.run_bind]
  rcases run_transaction IngestTables.apply fate t 0
      (logStatements number (entries.map (LogEntry.enriched rt))) with
    ⟨t₁, happly, hok, hrun⟩ | ⟨hfail, i', hrun⟩
  · -- the rows are committed, whatever becomes of the metrics
    rw [hlength] at hok
    rw [applyAll_logStatements] at happly
    obtain ⟨rows, hrows, rfl⟩ := Option.map_eq_some_iff.mp happly
    have hall : (logRows number (entries.map (LogEntry.enriched rt))).isSome ∧
        ∀ j < entries.length + 3, fate j = .answered :=
      ⟨by rw [hrows]; rfl, fun j hj => Nat.zero_add j ▸ hok j hj⟩
    have hwith : withLogs number (entries.map (LogEntry.enriched rt)) t =
        { t with logs := t.logs ++ rows } := by
      rw [withLogs, hrows]
      rfl
    rw [leftWithoutID, if_pos hall, hwith, hrun]
    simp only [if_true]
    split_ifs
    · exact ⟨true, _, _, rfl, by simp⟩
    · have hnext : 0 + (logStatements number (entries.map (LogEntry.enriched rt))).length + 2 =
          entries.length + 3 := by rw [Nat.zero_add, hlength]
      rw [hnext, ← derivedPoints]
      rcases run_transaction IngestTables.apply fate { t with logs := t.logs ++ rows }
          (entries.length + 3) (metricStatements (derivedPoints rt entries)) with
        ⟨t₂, -, -, hrun⟩ | ⟨-, i', hrun⟩
      · exact ⟨true, t₂, _, hrun, by simp⟩
      · exact ⟨false, _, i', hrun, fun _ => rfl⟩
  · refine ⟨false, _, i', by rw [hrun]; rfl, fun _ => ?_⟩
    have hall : ¬((logRows number (entries.map (LogEntry.enriched rt))).isSome ∧
        ∀ j < entries.length + 3, fate j = .answered) := by
      rintro ⟨hrows, hanswered⟩
      rcases hfail with hnone | ⟨j, hj, hfate⟩
      · rw [applyAll_logStatements, Option.map_eq_none_iff] at hnone
        rw [hnone] at hrows
        exact absurd hrows (by decide)
      · rw [hlength] at hj
        rw [Nat.zero_add] at hfate
        exact hfate (hanswered j hj)
    rw [leftWithoutID, if_neg hall]

/-- **A request that fails.** A logs request with a batch id that is answered with an error of the
store leaves the tables as they were, or all of the request, its id too, when everything was carried
out and the answer of the commit alone is lost. Without an id there are two transactions of which
the same holds: the rows are there when the first one was committed, and the metrics too when the
second one was and its answer is lost. -/
theorem failedLogs_leaves (rt : Runtime) (number : ℚ → Number) (now : Time) (header : String)
    (entries : List LogEntry) (fate : ℕ → Fate) (t : IngestTables) :
    ∃ answer t' i, (handleLogsBatch rt number now header (some entries)).run
        (txAnswer IngestTables.apply fate) ⟨t, none, 0⟩ = (answer, ⟨t', none, i⟩) ∧
      (answerStatus answer = 500 →
        t' = if requestBatchID header = "" then leftWithoutID rt number entries fate t
          else leftByError IngestTables.apply fate 0 (claimStatements now (requestBatchID header)
            (batchStatements rt number (entries.map (LogEntry.enriched rt)))) t) := by
  cases entries with
  | nil => exact ⟨.ok [], t, 0, rfl, by simp [answerStatus]⟩
  | cons e₀ entries =>
    rw [handleLogsBatch.eq_3 _ _ _ _ _ (List.cons_ne_nil e₀ entries), applyIngest]
    by_cases hid : requestBatchID header = ""
    · obtain ⟨ok, t', i, hrun, hleft⟩ :=
        run_writeLogsBatch rt number (e₀ :: entries) fate t
      rw [hid, ApplyBatch, if_pos rfl, Program.run_bind, Program.run_bind, Program.run_bind, hrun]
      cases ok with
      | true => exact ⟨_, t', i, rfl, by simp [answerStatus]⟩
      | false =>
        refine ⟨_, t', i, rfl, fun _ => ?_⟩
        rw [if_pos rfl]
        exact hleft rfl
    · obtain ⟨res, t', i, hrun, hclaimed⟩ := run_applyBatch fate now hid
        (writeLogsBatch_inTx rt number (e₀ :: entries)) t
      rw [Program.run_bind, Program.run_bind, hrun]
      cases res with
      | some applied => exact ⟨_, t', i, rfl, by simp [answerStatus]⟩
      | none =>
        refine ⟨_, t', i, rfl, fun _ => ?_⟩
        rw [if_neg hid]
        exact hclaimed.error rfl

/-- An entry for a request that was answered. -/
def answeredEntry : LogEntry where
  ts := ⟨63844891200000000000⟩
  message := "GET / ok 200 (1ms)"
  level := "info"
  entityUID := "docker:h:api"
  labels := ∅
  fields := ∅

/-- **Half a request.** Without a batch id, the second transaction of a request cannot be begun:
the hub answers 500, and the log row is stored. -/
theorem logs_without_metrics : ¬ ∀ (rt : Runtime) (number : ℚ → Number) (now : Time)
    (header : String) (entries : List LogEntry) (fate : ℕ → Fate) (t : IngestTables)
    (answer : Except HttpError (List LogEntry)) (s : TxSession IngestTables),
    (handleLogsBatch rt number now header (some entries)).run (txAnswer IngestTables.apply fate)
      ⟨t, none, 0⟩ = (answer, s) → answerStatus answer = 500 → s.committed.logs = t.logs := by
  intro hall
  let r := (handleLogsBatch asciiRuntime (fun _ => Number.ofDigit 0) ⟨63844891260000000000⟩ ""
    (some [answeredEntry])).run
      (txAnswer IngestTables.apply fun i => if i = 4 then .failed else .answered)
    ⟨IngestTables.empty, none, 0⟩
  have hrun : (answerStatus r.1, r.2.committed.logs.length) = (500, 1) := by decide +kernel
  obtain ⟨hstatus, hlength⟩ := Prod.mk.inj hrun
  have hlogs := hall _ _ _ _ _ _ _ r.1 r.2 rfl hstatus
  rw [hlogs] at hlength
  exact absurd hlength (by decide)

end Argus
