import Argus.Foundations.WorkQueue
import Argus.Store.PatternCuts

/-!
# The pattern queue

A batch of logs that was stored is put into a queue of sixty-four, without waiting: what meets a
full queue is not looked at. `patternWorker` takes batch after batch and records first its patterns
and then its topology, each in a transaction that may fail for the whole batch.
`patterns_conserved` says where every message of every batch is: it is counted in `log_patterns`,
or its batch waits, was dropped at a full queue, or failed.
-/

namespace Argus

open Foundations SortedMap

/-! ### The queue and its worker -/

/-- The room of `patternQueue`. -/
def patternQueueSize : ℕ := 64

/-- What `patternWorker` does with the batch that it has taken. -/
inductive WorkerStage
  | patterns (batch : List LogEntry)
  | topology (batch : List LogEntry)

/-- The queue, the worker, the two tables, and what became of the batches whose patterns and whose
topology the worker has tried to record. -/
structure PatternPipeline where
  queue : WorkQueue (List LogEntry)
  worker : Option WorkerStage
  patterns : SortedMap PatternKey PatternRow
  edges : SortedMap EdgeKey EdgeRow
  patternsTried : List (List LogEntry × Bool)
  edgesTried : List (List LogEntry × Bool)

/-- A hub that has just been started on an empty store. -/
def PatternPipeline.initial : PatternPipeline := ⟨.empty, none, ∅, ∅, [], []⟩

/-- A request offers its batch, or the worker goes on. A transaction may fail at any time. -/
inductive PatternStep (rt : Runtime) : PatternPipeline → PatternPipeline → Prop
  | offer (s : PatternPipeline) (batch : List LogEntry) :
      PatternStep rt s { s with queue := s.queue.offer patternQueueSize batch }
  | take {s : PatternPipeline} {batch : List LogEntry} {rest : List (List LogEntry)}
      (idle : s.worker = none) (waiting : s.queue.waiting = batch :: rest) :
      PatternStep rt s
        { s with
          queue := { s.queue with taken := s.queue.taken ++ [batch], waiting := rest }
          worker := some (.patterns batch) }
  | record {s : PatternPipeline} {batch : List LogEntry}
      {table : SortedMap PatternKey PatternRow} (working : s.worker = some (.patterns batch))
      (h : recordLogPatterns rt s.patterns batch = some table) :
      PatternStep rt s
        { s with
          worker := some (.topology batch), patterns := table
          patternsTried := s.patternsTried ++ [(batch, true)] }
  | recordFails {s : PatternPipeline} {batch : List LogEntry}
      (working : s.worker = some (.patterns batch)) :
      PatternStep rt s
        { s with
          worker := some (.topology batch)
          patternsTried := s.patternsTried ++ [(batch, false)] }
  | link {s : PatternPipeline} {batch : List LogEntry} {table : SortedMap EdgeKey EdgeRow}
      (working : s.worker = some (.topology batch))
      (h : recordTopologyEdges rt s.edges batch = some table) :
      PatternStep rt s
        { s with worker := none, edges := table, edgesTried := s.edgesTried ++ [(batch, true)] }
  | linkFails {s : PatternPipeline} {batch : List LogEntry}
      (working : s.worker = some (.topology batch)) :
      PatternStep rt s
        { s with worker := none, edgesTried := s.edgesTried ++ [(batch, false)] }

/-- The states of every run. -/
def PatternPipeline.Reachable (rt : Runtime) (s : PatternPipeline) : Prop :=
  Relation.ReflTransGen (PatternStep rt) .initial s

/-! ### Counts -/

/-- How often the messages of some entries show an edge. -/
def edgeOccurrences (rt : Runtime) (entries : List LogEntry) (k : EdgeKey) : ℕ :=
  (entries.flatMap (edgesOf rt)).countP fun edge =>
    decide (toLex (edge.source, toLex (edge.target, edge.kind)) = k)

/-- The count of an edge in the table. -/
def edgeCount (table : SortedMap EdgeKey EdgeRow) (k : EdgeKey) : ℕ :=
  ((table.get? k).map EdgeRow.count).getD 0

variable {rt : Runtime} {batch : List LogEntry}

theorem patternCount_of_recorded {table table' : SortedMap PatternKey PatternRow}
    (h : recordLogPatterns rt table batch = some table') (k : PatternKey) :
    patternCount table' k = patternCount table k + occurrences rt batch k := by
  obtain ⟨hvalid, rfl, -⟩ := recordLogPatterns_eq_some.mp h
  rw [← sum_counts hvalid, patternCount, get?_upsertAll]
  exact patternAccumulator.count_foldl _ _

theorem sum_edgeRows (entries : List LogEntry) (k : EdgeKey) :
    ((rowsFor k (entries.flatMap (edgeRows rt))).map EdgeRow.count).sum =
      edgeOccurrences rt entries k := by
  have hedges : ∀ (edges : List TopologyEdge) (ts : Time),
      ((rowsFor k (edges.map fun edge =>
        (toLex (edge.source, toLex (edge.target, edge.kind)), (⟨1, ts⟩ : EdgeRow)))).map
          EdgeRow.count).sum =
        edges.countP fun edge =>
          decide (toLex (edge.source, toLex (edge.target, edge.kind)) = k) := by
    intro edges ts
    induction edges with
    | nil => rfl
    | cons edge edges ih =>
      rw [List.map_cons, rowsFor_cons, List.countP_cons, ← ih]
      simp only [decide_eq_true_eq]
      split_ifs
      · rw [List.map_cons, List.sum_cons, Nat.add_comm]
      · rfl
  induction entries with
  | nil => rfl
  | cons e entries ih =>
    rw [List.flatMap_cons, rowsFor_append, List.map_append, List.sum_append, ih, edgeRows,
      hedges, edgeOccurrences, edgeOccurrences, List.flatMap_cons, List.countP_append]

theorem edgeCount_of_recorded {table table' : SortedMap EdgeKey EdgeRow}
    (h : recordTopologyEdges rt table batch = some table') (k : EdgeKey) :
    edgeCount table' k = edgeCount table k + edgeOccurrences rt batch k := by
  obtain ⟨-, hrun⟩ := execAll_eq_some.mp h
  have hmono : ∀ a b : EdgeRow, validInteger (mergeEdge a b).count = true →
      validInteger a.count = true := by
    intro a b hab
    have hcount : (mergeEdge a b).count = a.count + b.count := rfl
    rw [hcount, validInteger_natCast] at hab
    rw [validInteger_natCast]
    omega
  obtain ⟨rfl, -⟩ := (@tryUpsertAll_eq_some EdgeKey EdgeRow _ (fun r => validInteger r.count)
    mergeEdge hmono _ _ _).mp hrun
  rw [← sum_edgeRows, edgeCount, get?_upsertAll]
  exact edgeAccumulator.count_foldl _ _

/-! ### Every run -/

/-- What was recorded, of what was tried. -/
def recordedOf (tried : List (List LogEntry × Bool)) : List (List LogEntry) :=
  (tried.filter Prod.snd).map Prod.fst

/-- What failed. -/
def failedOf (tried : List (List LogEntry × Bool)) : List (List LogEntry) :=
  (tried.filter fun b => !b.2).map Prod.fst

/-- The batch whose patterns the worker has not tried yet. -/
def WorkerStage.beforePatterns : WorkerStage → List (List LogEntry)
  | patterns batch => [batch]
  | topology _ => []

/-- The batch whose topology the worker has not tried yet. -/
def WorkerStage.beforeTopology : WorkerStage → List (List LogEntry)
  | patterns batch => [batch]
  | topology batch => [batch]

/-- What holds at any time. -/
structure PatternInv (rt : Runtime) (s : PatternPipeline) : Prop where
  sound : s.queue.Sound patternQueueSize
  patternsTaken : s.queue.taken =
    s.patternsTried.map Prod.fst ++ s.worker.elim [] WorkerStage.beforePatterns
  edgesTaken : s.queue.taken =
    s.edgesTried.map Prod.fst ++ s.worker.elim [] WorkerStage.beforeTopology
  patterns : ∀ k, patternCount s.patterns k =
    ((recordedOf s.patternsTried).map fun b => occurrences rt b k).sum
  edges : ∀ k, edgeCount s.edges k =
    ((recordedOf s.edgesTried).map fun b => edgeOccurrences rt b k).sum

theorem recordedOf_concat (tried : List (List LogEntry × Bool)) (b : List LogEntry) (ok : Bool) :
    recordedOf (tried ++ [(b, ok)]) = recordedOf tried ++ if ok then [b] else [] := by
  cases ok <;> simp [recordedOf]

theorem PatternStep.inv {s s' : PatternPipeline} (hstep : PatternStep rt s s')
    (h : PatternInv rt s) : PatternInv rt s' := by
  obtain ⟨hsound, hpatternsTaken, hedgesTaken, hpatterns, hedges⟩ := h
  cases hstep with
  | offer batch => exact ⟨hsound.offer batch, hpatternsTaken, hedgesTaken, hpatterns, hedges⟩
  | take idle waiting =>
    rw [idle] at hpatternsTaken hedgesTaken
    refine ⟨hsound.take waiting, ?_, ?_, hpatterns, hedges⟩
    · rw [hpatternsTaken, Option.elim_none, List.append_nil]
      rfl
    · rw [hedgesTaken, Option.elim_none, List.append_nil]
      rfl
  | record working hrecord =>
    rw [working] at hpatternsTaken hedgesTaken
    refine ⟨hsound, ?_, hedgesTaken, fun k => ?_, hedges⟩
    · rw [hpatternsTaken, List.map_append, Option.elim_some, Option.elim_some]
      exact (List.append_nil _).symm
    · rw [patternCount_of_recorded hrecord, hpatterns, recordedOf_concat, if_pos rfl,
        List.map_append, List.sum_append, List.map_singleton, List.sum_singleton]
  | recordFails working =>
    rw [working] at hpatternsTaken hedgesTaken
    refine ⟨hsound, ?_, hedgesTaken, fun k => ?_, hedges⟩
    · rw [hpatternsTaken, List.map_append, Option.elim_some, Option.elim_some]
      exact (List.append_nil _).symm
    · rw [hpatterns, recordedOf_concat, if_neg Bool.false_ne_true, List.append_nil]
  | link working hrecord =>
    rw [working] at hpatternsTaken hedgesTaken
    refine ⟨hsound, hpatternsTaken, ?_, hpatterns, fun k => ?_⟩
    · rw [hedgesTaken, List.map_append, Option.elim_some, Option.elim_none, List.append_nil]
      rfl
    · rw [edgeCount_of_recorded hrecord, hedges, recordedOf_concat, if_pos rfl,
        List.map_append, List.sum_append, List.map_singleton, List.sum_singleton]
  | linkFails working =>
    rw [working] at hpatternsTaken hedgesTaken
    refine ⟨hsound, hpatternsTaken, ?_, hpatterns, fun k => ?_⟩
    · rw [hedgesTaken, List.map_append, Option.elim_some, Option.elim_none, List.append_nil]
      rfl
    · rw [hedges, recordedOf_concat, if_neg Bool.false_ne_true, List.append_nil]

theorem patternInv_initial : PatternInv rt .initial :=
  ⟨WorkQueue.sound_empty _, rfl, rfl, fun _ => rfl, fun _ => rfl⟩

theorem PatternPipeline.Reachable.inv {s : PatternPipeline} (h : s.Reachable rt) :
    PatternInv rt s := by
  induction h with
  | refl => exact patternInv_initial
  | tail _ hstep ih => exact hstep.inv ih

/-! ### Conservation -/

/-- Something about every batch, added up. -/
def overBatches (f : List LogEntry → ℕ) (batches : List (List LogEntry)) : ℕ :=
  (batches.map f).sum

theorem overBatches_tried (f : List LogEntry → ℕ) (tried : List (List LogEntry × Bool)) :
    overBatches f (tried.map Prod.fst) =
      overBatches f (recordedOf tried) + overBatches f (failedOf tried) := by
  induction tried with
  | nil => rfl
  | cons b tried ih =>
    obtain ⟨b, ok⟩ := b
    cases ok <;> simp [overBatches, recordedOf, failedOf] at ih ⊢ <;> omega

/-- **Where every message is.** In every run from empty tables that no purge takes rows from, the
messages of a pattern and a container in all the batches that were offered are as many as the table
counts and those of the batches that wait, that the worker has not tried yet, that failed and that
met a full queue; the same is true of the edges that messages show. The queue has at most sixty-four
batches, and no other was dropped than one that found as many. -/
theorem patterns_conserved {s : PatternPipeline} (h : s.Reachable rt) :
    (∀ k, overBatches (fun b => occurrences rt b k) (s.queue.offers.map Prod.snd) =
      patternCount s.patterns k + overBatches (fun b => occurrences rt b k)
        (s.queue.waiting ++ s.worker.elim [] WorkerStage.beforePatterns ++
          failedOf s.patternsTried ++ s.queue.dropped patternQueueSize)) ∧
    (∀ k, overBatches (fun b => edgeOccurrences rt b k) (s.queue.offers.map Prod.snd) =
      edgeCount s.edges k + overBatches (fun b => edgeOccurrences rt b k)
        (s.queue.waiting ++ s.worker.elim [] WorkerStage.beforeTopology ++
          failedOf s.edgesTried ++ s.queue.dropped patternQueueSize)) ∧
    s.queue.waiting.length ≤ patternQueueSize ∧
      ∀ b ∈ s.queue.dropped patternQueueSize, (patternQueueSize, b) ∈ s.queue.offers := by
  obtain ⟨hsound, hpatternsTaken, hedgesTaken, hpatterns, hedges⟩ := h.inv
  refine ⟨fun k => ?_, fun k => ?_, hsound.length_le, fun b hb => ?_⟩
  · have hsum := hsound.sum_offers fun b => occurrences rt b k
    have htried := overBatches_tried (fun b => occurrences rt b k) s.patternsTried
    rw [hpatternsTaken] at hsum
    simp only [overBatches, List.map_append, List.sum_append, List.map_map] at hsum htried ⊢
    rw [hpatterns]
    simp only [Function.comp_def] at hsum htried ⊢
    omega
  · have hsum := hsound.sum_offers fun b => edgeOccurrences rt b k
    have htried := overBatches_tried (fun b => edgeOccurrences rt b k) s.edgesTried
    rw [hedgesTaken] at hsum
    simp only [overBatches, List.map_append, List.sum_append, List.map_map] at hsum htried ⊢
    rw [hedges]
    simp only [Function.comp_def] at hsum htried ⊢
    omega
  · obtain ⟨o, ho, rfl⟩ := List.mem_map.mp hb
    obtain ⟨hmem, hfull⟩ := List.mem_filter.mp ho
    have hle := hsound.offers_le o hmem
    have hlt : ¬o.1 < patternQueueSize := by simpa using hfull
    have heq : o.1 = patternQueueSize := by omega
    exact heq ▸ hmem

/-- One batch waits behind one that failed. -/
def failedPipeline (batch : List LogEntry) : PatternPipeline where
  queue := ⟨[(0, batch), (1, batch)], [batch], [batch]⟩
  worker := some (.topology batch)
  patterns := ∅
  edges := ∅
  patternsTried := [(batch, false)]
  edgesTried := []

theorem reachable_failedPipeline (rt : Runtime) (batch : List LogEntry) :
    (failedPipeline batch).Reachable rt := by
  have hfirst : PatternPipeline.Reachable rt _ := .single (.offer .initial batch)
  have hsecond := hfirst.tail (.offer _ batch)
  have htaken := hsecond.tail (.take rfl rfl)
  exact htaken.tail (.recordFails rfl)

theorem patterns_conserved_failed :
    let s := failedPipeline [plainEntry "started"]
    (∀ k, overBatches (fun b => occurrences asciiRuntime b k) (s.queue.offers.map Prod.snd) =
      patternCount s.patterns k + overBatches (fun b => occurrences asciiRuntime b k)
        (s.queue.waiting ++ s.worker.elim [] WorkerStage.beforePatterns ++
          failedOf s.patternsTried ++ s.queue.dropped patternQueueSize)) ∧
    (∀ k, overBatches (fun b => edgeOccurrences asciiRuntime b k) (s.queue.offers.map Prod.snd) =
      edgeCount s.edges k + overBatches (fun b => edgeOccurrences asciiRuntime b k)
        (s.queue.waiting ++ s.worker.elim [] WorkerStage.beforeTopology ++
          failedOf s.edgesTried ++ s.queue.dropped patternQueueSize)) ∧
    s.queue.waiting.length ≤ patternQueueSize ∧
      ∀ b ∈ s.queue.dropped patternQueueSize, (patternQueueSize, b) ∈ s.queue.offers :=
  patterns_conserved (reachable_failedPipeline asciiRuntime _)

end Argus
