import Argus.Foundations.Accumulate
import Argus.Insights.Normalize
import Argus.Store.Columns
import Argus.Topology
import Mathlib.Data.Prod.Lex

/-!
# Log patterns and topology

Three tables accumulate what batches report: `log_patterns` and `topology_edges` the messages of
log batches, `topology_links` the links that agents observe. Each is an upsert that adds to a
count and overwrites `last_seen` unconditionally, so a late batch moves it back.

`accumulation_settles_iff` says for which two orders of the same batches the tables end up the
same, with counts that are the sums and with the largest times: those in which a newest record
comes last under every key. The condition also names what else an order can change, the columns
of `log_patterns` that only the first record sets, and what stops a batch, a text or a count
that its column does not take.
-/

namespace Argus

open Foundations SortedMap

/-! ### Records -/

/-- `model.TopologyLink`. -/
structure TopologyLink where
  source : String
  target : String
  kind : String
  port : ℕ
  count : ℕ
  ts : Time
  deriving DecidableEq

/-! ### Rows -/

/-- A row of `log_patterns`, without its id and its key. The sample is never empty. -/
structure PatternRow where
  pattern : String
  service : String
  count : ℕ
  lastSeen : Time
  sample : {s : String // s ≠ ""}
  deriving DecidableEq

/-- A row of `topology_edges`, without its key. -/
structure EdgeRow where
  count : ℕ
  lastSeen : Time
  deriving DecidableEq

/-- A row of `topology_links`, without its key. -/
structure LinkRow where
  kind : String
  count : ℕ
  lastSeen : Time
  deriving DecidableEq

/-- `UNIQUE(pattern_key, container)`. -/
abbrev PatternKey : Type := String ×ₗ String

/-- `PRIMARY KEY (source, target, kind)`. -/
abbrev EdgeKey : Type := String ×ₗ String ×ₗ String

/-- `PRIMARY KEY (source, target, port)`. -/
abbrev LinkKey : Type := String ×ₗ String ×ₗ ℕ

/-- The update of `log_patterns` on conflict. -/
def mergePattern (stored excluded : PatternRow) : PatternRow :=
  { stored with
    count := stored.count + excluded.count
    lastSeen := excluded.lastSeen
    sample := if excluded.sample.1.length > 0 then excluded.sample else stored.sample }

/-- The update of `topology_edges` on conflict. -/
def mergeEdge (stored excluded : EdgeRow) : EdgeRow :=
  { stored with
    count := stored.count + excluded.count
    lastSeen := excluded.lastSeen }

/-- The update of `topology_links` on conflict. -/
def mergeLink (stored excluded : LinkRow) : LinkRow where
  kind := excluded.kind
  count := stored.count + excluded.count
  lastSeen := excluded.lastSeen

/-- `log_patterns` accumulates: the first record sets pattern and service. -/
def patternAccumulator : Accumulator PatternRow (String × String) {s : String // s ≠ ""} Time where
  merge := mergePattern
  fixed r := (r.pattern, r.service)
  latest r := r.sample
  seen r := r.lastSeen
  count r := r.count
  fixed_merge _ _ := rfl
  latest_merge _ b := by
    have : b.sample.1.length > 0 :=
      Nat.pos_of_ne_zero fun h => b.sample.2 (String.length_eq_zero_iff.mp h)
    rw [mergePattern, if_pos this]
  seen_merge _ _ := rfl
  count_merge _ _ := rfl
  eq_of a b hfixed hlatest hseen hcount := by
    obtain ⟨hpattern, hservice⟩ := Prod.mk.inj hfixed
    cases a
    cases b
    simp_all

/-- `topology_edges` accumulates. -/
def edgeAccumulator : Accumulator EdgeRow Unit Unit Time where
  merge := mergeEdge
  fixed _ := ()
  latest _ := ()
  seen r := r.lastSeen
  count r := r.count
  fixed_merge _ _ := rfl
  latest_merge _ _ := rfl
  seen_merge _ _ := rfl
  count_merge _ _ := rfl
  eq_of a b _ _ hseen hcount := by
    cases a
    cases b
    simp_all

/-- `topology_links` accumulates: every record sets the kind. -/
def linkAccumulator : Accumulator LinkRow Unit String Time where
  merge := mergeLink
  fixed _ := ()
  latest r := r.kind
  seen r := r.lastSeen
  count r := r.count
  fixed_merge _ _ := rfl
  latest_merge _ _ := rfl
  seen_merge _ _ := rfl
  count_merge _ _ := rfl
  eq_of a b _ hlatest hseen hcount := by
    cases a
    cases b
    simp_all

/-! ### Statements -/

section Exec

variable {α κ ρ : Type} [LinearOrder κ]

/-- The loop of a recorder: for each item, the statement with the rows of the item. It fails on
a text that a column does not take and on a count that is out of range. -/
def execAll (valid : α → Bool) (rows : α → List (κ × ρ)) (ok : ρ → Bool) (merge : ρ → ρ → ρ) :
    SortedMap κ ρ → List α → Option (SortedMap κ ρ)
  | table, [] => some table
  | table, x :: items =>
    if !valid x then none
    else
      match tryUpsertAll ok merge table (rows x) with
      | none => none
      | some table => execAll valid rows ok merge table items

/-- The loop goes through when every item is valid and no row is refused. -/
theorem execAll_eq_some {valid : α → Bool} {rows : α → List (κ × ρ)} {ok : ρ → Bool}
    {merge : ρ → ρ → ρ} {items : List α} {table table' : SortedMap κ ρ} :
    execAll valid rows ok merge table items = some table' ↔
      (∀ x ∈ items, valid x = true) ∧
        tryUpsertAll ok merge table (items.flatMap rows) = some table' := by
  induction items generalizing table with
  | nil => simp [execAll, tryUpsertAll]
  | cons x items ih =>
    rw [execAll, List.flatMap_cons, tryUpsertAll_append, List.forall_mem_cons]
    cases hx : valid x with
    | false => simp
    | true =>
      cases tryUpsertAll ok merge table (rows x) with
      | none => simp
      | some table₁ => simpa using ih

end Exec

/-- `sample`: the message, or its first 200 bytes. -/
def sampleOf (message : String) : Option String :=
  (cutBytes 200 message.toList).map String.ofList

theorem sampleOf_ne_empty {message sample : String} (hm : message ≠ "")
    (h : sampleOf message = some sample) : sample ≠ "" := by
  obtain ⟨cut, hcut, rfl⟩ := Option.map_eq_some_iff.mp h
  have hne := cutBytes_ne_nil (fun h => hm (String.toList_eq_nil_iff.mp h)) hcut
  intro heq
  exact hne (by simpa using congrArg String.toList heq)

/-- The row that the insert of `RecordLogPatterns` has for an entry; an entry without a pattern
is skipped. -/
def patternRows (rt : Runtime) (e : LogEntry) : List (PatternKey × PatternRow) :=
  match hnorm : normalizeLogMessage e.message, hsample : sampleOf e.message with
  | some norm, some sample =>
    if h : norm = "" then []
    else
      [(toLex (patternKey rt norm, e.labels.get "container"),
        { pattern := norm
          service := e.service
          count := 1
          lastSeen := e.ts
          sample := ⟨sample, sampleOf_ne_empty
            (fun hm => h (Option.some.inj ((hm ▸ hnorm).symm.trans normalizeLogMessage_empty)))
            hsample⟩ })]
  | _, _ => []

/-- Whether the columns of `log_patterns` take the texts of an entry. -/
def patternValid (rt : Runtime) (e : LogEntry) : Bool :=
  match normalizeLogMessage e.message, sampleOf e.message with
  | none, _ => false
  | some norm, none => norm == ""
  | some norm, some sample => norm == "" || validTexts [patternKey rt norm, norm,
      e.labels.get "container", e.service, e.ts.format, sample]

/-- `Postgres.RecordLogPatterns`. -/
def recordLogPatterns (rt : Runtime) (table : SortedMap PatternKey PatternRow)
    (entries : List LogEntry) : Option (SortedMap PatternKey PatternRow) :=
  execAll (patternValid rt) (patternRows rt) (fun r => validInteger r.count) mergePattern table
    entries

/-- The edges of an entry: those of its JSON, else those of its text. -/
def edgesOf (rt : Runtime) (e : LogEntry) : List TopologyEdge :=
  if (inferTopologyFromJSON rt e).isEmpty then inferTopologyEdges rt e
  else inferTopologyFromJSON rt e

/-- The rows that the inserts of `RecordTopologyEdges` have for an entry. -/
def edgeRows (rt : Runtime) (e : LogEntry) : List (EdgeKey × EdgeRow) :=
  (edgesOf rt e).map fun edge =>
    (toLex (edge.source, toLex (edge.target, edge.kind)), ⟨1, e.ts⟩)

/-- Whether the columns of `topology_edges` take the texts of an entry. -/
def edgeValid (rt : Runtime) (e : LogEntry) : Bool :=
  (edgesOf rt e).all fun edge => validTexts [edge.source, edge.target, edge.kind, e.ts.format]

/-- `Postgres.RecordTopologyEdges`. -/
def recordTopologyEdges (rt : Runtime) (table : SortedMap EdgeKey EdgeRow)
    (entries : List LogEntry) : Option (SortedMap EdgeKey EdgeRow) :=
  execAll (edgeValid rt) (edgeRows rt) (fun r => validInteger r.count) mergeEdge table entries

/-- A link that `insertTopologyLinks` skips. -/
def TopologyLink.skipped (l : TopologyLink) : Bool :=
  l.source == "" || l.target == "" || l.count == 0

/-- The row that the insert of `insertTopologyLinks` has for a link. -/
def linkRows (l : TopologyLink) : List (LinkKey × LinkRow) :=
  if l.skipped then []
  else [(toLex (l.source, toLex (l.target, l.port)), ⟨l.kind, l.count, l.ts⟩)]

/-- Whether the columns of `topology_links` take the values of a link. -/
def linkValid (l : TopologyLink) : Bool :=
  l.skipped || (validTexts [l.source, l.target, l.kind, l.ts.format] && validInteger l.port &&
    validInteger l.count)

/-- `insertTopologyLinks`, and `RecordTopologyLinks` around it. -/
def recordTopologyLinks (table : SortedMap LinkKey LinkRow) (links : List TopologyLink) :
    Option (SortedMap LinkKey LinkRow) :=
  execAll linkValid linkRows (fun r => validInteger r.count) mergeLink table links

/-! ### Batches -/

/-- A batch that accumulates. -/
inductive RecordBatch
  | logs (entries : List LogEntry)
  | links (links : List TopologyLink)

/-- The three tables. -/
structure PatternTables where
  patterns : SortedMap PatternKey PatternRow
  edges : SortedMap EdgeKey EdgeRow
  links : SortedMap LinkKey LinkRow

namespace RecordBatch

/-- The timestamps of a batch. -/
def times : RecordBatch → List Time
  | logs entries => entries.map LogEntry.ts
  | links ls => ls.map TopologyLink.ts

/-- The rows of a batch for `log_patterns`. -/
def patternRows (rt : Runtime) : RecordBatch → List (PatternKey × PatternRow)
  | logs entries => entries.flatMap (Argus.patternRows rt)
  | links _ => []

/-- The rows of a batch for `topology_edges`. -/
def edgeRows (rt : Runtime) : RecordBatch → List (EdgeKey × EdgeRow)
  | logs entries => entries.flatMap (Argus.edgeRows rt)
  | links _ => []

/-- The rows of a batch for `topology_links`. -/
def linkRows : RecordBatch → List (LinkKey × LinkRow)
  | logs _ => []
  | links ls => ls.flatMap Argus.linkRows

/-- Whether the columns take the values of a batch. -/
def valid (rt : Runtime) : RecordBatch → Bool
  | logs entries => entries.all fun e => patternValid rt e && edgeValid rt e
  | links ls => ls.all linkValid

end RecordBatch

/-- Apply one batch: a log batch goes to the two recorders of logs, a batch of links to the
recorder of links. -/
def applyRecord (rt : Runtime) (t : PatternTables) : RecordBatch → Option PatternTables
  | .logs entries => do
    let patterns ← recordLogPatterns rt t.patterns entries
    let edges ← recordTopologyEdges rt t.edges entries
    some { t with patterns := patterns, edges := edges }
  | .links ls => do
    let links ← recordTopologyLinks t.links ls
    some { t with links := links }

/-- Apply batches one after the other to empty tables. -/
def applyRecords (rt : Runtime) (order : List RecordBatch) : Option PatternTables :=
  order.foldlM (applyRecord rt) ⟨∅, ∅, ∅⟩

/-- A table that takes no rows stays. -/
private theorem tryUpsertAll_nil {κ ρ : Type} [LinearOrder κ] {ok : ρ → Bool} {merge : ρ → ρ → ρ}
    {m m' : SortedMap κ ρ} : tryUpsertAll ok merge m [] = some m' ↔ m = m' := by
  rw [tryUpsertAll, Option.some.injEq]

/-- One batch, table by table. -/
theorem applyRecord_eq_some {rt : Runtime} {b : RecordBatch} {t t' : PatternTables} :
    applyRecord rt t b = some t' ↔ b.valid rt = true ∧
      tryUpsertAll (fun r => validInteger r.count) mergePattern t.patterns (b.patternRows rt) =
        some t'.patterns ∧
      tryUpsertAll (fun r => validInteger r.count) mergeEdge t.edges (b.edgeRows rt) =
        some t'.edges ∧
      tryUpsertAll (fun r => validInteger r.count) mergeLink t.links b.linkRows =
        some t'.links := by
  obtain ⟨patterns', edges', links'⟩ := t'
  cases b with
  | logs entries =>
    simp only [applyRecord, Option.bind_eq_bind, Option.bind_eq_some_iff, recordLogPatterns,
      recordTopologyEdges, execAll_eq_some, RecordBatch.valid, RecordBatch.patternRows,
      RecordBatch.edgeRows, RecordBatch.linkRows, tryUpsertAll_nil, List.all_eq_true,
      Bool.and_eq_true, Option.some.injEq, PatternTables.mk.injEq]
    constructor
    · rintro ⟨p, ⟨hpv, hp⟩, e, ⟨hev, he⟩, rfl, rfl, hl⟩
      exact ⟨fun x hx => ⟨hpv x hx, hev x hx⟩, hp, he, hl⟩
    · rintro ⟨hv, hp, he, hl⟩
      exact ⟨_, ⟨fun x hx => (hv x hx).1, hp⟩, _, ⟨fun x hx => (hv x hx).2, he⟩, rfl, rfl, hl⟩
  | links ls =>
    simp only [applyRecord, Option.bind_eq_bind, Option.bind_eq_some_iff, recordTopologyLinks,
      execAll_eq_some, RecordBatch.valid, RecordBatch.patternRows, RecordBatch.edgeRows,
      RecordBatch.linkRows, tryUpsertAll_nil, List.all_eq_true, Option.some.injEq,
      PatternTables.mk.injEq]
    constructor
    · rintro ⟨l, ⟨hv, hl⟩, hp, he, rfl⟩
      exact ⟨hv, hp, he, hl⟩
    · rintro ⟨hv, hp, he, hl⟩
      exact ⟨_, ⟨hv, hl⟩, hp, he, rfl⟩

/-- Any batches, table by table. -/
theorem applyRecords_eq_some {rt : Runtime} {order : List RecordBatch} {t : PatternTables} :
    applyRecords rt order = some t ↔ (∀ b ∈ order, b.valid rt = true) ∧
      tryUpsertAll (fun r => validInteger r.count) mergePattern ∅
        (order.flatMap (RecordBatch.patternRows rt)) = some t.patterns ∧
      tryUpsertAll (fun r => validInteger r.count) mergeEdge ∅
        (order.flatMap (RecordBatch.edgeRows rt)) = some t.edges ∧
      tryUpsertAll (fun r => validInteger r.count) mergeLink ∅
        (order.flatMap RecordBatch.linkRows) = some t.links := by
  suffices ∀ (order : List RecordBatch) (t₀ t : PatternTables),
      order.foldlM (applyRecord rt) t₀ = some t ↔ (∀ b ∈ order, b.valid rt = true) ∧
        tryUpsertAll (fun r => validInteger r.count) mergePattern t₀.patterns
          (order.flatMap (RecordBatch.patternRows rt)) = some t.patterns ∧
        tryUpsertAll (fun r => validInteger r.count) mergeEdge t₀.edges
          (order.flatMap (RecordBatch.edgeRows rt)) = some t.edges ∧
        tryUpsertAll (fun r => validInteger r.count) mergeLink t₀.links
          (order.flatMap RecordBatch.linkRows) = some t.links from this order _ t
  intro order
  induction order with
  | nil =>
    intro t₀ t
    obtain ⟨p, e, l⟩ := t
    obtain ⟨p₀, e₀, l₀⟩ := t₀
    simp [tryUpsertAll]
  | cons b order ih =>
    intro t₀ t
    rw [List.foldlM_cons]
    simp only [Option.bind_eq_bind, Option.bind_eq_some_iff, ih, applyRecord_eq_some,
      List.flatMap_cons, tryUpsertAll_append, List.forall_mem_cons]
    constructor
    · rintro ⟨t₁, ⟨hb, hp, he, hl⟩, hv, hp', he', hl'⟩
      exact ⟨⟨hb, hv⟩, ⟨_, hp, hp'⟩, ⟨_, he, he'⟩, ⟨_, hl, hl'⟩⟩
    · rintro ⟨⟨hb, hv⟩, ⟨p, hp, hp'⟩, ⟨e, he, he'⟩, ⟨l, hl, hl'⟩⟩
      exact ⟨⟨p, e, l⟩, ⟨hb, hp, he, hl⟩, hv, hp', he', hl'⟩

/-! ### Two orders of the same batches -/

section Orders

variable {κ ρ φ ω : Type} [LinearOrder κ] (A : Accumulator ρ φ ω Time)
  (f : RecordBatch → List (κ × ρ))

/-- What is counted under a key. -/
def total (k : κ) (order : List RecordBatch) : ℕ :=
  ((rowsFor k (order.flatMap f)).map A.count).sum

/-- Under every key a newest record comes last in both orders, the first records agree in the
columns that they set, and the count fits its column. -/
def TableSettles (order₁ order₂ : List RecordBatch) : Prop :=
  ∀ k, A.NewestLast k (order₁.flatMap f) ∧ A.NewestLast k (order₂.flatMap f) ∧
    A.SameFixed k (order₁.flatMap f) (order₂.flatMap f) ∧ total A f k order₁ < 2 ^ 31

theorem validInteger_natCast (n : ℕ) : validInteger n = true ↔ n < 2 ^ 31 := by
  rw [validInteger, Bool.and_eq_true, decide_eq_true_iff, decide_eq_true_iff]
  omega

/-- A table takes batches when every count fits. -/
theorem tryUpsertAll_counts {order : List RecordBatch} {m : SortedMap κ ρ} :
    tryUpsertAll (fun r => validInteger (A.count r)) A.merge ∅ (order.flatMap f) = some m ↔
      m = (∅ : SortedMap κ ρ).upsertAll A.merge (order.flatMap f) ∧
        ∀ k, total A f k order < 2 ^ 31 := by
  have hmono : ∀ a b, validInteger (A.count (A.merge a b)) = true →
      validInteger (A.count a) = true := by
    intro a b h
    rw [A.count_merge, validInteger_natCast] at h
    rw [validInteger_natCast]
    omega
  refine
    (@tryUpsertAll_eq_some κ ρ _ (fun r => validInteger (A.count r)) A.merge hmono _ _ _).trans ?_
  refine and_congr_right fun _ => ?_
  -- the row that is left under a key counts its total
  have hrow : ∀ k r, (rowsFor k (order.flatMap f)).foldl (mergeInto A.merge) none = some r →
      (validInteger (A.count r) = true ↔ total A f k order < 2 ^ 31) := by
    intro k r hr
    rw [validInteger_natCast, (A.foldl_merge hr).2.2, total]
  constructor
  · intro h k
    cases hrows : rowsFor k (order.flatMap f) with
    | nil =>
      rw [total, hrows]
      exact Nat.two_pow_pos 31
    | cons x rows =>
      have hx : x ∈ rowsFor k (order.flatMap f) := by rw [hrows]; exact List.mem_cons_self
      obtain ⟨r, hr⟩ := A.exists_row hx
      have := h (k, x) (mem_rowsFor.mp hx)
      rw [A.get?_upsertAll_empty, hr, Option.all_some] at this
      exact (hrow k r hr).mp this
  · intro h e he
    rw [A.get?_upsertAll_empty]
    cases hr : (rowsFor e.1 (order.flatMap f)).foldl (mergeInto A.merge) none with
    | none => rfl
    | some r =>
      rw [Option.all_some]
      exact (hrow e.1 r hr).mpr (h e.1)

/-- One table, two orders of the same batches. -/
theorem table_settles_iff {order₁ order₂ : List RecordBatch} (hperm : order₁.Perm order₂)
    (htimes : ∀ b, ∀ e ∈ f b, A.seen e.2 ∈ b.times)
    (hdistinct : ∀ b ∈ order₁, ∀ b' ∈ order₁, b ≠ b' → ∀ t ∈ b.times, ∀ t' ∈ b'.times, t ≠ t') :
    (∃ m, tryUpsertAll (fun r => validInteger (A.count r)) A.merge ∅ (order₁.flatMap f) = some m ∧
      tryUpsertAll (fun r => validInteger (A.count r)) A.merge ∅ (order₂.flatMap f) = some m ∧
      A.ShowsTotals m (order₁.flatMap f)) ↔ TableSettles A f order₁ order₂ := by
  have htie : ∀ k, ∀ b ∈ (rowsFor k (order₁.flatMap f)).getLast?,
      ∀ b' ∈ (rowsFor k (order₂.flatMap f)).getLast?, A.seen b = A.seen b' →
        A.latest b = A.latest b' := by
    intro k b hb b' hb' hseen
    rw [List.flatMap_def] at hb hb'
    refine congrArg A.latest (A.last_eq_of_seen_eq (hperm.map f) ?_ hb hb' hseen)
    intro c hc c' hc' hne e he e' he'
    obtain ⟨x, hx, rfl⟩ := List.mem_map.mp hc
    obtain ⟨x', hx', rfl⟩ := List.mem_map.mp hc'
    exact hdistinct x hx x' hx' (fun heq => hne (heq ▸ rfl)) _ (htimes x e he) _ (htimes x' e' he')
  have hsettled := A.settled_iff (hperm.flatMap_right f) htie
  have htotal : ∀ k, total A f k order₂ = total A f k order₁ := fun k =>
    ((SortedMap.rowsFor_perm (hperm.flatMap_right f) k).map A.count).sum_eq.symm
  constructor
  · rintro ⟨m, h₁, h₂, htotals⟩ k
    obtain ⟨hm₁, hfits⟩ := (tryUpsertAll_counts A f).mp h₁
    obtain ⟨hm₂, -⟩ := (tryUpsertAll_counts A f).mp h₂
    obtain ⟨hnew₁, hnew₂, hfixed⟩ := hsettled.mp ⟨hm₁.symm.trans hm₂, hm₁ ▸ htotals⟩ k
    exact ⟨hnew₁, hnew₂, hfixed, hfits k⟩
  · intro h
    obtain ⟨heq, htotals⟩ := hsettled.mpr fun k => ⟨(h k).1, (h k).2.1, (h k).2.2.1⟩
    refine ⟨_, (tryUpsertAll_counts A f).mpr ⟨rfl, fun k => (h k).2.2.2⟩,
      (tryUpsertAll_counts A f).mpr ⟨heq, fun k => ?_⟩, htotals⟩
    rw [htotal]
    exact (h k).2.2.2

end Orders

/-- Every row of a batch has a timestamp of the batch. -/
theorem lastSeen_mem_times (rt : Runtime) (b : RecordBatch) :
    (∀ e ∈ b.patternRows rt, e.2.lastSeen ∈ b.times) ∧
      (∀ e ∈ b.edgeRows rt, e.2.lastSeen ∈ b.times) ∧ ∀ e ∈ b.linkRows, e.2.lastSeen ∈ b.times := by
  cases b with
  | logs entries =>
    refine ⟨fun e he => ?_, fun e he => ?_, fun e he => absurd he List.not_mem_nil⟩
    · obtain ⟨x, hx, he⟩ := List.mem_flatMap.mp he
      refine List.mem_map.mpr ⟨x, hx, ?_⟩
      rw [patternRows] at he
      split at he
      · split_ifs at he with hnorm
        · exact absurd he List.not_mem_nil
        · rw [List.mem_singleton.mp he]
      · exact absurd he List.not_mem_nil
    · obtain ⟨x, hx, he⟩ := List.mem_flatMap.mp he
      obtain ⟨edge, -, rfl⟩ := List.mem_map.mp he
      exact List.mem_map.mpr ⟨x, hx, rfl⟩
  | links ls =>
    refine ⟨fun e he => absurd he List.not_mem_nil, fun e he => absurd he List.not_mem_nil,
      fun e he => ?_⟩
    obtain ⟨l, hl, he⟩ := List.mem_flatMap.mp he
    refine List.mem_map.mpr ⟨l, hl, ?_⟩
    rw [linkRows] at he
    split_ifs at he with hskip
    · exact absurd he List.not_mem_nil
    · rw [List.mem_singleton.mp he]

/-- Two orders of batches leave the same rows, and the rows show the sums of the counts and the
largest timestamps. -/
def OrderIndependent (rt : Runtime) (order₁ order₂ : List RecordBatch) : Prop :=
  ∃ t, applyRecords rt order₁ = some t ∧ applyRecords rt order₂ = some t ∧
    patternAccumulator.ShowsTotals t.patterns (order₁.flatMap (RecordBatch.patternRows rt)) ∧
    edgeAccumulator.ShowsTotals t.edges (order₁.flatMap (RecordBatch.edgeRows rt)) ∧
    linkAccumulator.ShowsTotals t.links (order₁.flatMap RecordBatch.linkRows)

/-- The columns take every value, and each of the three tables settles. -/
structure Settles (rt : Runtime) (order₁ order₂ : List RecordBatch) : Prop where
  valid : ∀ b ∈ order₁, b.valid rt = true
  patterns : TableSettles patternAccumulator (RecordBatch.patternRows rt) order₁ order₂
  edges : TableSettles edgeAccumulator (RecordBatch.edgeRows rt) order₁ order₂
  links : TableSettles linkAccumulator RecordBatch.linkRows order₁ order₂

/-- **When arrival order does not matter.** Two orders of batches without a common timestamp
leave the same tables, with the sums and the largest timestamps, exactly when the columns take
every value and under every key a newest record comes last in both orders and the first records
agree in the columns that only they set. -/
theorem accumulation_settles_iff (rt : Runtime) {order₁ order₂ : List RecordBatch}
    (hperm : order₁.Perm order₂)
    (hdistinct : ∀ b ∈ order₁, ∀ b' ∈ order₁, b ≠ b' → ∀ t ∈ b.times, ∀ t' ∈ b'.times, t ≠ t') :
    OrderIndependent rt order₁ order₂ ↔ Settles rt order₁ order₂ := by
  have hp := table_settles_iff patternAccumulator (RecordBatch.patternRows rt) hperm
    (fun b => (lastSeen_mem_times rt b).1) hdistinct
  have he := table_settles_iff edgeAccumulator (RecordBatch.edgeRows rt) hperm
    (fun b => (lastSeen_mem_times rt b).2.1) hdistinct
  have hl := table_settles_iff linkAccumulator RecordBatch.linkRows hperm
    (fun b => (lastSeen_mem_times rt b).2.2) hdistinct
  constructor
  · rintro ⟨t, h₁, h₂, htp, hte, htl⟩
    obtain ⟨hv, hp₁, he₁, hl₁⟩ := applyRecords_eq_some.mp h₁
    obtain ⟨-, hp₂, he₂, hl₂⟩ := applyRecords_eq_some.mp h₂
    exact ⟨hv, hp.mp ⟨_, hp₁, hp₂, htp⟩, he.mp ⟨_, he₁, he₂, hte⟩, hl.mp ⟨_, hl₁, hl₂, htl⟩⟩
  · rintro ⟨hv, hps, hes, hls⟩
    obtain ⟨p, hp₁, hp₂, htp⟩ := hp.mpr hps
    obtain ⟨e, he₁, he₂, hte⟩ := he.mpr hes
    obtain ⟨l, hl₁, hl₂, htl⟩ := hl.mpr hls
    exact ⟨⟨p, e, l⟩, applyRecords_eq_some.mpr ⟨hv, hp₁, he₁, hl₁⟩,
      applyRecords_eq_some.mpr ⟨fun b hb => hv b (hperm.mem_iff.mpr hb), hp₂, he₂, hl₂⟩,
      htp, hte, htl⟩

/-- A call from `checkout` to the port 5432 of a target. -/
def databaseLink (target : String) (ts : Time) : RecordBatch :=
  .links [⟨"checkout", target, "tcp", 5432, 1, ts⟩]

/-- Links are neither folded nor hashed, so that any runtime will do for them. -/
def linkRuntime : Runtime := ⟨Char.toLower, Char.toUpper, fun _ => []⟩

theorem accumulation_settles_iff_two_targets :
    OrderIndependent linkRuntime [databaseLink "postgres" ⟨1⟩, databaseLink "replica" ⟨2⟩]
        [databaseLink "replica" ⟨2⟩, databaseLink "postgres" ⟨1⟩] ↔
      Settles linkRuntime [databaseLink "postgres" ⟨1⟩, databaseLink "replica" ⟨2⟩]
        [databaseLink "replica" ⟨2⟩, databaseLink "postgres" ⟨1⟩] :=
  accumulation_settles_iff linkRuntime (List.Perm.swap _ _ _)
    (by simp [databaseLink, RecordBatch.times])

/-- A link batch that arrives late moves `last_seen` back. -/
theorem late_link_moves_back :
    ¬ ∀ (rt : Runtime) (order₁ order₂ : List RecordBatch), order₁.Perm order₂ →
      (∀ b ∈ order₁, ∀ b' ∈ order₁, b ≠ b' → ∀ t ∈ b.times, ∀ t' ∈ b'.times, t ≠ t') →
        OrderIndependent rt order₁ order₂ := by
  intro hall
  have hlinks : ∀ {rt : Runtime} {order : List RecordBatch} {t : PatternTables},
      applyRecords rt order = some t →
        t.links = (∅ : SortedMap LinkKey LinkRow).upsertAll mergeLink
          (order.flatMap RecordBatch.linkRows) := fun h =>
    ((tryUpsertAll_counts linkAccumulator RecordBatch.linkRows).mp
      (applyRecords_eq_some.mp h).2.2.2).1
  obtain ⟨t, h₁, h₂, -⟩ := hall linkRuntime
    [databaseLink "postgres" ⟨1⟩, databaseLink "postgres" ⟨2⟩]
    [databaseLink "postgres" ⟨2⟩, databaseLink "postgres" ⟨1⟩] (List.Perm.swap _ _ _)
    (by simp [databaseLink, RecordBatch.times])
  have hrow := congrArg (fun m => (m.get? (toLex ("checkout", toLex ("postgres", 5432)))).map
    LinkRow.lastSeen) ((hlinks h₁).symm.trans (hlinks h₂))
  exact absurd hrow (by decide)

end Argus
