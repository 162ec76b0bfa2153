import Argus.Hub.Retention

/-!
# What the purge reports

`Purge` counts the rows that it deletes and says whether its context cut it short, and `runPurge`
passes both on to a log line and an event. `purge_exact` accounts for the rows, wherever the purge
stops: it counts those of the statements that were answered, and takes in addition those of the one
that stopped it, if that was carried out all the same; a purge without an error has left no old row.
`truncation_reported_iff` says about the flag that it is only right of purges that the context does
not stop: `Purge` sets it after the last table, and comes back early from a table that was stopped.
-/

namespace Argus

open Foundations

/-! ### One table -/

section Table

variable {κ ρ : Type} [LinearOrder κ]

/-- The rows of a table that are gone. -/
def removedRows (table left : SortedMap κ ρ) : List (κ × ρ) :=
  table.entries.filter fun e => (left.get? e.1).isNone

/-- A purge of a table took away `n` rows, and none that is not before the cutoff. -/
structure TablePurged (tsColumn : ρ → Time) (before : Time) (table left : SortedMap κ ρ) (n : ℕ) :
    Prop where
  part : ∀ k r, left.get? k = some r → table.get? k = some r
  keeps : ∀ k r, table.get? k = some r → olderThan before (tsColumn r) = false →
    left.get? k = some r
  count : n + left.entries.length = table.entries.length

/-- The rows that are gone and those that are left are the rows. -/
theorem length_removedRows_add {table left : SortedMap κ ρ}
    (h : ∀ k r, left.get? k = some r → table.get? k = some r) :
    (removedRows table left).length + left.entries.length = table.entries.length := by
  have hleft : left = table.filter fun k _ => (left.get? k).isSome := by
    ext k : 1
    rw [SortedMap.get?_filter]
    cases hk : left.get? k with
    | none => cases table.get? k <;> simp
    | some r => rw [h k r hk, Option.filter_some, Option.isSome_some, if_pos rfl]
  have hentries : left.entries.length =
      (table.entries.filter fun e => !(left.get? e.1).isNone).length := by
    conv_lhs => rw [hleft]
    exact congrArg List.length (List.filter_congr fun e _ => by simp)
  rw [hentries, removedRows]
  exact (List.length_eq_length_filter_add _).symm

variable {tsColumn : ρ → Time} {before : Time} {table left : SortedMap κ ρ} {n : ℕ}

/-- The number that is reported is that of the rows that are gone. -/
theorem TablePurged.eq_length (h : TablePurged tsColumn before table left n) :
    n = (removedRows table left).length := by
  have hlength := length_removedRows_add h.part
  have hcount := h.count
  omega

/-- A table that is not visited has lost nothing. -/
theorem TablePurged.refl (table : SortedMap κ ρ) : TablePurged tsColumn before table table 0 :=
  ⟨fun _ _ h => h, fun _ _ h _ => h, Nat.zero_add _⟩

end Table

/-! ### The statements -/

/-- A statement of a purge: its table, its round, counted down, and the rows that it takes. -/
structure PurgeStatement where
  table : PurgeTable
  round : ℕ
  rows : ℕ
  deriving DecidableEq

/-- The rows of a table that some statements take. -/
def rowsTaken (T : PurgeTable) (l : List PurgeStatement) : ℕ :=
  ((l.filter fun s => decide (s.table = T)).map PurgeStatement.rows).sum

@[simp]
theorem rowsTaken_nil (T : PurgeTable) : rowsTaken T [] = 0 := rfl

theorem rowsTaken_append (T : PurgeTable) (l l' : List PurgeStatement) :
    rowsTaken T (l ++ l') = rowsTaken T l + rowsTaken T l' := by
  rw [rowsTaken, List.filter_append, List.map_append, List.sum_append, rowsTaken, rowsTaken]

/-- Statements on one table take rows of that table only. -/
theorem rowsTaken_of_eq {T : PurgeTable} {l : List PurgeStatement} (h : ∀ s ∈ l, s.table = T) :
    rowsTaken T l = (l.map PurgeStatement.rows).sum := by
  rw [rowsTaken, List.filter_eq_self.mpr fun s hs => decide_eq_true (h s hs)]

theorem rowsTaken_of_ne {T : PurgeTable} {l : List PurgeStatement} (h : ∀ s ∈ l, s.table ≠ T) :
    rowsTaken T l = 0 := by
  rw [rowsTaken, List.filter_eq_nil_iff.mpr fun s hs => by simpa using h s hs]
  rfl

/-- What becomes of a statement. -/
def statementFate (fate : PurgeTable → ℕ → Fate) (s : PurgeStatement) : Fate :=
  fate s.table s.round

variable {Key Row : PurgeTable → Type} [∀ T, LinearOrder (Key T)] {tsColumn : ∀ T, Row T → Time}

variable (tsColumn) in
/-- The statements of `purgeBefore` if all of them are answered. -/
def tableStatements (before : Time) (T : PurgeTable) (table : SortedMap (Key T) (Row T)) :
    List PurgeStatement :=
  if T.inOneStatement then [⟨T, 0, (oldRows (tsColumn T) before table).length⟩]
  else (purgeBatches (oldRows (tsColumn T) before table).length table.entries.length).map
    fun b => ⟨T, b.1, b.2⟩

variable (tsColumn) in
/-- The statements of a purge of some tables if all of them are answered. -/
def purgeStatements (before : RetentionCategory → Time) (l : List PurgeTable)
    (tables : PurgeTables Key Row) : List PurgeStatement :=
  l.flatMap fun T => tableStatements tsColumn (before T.category) T (tables T)

theorem table_of_mem_tableStatements {before : Time} {T : PurgeTable}
    {table : SortedMap (Key T) (Row T)} {s : PurgeStatement}
    (hs : s ∈ tableStatements tsColumn before T table) : s.table = T := by
  rw [tableStatements] at hs
  split_ifs at hs
  · rw [List.mem_singleton.mp hs]
  · obtain ⟨b, -, rfl⟩ := List.mem_map.mp hs
    rfl

theorem table_of_mem_purgeStatements {before : RetentionCategory → Time} {l : List PurgeTable}
    {tables : PurgeTables Key Row} {s : PurgeStatement}
    (hs : s ∈ purgeStatements tsColumn before l tables) : s.table ∈ l := by
  obtain ⟨T, hT, hs⟩ := List.mem_flatMap.mp hs
  rwa [table_of_mem_tableStatements hs]

/-- A statement on a table with an `id` column takes a batch at most. -/
theorem rows_le_of_mem_tableStatements {before : Time} {T : PurgeTable}
    (hone : T.inOneStatement = false) {table : SortedMap (Key T) (Row T)} {s : PurgeStatement}
    (hs : s ∈ tableStatements tsColumn before T table) : s.rows ≤ purgeBatchSize := by
  rw [tableStatements, hone, if_neg Bool.false_ne_true] at hs
  obtain ⟨b, hb, rfl⟩ := List.mem_map.mp hs
  obtain ⟨i, -, rfl⟩ := List.mem_map.mp hb
  exact Nat.min_le_left _ _

/-! ### All tables -/

/-- The account of one table: what its statements took and counted, and whether it came to an end
without an error. -/
theorem purgeBefore_account {fate : PurgeTable → ℕ → Fate} {T : PurgeTable} {before : Time}
    {table left : SortedMap (Key T) (Row T)} {n : ℕ} {ok : Bool}
    (h : purgeBefore tsColumn (fate T) T before table = some (left, n, ok))
    {statements : List PurgeStatement}
    (hstatements : statements = tableStatements tsColumn before T table) :
    n = ((answeredOps (statementFate fate) statements).map PurgeStatement.rows).sum ∧
      left.entries.length + n +
        (lostOp (statementFate fate) statements).elim 0 PurgeStatement.rows =
          table.entries.length ∧
      (ok = true ↔ ∀ s ∈ statements, statementFate fate s = .answered) := by
  have hlength := @length_oldRows_add _ _ _ (tsColumn T) before table
  by_cases hone : T.inOneStatement = true
  -- one statement for the whole table, or batches by id
  · rw [purgeBefore_one tsColumn hone] at h
    rw [tableStatements, if_pos hone] at hstatements
    rw [hstatements, List.forall_mem_singleton]
    have hround : ∀ (rows : ℕ) {f : Fate}, fate T 0 = f → statementFate fate ⟨T, 0, rows⟩ = f :=
      fun _ _ h => h
    cases hfate : fate T 0 with
    | failed =>
      rw [hfate] at h
      cases h
      rw [answeredOps_cons_of_ne (by simp [hround _ hfate]),
        lostOp_cons_of_ne (by simp [hround _ hfate]), if_neg (by simp [hround _ hfate])]
      exact ⟨rfl, rfl, by simp [hround _ hfate]⟩
    | unanswered =>
      rw [hfate] at h
      cases h
      rw [answeredOps_cons_of_ne (by simp [hround _ hfate]),
        lostOp_cons_of_ne (by simp [hround _ hfate]), if_pos (hround _ hfate)]
      refine ⟨rfl, ?_, by simp [hround _ hfate]⟩
      rw [Option.elim_some, Nat.add_zero, Nat.add_comm]
      exact hlength
    | answered =>
      rw [hfate] at h
      cases h
      rw [answeredOps_cons (hround _ hfate), lostOp_cons (hround _ hfate)]
      refine ⟨rfl, ?_, by simp [hround _ hfate]⟩
      rw [lostOp_nil, Option.elim_none, Nat.add_zero, Nat.add_comm]
      exact hlength
  · rw [purgeBefore_batches tsColumn hone] at h
    obtain ⟨hcount, hleft, hok⟩ := purgeLoop_account h rfl
    rw [tableStatements, if_neg hone] at hstatements
    rw [hstatements, answeredOps_map, lostOp_map, List.map_map, List.forall_mem_map]
    rw [Nat.zero_add] at hcount
    rw [← hcount] at hleft
    refine ⟨hcount, ?_, hok⟩
    rw [Option.elim_map]
    exact hleft

/-- A table gains no row, and without an error it holds none that is before the cutoff. -/
theorem purgeBefore_part {fate : ℕ → Fate} {T : PurgeTable} {before : Time}
    {table left : SortedMap (Key T) (Row T)} {n : ℕ} {ok : Bool}
    (h : purgeBefore tsColumn fate T before table = some (left, n, ok)) :
    (∀ k r, left.get? k = some r → table.get? k = some r) ∧
      (ok = true → left = purged (tsColumn T) before table) := by
  by_cases hone : T.inOneStatement = true
  · have hsub : ∀ k r, (purged (tsColumn T) before table).get? k = some r →
        table.get? k = some r := by
      intro k r hr
      rw [purged, SortedMap.get?_filter] at hr
      exact (Option.filter_eq_some_iff.mp hr).1
    rw [purgeBefore_one tsColumn hone] at h
    cases hfate : fate 0 with
    | failed =>
      rw [hfate] at h
      cases h
      exact ⟨fun k r hr => hr, fun hok => absurd hok (by decide)⟩
    | unanswered =>
      rw [hfate] at h
      cases h
      exact ⟨hsub, fun hok => absurd hok (by decide)⟩
    | answered =>
      rw [hfate] at h
      cases h
      exact ⟨hsub, fun _ => rfl⟩
  · rw [purgeBefore_batches tsColumn hone] at h
    exact purgeLoop_part h

variable (tsColumn) in
/-- The account of a table in a purge with these statements: what is counted, and what is gone. -/
structure TableAccount (fate : PurgeTable → ℕ → Fate) (statements : List PurgeStatement)
    (before : Time) (T : PurgeTable) (table left : SortedMap (Key T) (Row T)) (n : ℕ) : Prop where
  counted : n = rowsTaken T (answeredOps (statementFate fate) statements)
  purged : TablePurged (tsColumn T) before table left
    (n + rowsTaken T (lostOp (statementFate fate) statements).toList)

/-- One table comes to an end; without an error it holds no row that is before the cutoff. -/
theorem purgeBefore_spec (fate : PurgeTable → ℕ → Fate) (T : PurgeTable) (before : Time)
    (table : SortedMap (Key T) (Row T)) {statements : List PurgeStatement}
    (hstatements : statements = tableStatements tsColumn before T table) :
    ∃ left n ok, purgeBefore tsColumn (fate T) T before table = some (left, n, ok) ∧
      TableAccount tsColumn fate statements before T table left n ∧
      (ok = true ↔ ∀ s ∈ statements, statementFate fate s = .answered) ∧
      (ok = true → left = purged (tsColumn T) before table) := by
  obtain ⟨left, n, ok, hpurge, hkeeps⟩ := exists_purgeBefore tsColumn (fate T) T before table
  obtain ⟨hcount, hleft, hok⟩ := purgeBefore_account hpurge hstatements
  obtain ⟨hpart, hdone⟩ := purgeBefore_part hpurge
  have htable : ∀ s ∈ statements, s.table = T := fun s hs =>
    table_of_mem_tableStatements (hstatements ▸ hs)
  have hlost : rowsTaken T (lostOp (statementFate fate) statements).toList =
      (lostOp (statementFate fate) statements).elim 0 PurgeStatement.rows := by
    cases hlost : lostOp (statementFate fate) statements with
    | none => rfl
    | some s =>
      rw [Option.toList_some, rowsTaken_of_eq (by simpa using htable s (mem_of_lostOp hlost))]
      rfl
  refine ⟨left, n, ok, hpurge, ⟨?_, hpart, hkeeps, by omega⟩, hok, hdone⟩
  rw [hcount, rowsTaken_of_eq fun s hs => htable s (mem_of_mem_answeredOps hs)]

/-- Statements before those of a table do not matter for its account. -/
theorem TableAccount.cons {fate : PurgeTable → ℕ → Fate} {l l' : List PurgeStatement}
    {before : Time} {T : PurgeTable} {table left : SortedMap (Key T) (Row T)} {n : ℕ}
    (h : TableAccount tsColumn fate l' before T table left n)
    (hanswered : ∀ s ∈ l, statementFate fate s = .answered) (hother : ∀ s ∈ l, s.table ≠ T) :
    TableAccount tsColumn fate (l ++ l') before T table left n := by
  refine ⟨?_, ?_⟩
  · rw [answeredOps_append hanswered, rowsTaken_append, rowsTaken_of_ne hother, Nat.zero_add]
    exact h.counted
  · rw [lostOp_append hanswered]
    exact h.purged

/-- Statements behind an error do not matter. -/
theorem TableAccount.append_of_not {fate : PurgeTable → ℕ → Fate} {l l' : List PurgeStatement}
    {before : Time} {T : PurgeTable} {table left : SortedMap (Key T) (Row T)} {n : ℕ}
    (h : TableAccount tsColumn fate l before T table left n)
    (hanswered : ¬ ∀ s ∈ l, statementFate fate s = .answered) :
    TableAccount tsColumn fate (l ++ l') before T table left n := by
  refine ⟨?_, ?_⟩
  · rw [answeredOps_append_of_not hanswered]
    exact h.counted
  · rw [lostOp_append_of_not hanswered]
    exact h.purged

/-- The statements behind those of a table do not matter for its account. -/
theorem TableAccount.append {fate : PurgeTable → ℕ → Fate} {l l' : List PurgeStatement}
    {before : Time} {T : PurgeTable} {table left : SortedMap (Key T) (Row T)} {n : ℕ}
    (h : TableAccount tsColumn fate l before T table left n) (hother : ∀ s ∈ l', s.table ≠ T) :
    TableAccount tsColumn fate (l ++ l') before T table left n := by
  by_cases hanswered : ∀ s ∈ l, statementFate fate s = .answered
  · have hcounted := h.counted
    have hpurged := h.purged
    rw [answeredOps_of_all hanswered] at hcounted
    rw [lostOp_of_all hanswered, Option.toList_none, rowsTaken_nil, Nat.add_zero] at hpurged
    refine ⟨?_, ?_⟩
    · rw [answeredOps_append hanswered, rowsTaken_append, hcounted,
        rowsTaken_of_ne fun s hs => hother s (mem_of_mem_answeredOps hs), Nat.add_zero]
    · rw [lostOp_append hanswered, rowsTaken_of_ne fun s hs => hother s ?_, Nat.add_zero]
      · exact hpurged
      · exact mem_of_lostOp (Option.mem_toList.mp hs)
  · exact h.append_of_not hanswered

/-- The account of a table that is not visited. -/
theorem TableAccount.untouched {fate : PurgeTable → ℕ → Fate} {l : List PurgeStatement}
    {before : Time} {T : PurgeTable} (hother : ∀ s ∈ l, s.table ≠ T)
    (table : SortedMap (Key T) (Row T)) :
    TableAccount tsColumn fate l before T table table 0 := by
  refine ⟨?_, ?_⟩
  · rw [rowsTaken_of_ne fun s hs => hother s (mem_of_mem_answeredOps hs)]
  · rw [rowsTaken_of_ne fun s hs => hother s (mem_of_lostOp (Option.mem_toList.mp hs))]
    exact .refl table

/-- The tables of a list come to an end; the others stay as they are, and without an error no table
of the list holds a row that is before its cutoff. -/
theorem purgeTables_spec (tsColumn : ∀ T, Row T → Time) (fate : PurgeTable → ℕ → Fate)
    (before : RetentionCategory → Time) {l : List PurgeTable} (hl : l.Nodup)
    (tables : PurgeTables Key Row) (deleted : PurgeTable → ℕ) (hdeleted : ∀ T ∈ l, deleted T = 0)
    {statements : List PurgeStatement}
    (hstatements : statements = purgeStatements tsColumn before l tables) :
    ∃ left deleted' ok,
      purgeTables tsColumn fate before l tables deleted = some (left, deleted', ok) ∧
      (∀ T ∈ l, TableAccount tsColumn fate statements (before T.category) T (tables T) (left T)
        (deleted' T)) ∧
      (∀ T ∉ l, left T = tables T ∧ deleted' T = deleted T) ∧
      (ok = true ↔ ∀ s ∈ statements, statementFate fate s = .answered) ∧
      (ok = true → ∀ T ∈ l, left T = purged (tsColumn T) (before T.category) (tables T)) := by
  induction l generalizing tables deleted statements with
  | nil =>
    rw [hstatements]
    exact ⟨tables, deleted, true, rfl, fun T hT => absurd hT List.not_mem_nil,
      fun T _ => ⟨rfl, rfl⟩, iff_of_true rfl fun s hs => absurd hs List.not_mem_nil,
      fun _ T hT => absurd hT List.not_mem_nil⟩
  | cons T l ih =>
    obtain ⟨hT, hl⟩ := List.nodup_cons.mp hl
    have hne : ∀ T' ∈ l, T' ≠ T := fun T' hT' heq => hT (heq ▸ hT')
    obtain ⟨table, n, ok, hbefore, haccount, hok, hdone⟩ :=
      purgeBefore_spec fate T (before T.category) (tables T) rfl
    have hrest : ∀ s ∈ purgeStatements tsColumn before l tables, s.table ≠ T := fun s hs =>
      hne s.table (table_of_mem_purgeStatements hs)
    have hfirst : ∀ s ∈ tableStatements tsColumn (before T.category) T (tables T), s.table = T :=
      fun s hs => table_of_mem_tableStatements hs
    rw [purgeStatements, List.flatMap_cons] at hstatements
    rw [purgeTables, hbefore, hstatements, List.forall_mem_append, ← hok]
    cases ok with
    | false =>
      have hanswered : ¬ ∀ s ∈ tableStatements tsColumn (before T.category) T (tables T),
          statementFate fate s = .answered := fun h => absurd (hok.mpr h) (by decide)
      refine ⟨_, _, false, rfl, fun T' hT' => ?_, fun T' hT' => ?_, by simp,
        fun hok => absurd hok (by decide)⟩
      · by_cases heq : T' = T
        · subst heq
          rw [Function.update_self, Function.update_self]
          exact haccount.append hrest
        · rw [Function.update_of_ne heq, Function.update_of_ne heq, hdeleted T' hT']
          exact (TableAccount.untouched (fun s hs => hfirst s hs ▸ Ne.symm heq) _).append_of_not
            hanswered
      · have hne : T' ≠ T := fun heq => hT' (heq ▸ List.mem_cons_self)
        exact ⟨Function.update_of_ne hne _ _, Function.update_of_ne hne _ _⟩
    | true =>
      have hanswered := hok.mp rfl
      -- the statements of the other tables do not depend on the first one
      have hsame : purgeStatements tsColumn before l (Function.update tables T table) =
          purgeStatements tsColumn before l tables :=
        List.flatMap_congr fun T' hT' => by rw [Function.update_of_ne (hne T' hT')]
      obtain ⟨left, deleted', ok, htables, htail, hother, hok', hall⟩ :=
        ih hl (Function.update tables T table) (Function.update deleted T n) (fun T' hT' => by
          rw [Function.update_of_ne (hne T' hT')]
          exact hdeleted T' (List.mem_cons_of_mem T hT')) hsame.symm
      obtain ⟨hleft, hn⟩ := hother T hT
      rw [Function.update_self] at hleft hn
      refine ⟨left, deleted', ok, htables, fun T' hT' => ?_, fun T' hT' => ?_,
        hok'.trans (by simp [purgeStatements]), fun hok T' hT' => ?_⟩
      · rcases List.mem_cons.mp hT' with rfl | hmem
        · rw [hleft, hn]
          exact haccount.append hrest
        · have htail' := htail T' hmem
          rw [Function.update_of_ne (hne T' hmem)] at htail'
          exact htail'.cons hanswered fun s hs => hfirst s hs ▸ (hne T' hmem).symm
      · rw [List.mem_cons, not_or] at hT'
        obtain ⟨hleft', hn'⟩ := hother T' hT'.2
        rw [hleft', hn', Function.update_of_ne hT'.1, Function.update_of_ne hT'.1]
        exact ⟨rfl, rfl⟩
      · rcases List.mem_cons.mp hT' with rfl | hmem
        · rw [hleft]
          exact hdone rfl
        · have hpurged' := hall hok T' hmem
          rwa [Function.update_of_ne (hne T' hmem)] at hpurged'

/-- The texts of the cutoffs decide about the rows as the cutoffs do. -/
def TextsDecide (tsColumn : ∀ T, Row T → Time) (before : RetentionCategory → Time)
    (tables : PurgeTables Key Row) : Prop :=
  ∀ T k r, (tables T).get? k = some r →
    (olderThan (before T.category) (tsColumn T r) = true ↔ tsColumn T r < before T.category)

variable (tsColumn) in
/-- The account of a purge: no row is gone that is not before its cutoff, the counts are those of
the statements that were answered, and the rows that are gone are these and those of a statement
that was carried out without an answer, one batch at most. There is no error exactly when every
statement is answered and the context lives to the end, and then no table holds a row that is before
its cutoff. -/
structure PurgeExact (run : PurgeRun) (before : RetentionCategory → Time)
    (statements : List PurgeStatement) (tables left : PurgeTables Key Row) (result : PurgeResult)
    (ok : Bool) : Prop where
  part : ∀ T k r, (left T).get? k = some r → (tables T).get? k = some r
  keeps : ∀ T k r, (tables T).get? k = some r → before T.category ≤ tsColumn T r →
    (left T).get? k = some r
  logs : result.logsDeleted =
    rowsTaken .logEntries (answeredOps (statementFate run.fate) statements)
  metrics : result.metricsDeleted =
    rowsTaken .metricPoints (answeredOps (statementFate run.fate) statements)
  events : result.eventsDeleted =
    rowsTaken .events (answeredOps (statementFate run.fate) statements)
  removed : ∀ T, (removedRows (tables T) (left T)).length =
    rowsTaken T (answeredOps (statementFate run.fate) statements) +
      rowsTaken T (lostOp (statementFate run.fate) statements).toList
  lost_le : ∀ T, T.inOneStatement = false →
    rowsTaken T (lostOp (statementFate run.fate) statements).toList ≤ purgeBatchSize
  ok_iff : ok = true ↔
    (∀ s ∈ statements, statementFate run.fate s = .answered) ∧ run.expired = false
  complete : ok = true → ∀ T k r, (left T).get? k = some r → before T.category ≤ tsColumn T r

/-- One statement takes a batch of a table with an `id` column at most. -/
theorem rowsTaken_lostOp_le {fate : PurgeStatement → Fate} {before : RetentionCategory → Time}
    {l : List PurgeTable} {tables : PurgeTables Key Row} {T : PurgeTable}
    (hone : T.inOneStatement = false) :
    rowsTaken T (lostOp fate (purgeStatements tsColumn before l tables)).toList ≤
      purgeBatchSize := by
  cases hlost : lostOp fate (purgeStatements tsColumn before l tables) with
  | none => exact Nat.zero_le _
  | some s =>
    obtain ⟨T', -, hs⟩ := List.mem_flatMap.mp (mem_of_lostOp hlost)
    have htable := table_of_mem_tableStatements hs
    rw [Option.toList_some]
    by_cases hT : s.table = T
    · rw [rowsTaken_of_eq (by simpa using hT)]
      exact rows_le_of_mem_tableStatements (htable.symm.trans hT ▸ hone) hs
    · rw [rowsTaken_of_ne (by simpa using hT)]
      exact Nat.zero_le _

/-- **Key result.** Whatever becomes of its statements and wherever its context ends, `Purge` comes
to an end with an exact account. -/
theorem purge_exact (run : PurgeRun) (before : RetentionCategory → Time)
    {tables : PurgeTables Key Row} (htexts : TextsDecide tsColumn before tables) :
    ∃ left result ok, Purge tsColumn run before tables = some (left, result, ok) ∧
      PurgeExact tsColumn run before (purgeStatements tsColumn before PurgeTable.order tables)
        tables left result ok := by
  obtain ⟨left, deleted, ok, htables, haccount, -, hok, hdone⟩ := purgeTables_spec
    tsColumn run.fate before (l := PurgeTable.order) (by decide) tables
    (fun _ => 0) (fun _ _ => rfl) rfl
  have haccount : ∀ T, TableAccount tsColumn run.fate
      (purgeStatements tsColumn before PurgeTable.order tables) (before T.category) T (tables T)
      (left T) (deleted T) := fun T => haccount T T.mem_order
  refine ⟨left, _, _, by rw [Purge, htables]; rfl, fun T => (haccount T).purged.part,
    fun T k r hr hle => (haccount T).purged.keeps k r hr ?_, (haccount .logEntries).counted,
    (haccount .metricPoints).counted, (haccount .events).counted, fun T => ?_,
    fun T hone => rowsTaken_lostOp_le hone, ?_, fun hall T k r hr => ?_⟩
  · exact Bool.eq_false_iff.mpr fun hold => not_lt.mpr hle ((htexts T k r hr).mp hold)
  · rw [← (haccount T).purged.eq_length, (haccount T).counted]
  · rw [Bool.and_eq_true, hok, Bool.not_eq_true']
  · have hrow := (haccount T).purged.part k r hr
    rw [hdone (Bool.and_eq_true_iff.mp hall).1 T T.mem_order, purged, SortedMap.get?_filter] at hr
    have hnew : olderThan (before T.category) (tsColumn T r) = false := by
      simpa using (Option.filter_eq_some_iff.mp hr).2
    exact not_lt.mp fun hlt => absurd ((htexts T k r hrow).mpr hlt) (by simp [hnew])

/-- A run in which the answer of the statement on `metric_points` is lost. -/
def lostMetrics : PurgeRun where
  now := ⟨63844891260000000000⟩
  busy := false
  fate T _ := if T = .metricPoints then .unanswered else .answered
  expired := true
  durationMs := 1
  uuid := ""

/-- A log entry and a metric point of noon on 2024-03-01, and a log entry of a minute later. -/
def noonRows : PurgeTables (fun _ => ℕ) fun _ => Time
  | .logEntries => SortedMap.ofList [(1, ⟨63844891200000000000⟩), (2, ⟨63844891260000000000⟩)]
  | .metricPoints => SortedMap.ofList [(1, ⟨63844891200000000000⟩)]
  | _ => ∅

/-- The purge of a minute past noon deletes the metric point, and does not count it. -/
theorem lostDelete_uncounted :
    ¬ ∀ left result ok, Purge (fun _ => id) lostMetrics (fun _ => ⟨63844891260000000000⟩)
        noonRows = some (left, result, ok) →
      result.metricsDeleted =
        (removedRows (noonRows .metricPoints) (left .metricPoints)).length := by
  intro h
  have hgone : (Purge (fun _ => id) lostMetrics (fun _ => ⟨63844891260000000000⟩) noonRows).map
      (fun p => (p.2.1.metricsDeleted,
        (removedRows (noonRows .metricPoints) (p.1 .metricPoints)).length)) = some (0, 1) := by
    decide +kernel
  obtain ⟨⟨left, result, ok⟩, hpurge, heq⟩ := Option.map_eq_some_iff.mp hgone
  have hcount := h left result ok hpurge
  simp only [Prod.mk.injEq] at heq
  omega

/-- The same run accounts for its rows: it counts the log entry, loses the metric point without
counting it, and comes back with an error; with every statement answered it counts both. -/
theorem purge_exact_noonRows :
    (∃ left result ok, Purge (fun _ => id) lostMetrics (fun _ => ⟨63844891260000000000⟩)
        noonRows = some (left, result, ok) ∧
      result.logsDeleted = 1 ∧ result.metricsDeleted = 0 ∧ ok = false ∧
      (removedRows (noonRows .metricPoints) (left .metricPoints)).length = 1 ∧
      (left .logEntries).get? 2 = some ⟨63844891260000000000⟩) ∧
    ∃ left result ok, Purge (fun _ => id)
        { lostMetrics with fate := fun _ _ => .answered, expired := false }
        (fun _ => ⟨63844891260000000000⟩) noonRows = some (left, result, ok) ∧
      result.logsDeleted = 1 ∧ result.metricsDeleted = 1 ∧ ok = true ∧
      (left .logEntries).get? 1 = none := by
  have htexts : TextsDecide (fun _ => id) (fun _ => ⟨63844891260000000000⟩) noonRows := by
    intro T k r hr
    have hmem := SortedMap.mem_entries.mpr hr
    cases T with
    | logEntries =>
      rcases List.mem_cons.mp hmem with heq | hmem
      · obtain ⟨rfl, rfl⟩ := Prod.mk.inj heq
        decide +kernel
      · obtain ⟨rfl, rfl⟩ := Prod.mk.inj (List.mem_singleton.mp hmem)
        decide +kernel
    | metricPoints =>
      obtain ⟨rfl, rfl⟩ := Prod.mk.inj (List.mem_singleton.mp hmem)
      decide +kernel
    | _ => exact absurd hmem List.not_mem_nil
  refine ⟨?_, ?_⟩
  · obtain ⟨left, result, ok, hpurge, hexact⟩ := purge_exact lostMetrics _ htexts
    have hok : ok ≠ true := fun h => absurd (hexact.ok_iff.mp h).2 (by decide)
    exact ⟨left, result, ok, hpurge, hexact.logs.trans (by decide +kernel),
      hexact.metrics.trans (by decide +kernel), Bool.eq_false_iff.mpr hok,
      (hexact.removed .metricPoints).trans (by decide +kernel),
      hexact.keeps .logEntries 2 _ rfl le_rfl⟩
  · obtain ⟨left, result, ok, hpurge, hexact⟩ := purge_exact
      { lostMetrics with fate := fun _ _ => .answered, expired := false } _ htexts
    have hok : ok = true := hexact.ok_iff.mpr ⟨fun _ _ => rfl, rfl⟩
    refine ⟨left, result, ok, hpurge, hexact.logs.trans (by decide +kernel),
      hexact.metrics.trans (by decide +kernel), hok, ?_⟩
    by_contra hleft
    obtain ⟨r, hr⟩ := Option.ne_none_iff_exists'.mp hleft
    have hrow := hexact.part .logEntries 1 r hr
    rw [show (noonRows .logEntries).get? 1 = some ⟨63844891200000000000⟩ from rfl] at hrow
    cases hrow
    exact absurd (hexact.complete hok .logEntries 1 _ hr) (by decide +kernel)

/-! ### Why a purge stops -/

/-- A run with a context: the rounds in which it has ended. `Purge` stops in such a round, before
its statement or in it, and a context that has ended stays so. -/
structure ContextRun extends PurgeRun where
  ended : PurgeTable → ℕ → Bool
  errs_of_ended : ∀ T n, ended T n = true → fate T n ≠ .answered
  expired_of_ended : ∀ T n, ended T n = true → expired = true

variable (tsColumn) in
/-- The context stops a purge before every table is cleared: it has ended in the first round that
stops the purge. -/
def ContextRun.StopsEarly (run : ContextRun) (before : RetentionCategory → Time)
    (tables : PurgeTables Key Row) : Prop :=
  ∃ s, (purgeStatements tsColumn before PurgeTable.order tables).find?
    (fun s => decide (statementFate run.fate s ≠ .answered)) = some s ∧
      run.ended s.table s.round = true

/-- `Truncated` is set when the context has ended after the last table. -/
theorem truncated_iff {run : PurgeRun} {before : RetentionCategory → Time}
    {tables left : PurgeTables Key Row} {result : PurgeResult} {ok : Bool}
    (h : Purge tsColumn run before tables = some (left, result, ok)) :
    result.truncated = true ↔
      (∀ s ∈ purgeStatements tsColumn before PurgeTable.order tables,
        statementFate run.fate s = .answered) ∧ run.expired = true := by
  obtain ⟨left', deleted, done, htables, -, -, hdone, -⟩ := purgeTables_spec
    tsColumn run.fate before (l := PurgeTable.order) (by decide) tables
    (fun _ => 0) (fun _ _ => rfl) rfl
  rw [Purge, htables] at h
  cases h
  rw [Bool.and_eq_true, hdone]

/-- A purge that its context stops is not marked as truncated. -/
theorem truncated_of_stopsEarly {run : ContextRun} {before : RetentionCategory → Time}
    {tables left : PurgeTables Key Row} {result : PurgeResult} {ok : Bool}
    (hstops : run.StopsEarly tsColumn before tables)
    (h : Purge tsColumn run.toPurgeRun before tables = some (left, result, ok)) :
    result.truncated = false := by
  obtain ⟨s, hfind, -⟩ := hstops
  have hstop : statementFate run.fate s ≠ .answered := by simpa using List.find?_some hfind
  refine Bool.eq_false_iff.mpr fun htruncated => ?_
  exact hstop (((truncated_iff h).mp htruncated).1 s (List.mem_of_find?_eq_some hfind))

/-! ### Reports -/

/-- A result and its report say that the purge was cut short. -/
def SaysTruncated (run : PurgeRun) (result : PurgeResult) (ok : Bool) : Prop :=
  result.truncated = true ∧
    (∀ line ∈ (purgeReport run result ok).line, line.truncated = true) ∧
    ∀ e ∈ (purgeReport run result ok).event, e.payload.get? "truncated" = some (.bool true)

/-- **Key result.** A purge says that it was cut short, if its context stopped it before every table
was cleared, only when its context does not do that: the first round that stops it is not one in
which the context has ended. -/
theorem truncation_reported_iff (run : ContextRun) (before : RetentionCategory → Time)
    (tables : PurgeTables Key Row) :
    (run.StopsEarly tsColumn before tables → ∀ left result ok,
      Purge tsColumn run.toPurgeRun before tables = some (left, result, ok) →
        SaysTruncated run.toPurgeRun result ok) ↔
      ¬ run.StopsEarly tsColumn before tables := by
  constructor
  · intro h hstops
    obtain ⟨left, deleted, ok, htables, -⟩ := exists_purgeTables tsColumn run.fate before
      PurgeTable.order tables fun _ => 0
    have hpurge : ∃ result ok, Purge tsColumn run.toPurgeRun before tables =
        some (left, result, ok) := by
      rw [Purge, htables]
      exact ⟨_, _, rfl⟩
    obtain ⟨result, ok, hpurge⟩ := hpurge
    have htruncated := (h hstops left result ok hpurge).1
    rw [truncated_of_stopsEarly hstops hpurge] at htruncated
    exact absurd htruncated (by decide)
  · exact fun hnot hstops => absurd hstops hnot

/-- A context that ends after the log entries. -/
def endedAfterLogs : ContextRun where
  now := ⟨63844891260000000000⟩
  busy := false
  fate T _ := if T = .logEntries then .answered else .failed
  expired := true
  durationMs := 1
  uuid := ""
  ended T _ := decide (T ≠ .logEntries)
  errs_of_ended T _ h := by
    rw [if_neg (of_decide_eq_true h)]
    decide
  expired_of_ended _ _ _ := rfl

/-- A log entry of noon on 2024-03-01. -/
def noonEntry : PurgeTables (fun _ => ℕ) fun _ => Time
  | .logEntries => SortedMap.ofList [(1, ⟨63844891200000000000⟩)]
  | _ => ∅

/-- A purge that has removed a log entry when its context ends is not reported as cut short. -/
theorem shortened_purge_unmarked :
    endedAfterLogs.StopsEarly (fun _ => id) (fun _ => ⟨63844891260000000000⟩) noonEntry ∧
      ¬ ∀ left result ok, Purge (fun _ => id) endedAfterLogs.toPurgeRun
        (fun _ => ⟨63844891260000000000⟩) noonEntry = some (left, result, ok) →
          SaysTruncated endedAfterLogs.toPurgeRun result ok := by
  have hstops : endedAfterLogs.StopsEarly (fun _ => id) (fun _ => ⟨63844891260000000000⟩)
      noonEntry := ⟨⟨.metricPoints, 0, 0⟩, by decide +kernel, rfl⟩
  refine ⟨hstops, fun h => ?_⟩
  have hsome : (Purge (fun _ => id) endedAfterLogs.toPurgeRun (fun _ => ⟨63844891260000000000⟩)
      noonEntry).isSome := by decide +kernel
  obtain ⟨⟨left, result, ok⟩, hpurge⟩ := Option.isSome_iff_exists.mp hsome
  have htruncated := (h left result ok hpurge).1
  rw [truncated_of_stopsEarly hstops hpurge] at htruncated
  exact absurd htruncated (by decide)

end Argus
