import Argus.Foundations.Fates
import Argus.Store.Windows

/-!
# The purge

`purgeBefore` deletes the rows of one table whose timestamp column lies before a cutoff. The
small tables lose them in one statement; the tables with an `id` column lose them in batches of
`purgeBatchSize`, oldest ids first, until a batch comes back short or a round errs: the context has
ended, or the statement fails, or it is carried out and its answer is lost. `purgeLoop_eq` says what
the loop leaves when it runs to its end, `purgeLoop_keeps` that an interrupted loop too deletes
nothing but old rows, and `purgeLoop_account` what a loop has deleted and what it has counted,
wherever it comes to an end.
-/

namespace Argus

open Foundations

variable {κ ρ : Type} [LinearOrder κ]

/-- `purgeBatchSize`. -/
def purgeBatchSize : ℕ := 2000

/-- The rows that are not before the cutoff. -/
def purged (tsColumn : ρ → Time) (before : Time)
    (table : SortedMap κ ρ) : SortedMap κ ρ :=
  table.filter fun _ r => !olderThan before (tsColumn r)

/-- `SELECT id FROM table WHERE tsColumn < ? ORDER BY id LIMIT ?`. -/
def oldestIDs (tsColumn : ρ → Time) (before : Time) (limit : ℕ) (table : SortedMap κ ρ) :
    List κ :=
  ((table.entries.filter fun e => olderThan before (tsColumn e.2)).take limit).map Prod.fst

/-- `DELETE FROM table WHERE id IN (...)`. -/
def deleteIDs (ids : List κ) (table : SortedMap κ ρ) : SortedMap κ ρ :=
  table.filter fun id _ => decide (id ∉ ids)

/-- The loop of `purgeBefore`. `fate` says what becomes of a round, counted down: one in which the
context has ended has failed. The result is what is left, how many rows were counted, and whether
there was no error. -/
def purgeLoop (fate : ℕ → Fate) (tsColumn : ρ → Time) (before : Time) :
    ℕ → SortedMap κ ρ → ℕ → Option (SortedMap κ ρ × ℕ × Bool)
  | 0, _, _ => none
  | n + 1, table, total =>
    let ids := oldestIDs tsColumn before purgeBatchSize table
    match fate n with
    | .failed => some (table, total, false)
    | .unanswered => some (deleteIDs ids table, total, false)
    | .answered =>
      if ids.length < purgeBatchSize then
        some (deleteIDs ids table, total + ids.length, true)
      else purgeLoop fate tsColumn before n (deleteIDs ids table) (total + ids.length)

/-! ### One batch -/

variable {tsColumn : ρ → Time} {before : Time} {table : SortedMap κ ρ}

/-- The ids of a batch are those of old rows. -/
theorem old_of_mem_oldestIDs {limit : ℕ} {id : κ} (h : id ∈ oldestIDs tsColumn before limit table) :
    ∃ r, table.get? id = some r ∧ olderThan before (tsColumn r) = true := by
  obtain ⟨⟨id, r⟩, he, rfl⟩ := List.mem_map.mp h
  obtain ⟨he, hold⟩ := List.mem_filter.mp (List.mem_of_mem_take he)
  exact ⟨r, SortedMap.mem_entries.mp he, hold⟩

/-- A short batch takes every old row. -/
theorem mem_oldestIDs_of_short {limit : ℕ} {id : κ} {r : ρ}
    (hshort : (oldestIDs tsColumn before limit table).length < limit)
    (hr : table.get? id = some r) (hold : olderThan before (tsColumn r) = true) :
    id ∈ oldestIDs tsColumn before limit table := by
  rw [oldestIDs, List.length_map, List.length_take] at hshort
  rw [oldestIDs, List.take_of_length_le (by omega)]
  exact List.mem_map.mpr ⟨(id, r), List.mem_filter.mpr ⟨SortedMap.mem_entries.mpr hr, hold⟩, rfl⟩

/-- What is left of a purged table keeps the rows that are not before the cutoff. -/
theorem get?_purged_of_not {k : κ} {r : ρ} (hr : table.get? k = some r)
    (hnew : olderThan before (tsColumn r) = false) :
    (purged tsColumn before table).get? k = some r := by
  rw [purged, SortedMap.get?_filter, hr, Option.filter_some, hnew]
  rfl

theorem get?_deleteIDs (ids : List κ) (table : SortedMap κ ρ) (id : κ) :
    (deleteIDs ids table).get? id = if id ∈ ids then none else table.get? id := by
  rw [deleteIDs, SortedMap.get?_filter]
  by_cases h : id ∈ ids
  · cases table.get? id <;> simp [h]
  · cases table.get? id <;> simp [h]

/-- A batch does not touch the rows that the purge keeps. -/
theorem purged_deleteIDs (limit : ℕ) :
    purged tsColumn before (deleteIDs (oldestIDs tsColumn before limit table) table) =
      purged tsColumn before table := by
  ext id : 1
  rw [purged, purged, SortedMap.get?_filter, SortedMap.get?_filter, get?_deleteIDs]
  split_ifs with h
  · obtain ⟨r, hr, hold⟩ := old_of_mem_oldestIDs h
    rw [hr, Option.filter_some, hold]
    rfl
  · rfl

/-- A short batch leaves what the purge keeps. -/
theorem deleteIDs_of_short {limit : ℕ}
    (hshort : (oldestIDs tsColumn before limit table).length < limit) :
    deleteIDs (oldestIDs tsColumn before limit table) table = purged tsColumn before table := by
  ext id : 1
  rw [purged, SortedMap.get?_filter, get?_deleteIDs]
  split_ifs with h
  · obtain ⟨r, hr, hold⟩ := old_of_mem_oldestIDs h
    rw [hr, Option.filter_some, hold]
    rfl
  · cases hr : table.get? id with
    | none => rfl
    | some r =>
      have hold : olderThan before (tsColumn r) = false := by
        by_contra hold
        exact h (mem_oldestIDs_of_short hshort hr (by simpa using hold))
      rw [Option.filter_some, hold]
      rfl

/-- The entries under the keys of a sublist are the sublist. -/
private theorem filter_keys_of_sublist {l l' : List (κ × ρ)} (h : l.Sublist l')
    (hl' : l'.Pairwise fun a b => a.1 < b.1) :
    l'.filter (fun e => decide (e.1 ∈ l.map Prod.fst)) = l := by
  induction h with
  | slnil => rfl
  | @cons l l' e hsub ih =>
    obtain ⟨he, hl'⟩ := List.pairwise_cons.mp hl'
    have hnot : e.1 ∉ l.map Prod.fst := by
      rintro hmem
      obtain ⟨d, hd, heq⟩ := List.mem_map.mp hmem
      exact (he d (hsub.subset hd)).ne' heq
    rw [List.filter_cons_of_neg (by simpa using hnot), ih hl']
  | @cons_cons l l' e hsub ih =>
    obtain ⟨he, hl'⟩ := List.pairwise_cons.mp hl'
    rw [List.filter_cons_of_pos (by simp)]
    refine congrArg (e :: ·) (Eq.trans (List.filter_congr fun d hd => ?_) (ih hl'))
    simp [(he d hd).ne']

/-- A batch deletes as many rows as it has ids. -/
theorem length_deleteIDs (limit : ℕ) :
    (deleteIDs (oldestIDs tsColumn before limit table) table).entries.length +
      (oldestIDs tsColumn before limit table).length = table.entries.length := by
  have hsub : ((table.entries.filter fun e => olderThan before (tsColumn e.2)).take limit).Sublist
      table.entries := (List.take_sublist _ _).trans List.filter_sublist
  have hdel := congrArg List.length (filter_keys_of_sublist hsub table.sorted)
  have hsplit := List.length_eq_length_filter_add (l := table.entries)
    fun e => decide (e.1 ∈ oldestIDs tsColumn before limit table)
  have hids : (oldestIDs tsColumn before limit table).length =
      (table.entries.filter fun e =>
        decide (e.1 ∈ oldestIDs tsColumn before limit table)).length := by
    rw [oldestIDs, List.length_map]
    exact hdel.symm
  simp only [hids, hsplit, deleteIDs, SortedMap.filter, decide_not]
  exact Nat.add_comm _ _

/-! ### The loop -/

section Rounds

variable {fate : ℕ → Fate} {n : ℕ}

theorem purgeLoop_failed (h : fate n = .failed) (total : ℕ) :
    purgeLoop fate tsColumn before (n + 1) table total = some (table, total, false) := by
  simp only [purgeLoop, h]

theorem purgeLoop_unanswered (h : fate n = .unanswered) (total : ℕ) :
    purgeLoop fate tsColumn before (n + 1) table total =
      some (deleteIDs (oldestIDs tsColumn before purgeBatchSize table) table, total, false) := by
  simp only [purgeLoop, h]

theorem purgeLoop_answered (h : fate n = .answered) (total : ℕ) :
    purgeLoop fate tsColumn before (n + 1) table total =
      if (oldestIDs tsColumn before purgeBatchSize table).length < purgeBatchSize then
        some (deleteIDs (oldestIDs tsColumn before purgeBatchSize table) table,
          total + (oldestIDs tsColumn before purgeBatchSize table).length, true)
      else purgeLoop fate tsColumn before n
        (deleteIDs (oldestIDs tsColumn before purgeBatchSize table) table)
        (total + (oldestIDs tsColumn before purgeBatchSize table).length) := by
  simp only [purgeLoop, h]

end Rounds

/-- **The purge runs to its end.** While every round is answered, the loop ends, leaves exactly the
rows that are not before the cutoff, and counts the rows it deleted. -/
theorem purgeLoop_eq {n : ℕ} (hn : table.entries.length < n) (total : ℕ) :
    ∃ deleted, purgeLoop (fun _ => .answered) tsColumn before n table total =
        some (purged tsColumn before table, total + deleted, true) ∧
      (purged tsColumn before table).entries.length + deleted = table.entries.length := by
  induction n generalizing table total with
  | zero => omega
  | succ n ih =>
    have hlen := @length_deleteIDs κ ρ _ tsColumn before table purgeBatchSize
    rw [purgeLoop_answered rfl]
    split_ifs with hshort
    · refine ⟨_, by rw [deleteIDs_of_short hshort], ?_⟩
      rw [← deleteIDs_of_short hshort]
      exact hlen
    · have hpos : 0 < purgeBatchSize := by decide
      obtain ⟨deleted, heq, hcount⟩ := @ih (deleteIDs
        (oldestIDs tsColumn before purgeBatchSize table) table) (by omega)
        (total + (oldestIDs tsColumn before purgeBatchSize table).length)
      rw [purged_deleteIDs] at heq hcount
      exact ⟨_, by rw [heq, Nat.add_assoc], by omega⟩

/-- The loop ends, whatever becomes of its rounds. -/
theorem purgeLoop_isSome (fate : ℕ → Fate) {n : ℕ} (hn : table.entries.length < n) (total : ℕ) :
    (purgeLoop fate tsColumn before n table total).isSome := by
  induction n generalizing table total with
  | zero => exact absurd hn (Nat.not_lt_zero _)
  | succ n ih =>
    have hlen := @length_deleteIDs κ ρ _ tsColumn before table purgeBatchSize
    have hpos : 0 < purgeBatchSize := by decide
    cases hfate : fate n with
    | failed => rw [purgeLoop_failed hfate, Option.isSome_some]
    | unanswered => rw [purgeLoop_unanswered hfate, Option.isSome_some]
    | answered =>
      rw [purgeLoop_answered hfate]
      split_ifs with hshort
      · rfl
      · exact ih (by omega) _

/-- **Nothing else is purged.** Wherever the loop comes to an end, a row that it deleted was before
the cutoff. -/
theorem purgeLoop_keeps {fate : ℕ → Fate} {n total total' : ℕ} {table' : SortedMap κ ρ}
    {ok : Bool} (h : purgeLoop fate tsColumn before n table total = some (table', total', ok)) :
    purged tsColumn before table' = purged tsColumn before table := by
  induction n generalizing table total with
  | zero => cases h
  | succ n ih =>
    cases hfate : fate n with
    | failed =>
      rw [purgeLoop_failed hfate] at h
      cases h
      rfl
    | unanswered =>
      rw [purgeLoop_unanswered hfate] at h
      cases h
      exact purged_deleteIDs purgeBatchSize
    | answered =>
      rw [purgeLoop_answered hfate] at h
      split_ifs at h with hshort
      · cases h
        exact purged_deleteIDs purgeBatchSize
      · rw [ih h, purged_deleteIDs]

/-- The loop adds no row, and without an error it leaves none that is before the cutoff. -/
theorem purgeLoop_part {fate : ℕ → Fate} {n total total' : ℕ} {table' : SortedMap κ ρ}
    {ok : Bool} (h : purgeLoop fate tsColumn before n table total = some (table', total', ok)) :
    (∀ k r, table'.get? k = some r → table.get? k = some r) ∧
      (ok = true → table' = purged tsColumn before table) := by
  induction n generalizing table total with
  | zero => cases h
  | succ n ih =>
    have hsub : ∀ k r, (deleteIDs (oldestIDs tsColumn before purgeBatchSize table) table).get? k =
        some r → table.get? k = some r := by
      intro k r hr
      rw [get?_deleteIDs] at hr
      split_ifs at hr
      exact hr
    cases hfate : fate n with
    | failed =>
      rw [purgeLoop_failed hfate] at h
      cases h
      exact ⟨fun k r hr => hr, fun hok => absurd hok (by decide)⟩
    | unanswered =>
      rw [purgeLoop_unanswered hfate] at h
      cases h
      exact ⟨hsub, fun hok => absurd hok (by decide)⟩
    | answered =>
      rw [purgeLoop_answered hfate] at h
      split_ifs at h with hshort
      · cases h
        exact ⟨hsub, fun _ => deleteIDs_of_short hshort⟩
      · obtain ⟨hrest, hdone⟩ := ih h
        refine ⟨fun k r hr => hsub k r (hrest k r hr), fun hok => ?_⟩
        rw [hdone hok, purged_deleteIDs]

/-! ### The account of the loop -/

/-- The rows that are before the cutoff. -/
def oldRows (tsColumn : ρ → Time) (before : Time) (table : SortedMap κ ρ) : List (κ × ρ) :=
  table.entries.filter fun e => olderThan before (tsColumn e.2)

/-- Every row is old or kept. -/
theorem length_oldRows_add (table : SortedMap κ ρ) :
    (oldRows tsColumn before table).length + (purged tsColumn before table).entries.length =
      table.entries.length :=
  (List.length_eq_length_filter_add _).symm

theorem length_oldestIDs (limit : ℕ) :
    (oldestIDs tsColumn before limit table).length =
      min limit (oldRows tsColumn before table).length := by
  rw [oldestIDs, List.length_map, List.length_take, oldRows]

/-- A batch that is not short takes as many old rows as it may. -/
theorem length_oldRows_deleteIDs {limit : ℕ}
    (hfull : ¬ (oldestIDs tsColumn before limit table).length < limit) :
    (oldRows tsColumn before
      (deleteIDs (oldestIDs tsColumn before limit table) table)).length + limit =
        (oldRows tsColumn before table).length := by
  have hdelete := @length_deleteIDs κ ρ _ tsColumn before table limit
  have hold := @length_oldRows_add κ ρ _ tsColumn before table
  have hold' := @length_oldRows_add κ ρ _ tsColumn before
    (deleteIDs (oldestIDs tsColumn before limit table) table)
  rw [purged_deleteIDs] at hold'
  rw [length_oldestIDs] at hfull hdelete
  omega

/-- The rounds of the loop if each is answered, counted down from `n`, and the rows that each of
them takes when there are `old` of them: there is one for each full batch, and a last one. -/
def purgeBatches (old n : ℕ) : List (ℕ × ℕ) :=
  (List.range (old / purgeBatchSize + 1)).map fun i =>
    (n - i, min purgeBatchSize (old - purgeBatchSize * i))

theorem purgeBatches_of_lt {old : ℕ} (h : old < purgeBatchSize) (n : ℕ) :
    purgeBatches old n = [(n, old)] := by
  rw [purgeBatches, Nat.div_eq_of_lt h, Nat.zero_add, List.range_one, List.map_singleton,
    Nat.sub_zero, Nat.mul_zero, Nat.sub_zero, Nat.min_eq_right h.le]

theorem purgeBatches_of_le (old n : ℕ) :
    purgeBatches (old + purgeBatchSize) n =
      (n, purgeBatchSize) :: purgeBatches old (n - 1) := by
  have hpos : 0 < purgeBatchSize := by decide
  rw [purgeBatches, Nat.add_div_right _ hpos, List.range_succ_eq_map, List.map_cons, List.map_map,
    Nat.sub_zero, Nat.mul_zero, Nat.sub_zero, Nat.min_eq_left (Nat.le_add_left _ _), purgeBatches]
  refine congrArg ((n, purgeBatchSize) :: ·) (List.map_congr_left fun i _ => ?_)
  rw [Function.comp_apply, Nat.succ_eq_add_one, Nat.mul_add, Nat.mul_one, Nat.add_sub_add_right,
    Nat.add_comm i 1, Nat.sub_add_eq]

theorem exists_purgeBatches (old n : ℕ) :
    ∃ rest, purgeBatches old n = (n, min purgeBatchSize old) :: rest := by
  rw [purgeBatches, List.range_succ_eq_map, List.map_cons, Nat.sub_zero, Nat.mul_zero, Nat.sub_zero]
  exact ⟨_, rfl⟩

/-- **The account.** The loop counts the rows of the rounds that were answered, takes those of the
rounds that were carried out, and comes back without an error when every round is answered. -/
theorem purgeLoop_account {fate : ℕ → Fate} {n total total' : ℕ} {table' : SortedMap κ ρ}
    {ok : Bool} (h : purgeLoop fate tsColumn before n table total = some (table', total', ok))
    {batches : List (ℕ × ℕ)}
    (hbatches : batches = purgeBatches (oldRows tsColumn before table).length (n - 1)) :
    total' = total + ((answeredOps (fate ∘ Prod.fst) batches).map Prod.snd).sum ∧
      table'.entries.length + ((answeredOps (fate ∘ Prod.fst) batches).map Prod.snd).sum +
        (lostOp (fate ∘ Prod.fst) batches).elim 0 Prod.snd = table.entries.length ∧
      (ok = true ↔ ∀ b ∈ batches, fate b.1 = .answered) := by
  induction n generalizing table total batches with
  | zero => cases h
  | succ n ih =>
    rw [Nat.add_sub_cancel] at hbatches
    have hround : ∀ (rows : ℕ) {f : Fate}, fate n = f → (fate ∘ Prod.fst) (n, rows) = f :=
      fun _ _ h => h
    have hlen := @length_deleteIDs κ ρ _ tsColumn before table purgeBatchSize
    have hids := @length_oldestIDs κ ρ _ tsColumn before table purgeBatchSize
    cases hfate : fate n with
    | failed =>
      obtain ⟨rest, hrest⟩ := exists_purgeBatches (oldRows tsColumn before table).length n
      rw [purgeLoop_failed hfate] at h
      cases h
      rw [hbatches, hrest, answeredOps_cons_of_ne (by simp [hfate]),
        lostOp_cons_of_ne (by simp [hfate]), if_neg (by simp [hfate])]
      exact ⟨rfl, rfl, by simp [hfate]⟩
    | unanswered =>
      obtain ⟨rest, hrest⟩ := exists_purgeBatches (oldRows tsColumn before table).length n
      rw [purgeLoop_unanswered hfate] at h
      cases h
      rw [hbatches, hrest, answeredOps_cons_of_ne (by simp [hfate]),
        lostOp_cons_of_ne (by simp [hfate]), if_pos (hround _ hfate), ← hids]
      exact ⟨rfl, hlen, by simp [hfate]⟩
    | answered =>
      rw [purgeLoop_answered hfate] at h
      split_ifs at h with hshort
      · cases h
        -- a batch that is not full is the last one
        have hold : (oldestIDs tsColumn before purgeBatchSize table).length =
            (oldRows tsColumn before table).length := by omega
        rw [hbatches, purgeBatches_of_lt (hold ▸ hshort), answeredOps_cons (hround _ hfate),
          lostOp_cons (hround _ hfate), answeredOps_nil, lostOp_nil, ← hold]
        exact ⟨rfl, hlen, by simp [hfate]⟩
      · obtain ⟨hcount, hleft, hok⟩ := ih h rfl
        rw [hbatches, ← length_oldRows_deleteIDs hshort, purgeBatches_of_le,
          answeredOps_cons (hround _ hfate), lostOp_cons (hround _ hfate), List.map_cons,
          List.sum_cons, List.forall_mem_cons]
        -- a full batch is followed by another round
        have hfull : (oldestIDs tsColumn before purgeBatchSize table).length = purgeBatchSize := by
          omega
        refine ⟨by omega, by omega, hok.trans ⟨fun hall => ⟨hfate, hall⟩, And.right⟩⟩

end Argus
