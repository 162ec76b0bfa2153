import Argus.Agent.Delivery
import Argus.Foundations.BoundedQueue

/-!
# A put that fails

`Put` drops the oldest files first and writes the new one then, and each of its file operations
may fail: the listing, the stats, the removals, the temporary file and the rename. `faulty` is
the world of `Agent.World` in which the operation of a given number fails when a plan says so.

`failedPut_keeps_iff` says when a `Put` that returns an error has lost nothing: exactly when no
file that it dropped before the failure could be read. What it can lose is decided by the spool
and the plan alone: `evicted` are the files that have to go.
-/

namespace Argus

open Foundations Program

/-! ### Operations that fail -/

/-- The answer of a file operation that fails. -/
def AgentOp.failure : (o : AgentOp) → Option o.Answer
  | .names => some none
  | .stat _ => some none
  | .readFile _ => some none
  | .renameBad _ => some false
  | .remove _ => some false
  | .writeFile .. => some false
  | .rename .. => some false
  | _ => none

/-- The world in which the file operations that a plan names fail: they are counted from the one
of the number in the state. A failed operation leaves the directory. -/
def faulty (fails : ℕ → Bool) (clock : Time) :
    AgentState × ℕ → (o : AgentOp) → Option (o.Answer × (AgentState × ℕ))
  | (s, i), o =>
    match o.failure with
    | none => (scripted none (fun _ => none) clock s o).map fun r => (r.1, (r.2, i))
    | some failure =>
      if fails i then some (failure, (s, i + 1))
      else (scripted none (fun _ => none) clock s o).map fun r => (r.1, (r.2, i + 1))

/-- The items that can be read, oldest first. -/
def AgentState.readable (s : AgentState) : List (ℕ × SpoolItem) :=
  s.dir.entries.filterMap fun e => e.2.item.map fun item => (e.1, item)

/-- The size of a file. -/
def entrySize (e : ℕ × SpoolFile) : ℕ := e.2.size

section Faulty

variable {fails : ℕ → Bool} {clock : Time} {s : AgentState} {i : ℕ}

theorem faulty_names :
    faulty fails clock (s, i) .names =
      some (if fails i then none else some s.dir.keys, (s, i + 1)) := by
  rw [faulty]
  simp only [AgentOp.failure, scripted, Option.map_some]
  split_ifs <;> rfl

theorem faulty_stat (n : ℕ) :
    faulty fails clock (s, i) (.stat n) =
      some (if fails i then none else (s.dir.get? n).map SpoolFile.size, (s, i + 1)) := by
  rw [faulty]
  simp only [AgentOp.failure, scripted, Option.map_some]
  split_ifs <;> rfl

theorem faulty_remove (n : ℕ) :
    faulty fails clock (s, i) (.remove n) =
      some (!fails i, (if fails i then s else s.drop n, i + 1)) := by
  rw [faulty]
  simp only [AgentOp.failure, scripted, Option.map_some]
  cases fails i <;> rfl

theorem faulty_writeFile (n : ℕ) (f : SpoolFile) :
    faulty fails clock (s, i) (.writeFile n f) = some (!fails i, (s, i + 1)) := by
  rw [faulty]
  simp only [AgentOp.failure, scripted, Option.map_some]
  cases fails i <;> rfl

theorem faulty_rename (n : ℕ) (f : SpoolFile) :
    faulty fails clock (s, i) (.rename n f) =
      some (!fails i, (if fails i then s else s.store n f, i + 1)) := by
  rw [faulty]
  simp only [AgentOp.failure, scripted, Option.map_some]
  cases fails i <;> rfl

/-! ### Making room -/

variable (fails clock) in
/-- The stats of `used`: the sizes together, unless one of them fails. -/
theorem replay_used {l : List (ℕ × SpoolFile)} (h : ∀ e ∈ l, s.dir.get? e.1 = some e.2) (i : ℕ) :
    ((∀ j < l.length, fails (i + j) = false) ∧
        (used (l.map Prod.fst)).replay (faulty fails clock) (s, i) =
          some (some (BoundedQueue.total entrySize l : ℤ), (s, i + l.length))) ∨
      ((∃ j < l.length, fails (i + j) = true) ∧ ∃ i',
        (used (l.map Prod.fst)).replay (faulty fails clock) (s, i) = some (none, (s, i'))) := by
  induction l generalizing i with
  | nil => exact .inl ⟨fun j hj => absurd hj (Nat.not_lt_zero j), rfl⟩
  | cons e l ih =>
    obtain ⟨he, hl⟩ := List.forall_mem_cons.mp h
    rw [List.map_cons, used]
    simp only [call_bind, ret_bind]
    rw [replay_call (faulty_stat e.1), he]
    by_cases hi : fails i = true
    · refine .inr ⟨⟨0, Nat.succ_pos _, hi⟩, i + 1, ?_⟩
      rw [if_pos hi]
      rfl
    · rw [if_neg hi, Option.map_some, replay_bind]
      rcases ih hl (i + 1) with ⟨hok, hrun⟩ | ⟨⟨j, hj, hfail⟩, i', hrun⟩
      · refine .inl ⟨fun j hj => ?_, ?_⟩
        · cases j with
          | zero => simpa using hi
          | succ j =>
            rw [Nat.add_comm j 1, ← Nat.add_assoc]
            exact hok j (Nat.lt_of_succ_lt_succ hj)
        · rw [hrun, Option.bind_some, BoundedQueue.total_cons, List.length_cons,
            Nat.add_assoc, Nat.add_comm 1]
          simp [replay, entrySize]
      · refine .inr ⟨⟨j + 1, Nat.succ_lt_succ hj, ?_⟩, i', ?_⟩
        · rw [Nat.add_comm j 1, ← Nat.add_assoc]
          exact hfail
        · rw [hrun, Option.bind_some]
          rfl

variable (fails clock) in
/-- The loop of `makeRoom`: each file that has to go takes two operations, and those are dropped
whose removal is reached before an operation fails. -/
theorem replay_dropOldest {maxBytes incoming : ℕ} (hfits : incoming ≤ maxBytes)
    {l : List (ℕ × SpoolFile)} (hl : s.dir.entries = l) (i : ℕ) :
    ∃ ok s' i' m, (dropOldest maxBytes incoming (BoundedQueue.total entrySize l)
        (l.map Prod.fst)).replay (faulty fails clock) (s, i) = some (ok, (s', i')) ∧
      s'.dir.entries = l.drop m ∧
      (∀ m', m' < m ↔ m' < (BoundedQueue.evicted entrySize maxBytes incoming l).length ∧
        ∀ j < 2 * m' + 2, fails (i + j) = false) ∧
      (ok = true ↔ ∀ j < 2 * (BoundedQueue.evicted entrySize maxBytes incoming l).length,
        fails (i + j) = false) ∧
      (ok = true → i' = i + 2 * (BoundedQueue.evicted entrySize maxBytes incoming l).length) := by
  induction l generalizing s i with
  | nil =>
    refine ⟨true, s, i, 0, ?_, hl, fun m' => by simp [BoundedQueue.evicted], ?_, fun _ => rfl⟩
    · rw [List.map_nil, dropOldest, BoundedQueue.total_nil]
      simpa [replay] using hfits
    · simp [BoundedQueue.evicted]
  | cons e l ih =>
    rw [List.map_cons, dropOldest, BoundedQueue.evicted]
    by_cases hroom : maxBytes < BoundedQueue.total entrySize (e :: l) + incoming
    · rw [if_pos hroom, if_pos (by exact_mod_cast hroom), List.length_cons]
      have hget : s.dir.get? e.1 = some e.2 :=
        SortedMap.mem_entries.mp (hl ▸ List.mem_cons_self)
      simp only [call_bind, ret_bind]
      rw [replay_call (faulty_stat e.1), hget]
      by_cases hstat : fails i = true
      · -- the stat of the file fails, and nothing is dropped
        refine ⟨false, s, i + 1, 0, by rw [if_pos hstat]; rfl, hl, fun m' => ?_, ?_, by simp⟩
        · refine iff_of_false (Nat.not_lt_zero m') fun h => ?_
          exact absurd (h.2 0 (Nat.succ_pos _)) (by simpa using hstat)
        · refine iff_of_false Bool.false_ne_true fun h => ?_
          exact absurd (h 0 (by omega)) (by simpa using hstat)
      rw [if_neg hstat, Option.map_some]
      dsimp only
      rw [replay_call (faulty_remove e.1)]
      by_cases hremove : fails (i + 1) = true
      · -- the removal fails, and the file stays
        refine ⟨false, s, i + 2, 0, ?_, hl, fun m' => ?_, ?_, by simp⟩
        · rw [hremove]
          rfl
        · refine iff_of_false (Nat.not_lt_zero m') fun h => ?_
          exact absurd (h.2 1 (by omega)) (by simpa using hremove)
        · refine iff_of_false Bool.false_ne_true fun h => ?_
          exact absurd (h 1 (by omega)) (by simpa using hremove)
      rw [Bool.not_eq_true] at hstat hremove
      have hdrop : (s.drop e.1).dir.entries = l := by
        rw [dir_drop]
        exact SortedMap.entries_erase_head hl
      have hsize : (BoundedQueue.total entrySize (e :: l) : ℤ) - (e.2.size : ℕ) =
          BoundedQueue.total entrySize l := by
        rw [BoundedQueue.total_cons, entrySize]
        omega
      -- the operations after the first two are those of the files after the first
      have hshift : ∀ n, (∀ j < 2 * n + 2, fails (i + j) = false) ↔
          ∀ j < 2 * n, fails (i + 2 + j) = false := by
        intro n
        constructor
        · intro h j hj
          rw [Nat.add_assoc]
          exact h (2 + j) (by omega)
        · intro h j hj
          obtain rfl | rfl | ⟨j, rfl⟩ : j = 0 ∨ j = 1 ∨ ∃ j', j = 2 + j' := by
            by_cases hj2 : 2 ≤ j
            · exact .inr (.inr ⟨j - 2, by omega⟩)
            · omega
          · exact hstat
          · exact hremove
          · rw [← Nat.add_assoc]
            exact h j (by omega)
      obtain ⟨ok, s', i', m, hrun, hentries, hdropped, hok, hcount⟩ := ih hdrop (i + 2)
      refine ⟨ok, s', i', m + 1, ?_, hentries, fun m' => ?_, ?_, fun h => ?_⟩
      · rw [hremove, hsize]
        exact hrun
      · cases m' with
        | zero =>
          refine iff_of_true (Nat.succ_pos m) ⟨Nat.succ_pos _, fun j hj => ?_⟩
          exact (hshift 0).mpr (fun j hj => absurd hj (by omega)) j hj
        | succ m' =>
          rw [Nat.add_lt_add_iff_right, Nat.add_lt_add_iff_right, hdropped m', hshift (m' + 1)]
          exact Iff.rfl
      · rw [hok, Nat.mul_succ, hshift]
      · rw [hcount h]
        omega
    · rw [if_neg hroom, if_neg (by exact_mod_cast hroom)]
      exact ⟨true, s, i, 0, rfl, hl, by simp, by simp, fun _ => rfl⟩

variable (fails clock) in
/-- `makeRoom`: a stat for each file, and then the loop. -/
theorem replay_makeRoom {maxBytes incoming : ℕ} (hfits : incoming ≤ maxBytes)
    {l : List (ℕ × SpoolFile)} (hl : s.dir.entries = l) (i : ℕ) :
    ∃ ok s' i' m, (makeRoom maxBytes incoming (l.map Prod.fst)).replay (faulty fails clock) (s, i) =
        some (ok, (s', i')) ∧ s'.dir.entries = l.drop m ∧
      (∀ m', m' < m ↔ m' < (BoundedQueue.evicted entrySize maxBytes incoming l).length ∧
        ∀ j < l.length + 2 * m' + 2, fails (i + j) = false) ∧
      (ok = true ↔
        ∀ j < l.length + 2 * (BoundedQueue.evicted entrySize maxBytes incoming l).length,
          fails (i + j) = false) ∧
      (ok = true →
        i' = i + l.length + 2 * (BoundedQueue.evicted entrySize maxBytes incoming l).length) := by
  have hget : ∀ e ∈ l, s.dir.get? e.1 = some e.2 := fun e he =>
    SortedMap.mem_entries.mp (hl ▸ he)
  rw [makeRoom, replay_bind]
  rcases replay_used fails clock hget i with
    ⟨hok, hrun⟩ | ⟨⟨j, hj, hfail⟩, i', hrun⟩
  · obtain ⟨ok, s', i', m, hloop, hentries, hdropped, hloopOk, hcount⟩ :=
      replay_dropOldest fails clock hfits hl (i + l.length)
    -- the operations of the loop come after one stat for each file
    have hshift : ∀ n, (∀ j < l.length + n, fails (i + j) = false) ↔
        ∀ j < n, fails (i + l.length + j) = false := by
      intro n
      constructor
      · intro h j hj
        rw [Nat.add_assoc]
        exact h _ (by omega)
      · intro h j hj
        by_cases hlt : j < l.length
        · exact hok j hlt
        · have hj' := h (j - l.length) (by omega)
          rwa [Nat.add_assoc, Nat.add_sub_cancel' (not_lt.mp hlt)] at hj'
    refine ⟨ok, s', i', m, ?_, hentries, fun m' => ?_, ?_, hcount⟩
    · rw [hrun]
      exact hloop
    · rw [hdropped, Nat.add_assoc, hshift]
    · rw [hloopOk, hshift]
  · refine ⟨false, s, i', 0, by rw [hrun]; rfl, hl, fun m' => ?_, ?_, by simp⟩
    · refine iff_of_false (Nat.not_lt_zero m') fun h => ?_
      exact absurd (h.2 j (by omega)) (by simpa using hfail)
    · refine iff_of_false Bool.false_ne_true fun h => ?_
      exact absurd (h j (by omega)) (by simpa using hfail)

/-! ### Writing the new file -/

/-- `Put` after room was made: the number, the temporary file and the rename. -/
def finishPut (file : SpoolFile) (names : List ℕ) : AgentM Bool := do
  match ← relist names with
  | none => pure false
  | some names => do
    let seq := (names.getLast?.getD 0) + 1
    if ← writeFile seq file then renameFile seq file else pure false

/-- `Put` is its checks, the listing, `makeRoom` and the end. -/
theorem put_eq (maxBytes : ℕ) (b : Batch) : put maxBytes b =
    (if !validBody b.body then pure false
    else do
      let queuedAt ← timeNow
      let file := ({ b with queuedAt := queuedAt } : SpoolItem).toFile
      if file.size > maxBytes then pure false
      else
        match ← spoolNames with
        | none => pure false
        | some names => do
          if ← makeRoom maxBytes file.size names then finishPut file names else pure false) :=
  rfl

/-- The number that follows the last operation of a `Put` whose room was made before the operation
`i`: with the listing again when the newest file is gone or its stat fails, else without. -/
def lastOperation (fails : ℕ → Bool) (i : ℕ) (allGone : Bool) : ℕ :=
  if allGone || fails i then i + 4 else i + 3

variable (fails clock) in
private theorem replay_write (file : SpoolFile) (seq i : ℕ) :
    ∃ ok s' i', (do if ← writeFile seq file then renameFile seq file else pure false :
        AgentM Bool).replay (faulty fails clock) (s, i) = some (ok, (s', i')) ∧
      (ok = false → s'.dir = s.dir) ∧
      (ok = true ↔ fails i = false ∧ fails (i + 1) = false) := by
  simp only [call_bind, ret_bind]
  rw [replay_call (faulty_writeFile seq file)]
  cases hwrite : fails i with
  | true => exact ⟨false, s, i + 1, rfl, fun _ => rfl, by simp⟩
  | false =>
    simp only [Bool.not_false, if_true]
    rw [replay_call (faulty_rename seq file)]
    cases hrename : fails (i + 1) with
    | true => exact ⟨false, s, i + 2, rfl, fun _ => rfl, by simp⟩
    | false => exact ⟨true, s.store seq file, i + 2, rfl, by simp, by simp⟩

variable (fails clock) in
/-- The end of `Put` with files listed, `k` of them dropped: the stat of the newest file may fail,
no other operation may. -/
theorem replay_finishPut {l : List (ℕ × SpoolFile)} {k : ℕ} (hne : l ≠ []) (hk : k ≤ l.length)
    (hs : s.dir.entries = l.drop k) (file : SpoolFile) (i : ℕ) :
    ∃ ok s' i', (finishPut file (l.map Prod.fst)).replay (faulty fails clock) (s, i) =
        some (ok, (s', i')) ∧ (ok = false → s'.dir = s.dir) ∧
      (ok = true ↔ ∀ j, i < j → j < lastOperation fails i (decide (k = l.length)) →
        fails j = false) := by
  have hlast : (l.map Prod.fst).getLast? = some (l.getLast hne).1 := by
    rw [List.getLast?_map, List.getLast?_eq_some_getLast hne, Option.map_some]
  rw [finishPut, relist, hlast]
  simp only [call_bind, ret_bind]
  rw [replay_call (faulty_stat _)]
  -- the newest file is there unless all are gone
  have hget : (s.dir.get? (l.getLast hne).1).isSome = !decide (k = l.length) := by
    by_cases hall : k = l.length
    · have hnone : s.dir.get? (l.getLast hne).1 = none := by
        rw [SortedMap.get?, hs, hall, List.drop_length]
        rfl
      rw [hnone, decide_eq_true hall]
      rfl
    · have hlt : k < l.length := lt_of_le_of_ne hk hall
      have hmem : ((l.getLast hne).1, (l.getLast hne).2) ∈ s.dir.entries := by
        rw [hs, ← List.getLast_drop (l := l) (h := by simpa using hlt)]
        exact List.getLast_mem _
      rw [SortedMap.mem_entries.mp hmem, decide_eq_false hall]
      rfl
  by_cases hstat : fails i = true ∨ k = l.length
  · -- the stat has no file, and the spool is listed again
    have hnone : (if fails i then none else
        (s.dir.get? (l.getLast hne).1).map SpoolFile.size) = none := by
      rcases hstat with hstat | hall
      · rw [if_pos hstat]
      · rw [decide_eq_true hall, Bool.not_true, Option.isSome_eq_false_iff,
          Option.isNone_iff_eq_none] at hget
        rw [hget, Option.map_none, ite_self]
    have hend : lastOperation fails i (decide (k = l.length)) = i + 4 := by
      rw [lastOperation]
      rcases hstat with hstat | hall
      · rw [hstat, Bool.or_true, if_pos rfl]
      · rw [decide_eq_true hall, Bool.true_or, if_pos rfl]
    rw [hnone, hend]
    simp only [call_bind, ret_bind]
    rw [replay_call faulty_names]
    cases hnames : fails (i + 1) with
    | true =>
      refine ⟨false, s, i + 2, rfl, fun _ => rfl, iff_of_false Bool.false_ne_true fun h => ?_⟩
      exact absurd (h (i + 1) (by omega) (by omega)) (by simp [hnames])
    | false =>
      obtain ⟨ok, s', i', hrun, hdir, hok⟩ := replay_write fails clock
        (s := s) file (s.dir.keys.getLast?.getD 0 + 1) (i + 2)
      refine ⟨ok, s', i', hrun, hdir, hok.trans ⟨fun h j hlo hhi => ?_, fun h => ?_⟩⟩
      · obtain rfl | rfl | rfl : j = i + 1 ∨ j = i + 2 ∨ j = i + 3 := by omega
        · exact hnames
        · exact h.1
        · exact h.2
      · exact ⟨h (i + 2) (by omega) (by omega), h (i + 3) (by omega) (by omega)⟩
  · obtain ⟨hstat, hall⟩ := not_or.mp hstat
    rw [Bool.not_eq_true] at hstat
    obtain ⟨f, hf⟩ := Option.isSome_iff_exists.mp
      (hget.trans (by rw [decide_eq_false hall, Bool.not_false]))
    have hend : lastOperation fails i (decide (k = l.length)) = i + 3 := by
      rw [lastOperation, decide_eq_false hall, hstat]
      rfl
    rw [hstat, if_neg Bool.false_ne_true, hf, hend, Option.map_some]
    obtain ⟨ok, s', i', hrun, hdir, hok⟩ := replay_write fails clock
      (s := s) file ((l.map Prod.fst).getLast?.getD 0 + 1) (i + 1)
    refine ⟨ok, s', i', ?_, hdir, hok.trans ⟨fun h j hlo hhi => ?_, fun h => ?_⟩⟩
    · rw [hlast] at hrun
      simp only [pure_def, ret_bind, hlast]
      exact hrun
    · obtain rfl | rfl : j = i + 1 ∨ j = i + 2 := by omega
      · exact h.1
      · exact h.2
    · exact ⟨h (i + 1) (by omega) (by omega), h (i + 2) (by omega) (by omega)⟩

end Faulty

/-! ### What a failed put loses -/

/-- Where the first files go, nothing that could be read is lost exactly when none of them could. -/
theorem readable_sublist_iff {s s' : AgentState} {m : ℕ}
    (h : s'.dir.entries = s.dir.entries.drop m) :
    s.readable.Sublist s'.readable ↔ ∀ e ∈ s.dir.entries.take m, e.2.item = none := by
  have hsplit : s.readable = (s.dir.entries.take m).filterMap
      (fun e => e.2.item.map fun item => (e.1, item)) ++ s'.readable := by
    rw [AgentState.readable, AgentState.readable, h, ← List.filterMap_append,
      List.take_append_drop]
  rw [hsplit]
  constructor
  · intro hsub e he
    have hle := hsub.length_le
    rw [List.length_append] at hle
    have hnil : (s.dir.entries.take m).filterMap
        (fun e => e.2.item.map fun item => (e.1, item)) = [] :=
      List.eq_nil_of_length_eq_zero (by omega)
    have hnone := List.filterMap_eq_nil_iff.mp hnil e he
    rwa [Option.map_eq_none_iff] at hnone
  · intro hnone
    rw [List.filterMap_eq_nil_iff.mpr fun e he => by rw [hnone e he, Option.map_none],
      List.nil_append]

/-- The file of a batch. -/
def fileOf (b : Batch) (clock : Time) : SpoolFile :=
  ({ b with queuedAt := clock } : SpoolItem).toFile

/-- Whether `Put` takes a batch for the spool: a valid body, and a file within the limit. -/
def Spoolable (maxBytes : ℕ) (b : Batch) (clock : Time) : Prop :=
  validBody b.body = true ∧ (fileOf b clock).size ≤ maxBytes

instance (maxBytes : ℕ) (b : Batch) (clock : Time) : Decidable (Spoolable maxBytes b clock) :=
  inferInstanceAs (Decidable (_ ∧ _))

section Put

variable {maxBytes : ℕ} {b : Batch} {fails : ℕ → Bool} {clock : Time} {s : AgentState}

/-- The clock is read first. -/
theorem replay_now {α : Type} (k : Time → AgentM α) :
    (Program.call .now k).replay (faulty fails clock) (s, 0) =
      (k clock).replay (faulty fails clock) (s, 0) :=
  replay_call rfl

/-- A batch that `Put` does not take is an error before any file operation. -/
theorem replay_put_refused (h : ¬ Spoolable maxBytes b clock) :
    (put maxBytes b).replay (faulty fails clock) (s, 0) = some (false, (s, 0)) := by
  rw [put_eq]
  by_cases hvalid : validBody b.body = true
  · have hsize : ¬ (fileOf b clock).size ≤ maxBytes := fun hsize => h ⟨hvalid, hsize⟩
    rw [hvalid, Bool.not_true, if_neg Bool.false_ne_true]
    simp only [call_bind, ret_bind]
    rw [replay_now, ← fileOf, if_pos (not_le.mp hsize)]
    rfl
  · rw [Bool.not_eq_true] at hvalid
    rw [hvalid, Bool.not_false, if_pos rfl]
    rfl

/-- The operations of a `Put` that takes the batch. -/
theorem replay_put (h : Spoolable maxBytes b clock) :
    (put maxBytes b).replay (faulty fails clock) (s, 0) =
      if fails 0 then some (false, (s, 1))
      else ((makeRoom maxBytes (fileOf b clock).size s.dir.keys).replay (faulty fails clock)
        (s, 1)).bind fun r =>
          (if r.1 then finishPut (fileOf b clock) s.dir.keys else pure false).replay
            (faulty fails clock) r.2 := by
  obtain ⟨hvalid, hsize⟩ := h
  rw [put_eq, hvalid, Bool.not_true, if_neg Bool.false_ne_true]
  simp only [call_bind, ret_bind]
  rw [replay_now, ← fileOf, if_neg (not_lt.mpr hsize),
    replay_call faulty_names]
  cases fails 0 with
  | true => rfl
  | false => exact replay_bind ..

end Put

/-- The files that `Put` of a batch has to drop, oldest first. -/
def evictedBy (maxBytes : ℕ) (b : Batch) (clock : Time) (s : AgentState) :
    List (ℕ × SpoolFile) :=
  if Spoolable maxBytes b clock then
    BoundedQueue.evicted entrySize maxBytes (fileOf b clock).size s.dir.entries
  else []

/-- No readable file is dropped before an operation fails that `Put` needs. The operations are the
listing, a stat for each file, and a stat and a removal for each file that has to go; after these
comes the stat of the newest file, which may fail, and then the rest. -/
def FailsFirst (fails : ℕ → Bool) (files : ℕ) (evicted : List (ℕ × SpoolFile)) : Prop :=
  ∀ m e, evicted[m]? = some e → e.2.item.isSome →
    (∃ j < files + 2 * m + 3, fails j = true) ∨
      ∀ j, files + 2 * m + 3 ≤ j → j ≠ files + 2 * evicted.length + 1 →
        j < lastOperation fails (files + 2 * evicted.length + 1)
          (decide (evicted.length = files)) → fails j = false

/-- Where the first `m` of the files that have to go were dropped and a later operation that `Put`
needs failed, the condition says that none of them could be read. -/
theorem failsFirst_iff {fails : ℕ → Bool} {files m : ℕ} {evicted : List (ℕ × SpoolFile)}
    (hgone : ∀ m', m' < m ↔ m' < evicted.length ∧ ∀ j < files + 2 * m' + 3, fails j = false)
    (hfailed : ∀ m' < m, ∃ j, files + 2 * m' + 3 ≤ j ∧ j ≠ files + 2 * evicted.length + 1 ∧
      j < lastOperation fails (files + 2 * evicted.length + 1) (decide (evicted.length = files)) ∧
      fails j = true) :
    FailsFirst fails files evicted ↔ ∀ e ∈ evicted.take m, e.2.item = none := by
  constructor
  · intro h e he
    obtain ⟨m', hm', hget⟩ := List.mem_take_iff_getElem.mp he
    have hlt : m' < m := by omega
    have hget : evicted[m']? = some e := by rw [List.getElem?_eq_some_iff]; exact ⟨_, hget⟩
    by_contra hitem
    rcases h m' e hget (Option.isSome_iff_ne_none.mpr hitem) with ⟨j, hj, hfail⟩ | hlater
    · exact absurd (((hgone m').mp hlt).2 j hj) (by simpa using hfail)
    · obtain ⟨j, hlo, hne, hhi, hfail⟩ := hfailed m' hlt
      exact absurd (hlater j hlo hne hhi) (by simpa using hfail)
  · intro h m' e hget hitem
    by_cases hlt : m' < m
    · have hmem : e ∈ evicted.take m :=
        List.mem_of_getElem? (i := m') (by rw [List.getElem?_take, if_pos hlt, hget])
      rw [h e hmem] at hitem
      exact absurd hitem (by simp)
    · -- a file that stays has an operation before its removal that failed
      obtain ⟨hbound, -⟩ := List.getElem?_eq_some_iff.mp hget
      have hnot := mt (hgone m').mpr hlt
      push Not at hnot
      obtain ⟨j, hj, hfail⟩ := hnot hbound
      exact .inl ⟨j, hj, by simpa using hfail⟩

/-- Room was made in the spool: the first `m` of the files that have to go are gone, each after the
operations up to its removal succeeded. -/
structure RoomMade (fails : ℕ → Bool) (s s₁ : AgentState) (evicted : List (ℕ × SpoolFile)) (m : ℕ) :
    Prop where
  entries : s₁.dir.entries = s.dir.entries.drop m
  oldest : evicted <+: s.dir.entries
  gone : ∀ m', m' < m ↔ m' < evicted.length ∧
    ∀ j < s.dir.entries.length + 2 * m' + 3, fails j = false

section RoomMade

variable {fails : ℕ → Bool} {clock : Time} {s s₁ s' : AgentState}
  {evicted : List (ℕ × SpoolFile)} {m : ℕ}

theorem RoomMade.le (h : RoomMade fails s s₁ evicted m) : m ≤ evicted.length := by
  by_contra hlt
  exact lt_irrefl _ ((h.gone evicted.length).mp (not_le.mp hlt)).1

/-- All of them are gone when no operation failed. -/
theorem RoomMade.eq_length (h : RoomMade fails s s₁ evicted m)
    (hall : ∀ j < s.dir.entries.length + 2 * evicted.length + 1, fails j = false) :
    m = evicted.length := by
  refine le_antisymm h.le (not_lt.mp fun hlt => ?_)
  exact lt_irrefl m ((h.gone m).mpr ⟨hlt, fun j hj => hall j (by omega)⟩)

/-- What could be read is still there exactly when none of the files that are gone could be. -/
theorem RoomMade.sublist_iff (h : RoomMade fails s s₁ evicted m) (hs' : s'.dir = s₁.dir) :
    s.readable.Sublist s'.readable ↔ ∀ e ∈ evicted.take m, e.2.item = none := by
  have htake : s.dir.entries.take m = evicted.take m := by
    obtain ⟨rest, hrest⟩ := h.oldest
    rw [← hrest, List.take_append_of_le_length h.le]
  rw [readable_sublist_iff (m := m) (by rw [hs', h.entries]), htake]

/-- An error loses nothing exactly under the condition, when the operation that failed came after
the removals. -/
theorem RoomMade.keeps_iff (h : RoomMade fails s s₁ evicted m) (hs' : s'.dir = s₁.dir)
    (hfailed : ∀ m' < m, ∃ j, s.dir.entries.length + 2 * m' + 3 ≤ j ∧
      j ≠ s.dir.entries.length + 2 * evicted.length + 1 ∧
      j < lastOperation fails (s.dir.entries.length + 2 * evicted.length + 1)
        (decide (evicted.length = s.dir.entries.length)) ∧ fails j = true) :
    (false = false → s.readable.Sublist s'.readable) ↔
      FailsFirst fails s.dir.entries.length evicted := by
  rw [h.sublist_iff hs', failsFirst_iff h.gone hfailed]
  exact ⟨fun hnone => hnone rfl, fun hnone _ => hnone⟩

/-- The case of an error while room is made. -/
theorem RoomMade.keeps_iff_of_failed (h : RoomMade fails s s₁ evicted m)
    (hfailed : ¬ ∀ j < s.dir.entries.length + 2 * evicted.length + 1, fails j = false) :
    (false = false → s.readable.Sublist s₁.readable) ↔
      FailsFirst fails s.dir.entries.length evicted := by
  refine h.keeps_iff rfl fun m' hlt => ?_
  push Not at hfailed
  obtain ⟨j, hj, hfail⟩ := hfailed
  have hfail : fails j = true := by simpa using hfail
  have hlate : s.dir.entries.length + 2 * m' + 3 ≤ j := by
    by_contra hearly
    exact absurd (((h.gone m').mp hlt).2 j (not_le.mp hearly)) (by simpa using hfail)
  refine ⟨j, hlate, by omega, lt_of_lt_of_le hj ?_, hfail⟩
  rw [lastOperation]
  split_ifs <;> omega

/-- The case of no error while room is made: the rest of `Put` follows. -/
theorem RoomMade.finish (h : RoomMade fails s s₁ evicted m)
    (hall : ∀ j < s.dir.entries.length + 2 * evicted.length + 1, fails j = false)
    (file : SpoolFile) :
    ∃ ok s' i, (finishPut file (s.dir.entries.map Prod.fst)).replay (faulty fails clock)
        (s₁, s.dir.entries.length + 2 * evicted.length + 1) = some (ok, (s', i)) ∧
      ((ok = false → s.readable.Sublist s'.readable) ↔
        FailsFirst fails s.dir.entries.length evicted) := by
  obtain rfl := h.eq_length hall
  by_cases hempty : s.dir.entries = []
  · -- nothing was there to be dropped
    have hnone : evicted = [] := List.prefix_nil.mp (hempty ▸ h.oldest)
    obtain ⟨ok, s', i', hrun, hdir, -⟩ := replay_write fails clock (s := s₁) file
      (([] : List ℕ).getLast?.getD 0 + 1) (s.dir.entries.length + 2 * evicted.length + 1)
    refine ⟨ok, s', i', by rw [hempty] at hrun ⊢; exact hrun, iff_of_true (fun hok => ?_) ?_⟩
    · rw [h.sublist_iff (hdir hok), hnone]
      simp
    · rw [hnone]
      exact fun m' e he => by simp at he
  obtain ⟨ok, s', i', hrun, hdir, hfinish⟩ := replay_finishPut fails clock hempty
    h.oldest.length_le h.entries file (s.dir.entries.length + 2 * evicted.length + 1)
  refine ⟨ok, s', i', hrun, ?_⟩
  cases ok with
  | true =>
    refine iff_of_true (fun hok => absurd hok (by simp)) fun m' e hget _ => .inr ?_
    intro j hlo hne hhi
    by_cases hj : j < s.dir.entries.length + 2 * evicted.length + 1
    · exact hall j hj
    · exact hfinish.mp rfl j (by omega) hhi
  | false =>
    refine h.keeps_iff (hdir rfl) fun m' hlt => ?_
    have hnot := mt hfinish.mpr Bool.false_ne_true
    push Not at hnot
    obtain ⟨j, hlo, hhi, hfail⟩ := hnot
    exact ⟨j, by omega, by omega, hhi, by simpa using hfail⟩

end RoomMade

/-- The listing is the first operation, and room is made after it. -/
theorem roomMade_of_put {maxBytes : ℕ} {b : Batch} {fails : ℕ → Bool} (clock : Time)
    (s : AgentState) (htaken : Spoolable maxBytes b clock) (hlist : fails 0 = false) :
    ∃ ok s₁ i m, (makeRoom maxBytes (fileOf b clock).size s.dir.keys).replay (faulty fails clock)
        (s, 1) = some (ok, (s₁, i)) ∧
      RoomMade fails s s₁ (evictedBy maxBytes b clock s) m ∧
      (ok = true ↔ ∀ j < s.dir.entries.length + 2 * (evictedBy maxBytes b clock s).length + 1,
        fails j = false) ∧
      (ok = true → i = s.dir.entries.length + 2 * (evictedBy maxBytes b clock s).length + 1) := by
  obtain ⟨ok, s₁, i, m, hroom, hentries, hdropped, hok, hcount⟩ :=
    replay_makeRoom fails clock htaken.2 (s := s) rfl 1
  rw [evictedBy, if_pos htaken]
  have hbefore : ∀ n, (∀ j < n, fails (1 + j) = false) ↔ ∀ j < n + 1, fails j = false := by
    intro n
    constructor
    · intro h j hj
      cases j with
      | zero => exact hlist
      | succ j => exact Nat.add_comm 1 j ▸ h j (Nat.lt_of_succ_lt_succ hj)
    · exact fun h j hj => h (1 + j) (by omega)
  refine ⟨ok, s₁, i, m, hroom, ⟨hentries, ⟨_, BoundedQueue.evicted_append_makeRoom _ _⟩,
    fun m' => ?_⟩, ?_, fun h => ?_⟩
  · rw [hdropped, hbefore]
  · rw [hok, hbefore]
  · rw [hcount h]
    omega

/-- **When a failed put loses nothing.** `Put` returns, whatever fails; and what could be read
before an error can still be read after it, in the same order, exactly when no file operation that
`Put` needs fails after a readable file was dropped. -/
theorem failedPut_keeps_iff (maxBytes : ℕ) (b : Batch) (fails : ℕ → Bool) (clock : Time)
    (s : AgentState) :
    ∃ ok s' i, (put maxBytes b).replay (faulty fails clock) (s, 0) = some (ok, (s', i)) ∧
      ((ok = false → s.readable.Sublist s'.readable) ↔
        FailsFirst fails s.dir.entries.length (evictedBy maxBytes b clock s)) := by
  by_cases htaken : Spoolable maxBytes b clock
  swap
  · refine ⟨false, s, 0, replay_put_refused htaken, ?_⟩
    rw [evictedBy, if_neg htaken]
    exact iff_of_true (fun _ => List.Sublist.refl _) fun m e he => by simp at he
  rw [replay_put htaken]
  by_cases hlist : fails 0 = true
  · -- the listing fails before anything else
    refine ⟨false, s, 1, by rw [if_pos hlist], ?_⟩
    exact iff_of_true (fun _ => List.Sublist.refl _)
      fun m e _ _ => .inl ⟨0, by omega, hlist⟩
  rw [Bool.not_eq_true] at hlist
  obtain ⟨ok, s₁, i, m, hroom, hmade, hok, hcount⟩ := roomMade_of_put clock s htaken hlist
  rw [hlist, if_neg Bool.false_ne_true, hroom, Option.bind_some]
  cases ok with
  | false =>
    have hfailed := mt hok.mpr Bool.false_ne_true
    exact ⟨false, s₁, i, rfl, hmade.keeps_iff_of_failed hfailed⟩
  | true =>
    obtain rfl := hcount rfl
    exact hmade.finish (hok.mp rfl) (fileOf b clock)

/-- **A full disk.** A spool of 128 bytes holds one file of 100. It goes to make room for the next
batch, whose temporary file cannot be written: `Put` fails, and the spool is empty. -/
theorem full_disk_loses_item : ¬ ∀ (maxBytes : ℕ) (b : Batch) (fails : ℕ → Bool) (clock : Time)
    (s : AgentState) (ok : Bool) (s' : AgentState) (i : ℕ),
    (put maxBytes b).replay (faulty fails clock) (s, 0) = some (ok, (s', i)) →
      ok = false → s.readable.Sublist s'.readable := by
  intro hall
  let b : Batch := ⟨"/api/v1/events", "b", .obj []⟩
  let stored : SpoolItem := ⟨⟨"/api/v1/events", "a", .obj []⟩, ⟨63844891200000000000⟩⟩
  let s : AgentState := ⟨SortedMap.insert ∅ 1 ⟨100, some stored⟩, []⟩
  have hrun : ((put 128 b).replay (faulty (fun i => i == 6) ⟨63844891260000000000⟩) (s, 0)).map
      (fun r => (r.1, r.2.1.readable.map Prod.fst)) = some (false, []) := by decide +kernel
  obtain ⟨⟨ok, s', i⟩, hput, hlost⟩ := Option.map_eq_some_iff.mp hrun
  obtain ⟨hok, hnil⟩ := Prod.mk.inj hlost
  have hsub := (hall 128 b _ _ s ok s' i hput hok).length_le
  rw [List.map_eq_nil_iff.mp hnil] at hsub
  exact absurd hsub (by decide)

end Argus
