import Argus.Foundations.History
import Argus.Store.Patterns

/-!
# The counts of observed links

A run of `RecordTopologyLinks`: batches of links, each in a transaction of its own, so that a batch
that fails leaves `topology_links` as it was. The column `count` is an `INTEGER`, the increments of
a link are 64-bit numbers.

`always_recorded_iff` says in which runs every batch is stored and the counts are the sums.
-/

namespace Argus

open Foundations SortedMap

/-! ### Runs -/

/-- `topology_links` after batches; one that fails changes nothing. -/
def linkTable (batches : List (List TopologyLink)) : SortedMap LinkKey LinkRow :=
  batches.foldl (fun table links => (recordTopologyLinks table links).getD table) ∅

/-- The stored count of a link, or nothing. -/
def storedCount (table : SortedMap LinkKey LinkRow) (source target : String) (port : ℕ) : ℕ :=
  ((table.get? (toLex (source, toLex (target, port)))).map LinkRow.count).getD 0

/-- The sum of the increments that batches report for a link. -/
def increments (batches : List (List TopologyLink)) (source target : String) (port : ℕ) : ℕ :=
  ((batches.flatten.filter fun l =>
    l.source = source ∧ l.target = target ∧ l.port = port).map TopologyLink.count).sum

theorem increments_append (batches batches' : List (List TopologyLink)) (source target : String)
    (port : ℕ) : increments (batches ++ batches') source target port =
      increments batches source target port + increments batches' source target port := by
  simp only [increments, List.flatten_append, List.filter_append, List.map_append, List.sum_append]

/-- A batch is stored after the earlier ones, and every count is then the sum of its increments. A
link without a source or a target is none. -/
structure Recorded (earlier : List (List TopologyLink)) (links : List TopologyLink) : Prop where
  succeeds : (recordTopologyLinks (linkTable earlier) links).isSome
  sums : ∀ source target port, source ≠ "" → target ≠ "" →
    storedCount (linkTable (earlier ++ [links])) source target port =
      increments (earlier ++ [links]) source target port

/-- The columns take the values of the links, and no sum of increments exceeds its column. -/
structure Fits (batches : List (List TopologyLink)) : Prop where
  valid : ∀ links ∈ batches, ∀ l ∈ links, linkValid l = true
  sums : ∀ source target port, source ≠ "" → target ≠ "" →
    increments batches source target port < 2 ^ 31

/-! ### One table -/

/-- The rows that batches have for `topology_links`. -/
def runRows (batches : List (List TopologyLink)) : List (LinkKey × LinkRow) :=
  batches.flatten.flatMap linkRows

theorem runRows_concat (batches : List (List TopologyLink)) (links : List TopologyLink) :
    runRows (batches ++ [links]) = runRows batches ++ links.flatMap linkRows := by
  rw [runRows, List.flatten_concat, List.flatMap_append, runRows]

/-- One batch, with the check of the counts. -/
theorem recordTopologyLinks_eq_some {table table' : SortedMap LinkKey LinkRow}
    {links : List TopologyLink} : recordTopologyLinks table links = some table' ↔
      (∀ l ∈ links, linkValid l = true) ∧
        tryUpsertAll (fun r => validInteger r.count) mergeLink table (links.flatMap linkRows) =
          some table' :=
  execAll_eq_some

/-- When every batch was stored the table has the rows of all batches. -/
theorem tryUpsertAll_linkTable {batches : List (List TopologyLink)}
    (h : Always Recorded batches) :
    (∀ links ∈ batches, ∀ l ∈ links, linkValid l = true) ∧
      tryUpsertAll (fun r => validInteger r.count) mergeLink ∅ (runRows batches) =
        some (linkTable batches) := by
  induction batches using List.reverseRecOn with
  | nil => exact ⟨fun _ hl => absurd hl List.not_mem_nil, rfl⟩
  | append_singleton batches links ih =>
    obtain ⟨hbatches, hlinks⟩ := always_concat.mp h
    obtain ⟨hvalid, htable⟩ := ih hbatches
    obtain ⟨table, hrecord⟩ := Option.isSome_iff_exists.mp hlinks.succeeds
    have hnext : linkTable (batches ++ [links]) = table := by
      rw [linkTable, List.foldl_concat]
      change (recordTopologyLinks (linkTable batches) links).getD _ = table
      rw [hrecord, Option.getD_some]
    obtain ⟨hnew, hrows⟩ := recordTopologyLinks_eq_some.mp hrecord
    refine ⟨?_, ?_⟩
    · intro links' hmem
      rcases List.mem_append.mp hmem with hmem | hmem
      · exact hvalid links' hmem
      · rw [List.mem_singleton.mp hmem]
        exact hnew
    · rw [runRows_concat, tryUpsertAll_append, htable, Option.bind_some, hrows, hnext]

/-- Every batch of a run is stored when the rows of all of them are. -/
theorem linkTable_of_tryUpsertAll {batches : List (List TopologyLink)}
    {table : SortedMap LinkKey LinkRow}
    (hvalid : ∀ links ∈ batches, ∀ l ∈ links, linkValid l = true)
    (h : tryUpsertAll (fun r => validInteger r.count) mergeLink ∅ (runRows batches) = some table) :
    linkTable batches = table ∧
      Always (fun earlier links => (recordTopologyLinks (linkTable earlier) links).isSome)
        batches := by
  induction batches using List.reverseRecOn generalizing table with
  | nil => exact ⟨Option.some.inj h, always_nil⟩
  | append_singleton batches links ih =>
    rw [runRows_concat, tryUpsertAll_append, Option.bind_eq_some_iff] at h
    obtain ⟨before, hbefore, hrows⟩ := h
    obtain ⟨htable, hstored⟩ :=
      ih (fun links' hmem => hvalid links' (List.mem_append_left _ hmem)) hbefore
    have hrecord : recordTopologyLinks (linkTable batches) links = some table := by
      rw [htable]
      exact recordTopologyLinks_eq_some.mpr
        ⟨hvalid links (List.mem_append_right _ List.mem_cons_self), hrows⟩
    refine ⟨?_, always_concat.mpr ⟨hstored, by rw [hrecord]; rfl⟩⟩
    rw [linkTable, List.foldl_concat]
    change (recordTopologyLinks (linkTable batches) links).getD _ = table
    rw [hrecord, Option.getD_some]

/-! ### Sums -/

/-- What the row of a link counts under a key. -/
theorem sum_rowsFor_link (l : TopologyLink) (source target : String) (port : ℕ) :
    ((rowsFor (toLex (source, toLex (target, port))) (linkRows l)).map LinkRow.count).sum =
      if source ≠ "" ∧ target ≠ "" ∧ l.source = source ∧ l.target = target ∧ l.port = port then
        l.count
      else 0 := by
  rw [linkRows]
  split_ifs with hskip hkey hkey
  · -- a link that is skipped and lies under a key with both ends counts nothing
    obtain ⟨hs, ht, rfl, rfl, -⟩ := hkey
    simp only [TopologyLink.skipped, Bool.or_eq_true, beq_iff_eq, hs, ht, false_or] at hskip
    exact hskip.symm
  · rfl
  · obtain ⟨-, -, rfl, rfl, rfl⟩ := hkey
    rw [rowsFor_cons, if_pos rfl]
    rfl
  · have hne :
        toLex (l.source, toLex (l.target, l.port)) ≠ toLex (source, toLex (target, port)) := by
      intro heq
      obtain ⟨rfl, hrest⟩ := Prod.mk.inj (toLex.injective heq)
      obtain ⟨rfl, rfl⟩ := Prod.mk.inj (toLex.injective hrest)
      simp only [TopologyLink.skipped, Bool.or_eq_true, beq_iff_eq, not_or] at hskip
      exact hkey ⟨hskip.1.1, hskip.1.2, rfl, rfl, rfl⟩
    rw [rowsFor_cons, if_neg hne]
    rfl

/-- What the rows of a run count under a key is the sum of the increments of the link; without a
source or a target it is nothing. -/
theorem sum_rowsFor (batches : List (List TopologyLink)) (source target : String) (port : ℕ) :
    ((rowsFor (toLex (source, toLex (target, port))) (runRows batches)).map LinkRow.count).sum =
      if source ≠ "" ∧ target ≠ "" then increments batches source target port else 0 := by
  rw [runRows, increments]
  induction batches.flatten with
  | nil => simp
  | cons l links ih =>
    rw [List.flatMap_cons, rowsFor_append, List.map_append, List.sum_append, ih, sum_rowsFor_link,
      List.filter_cons]
    by_cases hends : source ≠ "" ∧ target ≠ ""
    · by_cases hkey : l.source = source ∧ l.target = target ∧ l.port = port
      · simp [hends, hkey]
      · simp [hends, hkey]
    · rw [if_neg hends, if_neg hends, if_neg fun h => hends ⟨h.1, h.2.1⟩]

/-- The count that the rows of a run leave is the sum of the increments. -/
theorem storedCount_upsertAll (batches : List (List TopologyLink)) {source target : String}
    (port : ℕ) (hs : source ≠ "") (ht : target ≠ "") :
    storedCount ((∅ : SortedMap LinkKey LinkRow).upsertAll mergeLink (runRows batches)) source
      target port = increments batches source target port := by
  have hsum := sum_rowsFor batches source target port
  rw [if_pos ⟨hs, ht⟩] at hsum
  rw [← hsum, storedCount]
  have hget := linkAccumulator.get?_upsertAll_empty (runRows batches)
    (toLex (source, toLex (target, port)))
  change ((∅ : SortedMap LinkKey LinkRow).upsertAll mergeLink (runRows batches)).get? _ = _ at hget
  rw [hget]
  cases hrow : (rowsFor (toLex (source, toLex (target, port))) (runRows batches)).foldl
      (mergeInto linkAccumulator.merge) none with
  | none =>
    rw [(foldl_mergeInto_eq_none.mp hrow).2]
    rfl
  | some row => exact (linkAccumulator.foldl_merge hrow).2.2

/-- The rows of a run are all stored when every sum of increments fits. -/
theorem tryUpsertAll_runRows {batches : List (List TopologyLink)}
    {table : SortedMap LinkKey LinkRow} :
    tryUpsertAll (fun r => validInteger r.count) mergeLink ∅ (runRows batches) = some table ↔
      table = (∅ : SortedMap LinkKey LinkRow).upsertAll mergeLink (runRows batches) ∧
        ∀ source target port, source ≠ "" → target ≠ "" →
          increments batches source target port < 2 ^ 31 := by
  have hrows : (batches.map RecordBatch.links).flatMap RecordBatch.linkRows = runRows batches := by
    rw [runRows]
    induction batches with
    | nil => rfl
    | cons links batches ih =>
      rw [List.map_cons, List.flatMap_cons, ih, List.flatten_cons, List.flatMap_append]
      rfl
  have hcounts := @tryUpsertAll_counts _ _ _ _ _ linkAccumulator RecordBatch.linkRows
    (batches.map RecordBatch.links) table
  simp only [total, hrows] at hcounts
  refine hcounts.trans (and_congr_right fun _ => ?_)
  have hsum := sum_rowsFor batches
  constructor
  · intro h source target port hs ht
    have hfits := h (toLex (source, toLex (target, port)))
    change ((rowsFor _ (runRows batches)).map LinkRow.count).sum < 2 ^ 31 at hfits
    rwa [hsum, if_pos ⟨hs, ht⟩] at hfits
  · intro h key
    obtain ⟨source, rest, rfl⟩ : ∃ source rest, key = toLex (source, rest) := ⟨key.1, key.2, rfl⟩
    obtain ⟨target, port, rfl⟩ : ∃ target port, rest = toLex (target, port) :=
      ⟨rest.1, rest.2, rfl⟩
    change ((rowsFor _ (runRows batches)).map LinkRow.count).sum < 2 ^ 31
    rw [hsum]
    split_ifs with hends
    · exact h source target port hends.1 hends.2
    · exact Nat.two_pow_pos 31

/-- **Key result.** Every batch of a run is stored, with counts that are the sums of the increments,
exactly when the columns take the values of its links and every sum of increments stays below
`2 ^ 31`. -/
theorem always_recorded_iff (batches : List (List TopologyLink)) :
    Always Recorded batches ↔ Fits batches := by
  constructor
  · intro h
    obtain ⟨hvalid, htable⟩ := tryUpsertAll_linkTable h
    exact ⟨hvalid, (tryUpsertAll_runRows.mp htable).2⟩
  · rintro ⟨hvalid, hsums⟩
    obtain ⟨-, hstored⟩ := linkTable_of_tryUpsertAll hvalid (tryUpsertAll_runRows.mpr ⟨rfl, hsums⟩)
    rintro earlier links later rfl
    refine ⟨hstored earlier links later rfl, fun source target port hs ht => ?_⟩
    -- the table after this batch has the rows up to it, whose sums fit as well
    have hbeginning : earlier ++ [links] <+: earlier ++ links :: later :=
      ⟨later, by rw [List.append_assoc]; rfl⟩
    obtain ⟨rest, hrest⟩ := hbeginning
    rw [← hrest] at hvalid hsums
    have hfits : ∀ source target port, source ≠ "" → target ≠ "" →
        increments (earlier ++ [links]) source target port < 2 ^ 31 := by
      intro source target port hs ht
      refine lt_of_le_of_lt ?_ (hsums source target port hs ht)
      rw [increments_append (earlier ++ [links]) rest]
      exact Nat.le_add_right _ _
    obtain ⟨htable, -⟩ := linkTable_of_tryUpsertAll
      (fun links' hmem => hvalid links' (List.mem_append_left _ hmem))
      (tryUpsertAll_runRows.mpr ⟨rfl, hfits⟩)
    rw [htable]
    exact storedCount_upsertAll _ port hs ht

/-- Two windows of one link, the first with as many connections as the column holds; the second
comes with another link. -/
def fullLink : List (List TopologyLink) :=
  [[⟨"checkout", "postgres", "tcp", 5432, 2 ^ 31 - 1, ⟨1⟩⟩],
    [⟨"checkout", "postgres", "tcp", 5432, 1, ⟨2⟩⟩, ⟨"checkout", "redis", "tcp", 6379, 1, ⟨2⟩⟩]]

/-- The second batch is rejected as a whole. -/
theorem fullLink_rejected : ¬ Always Recorded fullLink := by
  intro h
  have hlast := (h [fullLink.head (by decide)] _ [] rfl).succeeds
  revert hlast
  decide +kernel

end Argus
