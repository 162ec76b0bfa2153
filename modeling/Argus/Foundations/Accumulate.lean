import Argus.Foundations.SortedMap
import Mathlib.Algebra.BigOperators.Group.List.Basic
import Mathlib.Algebra.GroupWithZero.Nat
import Mathlib.Algebra.Order.BigOperators.Group.List
import Mathlib.Order.Lattice

/-!
# Accumulating tables and the order of their rows

An `Accumulator` is an upsert whose columns are of three kinds: some are set by the first row of
a key and never change, some are overwritten by every row, among them the time of the row, and a
count is added up. Under a key lies then the first row's fixed part, the last row's latest part
and the sum of the counts (`Accumulator.foldl_merge`).

The counts do not depend on the order of the rows, the other columns do. `settled_iff` says how
much: two orders of the same batches leave the same table, with every time the largest of its
key, exactly when under every key a newest row comes last in both orders and the first rows
agree in the fixed columns.

A table may also refuse a row. `tryUpsertAll` stops there, and `tryUpsertAll_eq_some` says when
it does not: for a condition that a merge can only lose, when the final rows satisfy it.
-/

namespace Foundations

/-- An upsert that fixes, overwrites and adds. -/
structure Accumulator (ρ φ ω τ : Type) where
  merge : ρ → ρ → ρ
  /-- The columns that the first row of a key sets. -/
  fixed : ρ → φ
  /-- The columns that every row overwrites. -/
  latest : ρ → ω
  /-- The time of the row, overwritten as well. -/
  seen : ρ → τ
  /-- The column that is added up. -/
  count : ρ → ℕ
  fixed_merge : ∀ a b, fixed (merge a b) = fixed a
  latest_merge : ∀ a b, latest (merge a b) = latest b
  seen_merge : ∀ a b, seen (merge a b) = seen b
  count_merge : ∀ a b, count (merge a b) = count a + count b
  eq_of : ∀ a b, fixed a = fixed b → latest a = latest b → seen a = seen b → count a = count b →
    a = b

namespace Accumulator

open SortedMap

variable {κ ρ φ ω τ : Type} [LinearOrder κ] (A : Accumulator ρ φ ω τ)

/-- **The row of a key.** Fixed columns of the first row, the others of the last, the counts
added up. -/
theorem foldl_merge {l : List ρ} {r : ρ} (h : l.foldl (mergeInto A.merge) none = some r) :
    (∃ a ∈ l.head?, A.fixed r = A.fixed a) ∧
      (∃ b ∈ l.getLast?, A.latest r = A.latest b ∧ A.seen r = A.seen b) ∧
      A.count r = (l.map A.count).sum := by
  -- by induction on the rows after the first
  suffices ∀ (l : List ρ) (a r : ρ), l.foldl (mergeInto A.merge) (some a) = some r →
      A.fixed r = A.fixed a ∧
        (∃ b ∈ (a :: l).getLast?, A.latest r = A.latest b ∧ A.seen r = A.seen b) ∧
        A.count r = A.count a + (l.map A.count).sum by
    cases l with
    | nil => cases h
    | cons a l =>
      obtain ⟨hfixed, hlast, hcount⟩ := this l a r h
      exact ⟨⟨a, rfl, hfixed⟩, hlast, by rw [hcount, List.map_cons, List.sum_cons]⟩
  intro l
  induction l with
  | nil =>
    intro a r h
    obtain rfl : a = r := Option.some.inj h
    exact ⟨rfl, ⟨a, rfl, rfl, rfl⟩, by simp⟩
  | cons b l ih =>
    intro a r h
    obtain ⟨hfixed, ⟨c, hc, hlatest, hseen⟩, hcount⟩ := ih (A.merge a b) r h
    refine ⟨hfixed.trans (A.fixed_merge a b), ?_, ?_⟩
    · cases l with
      | nil =>
        obtain rfl : A.merge a b = c := by simpa using hc
        exact ⟨b, rfl, hlatest.trans (A.latest_merge a b), hseen.trans (A.seen_merge a b)⟩
      | cons d l => exact ⟨c, by simpa using hc, hlatest, hseen⟩
    · rw [hcount, A.count_merge, List.map_cons, List.sum_cons, Nat.add_assoc]

/-- Whatever a key had before, its count grows by those of its rows. -/
theorem count_foldl (l : List ρ) (o : Option ρ) :
    ((l.foldl (mergeInto A.merge) o).map A.count).getD 0 =
      (o.map A.count).getD 0 + (l.map A.count).sum := by
  induction l generalizing o with
  | nil => rfl
  | cons x l ih =>
    rw [List.foldl_cons, ih, List.map_cons, List.sum_cons, ← Nat.add_assoc]
    refine congrArg (· + _) ?_
    cases o with
    | none => exact (Nat.zero_add _).symm
    | some a => exact A.count_merge a x

/-- A newest row of the key comes last. -/
def NewestLast [LinearOrder τ] (k : κ) (rows : List (κ × ρ)) : Prop :=
  ∀ b ∈ (rowsFor k rows).getLast?, ∀ r ∈ rowsFor k rows, A.seen r ≤ A.seen b

/-- The first rows of the key agree in the fixed columns. -/
def SameFixed (k : κ) (rows rows' : List (κ × ρ)) : Prop :=
  ∀ a ∈ (rowsFor k rows).head?, ∀ a' ∈ (rowsFor k rows').head?, A.fixed a = A.fixed a'

/-- The table shows, under every key, the sum of the counts and the largest time of its rows. -/
def ShowsTotals [LinearOrder τ] (table : SortedMap κ ρ) (rows : List (κ × ρ)) : Prop :=
  ∀ k r, table.get? k = some r → A.count r = ((rowsFor k rows).map A.count).sum ∧
    (∃ x ∈ rowsFor k rows, A.seen r = A.seen x) ∧ ∀ x ∈ rowsFor k rows, A.seen x ≤ A.seen r

/-- Two orders of rows settle alike: the same table, and it shows the totals. -/
def SettleAlike [LinearOrder τ] (rows rows' : List (κ × ρ)) : Prop :=
  (∅ : SortedMap κ ρ).upsertAll A.merge rows = (∅ : SortedMap κ ρ).upsertAll A.merge rows' ∧
    A.ShowsTotals ((∅ : SortedMap κ ρ).upsertAll A.merge rows) rows

theorem get?_upsertAll_empty (rows : List (κ × ρ)) (k : κ) :
    ((∅ : SortedMap κ ρ).upsertAll A.merge rows).get? k =
      (rowsFor k rows).foldl (mergeInto A.merge) none := by
  rw [get?_upsertAll, get?_empty]

/-- A key with rows has a row in the table. -/
theorem exists_row {rows : List (κ × ρ)} {k : κ} {x : ρ} (h : x ∈ rowsFor k rows) :
    ∃ r, (rowsFor k rows).foldl (mergeInto A.merge) none = some r := by
  refine Option.ne_none_iff_exists'.mp fun hnone => ?_
  rw [(foldl_mergeInto_eq_none.mp hnone).2] at h
  exact absurd h List.not_mem_nil

/-- **Order and accumulation.** Two orders of the same rows, in which last rows of one time
agree, settle alike exactly when newest rows come last in both and first rows agree. -/
theorem settled_iff [LinearOrder τ] {rows rows' : List (κ × ρ)} (hperm : rows.Perm rows')
    (htie : ∀ k, ∀ b ∈ (rowsFor k rows).getLast?, ∀ b' ∈ (rowsFor k rows').getLast?,
      A.seen b = A.seen b' → A.latest b = A.latest b') :
    A.SettleAlike rows rows' ↔
      ∀ k, A.NewestLast k rows ∧ A.NewestLast k rows' ∧ A.SameFixed k rows rows' := by
  constructor
  · rintro ⟨heq, htotals⟩ k
    have hk := congrArg (fun m => m.get? k) heq
    simp only [get?_upsertAll_empty] at hk
    -- both folds end in the row of the table, which shows the largest time
    have hrow : ∀ x ∈ rowsFor k rows, ∃ r,
        (rowsFor k rows).foldl (mergeInto A.merge) none = some r ∧
        (rowsFor k rows').foldl (mergeInto A.merge) none = some r ∧
        ∀ y ∈ rowsFor k rows, A.seen y ≤ A.seen r := by
      intro x hx
      obtain ⟨r, hr⟩ := A.exists_row hx
      exact ⟨r, hr, hk ▸ hr, (htotals k r ((A.get?_upsertAll_empty rows k).trans hr)).2.2⟩
    refine ⟨fun b hb y hy => ?_, fun b hb y hy => ?_, fun a ha a' ha' => ?_⟩
    · obtain ⟨r, hr, -, hmax⟩ := hrow y hy
      obtain ⟨-, ⟨b', hb', -, hseen⟩, -⟩ := A.foldl_merge hr
      obtain rfl : b = b' := Option.some.inj (hb.symm.trans hb')
      exact hseen ▸ hmax y hy
    · have hy' := (rowsFor_perm hperm k).mem_iff.mpr hy
      obtain ⟨r, -, hr, hmax⟩ := hrow y hy'
      obtain ⟨-, ⟨b', hb', -, hseen⟩, -⟩ := A.foldl_merge hr
      obtain rfl : b = b' := Option.some.inj (hb.symm.trans hb')
      exact hseen ▸ hmax y hy'
    · obtain ⟨r, hr, hr', -⟩ := hrow a (List.mem_of_head? ha)
      obtain ⟨⟨c, hc, hfixed⟩, -⟩ := A.foldl_merge hr
      obtain ⟨⟨c', hc', hfixed'⟩, -⟩ := A.foldl_merge hr'
      obtain rfl : a = c := Option.some.inj (ha.symm.trans hc)
      obtain rfl : a' = c' := Option.some.inj (ha'.symm.trans hc')
      exact hfixed.symm.trans hfixed'
  · intro h
    refine ⟨SortedMap.ext fun k => ?_, fun k r hr => ?_⟩
    · obtain ⟨hnew, hnew', hfixed⟩ := h k
      have hl := rowsFor_perm hperm k
      rw [get?_upsertAll_empty, get?_upsertAll_empty]
      cases hr : (rowsFor k rows).foldl (mergeInto A.merge) none with
      | none =>
        have hnil := (foldl_mergeInto_eq_none.mp hr).2
        rw [hnil, List.nil_perm] at hl
        rw [hl]
        rfl
      | some r =>
        obtain ⟨⟨a, ha, hra⟩, ⟨b, hb, hrb, hsb⟩, hcount⟩ := A.foldl_merge hr
        have hmem := List.mem_of_getLast? hb
        obtain ⟨r', hr'⟩ := A.exists_row (hl.mem_iff.mp hmem)
        obtain ⟨⟨a', ha', hra'⟩, ⟨b', hb', hrb', hsb'⟩, hcount'⟩ := A.foldl_merge hr'
        have hseen : A.seen b = A.seen b' :=
          le_antisymm (hnew' b' hb' b (hl.mem_iff.mp hmem))
            (hnew b hb b' (hl.mem_iff.mpr (List.mem_of_getLast? hb')))
        rw [hr']
        refine congrArg some (A.eq_of r r' ?_ ?_ ?_ ?_)
        · rw [hra, hra', hfixed a ha a' ha']
        · rw [hrb, hrb', htie k b hb b' hb' hseen]
        · rw [hsb, hsb', hseen]
        · rw [hcount, hcount', (hl.map A.count).sum_eq]
    · rw [get?_upsertAll_empty] at hr
      obtain ⟨-, ⟨b, hb, -, hsb⟩, hcount⟩ := A.foldl_merge hr
      exact ⟨hcount, ⟨b, List.mem_of_getLast? hb, hsb⟩, fun x hx => hsb ▸ (h k).1 b hb x hx⟩

/-! ### Batches -/

/-- The last row of a key is the last one in some batch. -/
theorem exists_batch_of_getLast? {k : κ} {batches : List (List (κ × ρ))} {x : ρ}
    (h : x ∈ (rowsFor k batches.flatten).getLast?) :
    ∃ b ∈ batches, x ∈ (rowsFor k b).getLast? := by
  induction batches with
  | nil => cases h
  | cons b batches ih =>
    rw [List.flatten_cons, rowsFor_append, List.getLast?_append] at h
    cases hrest : (rowsFor k batches.flatten).getLast? with
    | none =>
      rw [hrest, Option.none_or] at h
      exact ⟨b, List.mem_cons_self, h⟩
    | some y =>
      rw [hrest, Option.some_or] at h
      obtain ⟨b', hb', hx⟩ := ih (hrest ▸ h)
      exact ⟨b', List.mem_cons_of_mem b hb', hx⟩

/-- Where different batches have no rows of one time, last rows of one time agree. -/
theorem last_eq_of_seen_eq {batches batches' : List (List (κ × ρ))} (hperm : batches.Perm batches')
    (hdistinct : ∀ b ∈ batches, ∀ b' ∈ batches, b ≠ b' →
      ∀ e ∈ b, ∀ e' ∈ b', A.seen e.2 ≠ A.seen e'.2)
    {k : κ} {x x' : ρ} (hx : x ∈ (rowsFor k batches.flatten).getLast?)
    (hx' : x' ∈ (rowsFor k batches'.flatten).getLast?) (h : A.seen x = A.seen x') : x = x' := by
  obtain ⟨b, hb, hxb⟩ := exists_batch_of_getLast? hx
  obtain ⟨b', hb', hxb'⟩ := exists_batch_of_getLast? hx'
  have hmem := mem_rowsFor.mp (List.mem_of_getLast? hxb)
  have hmem' := mem_rowsFor.mp (List.mem_of_getLast? hxb')
  obtain rfl : b = b' := by
    by_contra hne
    exact hdistinct b hb b' (hperm.mem_iff.mpr hb') hne _ hmem _ hmem' h
  exact Option.some.inj (hxb.symm.trans hxb')

end Accumulator

/-! ### Tables that refuse rows -/

namespace SortedMap

variable {κ ρ : Type} [LinearOrder κ]

/-- Upsert a sequence of rows, and stop where the row that would be stored is not `ok`. -/
def tryUpsertAll (ok : ρ → Bool) (merge : ρ → ρ → ρ) :
    SortedMap κ ρ → List (κ × ρ) → Option (SortedMap κ ρ)
  | m, [] => some m
  | m, (k, x) :: rows =>
    if (mergeInto merge (m.get? k) x).all ok then tryUpsertAll ok merge (m.upsert merge k x) rows
    else none

/-- **When no row is refused.** If a merge can only lose `ok`, a sequence goes through exactly
when the rows that it leaves under its keys are `ok`, and then it leaves what it would leave
without the check. -/
theorem tryUpsertAll_eq_some {ok : ρ → Bool} {merge : ρ → ρ → ρ}
    (hmono : ∀ a b, ok (merge a b) = true → ok a = true) {rows : List (κ × ρ)}
    {m m' : SortedMap κ ρ} : tryUpsertAll ok merge m rows = some m' ↔
      m' = m.upsertAll merge rows ∧
        ∀ e ∈ rows, ((m.upsertAll merge rows).get? e.1).all ok = true := by
  -- what is `ok` at the end was `ok` before
  have hback : ∀ (l : List ρ) (o : Option ρ),
      ((l.foldl (mergeInto merge) o).all ok) = true → o.all ok = true := by
    intro l
    induction l with
    | nil => exact fun o h => h
    | cons x l ih =>
      intro o h
      cases o with
      | none => rfl
      | some a => exact hmono a x (ih (some (merge a x)) h)
  induction rows generalizing m with
  | nil =>
    rw [tryUpsertAll, Option.some.injEq]
    exact ⟨fun h => ⟨h.symm, fun e he => absurd he List.not_mem_nil⟩, fun h => h.1.symm⟩
  | cons e rows ih =>
    obtain ⟨k, x⟩ := e
    have hall : m.upsertAll merge ((k, x) :: rows) =
        (m.upsert merge k x).upsertAll merge rows := rfl
    have hfirst : ((m.upsert merge k x).upsertAll merge rows).get? k =
        (rowsFor k rows).foldl (mergeInto merge) (mergeInto merge (m.get? k) x) := by
      rw [get?_upsertAll, get?_upsert, if_pos rfl]
    rw [tryUpsertAll, hall]
    constructor
    · intro h
      split_ifs at h with hok
      obtain ⟨rfl, hrest⟩ := ih.mp h
      refine ⟨rfl, List.forall_mem_cons.mpr ⟨?_, hrest⟩⟩
      by_cases hk : ∃ e ∈ rows, e.1 = k
      · obtain ⟨e, he, rfl⟩ := hk
        exact hrest e he
      · have hnil : rowsFor k rows = [] := by
          rw [List.eq_nil_iff_forall_not_mem]
          exact fun y hy => hk ⟨(k, y), mem_rowsFor.mp hy, rfl⟩
        rw [hfirst, hnil]
        exact hok
    · rintro ⟨rfl, h⟩
      obtain ⟨hk, hrest⟩ := List.forall_mem_cons.mp h
      rw [if_pos (hback _ _ (hfirst ▸ hk))]
      exact ih.mpr ⟨rfl, hrest⟩

theorem tryUpsertAll_append (ok : ρ → Bool) (merge : ρ → ρ → ρ) (m : SortedMap κ ρ)
    (rows rows' : List (κ × ρ)) : tryUpsertAll ok merge m (rows ++ rows') =
      (tryUpsertAll ok merge m rows).bind fun m => tryUpsertAll ok merge m rows' := by
  induction rows generalizing m with
  | nil => rfl
  | cons e rows ih =>
    rw [List.cons_append, tryUpsertAll, tryUpsertAll]
    split_ifs
    · exact ih _
    · rfl

end SortedMap

end Foundations
