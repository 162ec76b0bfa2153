import Mathlib.Data.List.Basic
import Mathlib.Data.List.Induction
import Mathlib.Order.Lattice
import Mathlib.Tactic.SplitIfs

/-!
# Finite maps as sorted lists of entries

`SortedMap κ α` is a finite map from a linearly ordered type: its entries in the strict order
of their keys, so that equal maps are equal lists and a map can be evaluated. It serves twice:
as a map value of a program, and as a table with a primary key, where `upsert merge` is
"insert, and on conflict merge the stored row with the new one".

The lemmas describe every operation by the lookups it changes (`get?_insert`, `get?_upsert`,
`get?_filter`); `ext` reduces an equality of maps to lookups, and `get?_upsertAll` says what a
whole sequence of upserts leaves under one key: the left fold of the rows sent to that key.
-/

namespace Foundations

/-- A finite map: entries in the strict order of their keys. -/
structure SortedMap (κ : Type) [LinearOrder κ] (α : Type) where
  entries : List (κ × α)
  sorted : entries.Pairwise fun a b => a.1 < b.1
  deriving DecidableEq

namespace SortedMap

variable {κ α β : Type} [LinearOrder κ]

/-! ### Entry lists -/

/-- The value under a key. -/
def lookup (k : κ) : List (κ × α) → Option α
  | [] => none
  | e :: l => if e.1 = k then some e.2 else lookup k l

/-- Put a value under a key, at its place in the order. -/
def insertEntry (k : κ) (x : α) : List (κ × α) → List (κ × α)
  | [] => [(k, x)]
  | e :: l =>
    if k < e.1 then (k, x) :: e :: l
    else if k = e.1 then (k, x) :: l
    else e :: insertEntry k x l

private theorem mem_insertEntry {k : κ} {x : α} {e : κ × α} {l : List (κ × α)}
    (h : e ∈ insertEntry k x l) : e = (k, x) ∨ e ∈ l := by
  induction l with
  | nil => exact .inl (List.mem_singleton.mp h)
  | cons d l ih =>
    rw [insertEntry] at h
    split_ifs at h with h₁ h₂
    · exact List.mem_cons.mp h
    · exact (List.mem_cons.mp h).imp_right (List.mem_cons_of_mem d)
    · rcases List.mem_cons.mp h with rfl | h
      · exact .inr List.mem_cons_self
      · exact (ih h).imp_right (List.mem_cons_of_mem d)

private theorem sorted_insertEntry {k : κ} {x : α} {l : List (κ × α)}
    (h : l.Pairwise fun a b => a.1 < b.1) :
    (insertEntry k x l).Pairwise fun a b => a.1 < b.1 := by
  induction l with
  | nil => exact List.pairwise_singleton _ _
  | cons d l ih =>
    obtain ⟨hd, hl⟩ := List.pairwise_cons.mp h
    rw [insertEntry]
    split_ifs with h₁ h₂
    · refine List.pairwise_cons.mpr ⟨fun e he => ?_, h⟩
      rcases List.mem_cons.mp he with rfl | he
      · exact h₁
      · exact h₁.trans (hd e he)
    · exact List.pairwise_cons.mpr ⟨fun e he => h₂ ▸ hd e he, hl⟩
    · refine List.pairwise_cons.mpr ⟨fun e he => ?_, ih hl⟩
      rcases mem_insertEntry he with rfl | he
      · exact lt_of_le_of_ne (not_lt.mp h₁) (Ne.symm h₂)
      · exact hd e he

private theorem lookup_insertEntry {k k' : κ} {x : α} {l : List (κ × α)} :
    lookup k' (insertEntry k x l) = if k = k' then some x else lookup k' l := by
  induction l with
  | nil => rfl
  | cons d l ih =>
    rw [insertEntry]
    split_ifs with h₁ h₂ h₃ h₄
    · rw [lookup, if_pos h₂]
    · rw [lookup, if_neg h₂]
    · rw [lookup, if_pos h₄]
    · rw [lookup, if_neg h₄, lookup, if_neg (h₃ ▸ h₄)]
    · rename_i hk
      rw [lookup, if_neg (fun h => h₃ (hk.trans h.symm)), ih, if_pos hk]
    · rename_i hk
      rw [lookup, ih, if_neg hk, lookup]

private theorem lookup_eq_none {k : κ} {l : List (κ × α)} (h : ∀ e ∈ l, e.1 ≠ k) :
    lookup k l = none := by
  induction l with
  | nil => rfl
  | cons d l ih =>
    rw [lookup, if_neg (h d List.mem_cons_self)]
    exact ih fun e he => h e (List.mem_cons_of_mem d he)

private theorem mem_of_lookup {k : κ} {x : α} {l : List (κ × α)} (h : lookup k l = some x) :
    (k, x) ∈ l := by
  induction l with
  | nil => cases h
  | cons d l ih =>
    rw [lookup] at h
    split_ifs at h with hk
    · obtain rfl : d.2 = x := Option.some.inj h
      exact hk ▸ List.mem_cons_self
    · exact List.mem_cons_of_mem d (ih h)

private theorem lookup_of_mem {k : κ} {x : α} {l : List (κ × α)}
    (hl : l.Pairwise fun a b => a.1 < b.1) (h : (k, x) ∈ l) : lookup k l = some x := by
  induction l with
  | nil => cases h
  | cons d l ih =>
    obtain ⟨hd, hl⟩ := List.pairwise_cons.mp hl
    rcases List.mem_cons.mp h with rfl | h
    · rw [lookup, if_pos rfl]
    · rw [lookup, if_neg (hd _ h).ne]
      exact ih hl h

private theorem eq_of_lookup {l l' : List (κ × α)} (hl : l.Pairwise fun a b => a.1 < b.1)
    (hl' : l'.Pairwise fun a b => a.1 < b.1) (h : ∀ k, lookup k l = lookup k l') : l = l' := by
  have hmem : ∀ e, e ∈ l ↔ e ∈ l' := fun e =>
    ⟨fun he => mem_of_lookup ((h e.1) ▸ lookup_of_mem hl he),
      fun he => mem_of_lookup ((h e.1).symm ▸ lookup_of_mem hl' he)⟩
  have nodup : ∀ {l : List (κ × α)}, (l.Pairwise fun a b => a.1 < b.1) → l.Nodup :=
    fun hl => hl.imp fun hab heq => (heq ▸ hab).false
  exact (List.perm_ext_iff_of_nodup (nodup hl) (nodup hl')).mpr hmem |>.eq_of_pairwise
    (fun a b _ _ hab hba => absurd hba (lt_asymm hab)) hl hl'

/-! ### Operations -/

/-- The value under a key, if there is one. -/
def get? (m : SortedMap κ α) (k : κ) : Option α := lookup k m.entries

/-- The map without entries. -/
def empty : SortedMap κ α := ⟨[], List.Pairwise.nil⟩

instance : EmptyCollection (SortedMap κ α) := ⟨empty⟩

/-- Put a value under a key. -/
def insert (m : SortedMap κ α) (k : κ) (x : α) : SortedMap κ α :=
  ⟨insertEntry k x m.entries, sorted_insertEntry m.sorted⟩

/-- Put a row under a key; a row that is there is merged with the new one. -/
def upsert (merge : α → α → α) (m : SortedMap κ α) (k : κ) (x : α) : SortedMap κ α :=
  match m.get? k with
  | none => m.insert k x
  | some old => m.insert k (merge old x)

/-- Upsert a sequence of rows. -/
def upsertAll (merge : α → α → α) (m : SortedMap κ α) (rows : List (κ × α)) : SortedMap κ α :=
  rows.foldl (fun m e => m.upsert merge e.1 e.2) m

/-- Keep the entries that satisfy `p`. -/
def filter (m : SortedMap κ α) (p : κ → α → Bool) : SortedMap κ α :=
  ⟨m.entries.filter fun e => p e.1 e.2, m.sorted.filter _⟩

/-- Remove the entry of a key. -/
def erase (m : SortedMap κ α) (k : κ) : SortedMap κ α := m.filter fun k' _ => k' ≠ k

/-- The keys, in their order. -/
def keys (m : SortedMap κ α) : List κ := m.entries.map Prod.fst

/-- The map of a list of entries; a later entry of a key replaces an earlier one. -/
def ofList (l : List (κ × α)) : SortedMap κ α :=
  l.foldl (fun m e => m.insert e.1 e.2) ∅

/-- The values, in the order of their keys. -/
def values (m : SortedMap κ α) : List α := m.entries.map Prod.snd

/-! ### Lookups -/

/-- Maps with the same lookups are equal. -/
@[ext] theorem ext {m m' : SortedMap κ α} (h : ∀ k, m.get? k = m'.get? k) : m = m' := by
  obtain ⟨l, hl⟩ := m
  obtain ⟨l', hl'⟩ := m'
  obtain rfl : l = l' := eq_of_lookup hl hl' h
  rfl

@[simp] theorem get?_empty (k : κ) : (∅ : SortedMap κ α).get? k = none := rfl

theorem mem_entries {m : SortedMap κ α} {k : κ} {x : α} :
    (k, x) ∈ m.entries ↔ m.get? k = some x :=
  ⟨lookup_of_mem m.sorted, mem_of_lookup⟩

theorem mem_values {m : SortedMap κ α} {x : α} : x ∈ m.values ↔ ∃ k, m.get? k = some x := by
  rw [values, List.mem_map]
  constructor
  · rintro ⟨⟨k, y⟩, he, rfl⟩
    exact ⟨k, mem_entries.mp he⟩
  · rintro ⟨k, h⟩
    exact ⟨(k, x), mem_entries.mpr h, rfl⟩

theorem get?_insert (m : SortedMap κ α) (k k' : κ) (x : α) :
    (m.insert k x).get? k' = if k = k' then some x else m.get? k' :=
  lookup_insertEntry

@[simp] theorem get?_insert_self (m : SortedMap κ α) (k : κ) (x : α) :
    (m.insert k x).get? k = some x := by
  rw [get?_insert, if_pos rfl]

theorem get?_insert_of_ne {m : SortedMap κ α} {k k' : κ} {x : α} (h : k ≠ k') :
    (m.insert k x).get? k' = m.get? k' := by
  rw [get?_insert, if_neg h]

theorem get?_filter (m : SortedMap κ α) (p : κ → α → Bool) (k : κ) :
    (m.filter p).get? k = (m.get? k).filter (p k) := by
  cases h : m.get? k with
  | none =>
    refine lookup_eq_none fun e he heq => ?_
    have hm : (k, e.2) ∈ m.entries := heq ▸ (List.mem_filter.mp he).1
    rw [mem_entries.mp hm] at h
    cases h
  | some x =>
    rw [Option.filter_some]
    split_ifs with hp
    · exact lookup_of_mem (m.filter p).sorted (List.mem_filter.mpr ⟨mem_entries.mpr h, hp⟩)
    · refine lookup_eq_none fun e he heq => ?_
      obtain ⟨hm, hpe⟩ := List.mem_filter.mp he
      have hm : (k, e.2) ∈ m.entries := heq ▸ hm
      obtain rfl : e.2 = x := Option.some.inj ((mem_entries.mp hm).symm.trans h)
      exact hp (heq ▸ hpe)

theorem get?_erase (m : SortedMap κ α) (k k' : κ) :
    (m.erase k).get? k' = if k' = k then none else m.get? k' := by
  rw [erase, get?_filter]
  split_ifs with h
  · cases m.get? k' <;> simp [h]
  · cases m.get? k' <;> simp [h]

/-- Change every value. -/
def map (m : SortedMap κ α) (f : α → β) : SortedMap κ β :=
  ⟨m.entries.map fun e => (e.1, f e.2), List.pairwise_map.mpr m.sorted⟩

theorem get?_map (m : SortedMap κ α) (f : α → β) (k : κ) : (m.map f).get? k = (m.get? k).map f := by
  rcases h : m.get? k with - | x
  · refine lookup_eq_none fun e he heq => ?_
    obtain ⟨e', he', rfl⟩ := List.mem_map.mp he
    have hm : (k, e'.2) ∈ m.entries := heq ▸ he'
    rw [mem_entries.mp hm] at h
    exact nomatch h
  · exact mem_entries.mp (List.mem_map.mpr ⟨(k, x), mem_entries.mpr h, rfl⟩)

/-! ### Keys -/

theorem mem_keys {m : SortedMap κ α} {k : κ} : k ∈ m.keys ↔ ∃ x, m.get? k = some x := by
  rw [keys, List.mem_map]
  constructor
  · rintro ⟨⟨k, x⟩, he, rfl⟩
    exact ⟨x, mem_entries.mp he⟩
  · rintro ⟨x, h⟩
    exact ⟨(k, x), mem_entries.mpr h, rfl⟩

theorem sorted_keys (m : SortedMap κ α) : m.keys.Pairwise (· < ·) :=
  List.pairwise_map.mpr m.sorted

/-- The last key is the largest. -/
theorem le_getLast_of_mem_keys {m : SortedMap κ α} {k last : κ} (hk : k ∈ m.keys)
    (hlast : m.keys.getLast? = some last) : k ≤ last := by
  obtain ⟨ks, hks⟩ := List.getLast?_eq_some_iff.mp hlast
  have hsorted := hks ▸ m.sorted_keys
  rw [hks] at hk
  rcases List.mem_append.mp hk with hmem | hmem
  · exact (List.pairwise_append.mp hsorted).2.2 k hmem last List.mem_cons_self |>.le
  · rw [List.mem_singleton.mp hmem]

/-! ### The two ends and parts of a map -/

/-- What is put under a key after all others comes last. -/
theorem entries_insert_of_lt {m : SortedMap κ α} {k : κ} (h : ∀ k' ∈ m.keys, k' < k) (x : α) :
    (m.insert k x).entries = m.entries ++ [(k, x)] := by
  obtain ⟨l, hl⟩ := m
  change insertEntry k x l = l ++ [(k, x)]
  change ∀ k' ∈ l.map Prod.fst, k' < k at h
  clear hl
  induction l with
  | nil => rfl
  | cons e l ih =>
    obtain ⟨he, hl⟩ := List.forall_mem_cons.mp (List.map_cons ▸ h)
    rw [insertEntry, if_neg (lt_asymm he), if_neg he.ne', ih hl, List.cons_append]

/-- A key is put at its place, where at most its old entry goes. -/
theorem exists_entries_insert (m : SortedMap κ α) (k : κ) (x : α) :
    ∃ before gone after, m.entries = before ++ gone ++ after ∧ gone.length ≤ 1 ∧
      (m.insert k x).entries = before ++ (k, x) :: after := by
  change ∃ before gone after, m.entries = before ++ gone ++ after ∧ gone.length ≤ 1 ∧
    insertEntry k x m.entries = before ++ (k, x) :: after
  induction m.entries with
  | nil => exact ⟨[], [], [], rfl, Nat.zero_le 1, rfl⟩
  | cons e l ih =>
    rw [insertEntry]
    split_ifs with h₁ h₂
    · exact ⟨[], [], e :: l, rfl, Nat.zero_le 1, rfl⟩
    · exact ⟨[], [e], l, rfl, le_rfl, rfl⟩
    · obtain ⟨before, gone, after, hl, hgone, hinsert⟩ := ih
      refine ⟨e :: before, gone, after, ?_, hgone, ?_⟩
      · rw [hl, List.cons_append, List.cons_append]
      · rw [hinsert, List.cons_append]

/-- A map with a new entry has it in the place of the old one. -/
theorem perm_entries_insert (m : SortedMap κ α) (k : κ) (x : α) :
    ((m.get? k).toList.map (Prod.mk k) ++ (m.insert k x).entries).Perm ((k, x) :: m.entries) := by
  obtain ⟨l, hl⟩ := m
  change ((lookup k l).toList.map (Prod.mk k) ++ insertEntry k x l).Perm ((k, x) :: l)
  induction l with
  | nil => exact List.Perm.refl _
  | cons e l ih =>
    obtain ⟨he, hl⟩ := List.pairwise_cons.mp hl
    rw [lookup, insertEntry]
    rcases lt_trichotomy k e.1 with hlt | rfl | hlt
    · have hnone : lookup k l = none :=
        lookup_eq_none fun d hd heq => (hlt.trans (he d hd)).ne heq.symm
      rw [if_neg hlt.ne', if_pos hlt, hnone]
      exact List.Perm.refl _
    · rw [if_pos rfl, if_neg (lt_irrefl _), if_pos rfl]
      exact List.Perm.swap _ _ _
    · rw [if_neg hlt.ne, if_neg (lt_asymm hlt), if_neg hlt.ne']
      exact List.perm_middle.trans (((ih hl).cons e).trans (List.Perm.swap _ _ _))

/-- A group that is extended adds what it is extended by. -/
theorem flatMap_values_insert {m : SortedMap κ α} {k : κ} {x : α} {f : α → List β} {l : List β}
    (h : f x = ((m.get? k).toList.flatMap f) ++ l) :
    ((m.insert k x).values.flatMap f).Perm (m.values.flatMap f ++ l) := by
  have hperm := ((m.perm_entries_insert k x).map Prod.snd).flatMap_right f
  rw [List.map_append, List.map_map, List.map_cons, List.flatMap_append, List.flatMap_cons, h,
    List.append_assoc, Function.comp_def, List.map_id'] at hperm
  exact ((List.perm_append_left_iff _).mp hperm).trans List.perm_append_comm

/-- Without its first key a map has the other entries. -/
theorem entries_erase_head {m : SortedMap κ α} {k : κ} {x : α} {l : List (κ × α)}
    (h : m.entries = (k, x) :: l) : (m.erase k).entries = l := by
  have hsorted := List.pairwise_cons.mp (h ▸ m.sorted)
  change m.entries.filter (fun e => decide (e.1 ≠ k)) = l
  rw [h, List.filter_cons_of_neg (by simp)]
  exact List.filter_eq_self.mpr fun e he => decide_eq_true (hsorted.1 e he).ne'

/-- Without its first key a map has the other keys. -/
theorem keys_erase_head {m : SortedMap κ α} {k : κ} {ks : List κ} (h : m.keys = k :: ks) :
    (m.erase k).keys = ks := by
  obtain ⟨e, l, hl, rfl, rfl⟩ := List.map_eq_cons_iff.mp h
  rw [keys, entries_erase_head (x := e.2) hl]

/-- Removing a key that is not there changes nothing. -/
theorem erase_of_get?_eq_none {m : SortedMap κ α} {k : κ} (h : m.get? k = none) :
    m.erase k = m := by
  refine ext fun k' => ?_
  rw [get?_erase]
  split_ifs with hk
  · rw [hk, h]
  · rfl

section Part

variable {p : κ → Bool}

theorem get?_part (m : SortedMap κ α) (k : κ) :
    (m.filter fun k _ => p k).get? k = if p k then m.get? k else none := by
  rw [get?_filter]
  cases m.get? k <;> simp [Option.filter]

/-- The part of the keys with a property changes only where such a key changes. -/
theorem filter_insert_of_pos (m : SortedMap κ α) {k : κ} (hk : p k = true) (x : α) :
    (m.insert k x).filter (fun k _ => p k) = (m.filter fun k _ => p k).insert k x := by
  refine ext fun k' => ?_
  rw [get?_part, get?_insert, get?_insert, get?_part]
  by_cases h : k = k'
  · rw [if_pos h, if_pos h, if_pos (h ▸ hk)]
  · rw [if_neg h, if_neg h]

theorem filter_insert_of_neg (m : SortedMap κ α) {k : κ} (hk : p k = false) (x : α) :
    (m.insert k x).filter (fun k _ => p k) = m.filter fun k _ => p k := by
  refine ext fun k' => ?_
  rw [get?_part, get?_insert, get?_part]
  by_cases h : k = k'
  · rw [← h, hk, if_neg Bool.false_ne_true, if_neg Bool.false_ne_true]
  · rw [if_neg h]

theorem filter_erase (m : SortedMap κ α) (k : κ) :
    (m.erase k).filter (fun k _ => p k) = (m.filter fun k _ => p k).erase k := by
  refine ext fun k' => ?_
  rw [get?_part, get?_erase, get?_erase, get?_part]
  by_cases h : k' = k
  · rw [if_pos h, if_pos h, ite_self]
  · rw [if_neg h, if_neg h]

end Part

/-! ### Upserts -/

/-- What a row does to the value under its key. -/
def mergeInto (merge : α → α → α) : Option α → α → Option α
  | none, x => some x
  | some old, x => some (merge old x)

theorem get?_upsert (merge : α → α → α) (m : SortedMap κ α) (k k' : κ) (x : α) :
    (m.upsert merge k x).get? k' = if k = k' then mergeInto merge (m.get? k') x else m.get? k' := by
  rw [upsert]
  split <;> rename_i h <;> rw [get?_insert] <;> split_ifs with hk
  · rw [← hk, h, mergeInto]
  · rfl
  · rw [← hk, h, mergeInto]
  · rfl

/-- The rows of a sequence that go to one key. -/
def rowsFor (k : κ) (rows : List (κ × α)) : List α :=
  (rows.filter fun e => e.1 = k).map Prod.snd

@[simp] theorem rowsFor_nil (k : κ) : rowsFor k ([] : List (κ × α)) = [] := rfl

theorem rowsFor_cons (k : κ) (e : κ × α) (rows : List (κ × α)) :
    rowsFor k (e :: rows) = if e.1 = k then e.2 :: rowsFor k rows else rowsFor k rows := by
  rw [rowsFor, List.filter_cons]
  simp only [decide_eq_true_eq]
  split_ifs <;> rfl

theorem rowsFor_append (k : κ) (rows rows' : List (κ × α)) :
    rowsFor k (rows ++ rows') = rowsFor k rows ++ rowsFor k rows' := by
  rw [rowsFor, List.filter_append, List.map_append, rowsFor, rowsFor]

theorem mem_rowsFor {k : κ} {x : α} {rows : List (κ × α)} :
    x ∈ rowsFor k rows ↔ (k, x) ∈ rows := by
  induction rows with
  | nil => simp
  | cons e rows ih =>
    rw [rowsFor_cons, List.mem_cons, Prod.ext_iff]
    split_ifs with h
    · rw [List.mem_cons, ih]
      simp [h]
    · rw [ih]
      simp [Ne.symm h]

theorem rowsFor_perm {rows rows' : List (κ × α)} (h : rows.Perm rows') (k : κ) :
    (rowsFor k rows).Perm (rowsFor k rows') := (h.filter _).map _

/-- **A sequence of upserts, key by key.** Under each key lies the fold of the rows that went
to it; the rows of other keys and their places in the sequence do not matter. -/
theorem get?_upsertAll (merge : α → α → α) (m : SortedMap κ α) (rows : List (κ × α)) (k : κ) :
    (m.upsertAll merge rows).get? k = (rowsFor k rows).foldl (mergeInto merge) (m.get? k) := by
  induction rows generalizing m with
  | nil => rfl
  | cons e rows ih =>
    rw [upsertAll, List.foldl_cons, ← upsertAll, ih, get?_upsert, rowsFor_cons]
    split_ifs with h <;> rfl

theorem upsertAll_append (merge : α → α → α) (m : SortedMap κ α) (rows rows' : List (κ × α)) :
    m.upsertAll merge (rows ++ rows') = (m.upsertAll merge rows).upsertAll merge rows' :=
  List.foldl_append

/-- Upserting the entries of a map sends one row to each of its keys. -/
theorem rowsFor_entries (m : SortedMap κ α) (f : α → β) (k : κ) :
    rowsFor k (m.entries.map fun e => (e.1, f e.2)) = ((m.get? k).map f).toList := by
  suffices ∀ l : List (κ × α), (l.Pairwise fun a b => a.1 < b.1) →
      rowsFor k (l.map fun e => (e.1, f e.2)) = ((lookup k l).map f).toList from
    this _ m.sorted
  intro l hl
  induction l with
  | nil => rfl
  | cons e l ih =>
    obtain ⟨he, hl⟩ := List.pairwise_cons.mp hl
    rw [List.map_cons, rowsFor_cons, lookup, ih hl]
    split_ifs with h
    · rw [lookup_eq_none fun d hd heq => (he d hd).ne (h.trans heq.symm)]
      rfl
    · rfl

/-- A merge that keeps one of its rows keeps a row of the sequence. -/
theorem mem_of_foldl_mergeInto {merge : α → α → α} (h : ∀ a b, merge a b = a ∨ merge a b = b)
    {o : Option α} {l : List α} {x : α} (hx : l.foldl (mergeInto merge) o = some x) :
    x ∈ o.toList ++ l := by
  induction l generalizing o with
  | nil =>
    rw [List.foldl_nil] at hx
    simp [hx]
  | cons y l ih =>
    have ih := ih hx
    cases o with
    | none => simpa [mergeInto] using ih
    | some old =>
      simp only [mergeInto, Option.toList_some, List.singleton_append, List.mem_cons] at ih ⊢
      rcases ih with rfl | ih
      · rcases h old y with hm | hm
        · exact .inl hm
        · exact .inr (.inl hm)
      · exact .inr (.inr ih)

/-- A sequence of upserts of at least one row leaves a row. -/
theorem foldl_mergeInto_eq_none {merge : α → α → α} {o : Option α} {l : List α} :
    l.foldl (mergeInto merge) o = none ↔ o = none ∧ l = [] := by
  induction l generalizing o with
  | nil => simp
  | cons y l ih => cases o <;> simp [ih, mergeInto]

/-- **The newest row stays.** When, among the rows at hand, the merge keeps a row of the higher
rank, the row that a sequence leaves has the highest rank of all. -/
theorem newest_of_foldl_mergeInto {γ : Type} [LinearOrder γ] (rank : α → γ)
    {merge : α → α → α} {S : α → Prop}
    (h : ∀ a b, S a → S b →
      (merge a b = b ∧ rank a ≤ rank b) ∨ (merge a b = a ∧ rank b ≤ rank a))
    {o : Option α} {l : List α} (hS : ∀ y ∈ o.toList ++ l, S y) {x : α}
    (hx : l.foldl (mergeInto merge) o = some x) : ∀ y ∈ o.toList ++ l, rank y ≤ rank x := by
  induction l generalizing o with
  | nil =>
    rw [List.foldl_nil] at hx
    simp [hx]
  | cons y l ih =>
    cases o with
    | none => exact ih (o := some y) hS hx
    | some old =>
      simp only [Option.toList_some, List.singleton_append, List.mem_cons, forall_eq_or_imp]
        at hS ⊢
      obtain ⟨hold, hy, hl⟩ := hS
      -- the merged row is one of the two, and at least as new as both
      have hmerged : S (merge old y) ∧ rank old ≤ rank (merge old y) ∧
          rank y ≤ rank (merge old y) := by
        rcases h old y hold hy with ⟨heq, hle⟩ | ⟨heq, hle⟩ <;> rw [heq]
        · exact ⟨hy, hle, le_rfl⟩
        · exact ⟨hold, le_rfl, hle⟩
      have ih := ih (o := some (merge old y)) (by simpa using ⟨hmerged.1, hl⟩) hx
      simp only [Option.toList_some, List.singleton_append, List.mem_cons, forall_eq_or_imp] at ih
      exact ⟨hmerged.2.1.trans ih.1, hmerged.2.2.trans ih.1, ih.2⟩

/-- A merge that keeps one of two rows by a total rank does not care how its rows are grouped. -/
theorem merge_assoc_of_rank {γ : Type} [LinearOrder γ] (rank : α → γ) {merge : α → α → α}
    (h : ∀ a b, merge a b = if rank a ≤ rank b then b else a) (a b c : α) :
    merge (merge a b) c = merge a (merge b c) := by
  simp only [h]
  by_cases hab : rank a ≤ rank b
  · by_cases hbc : rank b ≤ rank c
    · rw [if_pos hab, if_pos hbc, if_pos (hab.trans hbc)]
    · rw [if_pos hab, if_neg hbc, if_pos hab]
  · by_cases hbc : rank b ≤ rank c
    · rw [if_neg hab, if_pos hbc]
    · have hac : ¬ rank a ≤ rank c := fun hac => hbc ((lt_of_not_ge hab).le.trans hac)
      rw [if_neg hab, if_neg hac, if_neg hbc, if_neg hab]

/-- **Folding ahead.** When the merge is associative, the rows of a sequence may be folded among
themselves first: the one row that is left does what they do one by one. -/
theorem foldl_mergeInto_toList {merge : α → α → α}
    (hassoc : ∀ a b c, merge (merge a b) c = merge a (merge b c)) (o : Option α) (l : List α) :
    (l.foldl (mergeInto merge) none).toList.foldl (mergeInto merge) o =
      l.foldl (mergeInto merge) o := by
  -- a row that went ahead stays in front of the rows that follow it
  have hahead : ∀ (l : List α) (x : α),
      ((l.foldl (mergeInto merge) (some x)).toList).foldl (mergeInto merge) o =
        l.foldl (mergeInto merge) (mergeInto merge o x) := by
    intro l
    induction l with
    | nil => exact fun x => rfl
    | cons y l ih =>
      intro x
      have hstep : mergeInto merge o (merge x y) =
          mergeInto merge (mergeInto merge o x) y := by
        cases o with
        | none => rfl
        | some old => exact congrArg some (hassoc old x y).symm
      rw [List.foldl_cons, List.foldl_cons, ← hstep]
      exact ih (merge x y)
  cases l with
  | nil => rfl
  | cons x l => exact hahead l x

/-- A map of rows that commutes with the merges, on the rows at hand, commutes with the fold. -/
theorem map_foldl_mergeInto {merge : α → α → α} {merge' : β → β → β} {f : α → β} {S : α → Prop}
    (hS : ∀ a b, S a → S b → S (merge a b))
    (hf : ∀ a b, S a → S b → f (merge a b) = merge' (f a) (f b)) {o : Option α} {l : List α}
    (hl : ∀ y ∈ o.toList ++ l, S y) :
    (l.foldl (mergeInto merge) o).map f = (l.map f).foldl (mergeInto merge') (o.map f) := by
  induction l generalizing o with
  | nil => rfl
  | cons y l ih =>
    cases o with
    | none => exact ih (o := some y) hl
    | some old =>
      simp only [Option.toList_some, List.singleton_append, List.mem_cons, forall_eq_or_imp] at hl
      obtain ⟨hold, hy, hl⟩ := hl
      have hmerged : (l.foldl (mergeInto merge) (some (merge old y))).map f =
          (l.map f).foldl (mergeInto merge') (some (f (merge old y))) :=
        ih (by simpa using ⟨hS old y hold hy, hl⟩)
      rw [List.foldl_cons, List.map_cons, List.foldl_cons]
      simpa only [mergeInto, hf old y hold hy, Option.map_some] using hmerged

/-- Change the entry of a key, if there is a key. -/
def changeAt (m : SortedMap κ α) (k : Option κ) (f : Option α → α) : SortedMap κ α :=
  match k with
  | none => m
  | some k => m.insert k (f (m.get? k))

theorem get?_changeAt (m : SortedMap κ α) (k : Option κ) (f : Option α → α) (k' : κ) :
    (m.changeAt k f).get? k' = if k = some k' then some (f (m.get? k')) else m.get? k' := by
  cases k with
  | none => rw [changeAt, if_neg (by simp)]
  | some k =>
    rw [changeAt, get?_insert]
    by_cases h : k = k'
    · rw [if_pos h, if_pos (congrArg some h), h]
    · rw [if_neg h, if_neg fun heq => h (Option.some.inj heq)]

/-- **Rows that change at most one entry each.** Under a key lies the fold of the rows for it. -/
theorem get?_foldl_changeAt {ρ : Type} {key : ρ → Option κ} {f : ρ → Option α → α} (k : κ)
    (rows : List ρ) (m : SortedMap κ α) :
    (rows.foldl (fun m r => m.changeAt (key r) (f r)) m).get? k =
      (rows.filter fun r => key r = some k).foldl (fun o r => some (f r o)) (m.get? k) := by
  induction rows generalizing m with
  | nil => rfl
  | cons r rows ih =>
    rw [List.foldl_cons, ih, get?_changeAt, List.filter_cons]
    by_cases h : key r = some k
    · rw [if_pos h, if_pos (decide_eq_true h), List.foldl_cons]
    · rw [if_neg h, if_neg (by simpa using h)]

/-- A fold whose steps change one entry each is, entry by entry, a fold over the steps for it. -/
theorem get?_foldl_keyed {ρ : Type} {step : SortedMap κ α → ρ → SortedMap κ α} {key : ρ → κ}
    {f : Option α → ρ → Option α} (hself : ∀ m r, (step m r).get? (key r) = f (m.get? (key r)) r)
    (hother : ∀ m r k, key r ≠ k → (step m r).get? k = m.get? k) {k : κ} {p : ρ → Bool}
    (hp : ∀ r, p r = true ↔ key r = k) (rows : List ρ) (m : SortedMap κ α) :
    (rows.foldl step m).get? k = (rows.filter p).foldl f (m.get? k) := by
  induction rows generalizing m with
  | nil => rfl
  | cons r rows ih =>
    rw [List.foldl_cons, ih]
    by_cases hk : key r = k
    · rw [List.filter_cons_of_pos ((hp r).mpr hk), List.foldl_cons, ← hk, hself]
    · rw [List.filter_cons_of_neg (mt (hp r).mp hk), hother _ _ _ hk]

/-! ### Tallies -/

/-- How often each key occurs. -/
def tally (keys : List κ) : SortedMap κ ℕ :=
  keys.foldl (fun m k => m.insert k ((m.get? k).getD 0 + 1)) ∅

theorem tally_concat (keys : List κ) (d : κ) :
    tally (keys ++ [d]) = (tally keys).insert d (((tally keys).get? d).getD 0 + 1) := by
  rw [tally, List.foldl_append]
  rfl

/-- A tally has the keys that occur, with their counts. -/
theorem get?_tally (keys : List κ) (k : κ) :
    (tally keys).get? k = if keys.count k = 0 then none else some (keys.count k) := by
  induction keys using List.reverseRecOn with
  | nil => rfl
  | append_singleton keys d ih =>
    rw [tally_concat, get?_insert, List.count_append, List.count_singleton]
    by_cases hk : d = k
    · subst hk
      have hcount : (((tally keys).get? d).getD 0) = keys.count d := by
        rw [ih]
        split_ifs with hzero
        · exact hzero.symm
        · rfl
      rw [if_pos rfl, hcount, if_pos (beq_self_eq_true d), if_neg (Nat.succ_ne_zero _)]
    · have hne : ¬ (d == k) = true := by simpa using hk
      rw [if_neg hk, if_neg hne, Nat.add_zero, ih]

/-- Two lists have one tally if and only if one is the other in another order. -/
theorem tally_eq_iff {keys keys' : List κ} : tally keys = tally keys' ↔ keys.Perm keys' := by
  constructor
  · intro h
    refine List.perm_iff_count.mpr fun k => ?_
    have hk := congrArg (fun m => (m.get? k).getD 0) h
    simp only [get?_tally] at hk
    split_ifs at hk with h₁ h₂ h₂
    · rw [h₁, h₂]
    · exact h₁.trans hk
    · exact hk.trans h₂.symm
    · exact hk
  · intro h
    exact ext fun k => by rw [get?_tally, get?_tally, h.count_eq]

/-- A map is the list of its entries. -/
theorem ofList_entries (m : SortedMap κ α) : ofList m.entries = m := by
  suffices ∀ (l : List (κ × α)) (m₀ : SortedMap κ α), (l.Pairwise fun a b => a.1 < b.1) →
      ∀ k, (l.foldl (fun m e => m.insert e.1 e.2) m₀).get? k = (lookup k l).or (m₀.get? k) from
    ext fun k => by rw [ofList, this _ _ m.sorted, get?_empty, Option.or_none, get?]
  intro l
  induction l with
  | nil => exact fun _ _ _ => rfl
  | cons e l ih =>
    intro m₀ hl k
    obtain ⟨he, hl⟩ := List.pairwise_cons.mp hl
    rw [List.foldl_cons, ih _ hl, get?_insert, lookup]
    split_ifs with h
    · rw [lookup_eq_none fun d hd heq => (he d hd).ne (h.trans heq.symm), Option.none_or,
        Option.some_or]
    · rfl

end SortedMap

end Foundations
