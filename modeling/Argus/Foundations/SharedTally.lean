import Argus.Foundations.Counters

/-!
# A shared table of counters

Several processors count in one table at the same time. To count a key, a processor looks for the
cell of the key, and then adds one to it or, where there is none, inserts one that counts one.
Between the two steps the cell may be evicted, or another processor may insert one too. The table
keeps, beside the cells, what is lost in this way, so that nothing is lost without a name:
`sum_add`, `sum_insert` and `sum_evict` say what each step does to the counts and the losses.
-/

namespace Foundations

/-! ### Readings that grow -/

namespace Reading

variable {κ : Type} {r r' r'' : Reading κ}

theorem Grows.trans (h : Grows r r') (h' : Grows r' r'') : Grows r r'' := by
  intro e he
  obtain ⟨c, hle, hc⟩ := h e he
  obtain ⟨c', hle', hc'⟩ := h' _ hc
  exact ⟨c', hle.trans hle', hc'⟩

theorem Grows.rfl : Grows r r := fun e he => ⟨e.2, le_rfl, he⟩

variable [DecidableEq κ]

theorem Grows.total_le (h : Grows r r') (hr : r.keys.Nodup) (hr' : r'.keys.Nodup) :
    r.total ≤ r'.total := by
  rw [← sum_increments hr hr' h]
  exact Nat.le_add_left ..

/-- The entry of a key that counts something. -/
theorem mem_of_counter_ne_zero {k : κ} (h : r.counter k ≠ 0) : (k, r.counter k) ∈ r := by
  cases hlookup : r.lookup k with
  | none => exact absurd (by rw [counter, hlookup]; exact Option.getD_none) h
  | some c =>
    rw [counter, hlookup]
    obtain ⟨l₁, l₂, rfl, -⟩ := List.lookup_eq_some_iff.mp hlookup
    exact List.mem_append_right _ List.mem_cons_self

/-- With nothing but positive counters, a reading grows if no counter falls. -/
theorem grows_of_counter_le (hr : r.keys.Nodup) (hpos : ∀ e ∈ r, 0 < e.2)
    (h : ∀ k, r.counter k ≤ r'.counter k) : Grows r r' := by
  intro e he
  have hle := h e.1
  rw [counter_of_mem hr he] at hle
  exact ⟨_, hle, mem_of_counter_ne_zero ((hpos e he).trans_le hle).ne'⟩

end Reading

/-! ### The table -/

/-- The cell of a key. An id may be used again when its cell has gone. -/
structure Cell (κ : Type) where
  id : ℕ
  key : κ
  count : ℕ

/-- One more in a cell. -/
def Cell.addTo {κ : Type} (id : ℕ) (c : Cell κ) : Cell κ :=
  if c.id = id then { c with count := c.count + 1 } else c

/-- The cells, and the counts that were lost: in cells that were evicted, in cells that were
replaced, and by additions to a cell that had gone. -/
structure SharedTally (κ : Type) where
  cells : List (Cell κ)
  evicted : ℕ
  overwritten : ℕ
  missed : ℕ

namespace SharedTally

variable {κ : Type}

/-- No cells. -/
def empty : SharedTally κ := ⟨[], 0, 0, 0⟩

/-- The keys with their counters. -/
def reading (t : SharedTally κ) : Reading κ := t.cells.map fun c => (c.key, c.count)

/-- What is counted. -/
def total (t : SharedTally κ) : ℕ := t.reading.total

/-- What was lost. -/
def lost (t : SharedTally κ) : ℕ := t.evicted + t.overwritten + t.missed

/-- Add one to a cell, if it is still there. -/
def add (t : SharedTally κ) (id : ℕ) : SharedTally κ :=
  if id ∈ t.cells.map Cell.id then { t with cells := t.cells.map (Cell.addTo id) }
  else { t with missed := t.missed + 1 }

/-- Cells have ids and keys of their own, and count something. -/
structure WellFormed (t : SharedTally κ) : Prop where
  ids : (t.cells.map Cell.id).Nodup
  keys : t.reading.keys.Nodup
  positive : ∀ c ∈ t.cells, 0 < c.count

variable {t : SharedTally κ} {id : ℕ}

theorem wellFormed_empty : (empty : SharedTally κ).WellFormed :=
  ⟨List.nodup_nil, List.nodup_nil, fun _ h => absurd h List.not_mem_nil⟩

theorem keys_eq (t : SharedTally κ) : t.reading.keys = t.cells.map Cell.key :=
  List.map_map ..

theorem mem_reading {c : Cell κ} (h : c ∈ t.cells) : (c.key, c.count) ∈ t.reading :=
  List.mem_map_of_mem h

theorem total_eq (t : SharedTally κ) : t.total = (t.cells.map Cell.count).sum := by
  rw [total, Reading.total, reading, List.map_map]
  rfl

theorem map_id_addTo (id : ℕ) (l : List (Cell κ)) :
    (l.map (Cell.addTo id)).map Cell.id = l.map Cell.id := by
  rw [List.map_map]
  refine List.map_congr_left fun c _ => ?_
  rw [Function.comp_apply, Cell.addTo]
  split_ifs <;> rfl

theorem map_key_addTo (id : ℕ) (l : List (Cell κ)) :
    (l.map (Cell.addTo id)).map Cell.key = l.map Cell.key := by
  rw [List.map_map]
  refine List.map_congr_left fun c _ => ?_
  rw [Function.comp_apply, Cell.addTo]
  split_ifs <;> rfl

theorem keys_add (t : SharedTally κ) (id : ℕ) : (t.add id).reading.keys = t.reading.keys := by
  rw [add]
  split_ifs
  · rw [keys_eq, map_key_addTo, ← keys_eq]
  · rfl

theorem map_addTo_of_notMem {l : List (Cell κ)} (h : id ∉ l.map Cell.id) :
    l.map (Cell.addTo id) = l := by
  refine (List.map_congr_left fun c hc => ?_).trans (List.map_id' l)
  rw [Cell.addTo, if_neg]
  intro heq
  rw [← heq] at h
  exact h (List.mem_map_of_mem hc)

theorem WellFormed.add (h : t.WellFormed) (id : ℕ) : (t.add id).WellFormed := by
  rw [SharedTally.add]
  split_ifs
  · refine ⟨?_, ?_, fun c hc => ?_⟩
    · rw [map_id_addTo]
      exact h.ids
    · rw [keys_eq, map_key_addTo, ← keys_eq]
      exact h.keys
    · obtain ⟨c', hc', rfl⟩ := List.mem_map.mp hc
      rw [Cell.addTo]
      split_ifs
      · exact Nat.succ_pos _
      · exact h.positive c' hc'
  · exact ⟨h.ids, h.keys, h.positive⟩

theorem sum_map_addTo {l : List (Cell κ)} (hids : (l.map Cell.id).Nodup)
    (hid : id ∈ l.map Cell.id) :
    ((l.map (Cell.addTo id)).map Cell.count).sum = (l.map Cell.count).sum + 1 := by
  induction l with
  | nil => exact absurd hid List.not_mem_nil
  | cons c l ih =>
    obtain ⟨hnotin, hids⟩ := List.nodup_cons.mp hids
    simp only [List.map_cons, List.sum_cons]
    by_cases hc : c.id = id
    · rw [hc] at hnotin
      rw [map_addTo_of_notMem hnotin, Cell.addTo, if_pos hc, Nat.add_right_comm]
    · rw [ih hids ((List.mem_cons.mp hid).resolve_left (Ne.symm hc)), Cell.addTo, if_neg hc,
        Nat.add_assoc]

/-- **Additions.** One more is counted, or lost. -/
theorem sum_add (h : t.WellFormed) (id : ℕ) :
    (t.add id).total + (t.add id).lost = t.total + t.lost + 1 := by
  rw [add]
  split_ifs with hid
  · rw [total_eq, total_eq, sum_map_addTo h.ids hid]
    simp only [lost]
    omega
  · simp only [lost, total, reading]
    omega

variable [DecidableEq κ] {k k' : κ}

/-- The cell of a key. -/
def find? (t : SharedTally κ) (k : κ) : Option ℕ :=
  (t.cells.find? fun c => c.key = k).map Cell.id

/-- The cells of other keys. -/
def others (t : SharedTally κ) (k : κ) : List (Cell κ) := t.cells.filter fun c => c.key ≠ k

/-- Insert a cell that counts one, in the place of the one that the key may have. -/
def insert (t : SharedTally κ) (id : ℕ) (k : κ) : SharedTally κ :=
  { t with cells := ⟨id, k, 1⟩ :: t.others k, overwritten := t.overwritten + t.reading.counter k }

/-- The cell of a key goes. -/
def evict (t : SharedTally κ) (k : κ) : SharedTally κ :=
  { t with cells := t.others k, evicted := t.evicted + t.reading.counter k }

theorem WellFormed.counter (h : t.WellFormed) {c : Cell κ} (hc : c ∈ t.cells) :
    t.reading.counter c.key = c.count :=
  Reading.counter_of_mem h.keys (mem_reading hc)

/-- The cell that is found is one of the key. -/
theorem exists_of_find? (h : t.find? k = some id) : ∃ c ∈ t.cells, c.id = id ∧ c.key = k := by
  obtain ⟨c, hc, hid⟩ := Option.map_eq_some_iff.mp h
  have hkey := List.find?_some hc
  exact ⟨c, List.mem_of_find?_eq_some hc, hid, of_decide_eq_true hkey⟩

/-- A key with a cell counts something. -/
theorem WellFormed.mem_keys_iff (h : t.WellFormed) :
    k ∈ t.reading.keys ↔ t.reading.counter k ≠ 0 := by
  constructor
  · rw [keys_eq]
    intro hk
    obtain ⟨c, hc, rfl⟩ := List.mem_map.mp hk
    rw [h.counter hc]
    exact (h.positive c hc).ne'
  · intro hne
    by_contra hk
    exact hne (Reading.counter_of_notMem hk)

theorem mem_others {c : Cell κ} : c ∈ t.others k ↔ c ∈ t.cells ∧ c.key ≠ k := by
  rw [others, List.mem_filter, decide_eq_true_iff]

theorem WellFormed.others (h : t.WellFormed) (k : κ) : ((t.others k).map Cell.key).Nodup := by
  have hkeys := h.keys
  rw [keys_eq] at hkeys
  exact hkeys.sublist (List.filter_sublist.map _)

theorem WellFormed.insert (h : t.WellFormed) (hid : id ∉ t.cells.map Cell.id) (k : κ) :
    (t.insert id k).WellFormed := by
  refine ⟨?_, ?_, fun c hc => ?_⟩
  · refine List.nodup_cons.mpr ⟨fun hmem => hid ?_, h.ids.sublist (List.filter_sublist.map _)⟩
    exact (List.filter_sublist.map Cell.id).subset hmem
  · rw [keys_eq]
    refine List.nodup_cons.mpr ⟨fun hmem => ?_, h.others k⟩
    obtain ⟨c, hc, hkey⟩ := List.mem_map.mp hmem
    exact (mem_others.mp hc).2 hkey
  · rcases List.mem_cons.mp hc with rfl | hc
    · exact Nat.one_pos
    · exact h.positive c (mem_others.mp hc).1

theorem WellFormed.evict (h : t.WellFormed) (k : κ) : (t.evict k).WellFormed := by
  refine ⟨h.ids.sublist (List.filter_sublist.map _), ?_, fun c hc => ?_⟩
  · rw [keys_eq]
    exact h.others k
  · exact h.positive c (mem_others.mp hc).1

/-! ### What is counted and what is lost -/

theorem sum_filter_key {l : List (Cell κ)} (hkeys : (l.map Cell.key).Nodup) (k : κ) :
    ((l.filter fun c => c.key ≠ k).map Cell.count).sum +
      Reading.counter (l.map fun c => (c.key, c.count)) k = (l.map Cell.count).sum := by
  induction l with
  | nil => rfl
  | cons c l ih =>
    obtain ⟨hnotin, hkeys⟩ := List.nodup_cons.mp hkeys
    have hrest := ih hkeys
    rw [List.map_cons, Reading.counter_cons, List.filter_cons, List.map_cons, List.sum_cons]
    by_cases hc : c.key = k
    · have hzero : Reading.counter (l.map fun c => (c.key, c.count)) k = 0 := by
        refine Reading.counter_of_notMem ?_
        rw [Reading.keys, List.map_map, ← hc]
        exact hnotin
      rw [if_neg (by simpa using hc), if_pos hc.symm]
      omega
    · rw [if_pos (by simpa using hc), if_neg (Ne.symm hc), List.map_cons, List.sum_cons]
      omega

/-- The cells of other keys count what the key does not. -/
theorem sum_others (h : t.WellFormed) (k : κ) :
    ((t.others k).map Cell.count).sum + t.reading.counter k = t.total := by
  have hkeys := h.keys
  rw [keys_eq] at hkeys
  rw [total_eq]
  exact sum_filter_key hkeys k

/-- **Insertions.** -/
theorem sum_insert (h : t.WellFormed) (id : ℕ) (k : κ) :
    (t.insert id k).total + (t.insert id k).lost = t.total + t.lost + 1 := by
  have hothers := sum_others h k
  rw [total_eq, insert]
  simp only [List.map_cons, List.sum_cons, lost]
  omega

/-- **Evictions.** -/
theorem sum_evict (h : t.WellFormed) (k : κ) :
    (t.evict k).total + (t.evict k).lost = t.total + t.lost := by
  have hothers := sum_others h k
  rw [total_eq, evict]
  simp only [lost]
  omega

/-! ### One key -/

/-- A cell of the key has the id. -/
def Holds (t : SharedTally κ) (id : ℕ) (k : κ) : Prop := ∃ c ∈ t.cells, c.id = id ∧ c.key = k

omit [DecidableEq κ] in
theorem Holds.add {id' : ℕ} (h : t.Holds id k) : (t.add id').Holds id k := by
  obtain ⟨c, hc, hid, hkey⟩ := h
  rw [SharedTally.add]
  split_ifs
  · refine ⟨c.addTo id', List.mem_map_of_mem hc, ?_, ?_⟩
    · rw [Cell.addTo]
      split_ifs <;> exact hid
    · rw [Cell.addTo]
      split_ifs <;> exact hkey
  · exact ⟨c, hc, hid, hkey⟩

omit [DecidableEq κ] in
theorem Holds.mem_ids (h : t.Holds id k) : id ∈ t.cells.map Cell.id := by
  obtain ⟨c, hc, rfl, -⟩ := h
  exact List.mem_map_of_mem hc

theorem counter_map_addTo {l : List (Cell κ)} (hids : (l.map Cell.id).Nodup)
    (hkeys : (l.map Cell.key).Nodup) {c : Cell κ} (hc : c ∈ l) (k : κ) :
    Reading.counter ((l.map (Cell.addTo c.id)).map fun c => (c.key, c.count)) k =
      Reading.counter (l.map fun c => (c.key, c.count)) k + if c.key = k then 1 else 0 := by
  induction l with
  | nil => exact absurd hc List.not_mem_nil
  | cons c' l ih =>
    obtain ⟨hnotinId, hids⟩ := List.nodup_cons.mp hids
    obtain ⟨hnotinKey, hkeys⟩ := List.nodup_cons.mp hkeys
    simp only [List.map_cons, Reading.counter_cons]
    rcases List.mem_cons.mp hc with rfl | hc
    · rw [map_addTo_of_notMem hnotinId, Cell.addTo, if_pos rfl]
      by_cases hk : k = c.key
      · rw [if_pos hk, if_pos hk, if_pos hk.symm]
      · rw [if_neg hk, if_neg hk, if_neg (Ne.symm hk)]
        rfl
    · have hid : c'.id ≠ c.id := by
        intro heq
        rw [heq] at hnotinId
        exact hnotinId (List.mem_map_of_mem hc)
      have hkey : c'.key ≠ c.key := by
        intro heq
        rw [heq] at hnotinKey
        exact hnotinKey (List.mem_map_of_mem hc)
      rw [Cell.addTo, if_neg hid, ih hids hkeys hc]
      by_cases hk : k = c'.key
      · rw [if_pos hk, if_pos hk, if_neg fun h => hkey (hk.symm.trans h.symm)]
        rfl
      · rw [if_neg hk, if_neg hk]

/-- An addition to the cell of a key counts the key once more. -/
theorem counter_add (h : t.WellFormed) (hholds : t.Holds id k) (k' : κ) :
    (t.add id).reading.counter k' = t.reading.counter k' + if k = k' then 1 else 0 := by
  rw [SharedTally.add, if_pos hholds.mem_ids]
  obtain ⟨c, hc, rfl, rfl⟩ := hholds
  have hkeys := h.keys
  rw [keys_eq] at hkeys
  exact counter_map_addTo h.ids hkeys hc k'

/-- Without counts of its own, a key has no cell. -/
theorem WellFormed.others_eq (h : t.WellFormed) (hk : t.reading.counter k = 0) :
    t.others k = t.cells := by
  refine List.filter_eq_self.mpr fun c hc => decide_eq_true fun hkey => ?_
  have hpos := h.positive c hc
  rw [← h.counter hc, hkey, hk] at hpos
  exact hpos.ne rfl

theorem lost_insert (t : SharedTally κ) (id : ℕ) (k : κ) :
    (t.insert id k).lost = t.lost + t.reading.counter k := by
  simp only [insert, lost]
  omega

theorem lost_evict (t : SharedTally κ) (k : κ) :
    (t.evict k).lost = t.lost + t.reading.counter k := by
  simp only [evict, lost]
  omega

/-- A key that is inserted for the first time counts one. -/
theorem counter_insert (h : t.WellFormed) (hk : t.reading.counter k = 0) (id : ℕ) (k' : κ) :
    (t.insert id k).reading.counter k' = t.reading.counter k' + if k = k' then 1 else 0 := by
  rw [insert, h.others_eq hk, reading, List.map_cons, Reading.counter_cons]
  by_cases hkk : k' = k
  · rw [if_pos hkk, hkk, if_pos rfl, hk]
  · rw [if_neg hkk, if_neg (Ne.symm hkk)]
    rfl

theorem Holds.insert {id' : ℕ} {k' : κ} (hholds : t.Holds id k) (h : t.WellFormed)
    (hk : t.reading.counter k' = 0) : (t.insert id' k').Holds id k := by
  obtain ⟨c, hc, hck⟩ := hholds
  refine ⟨c, List.mem_cons_of_mem _ ?_, hck⟩
  rw [h.others_eq hk]
  exact hc

/-- A key without counts is not evicted. -/
theorem evict_eq (h : t.WellFormed) (hk : t.reading.counter k = 0) : t.evict k = t := by
  rw [evict, h.others_eq hk, hk]
  rfl

omit [DecidableEq κ] in
theorem lost_le_add (t : SharedTally κ) (id : ℕ) : t.lost ≤ (t.add id).lost := by
  rw [SharedTally.add]
  split_ifs
  · exact le_rfl
  · simp only [lost]
    omega

theorem WellFormed.grows {t' : SharedTally κ} (h : t.WellFormed)
    (hle : ∀ k, t.reading.counter k ≤ t'.reading.counter k) : t.reading.Grows t'.reading := by
  refine Reading.grows_of_counter_le h.keys (fun e he => ?_) hle
  obtain ⟨c, hc, rfl⟩ := List.mem_map.mp he
  exact h.positive c hc

end SharedTally

end Foundations
