import Argus.Agent.Spool

/-!
# The spool as a queue

`SpoolQueue` says what the spool is for: a queue of bounded size, some of whose entries are corrupt.
`Put` puts a batch at the end and lets the fewest oldest entries go that have to, `Front` gives the
oldest batch, and entries that are corrupt are in the way of no other.

`spool_refines` is the main result: whatever is called, in any order, the spool answers as the
queue does, and its files are those of the queue. A batch has a path and a body that can be read
as part of an item, the clock shows a year of four digits, and the numbers of the files stay below
the last one of sixteen digits.
-/

namespace Argus

open Foundations

/-! ### The queue -/

/-- An entry of the queue: the size of its file, and the batch, unless it is corrupt. -/
structure SpoolEntry where
  size : ℕ
  item : Option Batch

/-- A queue of entries, oldest first, which may not be larger together than a limit. -/
structure SpoolQueue where
  entries : List SpoolEntry
  maxBytes : ℕ

/-- What is called, and what may happen to a file: it is found there with other content, of which
nothing can be made. -/
inductive SpoolCall
  | put (b : Batch) (now : Time)
  | front
  | removeFront
  | reopen (maxBytes : ℕ)
  | spoil (n : ℕ) (content : String)

/-- What a call answers: whether an item is in the spool, the oldest item if there is one, an
error, or nothing. -/
inductive SpoolAnswer
  | stored (ok : Bool)
  | item (oldest : Option Batch)
  | failed
  | done

/-- The entry of an item. -/
def spoolEntry (b : Batch) (now : Time) : SpoolEntry := ⟨byteLength (itemText b now), some b⟩

namespace SpoolQueue

/-- The queue without the corrupt entries at its front. -/
def readable (q : SpoolQueue) : SpoolQueue :=
  { q with entries := q.entries.dropWhile fun e => e.item.isNone }

/-- The oldest batch. -/
def oldest (q : SpoolQueue) : Option Batch := q.readable.entries.head?.bind SpoolEntry.item

/-- What the calls do to the queue. -/
inductive Step : SpoolCall → SpoolQueue → SpoolAnswer → SpoolQueue → Prop
  /-- An item that is larger than the limit is refused. -/
  | refuse {b : Batch} {now : Time} {q : SpoolQueue} (h : q.maxBytes < (spoolEntry b now).size) :
    Step (.put b now) q (.stored false) q
  /-- Any other comes last, and the fewest oldest entries go. -/
  | put {b : Batch} {now : Time} {q : SpoolQueue} {kept : List SpoolEntry}
    (h : (spoolEntry b now).size ≤ q.maxBytes)
    (hkept : BoundedQueue.Keeps SpoolEntry.size q.maxBytes (q.entries ++ [spoolEntry b now]) kept) :
    Step (.put b now) q (.stored true) { q with entries := kept }
  | front (q : SpoolQueue) : Step .front q (.item q.oldest) q.readable
  | removeFront (q : SpoolQueue) :
    Step .removeFront q .done { q with entries := q.readable.entries.tail }
  | reopen (q : SpoolQueue) {maxBytes : ℕ} (h : maxBytes ≠ 0) :
    Step (.reopen maxBytes) q .done { q with maxBytes := maxBytes }
  /-- Without a limit a spool cannot be opened. -/
  | reopenFail (q : SpoolQueue) : Step (.reopen 0) q .failed q
  /-- A corrupt entry is there at some place, where at most one other goes. -/
  | spoil {n size maxBytes : ℕ} {content : String} {before gone after : List SpoolEntry}
    (h : gone.length ≤ 1) :
    Step (.spoil n content) ⟨before ++ gone ++ after, maxBytes⟩ .done
      ⟨before ++ ⟨size, none⟩ :: after, maxBytes⟩

end SpoolQueue

/-! ### The spool -/

namespace Spool

/-- What the calls do to the spool. `Remove` is called with the name that `Front` gave. -/
def call (s : Spool) : SpoolCall → SpoolAnswer × Spool
  | .put b now => (.stored (s.Put b now).2, (s.Put b now).1)
  | .front =>
    match s.Front with
    | (s, none) => (.failed, s)
    | (s, some found) => (.item (found.map Prod.snd), s)
  | .removeFront =>
    match s.Front with
    | (s, none) => (.failed, s)
    | (s, some none) => (.done, s)
    | (s, some (some (name, _))) =>
      match s.Remove name with
      | none => (.failed, s)
      | some s => (.done, s)
  | .reopen maxBytes =>
    match OpenSpool s.dir maxBytes with
    | none => (.failed, s)
    | some s => (.done, s)
  | .spoil n content => (.done, s.writeFile (batchFile n) content)

/-- What is called: batches as the client sends them, while numbers are left. -/
def Allows (s : Spool) : SpoolCall → Prop
  | .put b now => b.Sent ∧ now.InYears ∧ ∀ name ∈ s.names, seqOf name + 1 < 10 ^ bufferNameWidth
  | .spoil n content => n < 10 ^ bufferNameWidth ∧ decodeItem content = none
  | _ => True

/-- The steps of the spool. -/
def Step (c : SpoolCall) (s : Spool) (a : SpoolAnswer) (s' : Spool) : Prop :=
  s.Allows c ∧ s.call c = (a, s')

/-! ### Refinement -/

/-- The entry of a file. -/
def entryOf (e : String × String) : SpoolEntry := ⟨byteLength e.2, decodeItem e.2⟩

/-- **The queue that the files are.** -/
def queue (s : Spool) : SpoolQueue := ⟨s.files.entries.map entryOf, s.maxBytes⟩

theorem queue_eq {s : Spool} {l : List (String × String)} {maxBytes : ℕ}
    (hentries : s.files.entries = l) (hmax : s.maxBytes = maxBytes) :
    s.queue = ⟨l.map entryOf, maxBytes⟩ := by
  rw [queue, hentries, hmax]

theorem total_entryOf (l : List (String × String)) :
    BoundedQueue.total SpoolEntry.size (l.map entryOf) = BoundedQueue.total fileSize l := by
  rw [BoundedQueue.total, List.map_map, BoundedQueue.total]
  rfl

theorem makeRoom_entryOf (limit incoming : ℕ) (l : List (String × String)) :
    (BoundedQueue.makeRoom fileSize limit incoming l).map entryOf =
      BoundedQueue.makeRoom SpoolEntry.size limit incoming (l.map entryOf) := by
  induction l with
  | nil => rfl
  | cons e l ih =>
    rw [List.map_cons, BoundedQueue.makeRoom, BoundedQueue.makeRoom, ← List.map_cons, total_entryOf]
    split_ifs
    · exact ih
    · rfl

variable {s t : Spool}

theorem step_put {b : Batch} {now : Time} (h : s.Allows (.put b now)) :
    SpoolQueue.Step (.put b now) s.queue (.stored (s.Put b now).2) (s.Put b now).1.queue := by
  obtain ⟨hb, hnow, hnames⟩ := h
  have hsize : (spoolEntry b now).size = byteLength (itemText b now) := by rw [spoolEntry]
  by_cases hle : (spoolEntry b now).size ≤ s.queue.maxBytes
  · have hentries : (s.Put b now).1.queue = { s.queue with
        entries := BoundedQueue.fit SpoolEntry.size s.queue.maxBytes
          (s.queue.entries ++ [spoolEntry b now]) } := by
      obtain ⟨t, name, ht, hmax, hentries⟩ := Put_spec hb hnow hnames (hsize ▸ hle)
      have hentry : entryOf (name, itemText b now) = spoolEntry b now := by
        rw [entryOf, spoolEntry, itemText, decodeItem_text hb hnow]
      rw [BoundedQueue.fit_append hle, hsize, ht, queue_eq hentries hmax, List.map_append,
        makeRoom_entryOf, List.map_singleton, hentry, queue]
    have hstored : (s.Put b now).2 = true := by
      obtain ⟨t, name, ht, -⟩ := Put_spec hb hnow hnames (hsize ▸ hle)
      rw [ht]
    rw [hentries, hstored]
    exact .put hle (BoundedQueue.keeps_fit _)
  · have hlt : s.queue.maxBytes < (spoolEntry b now).size := not_le.mp hle
    rw [Put_of_lt hb hnow (hsize ▸ hlt)]
    exact .refuse hlt

/-- `Front` leaves the queue without the corrupt entries at its front. -/
theorem front_spec (s : Spool) :
    ∃ t : Spool, s.Front = (t, some (oldest t.files.entries)) ∧ t.maxBytes = s.maxBytes ∧
      t.files.entries = s.files.entries.dropWhile corrupt ∧ t.queue = s.queue.readable := by
  obtain ⟨t, ht, hmax, hentries⟩ := frontLoop_spec (s := s) (n := s.names.length)
    (by rw [names_eq, List.length_map])
  refine ⟨t, by rw [Front, ht], hmax, hentries, ?_⟩
  rw [queue_eq hentries hmax, SpoolQueue.readable, queue, List.dropWhile_map]
  rfl

/-- The oldest item is that of the queue. -/
theorem oldest_eq (h : t.queue = s.queue.readable) :
    (oldest t.files.entries).map Prod.snd = s.queue.oldest := by
  rw [SpoolQueue.oldest, ← h, queue]
  rcases t.files.entries with - | ⟨e, l⟩
  · rfl
  · rw [oldest, Option.map_map, List.map_cons, List.head?_cons, Option.bind_some, entryOf]
    exact congrFun Option.map_id _

theorem step_removeFront (s : Spool) : SpoolQueue.Step .removeFront s.queue
    (s.call .removeFront).1 (s.call .removeFront).2.queue := by
  obtain ⟨t, ht, hmax, hentries, hqueue⟩ := front_spec s
  suffices (s.call .removeFront).1 = .done ∧
      (s.call .removeFront).2.queue = ⟨s.queue.readable.entries.tail, s.queue.maxBytes⟩ by
    rw [this.1, this.2]
    exact .removeFront s.queue
  have hmax' : t.maxBytes = s.queue.maxBytes := hmax
  rw [call, ht, ← hqueue]
  rcases hl : t.files.entries with - | ⟨e, l⟩
  · simp only [oldest, true_and]
    rw [queue_eq hl hmax']
    rfl
  · -- the oldest file that is left can be read
    obtain ⟨item, hitem⟩ : ∃ item, decodeItem e.2 = some item := by
      have hhead := List.head?_dropWhile_not corrupt s.files.entries
      rw [← hentries, hl] at hhead
      simpa [corrupt, Option.isSome_iff_exists] using hhead
    rw [oldest, hitem]
    simp only [Option.map_some, Remove_eq (of_mem_files (hl ▸ List.mem_cons_self)).1, true_and]
    rw [queue_eq (files_erase_head hl) hmax', queue_eq hl hmax']
    rfl

theorem step_front (s : Spool) :
    SpoolQueue.Step .front s.queue (s.call .front).1 (s.call .front).2.queue := by
  obtain ⟨t, ht, -, -, hqueue⟩ := front_spec s
  rw [call, ht]
  simp only [oldest_eq hqueue, hqueue]
  exact .front s.queue

theorem step_reopen (s : Spool) (maxBytes : ℕ) : SpoolQueue.Step (.reopen maxBytes) s.queue
    (s.call (.reopen maxBytes)).1 (s.call (.reopen maxBytes)).2.queue := by
  by_cases h : maxBytes = 0
  · rw [h]
    exact .reopenFail s.queue
  · rw [call, OpenSpool, if_neg h]
    exact .reopen s.queue h

theorem step_spoil {n : ℕ} {content : String} (h : s.Allows (.spoil n content)) :
    SpoolQueue.Step (.spoil n content) s.queue (s.call (.spoil n content)).1
      (s.call (.spoil n content)).2.queue := by
  obtain ⟨hn, hcorrupt⟩ := h
  obtain ⟨before, gone, after, hentries, hgone, hwrite⟩ :=
    files_writeFile (s := s) (batchName_batchFile hn) content
  have hbefore : s.queue = ⟨before.map entryOf ++ gone.map entryOf ++ after.map entryOf,
      s.maxBytes⟩ := by
    rw [queue_eq hentries rfl, List.map_append, List.map_append]
  have hafter : (s.writeFile (batchFile n) content).queue =
      ⟨before.map entryOf ++ ⟨byteLength content, none⟩ :: after.map entryOf, s.maxBytes⟩ := by
    rw [queue_eq hwrite rfl, List.map_append, List.map_cons, entryOf, hcorrupt]
    rfl
  rw [call, hbefore, hafter]
  exact .spoil (by rwa [List.length_map])

/-- Every step of the spool is one of the queue. -/
theorem step_queue {c : SpoolCall} {s s' : Spool} {a : SpoolAnswer} (h : Spool.Step c s a s') :
    SpoolQueue.Step c s.queue a s'.queue := by
  obtain ⟨hallowed, hcall⟩ := h
  obtain ⟨rfl, rfl⟩ : (s.call c).1 = a ∧ (s.call c).2 = s' := by rw [hcall]; exact ⟨rfl, rfl⟩
  cases c with
  | put b now => exact step_put hallowed
  | front => exact step_front s
  | removeFront => exact step_removeFront s
  | reopen maxBytes => exact step_reopen s maxBytes
  | spoil n content => exact step_spoil hallowed

end Spool

/-- **Key result: the spool is a bounded queue.** Whatever is called, the answers are those of the
queue, and the files are its entries. -/
theorem spool_refines {calls : List SpoolCall} {s s' : Spool} {answers : List SpoolAnswer}
    (h : Runs Spool.Step calls s answers s') :
    Runs SpoolQueue.Step calls s.queue answers s'.queue :=
  Runs.simulates (f := Spool.queue) (fun _ _ _ _ hstep => Spool.step_queue hstep) h

/-- Two batches, with items of 93 bytes. -/
def olderBatch : Batch := ⟨"/api/v1/ingest/logs", "a1", .null⟩

def newerBatch : Batch := ⟨"/api/v1/ingest/logs", "a2", .null⟩

/-- A spool with one of them, in which there is no room for the other. -/
def narrowSpool (b : Batch) : Spool :=
  ⟨SortedMap.ofList [("0000000000000001.json", itemText b ⟨0⟩)], 120⟩

/-- The spool with the newer one and a corrupt file before it, opened again with more room. -/
def reopenedSpool : Spool := ⟨((narrowSpool newerBatch).writeFile (batchFile 0) "").dir, 200⟩

theorem queue_reopenedSpool :
    reopenedSpool.queue = ⟨[⟨0, none⟩, spoolEntry newerBatch ⟨0⟩], 200⟩ := by
  have hfiles : reopenedSpool.files = SortedMap.ofList
      [("0000000000000000.json", ""), ("0000000000000001.json", itemText newerBatch ⟨0⟩)] := by
    decide +kernel
  have hcorrupt : decodeItem "" = none := by decide +kernel
  have hdecode : decodeItem (itemText newerBatch ⟨0⟩) = some newerBatch :=
    decodeItem_text ⟨by decide, by decide⟩ (by decide)
  rw [Spool.queue_eq (congrArg SortedMap.entries hfiles) rfl]
  change (⟨[⟨_, decodeItem ""⟩, ⟨_, decodeItem (itemText newerBatch ⟨0⟩)⟩], 200⟩ : SpoolQueue) = _
  rw [hcorrupt, hdecode]
  rfl

/-- The older batch has to go when the newer one comes. That one is found behind a corrupt file when
the spool has been opened again, and is the only entry that is left. -/
theorem spool_refines_reopened :
    Runs SpoolQueue.Step
      [.put olderBatch ⟨0⟩, .put newerBatch ⟨0⟩, .spoil 0 "", .reopen 200, .front]
      ⟨[], 120⟩ [.stored true, .stored true, .done, .done, .item (some newerBatch)]
      ⟨[spoolEntry newerBatch ⟨0⟩], 200⟩ := by
  have holder : Spool.Step (.put olderBatch ⟨0⟩) ⟨∅, 120⟩ (.stored true)
      (narrowSpool olderBatch) := by
    refine ⟨⟨⟨by decide, by decide⟩, by decide, by decide +kernel⟩, ?_⟩
    rw [Spool.call, show Spool.Put ⟨∅, 120⟩ olderBatch ⟨0⟩ = (narrowSpool olderBatch, true) by
      decide +kernel]
  have hnewer : Spool.Step (.put newerBatch ⟨0⟩) (narrowSpool olderBatch) (.stored true)
      (narrowSpool newerBatch) := by
    refine ⟨⟨⟨by decide, by decide⟩, by decide, by decide +kernel⟩, ?_⟩
    rw [Spool.call, show (narrowSpool olderBatch).Put newerBatch ⟨0⟩ =
      (narrowSpool newerBatch, true) by decide +kernel]
  have hspoil : Spool.Step (.spoil 0 "") (narrowSpool newerBatch) .done
      ((narrowSpool newerBatch).writeFile (batchFile 0) "") :=
    ⟨⟨by decide, by decide +kernel⟩, rfl⟩
  have hreopen : Spool.Step (.reopen 200)
      ((narrowSpool newerBatch).writeFile (batchFile 0) "") .done reopenedSpool := ⟨trivial, rfl⟩
  obtain ⟨t, ht, -, -, hqueue⟩ := Spool.front_spec reopenedSpool
  have hfront : Spool.Step .front reopenedSpool (.item (some newerBatch)) t := by
    have holdest := Spool.oldest_eq hqueue
    rw [queue_reopenedSpool] at holdest
    refine ⟨trivial, ?_⟩
    rw [Spool.call, ht]
    exact congrArg (fun item => (SpoolAnswer.item item, t)) holdest
  have hrun := spool_refines
    (.cons holder (.cons hnewer (.cons hspoil (.cons hreopen (.cons hfront (.nil t))))))
  rw [hqueue, queue_reopenedSpool] at hrun
  exact hrun

end Argus
