import Argus.Agent.SpoolFile
import Argus.Foundations.BoundedQueue

/-!
# The directory of the spool

`Spool` keeps a queue in a directory: a file for each item, in the order of their names, which are
numbers of sixteen digits. The directory is listed anew by every call, so that nothing is lost when
it is opened again. File operations succeed.

`files` are the files that are listed. The lemmas say what every operation does to their entries,
oldest first: `dropOldest_spec` that they are made room among, `Put_spec` that one more comes last,
`frontLoop_spec` that the corrupt ones at the front go away.
-/

namespace Argus

open Foundations

/-! ### Names -/

/-- `bufferNameWidth`. -/
def bufferNameWidth : ℕ := 16

/-- `fmt.Sprintf("%0*d.json", bufferNameWidth, seq)`. -/
def batchFile (seq : ℕ) : String :=
  String.ofList (if seq < 10 ^ bufferNameWidth then pad bufferNameWidth seq
    else Nat.toDigits 10 seq) ++ ".json"

/-- `batchName`. -/
def batchName (name : String) : Bool :=
  byteLength name == bufferNameWidth + byteLength ".json" && hasSuffix name ".json" &&
    (name.toList.take bufferNameWidth).all Char.isDigit

/-- `seqOf`. -/
def seqOf (name : String) : ℕ := decimal (name.toList.take bufferNameWidth)

theorem toList_batchFile {n : ℕ} (hn : n < 10 ^ bufferNameWidth) :
    (batchFile n).toList = pad bufferNameWidth n ++ ".json".toList := by
  rw [batchFile, if_pos hn, String.toList_append, String.toList_ofList]

/-- Names are taken apart as they are put together. -/
theorem seqOf_batchFile {n : ℕ} (hn : n < 10 ^ bufferNameWidth) : seqOf (batchFile n) = n := by
  rw [seqOf, toList_batchFile hn, List.take_left' (length_pad _ _), decimal_eq, digitsValue_pad,
    Nat.mod_eq_of_lt hn]

/-- **Names sort like numbers.** -/
theorem batchFile_lt_batchFile {m n : ℕ} (hm : m < 10 ^ bufferNameWidth)
    (hn : n < 10 ^ bufferNameWidth) : batchFile m < batchFile n ↔ m < n := by
  rw [String.lt_iff_toList_lt, toList_batchFile hm, toList_batchFile hn,
    append_lt_append_iff (by rw [length_pad, length_pad]), pad_lt_pad hm hn]
  exact or_iff_left fun h => lt_irrefl _ h.2

/-- The characters of a name. -/
theorem mem_batchFile {n : ℕ} (hn : n < 10 ^ bufferNameWidth) {c : Char}
    (hc : c ∈ (batchFile n).toList) : ('0' ≤ c ∧ c ≤ '9') ∨ c ∈ ".json".toList := by
  rw [toList_batchFile hn] at hc
  exact (List.mem_append.mp hc).imp mem_pad id

theorem byteLength_batchFile {n : ℕ} (hn : n < 10 ^ bufferNameWidth) :
    byteLength (batchFile n) = 21 := by
  have hascii : ∀ c ∈ (batchFile n).toList, c.toNat < 128 := fun c hc => by
    rcases mem_batchFile hn hc with h | h
    · exact lt_of_le_of_lt (show c.toNat ≤ 57 from h.2) (by norm_num)
    · exact forall_mem_of_all (P := fun c => c.toNat < 128) rfl c h
  rw [byteLength_eq_length hascii, toList_batchFile hn, List.length_append, length_pad]
  rfl

theorem batchName_batchFile {n : ℕ} (hn : n < 10 ^ bufferNameWidth) :
    batchName (batchFile n) = true := by
  have hdigits : ((batchFile n).toList.take bufferNameWidth).all Char.isDigit = true := by
    rw [toList_batchFile hn, List.take_left' (length_pad _ _)]
    exact List.all_eq_true.mpr fun c hc => isDigit_of_mem_pad hc
  have hending : hasSuffix (batchFile n) ".json" = true := by
    rw [hasSuffix, toList_batchFile hn, List.isSuffixOf_iff_suffix]
    exact List.suffix_append _ _
  rw [batchName, byteLength_batchFile hn, hdigits, hending]
  rfl

/-- Every name that is listed has a number. -/
theorem exists_seq_of_batchName {name : String} (h : batchName name = true) :
    ∃ n < 10 ^ bufferNameWidth, name = batchFile n := by
  simp only [batchName, Bool.and_eq_true, beq_iff_eq, List.all_eq_true] at h
  obtain ⟨⟨hlen, hending⟩, hdigits⟩ := h
  obtain ⟨digits, hname⟩ := List.isSuffixOf_iff_suffix.mp hending
  rw [← hname] at hdigits
  have hsum : (digits.map Char.utf8Size).sum = bufferNameWidth := by
    rw [byteLength, ← hname, List.map_append, List.sum_append] at hlen
    exact Nat.add_right_cancel hlen
  have hle : digits.length ≤ (digits.map Char.utf8Size).sum := by
    rw [← List.length_map Char.utf8Size]
    refine List.length_le_sum_of_one_le _ fun k hk => ?_
    obtain ⟨c, -, rfl⟩ := List.mem_map.mp hk
    exact c.utf8Size_pos
  -- with a wider character among them, the dot would be among the first sixteen
  have hlength : digits.length = bufferNameWidth := by
    by_contra hne
    have hdot : '.' ∈ (digits ++ ".json".toList).take bufferNameWidth := by
      rw [List.take_append, List.mem_append]
      refine .inr ?_
      obtain ⟨k, hk⟩ : ∃ k, bufferNameWidth - digits.length = k + 1 :=
        Nat.exists_eq_add_one_of_ne_zero (by omega)
      rw [hk]
      exact List.mem_cons_self
    exact absurd (hdigits '.' hdot) (by decide)
  rw [List.take_left' hlength] at hdigits
  obtain ⟨hpad, hlt⟩ := pad_digitsValue fun c hc => isDigit_iff.mp (hdigits c hc)
  rw [hlength] at hpad hlt
  refine ⟨digitsValue digits, hlt, String.toList_inj.mp ?_⟩
  rw [toList_batchFile hlt, hpad, hname]

/-- With an ending a name is not listed. -/
theorem batchName_append {name ending : String} (h : batchName name = true)
    (hne : byteLength ending ≠ 0) : batchName (name ++ ending) = false := by
  obtain ⟨n, hn, rfl⟩ := exists_seq_of_batchName h
  have hlen : byteLength (batchFile n ++ ending) ≠ 21 := by
    rw [byteLength_append, byteLength_batchFile hn]
    omega
  rw [batchName, Bool.and_eq_false_iff, Bool.and_eq_false_iff]
  exact .inl (.inl (beq_false_of_ne hlen))

/-- The guard of `Remove` lets every listed name pass. -/
theorem batchName_guard {name : String} (h : batchName name = true) :
    ¬(name = "" ∨ contains name "/" ∨ contains name "..") := by
  obtain ⟨n, hn, rfl⟩ := exists_seq_of_batchName h
  rintro (heq | hslash | hdots)
  · have hlen := byteLength_batchFile hn
    rw [heq] at hlen
    exact absurd hlen (by decide)
  · have hmem : '/' ∈ (batchFile n).toList :=
      (infix_of_contains hslash).subset List.mem_cons_self
    rcases mem_batchFile hn hmem with h | h
    · exact absurd h (by decide)
    · exact absurd h (by decide)
  · -- the dot of the ending is the only one
    have hcount : ((batchFile n).toList.count '.') = 1 := by
      have hpad : (pad bufferNameWidth n).count '.' = 0 :=
        List.count_eq_zero.mpr fun hmem => absurd (mem_pad hmem) (by decide)
      rw [toList_batchFile hn, List.count_append, hpad]
      rfl
    have htwo : List.count '.' "..".toList ≤ (batchFile n).toList.count '.' :=
      (infix_of_contains hdots).sublist.count_le '.'
    rw [hcount] at htwo
    exact absurd htwo (by decide)

/-! ### The spool -/

/-- `Spool`: the files of its directory, their contents under their names, and its limit. -/
structure Spool where
  dir : SortedMap String String
  maxBytes : ℕ
  deriving DecidableEq

/-- `OpenSpool`, in a directory that is there or can be made. -/
def OpenSpool (dir : SortedMap String String) (maxBytes : ℕ) : Option Spool :=
  if maxBytes = 0 then none else some ⟨dir, maxBytes⟩

/-- The text of the item that `Put` writes. -/
def itemText (b : Batch) (now : Time) : String := (SpoolItem.mk b now).text

namespace Spool

/-- `s.names()`. A map lists its keys in their order. -/
def names (s : Spool) : List String := s.dir.keys.filter batchName

/-- The size of `os.Stat`. -/
def stat (s : Spool) (name : String) : Option ℕ := (s.dir.get? name).map byteLength

/-- `os.WriteFile`. -/
def writeFile (s : Spool) (name raw : String) : Spool := { s with dir := s.dir.insert name raw }

/-- `os.Rename`. -/
def rename (s : Spool) (old new : String) : Option Spool :=
  (s.dir.get? old).map fun raw => { s with dir := (s.dir.erase old).insert new raw }

/-- `s.Remove`, for which a file that is not there is no error. -/
def Remove (s : Spool) (name : String) : Option Spool :=
  if name = "" ∨ contains name "/" ∨ contains name ".." then none
  else some { s with dir := s.dir.erase name }

/-- `s.used`. -/
def used (s : Spool) : List String → Option ℤ
  | [] => some 0
  | name :: names => do
    let size ← s.stat name
    let total ← s.used names
    some (size + total)

/-- The loop of `s.makeRoom`: drop the oldest files until `incoming` fits. -/
def dropOldest (incoming : ℤ) : ℤ → List String → Spool → Spool × Bool
  | used, [], s => (s, used + incoming ≤ s.maxBytes)
  | used, oldest :: names, s =>
    if used + incoming > s.maxBytes then
      match s.stat oldest, s.Remove oldest with
      | some size, some s => dropOldest incoming (used - size) names s
      | _, _ => (s, false)
    else (s, true)

/-- `s.makeRoom`. -/
def makeRoom (s : Spool) (names : List String) (incoming : ℤ) : Spool × Bool :=
  match s.used names with
  | none => (s, false)
  | some used => dropOldest incoming used names s

/-- The listing that the next number is taken from: a new one when the last file is gone. -/
def relist (s : Spool) (listed : List String) : List String :=
  match listed.getLast? with
  | none => listed
  | some last => if (s.stat last).isSome then listed else s.names

/-- The number after that of the last name. -/
def nextSeq (listed : List String) : ℕ :=
  match listed.getLast? with
  | none => 1
  | some last => seqOf last + 1

/-- `s.Put`, at the time `now`: the spool afterwards, and whether there was no error. An instant
out of the years that `time.Time` can be written for is an error of `json.Marshal`. -/
def Put (s : Spool) (b : Batch) (now : Time) : Spool × Bool :=
  if !validBody b.body || !decide now.InYears then (s, false)
  else
    let raw := (SpoolItem.mk b now).text
    if byteLength raw > s.maxBytes then (s, false)
    else
      match s.makeRoom s.names (byteLength raw) with
      | (t, false) => (t, false)
      | (t, true) =>
        let final := batchFile (nextSeq (t.relist s.names))
        match (t.writeFile (final ++ ".tmp") raw).rename (final ++ ".tmp") final with
        | none => (t, false)
        | some t => (t, true)

/-- The loop of `s.Front` on a directory with at most this many listed files: the spool
afterwards and, unless there is an error, the oldest item with its name, if there is one. -/
def frontLoop : ℕ → Spool → Spool × Option (Option (String × Batch))
  | 0, s => (s, some none)
  | n + 1, s =>
    match s.names with
    | [] => (s, some none)
    | name :: _ =>
      match s.dir.get? name with
      | none => (s, none)
      | some raw =>
        match decodeItem raw with
        | some item => (s, some (some (name, item)))
        | none =>
          match s.rename name (name ++ ".bad") with
          | none => (s, none)
          | some s => frontLoop n s

/-- `s.Front`. -/
def Front (s : Spool) : Spool × Option (Option (String × Batch)) := frontLoop s.names.length s

/-! ### The listed files -/

/-- The files that are listed, under their names. -/
def files (s : Spool) : SortedMap String String := s.dir.filter fun name _ => batchName name

/-- The size of a file. -/
def fileSize (e : String × String) : ℕ := byteLength e.2

/-- Whether a file is corrupt. -/
def corrupt (e : String × String) : Bool := (decodeItem e.2).isNone

variable {s t : Spool}

theorem names_eq (s : Spool) : s.names = s.files.entries.map Prod.fst := List.filter_map

/-- A listed file has a name of sixteen digits and lies in the directory. -/
theorem of_mem_files {e : String × String} (h : e ∈ s.files.entries) :
    batchName e.1 = true ∧ s.dir.get? e.1 = some e.2 := by
  obtain ⟨hmem, hname⟩ := List.mem_filter.mp h
  exact ⟨hname, SortedMap.mem_entries.mp hmem⟩

theorem Remove_eq {name : String} (h : batchName name = true) :
    s.Remove name = some { s with dir := s.dir.erase name } := if_neg (batchName_guard h)

/-- Without the oldest file the others are left. -/
theorem files_erase_head {e : String × String} {l : List (String × String)}
    (h : s.files.entries = e :: l) :
    (files { s with dir := s.dir.erase e.1 }).entries = l := by
  rw [files, SortedMap.filter_erase]
  exact SortedMap.entries_erase_head h

theorem used_eq {l : List (String × String)} (h : ∀ e ∈ l, s.dir.get? e.1 = some e.2) :
    s.used (l.map Prod.fst) = some (BoundedQueue.total fileSize l : ℤ) := by
  induction l with
  | nil => rfl
  | cons e l ih =>
    obtain ⟨he, hl⟩ := List.forall_mem_cons.mp h
    rw [List.map_cons, used, ih hl, stat, he, BoundedQueue.total_cons]
    simp [fileSize]

/-- **Room is made by dropping the oldest files.** -/
theorem dropOldest_spec {incoming : ℕ} (hle : incoming ≤ s.maxBytes) :
    ∃ t : Spool, dropOldest incoming (BoundedQueue.total fileSize s.files.entries)
        (s.files.entries.map Prod.fst) s = (t, true) ∧ t.maxBytes = s.maxBytes ∧
      t.files.entries = BoundedQueue.makeRoom fileSize s.maxBytes incoming s.files.entries := by
  induction hl : s.files.entries generalizing s with
  | nil =>
    refine ⟨s, ?_, rfl, hl⟩
    rw [List.map_nil, dropOldest, BoundedQueue.total_nil]
    simpa using hle
  | cons e l ih =>
    obtain ⟨hname, hget⟩ := of_mem_files (hl ▸ List.mem_cons_self)
    rw [List.map_cons, dropOldest, BoundedQueue.makeRoom]
    split_ifs with hroom hroom' hroom'
    · obtain ⟨t, ht, hmax, hentries⟩ :=
        ih (s := { s with dir := s.dir.erase e.1 }) hle (files_erase_head hl)
      refine ⟨t, ?_, hmax, hentries⟩
      have hsize : (BoundedQueue.total fileSize (e :: l) : ℤ) - (byteLength e.2 : ℕ) =
          BoundedQueue.total fileSize l := by
        rw [BoundedQueue.total_cons, fileSize]
        omega
      rw [stat, hget, Remove_eq hname]
      simp only [Option.map_some, hsize]
      exact ht
    · omega
    · omega
    · exact ⟨s, rfl, rfl, hl⟩

/-! ### Numbers -/

/-- **The next number.** What is left of the listing decides it: the last name when its file is
still there, and else the directory is empty. -/
theorem nextSeq_relist (h : t.names <:+ s.names) :
    nextSeq (t.relist s.names) = nextSeq t.names := by
  rw [relist]
  rcases hlast : s.names.getLast? with - | last
  · have hnil : s.names = [] := List.getLast?_eq_none_iff.mp hlast
    rw [hnil] at h
    rw [hnil, List.suffix_nil.mp h]
  · simp only
    split_ifs with hstat
    · -- a file that is there is listed, so that the rest is not empty and has the same end
      have hmem : last ∈ t.names := by
        have hin : last ∈ s.names := List.mem_of_getLast? hlast
        obtain ⟨raw, hraw⟩ := Option.isSome_iff_exists.mp (Option.isSome_map.symm.trans hstat)
        exact List.mem_filter.mpr ⟨SortedMap.mem_keys.mpr ⟨raw, hraw⟩, (List.mem_filter.mp hin).2⟩
      obtain ⟨pre, hpre⟩ := h
      have hsame : s.names.getLast? = t.names.getLast? := by
        rw [← hpre, List.getLast?_append_of_ne_nil _ (List.ne_nil_of_mem hmem)]
      rw [nextSeq, nextSeq, hsame]
    · rfl

/-- The next number is above those of all files. -/
theorem lt_batchFile_nextSeq (hnext : nextSeq s.names < 10 ^ bufferNameWidth) {name : String}
    (h : name ∈ s.names) : name < batchFile (nextSeq s.names) := by
  have hkeys : s.files.keys = s.names := (names_eq s).symm
  obtain ⟨n, hn, rfl⟩ := exists_seq_of_batchName (List.mem_filter.mp h).2
  rcases hlast : s.names.getLast? with - | last
  · rw [List.getLast?_eq_none_iff.mp hlast] at h
    exact absurd h List.not_mem_nil
  · have hle := SortedMap.le_getLast_of_mem_keys (hkeys ▸ h) (hkeys ▸ hlast)
    obtain ⟨m, hm, rfl⟩ :=
      exists_seq_of_batchName (List.mem_filter.mp (List.mem_of_getLast? hlast)).2
    have hseq : nextSeq s.names = m + 1 := by
      rw [nextSeq, hlast]
      simp only [seqOf_batchFile hm]
    rw [hseq] at hnext ⊢
    rw [batchFile_lt_batchFile hn hnext]
    have hnot := (batchFile_lt_batchFile hm hn).not.mp (not_lt.mpr hle)
    omega

/-! ### What the operations do to the files -/

/-- A file that is written under another name first comes last when its name does. -/
theorem files_rename_writeFile {name : String} (raw : String) (hname : batchName name = true)
    (hlast : ∀ other ∈ s.names, other < name) :
    ∃ t : Spool, (s.writeFile (name ++ ".tmp") raw).rename (name ++ ".tmp") name = some t ∧
      t.maxBytes = s.maxBytes ∧ t.files.entries = s.files.entries ++ [(name, raw)] := by
  have htmp : batchName (name ++ ".tmp") = false := batchName_append hname (by decide)
  refine ⟨{ s with
    dir := ((s.dir.insert (name ++ ".tmp") raw).erase (name ++ ".tmp")).insert name raw },
    ?_, rfl, ?_⟩
  · rw [rename, writeFile, SortedMap.get?_insert_self, Option.map_some]
  · have hnone : s.files.get? (name ++ ".tmp") = none := by
      rw [files, SortedMap.get?_part, htmp, if_neg Bool.false_ne_true]
    rw [files, SortedMap.filter_insert_of_pos _ hname, SortedMap.filter_erase,
      SortedMap.filter_insert_of_neg _ htmp]
    change ((s.files.erase (name ++ ".tmp")).insert name raw).entries = _
    rw [SortedMap.erase_of_get?_eq_none hnone]
    refine SortedMap.entries_insert_of_lt (fun other hother => hlast other ?_) raw
    rw [names_eq]
    exact hother

theorem validBody_of_sent {b : Batch} (hb : b.Sent) : validBody b.body = true := by
  rw [validBody, Json.parse_render goEscape hb.body.le]
  rfl

/-- An item that is larger than the limit is refused. -/
theorem Put_of_lt {b : Batch} {now : Time} (hb : b.Sent) (hnow : now.InYears)
    (h : s.maxBytes < byteLength (itemText b now)) : s.Put b now = (s, false) := by
  rw [Put, validBody_of_sent hb, decide_eq_true hnow]
  simp only [Bool.not_true, Bool.or_self, Bool.false_eq_true, if_false]
  rw [← itemText, if_pos h]

/-- **Key result.** Any other item comes last, after room is made for it. -/
theorem Put_spec {b : Batch} {now : Time} (hb : b.Sent) (hnow : now.InYears)
    (hnames : ∀ name ∈ s.names, seqOf name + 1 < 10 ^ bufferNameWidth)
    (hle : byteLength (itemText b now) ≤ s.maxBytes) :
    ∃ (t : Spool) (name : String), s.Put b now = (t, true) ∧ t.maxBytes = s.maxBytes ∧
      t.files.entries = BoundedQueue.makeRoom fileSize s.maxBytes (byteLength (itemText b now))
        s.files.entries ++ [(name, itemText b now)] := by
  obtain ⟨t, ht, hmax, hentries⟩ := dropOldest_spec hle
  have hroom : s.makeRoom s.names (byteLength (itemText b now)) = (t, true) := by
    rw [makeRoom, names_eq, used_eq fun e he => (of_mem_files he).2]
    exact ht
  have hsuffix : t.names <:+ s.names := by
    rw [names_eq, names_eq, hentries]
    exact (BoundedQueue.makeRoom_suffix _ _).map Prod.fst
  have hnext : nextSeq t.names < 10 ^ bufferNameWidth := by
    rw [nextSeq]
    rcases hlast : t.names.getLast? with - | last
    · norm_num [bufferNameWidth]
    · exact hnames last (hsuffix.subset (List.mem_of_getLast? hlast))
  obtain ⟨u, hu, humax, huentries⟩ := files_rename_writeFile (itemText b now)
    (batchName_batchFile hnext) fun _ hother => lt_batchFile_nextSeq hnext hother
  refine ⟨u, batchFile (nextSeq t.names), ?_, humax.trans hmax, by rw [huentries, hentries]⟩
  rw [Put, validBody_of_sent hb, decide_eq_true hnow]
  simp only [Bool.not_true, Bool.or_self, Bool.false_eq_true, if_false]
  rw [← itemText, if_neg (not_lt.mpr hle), hroom]
  simp only [nextSeq_relist hsuffix, hu]

/-- What `Front` gives when the files are these: the first, unless there is none. -/
def oldest : List (String × String) → Option (String × Batch)
  | [] => none
  | e :: _ => (decodeItem e.2).map fun item => (e.1, item)

/-- **Key result.** `Front` moves the corrupt files at the front aside and gives the next one. -/
theorem frontLoop_spec {n : ℕ} (hn : s.files.entries.length ≤ n) :
    ∃ t : Spool, frontLoop n s = (t, some (oldest t.files.entries)) ∧ t.maxBytes = s.maxBytes ∧
      t.files.entries = s.files.entries.dropWhile corrupt := by
  induction n generalizing s with
  | zero =>
    have hnil : s.files.entries = [] := List.eq_nil_of_length_eq_zero (Nat.le_zero.mp hn)
    refine ⟨s, ?_, rfl, ?_⟩
    · rw [frontLoop, hnil, oldest]
    · rw [hnil, List.dropWhile_nil]
  | succ n ih =>
    rw [frontLoop, names_eq]
    rcases hl : s.files.entries with - | ⟨e, l⟩
    · exact ⟨s, by rw [hl]; rfl, rfl, hl⟩
    · obtain ⟨hname, hget⟩ := of_mem_files (hl ▸ List.mem_cons_self)
      simp only [List.map_cons, hget]
      rcases hitem : decodeItem e.2 with - | item
      · -- the corrupt file is renamed to a name that is not listed
        have hbad : batchName (e.1 ++ ".bad") = false := batchName_append hname (by decide)
        have hfiles :
            (files { s with dir := (s.dir.erase e.1).insert (e.1 ++ ".bad") e.2 }).entries = l := by
          rw [files, SortedMap.filter_insert_of_neg _ hbad]
          exact files_erase_head hl
        obtain ⟨t, ht, hmax, hentries⟩ := ih (by
          rw [hfiles]
          rw [hl, List.length_cons] at hn
          exact Nat.le_of_succ_le_succ hn)
        refine ⟨t, ?_, hmax, ?_⟩
        · rw [rename, hget]
          exact ht
        · rw [hentries, hfiles, List.dropWhile_cons_of_pos (by rw [corrupt, hitem]; rfl)]
      · refine ⟨s, ?_, rfl, ?_⟩
        · rw [hl, oldest, hitem]
          rfl
        · rw [hl, List.dropWhile_cons_of_neg (by rw [corrupt, hitem]; exact Bool.false_ne_true)]

/-- A file that becomes corrupt changes no other. -/
theorem files_writeFile {name : String} (hname : batchName name = true) (raw : String) :
    ∃ before gone after, s.files.entries = before ++ gone ++ after ∧ gone.length ≤ 1 ∧
      (s.writeFile name raw).files.entries = before ++ (name, raw) :: after := by
  have hfiles : (s.writeFile name raw).files = s.files.insert name raw :=
    SortedMap.filter_insert_of_pos _ hname _
  rw [hfiles]
  exact SortedMap.exists_entries_insert _ _ _

end Spool

end Argus
