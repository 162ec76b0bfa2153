import Argus.Store.TraceReference

/-!
# Pages

The log search, the list of events and the list of traces answer one page at a time. `pageWindow`
reads the page from the request; it keeps the limit at most 200 and the offset at most 100000.
`pages_cover` says when the pages of one filter, each from a request of its own, show every match
once.
-/

namespace Argus

open Foundations

/-! ### Requests -/

/-- `pageDefault`, the limit of a request without one. -/
def pageDefault : ℕ := 50

/-- `pageMax`, the largest limit. -/
def pageMax : ℕ := 200

/-- `offsetMax`, the largest offset. -/
def offsetMax : ℕ := 100000

/-- A parameter that is a positive number. -/
def positiveParam (raw : String) : Option ℕ :=
  (atoi raw).bind fun n => if n > 0 then some n.toNat else none

/-- `pageWindow`: the parameters `limit` and `offset`, empty when they are missing. -/
def pageWindow (rawLimit rawOffset : String) (default_ : ℕ) : ℕ × ℕ :=
  (min ((positiveParam rawLimit).getD default_) pageMax,
    min ((positiveParam rawOffset).getD 0) offsetMax)

/-- The decimal text of a number. -/
def decimalText (n : ℕ) : String := String.ofList (Nat.toDigits 10 n)

theorem atoi_decimalText {n : ℕ} (h : n < 2 ^ 63) : atoi (decimalText n) = some (n : ℤ) := by
  have hplus : ∀ ds, Nat.toDigits 10 n ≠ '+' :: ds := fun ds heq => absurd
    (Nat.isDigit_of_mem_toDigits (by decide) (by decide) (heq ▸ List.mem_cons_self) :
      Char.isDigit '+' = true) (by decide)
  rw [atoi, decimalText, String.toList_ofList]
  split
  · exact absurd ‹_› (hplus _)
  · exact parseInt_toDigits h

theorem positiveParam_decimalText {n : ℕ} (h : n < 2 ^ 63) :
    positiveParam (decimalText n) = if n = 0 then none else some n := by
  rw [positiveParam, atoi_decimalText h, Option.bind_some]
  split_ifs <;> first | rfl | omega

/-- The page that a request asks for. -/
theorem pageWindow_decimalText {L offset default_ : ℕ} (hL : 1 ≤ L) (hL' : L ≤ pageMax)
    (h : offset < 2 ^ 63) :
    pageWindow (decimalText L) (decimalText offset) default_ = (L, min offset offsetMax) := by
  have hlimit : L < 2 ^ 63 := lt_of_le_of_lt hL' (by decide)
  rw [pageWindow, positiveParam_decimalText hlimit, positiveParam_decimalText h,
    if_neg (by omega), Option.getD_some, min_eq_left hL']
  split_ifs with hzero
  · rw [hzero]
    rfl
  · rfl

theorem pageWindow_le (rawLimit rawOffset : String) (default_ : ℕ) :
    (pageWindow rawLimit rawOffset default_).1 ≤ pageMax ∧
      (pageWindow rawLimit rawOffset default_).2 ≤ offsetMax :=
  ⟨min_le_right _ _, min_le_right _ _⟩

/-! ### Endpoints -/

/-- `model.ListPage`. -/
structure ListPage (α : Type) where
  entries : List α
  total : ℕ
  limit : ℕ
  offset : ℕ
  truncated : Bool

/-- The possible results of `handleListEvents`, an error of the store among them. -/
def handleListEvents (table : List EventRow) (filter : EventFilter) (rawLimit rawOffset : String)
    (out : Option (ListPage Model.Event)) : Prop :=
  let page := pageWindow rawLimit rawOffset pageDefault
  ∃ events, ListEvents table filter page.1 page.2 events ∧
    out = do
      let total ← CountEvents table filter
      let events ← events
      some ⟨events, total, page.1, page.2, false⟩

/-- The possible results of `handleSearchLogs`, an error of the store among them. -/
def handleSearchLogs (rt : Runtime) (table : List LogRow) (filter : LogSearchFilter)
    (rawLimit rawOffset : String) (out : Option (ListPage LogEntry)) : Prop :=
  let page := pageWindow rawLimit rawOffset pageDefault
  ∃ total logs, CountLogs rt table filter total ∧
    SearchLogs rt table filter page.1 page.2 logs ∧ out = do
      let total ← total
      let logs ← logs
      some ⟨logs, total, page.1, page.2, false⟩

/-- The possible results of `handleListTraces`, an error of the store among them. -/
def handleListTraces (rt : Runtime) (sqlTraceID : LogRow → Option String) (spans : List SpanRow)
    (logs : List LogRow) (filter : TraceListFilter) (rawLimit rawOffset : String)
    (out : Option (ListPage TraceSummary)) : Prop :=
  let page := pageWindow rawLimit rawOffset pageDefault
  ∃ traces, ListTracesResult rt sqlTraceID spans logs filter page.1 page.2 traces ∧
    out = traces.map fun traces =>
      ⟨traces.traces, traces.total, page.1, page.2, traces.truncated⟩

/-! ### Coverage -/

/-- The number of pages up to a total. -/
def pageCount (total L : ℕ) : ℕ := (total + L - 1) / L

/-- A request for a page has an answer, and it is no error. -/
def PageAnswered {α : Type} (request : Option α → Prop) : Prop :=
  (∃ page, request (some page)) ∧ ¬ request none

/-- The pages with limit `L` at the offsets `0`, `L`, `2L` and so on are answered. Those below the
total that is reported have every match once, whatever the answers are. -/
structure PagesCover {α β : Type} (request : String → String → Option (ListPage α) → Prop) (L : ℕ)
    (entry : α → β) (matches_ : List β) : Prop where
  answered : ∀ k, PageAnswered (request (decimalText L) (decimalText (k * L)))
  cover : ∀ pages : ℕ → ListPage α,
    (∀ k, request (decimalText L) (decimalText (k * L)) (some (pages k))) →
      ((List.range (pageCount (pages 0).total L)).flatMap fun k =>
        (pages k).entries.map entry).Perm matches_

/-- What the matches must be for pages of this size: no two of one key are on both sides of a
page boundary, and no page starts beyond the largest offset. -/
structure Pageable {ρ κ : Type} [LinearOrder κ] (key : ρ → κ) (rows : List ρ) (L : ℕ) : Prop where
  gap : ∀ k, k * L < rows.length → GapAt key rows (k * L)
  reach : ∀ k, k * L < rows.length → k * L ≤ offsetMax

theorem lt_pageCount {total L k : ℕ} (hL : 1 ≤ L) : k < pageCount total L ↔ k * L < total := by
  rw [pageCount, Nat.lt_iff_add_one_le, Nat.le_div_iff_mul_le hL, Nat.succ_mul]
  omega

theorem le_pageCount_mul {total L : ℕ} (hL : 1 ≤ L) : total ≤ pageCount total L * L :=
  not_lt.mp fun h => lt_irrefl _ ((lt_pageCount hL).mpr h)

/-- Pages of sorted rows, each from an answer of its own. -/
theorem Pageable.cover {ρ κ β : Type} [LinearOrder κ] {key : ρ → κ} {rows : List ρ} {L : ℕ}
    (h : Pageable key rows L) (hL : 1 ≤ L) {f : ρ → β} {entries : ℕ → List β}
    (hpages : ∀ k, k * L < rows.length → ∃ sorted, Ranked key rows sorted ∧
      entries k = ((sorted.drop (min (k * L) offsetMax)).take L).map f) :
    ((List.range (pageCount rows.length L)).flatMap entries).Perm (rows.map f) := by
  choose! answer hanswer using hpages
  have hentries : ∀ k ∈ List.range (pageCount rows.length L),
      entries k = (((answer k).drop (k * L)).take L).map f := by
    intro k hk
    have hk := (lt_pageCount hL).mp (List.mem_range.mp hk)
    rw [(hanswer k hk).2, min_eq_left (h.reach k hk)]
  rw [List.flatMap_congr hentries, ← List.map_flatMap]
  exact (slices_perm (fun k hk => (hanswer k ((lt_pageCount hL).mp hk)).1) h.gap
    (le_pageCount_mul hL)).map f

/-- What a page of the log search is. -/
theorem page_of_handleSearchLogs {rt : Runtime} {table : List LogRow} {filter : LogSearchFilter}
    {rawLimit rawOffset : String} {page : ListPage LogEntry}
    (h : handleSearchLogs rt table filter rawLimit rawOffset (some page)) :
    logArgsValid rt filter = true ∧ page.total = table.countP (logWhere rt filter) ∧
      ∃ sorted, Ranked (fun r => r.ts.format) (table.filter (logWhere rt filter)) sorted ∧
        page.entries = ((sorted.drop (pageWindow rawLimit rawOffset pageDefault).2).take
          (pageWindow rawLimit rawOffset pageDefault).1).map LogRow.scan := by
  obtain ⟨total, logs, hcount, hsearch, hpage⟩ := h
  obtain ⟨n, rfl, hrest⟩ := Option.bind_eq_some_iff.mp hpage.symm
  obtain ⟨entries, rfl, hlast⟩ := Option.bind_eq_some_iff.mp hrest
  obtain rfl := Option.some.inj hlast
  obtain ⟨hvalid, hn⟩ := LogQuery.of_some hcount
  obtain ⟨-, rows, ⟨sorted, hsorted, rfl⟩, hentries⟩ := LogQuery.of_some hsearch
  exact ⟨hvalid, hn, sorted, hsorted, hentries⟩

/-- What a page of the list of events is. -/
theorem page_of_handleListEvents {table : List EventRow} {filter : EventFilter}
    {rawLimit rawOffset : String} {page : ListPage Model.Event}
    (h : handleListEvents table filter rawLimit rawOffset (some page)) :
    page.total = table.countP (eventWhere filter) ∧
      ∃ sorted, Ranked (fun r => r.ts.format) (table.filter (eventWhere filter)) sorted ∧
        page.entries = ((sorted.drop (pageWindow rawLimit rawOffset pageDefault).2).take
          (pageWindow rawLimit rawOffset pageDefault).1).map EventRow.scan := by
  obtain ⟨events, hevents, hpage⟩ := h
  obtain ⟨n, hcount, hrest⟩ := Option.bind_eq_some_iff.mp hpage.symm
  obtain ⟨entries, rfl, hlast⟩ := Option.bind_eq_some_iff.mp hrest
  obtain rfl := Option.some.inj hlast
  rw [CountEvents] at hcount
  split_ifs at hcount with hvalid
  rw [ListEvents, if_pos hvalid] at hevents
  obtain ⟨rows, ⟨sorted, hsorted, rfl⟩, hentries⟩ := hevents
  exact ⟨(Option.some.inj hcount).symm, sorted, hsorted, Option.some.inj hentries⟩

/-- A search with valid arguments has an answer. -/
theorem exists_searchLogs {rt : Runtime} (table : List LogRow) {filter : LogSearchFilter}
    (hvalid : logArgsValid rt filter = true) (rawLimit rawOffset : String) :
    ∃ page, handleSearchLogs rt table filter rawLimit rawOffset (some page) :=
  ⟨_, _, _, LogQuery.answered hvalid rfl,
    LogQuery.answered hvalid ⟨_, ⟨_, ranked_rankStable _ _, rfl⟩, rfl⟩, rfl⟩

/-- A page of the log search is answered, if the store takes the texts and no pattern is an
error. -/
theorem answered_searchLogs {rt : Runtime} {table : List LogRow} {filter : LogSearchFilter}
    (hvalid : logArgsValid rt filter = true)
    (hpatterns : ∀ r ∈ table, containerFails filter r = false) (rawLimit rawOffset : String) :
    PageAnswered (handleSearchLogs rt table filter rawLimit rawOffset) := by
  refine ⟨exists_searchLogs table hvalid rawLimit rawOffset, ?_⟩
  rintro ⟨total, logs, hcount, hsearch, hnone⟩
  cases total with
  | none => exact LogQuery.not_none hvalid hpatterns hcount
  | some n =>
    cases logs with
    | none => exact LogQuery.not_none hvalid hpatterns hsearch
    | some entries => exact absurd hnone.symm (Option.some_ne_none _)

/-- A page of the list of events is answered, if the store takes the text. -/
theorem answered_listEvents {table : List EventRow} {filter : EventFilter}
    (hvalid : validText filter.entityUID = true) (rawLimit rawOffset : String) :
    PageAnswered (handleListEvents table filter rawLimit rawOffset) := by
  simp only [PageAnswered, handleListEvents, ListEvents, CountEvents, if_pos hvalid]
  constructor
  · exact ⟨_, _, ⟨_, ⟨_, ranked_rankStable _ _, rfl⟩, rfl⟩, rfl⟩
  · rintro ⟨events, ⟨rows, -, rfl⟩, hnone⟩
    exact absurd hnone (Option.some_ne_none _).symm

/-- The pages of the log search. -/
theorem logs_cover {rt : Runtime} {table : List LogRow} {filter : LogSearchFilter} {L : ℕ}
    (hL : 1 ≤ L) (hL' : L ≤ pageMax) (hvalid : logArgsValid rt filter = true)
    (hpatterns : ∀ r ∈ table, containerFails filter r = false)
    (h : Pageable (fun r => r.ts.format) (table.filter (logWhere rt filter)) L) :
    PagesCover (handleSearchLogs rt table filter) L id
      ((table.filter (logWhere rt filter)).map LogRow.scan) := by
  refine ⟨fun k => answered_searchLogs hvalid hpatterns _ _, fun pages hpages => ?_⟩
  have hpage : ∀ k, k * L ≤ offsetMax → (pages k).total = table.countP (logWhere rt filter) ∧
      ∃ sorted, Ranked (fun r => r.ts.format) (table.filter (logWhere rt filter)) sorted ∧
        (pages k).entries = ((sorted.drop (min (k * L) offsetMax)).take L).map LogRow.scan := by
    intro k hk
    obtain ⟨-, hpage⟩ := page_of_handleSearchLogs (hpages k)
    rwa [pageWindow_decimalText hL hL' (lt_of_le_of_lt hk (by decide))] at hpage
  have htotal := (hpage 0 (by omega)).1
  rw [List.countP_eq_length_filter] at htotal
  rw [htotal]
  simp only [List.map_id]
  exact h.cover hL fun k hk => (hpage k (h.reach k hk)).2

/-- The pages of the list of events. -/
theorem events_cover {table : List EventRow} {filter : EventFilter} {L : ℕ} (hL : 1 ≤ L)
    (hL' : L ≤ pageMax) (hvalid : validText filter.entityUID = true)
    (h : Pageable (fun r => r.ts.format) (table.filter (eventWhere filter)) L) :
    PagesCover (handleListEvents table filter) L id
      ((table.filter (eventWhere filter)).map EventRow.scan) := by
  refine ⟨fun k => answered_listEvents hvalid _ _, fun pages hpages => ?_⟩
  have hpage : ∀ k, k * L ≤ offsetMax → (pages k).total = table.countP (eventWhere filter) ∧
      ∃ sorted, Ranked (fun r => r.ts.format) (table.filter (eventWhere filter)) sorted ∧
        (pages k).entries = ((sorted.drop (min (k * L) offsetMax)).take L).map EventRow.scan := by
    intro k hk
    have hpage := page_of_handleListEvents (hpages k)
    rwa [pageWindow_decimalText hL hL' (lt_of_le_of_lt hk (by decide))] at hpage
  have htotal := (hpage 0 (by omega)).1
  rw [List.countP_eq_length_filter] at htotal
  rw [htotal]
  simp only [List.map_id]
  exact h.cover hL fun k hk => (hpage k (h.reach k hk)).2

/-- A scan that is not cut off has all the rows. -/
theorem perm_of_newestPage {ρ : Type} {ts : ρ → Time} {rows out : List ρ}
    (h : NewestPage ts rows traceListScanLimit 0 out) (hrows : rows.length ≤ traceListScanLimit) :
    out.Perm rows := by
  obtain ⟨sorted, hsorted, rfl⟩ := h
  rw [List.drop_zero, List.take_of_length_le (hsorted.1.length_eq.trans_le hrows)]
  exact hsorted.1

/-- The pages of the list of traces. -/
theorem traces_cover {rt : Runtime} {sqlTraceID : LogRow → Option String} {spans : List SpanRow}
    {logs : List LogRow} {filter : TraceListFilter} {L : ℕ} (hL : 1 ≤ L) (hL' : L ≤ pageMax)
    (hids : ∀ r ∈ windowLogs logs filter, (sqlTraceID r).isSome = true)
    (hspans : (windowSpans spans filter).length ≤ traceListScanLimit)
    (hlogs : (windowLogs logs filter).length ≤ traceListScanLimit)
    (h : Pageable Prod.snd
      (windowTraces rt (fun r => (sqlTraceID r).getD "") spans logs filter) L) :
    PagesCover (handleListTraces rt sqlTraceID spans logs filter) L (TraceSummary.listed rt)
      (windowTraces rt (fun r => (sqlTraceID r).getD "") spans logs filter) := by
  set traceID : LogRow → String := fun r => (sqlTraceID r).getD "" with htraceID
  have hresult : ∀ {limit offset : ℕ} {out : Option TracePage},
      ListTracesResult rt sqlTraceID spans logs filter limit offset out ↔
        ∃ page, ListTraces rt traceID spans logs filter limit offset page ∧ out = some page := by
    intro limit offset out
    rw [ListTracesResult, if_pos (List.all_eq_true.mpr hids)]
  constructor
  · intro k
    constructor
    · exact ⟨_, _, hresult.mpr ⟨_, ⟨_, _, _, ⟨_, ranked_rankStable _ _, rfl⟩,
        ⟨_, ranked_rankStable _ _, rfl⟩, ranked_rankStable _ _, rfl⟩, rfl⟩, rfl⟩
    · rintro ⟨out, hout, hnone⟩
      obtain ⟨page, -, rfl⟩ := hresult.mp hout
      exact absurd hnone (Option.some_ne_none _).symm
  intro pages hpages
  -- every page is a cut of one order of the same traces
  have hpage : ∀ k, k * L ≤ offsetMax → ∃ sorted : List TraceSummary,
      Ranked Prod.snd (windowTraces rt traceID spans logs filter)
        (sorted.map (TraceSummary.listed rt)) ∧ (pages k).total = sorted.length ∧
          (pages k).entries = (sorted.drop (min (min (k * L) offsetMax) sorted.length)).take L := by
    intro k hk
    obtain ⟨result, hlist, hout⟩ := hpages k
    rw [pageWindow_decimalText hL hL' (lt_of_le_of_lt hk (by decide))] at hlist hout
    obtain ⟨page, hpage, rfl⟩ := hresult.mp hlist
    obtain ⟨spanRows, logRows, sorted, hspanRows, hlogRows, hsorted, rfl⟩ := hpage
    -- the scan limits cut nothing off, so all row orders give the same traces
    have hwindow : listing filter (scanned rt traceID spanRows logRows) =
        windowTraces rt traceID spans logs filter :=
      listing_eq_of_core (scanned_core rt traceID (perm_of_newestPage hspanRows hspans)
        (perm_of_newestPage hlogRows hlogs))
    have hranked : Ranked Prod.snd (listing filter (scanned rt traceID spanRows logRows))
        (sorted.map (TraceSummary.listed rt)) := by
      rw [← map_listed (keyed_scanned rt traceID spanRows logRows)]
      exact hsorted.map fun _ => rfl
    rw [hwindow] at hranked
    have hpage := Option.some.inj hout
    refine ⟨sorted, hranked, by rw [hpage], ?_⟩
    rw [hpage]
    simp only
    rw [if_neg (by omega), min_eq_left (show L ≤ 200 from hL')]
  have htotal : (pages 0).total = (windowTraces rt traceID spans logs filter).length := by
    obtain ⟨sorted, hranked, htotal, -⟩ := hpage 0 (by omega)
    rw [htotal, ← hranked.1.length_eq, List.length_map]
  suffices ((List.range (pageCount (pages 0).total L)).flatMap fun k =>
      (pages k).entries.map (TraceSummary.listed rt)).Perm
        ((windowTraces rt traceID spans logs filter).map id) by rwa [List.map_id] at this
  rw [htotal]
  refine h.cover hL fun k hk => ?_
  obtain ⟨sorted, hranked, -, hentries⟩ := hpage k (h.reach k hk)
  have hlength : k * L ≤ sorted.length := by
    rw [← hranked.1.length_eq, List.length_map] at hk
    exact hk.le
  refine ⟨_, hranked, ?_⟩
  rw [hentries, min_eq_left (h.reach k hk), min_eq_left hlength, List.map_id, List.map_take,
    List.map_drop]

/-- **Key result.** For pages of 1 to 200 entries and filters of texts that the store takes, without
a container whose pattern is an error for some row, every page is answered. The pages of the log
search and of the list of events have every match once, whatever order the store gives to entries
of one timestamp, if no two of them are on both sides of a page boundary and no page starts beyond
the largest offset. The pages of the list of traces have every trace once, whatever the orders of
rows and of traces are, if the query has an id for each log row, neither scan is cut off and no two
traces of one start are on both sides of a boundary. -/
theorem pages_cover (rt : Runtime) (sqlTraceID : LogRow → Option String) (logs : List LogRow)
    (events : List EventRow) (spans : List SpanRow) {L : ℕ} (hL : 1 ≤ L ∧ L ≤ 200) :
    (∀ filter, logArgsValid rt filter = true →
      (∀ r ∈ logs, containerFails filter r = false) →
      Pageable (fun r => r.ts.format) (logs.filter (logWhere rt filter)) L →
        PagesCover (handleSearchLogs rt logs filter) L id
          ((logs.filter (logWhere rt filter)).map LogRow.scan)) ∧
    (∀ filter, validText filter.entityUID = true →
      Pageable (fun r => r.ts.format) (events.filter (eventWhere filter)) L →
        PagesCover (handleListEvents events filter) L id
          ((events.filter (eventWhere filter)).map EventRow.scan)) ∧
    ∀ filter, (∀ r ∈ windowLogs logs filter, (sqlTraceID r).isSome = true) →
      (windowSpans spans filter).length ≤ 5000 → (windowLogs logs filter).length ≤ 5000 →
      Pageable Prod.snd (windowTraces rt (fun r => (sqlTraceID r).getD "") spans logs filter) L →
        PagesCover (handleListTraces rt sqlTraceID spans logs filter) L (TraceSummary.listed rt)
          (windowTraces rt (fun r => (sqlTraceID r).getD "") spans logs filter) :=
  ⟨fun _ => logs_cover hL.1 hL.2, fun _ => events_cover hL.1 hL.2,
    fun _ => traces_cover hL.1 hL.2⟩

/-- An event without anything but an id and a time. -/
def sampleEvent (id : String) (ts : Time) : EventRow := ⟨id, "", ts, "", "", "", "", ""⟩

/-- A log row of a trace. -/
def sampleTraceRow (ts : Time) (traceID : String) : LogRow :=
  ⟨ts, traceID, "info", "docker:h:shop-api-1", "\x7b\x7d",
    "\x7b\"trace_id\":\"" ++ traceID ++ "\"\x7d"⟩

/-- Two log rows of two traces. -/
def twoTraceRows : List LogRow := [sampleTraceRow ⟨0⟩ "aa11", sampleTraceRow ⟨1000000000⟩ "bb22"]

/-- Two events. -/
def twoEvents : List EventRow := [sampleEvent "a" ⟨0⟩, sampleEvent "b" ⟨1000000000⟩]

/-- The filter of the log search that all rows meet. -/
def anyLog : LogSearchFilter := ⟨"", "", "", [], "", "", "", ⟨0⟩, ⟨0⟩⟩

theorem pageable_two {ρ κ : Type} [LinearOrder κ] {key : ρ → κ} {rows : List ρ} {k : κ}
    (hlength : rows.length = 2) (hcount : rows.countP (fun r => k ≤ key r) = 1) :
    Pageable key rows 1 where
  gap n hn := by
    rw [mul_one, hlength] at hn
    rw [mul_one]
    interval_cases n
    · exact Or.inl rfl
    · exact Or.inr (Or.inr ⟨k, hcount⟩)
  reach n hn := hn.le.trans (hlength.trans_le (by decide))

/-- Pages of one entry, for two log rows, two events and two traces. -/
theorem pages_cover_two :
    PagesCover (handleSearchLogs asciiRuntime twoTraceRows anyLog) 1 id
      (twoTraceRows.map LogRow.scan) ∧
    PagesCover (handleListEvents twoEvents ⟨"", ⟨0⟩, ⟨0⟩⟩) 1 id (twoEvents.map EventRow.scan) ∧
    PagesCover (handleListTraces asciiRuntime (some ∘ fieldTraceID) [] twoTraceRows
      ⟨⟨0⟩, ⟨0⟩, ""⟩) 1 (TraceSummary.listed asciiRuntime)
        [("aa11", ⟨0⟩), ("bb22", ⟨1000000000⟩)] := by
  have h := pages_cover asciiRuntime (some ∘ fieldTraceID) twoTraceRows twoEvents []
    ⟨le_refl 1, by decide⟩
  have hlogs : twoTraceRows.filter (logWhere asciiRuntime anyLog) = twoTraceRows :=
    List.filter_eq_self.mpr fun r hr => by
      rcases List.mem_pair.mp hr with rfl | rfl <;> decide +kernel
  have hevents : twoEvents.filter (eventWhere ⟨"", ⟨0⟩, ⟨0⟩⟩) = twoEvents :=
    List.filter_eq_self.mpr fun r hr => by
      rcases List.mem_pair.mp hr with rfl | rfl <;> decide +kernel
  have htraces : windowTraces asciiRuntime (fun r => ((some ∘ fieldTraceID) r).getD "") []
      twoTraceRows ⟨⟨0⟩, ⟨0⟩, ""⟩ = [("aa11", ⟨0⟩), ("bb22", ⟨1000000000⟩)] := by
    decide +kernel
  refine ⟨?_, ?_, ?_⟩
  · have hcover := h.1 anyLog (by decide +kernel) fun _ _ => rfl
    rw [hlogs] at hcover
    exact hcover (pageable_two (k := (Time.mk 1000000000).format) rfl (by decide +kernel))
  · have hcover := h.2.1 ⟨"", ⟨0⟩, ⟨0⟩⟩ (by decide)
    rw [hevents] at hcover
    exact hcover (pageable_two (k := (Time.mk 1000000000).format) rfl (by decide +kernel))
  · have hcover := h.2.2 ⟨⟨0⟩, ⟨0⟩, ""⟩ (fun _ _ => rfl) (by decide +kernel) (by decide +kernel)
    rw [htraces] at hcover
    exact hcover (pageable_two (k := ⟨1000000000⟩) rfl (by decide +kernel))

/-! ### Beyond the largest offset -/

/-- One event more than the pages of 200 reach, each with an id of its own. -/
def manyEvents : List EventRow :=
  (List.range (100200 + 1)).map fun n => sampleEvent (decimalText n) ⟨0⟩

theorem decimalText_inj {m n : ℕ} (hm : m < 2 ^ 63) (hn : n < 2 ^ 63)
    (h : decimalText m = decimalText n) : m = n := by
  have hatoi := (atoi_decimalText hm).symm.trans ((congrArg atoi h).trans (atoi_decimalText hn))
  exact Int.ofNat_inj.mp (Option.some.inj hatoi)

/-- The ids are a primary key. -/
theorem nodup_manyEvents : (manyEvents.map EventRow.id).Nodup := by
  rw [manyEvents, List.map_map]
  refine List.Nodup.map_on (fun m hm n hn h => ?_) List.nodup_range
  exact decimalText_inj ((List.mem_range.mp hm).trans (by decide))
    ((List.mem_range.mp hn).trans (by decide)) h

/-- The last event of a long list is on no page, although the store keeps one order. -/
theorem last_event_missing : ¬ ∀ (events : List EventRow) (filter : EventFilter) (L : ℕ), 1 ≤ L →
    L ≤ 200 → (events.map EventRow.id).Nodup → validText filter.entityUID = true →
    PagesCover (handleListEvents events filter) L id
      ((events.filter (eventWhere filter)).map EventRow.scan) := by
  intro h
  have hmany : ∀ r ∈ manyEvents, ∃ n ≤ 100200, r = sampleEvent (decimalText n) ⟨0⟩ := by
    intro r hr
    obtain ⟨n, hn, rfl⟩ := List.mem_map.mp hr
    exact ⟨n, Nat.lt_succ_iff.mp (List.mem_range.mp hn), rfl⟩
  have hwhere : ∀ id : String, eventWhere ⟨"", ⟨0⟩, ⟨0⟩⟩ (sampleEvent id ⟨0⟩) = true := by
    intro id
    have hwindow : inWindow ⟨0⟩ ⟨0⟩ ⟨0⟩ = true := by decide +kernel
    simp [eventWhere, sampleEvent, hwindow]
  have hfilter : manyEvents.filter (eventWhere ⟨"", ⟨0⟩, ⟨0⟩⟩) = manyEvents :=
    List.filter_eq_self.mpr fun r hr => by
      obtain ⟨n, -, rfl⟩ := hmany r hr
      exact hwhere _
  have hranked : Ranked (fun r => r.ts.format) manyEvents manyEvents := by
    have hts : ∀ r ∈ manyEvents, r.ts = ⟨0⟩ := fun r hr => by
      obtain ⟨n, -, rfl⟩ := hmany r hr
      rfl
    exact ⟨List.Perm.refl _, List.pairwise_of_forall_mem_list fun a ha b hb => by
      simp only [hts a ha, hts b hb, le_refl]⟩
  let window (k : ℕ) := pageWindow (decimalText 200) (decimalText (k * 200)) pageDefault
  let pages (k : ℕ) : ListPage Model.Event :=
    ⟨((manyEvents.drop (window k).2).take (window k).1).map EventRow.scan,
      manyEvents.countP (eventWhere ⟨"", ⟨0⟩, ⟨0⟩⟩), (window k).1, (window k).2, false⟩
  have hpages : ∀ k, handleListEvents manyEvents ⟨"", ⟨0⟩, ⟨0⟩⟩ (decimalText 200)
      (decimalText (k * 200)) (some (pages k)) := fun k =>
    ⟨some (pages k).entries, ⟨_, ⟨manyEvents, hfilter.symm ▸ hranked, rfl⟩, rfl⟩, rfl⟩
  have hcover := (h manyEvents ⟨"", ⟨0⟩, ⟨0⟩⟩ 200 (by decide) (le_refl 200) nodup_manyEvents
    (by decide)).cover pages hpages
  rw [hfilter] at hcover
  have hlast : (sampleEvent (decimalText 100200) ⟨0⟩).scan ∈ manyEvents.map EventRow.scan :=
    List.mem_map_of_mem (List.mem_map_of_mem (List.mem_range.mpr (Nat.lt_succ_self _)))
  obtain ⟨k, -, hk⟩ := List.mem_flatMap.mp (hcover.mem_iff.mpr hlast)
  rw [List.map_id] at hk
  obtain ⟨r, hr, hscan⟩ := List.mem_map.mp hk
  obtain ⟨hlimit, hoffset⟩ := pageWindow_le (decimalText 200) (decimalText (k * 200)) pageDefault
  have hbound : (window k).2 + (window k).1 ≤ 100200 := Nat.add_le_add hoffset hlimit
  -- the rows of a page are among the first 100200
  rw [List.take_drop, manyEvents, List.range_succ, List.map_append, List.take_append_of_le_length
    (by rw [List.length_map, List.length_range]; exact hbound)] at hr
  obtain ⟨n, hn, rfl⟩ := List.mem_map.mp (List.mem_of_mem_take (List.mem_of_mem_drop hr))
  have hlt := List.mem_range.mp hn
  have hsame := decimalText_inj (hlt.trans (by decide)) (by decide) (congrArg Model.Event.id hscan)
  exact hlt.ne hsame

end Argus
