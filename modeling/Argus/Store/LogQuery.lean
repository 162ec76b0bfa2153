import Argus.Foundations.Placeholders
import Argus.Insights.TracePatterns
import Argus.Time

/-!
# The statements of a log search

`logWhere` writes the condition of a filter piece by piece, each piece with a question mark for
every argument that is appended next to it, and `bind` gives the question marks numbers.
`searchLogs_aligned` says that the numbers are those of the arguments, and that the filter's values
do not get into the statement.
-/

namespace Argus

open Foundations

/-- An argument of a statement. -/
inductive SqlArg where
  | text (bytes : List UInt8)
  | int (n : ℤ)
  deriving DecidableEq

/-- `model.LogSearchFilter`. Its strings come from requests and need not be texts. -/
structure LogQueryFilter where
  query : List UInt8
  entityUID : List UInt8
  container : List UInt8
  containers : List (List UInt8)
  level : List UInt8
  topic : List UInt8
  traceID : List UInt8
  since : Time
  until_ : Time
  limit : ℤ
  offset : ℤ

/-! ### Writing a statement -/

/-- A statement as far as it is written, `clause` and `args`. -/
structure Statement where
  text : String
  args : List SqlArg
  deriving DecidableEq

/-- `clause += text`, and `args = append(args, ...)`. -/
def Statement.add (s : Statement) (text : String) (args : List SqlArg) : Statement :=
  ⟨s.text ++ text, s.args ++ args⟩

/-- A piece with an argument, under a condition. -/
def Statement.addIf (s : Statement) (set : Bool) (text : String) (arg : SqlArg) : Statement :=
  if set then s.add text [arg] else s

/-- A loop over the elements of a list, with `OR` between the pieces. -/
def Statement.addEach {β : Type} (s : Statement) (text : String) (args : β → List SqlArg)
    (l : List β) : Statement :=
  l.zipIdx.foldl (fun s e => (if 0 < e.2 then s.add " OR " [] else s).add text (args e.1)) s

/-- The argument for an instant. -/
def timeArg (t : Time) : SqlArg := .text (bytesOf t.format)

/-- The pattern of a container. -/
def containerArg (container : List UInt8) : SqlArg := .text (bytesOf "%:" ++ container)

/-- The pattern of a topic. -/
def topicArg (topic : List UInt8) : SqlArg :=
  .text (bytesOf "%\"topics\":%\"" ++ topic ++ bytesOf "\"%")

/-- A string that selects: the empty one and `all` do not. -/
def selects (s : List UInt8) : Bool := s ≠ [] && s ≠ bytesOf "all"

section Filter

variable (rt : Runtime) (filter : LogQueryFilter)

/-- `logWhere`. -/
def LogQueryFilter.logWhere : Statement :=
  let s : Statement := ⟨"ts >= ?", [timeArg filter.since]⟩
  let s := s.addIf (!filter.until_.isZero) " AND ts <= ?" (timeArg filter.until_)
  let s := s.addIf (filter.query ≠ []) " AND message ILIKE ?"
    (.text (bytesOf "%" ++ filter.query ++ bytesOf "%"))
  let s := s.addIf (filter.entityUID ≠ []) " AND entity_uid=?" (.text filter.entityUID)
  let s := s.addIf (filter.container ≠ []) " AND entity_uid LIKE ?" (containerArg filter.container)
  let s := s.addIf (selects filter.level) " AND level=?" (.text filter.level)
  let s := s.addIf (selects filter.topic) " AND fields_json LIKE ?" (topicArg filter.topic)
  let patterns := if filter.traceID = [] then [] else traceSearchPatternBytes rt filter.traceID
  let s :=
    if patterns = [] then s
    else
      ((s.add " AND (" []).addEach "(fields_json LIKE ? OR message LIKE ?)"
        (fun p => [.text p, .text p]) patterns).add ")" []
  if filter.containers = [] then s
  else
    ((s.add " AND (" []).addEach "entity_uid LIKE ?" (fun c => [containerArg c])
      filter.containers).add ")" []

/-- What `CountLogs` selects. -/
def selectCount : String := "SELECT count(*) FROM log_entries WHERE "

/-- The statement of `CountLogs`. -/
def LogQueryFilter.countLogs : Statement :=
  let s := filter.logWhere rt
  ⟨selectCount ++ s.text, s.args⟩

/-- The columns that `SearchLogs` reads. -/
def selectLogs : String :=
  "SELECT ts, message, level, entity_uid, labels_json, fields_json FROM log_entries WHERE "

/-- The statement of `SearchLogs`. -/
def LogQueryFilter.searchLogs : Statement :=
  let limit := if filter.limit ≤ 0 then 200 else filter.limit
  let offset := if filter.offset < 0 then 0 else filter.offset
  let s := filter.logWhere rt
  ⟨selectLogs ++ s.text ++ " ORDER BY ts DESC LIMIT ? OFFSET ?",
    s.args ++ [.int limit, .int offset]⟩

end Filter

/-- The loop of `bind`, after so many question marks. -/
def bindFrom : ℕ → List Char → List Char
  | _, [] => []
  | n, r :: rs =>
    if r = '?' then '$' :: (Nat.toDigits 10 (n + 1) ++ bindFrom (n + 1) rs) else r :: bindFrom n rs

/-- `bind`, which `boundDB` does to every statement. -/
def BoundDB.bind (query : String) : String :=
  if !contains query "?" then query else String.ofList (bindFrom 0 query.toList)

/-! ### What a statement is written for -/

section Conditions

/-- A condition with its argument. -/
def condition (set : Bool) (text : String) (arg : SqlArg) : List (Fragment SqlArg) :=
  if set then [.text text.toList, .hole arg] else []

/-- Alternatives in brackets, if there are any. -/
def alternatives {β : Type} (part : β → List (Fragment SqlArg)) (l : List β) :
    List (Fragment SqlArg) :=
  if l = [] then []
  else .text " AND (".toList :: (Fragment.separated [.text " OR ".toList] part l ++
    [.text ")".toList])

/-- The alternative of a pattern of a trace: it is looked for in the fields and in the message. -/
def traceAlternative (p : List UInt8) : List (Fragment SqlArg) :=
  [.text "(fields_json LIKE ".toList, .hole (.text p), .text " OR message LIKE ".toList,
    .hole (.text p), .text ")".toList]

/-- The alternative of a container. -/
def containerAlternative (c : List UInt8) : List (Fragment SqlArg) :=
  [.text "entity_uid LIKE ".toList, .hole (containerArg c)]

variable (rt : Runtime) (filter : LogQueryFilter)

/-- The patterns of the trace of a filter. -/
def LogQueryFilter.patterns : List (List UInt8) := traceSearchPatternBytes rt filter.traceID

/-- The conditions of a filter, each argument where its placeholder stands. -/
def LogQueryFilter.conditions : List (Fragment SqlArg) :=
  [.text "ts >= ".toList, .hole (timeArg filter.since)] ++
  condition (!filter.until_.isZero) " AND ts <= " (timeArg filter.until_) ++
  condition (filter.query ≠ []) " AND message ILIKE "
    (.text (bytesOf "%" ++ filter.query ++ bytesOf "%")) ++
  condition (filter.entityUID ≠ []) " AND entity_uid=" (.text filter.entityUID) ++
  condition (filter.container ≠ []) " AND entity_uid LIKE " (containerArg filter.container) ++
  condition (selects filter.level) " AND level=" (.text filter.level) ++
  condition (selects filter.topic) " AND fields_json LIKE " (topicArg filter.topic) ++
  alternatives traceAlternative (filter.patterns rt) ++
  alternatives containerAlternative filter.containers

/-- The search of a filter. -/
def LogQueryFilter.search : List (Fragment SqlArg) :=
  .text selectLogs.toList :: (filter.conditions rt ++
    [.text " ORDER BY ts DESC LIMIT ".toList,
      .hole (.int (if filter.limit ≤ 0 then 200 else filter.limit)), .text " OFFSET ".toList,
      .hole (.int (if filter.offset < 0 then 0 else filter.offset))])

/-- The count of a filter. -/
def LogQueryFilter.count : List (Fragment SqlArg) :=
  .text selectCount.toList :: filter.conditions rt

/-- Which fields a filter sets, and how many patterns and containers it has. -/
structure LogQueryShape where
  until_ : Bool
  query : Bool
  entityUID : Bool
  container : Bool
  level : Bool
  topic : Bool
  patterns : ℕ
  containers : ℕ
  deriving DecidableEq

/-- The shape of a filter. -/
def LogQueryFilter.shape : LogQueryShape where
  until_ := !filter.until_.isZero
  query := filter.query ≠ []
  entityUID := filter.entityUID ≠ []
  container := filter.container ≠ []
  level := selects filter.level
  topic := selects filter.topic
  patterns := (filter.patterns rt).length
  containers := filter.containers.length

end Conditions

/-! ### The statements are templates -/

/-- A statement is a template, and the arguments of its holes. -/
structure Statement.Renders (s : Statement) (fs : List (Fragment SqlArg)) : Prop where
  text : s.text.toList = Fragment.template fs
  args : s.args = Fragment.arguments fs

section Renders

variable {s : Statement} {fs gs : List (Fragment SqlArg)}

theorem Statement.Renders.add (h : s.Renders fs) {text : String} {args : List SqlArg}
    (htext : text.toList = Fragment.template gs) (hargs : args = Fragment.arguments gs) :
    (s.add text args).Renders (fs ++ gs) where
  text := by rw [Statement.add, String.toList_append, h.text, htext, Fragment.template_append]
  args := by rw [Statement.add, h.args, hargs, Fragment.arguments_append]

theorem Statement.Renders.addText (h : s.Renders fs) (text : String) :
    (s.add text []).Renders (fs ++ [.text text.toList]) :=
  h.add (by simp [Fragment.template]) rfl

theorem Statement.Renders.addIf (h : s.Renders fs) {set : Bool} {text piece : String} {arg : SqlArg}
    (htext : piece.toList = text.toList ++ ['?']) :
    (s.addIf set piece arg).Renders (fs ++ condition set text arg) := by
  rw [Statement.addIf, condition]
  cases set with
  | false => simpa using h
  | true =>
    exact h.add (by simp [htext, Fragment.template]) rfl

/-- The loop writes the pieces with `OR` between them. -/
theorem Statement.Renders.addEach {β : Type} (h : s.Renders fs) {text : String}
    {args : β → List SqlArg} {part : β → List (Fragment SqlArg)}
    (htext : ∀ b, text.toList = Fragment.template (part b))
    (hargs : ∀ b, args b = Fragment.arguments (part b)) (l : List β) :
    (s.addEach text args l).Renders
      (fs ++ Fragment.separated [.text " OR ".toList] part l) := by
  -- after the first piece each one comes with its `OR`
  have hrest : ∀ (l : List β) (i : ℕ) {s : Statement} {fs : List (Fragment SqlArg)},
      s.Renders fs → ((l.zipIdx (i + 1)).foldl (fun s e =>
        (if 0 < e.2 then s.add " OR " [] else s).add text (args e.1)) s).Renders
          (fs ++ l.flatMap fun b => [.text " OR ".toList] ++ part b) := by
    intro l
    induction l with
    | nil =>
      intro i s fs hs
      rwa [List.flatMap_nil, List.append_nil]
    | cons b l ih =>
      intro i s fs hs
      rw [List.zipIdx_cons, List.foldl_cons, List.flatMap_cons, ← List.append_assoc,
        ← List.append_assoc, if_pos (Nat.succ_pos i)]
      exact ih (i + 1) ((hs.addText " OR ").add (htext b) (hargs b))
  rw [Statement.addEach]
  cases l with
  | nil =>
    rw [Fragment.separated, List.append_nil]
    exact h
  | cons b l =>
    rw [List.zipIdx_cons, List.foldl_cons, if_neg (lt_irrefl 0), Fragment.separated,
      ← List.append_assoc]
    exact hrest l 0 (h.add (htext b) (hargs b))

theorem Statement.Renders.addAlternatives {β : Type} (h : s.Renders fs) {text : String}
    {args : β → List SqlArg} {part : β → List (Fragment SqlArg)}
    (htext : ∀ b, text.toList = Fragment.template (part b))
    (hargs : ∀ b, args b = Fragment.arguments (part b)) (l : List β) :
    (if l = [] then s else ((s.add " AND (" []).addEach text args l).add ")" []).Renders
      (fs ++ alternatives part l) := by
  rw [alternatives]
  split_ifs with hl
  · rwa [List.append_nil]
  · have hclose := ((h.addText " AND (").addEach htext hargs l).addText ")"
    rw [List.append_assoc, List.append_assoc] at hclose
    exact hclose

variable (rt : Runtime) (filter : LogQueryFilter)

/-- An id that is not set has no patterns. -/
theorem patterns_eq : (if filter.traceID = [] then [] else
    traceSearchPatternBytes rt filter.traceID) = filter.patterns rt := by
  rw [LogQueryFilter.patterns]
  split_ifs with hid
  · rw [hid]
    simp [traceSearchPatternBytes, trimSpaceBytes, runes]
  · rfl

/-- **The condition is that of the filter**, written as a template. -/
theorem logWhere_renders : (filter.logWhere rt).Renders (filter.conditions rt) := by
  have hsince : (⟨"ts >= ?", [timeArg filter.since]⟩ : Statement).Renders
      [.text "ts >= ".toList, .hole (timeArg filter.since)] := ⟨by simp [Fragment.template], rfl⟩
  have htrace : ∀ p, "(fields_json LIKE ? OR message LIKE ?)".toList =
      Fragment.template (traceAlternative p) := by simp [traceAlternative, Fragment.template]
  have hcontainer : ∀ c, "entity_uid LIKE ?".toList =
      Fragment.template (containerAlternative c) := by
    simp [containerAlternative, Fragment.template]
  rw [LogQueryFilter.logWhere, LogQueryFilter.conditions, patterns_eq]
  refine Statement.Renders.addAlternatives (Statement.Renders.addAlternatives ?_ htrace
    (fun _ => rfl) _) hcontainer (fun _ => rfl) _
  exact (((((hsince.addIf (by decide)).addIf (by decide)).addIf (by decide)).addIf
    (by decide)).addIf (by decide)).addIf (by decide)

theorem searchLogs_renders : (filter.searchLogs rt).Renders (filter.search rt) where
  text := by
    rw [LogQueryFilter.searchLogs, LogQueryFilter.search, String.toList_append,
      String.toList_append, (logWhere_renders rt filter).text, Fragment.template,
      Fragment.template_append, List.append_assoc]
    simp [Fragment.template]
  args := by
    rw [LogQueryFilter.searchLogs, LogQueryFilter.search, (logWhere_renders rt filter).args,
      Fragment.arguments, Fragment.arguments_append]
    rfl

theorem countLogs_renders : (filter.countLogs rt).Renders (filter.count rt) where
  text := by
    rw [LogQueryFilter.countLogs, LogQueryFilter.count, String.toList_append,
      (logWhere_renders rt filter).text, Fragment.template]
  args := by
    rw [LogQueryFilter.countLogs, LogQueryFilter.count, Fragment.arguments]
    exact (logWhere_renders rt filter).args

end Renders

/-! ### Numbers for the question marks -/

theorem bindFrom_text {text : List Char} (h : '?' ∉ text) (n : ℕ) (rest : List Char) :
    bindFrom n (text ++ rest) = text ++ bindFrom n rest := by
  induction text with
  | nil => rfl
  | cons c text ih =>
    rw [List.mem_cons, not_or] at h
    rw [List.cons_append, bindFrom, if_neg (Ne.symm h.1), ih h.2, List.cons_append]

theorem toList_bind (query : String) : (BoundDB.bind query).toList = bindFrom 0 query.toList := by
  rw [BoundDB.bind]
  split_ifs with hmark
  · -- without a question mark the loop copies the statement
    have hnot : '?' ∉ query.toList := by
      intro hmem
      obtain ⟨before, after, hsplit⟩ := List.append_of_mem hmem
      have hcontains : contains query "?" = true :=
        contains_iff.mpr ⟨before, after, by rw [hsplit]; simp⟩
      rw [hcontains] at hmark
      exact absurd hmark (by decide)
    have hcopy := bindFrom_text hnot 0 []
    rw [List.append_nil, bindFrom, List.append_nil] at hcopy
    exact hcopy.symm
  · exact String.toList_ofList

/-- The marks of a template get the numbers of its holes. -/
theorem bindFrom_template {fs : List (Fragment SqlArg)} (h : fs.all Fragment.plain = true) (n : ℕ) :
    bindFrom n (Fragment.template fs) = Fragment.numberedFrom (n + 1) fs := by
  induction fs generalizing n with
  | nil => rfl
  | cons f fs ih =>
    rw [List.all_cons, Bool.and_eq_true] at h
    cases f with
    | text cs =>
      have hmark : '?' ∉ cs := fun hmem =>
        absurd (List.all_eq_true.mp h.1 _ hmem) (by decide)
      rw [Fragment.template, Fragment.numberedFrom, bindFrom_text hmark, ih h.2]
    | hole a => rw [Fragment.template, Fragment.numberedFrom, bindFrom, if_pos rfl, ih h.2]

/-! ### Statements and arguments -/

/-- The statement that is sent is written for these fragments: its placeholders are the numbers from
1 on, one for each argument, and each stands where the fragments have its argument. -/
structure Statement.Aligned (s : Statement) (fs : List (Fragment SqlArg)) : Prop where
  placeholders : Fragment.placeholders (BoundDB.bind s.text).toList = List.range' 1 s.args.length
  text : (BoundDB.bind s.text).toList = Fragment.numberedFrom 1 fs
  args : s.args = Fragment.arguments fs

theorem Statement.Renders.aligned {s : Statement} {fs : List (Fragment SqlArg)} (h : s.Renders fs)
    (hplain : fs.all Fragment.plain = true) : s.Aligned fs := by
  have htext : (BoundDB.bind s.text).toList = Fragment.numberedFrom 1 fs := by
    rw [toList_bind, h.text, bindFrom_template hplain]
  exact ⟨by rw [htext, Fragment.placeholders_numberedFrom hplain, h.args], htext, h.args⟩

theorem plain_condition {set : Bool} {text : String} {arg : SqlArg}
    (h : Fragment.plain (.text text.toList : Fragment SqlArg) = true) :
    (condition set text arg).all Fragment.plain = true := by
  rw [condition]
  cases set with
  | false => rfl
  | true =>
    rw [if_pos rfl, List.all_cons, h]
    rfl

theorem plain_alternatives {β : Type} {part : β → List (Fragment SqlArg)}
    (h : ∀ b, (part b).all Fragment.plain = true) (l : List β) :
    (alternatives part l).all Fragment.plain = true := by
  have hopen : Fragment.plain (.text " AND (".toList : Fragment SqlArg) = true := by decide
  have hor : Fragment.plain (.text " OR ".toList : Fragment SqlArg) = true := by decide
  have hclose : Fragment.plain (.text ")".toList : Fragment SqlArg) = true := by decide
  rw [alternatives]
  split_ifs with hl
  · rfl
  · obtain ⟨b, l, rfl⟩ := List.exists_cons_of_ne_nil hl
    simp only [Fragment.separated, List.all_cons, List.all_append, List.all_flatMap, List.all_nil,
      hopen, hor, hclose, h, Bool.and_true, Bool.true_and, List.all_eq_true, implies_true]

variable (rt : Runtime) (filter : LogQueryFilter)

theorem plain_conditions : (filter.conditions rt).all Fragment.plain = true := by
  have hsince : Fragment.plain (.text "ts >= ".toList : Fragment SqlArg) = true := by decide
  have hpattern : ∀ p, (traceAlternative p).all Fragment.plain = true := fun p => by
    simp only [traceAlternative, List.all_cons, List.all_nil, Fragment.plain, Bool.and_true,
      Bool.true_and]
    decide
  have hcontainer : ∀ c, (containerAlternative c).all Fragment.plain = true := fun c => by
    simp only [containerAlternative, List.all_cons, List.all_nil, Fragment.plain, Bool.and_true]
    decide
  simp only [LogQueryFilter.conditions, List.all_append, List.all_cons, List.all_nil, hsince,
    plain_alternatives hpattern, plain_alternatives hcontainer, Bool.and_true, Bool.true_and,
    Bool.and_eq_true]
  exact ⟨⟨⟨⟨⟨⟨rfl, plain_condition (by decide)⟩, plain_condition (by decide)⟩,
    plain_condition (by decide)⟩, plain_condition (by decide)⟩, plain_condition (by decide)⟩,
    plain_condition (by decide)⟩

/-- Filters of one shape have conditions of one shape. -/
theorem shape_conditions {filter filter' : LogQueryFilter}
    (h : filter'.shape rt = filter.shape rt) :
    (filter'.conditions rt).map Fragment.shape = (filter.conditions rt).map Fragment.shape := by
  have hcondition : ∀ (set : Bool) (text : String) (arg arg' : SqlArg),
      (condition set text arg).map Fragment.shape =
        (condition set text arg').map Fragment.shape := by
    intro set text arg arg'
    cases set with
    | false => rfl
    | true => rfl
  have halternatives : ∀ (part : List UInt8 → List (Fragment SqlArg)),
      (∀ b b', (part b).map Fragment.shape = (part b').map Fragment.shape) →
        ∀ l l' : List (List UInt8), l'.length = l.length →
          (alternatives part l').map Fragment.shape = (alternatives part l).map Fragment.shape := by
    intro part hpart l l' hlength
    have hnil : l' = [] ↔ l = [] := by
      rw [← List.length_eq_zero_iff, hlength, List.length_eq_zero_iff]
    rw [alternatives, alternatives]
    by_cases hl : l = []
    · rw [if_pos hl, if_pos (hnil.mpr hl)]
    · rw [if_neg hl, if_neg (mt hnil.mp hl), List.map_cons, List.map_cons, List.map_append,
        List.map_append, Fragment.shape_separated hpart hlength]
  rw [LogQueryFilter.shape, LogQueryFilter.shape, LogQueryShape.mk.injEq] at h
  obtain ⟨huntil, hquery, hentity, hcontainer, hlevel, htopic, hpatterns, hcontainers⟩ := h
  simp only [LogQueryFilter.conditions, List.map_append]
  rw [huntil, hquery, hentity, hcontainer, hlevel, htopic,
    halternatives traceAlternative (fun _ _ => rfl) _ _ hpatterns,
    halternatives containerAlternative (fun _ _ => rfl) _ _ hcontainers]
  -- the arguments of the other conditions do not matter either
  rw [hcondition _ _ (timeArg filter'.until_) (timeArg filter.until_),
    hcondition _ " AND message ILIKE " _
      (.text (bytesOf "%" ++ filter.query ++ bytesOf "%")),
    hcondition _ _ (.text filter'.entityUID) (.text filter.entityUID),
    hcondition _ _ (containerArg filter'.container) (containerArg filter.container),
    hcondition _ _ (.text filter'.level) (.text filter.level),
    hcondition _ _ (topicArg filter'.topic) (topicArg filter.topic)]
  simp only [List.map_cons, List.map_nil, Fragment.shape]

/-- The statement that `CountLogs` sends is aligned. -/
theorem countLogs_aligned : (filter.countLogs rt).Aligned (filter.count rt) := by
  refine (countLogs_renders rt filter).aligned ?_
  have hselect : Fragment.plain (.text selectCount.toList : Fragment SqlArg) = true := by decide
  rw [LogQueryFilter.count, List.all_cons, plain_conditions, hselect]
  rfl

/-- **Key result.** The statement that `SearchLogs` sends has the placeholders from `$1` on, one for
each argument, and each argument belongs to the placeholder that the conditions have it at. The text
is the same for all filters that set the same fields, with so many patterns and containers. A count
is aligned in the same way. -/
theorem searchLogs_aligned :
    Fragment.placeholders (BoundDB.bind (filter.searchLogs rt).text).toList =
        List.range' 1 (filter.searchLogs rt).args.length ∧
      (BoundDB.bind (filter.searchLogs rt).text).toList =
          Fragment.numberedFrom 1 (filter.search rt) ∧
        (filter.searchLogs rt).args = Fragment.arguments (filter.search rt) ∧
      (∀ filter' : LogQueryFilter, filter'.shape rt = filter.shape rt →
        BoundDB.bind (filter'.searchLogs rt).text = BoundDB.bind (filter.searchLogs rt).text) ∧
        (filter.countLogs rt).Aligned (filter.count rt) := by
  have haligned : ∀ filter : LogQueryFilter, (filter.searchLogs rt).Aligned (filter.search rt) := by
    intro filter
    refine (searchLogs_renders rt filter).aligned ?_
    have hselect : Fragment.plain (.text selectLogs.toList : Fragment SqlArg) = true := by decide
    rw [LogQueryFilter.search, List.all_cons, List.all_append, plain_conditions, hselect]
    simp only [List.all_cons, List.all_nil, Fragment.plain, Bool.and_true, Bool.true_and]
    decide
  obtain ⟨hplaceholders, htext, hargs⟩ := haligned filter
  refine ⟨hplaceholders, htext, hargs, fun filter' h => String.toList_inj.mp ?_,
    countLogs_aligned rt filter⟩
  rw [(haligned filter').text, htext]
  refine Fragment.numberedFrom_eq_of_shape_eq ?_ 1
  rw [LogQueryFilter.search, LogQueryFilter.search, List.map_cons, List.map_cons, List.map_append,
    List.map_append, shape_conditions rt h]
  simp only [List.map_cons, List.map_nil, Fragment.shape]

/-- A search for a text, in some containers. -/
def demoSearch (query : String) (containers : List String) : LogQueryFilter where
  query := bytesOf query
  entityUID := []
  container := []
  containers := containers.map bytesOf
  level := bytesOf "all"
  topic := []
  traceID := []
  since := ⟨63844891200000000000⟩
  until_ := ⟨0⟩
  limit := 50
  offset := 0

/-- The characters of a text that is written out. -/
theorem toList_of_eq_ofList {s : String} {cs : List Char} (h : s = String.ofList cs) :
    s.toList = cs := by
  rw [h, String.toList_ofList]

/-- Marks and numbers in the text of a search are not those of the statement. -/
theorem searchLogs_aligned_marks :
    BoundDB.bind ((demoSearch "?" ["a' OR $9", "?"]).searchLogs asciiRuntime).text =
        "SELECT ts, message, level, entity_uid, labels_json, fields_json FROM log_entries WHERE " ++
          "ts >= $1 AND message ILIKE $2 AND (entity_uid LIKE $3 OR entity_uid LIKE $4)" ++
          " ORDER BY ts DESC LIMIT $5 OFFSET $6" ∧
      BoundDB.bind ((demoSearch "timeout" ["api", "db"]).searchLogs asciiRuntime).text =
        BoundDB.bind ((demoSearch "?" ["a' OR $9", "?"]).searchLogs asciiRuntime).text := by
  obtain ⟨-, htext, -, hsame, -⟩ :=
    searchLogs_aligned asciiRuntime (demoSearch "?" ["a' OR $9", "?"])
  refine ⟨String.toList_inj.mp (htext.trans ?_), hsame _ (by decide +kernel)⟩
  -- `rfl` reads the characters off a text, so that it need not be decoded
  have hselect := toList_of_eq_ofList (s :=
    "SELECT ts, message, level, entity_uid, labels_json, fields_json FROM log_entries WHERE ") rfl
  have hconditions := toList_of_eq_ofList (s :=
    "ts >= $1 AND message ILIKE $2 AND (entity_uid LIKE $3 OR entity_uid LIKE $4)") rfl
  have horder := toList_of_eq_ofList (s := " ORDER BY ts DESC LIMIT $5 OFFSET $6") rfl
  rw [String.toList_append, String.toList_append, hselect, hconditions, horder]
  decide +kernel

end Argus
