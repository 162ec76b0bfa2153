import Argus.Agent.LogTimes
import Argus.Foundations.Segments

/-!
# Log lines of a container

Docker writes a timestamp before each line of a container. `splitDockerTimestamp` takes it off, and
`coalesceLogLines` merges the lines of one event, by the brackets that are open and by what the next
line looks like. A line is a text: bytes that are not part of a character have been decoded before
its bytes are looked at. `coalesceLogLines_conserves` says that the entries are those of
consecutive blocks of the lines that are not blank.
-/

namespace Argus

open Foundations

/-! ### Lines -/

/-- `parsedLine`. -/
structure ParsedLine where
  ts : Time
  message : String
  deriving DecidableEq

/-- `strings.TrimRight(s, "\r")`. -/
def trimRightCR (s : String) : String := String.ofList (s.toList.rdropWhile (· == '\r'))

/-- A text is blank if and only if it is white space. -/
theorem trimSpace_eq_empty_iff {s : String} :
    trimSpace s = "" ↔ ∀ c ∈ s.toList, isSpace c = true := by
  constructor
  · intro h c hc
    obtain ⟨pre, post, hs, hspace⟩ := exists_trimSpace s
    refine hspace c ?_
    rw [hs, h] at hc
    simpa using hc
  · intro h
    rw [trimSpace, List.dropWhile_eq_nil_iff.mpr h]
    rfl

/-- The character that starts at a byte of a text. -/
def byteAt : List Char → ℕ → Option Char
  | [], _ => none
  | c :: _, 0 => some c
  | c :: cs, n + 1 => if n + 1 < c.utf8Size then none else byteAt cs (n + 1 - c.utf8Size)

/-- `splitDockerTimestamp`: the time and the message, unless there is no timestamp. -/
def splitDockerTimestamp (line : String) : Option (Time × String) :=
  if byteLength line < 20 ∨ byteAt line.toList 10 ≠ some 'T' then none
  else
    let stamp := line.toList.takeWhile (· != ' ')
    match line.toList.dropWhile (· != ' ') with
    | [] => none
    | _ :: rest =>
      if stamp = [] then none
      else (Time.parse stamp).map fun ts => (ts, trimSpace (String.ofList rest))

/-- The character at a byte of ASCII text. -/
theorem byteAt_append {cs : List Char} (h : ∀ c ∈ cs, c.toNat < 128) (d : Char) (rest : List Char) :
    byteAt (cs ++ d :: rest) cs.length = some d := by
  induction cs with
  | nil => rfl
  | cons c cs ih =>
    have hsize := utf8Size_ascii (h c List.mem_cons_self)
    rw [List.cons_append, List.length_cons, byteAt, hsize, if_neg (by omega), Nat.add_sub_cancel]
    exact ih fun x hx => h x (List.mem_cons_of_mem _ hx)

/-- A timestamp and a message are taken apart. -/
theorem splitDockerTimestamp_stamp (s : Stamp) (cs : List Char) :
    splitDockerTimestamp (String.ofList (s.text ++ ' ' :: cs)) =
      some (s.time, trimSpace (String.ofList cs)) := by
  obtain ⟨date, clock, htext, hdate, hclock, -⟩ := Time.exists_of_parse s.parse_eq
  have hspace : ∀ c ∈ s.text, (c != ' ') = true := fun c hc =>
    bne_iff_ne.mpr fun heq => s.space_notMem (heq ▸ hc)
  have hbyte : byteAt (s.text ++ ' ' :: cs) 10 = some 'T' := by
    have hascii : ∀ c ∈ date, c.toNat < 128 := fun c hc =>
      s.ascii c (htext ▸ List.mem_append_left _ hc)
    rw [htext, ← hdate, List.append_assoc]
    exact byteAt_append hascii 'T' _
  have hlength : ¬ byteLength (String.ofList (s.text ++ ' ' :: cs)) < 20 := by
    have htake : byteLength (String.ofList s.text) = s.text.length := by
      rw [byteLength_eq_length (by rw [String.toList_ofList]; exact s.ascii), String.toList_ofList]
    have hpos : 1 ≤ byteLength (String.ofList (' ' :: cs)) := by
      rw [byteLength, String.toList_ofList, List.map_cons, List.sum_cons]
      exact Nat.le_add_right_of_le (Char.utf8Size_pos ' ')
    rw [String.ofList_append, byteLength_append, htake, htext, List.length_append,
      List.length_cons]
    omega
  have htake : (s.text ++ ' ' :: cs).takeWhile (· != ' ') = s.text := by
    rw [List.takeWhile_append_of_pos hspace]
    simp
  have hdrop : (s.text ++ ' ' :: cs).dropWhile (· != ' ') = ' ' :: cs := by
    rw [List.dropWhile_append_of_pos hspace]
    rfl
  have hne : s.text ≠ [] := by
    rw [htext]
    simp
  rw [splitDockerTimestamp, String.toList_ofList, hbyte, htake, hdrop,
    if_neg (not_or.mpr ⟨hlength, not_not.mpr rfl⟩)]
  simp only
  rw [if_neg hne, s.parse_eq, Option.map_some]

/-- One round of the loop of `parseLogLines`, for the text of a line. -/
def parseLogText (text : String) : Option ParsedLine :=
  if trimSpace text = "" then none
  else
    match splitDockerTimestamp text with
    | none => some ⟨⟨0⟩, trimRightCR text⟩
    | some (ts, message) => some ⟨ts, message⟩

/-- **A line with a timestamp is read.** -/
theorem parseLogText_stamp (s : Stamp) (cs : List Char) :
    parseLogText (String.ofList (s.text ++ ' ' :: cs)) =
      some ⟨s.time, trimSpace (String.ofList cs)⟩ := by
  have hblank : trimSpace (String.ofList (s.text ++ ' ' :: cs)) ≠ "" := by
    intro h
    have hall := trimSpace_eq_empty_iff.mp h
    rw [String.toList_ofList] at hall
    obtain ⟨date, clock, htext, -⟩ := Time.exists_of_parse s.parse_eq
    have hspace := hall 'T' (List.mem_append_left _ (by rw [htext]; simp))
    exact absurd hspace (by decide)
  rw [parseLogText, if_neg hblank, splitDockerTimestamp_stamp]

theorem trimRightCR_eq_self {s : String} (h : s.toList.getLast? ≠ some '\r') :
    trimRightCR s = s := by
  have hdrop : s.toList.rdropWhile (· == '\r') = s.toList := by
    rw [List.rdropWhile_eq_self_iff]
    intro hne hlast
    refine h ?_
    rw [List.getLast?_eq_some_getLast hne, beq_iff_eq.mp hlast]
  rw [trimRightCR, hdrop, String.ofList_toList]

theorem trimRightCR_trimSpace (s : String) : trimRightCR (trimSpace s) = trimSpace s := by
  refine trimRightCR_eq_self fun h => ?_
  exact absurd (isSpace_of_getLast? h) (by decide)

/-! ### Brackets -/

/-- Where `bracketDepth` is: in a string with this quotation mark, after a backslash, and how many
brackets are open. -/
structure DepthState where
  quote : Option Char
  escape : Bool
  depth : ℤ

/-- One round of the loop of `bracketDepth`. A character beyond ASCII counts as its bytes do. -/
def DepthState.next (s : DepthState) (c : Char) : DepthState :=
  match s.quote with
  | some q =>
    if s.escape then { s with escape := false }
    else if c = '\\' then { s with escape := true }
    else if c = q then { s with quote := none }
    else s
  | none =>
    if c = '"' ∨ c = '\'' then { s with quote := some c }
    else if c = '\x7b' ∨ c = '[' then { s with depth := s.depth + 1 }
    else if c = '\x7d' ∨ c = ']' then { s with depth := s.depth - 1 }
    else s

/-- `bracketDepth`. -/
def bracketDepth (s : String) : ℤ :=
  (s.toList.foldl DepthState.next ⟨none, false, 0⟩).depth

/-- `isBalanced`. -/
def isBalanced (s : String) : Bool := bracketDepth s == 0

/-! ### Merging -/

/-- `hasLeadingTimestamp`. -/
def hasLeadingTimestamp (s : String) : Bool :=
  let cs := s.toList
  let word := cs.takeWhile fun c => c != ' ' && c != '\t'
  (20 ≤ byteLength s && byteAt cs 4 == some '-' && byteAt cs 7 == some '-' &&
      byteAt cs 10 == some 'T' && word.length < cs.length && 10 < byteLength (String.ofList word) &&
      (Time.parse word).isSome) ||
    (15 < byteLength s && byteAt cs 6 == some '/' && byteAt cs 13 == some '.')

/-- `isStandaloneLogLine`. -/
def isStandaloneLogLine (s : String) : Bool :=
  let s := trimSpace s
  if s == "" then false
  else if hasPrefix s "\x7b" && isBalanced s then true
  else hasLeadingTimestamp s

/-- `isIncompleteLog`. -/
def isIncompleteLog (s : String) : Bool :=
  let s := trimSpace s
  if s == "" then false
  else if hasSuffix s "\x7b" || hasSuffix s "[" || hasSuffix s "," then true
  else if contains s "\x7b" || contains s "[" then !isBalanced s
  else 0 < bracketDepth s

/-- `isContinuationLine`. -/
def isContinuationLine (next : String) : Bool :=
  let nextT := trimSpace next
  nextT == "\x7d" || nextT == "]" || hasPrefix next " " || hasPrefix next "\t" ||
    hasPrefix nextT "'$" || (hasPrefix nextT "'" && contains nextT ":") ||
    (hasPrefix nextT "\"" && contains nextT "\":" && !hasPrefix nextT "\x7b")

/-- `shouldMergeLogLines`. -/
def shouldMergeLogLines (prev next : String) : Bool :=
  !isStandaloneLogLine next && isIncompleteLog prev && isContinuationLine next

/-- `flush`, where the clock is read for an entry without a timestamp. -/
def flush (clock : ℕ → Time) (out : List ParsedLine) (cur : Option ParsedLine) : List ParsedLine :=
  match cur with
  | none => out
  | some cur =>
    let message := trimSpace cur.message
    if message = "" then out
    else out ++ [⟨if cur.ts.isZero then clock out.length else cur.ts, message⟩]

/-- One round of the loop of `coalesceLogLines`. -/
def coalesceStep (clock : ℕ → Time) (s : List ParsedLine × Option ParsedLine) (line : ParsedLine) :
    List ParsedLine × Option ParsedLine :=
  let message := trimRightCR line.message
  if trimSpace message = "" then s
  else
    match s.2 with
    | none => (s.1, some ⟨line.ts, message⟩)
    | some cur =>
      if shouldMergeLogLines cur.message message then
        (s.1, some { cur with message := cur.message ++ "\n" ++ message })
      else (flush clock s.1 (some cur), some ⟨line.ts, message⟩)

/-- `coalesceLogLines`, where `clock n` is what the clock says when entry `n` is made. -/
def coalesceLogLines (clock : ℕ → Time) (lines : List ParsedLine) : List ParsedLine :=
  let s := lines.foldl (coalesceStep clock) ([], none)
  flush clock s.1 s.2

/-! ### Blocks -/

/-- The lines that are not blank, without the carriage returns at their ends. -/
def nonBlankLines (lines : List ParsedLine) : List ParsedLine :=
  (lines.map fun line => { line with message := trimRightCR line.message }).filter fun line =>
    decide (trimSpace line.message ≠ "")

/-- How lines are merged. -/
def logCutter : Cutter ParsedLine String where
  start line := line.message
  add message line := message ++ "\n" ++ line.message
  joins message line := shouldMergeLogLines message line.message

/-- The messages of a block, joined by newlines. -/
def joinLines (block : List ParsedLine) : String :=
  "\n".intercalate (block.map ParsedLine.message)

/-- The entry of a block. -/
def blockEntry (now : Time) (block : List ParsedLine) : ParsedLine :=
  let ts := (block.head?.map ParsedLine.ts).getD ⟨0⟩
  ⟨if ts.isZero then now else ts, trimSpace (joinLines block)⟩

/-- The entries of some blocks, from the entry with number `n` on. -/
def blockEntries (clock : ℕ → Time) : ℕ → List (List ParsedLine) → List ParsedLine
  | _, [] => []
  | n, block :: blocks => blockEntry (clock n) block :: blockEntries clock (n + 1) blocks

/-- The blocks of some lines. -/
def logBlocks (lines : List ParsedLine) : List (List ParsedLine) :=
  logCutter.cut (nonBlankLines lines)

theorem intercalate_eq (message : String) (lines : List ParsedLine) :
    "\n".intercalate (message :: lines.map ParsedLine.message) =
      lines.foldl logCutter.add message := by
  induction lines generalizing message with
  | nil => rfl
  | cons line lines ih =>
    rw [List.foldl_cons, ← ih]
    rfl

theorem joinLines_singleton (line : ParsedLine) : joinLines [line] = line.message :=
  intercalate_eq line.message []

/-- What a block comes to. -/
theorem value_logCutter {block : List ParsedLine} (h : block ≠ []) :
    logCutter.value block = some (joinLines block) := by
  obtain ⟨line, lines, rfl⟩ := List.exists_cons_of_ne_nil h
  exact congrArg some (intercalate_eq line.message lines).symm

/-- A block is not blank. -/
theorem trimSpace_joinLines_ne {block : List ParsedLine} {line : ParsedLine}
    (hhead : block.head? = some line) (hline : trimSpace line.message ≠ "") :
    trimSpace (joinLines block) ≠ "" := by
  obtain ⟨lines, rfl⟩ := List.head?_eq_some_iff.mp hhead
  have hpre : ∀ (ls : List ParsedLine) (m : String),
      m.toList <+: (ls.foldl logCutter.add m).toList := by
    intro ls
    induction ls with
    | nil => exact fun m => List.prefix_rfl
    | cons l ls ih =>
      intro m
      refine List.IsPrefix.trans ?_ (ih (logCutter.add m l))
      rw [logCutter, String.toList_append, String.toList_append, List.append_assoc]
      exact List.prefix_append _ _
  intro hblank
  refine hline (trimSpace_eq_empty_iff.mpr fun c hc => ?_)
  refine trimSpace_eq_empty_iff.mp hblank c ?_
  rw [joinLines, List.map_cons, intercalate_eq]
  exact (hpre lines line.message).subset hc

theorem nonBlankLines_cons (line : ParsedLine) (lines : List ParsedLine) :
    nonBlankLines (line :: lines) =
      if trimSpace (trimRightCR line.message) = "" then nonBlankLines lines
      else ⟨line.ts, trimRightCR line.message⟩ :: nonBlankLines lines := by
  rw [nonBlankLines, List.map_cons, List.filter_cons]
  split_ifs with h₁ h₂ h₂
  · exact absurd h₂ (of_decide_eq_true h₁)
  · rfl
  · rfl
  · exact absurd (decide_eq_true h₂) h₁

/-- What `flush` adds for a block. -/
theorem flush_block (clock : ℕ → Time) (out : List ParsedLine) {block : List ParsedLine}
    {line : ParsedLine} (hhead : block.head? = some line) (hline : trimSpace line.message ≠ "") :
    flush clock out (some ⟨line.ts, joinLines block⟩) =
      out ++ [blockEntry (clock out.length) block] := by
  rw [flush, blockEntry, hhead]
  exact if_neg (trimSpace_joinLines_ne hhead hline)

section

variable {clock : ℕ → Time} {out : List ParsedLine} {ts : Time} {message : String}
  {line : ParsedLine}

theorem coalesceStep_blank {s : List ParsedLine × Option ParsedLine}
    (h : trimSpace (trimRightCR line.message) = "") : coalesceStep clock s line = s := by
  rw [coalesceStep, if_pos h]

theorem coalesceStep_first (h : trimSpace (trimRightCR line.message) ≠ "") :
    coalesceStep clock (out, none) line = (out, some ⟨line.ts, trimRightCR line.message⟩) := by
  rw [coalesceStep, if_neg h]

theorem coalesceStep_merge (h : trimSpace (trimRightCR line.message) ≠ "")
    (hmerge : shouldMergeLogLines message (trimRightCR line.message) = true) :
    coalesceStep clock (out, some ⟨ts, message⟩) line =
      (out, some ⟨ts, message ++ "\n" ++ trimRightCR line.message⟩) := by
  rw [coalesceStep, if_neg h]
  exact if_pos hmerge

theorem coalesceStep_flush (h : trimSpace (trimRightCR line.message) ≠ "")
    (hmerge : ¬ shouldMergeLogLines message (trimRightCR line.message) = true) :
    coalesceStep clock (out, some ⟨ts, message⟩) line =
      (flush clock out (some ⟨ts, message⟩), some ⟨line.ts, trimRightCR line.message⟩) := by
  rw [coalesceStep, if_neg h]
  exact if_neg hmerge

end

/-- A block grows by a line. -/
theorem joinLines_concat {block : List ParsedLine} (h : block ≠ []) (line : ParsedLine) :
    joinLines (block ++ [line]) = joinLines block ++ "\n" ++ line.message := by
  have hvalue := Cutter.value_concat (value_logCutter h) line
  rw [value_logCutter (List.append_ne_nil_of_left_ne_nil h _)] at hvalue
  exact Option.some.inj hvalue

/-- One round for the lines that are cut after an open block. -/
theorem joins_logCutter (message : String) (line : ParsedLine) :
    logCutter.joins message line = shouldMergeLogLines message line.message := by
  rw [logCutter]

theorem cutFrom_logCutter (message : String) (block lines : List ParsedLine) (line : ParsedLine) :
    logCutter.cutFrom message block (line :: lines) =
      if shouldMergeLogLines message line.message then
        logCutter.cutFrom (message ++ "\n" ++ line.message) (block ++ [line]) lines
      else block :: logCutter.cutFrom line.message [line] lines := by
  rw [Cutter.cutFrom, joins_logCutter]
  rfl

theorem nonBlankLines_append (lines more : List ParsedLine) :
    nonBlankLines (lines ++ more) = nonBlankLines lines ++ nonBlankLines more := by
  rw [nonBlankLines, List.map_append, List.filter_append]
  rfl

theorem blockEntries_append (clock : ℕ → Time) (n : ℕ) (blocks more : List (List ParsedLine)) :
    blockEntries clock n (blocks ++ more) =
      blockEntries clock n blocks ++ blockEntries clock (n + blocks.length) more := by
  induction blocks generalizing n with
  | nil => rfl
  | cons block blocks ih =>
    rw [List.cons_append, blockEntries, blockEntries, ih, List.length_cons,
      Nat.succ_add_eq_add_succ]
    rfl

/-- An entry is that of a block, with what the clock says at its place. -/
theorem exists_of_mem_blockEntries {clock : ℕ → Time} {n : ℕ} {blocks : List (List ParsedLine)}
    {line : ParsedLine} (h : line ∈ blockEntries clock n blocks) :
    ∃ i block, i < n + blocks.length ∧ block ∈ blocks ∧ line = blockEntry (clock i) block := by
  induction blocks generalizing n with
  | nil => exact absurd h List.not_mem_nil
  | cons block blocks ih =>
    rcases List.mem_cons.mp h with rfl | h
    · exact ⟨n, block, by simp, List.mem_cons_self, rfl⟩
    · obtain ⟨i, block', hi, hmem, hline⟩ := ih h
      exact ⟨i, block', by rw [List.length_cons]; omega, List.mem_cons_of_mem _ hmem, hline⟩

/-- The messages of entries. -/
theorem map_message_blockEntries (clock : ℕ → Time) (n : ℕ) (blocks : List (List ParsedLine)) :
    (blockEntries clock n blocks).map ParsedLine.message =
      blocks.map fun block => trimSpace (joinLines block) := by
  induction blocks generalizing n with
  | nil => rfl
  | cons block blocks ih =>
    rw [blockEntries, List.map_cons, List.map_cons, ih]
    rfl

/-- The loop after an open block. -/
theorem foldl_coalesceStep (clock : ℕ → Time) (lines out : List ParsedLine)
    {block : List ParsedLine} {line : ParsedLine} (hhead : block.head? = some line)
    (hline : trimSpace line.message ≠ "") :
    flush clock (lines.foldl (coalesceStep clock) (out, some ⟨line.ts, joinLines block⟩)).1
        (lines.foldl (coalesceStep clock) (out, some ⟨line.ts, joinLines block⟩)).2 =
      out ++ blockEntries clock out.length
        (logCutter.cutFrom (joinLines block) block (nonBlankLines lines)) := by
  induction lines generalizing out block line with
  | nil =>
    rw [List.foldl_nil, flush_block clock out hhead hline]
    rfl
  | cons next lines ih =>
    have hblock : block ≠ [] := by
      rintro rfl
      exact absurd hhead (by simp)
    rw [List.foldl_cons, nonBlankLines_cons]
    split_ifs with hblank
    · rw [coalesceStep_blank hblank]
      exact ih out hhead hline
    · rw [cutFrom_logCutter]
      split_ifs with hmerge
      · rw [coalesceStep_merge hblank hmerge]
        have hgrow := joinLines_concat hblock ⟨next.ts, trimRightCR next.message⟩
        have hhead' : (block ++ [(⟨next.ts, trimRightCR next.message⟩ : ParsedLine)]).head? =
            some line := by
          rw [List.head?_append, hhead, Option.some_or]
        have hrest := ih out hhead' hline
        rw [hgrow] at hrest
        exact hrest
      · rw [coalesceStep_flush hblank hmerge, flush_block clock out hhead hline]
        have hhead' : [(⟨next.ts, trimRightCR next.message⟩ : ParsedLine)].head? =
            some ⟨next.ts, trimRightCR next.message⟩ := List.head?_cons
        have hrest := ih (out ++ [blockEntry (clock out.length) block]) hhead' hblank
        rw [joinLines_singleton] at hrest
        rw [hrest, List.length_append, List.length_singleton, List.append_assoc,
          List.singleton_append, blockEntries]

/-- **The entries are those of the blocks.** -/
theorem coalesceLogLines_eq (clock : ℕ → Time) (lines : List ParsedLine) :
    coalesceLogLines clock lines = blockEntries clock 0 (logBlocks lines) := by
  rw [coalesceLogLines, logBlocks]
  induction lines with
  | nil => rfl
  | cons line lines ih =>
    rw [List.foldl_cons, nonBlankLines_cons]
    split_ifs with hblank
    · rw [coalesceStep_blank hblank]
      exact ih
    · rw [coalesceStep_first hblank]
      have hhead : [(⟨line.ts, trimRightCR line.message⟩ : ParsedLine)].head? =
          some ⟨line.ts, trimRightCR line.message⟩ := List.head?_cons
      have hrest := foldl_coalesceStep clock lines [] hhead hblank
      rw [joinLines_singleton] at hrest
      exact hrest

/-- **Key result.** The entries are those of consecutive blocks of the lines that are not blank. The
blocks are all of these lines in order, no block is empty, a line within a block is merged into what
comes before it in the block, and the first line of a block is not merged into the block before. -/
theorem coalesceLogLines_conserves (clock : ℕ → Time) (lines : List ParsedLine) :
    ∃ blocks : List (List ParsedLine),
      blocks.flatten = nonBlankLines lines ∧ (∀ block ∈ blocks, block ≠ []) ∧
      (∀ block ∈ blocks, ∀ before line after, block = before ++ line :: after → before ≠ [] →
        shouldMergeLogLines (joinLines before) line.message = true) ∧
      (∀ before block next after, blocks = before ++ block :: next :: after →
        ∀ line, next.head? = some line →
          shouldMergeLogLines (joinLines block) line.message = false) ∧
      coalesceLogLines clock lines = blockEntries clock 0 blocks := by
  have hcuts : logCutter.Cuts (nonBlankLines lines) (logBlocks lines) := Cutter.cuts_cut _
  refine ⟨logBlocks lines, hcuts.flatten, hcuts.ne_nil, ?_, ?_, coalesceLogLines_eq clock lines⟩
  · intro block hblock before line after heq hbefore
    rw [← joins_logCutter]
    exact hcuts.joined block hblock before line after heq _ (value_logCutter hbefore)
  · intro before block next after heq line hline
    have hblock : block ≠ [] := hcuts.ne_nil block (by rw [heq]; simp)
    rw [← joins_logCutter]
    exact hcuts.cut before block next after heq _ (value_logCutter hblock) line hline

end Argus
