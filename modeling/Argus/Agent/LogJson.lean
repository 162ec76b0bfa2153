import Argus.Agent.LogScan

/-!
# JSON in the logs of a container

A container that writes JSON on several lines writes one record for each line. The lines after the
first one are merged into it if each of them looks like a continuation, which
`continues` says of the value: an array holds only strings that look like a member, and an array or
an object with members is the last one where it is. A line that looks like one of an access log
starts an entry of its own wherever it stands. `mergesJson_iff` says that there is nothing else: the
brackets that are open never let a line go.
-/

namespace Argus

open Foundations DepthState

/-! ### Texts without white space around them -/

/-- A text that does not start with white space. -/
def StartsNeat (cs : List Char) : Prop := ∃ c, cs.head? = some c ∧ isSpace c = false

/-- A text that does not end with white space. -/
def EndsNeat (cs : List Char) : Prop := ∃ c, cs.getLast? = some c ∧ isSpace c = false

/-- A text that neither starts nor ends with white space. -/
structure Neat (cs : List Char) : Prop where
  starts : StartsNeat cs
  ends : EndsNeat cs

theorem neat_singleton {c : Char} (h : isSpace c = false) : Neat [c] := ⟨⟨c, rfl, h⟩, ⟨c, rfl, h⟩⟩

theorem StartsNeat.append {cs : List Char} (h : StartsNeat cs) (ds : List Char) :
    StartsNeat (cs ++ ds) := by
  obtain ⟨c, hc, hspace⟩ := h
  exact ⟨c, by rw [List.head?_append, hc, Option.some_or], hspace⟩

theorem EndsNeat.append {ds : List Char} (h : EndsNeat ds) (cs : List Char) :
    EndsNeat (cs ++ ds) := by
  obtain ⟨c, hc, hspace⟩ := h
  exact ⟨c, by rw [List.getLast?_append, hc, Option.some_or], hspace⟩

/-- White space before a neat text is trimmed off. -/
theorem trimSpace_neat {cs : List Char} (h : Neat cs) (blank : List Char)
    (hblank : ∀ c ∈ blank, isSpace c = true) :
    trimSpace (String.ofList (blank ++ cs)) = String.ofList cs := by
  obtain ⟨c, hc, hcspace⟩ := h.starts
  obtain ⟨e, he, hespace⟩ := h.ends
  obtain ⟨rest, rfl⟩ := List.head?_eq_some_iff.mp hc
  rw [trimSpace, String.toList_ofList, List.dropWhile_append_of_pos hblank,
    List.dropWhile_cons_of_neg (by simp [hcspace])]
  rw [← List.head?_reverse] at he
  obtain ⟨init, hinit⟩ := List.head?_eq_some_iff.mp he
  rw [hinit, List.dropWhile_cons_of_neg (by simp [hespace]), ← hinit, List.reverse_reverse]

theorem trimSpace_of_neat {cs : List Char} (h : Neat cs) :
    trimSpace (String.ofList cs) = String.ofList cs := by
  have htrim := trimSpace_neat h [] fun _ hc => absurd hc List.not_mem_nil
  rwa [List.nil_append] at htrim

theorem neat_of_all {cs : List Char} (hne : cs ≠ []) (h : ∀ c ∈ cs, isSpace c = false) : Neat cs :=
  ⟨⟨_, List.head?_eq_some_head hne, h _ (List.head_mem hne)⟩,
    ⟨_, List.getLast?_eq_some_getLast hne, h _ (List.getLast_mem hne)⟩⟩

theorem neat_quote (E : Escape) (s : String) : Neat (E.quote s) := by
  have hmark : isSpace '"' = false := by decide
  exact ⟨⟨'"', rfl, hmark⟩, EndsNeat.append ⟨'"', rfl, hmark⟩ ('"' :: s.toList.flatMap E.write)⟩

theorem isSpace_of_numberChar {c : Char} (h : numberChar c = true) : isSpace c = false := by
  have hchar : c.isDigit = true ∨ c ∈ ['.', 'e', 'E', '+', '-'] := by
    simpa [numberChar, continuesNumber, or_assoc] using h
  rcases hchar with hdigit | hmark
  · obtain ⟨hlo, hhi⟩ := isDigit_iff.mp hdigit
    exact isSpace_eq_false hlo (hhi.trans (by decide))
  · have hall : ∀ x ∈ ['.', 'e', 'E', '+', '-'], isSpace x = false :=
      forall_mem_of_all (by decide)
    exact hall c hmark

theorem neat_number (n : Number) : Neat n.text := by
  obtain ⟨c, t, htext, -⟩ := n.text_eq_cons
  refine neat_of_all (htext ▸ List.cons_ne_nil c t) fun x hx => ?_
  exact isSpace_of_numberChar (Number.numberChar_of_mem hx)

/-- A value on one line is neat. -/
theorem neat_render (E : Escape) {v : Json} (h : v.isFlat = true) : Neat (Json.render E v) := by
  rcases v with - | b | n | s | (- | ⟨x, l⟩) | (- | ⟨⟨k, x⟩, l⟩)
  · rw [Json.render]
    exact neat_of_all (by decide) (forall_mem_of_all (by decide))
  · cases b
    · rw [Json.render]
      exact neat_of_all (by decide) (forall_mem_of_all (by decide))
    · rw [Json.render]
      exact neat_of_all (by decide) (forall_mem_of_all (by decide))
  · rw [Json.render]
    exact neat_number n
  · rw [Json.render]
    exact neat_quote E s
  · rw [Json.render]
    exact neat_of_all (by decide) (forall_mem_of_all (by decide))
  · exact absurd h Bool.false_ne_true
  · rw [Json.render]
    exact neat_of_all (by decide) (forall_mem_of_all (by decide))
  · exact absurd h Bool.false_ne_true

/-- A value on one line leaves the count of brackets where it was. -/
theorem scan_render (E : Escape) {v : Json} (h : v.isFlat = true) (d : ℤ) (rest : List Char) :
    (outside d).scan (Json.render E v ++ rest) = (outside d).scan rest := by
  rcases v with - | b | n | s | (- | ⟨x, l⟩) | (- | ⟨⟨k, x⟩, l⟩)
  · rw [Json.render, scan_append, scan_plain (forall_mem_of_all (by decide))]
  · cases b
    · rw [Json.render, scan_append, scan_plain (forall_mem_of_all (by decide))]
    · rw [Json.render, scan_append, scan_plain (forall_mem_of_all (by decide))]
  · rw [Json.render, scan_append,
      scan_plain fun c hc => isPlain_of_numberChar (Number.numberChar_of_mem hc)]
  · rw [Json.render, scan_quote]
  · rw [Json.render, scan_append]
    simp [next, outside]
  · exact absurd h Bool.false_ne_true
  · rw [Json.render, scan_append]
    simp [next, outside]
  · exact absurd h Bool.false_ne_true

/-! ### Nested lines -/

/-- How many more brackets a line opens than it closes. -/
def net (cs : List Char) : ℤ := ((outside 0).scan cs).depth

/-- Lines that are neat and end outside of strings, and whose brackets are nested. -/
structure Nested (ls : List (List Char)) : Prop where
  neat : ∀ cs ∈ ls, Neat cs
  scan : ∀ cs ∈ ls, ∀ d, (outside d).scan cs = outside (d + net cs)
  total : (ls.map net).sum = 0
  nonneg : ∀ n, 0 ≤ ((ls.take n).map net).sum

theorem net_eq {cs : List Char} {k : ℤ} (h : ∀ d, (outside d).scan cs = outside (d + k)) :
    net cs = k := by
  rw [net, h, zero_add]
  rfl

theorem nested_nil : Nested [] :=
  ⟨fun _ h => absurd h List.not_mem_nil, fun _ h => absurd h List.not_mem_nil, rfl,
    fun n => by rw [List.take_nil]; exact le_rfl⟩

theorem Nested.append {ls ms : List (List Char)} (h : Nested ls) (h' : Nested ms) :
    Nested (ls ++ ms) := by
  refine ⟨List.forall_mem_append.mpr ⟨h.neat, h'.neat⟩,
    List.forall_mem_append.mpr ⟨h.scan, h'.scan⟩, ?_, fun n => ?_⟩
  · rw [List.map_append, List.sum_append, h.total, h'.total, add_zero]
  · rw [List.take_append, List.map_append, List.sum_append]
    exact add_nonneg (h.nonneg n) (h'.nonneg _)

/-- A line that leaves the count where it was. -/
theorem nested_singleton {cs : List Char} (hneat : Neat cs)
    (hscan : ∀ d, (outside d).scan cs = outside d) : Nested [cs] := by
  have hnet : net cs = 0 := net_eq fun d => by rw [hscan, add_zero]
  refine ⟨fun c hc => List.mem_singleton.mp hc ▸ hneat, fun c hc d => ?_, ?_, fun n => ?_⟩
  · rw [List.mem_singleton.mp hc, hscan, hnet, add_zero]
  · rw [List.map_singleton, List.sum_singleton, hnet]
  · cases n with
    | zero => exact le_rfl
    | succ n =>
      rw [List.take_succ_cons, List.take_nil, List.map_singleton, List.sum_singleton, hnet]

variable {first last : List Char} {body : List (List Char)}

/-- Between the line that opens a bracket and the one that closes it a bracket is open. -/
theorem Nested.sum_take_pos (h : Nested body)
    (hopen : ∀ d, (outside d).scan first = outside (d + 1)) {n : ℕ} (hn : n ≤ body.length) :
    0 < (((first :: (body ++ [last])).take (n + 1)).map net).sum := by
  rw [List.take_succ_cons, List.take_append_of_le_length hn, List.map_cons, List.sum_cons,
    net_eq hopen]
  have := h.nonneg n
  omega

/-- Lines within a bracket. -/
theorem Nested.wrap (h : Nested body) (hfirst : Neat first) (hlast : Neat last)
    (hopen : ∀ d, (outside d).scan first = outside (d + 1))
    (hclose : ∀ d, (outside d).scan last = outside (d + -1)) :
    Nested (first :: (body ++ [last])) := by
  have htotal : ((first :: (body ++ [last])).map net).sum = 0 := by
    rw [List.map_cons, List.sum_cons, List.map_append, List.sum_append, h.total, net_eq hopen,
      List.map_singleton, List.sum_singleton, net_eq hclose]
    rfl
  refine ⟨?_, ?_, htotal, fun n => ?_⟩
  · simp only [List.forall_mem_cons, List.forall_mem_append]
    exact ⟨hfirst, h.neat, hlast, fun _ hc => absurd hc List.not_mem_nil⟩
  · simp only [List.forall_mem_cons, List.forall_mem_append]
    refine ⟨fun d => ?_, h.scan, fun d => ?_, fun _ hc => absurd hc List.not_mem_nil⟩
    · rw [hopen, net_eq hopen]
    · rw [hclose, net_eq hclose]
  · rcases n with - | n
    · exact le_rfl
    · rcases Nat.lt_or_ge body.length n with hlong | hshort
      · rw [List.take_of_length_le (by simpa using Nat.succ_le_of_lt hlong), htotal]
      · exact (h.sum_take_pos hopen hshort).le

/-! ### The lines of a value -/

/-- What stands before and after a value on its line: nothing, or a text that leaves the count of
brackets where it was and does not leave the line with white space around it. -/
structure Around (start stop : List Char) : Prop where
  starts : start = [] ∨ StartsNeat start
  ends : stop = [] ∨ EndsNeat stop
  scan_start : ∀ d rest, (outside d).scan (start ++ rest) = (outside d).scan rest
  scan_stop : ∀ d, (outside d).scan stop = outside d

theorem Around.neat {start stop : List Char} (h : Around start stop) {cs : List Char}
    (hcs : Neat cs) : Neat (start ++ cs ++ stop) := by
  refine ⟨StartsNeat.append ?_ stop, ?_⟩
  · rcases h.starts with rfl | hstart
    · exact hcs.starts
    · exact hstart.append cs
  · rcases h.ends with rfl | hstop
    · rw [List.append_nil]
      exact hcs.ends.append start
    · exact hstop.append (start ++ cs)

theorem scan_label (E : Escape) (key : String) (d : ℤ) (rest : List Char) :
    (outside d).scan (Json.label E key ++ rest) = (outside d).scan rest := by
  rw [Json.label, List.append_assoc, scan_quote, scan_append,
    scan_plain (forall_mem_of_all (by decide))]

theorem scan_comma {α : Type} (l : List α) (d : ℤ) :
    (outside d).scan (Json.comma l) = outside d := by
  rw [Json.comma]
  split_ifs
  · rfl
  · exact scan_plain (forall_mem_of_all (by decide)) d

theorem ends_comma {α : Type} (l : List α) : Json.comma l = [] ∨ EndsNeat (Json.comma l) := by
  rw [Json.comma]
  split_ifs
  · exact .inl rfl
  · exact .inr (neat_singleton (by decide)).ends

theorem around_element (l : List Json) : Around [] (Json.comma l) :=
  ⟨.inl rfl, ends_comma l, fun _ _ => rfl, scan_comma l⟩

theorem around_member (E : Escape) (key : String) (l : List (String × Json)) :
    Around (Json.label E key) (Json.comma l) :=
  ⟨.inr ((neat_quote E key).starts.append _), ends_comma l, scan_label E key, scan_comma l⟩

/-- The texts of the lines of a value. -/
def prettyTexts (E : Escape) (n : ℕ) (start stop : List Char) (v : Json) : List (List Char) :=
  (Json.pretty E n start stop v).map Prod.snd

/-- The lines of a bracket with members. -/
theorem nested_bracket {start stop : List Char} {opening closing : Char}
    {body : List (List Char)} (h : Around start stop) (hbody : Nested body)
    (hopening : isSpace opening = false) (hclosing : isSpace closing = false)
    (hopen : ∀ d, (outside d).next opening = outside (d + 1))
    (hclose : ∀ d, (outside d).next closing = outside (d + -1)) :
    Nested ((start ++ [opening]) :: (body ++ [closing :: stop])) := by
  refine hbody.wrap ?_ ?_ (fun d => ?_) fun d => ?_
  · refine ⟨?_, EndsNeat.append ⟨opening, rfl, hopening⟩ start⟩
    rcases h.starts with rfl | hstart
    · exact ⟨opening, rfl, hopening⟩
    · exact hstart.append _
  · refine ⟨⟨closing, rfl, hclosing⟩, ?_⟩
    rcases h.ends with rfl | hstop
    · exact ⟨closing, rfl, hclosing⟩
    · exact hstop.append [closing]
  · rw [h.scan_start, scan_cons, hopen, scan_nil]
  · rw [scan_cons, hclose, h.scan_stop]

theorem nested_elements {E : Escape} {n : ℕ} {l : List Json}
    (h : ∀ x ∈ l, ∀ after : List Json, Nested (prettyTexts E n [] (Json.comma after) x)) :
    Nested ((Json.prettyElements E n l).map Prod.snd) := by
  induction l with
  | nil => exact nested_nil
  | cons x l ih =>
    rw [Json.prettyElements, List.map_append]
    exact (h x List.mem_cons_self l).append (ih fun y hy => h y (List.mem_cons_of_mem _ hy))

theorem nested_members {E : Escape} {n : ℕ} {l : List (String × Json)}
    (h : ∀ e ∈ l, ∀ after : List (String × Json),
      Nested (prettyTexts E n (Json.label E e.1) (Json.comma after) e.2)) :
    Nested ((Json.prettyMembers E n l).map Prod.snd) := by
  induction l with
  | nil => exact nested_nil
  | cons e l ih =>
    rw [Json.prettyMembers, List.map_append]
    exact (h e List.mem_cons_self l).append (ih fun y hy => h y (List.mem_cons_of_mem _ hy))

/-- **The lines of a value are nested.** -/
theorem nested_pretty (E : Escape) (v : Json) : ∀ {n : ℕ} {start stop : List Char},
    Around start stop → Nested (prettyTexts E n start stop v) := by
  have hflat : ∀ {v : Json} {n : ℕ} {start stop : List Char}, v.isFlat = true →
      Around start stop → Nested (prettyTexts E n start stop v) := by
    intro v n start stop hv h
    rw [prettyTexts, Json.pretty_of_isFlat hv]
    refine nested_singleton (h.neat (neat_render E hv)) fun d => ?_
    rw [List.append_assoc, h.scan_start, scan_render E hv, h.scan_stop]
  induction v using Json.inductionOn with
  | null => exact hflat rfl
  | bool b => exact hflat rfl
  | num n => exact hflat rfl
  | str s => exact hflat rfl
  | arr l ih =>
    intro n start stop h
    have hbody : Nested ((Json.prettyElements E (n + 1) l).map Prod.snd) :=
      nested_elements fun x hx after => ih x hx (around_element after)
    rcases l with - | ⟨x, l⟩
    · exact hflat rfl h
    · rw [prettyTexts, Json.pretty_arr, List.map_cons, List.map_append]
      exact nested_bracket h hbody (by decide) (by decide) (fun d => rfl) fun d => rfl
  | obj l ih =>
    intro n start stop h
    have hbody : Nested ((Json.prettyMembers E (n + 1) l).map Prod.snd) :=
      nested_members fun e he after => ih e he (around_member E e.1 after)
    rcases l with - | ⟨e, l⟩
    · exact hflat rfl h
    · rw [prettyTexts, Json.pretty_obj, List.map_cons, List.map_append]
      exact nested_bracket h hbody (by decide) (by decide) (fun d => rfl) fun d => rfl

theorem nested_document (E : Escape) (v : Json) : Nested (prettyTexts E 0 [] [] v) :=
  nested_pretty E v (around_element [])

/-! ### Open brackets -/

/-- The lines of some messages. -/
def messages (lines : List ParsedLine) : List (List Char) :=
  lines.map fun line => line.message.toList

/-- The brackets of messages that are joined. -/
theorem scan_joinLines {block : List ParsedLine}
    (h : ∀ cs ∈ messages block, ∀ d, (outside d).scan cs = outside (d + net cs)) (d : ℤ) :
    (outside d).scan (joinLines block).toList = outside (d + ((messages block).map net).sum) := by
  induction block using List.reverseRecOn with
  | nil => exact congrArg outside (add_zero d).symm
  | append_singleton block line ih =>
    rw [messages, List.map_append] at h
    obtain ⟨hblock, hline⟩ := List.forall_mem_append.mp h
    have hlast := hline line.message.toList (List.mem_singleton_self _)
    rw [messages, List.map_append, List.map_append, List.sum_append, List.map_singleton,
      List.map_singleton, List.sum_singleton]
    rcases List.eq_nil_or_concat block with rfl | ⟨init, last, hinit⟩
    · rw [List.nil_append, joinLines_singleton, hlast, List.map_nil, List.map_nil, List.sum_nil,
        zero_add]
    · have hne : block ≠ [] := by
        rw [hinit, List.concat_eq_append]
        exact List.concat_ne_nil _ _
      have hnewline : "\n".toList = ['\n'] := by decide
      rw [joinLines_concat hne, String.toList_append, String.toList_append, scan_append,
        scan_append, ih hblock, hnewline, scan_plain (forall_mem_of_all (by decide)), hlast,
        ← messages, add_assoc]

/-- Messages that are neat are neat when they are joined. -/
theorem neat_joinLines {block : List ParsedLine} (hne : block ≠ [])
    (h : ∀ cs ∈ messages block, Neat cs) :
    Neat (joinLines block).toList ∧
      (joinLines block).toList.head? = (messages block).head?.bind List.head? := by
  induction block using List.reverseRecOn with
  | nil => exact absurd rfl hne
  | append_singleton block line ih =>
    rw [messages, List.map_append] at h
    obtain ⟨hblock, hline⟩ := List.forall_mem_append.mp h
    have hlast := hline line.message.toList (List.mem_singleton_self _)
    rcases List.eq_nil_or_concat block with rfl | ⟨init, last, hinit⟩
    · rw [List.nil_append, joinLines_singleton]
      exact ⟨hlast, rfl⟩
    · have hne' : block ≠ [] := by
        rw [hinit, List.concat_eq_append]
        exact List.concat_ne_nil _ _
      obtain ⟨hneat, hhead⟩ := ih hne' hblock
      rw [joinLines_concat hne', String.toList_append, String.toList_append, List.append_assoc]
      refine ⟨⟨hneat.starts.append _, ?_⟩, ?_⟩
      · rw [← List.append_assoc]
        exact hlast.ends.append _
      · obtain ⟨c, hc, -⟩ := hneat.starts
        obtain ⟨first, rest, hfirst⟩ := List.exists_cons_of_ne_nil hne'
        rw [List.head?_append, hc, Option.some_or, ← hc, hhead, hfirst]
        rfl

/-- A text that starts with a bracket and leaves one open goes on. -/
theorem isIncompleteLog_of_open {s : String} (hneat : Neat s.toList)
    (hhead : s.toList.head? = some '\x7b' ∨ s.toList.head? = some '[')
    (hopen : 0 < bracketDepth s) : isIncompleteLog s = true := by
  have htrim : trimSpace s = s := by
    have h := trimSpace_of_neat hneat
    rwa [String.ofList_toList] at h
  have hne : (s == "") = false := by
    rw [beq_eq_false_iff_ne]
    rintro rfl
    obtain ⟨c, hc, -⟩ := hneat.starts
    exact Option.some_ne_none c hc.symm
  have hbracket : (contains s "\x7b" || contains s "[") = true := by
    have hstarts : ∀ {c : Char} {part : String}, part.toList = [c] → s.toList.head? = some c →
        contains s part = true := by
      intro c part hpart hc
      obtain ⟨rest, hrest⟩ := List.head?_eq_some_iff.mp hc
      rw [contains_iff, hpart, hrest]
      exact (List.prefix_append [c] rest).isInfix
    rcases hhead with hbrace | hsquare
    · exact Bool.or_eq_true_iff.mpr (.inl (hstarts (by decide) hbrace))
    · exact Bool.or_eq_true_iff.mpr (.inr (hstarts (by decide) hsquare))
  have hbalanced : isBalanced s = false := beq_eq_false_iff_ne.mpr hopen.ne'
  rw [isIncompleteLog, htrim, hne]
  simp only [hbracket, hbalanced, if_true, Bool.not_false, Bool.false_eq_true, if_false, ite_self]

/-! ### Continuations -/

/-- Whether an element of an array looks like a member of an object: a string whose text has a
quotation mark before a colon. -/
def looksLikeMember (E : Escape) : Json → Bool
  | .str s => contains (String.ofList (E.quote s)) "\":"
  | _ => false

mutual

/-- Whether each line of a value after the first one looks like a continuation. -/
def continues (E : Escape) : Json → Bool
  | .arr l => l.all (looksLikeMember E)
  | .obj l => membersContinue E l
  | _ => true

/-- Whether each line of the members of an object looks like a continuation. -/
def membersContinue (E : Escape) : List (String × Json) → Bool
  | [] => true
  | (_, x) :: l => (x.isFlat || l.isEmpty) && continues E x && membersContinue E l

end

/-- Whether a text looks like a line of an access log, `YYMMDD/HHMMSS.mmm`. -/
def looksLikeAccessLog (s : String) : Bool :=
  15 < byteLength s && byteAt s.toList 6 == some '/' && byteAt s.toList 13 == some '.'

theorem continues_of_isFlat {E : Escape} {v : Json} (h : v.isFlat = true) :
    continues E v = true := by
  rcases v with - | b | n | s | (- | ⟨x, l⟩) | (- | ⟨⟨k, x⟩, l⟩)
  · rfl
  · rfl
  · rfl
  · rfl
  · rfl
  · exact absurd h Bool.false_ne_true
  · rfl
  · exact absurd h Bool.false_ne_true

theorem hasPrefix_of_head {c d : Char} {cs : List Char} {start : String}
    (hstart : start.toList.head? = some d) (h : d ≠ c) :
    hasPrefix (String.ofList (c :: cs)) start = false := by
  obtain ⟨rest, hrest⟩ := List.head?_eq_some_iff.mp hstart
  rw [hasPrefix, String.toList_ofList, hrest, List.isPrefixOf_cons_cons, beq_eq_false_iff_ne.mpr h,
    Bool.false_and]

theorem ofList_beq (cs : List Char) (s : String) : (String.ofList cs == s) = (cs == s.toList) := by
  rw [Bool.eq_iff_iff, beq_iff_eq, beq_iff_eq]
  constructor
  · rintro rfl
    exact String.toList_ofList.symm
  · rintro rfl
    exact String.ofList_toList

/-- Which lines look like a continuation, of those that do not start with an apostrophe. -/
theorem isContinuationLine_eq {c : Char} {cs : List Char} (h : Neat (c :: cs)) (hc : c ≠ '\'') :
    isContinuationLine (String.ofList (c :: cs)) =
      (c :: cs == ['\x7d'] || c :: cs == [']'] ||
        (c == '"' && contains (String.ofList (c :: cs)) "\":")) := by
  obtain ⟨d, hd, hspace⟩ := h.starts
  obtain rfl : c = d := Option.some.inj hd
  have hblank : c ≠ ' ' ∧ c ≠ '\t' := by
    constructor
    · rintro rfl
      exact absurd hspace (by decide)
    · rintro rfl
      exact absurd hspace (by decide)
  have hsp : hasPrefix (String.ofList (c :: cs)) " " = false :=
    hasPrefix_of_head (by decide) hblank.1.symm
  have htab : hasPrefix (String.ofList (c :: cs)) "\t" = false :=
    hasPrefix_of_head (by decide) hblank.2.symm
  have hdollar : hasPrefix (String.ofList (c :: cs)) "'$" = false :=
    hasPrefix_of_head (by decide) hc.symm
  have hquote : hasPrefix (String.ofList (c :: cs)) "'" = false :=
    hasPrefix_of_head (by decide) hc.symm
  have hdouble : (hasPrefix (String.ofList (c :: cs)) "\"" &&
      contains (String.ofList (c :: cs)) "\":" && !hasPrefix (String.ofList (c :: cs)) "\x7b") =
        (c == '"' && contains (String.ofList (c :: cs)) "\":") := by
    by_cases hmark : c = '"'
    · subst hmark
      have hpre : hasPrefix (String.ofList ('"' :: cs)) "\"" = true := by
        have hlist : (String.ofList ('"' :: cs)).toList = '"' :: cs := String.toList_ofList
        rw [hasPrefix, List.isPrefixOf_iff_prefix, hlist]
        exact List.prefix_append ['"'] cs
      have hbrace : hasPrefix (String.ofList ('"' :: cs)) "\x7b" = false :=
        hasPrefix_of_head (d := '\x7b') (by decide) (by decide)
      rw [hpre, hbrace]
      simp
    · have hpre : hasPrefix (String.ofList (c :: cs)) "\"" = false :=
        hasPrefix_of_head (by decide) (Ne.symm hmark)
      rw [hpre, beq_eq_false_iff_ne.mpr hmark, Bool.false_and, Bool.false_and]
  have hbrace : "\x7d".toList = ['\x7d'] := by decide
  have hsquare : "]".toList = [']'] := by decide
  rw [isContinuationLine, trimSpace_of_neat h]
  simp only [hsp, htab, hdollar, hquote, hdouble, ofList_beq, hbrace, hsquare, Bool.or_false,
    Bool.false_and]

/-- A member of an object looks like a continuation. -/
theorem isContinuationLine_label (E : Escape) (key : String) (rest : List Char)
    (h : Neat (Json.label E key ++ rest)) :
    isContinuationLine (String.ofList (Json.label E key ++ rest)) = true := by
  have hcons : Json.label E key ++ rest =
      '"' :: (key.toList.flatMap E.write ++ ['"', ':', ' '] ++ rest) := by
    rw [Json.label, Escape.quote]
    simp
  have hcolon : "\":".toList = ['"', ':'] := by decide
  rw [hcons] at h ⊢
  rw [isContinuationLine_eq h (by decide)]
  have hcontains : contains (String.ofList ('"' :: (key.toList.flatMap E.write ++
      ['"', ':', ' '] ++ rest))) "\":" = true := by
    rw [contains_iff, hcolon, String.toList_ofList]
    exact ⟨'"' :: key.toList.flatMap E.write, ' ' :: rest, by simp⟩
  rw [hcontains]
  simp

/-- A line that starts with neither quotation mark looks like a continuation if it is a closing
bracket. -/
theorem isContinuationLine_other {c : Char} {cs : List Char} (h : Neat (c :: cs)) (hc : c ≠ '\'')
    (hquote : c ≠ '"') : isContinuationLine (String.ofList (c :: cs)) = true ↔
      c :: cs = ['\x7d'] ∨ c :: cs = [']'] := by
  rw [isContinuationLine_eq h hc, beq_eq_false_iff_ne.mpr hquote, Bool.false_and, Bool.or_false,
    Bool.or_eq_true, beq_iff_eq, beq_iff_eq]

/-- What a value on one line starts with: a quotation mark if and only if it is a string. -/
theorem exists_render_eq (E : Escape) {v : Json} (h : v.isFlat = true) :
    (∃ s, v = .str s) ∨ ∃ c cs, Json.render E v = c :: cs ∧ c ≠ '\'' ∧ c ≠ '"' ∧ c ≠ '\x7d' ∧
      c ≠ ']' := by
  rcases v with - | b | n | s | (- | ⟨x, l⟩) | (- | ⟨⟨k, x⟩, l⟩)
  · exact .inr ⟨'n', _, by rw [Json.render], by decide⟩
  · cases b
    · exact .inr ⟨'f', _, by rw [Json.render], by decide⟩
    · exact .inr ⟨'t', _, by rw [Json.render], by decide⟩
  · obtain ⟨c, t, htext, hc⟩ := n.text_eq_cons
    refine .inr ⟨c, t, by rw [Json.render, htext], ?_⟩
    refine ⟨?_, ?_, ?_, ?_⟩ <;>
    · rintro rfl
      exact absurd hc (by decide)
  · exact .inl ⟨s, rfl⟩
  · exact .inr ⟨'[', _, by rw [Json.render], by decide⟩
  · exact absurd h Bool.false_ne_true
  · exact .inr ⟨'\x7b', _, by rw [Json.render], by decide⟩
  · exact absurd h Bool.false_ne_true

/-- A quotation mark before a colon is not in what separates the elements of an array. -/
theorem contains_comma (cs : List Char) {α : Type} (l : List α) :
    contains (String.ofList (cs ++ Json.comma l)) "\":" = contains (String.ofList cs) "\":" := by
  have hcolon : "\":".toList = ['"', ':'] := by decide
  rw [Bool.eq_iff_iff, contains_iff, contains_iff, hcolon, String.toList_ofList,
    String.toList_ofList, Json.comma]
  split_ifs
  · rw [List.append_nil]
  · rw [List.infix_concat_iff]
    refine or_iff_right fun hsuffix => ?_
    obtain ⟨init, hinit⟩ := hsuffix
    have hlast := congrArg List.getLast? hinit
    rw [List.getLast?_append, List.getLast?_append] at hlast
    exact absurd hlast (by simp)

theorem exists_str_of_looksLikeMember {E : Escape} {x : Json} (h : looksLikeMember E x = true) :
    ∃ s, x = .str s := by
  cases x with
  | str s => exact ⟨s, rfl⟩
  | null | bool _ | num _ | arr _ | obj _ => exact absurd h Bool.false_ne_true

/-- The lines of an element of an array look like continuations if it looks like a member. -/
theorem forall_element_iff (E : Escape) (n : ℕ) (x : Json) (l : List Json) :
    (∀ cs ∈ prettyTexts E n [] (Json.comma l) x, isContinuationLine (String.ofList cs) = true) ↔
      looksLikeMember E x = true := by
  by_cases hx : x.isFlat = true
  · have hneat := (around_element l).neat (neat_render E hx)
    rw [List.nil_append] at hneat
    rw [prettyTexts, Json.pretty_of_isFlat hx, List.map_singleton, List.forall_mem_singleton,
      List.nil_append]
    rcases exists_render_eq E hx with ⟨s, rfl⟩ | ⟨c, cs, hrender, hc, hquote, hbrace, hsquare⟩
    · rw [Json.render] at hneat ⊢
      have hcons : E.quote s ++ Json.comma l =
          '"' :: (s.toList.flatMap E.write ++ ['"'] ++ Json.comma l) := rfl
      rw [looksLikeMember, ← contains_comma (E.quote s) l]
      rw [hcons] at hneat ⊢
      rw [isContinuationLine_eq hneat (by decide)]
      simp
    · rw [hrender, List.cons_append] at hneat ⊢
      rw [isContinuationLine_other hneat hc hquote]
      constructor
      · rintro (h | h)
        · exact absurd (List.cons.inj h).1 hbrace
        · exact absurd (List.cons.inj h).1 hsquare
      · intro h
        obtain ⟨s, rfl⟩ := exists_str_of_looksLikeMember h
        rw [Json.render, Escape.quote] at hrender
        exact absurd (List.cons.inj hrender).1.symm hquote
  · have hopening : ∀ c, c ≠ '\'' → c ≠ '"' → c ≠ '\x7d' → c ≠ ']' → isSpace c = false →
        ¬ isContinuationLine (String.ofList [c]) = true := by
      intro c hc hquote hbrace hsquare hspace h
      rcases (isContinuationLine_other (neat_singleton hspace) hc hquote).mp h with h | h
      · exact hbrace (List.cons.inj h).1
      · exact hsquare (List.cons.inj h).1
    refine iff_of_false (fun h => ?_) (fun h => ?_)
    · rcases x with - | b | m | s | (- | ⟨x, m⟩) | (- | ⟨e, m⟩)
      all_goals first
        | exact hx rfl
        | skip
      · rw [prettyTexts, Json.pretty_arr, List.map_cons, List.forall_mem_cons] at h
        exact hopening '[' (by decide) (by decide) (by decide) (by decide) (by decide) h.1
      · rw [prettyTexts, Json.pretty_obj, List.map_cons, List.forall_mem_cons] at h
        exact hopening '\x7b' (by decide) (by decide) (by decide) (by decide) (by decide) h.1
    · obtain ⟨s, rfl⟩ := exists_str_of_looksLikeMember h
      exact hx rfl

theorem forall_elements_iff (E : Escape) (n : ℕ) (l : List Json) :
    (∀ cs ∈ (Json.prettyElements E n l).map Prod.snd,
      isContinuationLine (String.ofList cs) = true) ↔ l.all (looksLikeMember E) = true := by
  induction l with
  | nil => simp [Json.prettyElements]
  | cons x l ih =>
    rw [Json.prettyElements, List.map_append, List.forall_mem_append, ih, List.all_cons,
      Bool.and_eq_true]
    exact and_congr_left' (forall_element_iff E n x l)

/-- A closing bracket looks like a continuation if nothing follows it on its line. -/
theorem isContinuationLine_closing {c : Char} (hc : c = '\x7d' ∨ c = ']') {stop : List Char}
    (hstop : stop = [] ∨ EndsNeat stop) :
    isContinuationLine (String.ofList (c :: stop)) = true ↔ stop = [] := by
  have hspace : isSpace c = false := by rcases hc with rfl | rfl <;> decide
  have hneat : Neat (c :: stop) := by
    refine ⟨⟨c, rfl, hspace⟩, ?_⟩
    rcases hstop with rfl | hstop
    · exact ⟨c, rfl, hspace⟩
    · exact hstop.append [c]
  have hmark : c ≠ '\'' ∧ c ≠ '"' := by rcases hc with rfl | rfl <;> decide
  rw [isContinuationLine_other hneat hmark.1 hmark.2]
  constructor
  · rintro (h | h)
    · exact (List.cons.inj h).2
    · exact (List.cons.inj h).2
  · rintro rfl
    rcases hc with rfl | rfl
    · exact .inl rfl
    · exact .inr rfl

theorem forall_members_iff {E : Escape} {n : ℕ} {l : List (String × Json)}
    (h : ∀ e ∈ l, ∀ after : List (String × Json),
      (∀ cs ∈ prettyTexts E n (Json.label E e.1) (Json.comma after) e.2,
        isContinuationLine (String.ofList cs) = true) ↔
      (e.2.isFlat = true ∨ Json.comma after = []) ∧ continues E e.2 = true) :
    (∀ cs ∈ (Json.prettyMembers E n l).map Prod.snd,
      isContinuationLine (String.ofList cs) = true) ↔ membersContinue E l = true := by
  induction l with
  | nil => simp [Json.prettyMembers, membersContinue]
  | cons e l ih =>
    have hcomma : Json.comma l = [] ↔ l.isEmpty = true := by
      cases l with
      | nil => exact iff_of_true rfl rfl
      | cons e' l => exact iff_of_false (List.cons_ne_nil _ _) Bool.false_ne_true
    rw [Json.prettyMembers, List.map_append, List.forall_mem_append,
      ih fun y hy => h y (List.mem_cons_of_mem _ hy), membersContinue, Bool.and_eq_true,
      Bool.and_eq_true, Bool.or_eq_true, ← hcomma]
    exact and_congr_left' (h e List.mem_cons_self l)

/-- The lines of a member of an object look like continuations if they do within its value, and the
closing bracket of the value is the last of the object or the value has none. -/
theorem forall_member_iff (E : Escape) (v : Json) :
    ∀ {n : ℕ} {key : String} {stop : List Char}, Around (Json.label E key) stop →
      ((∀ cs ∈ prettyTexts E n (Json.label E key) stop v,
          isContinuationLine (String.ofList cs) = true) ↔
        (v.isFlat = true ∨ stop = []) ∧ continues E v = true) := by
  -- a value on one line starts with its label
  have hflat : ∀ {v : Json}, v.isFlat = true → ∀ {n : ℕ} {key : String} {stop : List Char},
      Around (Json.label E key) stop →
        ((∀ cs ∈ prettyTexts E n (Json.label E key) stop v,
            isContinuationLine (String.ofList cs) = true) ↔
          (v.isFlat = true ∨ stop = []) ∧ continues E v = true) := by
    intro v hv n key stop h
    refine iff_of_true (fun cs hcs => ?_) ⟨.inl hv, continues_of_isFlat hv⟩
    rw [prettyTexts, Json.pretty_of_isFlat hv, List.map_singleton] at hcs
    have hneat := h.neat (neat_render E hv)
    rw [List.mem_singleton.mp hcs]
    rw [List.append_assoc] at hneat ⊢
    exact isContinuationLine_label E key _ hneat
  -- so does the bracket that opens a value on several lines
  have hopening : ∀ {c : Char} {key : String} {stop : List Char}, isSpace c = false →
      Around (Json.label E key) stop →
        isContinuationLine (String.ofList (Json.label E key ++ [c])) = true := by
    intro c key stop hc h
    have hstarts : StartsNeat (Json.label E key) := (neat_quote E key).starts.append _
    exact isContinuationLine_label E key [c] ⟨hstarts.append [c], EndsNeat.append ⟨c, rfl, hc⟩ _⟩
  induction v using Json.inductionOn with
  | null => exact hflat rfl
  | bool b => exact hflat rfl
  | num n => exact hflat rfl
  | str s => exact hflat rfl
  | arr l ih =>
    intro n key stop h
    rcases l with - | ⟨x, l⟩
    · exact hflat rfl h
    · rw [prettyTexts, Json.pretty_arr, List.map_cons, List.map_append, List.forall_mem_cons,
        List.forall_mem_append, forall_elements_iff, List.map_singleton, List.forall_mem_singleton,
        isContinuationLine_closing (.inr rfl) h.ends, continues,
        and_iff_right (hopening (by decide) h), and_comm]
      exact and_congr_left' (or_iff_right Bool.false_ne_true).symm
  | obj l ih =>
    intro n key stop h
    have hmembers := forall_members_iff (n := n + 1) (l := l) fun e he after =>
      ih e he (around_member E e.1 after)
    rcases l with - | ⟨e, l⟩
    · exact hflat rfl h
    · rw [prettyTexts, Json.pretty_obj, List.map_cons, List.map_append, List.forall_mem_cons,
        List.forall_mem_append, hmembers, List.map_singleton,
        List.forall_mem_singleton, isContinuationLine_closing (.inl rfl) h.ends, continues,
        and_iff_right (hopening (by decide) h), and_comm]
      exact and_congr_left' (or_iff_right Bool.false_ne_true).symm

/-- The lines of a value with members: a bracket that is opened, lines that are nested, and the
bracket that is closed. -/
theorem exists_document (E : Escape) {v : Json} (hv : v.isFlat = false) :
    ∃ opening closing body, prettyTexts E 0 [] [] v = [opening] :: (body ++ [[closing]]) ∧
      (opening = '\x7b' ∨ opening = '[') ∧ Nested body ∧
      ((∀ cs ∈ body ++ [[closing]], isContinuationLine (String.ofList cs) = true) ↔
        continues E v = true) := by
  have hclosing : ∀ {c : Char}, c = '\x7d' ∨ c = ']' →
      (∀ cs ∈ [[c]], isContinuationLine (String.ofList cs) = true) := fun hc cs hcs => by
    rw [List.mem_singleton.mp hcs]
    exact (isContinuationLine_closing hc (.inl rfl)).mpr rfl
  rcases v with - | b | m | s | (- | ⟨x, l⟩) | (- | ⟨e, l⟩)
  · exact absurd hv.symm Bool.false_ne_true
  · exact absurd hv.symm Bool.false_ne_true
  · exact absurd hv.symm Bool.false_ne_true
  · exact absurd hv.symm Bool.false_ne_true
  · exact absurd hv.symm Bool.false_ne_true
  · refine ⟨'[', ']', (Json.prettyElements E 1 (x :: l)).map Prod.snd, ?_, .inr rfl, ?_, ?_⟩
    · rw [prettyTexts, Json.pretty_arr, List.map_cons, List.map_append]
      rfl
    · exact nested_elements fun y _ after => nested_pretty E y (around_element after)
    · rw [List.forall_mem_append, forall_elements_iff, continues,
        and_iff_left (hclosing (.inr rfl))]
  · exact absurd hv.symm Bool.false_ne_true
  · refine ⟨'\x7b', '\x7d', (Json.prettyMembers E 1 (e :: l)).map Prod.snd, ?_, .inl rfl, ?_, ?_⟩
    · rw [prettyTexts, Json.pretty_obj, List.map_cons, List.map_append]
      rfl
    · exact nested_members fun y _ after => nested_pretty E y.2 (around_member E y.1 after)
    · rw [List.forall_mem_append, continues, and_iff_left (hclosing (.inl rfl))]
      exact forall_members_iff fun y _ after => forall_member_iff E y.2 (around_member E y.1 after)

/-! ### Lines of their own -/

/-- A text that is read as one JSON object. -/
def IsObjectText (s : String) : Prop :=
  ∃ n k members rest, Json.readValue n k s.toList = some (.obj members, rest) ∧
    Json.skipSpace rest = []

/-- An object starts with a brace. -/
theorem exists_of_readValue_obj {n k : ℕ} {cs rest : List Char} {members : List (String × Json)}
    (h : Json.readValue n k cs = some (.obj members, rest)) :
    ∃ more, Json.skipSpace cs = '\x7b' :: more := by
  cases n with
  | zero => exact absurd h (by simp [Json.readValue])
  | succ n =>
    rw [Json.readValue.eq_def] at h
    simp only at h
    split at h
    · cases h
    · rename_i c more heq
      refine ⟨more, ?_⟩
      split_ifs at h with hquote hopen hbrace hnull htrue hfalse
      · obtain ⟨x, -, hx⟩ := Option.map_eq_some_iff.mp h
        exact absurd (Prod.mk.inj hx).1 (by simp)
      · split at h
        · cases h
        · exact absurd (Prod.mk.inj (Option.some.inj h)).1 (by simp)
        · obtain ⟨x, -, hx⟩ := Option.map_eq_some_iff.mp h
          exact absurd (Prod.mk.inj hx).1 (by simp)
      · rw [heq, hbrace]
      · obtain ⟨x, -, hx⟩ := Option.map_eq_some_iff.mp h
        exact absurd (Prod.mk.inj hx).1 (by simp)
      · obtain ⟨x, -, hx⟩ := Option.map_eq_some_iff.mp h
        exact absurd (Prod.mk.inj hx).1 (by simp)
      · obtain ⟨x, -, hx⟩ := Option.map_eq_some_iff.mp h
        exact absurd (Prod.mk.inj hx).1 (by simp)
      · split at h
        · cases h
        · exact absurd (Prod.mk.inj (Option.some.inj h)).1 (by simp)

/-- The brackets of an object are balanced. -/
theorem isBalanced_of_isObjectText {s : String} (h : IsObjectText s) : isBalanced s = true := by
  obtain ⟨n, k, members, rest, hread, hrest⟩ := h
  have hscan : (outside 0).scan s.toList = outside 0 := by
    rw [(scan_read n).1 k _ _ _ hread 0, ← scan_skipSpace, hrest, scan_nil]
  exact beq_iff_eq.mpr (congrArg DepthState.depth hscan)

/-- **Objects and lines with a timestamp are entries of their own.** -/
theorem isStandaloneLogLine_of {s : String}
    (h : IsObjectText (trimSpace s) ∨ hasLeadingTimestamp (trimSpace s) = true) :
    isStandaloneLogLine (trimSpace s) = true := by
  rw [isStandaloneLogLine, trimSpace_trimSpace]
  rcases h with hobject | htime
  · have hbalanced := isBalanced_of_isObjectText hobject
    obtain ⟨n, k, members, rest, hread, -⟩ := hobject
    obtain ⟨more, hmore⟩ := exists_of_readValue_obj hread
    rcases hlist : (trimSpace s).toList with - | ⟨c, cs⟩
    · rw [hlist] at hmore
      exact absurd hmore (by simp [Json.skipSpace])
    · have hspace : isSpace c = false := isSpace_of_head? (s := s) (by rw [hlist]; rfl)
      have hjson : Json.isSpace c = false := by
        by_contra hjson
        simp only [Json.isSpace, Bool.not_eq_false, Bool.or_eq_true, beq_iff_eq] at hjson
        rcases hjson with ((rfl | rfl) | rfl) | rfl <;> exact absurd hspace (by decide)
      rw [hlist, Json.skipSpace_cons hjson] at hmore
      have hne : (trimSpace s == "") = false := by
        rw [beq_eq_false_iff_ne]
        intro hempty
        rw [hempty] at hlist
        exact absurd hlist (by simp)
      have hstarts : hasPrefix (trimSpace s) "\x7b" = true := by
        have hbrace : "\x7b".toList = ['\x7b'] := by decide
        rw [hasPrefix, List.isPrefixOf_iff_prefix, hbrace, hlist, hmore]
        exact List.prefix_append ['\x7b'] more
      rw [hne, hstarts, hbalanced]
      rfl
  · have hne : (trimSpace s == "") = false := by
      rw [beq_eq_false_iff_ne]
      intro hempty
      rw [hempty] at htime
      exact absurd htime (by decide)
    rw [hne, htime]
    simp

/-- A line that looks like a continuation is an entry of its own only if it looks like a line of an
access log. -/
theorem isStandaloneLogLine_of_continuation {cs : List Char} (hneat : Neat cs)
    (h : isContinuationLine (String.ofList cs) = true) :
    isStandaloneLogLine (String.ofList cs) = looksLikeAccessLog (String.ofList cs) := by
  obtain ⟨c, hhead, hspace⟩ := hneat.starts
  obtain ⟨rest, rfl⟩ := List.head?_eq_some_iff.mp hhead
  have hmark : c ∈ ['\'', '"', '\x7d', ']'] := by
    by_cases hc : c = '\''
    · rw [hc]
      decide
    · rw [isContinuationLine_eq hneat hc] at h
      simp only [Bool.or_eq_true, Bool.and_eq_true, beq_iff_eq] at h
      rcases h with (h | h) | h
      · rw [(List.cons.inj h).1]
        decide
      · rw [(List.cons.inj h).1]
        decide
      · rw [h.1]
        decide
  have hall : ∀ x ∈ ['\'', '"', '\x7d', ']'],
      x ≠ '\x7b' ∧ Time.isStampChar x = false ∧ (x != ' ' && x != '\t') = true :=
    forall_mem_of_all (by decide)
  obtain ⟨hbrace, hstamp, hword⟩ := hall c hmark
  have hparse : Time.parse ((c :: rest).takeWhile fun x => x != ' ' && x != '\t') = none := by
    have hcons : ((c :: rest).takeWhile fun x => x != ' ' && x != '\t') =
        c :: rest.takeWhile fun x => x != ' ' && x != '\t' :=
      List.takeWhile_cons_of_pos (p := fun x => x != ' ' && x != '\t') hword
    rw [hcons]
    refine Option.eq_none_iff_forall_ne_some.mpr fun t ht => ?_
    obtain ⟨date, clock, -, -, -, hchars⟩ := Time.exists_of_parse ht
    rw [hchars c List.mem_cons_self] at hstamp
    exact absurd hstamp (by decide)
  have hne : (String.ofList (c :: rest) == "") = false := by
    rw [ofList_beq]
    rfl
  have hstarts : hasPrefix (String.ofList (c :: rest)) "\x7b" = false :=
    hasPrefix_of_head (d := '\x7b') (by decide) (Ne.symm hbrace)
  rw [isStandaloneLogLine, trimSpace_of_neat hneat]
  simp only [hne, hstarts, Bool.false_and, Bool.false_eq_true, if_false, hasLeadingTimestamp,
    String.toList_ofList, hparse, Option.isSome_none, Bool.and_false, Bool.false_or]
  rw [looksLikeAccessLog, String.toList_ofList]

/-! ### Records -/

/-- What a line is indented with for each bracket that is open. -/
structure Indent where
  text : List Char
  blank : ∀ c ∈ text, c = ' ' ∨ c = '\t'

/-- A value as it is printed on several lines. -/
def docTexts (E : Escape) (indent : Indent) (v : Json) : List (List Char) :=
  (Json.pretty E 0 [] [] v).map fun line =>
    (List.replicate line.1 indent.text).flatten ++ line.2

/-- The lines of a value, trimmed and joined by newlines. -/
def docMessage (E : Escape) (indent : Indent) (v : Json) : String :=
  "\n".intercalate ((docTexts E indent v).map fun text => trimSpace (String.ofList text))

/-- What is read of records, each a timestamp and a text. -/
def parsedRecords (records : List (Stamp × List Char)) : List ParsedLine :=
  records.filterMap fun r => parseLogText (String.ofList (r.1.text ++ ' ' :: r.2))

theorem parsedRecords_eq (records : List (Stamp × List Char)) :
    parsedRecords records =
      records.map fun r => ⟨r.1.time, trimSpace (String.ofList r.2)⟩ := by
  rw [parsedRecords, ← List.filterMap_eq_map]
  exact List.filterMap_congr fun r _ => parseLogText_stamp r.1 r.2

/-- Lines that are neat are kept as they are. -/
theorem nonBlankLines_of_neat {lines : List ParsedLine} (h : ∀ cs ∈ messages lines, Neat cs) :
    nonBlankLines lines = lines := by
  induction lines with
  | nil => rfl
  | cons line lines ih =>
    obtain ⟨hline, hlines⟩ := List.forall_mem_cons.mp h
    obtain ⟨c, hc, hspace⟩ := hline.ends
    have hcr : trimRightCR line.message = line.message := by
      refine trimRightCR_eq_self fun hlast => ?_
      obtain rfl : c = '\r' := Option.some.inj (hc.symm.trans hlast)
      exact absurd hspace (by decide)
    have hblank : trimSpace (trimRightCR line.message) ≠ "" := by
      rw [hcr]
      intro hempty
      have hmem : c ∈ line.message.toList := List.mem_of_getLast? hc
      rw [trimSpace_eq_empty_iff.mp hempty c hmem] at hspace
      exact absurd hspace (by decide)
    rw [nonBlankLines_cons, if_neg hblank, hcr, ih hlines]

section

variable {E : Escape} {indent : Indent} {v : Json} {records : List (Stamp × List Char)}

/-- The messages of the records of a value. -/
theorem messages_parsedRecords (hrecords : records.map Prod.snd = docTexts E indent v) :
    messages (parsedRecords records) = prettyTexts E 0 [] [] v := by
  have hneat := (nested_document E v).neat
  have htexts : messages (parsedRecords records) =
      (docTexts E indent v).map fun text => (trimSpace (String.ofList text)).toList := by
    rw [parsedRecords_eq, messages, ← hrecords, List.map_map, List.map_map]
    rfl
  rw [htexts, docTexts, List.map_map, prettyTexts]
  refine List.map_congr_left fun line hline => ?_
  have hblank : ∀ c ∈ (List.replicate line.1 indent.text).flatten, isSpace c = true := by
    intro c hc
    obtain ⟨text, htext, hc⟩ := List.mem_flatten.mp hc
    rcases indent.blank c (List.eq_of_mem_replicate htext ▸ hc) with rfl | rfl <;> decide
  have htrim := trimSpace_neat (hneat line.2 (List.mem_map_of_mem hline)) _ hblank
  exact (congrArg String.toList htrim).trans String.toList_ofList

/-- What is before a line of a value goes on. -/
theorem isIncompleteLog_before (hv : v.isFlat = false) {lines before after : List ParsedLine}
    {line : ParsedLine} (hlines : messages lines = prettyTexts E 0 [] [] v)
    (heq : lines = before ++ line :: after) (hbefore : before ≠ []) :
    isIncompleteLog (joinLines before) = true := by
  obtain ⟨opening, closing, body, htexts, hopening, hbody, -⟩ := exists_document E hv
  have hnested := nested_document E v
  have hsplit : messages before ++ messages (line :: after) = prettyTexts E 0 [] [] v := by
    rw [← hlines, heq, messages, messages, messages, List.map_append]
  have htake : messages before = (prettyTexts E 0 [] [] v).take before.length := by
    rw [← hsplit]
    exact (List.take_left' (List.length_map _)).symm
  have hsub : ∀ cs ∈ messages before, cs ∈ prettyTexts E 0 [] [] v := fun cs hcs =>
    hsplit ▸ List.mem_append_left _ hcs
  obtain ⟨first, rest, rfl⟩ := List.exists_cons_of_ne_nil hbefore
  have hhead : (joinLines (first :: rest)).toList.head? = some opening := by
    have hfirst : first.message.toList = [opening] := by
      rw [htexts] at hsplit
      exact (List.cons.inj hsplit).1
    rw [(neat_joinLines hbefore fun cs hcs => hnested.neat cs (hsub cs hcs)).2, messages,
      List.map_cons, hfirst]
    rfl
  have hlength : rest.length ≤ body.length := by
    have hlengths := congrArg List.length hsplit
    rw [htexts] at hlengths
    simp only [messages, List.map_cons, List.length_append, List.length_cons, List.length_map,
      List.length_nil] at hlengths
    omega
  have hopen : ∀ d, (outside d).scan [opening] = outside (d + 1) := by
    rcases hopening with rfl | rfl <;> exact fun d => rfl
  -- the first bracket is still open at the cut
  have hpos : 0 < ((messages (first :: rest)).map net).sum := by
    rw [htake, htexts]
    exact hbody.sum_take_pos hopen hlength
  have hscan := scan_joinLines (fun cs hcs => hnested.scan cs (hsub cs hcs)) 0
  have hbracket : (joinLines (first :: rest)).toList.head? = some '\x7b' ∨
      (joinLines (first :: rest)).toList.head? = some '[' := by
    rcases hopening with rfl | rfl
    · exact .inl hhead
    · exact .inr hhead
  have hneat := (neat_joinLines hbefore fun cs hcs => hnested.neat cs (hsub cs hcs)).1
  refine isIncompleteLog_of_open hneat hbracket ?_
  have hdepth : bracketDepth (joinLines (first :: rest)) =
      ((messages (first :: rest)).map net).sum := by
    rw [zero_add] at hscan
    exact congrArg DepthState.depth hscan
  rw [hdepth]
  exact hpos

/-- **When the lines of a value are one block.** Each line after the first one looks like a
continuation and not like a line of an access log. -/
theorem logBlocks_eq_singleton_iff (hv : v.isFlat = false) {lines : List ParsedLine}
    (hlines : messages lines = prettyTexts E 0 [] [] v) :
    logBlocks lines = [lines] ↔ continues E v = true ∧
      ∀ cs ∈ (prettyTexts E 0 [] [] v).tail, looksLikeAccessLog (String.ofList cs) = false := by
  have hneat := (nested_document E v).neat
  obtain ⟨opening, closing, body, htexts, hopening, hbody, hcontinues⟩ := exists_document E hv
  obtain ⟨first, rest, rfl⟩ : ∃ first rest, lines = first :: rest := by
    rcases lines with - | ⟨first, rest⟩
    · rw [htexts] at hlines
      exact absurd hlines (by simp [messages])
    · exact ⟨first, rest, rfl⟩
  have hrest : messages rest = (prettyTexts E 0 [] [] v).tail := by rw [← hlines]; rfl
  have htail : (prettyTexts E 0 [] [] v).tail = body ++ [[closing]] := by rw [htexts]; rfl
  have hmerge : logCutter.Joined (first :: rest) ↔
      ∀ cs ∈ (prettyTexts E 0 [] [] v).tail, isContinuationLine (String.ofList cs) = true ∧
        isStandaloneLogLine (String.ofList cs) = false := by
    rw [← hrest, messages, List.forall_mem_map]
    constructor
    · intro hjoined line hline
      obtain ⟨before, after, hsplit⟩ := List.append_of_mem hline
      have heq : first :: rest = (first :: before) ++ line :: after := by
        rw [hsplit, List.cons_append]
      have hjoins := hjoined _ line after heq _ (value_logCutter (List.cons_ne_nil first before))
      rw [joins_logCutter, shouldMergeLogLines, Bool.and_eq_true, Bool.and_eq_true,
        Bool.not_eq_true'] at hjoins
      rw [String.ofList_toList]
      exact ⟨hjoins.2, hjoins.1.1⟩
    · intro hall before line after heq value hvalue
      have hbefore : before ≠ [] := by
        rintro rfl
        exact absurd hvalue (by simp [Cutter.value])
      obtain rfl := Option.some.inj ((value_logCutter hbefore).symm.trans hvalue)
      obtain ⟨x, before, rfl⟩ := List.exists_cons_of_ne_nil hbefore
      have hline : line ∈ rest := by
        rw [(List.cons.inj heq).2]
        exact List.mem_append_right _ List.mem_cons_self
      obtain ⟨hcontinuation, hstandalone⟩ := hall line hline
      rw [String.ofList_toList] at hcontinuation hstandalone
      have hincomplete := isIncompleteLog_before hv hlines heq hbefore
      rw [joins_logCutter, shouldMergeLogLines, hcontinuation, hstandalone, hincomplete]
      rfl
  rw [logBlocks, nonBlankLines_of_neat (hlines ▸ hneat),
    Cutter.cut_eq_singleton_iff (List.cons_ne_nil first rest), hmerge, ← hcontinues, ← htail,
    ← forall₂_and]
  refine forall₂_congr fun cs hcs => and_congr_right fun hcontinuation => ?_
  rw [isStandaloneLogLine_of_continuation (hneat cs (List.mem_of_mem_tail hcs)) hcontinuation]

/-- The entries of the records of a value are one entry if and only if their lines are one block. -/
theorem messages_eq_singleton_iff (clock : ℕ → Time) (hv : v.isFlat = false)
    (hrecords : records.map Prod.snd = docTexts E indent v) :
    (coalesceLogLines clock (parsedRecords records)).map ParsedLine.message =
        [docMessage E indent v] ↔
      logBlocks (parsedRecords records) = [parsedRecords records] := by
  have hmessages := messages_parsedRecords hrecords
  have hneat : ∀ cs ∈ messages (parsedRecords records), Neat cs := by
    rw [hmessages]
    exact (nested_document E v).neat
  have hne : parsedRecords records ≠ [] := by
    obtain ⟨opening, closing, body, htexts, -⟩ := exists_document E hv
    intro hnil
    rw [hnil, htexts] at hmessages
    exact absurd hmessages (by simp [messages])
  have hdoc : trimSpace (joinLines (parsedRecords records)) = docMessage E indent v := by
    have htrim := trimSpace_of_neat (neat_joinLines hne hneat).1
    rw [String.ofList_toList] at htrim
    rw [htrim, joinLines, docMessage, parsedRecords_eq, ← hrecords, List.map_map, List.map_map]
    rfl
  rw [coalesceLogLines_eq, map_message_blockEntries]
  constructor
  · intro h
    have hlength := congrArg List.length h
    rw [List.length_map] at hlength
    obtain ⟨block, hblock⟩ := List.length_eq_one_iff.mp hlength
    have hflatten : (logBlocks (parsedRecords records)).flatten = parsedRecords records := by
      rw [logBlocks, Cutter.flatten_cut, nonBlankLines_of_neat hneat]
    rw [hblock, List.flatten_singleton] at hflatten
    rw [hblock, hflatten]
  · intro h
    rw [h, List.map_singleton, hdoc]

/-- A line that is an entry of its own is not merged into what comes before it. -/
theorem map_message_concat (clock : ℕ → Time) (lines : List ParsedLine) {line : ParsedLine}
    (hcr : trimRightCR line.message = line.message)
    (h : isStandaloneLogLine line.message = true) :
    (coalesceLogLines clock (lines ++ [line])).map ParsedLine.message =
      (coalesceLogLines clock lines).map ParsedLine.message ++ [trimSpace line.message] := by
  have hblank : trimSpace (trimRightCR line.message) ≠ "" := by
    rw [hcr]
    intro hempty
    rw [isStandaloneLogLine, hempty] at h
    exact absurd h (by decide)
  have hline : nonBlankLines [line] = [line] := by
    rw [nonBlankLines_cons, if_neg hblank, hcr]
    rfl
  have hjoins : ∀ message : String, logCutter.joins message line = false := by
    intro message
    rw [joins_logCutter, shouldMergeLogLines, h, Bool.not_true, Bool.false_and, Bool.false_and]
  have hblocks : logBlocks (lines ++ [line]) = logBlocks lines ++ [[line]] := by
    rw [logBlocks, nonBlankLines_append, hline, Cutter.cut_concat hjoins, logBlocks]
  rw [coalesceLogLines_eq, coalesceLogLines_eq, map_message_blockEntries,
    map_message_blockEntries, hblocks, List.map_append, List.map_singleton, joinLines_singleton]

/-- A record that is an entry of its own is not merged into what comes before it. -/
theorem messages_concat (clock : ℕ → Time) (records : List (Stamp × List Char))
    {next : Stamp × List Char}
    (h : IsObjectText (trimSpace (String.ofList next.2)) ∨
      hasLeadingTimestamp (trimSpace (String.ofList next.2)) = true) :
    (coalesceLogLines clock (parsedRecords (records ++ [next]))).map ParsedLine.message =
      (coalesceLogLines clock (parsedRecords records)).map ParsedLine.message ++
        [trimSpace (String.ofList next.2)] := by
  have hnext : parsedRecords (records ++ [next]) =
      parsedRecords records ++ [⟨next.1.time, trimSpace (String.ofList next.2)⟩] := by
    rw [parsedRecords_eq, parsedRecords_eq, List.map_append, List.map_singleton]
  have hconcat := @map_message_concat clock (parsedRecords records)
    ⟨next.1.time, trimSpace (String.ofList next.2)⟩ (trimRightCR_trimSpace _)
    (isStandaloneLogLine_of h)
  rw [hnext, hconcat, trimSpace_trimSpace]

/-- **Key result.** A value that is printed on several lines stays one entry, and what follows is
not merged into it, if and only if its lines after the first one look like continuations and none of
them like a line of an access log. -/
theorem mergesJson_iff (clock : ℕ → Time) (hv : v.isFlat = false)
    (hrecords : records.map Prod.snd = docTexts E indent v) :
    ((coalesceLogLines clock (parsedRecords records)).map ParsedLine.message =
        [docMessage E indent v] ∧
      ∀ next : Stamp × List Char,
        IsObjectText (trimSpace (String.ofList next.2)) ∨
          hasLeadingTimestamp (trimSpace (String.ofList next.2)) = true →
        (coalesceLogLines clock (parsedRecords (records ++ [next]))).map ParsedLine.message =
          (coalesceLogLines clock (parsedRecords records)).map ParsedLine.message ++
            [trimSpace (String.ofList next.2)]) ↔
      continues E v = true ∧
        ∀ cs ∈ (prettyTexts E 0 [] [] v).tail, looksLikeAccessLog (String.ofList cs) = false := by
  rw [and_iff_left fun next h => messages_concat clock records h,
    messages_eq_singleton_iff clock hv hrecords,
    logBlocks_eq_singleton_iff hv (messages_parsedRecords hrecords)]

end

/-- Two spaces. -/
def twoSpaces : Indent := ⟨[' ', ' '], forall_mem_of_all (by decide)⟩

/-- The zero time, as it is written. -/
def zeroStamp : Stamp := Stamp.ofTime ⟨0⟩ (by decide)

/-- An object in an object, as its last member. -/
def nestedLast : Json :=
  .obj [("level", .str "info"), ("meta", .obj [("name", .str "HandlerRegistry")])]

/-- An object in an object, before another member. -/
def nestedFirst : Json :=
  .obj [("a", .obj [("b", .bool true)]), ("c", .bool false)]

/-- A value with an object as its last member stays one entry. -/
theorem mergesJson_nestedLast :
    (coalesceLogLines (fun _ => ⟨0⟩) (parsedRecords
        ((docTexts goEscape twoSpaces nestedLast).map fun text => (zeroStamp, text)))).map
          ParsedLine.message = [docMessage goEscape twoSpaces nestedLast] :=
  ((mergesJson_iff (E := goEscape) (fun _ => ⟨0⟩) rfl (by simp [List.map_map])).mpr
    ⟨by decide +kernel, by decide +kernel⟩).1

/-- A value with an object before another member does not. -/
theorem nestedFirst_split : ¬ (coalesceLogLines (fun _ => ⟨0⟩) (parsedRecords
      ((docTexts goEscape twoSpaces nestedFirst).map fun text => (zeroStamp, text)))).map
        ParsedLine.message = [docMessage goEscape twoSpaces nestedFirst] := by
  have hrecords : ((docTexts goEscape twoSpaces nestedFirst).map fun text =>
      (zeroStamp, text)).map Prod.snd = docTexts goEscape twoSpaces nestedFirst := by
    rw [List.map_map]
    exact List.map_id _
  have hmessages := messages_parsedRecords hrecords
  have hsplit : ¬ continues goEscape nestedFirst = true := by decide +kernel
  rw [messages_eq_singleton_iff _ rfl hrecords, logBlocks_eq_singleton_iff rfl hmessages]
  exact fun h => hsplit h.1

end Argus
