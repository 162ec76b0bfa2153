import Mathlib.Data.List.Basic
import Mathlib.Data.String.Basic

/-!
# Regular expressions by backtracking

A matcher for the expressions that log scrapers use. Of several matches at a place it takes
the one that a backtracking search finds first, and of several places the leftmost, which is
how the common engines choose. Only characters are repeated, so the search recurses on the
expression and on the text and needs no fuel.

A `Cursor` is a place in the text; it also knows what is before it, for word boundaries, and
what the groups closed so far have matched.
-/

namespace Foundations

/-- A place in a text: what is before it, last character first, what is after it, and the
groups that were matched on the way. -/
structure Cursor where
  before : List Char
  after : List Char
  groups : List String

/-- A regular expression. -/
inductive Regex
  /-- The empty text. -/
  | empty
  /-- `lo` up to `hi` characters of a set, as many as possible or as few. -/
  | chars (p : Char → Bool) (lo : ℕ) (hi : Option ℕ) (greedy : Bool)
  | seq (r r' : Regex)
  /-- The first expression, else the second. -/
  | alt (r r' : Regex)
  /-- What the expression matches is a group. -/
  | group (r : Regex)
  /-- A word character on one side and none on the other. -/
  | boundary
  /-- The end of the text. -/
  | atEnd

namespace Regex

/-! ### Building -/

/-- One character of a set. -/
def one (p : Char → Bool) : Regex := chars p 1 (some 1) true

/-- Any number of characters of a set. -/
def many (p : Char → Bool) : Regex := chars p 0 none true

/-- At least one character of a set. -/
def some' (p : Char → Bool) : Regex := chars p 1 none true

/-- A fixed number of characters of a set. -/
def exactly (n : ℕ) (p : Char → Bool) : Regex := chars p n (some n) true

/-- The expression, or nothing. -/
def opt (r : Regex) : Regex := alt r empty

/-- One expression after the other. -/
def seqs : List Regex → Regex
  | [] => empty
  | [r] => r
  | r :: rs => seq r (seqs rs)

/-- The first expression of several that matches. -/
def alts : List Regex → Regex
  | [] => empty
  | [r] => r
  | r :: rs => alt r (alts rs)

/-- The characters of a text, compared with `same`. -/
def text (same : Char → Char → Bool) (s : String) : Regex :=
  seqs (s.toList.map fun c => one (same c))

/-! ### Matching -/

/-- A word character. -/
def isWord (c : Char) : Bool := c.isAlphanum || c == '_'

/-- Between `before` and `after` a word begins or ends. -/
def isBoundary (before after : List Char) : Bool :=
  before.head?.any isWord != after.head?.any isWord

/-- Match characters of a set, then go on with `k`. -/
def runChars {β : Type} (p : Char → Bool) (greedy : Bool) (k : List Char → List Char → Option β) :
    ℕ → Option ℕ → List Char → List Char → Option β
  | lo, _, before, [] => if lo = 0 then k before [] else none
  | lo, hi, before, c :: cs =>
    let more := if p c && hi != some 0 then
      runChars p greedy k (lo - 1) (hi.map (· - 1)) (c :: before) cs else none
    let stop := if lo = 0 then k before (c :: cs) else none
    if greedy then more.or stop else stop.or more

/-- Match an expression at a place, then go on with `k`; the first way in which both succeed. -/
def run {β : Type} : Regex → (Cursor → Option β) → Cursor → Option β
  | empty, k, at_ => k at_
  | chars p lo hi greedy, k, at_ =>
    runChars p greedy (fun before after => k { at_ with before := before, after := after })
      lo hi at_.before at_.after
  | seq r r', k, at_ => run r (run r' k) at_
  | alt r r', k, at_ => (run r k at_).or (run r' k at_)
  | group r, k, at_ =>
    run r (fun end_ => k { end_ with
      groups := end_.groups ++
        [String.ofList (end_.before.take (end_.before.length - at_.before.length)).reverse] }) at_
  | boundary, k, at_ => if isBoundary at_.before at_.after then k at_ else none
  | atEnd, k, at_ => if at_.after = [] then k at_ else none

/-- The end of the leftmost match. -/
def find (r : Regex) : List Char → List Char → Option Cursor
  | before, [] => r.run some ⟨before, [], []⟩
  | before, c :: cs =>
    match r.run some ⟨before, c :: cs, []⟩ with
    | some m => some m
    | none => find r (c :: before) cs

/-- The groups of the leftmost match. -/
def findSubmatch (r : Regex) (s : String) : Option (List String) :=
  (r.find [] s.toList).map Cursor.groups

/-- Whether the expression matches somewhere. -/
def isMatch (r : Regex) (s : String) : Bool := (r.find [] s.toList).isSome

/-- Replace the matches in a text of at most `n` characters, for an expression that does not
match the empty text. -/
def replaceFrom (r : Regex) (replacement : List Char) : ℕ → List Char → List Char → List Char
  | 0, _, after => after
  | _ + 1, _, [] => []
  | n + 1, before, c :: cs =>
    match r.run some ⟨before, c :: cs, []⟩ with
    | some m => replacement ++ replaceFrom r replacement n m.before m.after
    | none => c :: replaceFrom r replacement n (c :: before) cs

/-- Replace every match. -/
def replaceAll (r : Regex) (s replacement : String) : String :=
  String.ofList (r.replaceFrom replacement.toList s.toList.length [] s.toList)

/-! ### What is matched -/

/-- The expression only consumes characters with a property. -/
def Within (P : Char → Prop) : Regex → Prop
  | chars p _ _ _ => ∀ c, p c = true → P c
  | seq r r' => Within P r ∧ Within P r'
  | alt r r' => Within P r ∧ Within P r'
  | group r => Within P r
  | _ => True

/-- The groups of the expression only have characters with a property. -/
def GroupsWithin (P : Char → Prop) : Regex → Prop
  | seq r r' => GroupsWithin P r ∧ GroupsWithin P r'
  | alt r r' => GroupsWithin P r ∧ GroupsWithin P r'
  | group r => Within P r ∧ GroupsWithin P r
  | _ => True

/-- A successful match of characters goes on after some characters of the set. -/
theorem exists_of_runChars {β : Type} {p : Char → Bool} {greedy : Bool}
    {k : List Char → List Char → Option β} {b : β} {after : List Char} :
    ∀ {lo : ℕ} {hi : Option ℕ} {before : List Char},
      runChars p greedy k lo hi before after = some b →
        ∃ consumed rest : List Char, k (consumed.reverse ++ before) rest = some b ∧
          after = consumed ++ rest ∧ ∀ c ∈ consumed, p c = true := by
  induction after with
  | nil =>
    intro lo hi before h
    rw [runChars] at h
    split_ifs at h
    exact ⟨[], [], h, rfl, fun c hc => absurd hc List.not_mem_nil⟩
  | cons c cs ih =>
    intro lo hi before h
    -- one character more
    have hmore : (if p c && hi != some 0 then
        runChars p greedy k (lo - 1) (hi.map (· - 1)) (c :: before) cs else none) = some b →
          ∃ consumed rest : List Char, k (consumed.reverse ++ before) rest = some b ∧
            c :: cs = consumed ++ rest ∧ ∀ c ∈ consumed, p c = true := by
      intro h
      split_ifs at h with hc
      obtain ⟨consumed, rest, hk, rfl, hp⟩ := ih h
      rw [Bool.and_eq_true] at hc
      refine ⟨c :: consumed, rest, ?_, rfl, List.forall_mem_cons.mpr ⟨hc.1, hp⟩⟩
      rwa [List.reverse_cons, List.append_assoc, List.singleton_append]
    -- no more characters
    have hstop : (if lo = 0 then k before (c :: cs) else none) = some b →
        ∃ consumed rest : List Char, k (consumed.reverse ++ before) rest = some b ∧
          c :: cs = consumed ++ rest ∧ ∀ c ∈ consumed, p c = true := by
      intro h
      split_ifs at h
      exact ⟨[], c :: cs, h, rfl, fun c hc => absurd hc List.not_mem_nil⟩
    rw [runChars] at h
    rcases greedy with - | -
    · exact (Option.or_eq_some_iff.mp h).elim hstop fun h => hmore h.2
    · exact (Option.or_eq_some_iff.mp h).elim hmore fun h => hstop h.2

/-- What a match consumed and what its groups are. -/
theorem exists_of_run {β : Type} {P : Char → Prop} {b : β} (r : Regex) :
    ∀ {k : Cursor → Option β} {at_ : Cursor}, r.run k at_ = some b →
      ∃ (end_ : Cursor) (consumed : List Char) (groups : List String), k end_ = some b ∧
        end_.before = consumed.reverse ++ at_.before ∧ at_.after = consumed ++ end_.after ∧
          end_.groups = at_.groups ++ groups ∧ (Within P r → ∀ c ∈ consumed, P c) ∧
            (GroupsWithin P r → ∀ g ∈ groups, ∀ c ∈ g.toList, P c) := by
  induction r with
  | empty =>
    intro k at_ h
    exact ⟨at_, [], [], h, rfl, rfl, (List.append_nil _).symm, by simp, by simp⟩
  | chars p lo hi greedy =>
    intro k at_ h
    obtain ⟨consumed, rest, hk, hafter, hp⟩ := exists_of_runChars h
    exact ⟨_, consumed, [], hk, rfl, hafter, (List.append_nil _).symm,
      fun hP c hc => hP c (hp c hc), by simp⟩
  | seq r r' ih ih' =>
    intro k at_ h
    obtain ⟨mid, consumed, groups, hmid, hbefore, hafter, hgroups, hwithin, hin⟩ := ih h
    obtain ⟨end_, consumed', groups', hk, hbefore', hafter', hgroups', hwithin', hin'⟩ := ih' hmid
    refine ⟨end_, consumed ++ consumed', groups ++ groups', hk, ?_, ?_, ?_, fun hP c hc => ?_,
      fun hP g hg => ?_⟩
    · rw [hbefore', hbefore, List.reverse_append, List.append_assoc]
    · rw [hafter, hafter', List.append_assoc]
    · rw [hgroups', hgroups, List.append_assoc]
    · exact (List.mem_append.mp hc).elim (hwithin hP.1 c) (hwithin' hP.2 c)
    · exact (List.mem_append.mp hg).elim (hin hP.1 g) (hin' hP.2 g)
  | alt r r' ih ih' =>
    intro k at_ h
    rcases Option.or_eq_some_iff.mp h with h | ⟨-, h⟩
    · obtain ⟨end_, consumed, groups, hk, hbefore, hafter, hgroups, hwithin, hin⟩ := ih h
      exact ⟨end_, consumed, groups, hk, hbefore, hafter, hgroups, fun hP => hwithin hP.1,
        fun hP => hin hP.1⟩
    · obtain ⟨end_, consumed, groups, hk, hbefore, hafter, hgroups, hwithin, hin⟩ := ih' h
      exact ⟨end_, consumed, groups, hk, hbefore, hafter, hgroups, fun hP => hwithin hP.2,
        fun hP => hin hP.2⟩
  | group r ih =>
    intro k at_ h
    obtain ⟨end_, consumed, groups, hk, hbefore, hafter, hgroups, hwithin, hin⟩ := ih h
    -- the text of the group is what was consumed since it was opened
    have hlast :
        (end_.before.take (end_.before.length - at_.before.length)).reverse = consumed := by
      rw [hbefore, List.length_append, Nat.add_sub_cancel, List.take_left, List.reverse_reverse]
    rw [hlast] at hk
    refine ⟨_, consumed, groups ++ [String.ofList consumed], hk, hbefore, hafter, ?_,
      fun hP => hwithin hP, fun hP g hg => ?_⟩
    · rw [hgroups, List.append_assoc]
    · rcases List.mem_append.mp hg with hg | hg
      · exact hin hP.2 g hg
      · rw [List.mem_singleton.mp hg, String.toList_ofList]
        exact hwithin hP.1
  | boundary =>
    intro k at_ h
    rw [run] at h
    split_ifs at h
    exact ⟨at_, [], [], h, rfl, rfl, (List.append_nil _).symm, by simp, by simp⟩
  | atEnd =>
    intro k at_ h
    rw [run] at h
    split_ifs at h
    exact ⟨at_, [], [], h, rfl, rfl, (List.append_nil _).symm, by simp, by simp⟩

/-- **Key result.** The groups of a match only have characters that the expression allows them. -/
theorem mem_of_findSubmatch {P : Char → Prop} {r : Regex} (hr : GroupsWithin P r) {s : String}
    {groups : List String} (h : r.findSubmatch s = some groups) :
    ∀ g ∈ groups, ∀ c ∈ g.toList, P c := by
  obtain ⟨m, hm, rfl⟩ := Option.map_eq_some_iff.mp h
  have hrun : ∀ {before after : List Char}, r.run some ⟨before, after, []⟩ = some m →
      ∀ g ∈ m.groups, ∀ c ∈ g.toList, P c := by
    intro before after hrun
    obtain ⟨end_, -, groups, hend, -, -, hgroups, -, hin⟩ := exists_of_run (P := P) r hrun
    obtain rfl := Option.some.inj hend
    rw [hgroups, List.nil_append]
    exact hin hr
  have hfind : ∀ {after before : List Char}, r.find before after = some m →
      ∀ g ∈ m.groups, ∀ c ∈ g.toList, P c := by
    intro after
    induction after with
    | nil => exact fun h => hrun h
    | cons c cs ih =>
      intro before h
      rw [find] at h
      split at h
      · obtain rfl := Option.some.inj h
        exact hrun ‹_›
      · exact ih h
  exact hfind hm

theorem groupsWithin_seqs {P : Char → Prop} {rs : List Regex} (h : ∀ r ∈ rs, GroupsWithin P r) :
    GroupsWithin P (seqs rs) := by
  induction rs with
  | nil => trivial
  | cons r rs ih =>
    obtain ⟨hr, hrs⟩ := List.forall_mem_cons.mp h
    rcases rs with - | ⟨r', rs⟩
    · exact hr
    · exact ⟨hr, ih hrs⟩

theorem groupsWithin_alts {P : Char → Prop} {rs : List Regex} (h : ∀ r ∈ rs, GroupsWithin P r) :
    GroupsWithin P (alts rs) := by
  induction rs with
  | nil => trivial
  | cons r rs ih =>
    obtain ⟨hr, hrs⟩ := List.forall_mem_cons.mp h
    rcases rs with - | ⟨r', rs⟩
    · exact hr
    · exact ⟨hr, ih hrs⟩

/-- A literal has no groups. -/
theorem groupsWithin_text {P : Char → Prop} (same : Char → Char → Bool) (s : String) :
    GroupsWithin P (text same s) :=
  groupsWithin_seqs fun r hr => by
    obtain ⟨c, -, rfl⟩ := List.mem_map.mp hr
    trivial

/-! ### What a replacement leaves -/

/-- What a match leaves is the end of the text. -/
theorem suffix_of_run {r : Regex} {before after : List Char} {groups : List String} {m : Cursor}
    (h : r.run some ⟨before, after, groups⟩ = some m) : m.after <:+ after := by
  obtain ⟨end_, consumed, -, hend, -, hafter, -⟩ := exists_of_run (P := fun _ => True) r h
  obtain rfl := Option.some.inj hend
  exact ⟨consumed, hafter.symm⟩

/-- The characters after all replacements are those of the text and of the replacement. -/
theorem mem_of_mem_replaceAll {r : Regex} {s replacement : String} {c : Char}
    (h : c ∈ (r.replaceAll s replacement).toList) : c ∈ s.toList ∨ c ∈ replacement.toList := by
  suffices ∀ (n : ℕ) (before after : List Char),
      c ∈ r.replaceFrom replacement.toList n before after → c ∈ after ∨ c ∈ replacement.toList by
    rw [replaceAll, String.toList_ofList] at h
    exact this _ _ _ h
  intro n
  induction n with
  | zero => exact fun _ _ => Or.inl
  | succ n ih =>
    intro before after h
    cases after with
    | nil => exact absurd h List.not_mem_nil
    | cons d after =>
      rw [replaceFrom] at h
      split at h
      · rcases List.mem_append.mp h with h | h
        · exact .inr h
        · exact (ih _ _ h).imp_left fun hc => (suffix_of_run ‹_›).subset hc
      · rcases List.mem_cons.mp h with rfl | h
        · exact .inl List.mem_cons_self
        · exact (ih _ _ h).imp_left (List.mem_cons_of_mem d)

/-- A character of a kind that the replacement has as well does not vanish. -/
theorem exists_mem_replaceAll {P : Char → Prop} {r : Regex} {s replacement : String}
    (hs : ∃ c ∈ s.toList, P c) (hreplacement : ∃ c ∈ replacement.toList, P c) :
    ∃ c ∈ (r.replaceAll s replacement).toList, P c := by
  suffices ∀ (n : ℕ) (before after : List Char), (∃ c ∈ after, P c) →
      ∃ c ∈ r.replaceFrom replacement.toList n before after, P c by
    rw [replaceAll, String.toList_ofList]
    exact this _ _ _ hs
  intro n
  induction n with
  | zero => exact fun _ _ => id
  | succ n ih =>
    rintro before after ⟨c, hc, hP⟩
    cases after with
    | nil => exact absurd hc List.not_mem_nil
    | cons d after =>
      rw [replaceFrom]
      split
      · obtain ⟨e, he, hP⟩ := hreplacement
        exact ⟨e, List.mem_append_left _ he, hP⟩
      · rcases List.mem_cons.mp hc with rfl | hc
        · exact ⟨c, List.mem_cons_self, hP⟩
        · obtain ⟨e, he, hP⟩ := ih (d :: before) after ⟨c, hc, hP⟩
          exact ⟨e, List.mem_cons_of_mem d he, hP⟩

end Regex

end Foundations
