import Mathlib.Data.List.Basic
import Mathlib.Data.List.Flatten
import Mathlib.Data.List.Induction
import Mathlib.Data.List.Nodup
import Mathlib.Order.Lattice

/-!
# Segments and overlapping windows

A `Cutter` cuts a list into segments: each member goes on with the segment before it or starts a new
one, by a test on what the segment has come to. The cut of a list depends on where the list begins,
so that windows of one list that overlap need not be cut in the same places.

A reader of such windows keeps the segments whose first member is later than the last one that it
kept before. `kept_once_iff` says when this is right for one more window: no segment that starts in
what was seen before is kept, and what is new starts with a segment.
-/

namespace Foundations

/-! ### Cutting -/

/-- How a list is cut: what a segment comes to, and whether a member goes on with it. -/
structure Cutter (β γ : Type) where
  start : β → γ
  add : γ → β → γ
  joins : γ → β → Bool

namespace Cutter

variable {β γ : Type} (r : Cutter β γ)

/-- Cut a list that follows an open segment. -/
def cutFrom (cur : γ) (segment : List β) : List β → List (List β)
  | [] => [segment]
  | b :: bs =>
    if r.joins cur b then cutFrom (r.add cur b) (segment ++ [b]) bs
    else segment :: cutFrom (r.start b) [b] bs

/-- The segments of a list. -/
def cut : List β → List (List β)
  | [] => []
  | b :: bs => r.cutFrom (r.start b) [b] bs

/-- What a segment comes to. -/
def value : List β → Option γ
  | [] => none
  | b :: bs => some (bs.foldl r.add (r.start b))

theorem flatten_cutFrom (cur : γ) (segment bs : List β) :
    (r.cutFrom cur segment bs).flatten = segment ++ bs := by
  induction bs generalizing cur segment with
  | nil => rw [cutFrom, List.flatten_singleton, List.append_nil]
  | cons b bs ih =>
    rw [cutFrom]
    split_ifs
    · rw [ih, List.append_assoc, List.singleton_append]
    · rw [List.flatten_cons, ih, List.singleton_append]

/-- The segments are the list. -/
theorem flatten_cut (bs : List β) : (r.cut bs).flatten = bs := by
  cases bs with
  | nil => rfl
  | cons b bs => exact r.flatten_cutFrom _ _ _

theorem ne_nil_of_mem_cutFrom {cur : γ} {segment bs s : List β} (h : s ∈ r.cutFrom cur segment bs)
    (hsegment : segment ≠ []) : s ≠ [] := by
  induction bs generalizing cur segment with
  | nil =>
    rw [List.mem_singleton.mp h]
    exact hsegment
  | cons b bs ih =>
    rw [cutFrom] at h
    split_ifs at h
    · exact ih h (by simp)
    · rcases List.mem_cons.mp h with rfl | h
      · exact hsegment
      · exact ih h (by simp)

theorem ne_nil_of_mem_cut {bs s : List β} (h : s ∈ r.cut bs) : s ≠ [] := by
  cases bs with
  | nil => exact absurd h List.not_mem_nil
  | cons b bs => exact r.ne_nil_of_mem_cutFrom h (by simp)

/-- Every member of a segment goes on with what is before it in the segment. -/
def Joined (segment : List β) : Prop :=
  ∀ before b after, segment = before ++ b :: after →
    ∀ v, r.value before = some v → r.joins v b = true

/-- How a list is cut: its segments are not empty, a member within a segment goes on with what is
before it in the segment, and a segment starts where a member does not. -/
structure Cuts (bs : List β) (segments : List (List β)) : Prop where
  flatten : segments.flatten = bs
  ne_nil : ∀ s ∈ segments, s ≠ []
  joined : ∀ s ∈ segments, r.Joined s
  cut : ∀ before s s' after, segments = before ++ s :: s' :: after →
    ∀ v, r.value s = some v → ∀ b, s'.head? = some b → r.joins v b = false

variable {r}

theorem value_concat {segment : List β} {v : γ} (h : r.value segment = some v) (b : β) :
    r.value (segment ++ [b]) = some (r.add v b) := by
  cases segment with
  | nil => exact absurd h (by simp [value])
  | cons a segment =>
    obtain rfl := Option.some.inj h
    rw [List.cons_append, value, List.foldl_append]
    rfl

theorem joined_singleton (b : β) : r.Joined [b] := by
  intro before b' after heq v hv
  rcases before with - | ⟨a, before⟩
  · exact absurd hv (by simp [value])
  · exact absurd (congrArg List.length heq) (by simp)

/-- A segment grows by a member that goes on with it. -/
theorem Joined.concat {segment : List β} {cur : γ} {b : β} (h : r.Joined segment)
    (hcur : r.value segment = some cur) (hb : r.joins cur b = true) :
    r.Joined (segment ++ [b]) := by
  intro before b' after heq v hv
  rcases List.eq_nil_or_concat after with rfl | ⟨after, z, rfl⟩
  · obtain ⟨rfl, hbb⟩ := List.append_inj' heq rfl
    obtain rfl := (List.cons.inj hbb).1
    rw [← Option.some.inj (hcur.symm.trans hv)]
    exact hb
  · rw [List.concat_eq_append, ← List.cons_append, ← List.append_assoc] at heq
    exact h before b' after (List.append_inj' heq rfl).1 v hv

/-- What is cut after an open segment starts with that segment. -/
theorem exists_cutFrom (cur : γ) (segment bs : List β) : ∃ more segments,
    r.cutFrom cur segment bs = (segment ++ more) :: segments := by
  induction bs generalizing cur segment with
  | nil => exact ⟨[], [], by rw [List.append_nil]; rfl⟩
  | cons b bs ih =>
    rw [cutFrom]
    split_ifs
    · obtain ⟨more, segments, h⟩ := ih (r.add cur b) (segment ++ [b])
      exact ⟨b :: more, segments, by rw [h, List.append_assoc, List.singleton_append]⟩
    · exact ⟨[], _, by rw [List.append_nil]⟩

/-- How a list is cut after an open segment. -/
theorem cuts_cutFrom {cur : γ} {segment : List β} (bs : List β) (hcur : r.value segment = some cur)
    (hjoined : r.Joined segment) : r.Cuts (segment ++ bs) (r.cutFrom cur segment bs) := by
  have hsegment : segment ≠ [] := by
    rintro rfl
    exact absurd hcur (by simp [value])
  refine ⟨r.flatten_cutFrom _ _ _, fun s hs => r.ne_nil_of_mem_cutFrom hs hsegment, ?_, ?_⟩
  · induction bs generalizing cur segment with
    | nil =>
      intro s hs
      rw [List.mem_singleton.mp hs]
      exact hjoined
    | cons b bs ih =>
      rw [cutFrom]
      split_ifs with hb
      · exact ih (value_concat hcur b) (hjoined.concat hcur hb) (by simp)
      · intro s hs
        rcases List.mem_cons.mp hs with rfl | hs
        · exact hjoined
        · exact ih rfl (joined_singleton b) (List.cons_ne_nil b []) s hs
  · induction bs generalizing cur segment with
    | nil =>
      intro before s s' after heq
      exact absurd (congrArg List.length heq) (by simp [cutFrom]; omega)
    | cons b bs ih =>
      rw [cutFrom]
      split_ifs with hb
      · exact ih (value_concat hcur b) (hjoined.concat hcur hb) (by simp)
      · intro before s s' after heq v hv b' hb'
        rcases before with - | ⟨t, before⟩
        · -- the segment that is closed, and the one that is opened instead
          obtain ⟨rfl, hrest⟩ := List.cons.inj heq
          obtain ⟨more, segments, hcut⟩ := exists_cutFrom (r := r) (r.start b) [b] bs
          rw [hcut] at hrest
          obtain ⟨rfl, -⟩ := List.cons.inj hrest
          obtain rfl : b = b' := Option.some.inj hb'
          rw [← Option.some.inj (hcur.symm.trans hv)]
          exact Bool.eq_false_iff.mpr hb
        · exact ih rfl (joined_singleton b) (List.cons_ne_nil b []) before s s' after
            (List.cons.inj heq).2 v hv b' hb'

theorem cutFrom_concat {b : β} (h : ∀ v, r.joins v b = false) (cur : γ) (segment bs : List β) :
    r.cutFrom cur segment (bs ++ [b]) = r.cutFrom cur segment bs ++ [[b]] := by
  induction bs generalizing cur segment with
  | nil => exact if_neg (Bool.eq_false_iff.mp (h cur))
  | cons a bs ih =>
    rw [List.cons_append, cutFrom, cutFrom]
    split_ifs
    · exact ih _ _
    · rw [ih, List.cons_append]

/-- A member that never goes on with what is before it is a segment of its own. -/
theorem cut_concat {b : β} (h : ∀ v, r.joins v b = false) (bs : List β) :
    r.cut (bs ++ [b]) = r.cut bs ++ [[b]] := by
  cases bs with
  | nil => rfl
  | cons a bs => exact cutFrom_concat h _ _ _

/-- **How a list is cut.** -/
theorem cuts_cut (bs : List β) : r.Cuts bs (r.cut bs) := by
  cases bs with
  | nil =>
    refine ⟨rfl, fun s hs => absurd hs List.not_mem_nil, fun s hs => absurd hs List.not_mem_nil,
      fun before s s' after heq => absurd heq (by simp [cut])⟩
  | cons b bs => exact cuts_cutFrom bs rfl (joined_singleton b)

/-- Members that all go on with an open segment are part of it. -/
theorem cutFrom_of_joined {cur : γ} {segment : List β} (bs : List β)
    (hcur : r.value segment = some cur) (h : r.Joined (segment ++ bs)) :
    r.cutFrom cur segment bs = [segment ++ bs] := by
  induction bs generalizing cur segment with
  | nil => rw [List.append_nil]; rfl
  | cons b bs ih =>
    have hb : r.joins cur b = true := h segment b bs rfl cur hcur
    rw [cutFrom, if_pos hb, List.append_cons segment b bs]
    rw [List.append_cons segment b bs] at h
    exact ih (value_concat hcur b) h

/-- **When a list is one segment.** Every member goes on with what is before it. -/
theorem cut_eq_singleton_iff {bs : List β} (h : bs ≠ []) : r.cut bs = [bs] ↔ r.Joined bs := by
  constructor
  · intro hcut
    exact (cuts_cut bs).joined bs (hcut ▸ List.mem_singleton_self bs)
  · intro hjoined
    obtain ⟨b, rest, rfl⟩ := List.exists_cons_of_ne_nil h
    exact cutFrom_of_joined rest rfl hjoined

end Cutter

/-! ### Keeping what is later -/

section

variable {α β τ : Type} [LinearOrder τ]

/-- Whether something is later than the last that was kept. -/
def later (mark : Option τ) (time : τ) : Bool := mark.all fun t => decide (t < time)

/-- Keep what is later than all that was kept before; the last one kept is the new mark. -/
def keepLater (time : α → τ) : Option τ → List α → List α × Option τ
  | mark, [] => ([], mark)
  | mark, x :: xs =>
    if later mark (time x) then
      let (kept, mark') := keepLater time (some (time x)) xs
      (x :: kept, mark')
    else keepLater time mark xs

/-- Of a list in order, what is later than the mark is kept. -/
theorem keepLater_of_sorted {time : α → τ} {xs : List α}
    (hsorted : xs.Pairwise fun x y => time x < time y) (mark : Option τ) :
    keepLater time mark xs = (xs.filter fun x => later mark (time x),
      ((xs.filter fun x => later mark (time x)).getLast?.map time).or mark) := by
  induction xs generalizing mark with
  | nil => rfl
  | cons x xs ih =>
    obtain ⟨hx, hxs⟩ := List.pairwise_cons.mp hsorted
    rw [keepLater, List.filter_cons]
    split_ifs with hlater
    · -- after a member that is kept all the others are later than the mark as well
      have hall : xs.filter (fun y => later (some (time x)) (time y)) = xs :=
        List.filter_eq_self.mpr fun y hy => decide_eq_true (hx y hy)
      have hall' : xs.filter (fun y => later mark (time y)) = xs := by
        refine List.filter_eq_self.mpr fun y hy => ?_
        cases mark with
        | none => rfl
        | some t => exact decide_eq_true ((of_decide_eq_true hlater).trans (hx y hy))
      rw [ih hxs, hall, hall']
      rcases List.eq_nil_or_concat xs with rfl | ⟨ys, y, rfl⟩
      · rfl
      · simp [List.getLast?_cons]
    · exact ih hxs mark

theorem mem_of_mem_keepLater {time : α → τ} {xs : List α} {mark : Option τ} {x : α}
    (h : x ∈ (keepLater time mark xs).1) : x ∈ xs := by
  induction xs generalizing mark with
  | nil => exact h
  | cons y xs ih =>
    rw [keepLater] at h
    split_ifs at h
    · rcases List.mem_cons.mp h with rfl | h
      · exact List.mem_cons_self
      · exact List.mem_cons_of_mem _ (ih h)
    · exact List.mem_cons_of_mem _ (ih h)

/-- What is kept is later than the mark. -/
theorem later_of_mem_keepLater {time : α → τ} {xs : List α} {mark : Option τ} {x : α}
    (h : x ∈ (keepLater time mark xs).1) : later mark (time x) = true := by
  induction xs generalizing mark with
  | nil => exact absurd h List.not_mem_nil
  | cons y xs ih =>
    rw [keepLater] at h
    split_ifs at h with hlater
    · rcases List.mem_cons.mp h with rfl | h
      · exact hlater
      · have hy := of_decide_eq_true (ih h)
        cases mark with
        | none => rfl
        | some t => exact decide_eq_true ((of_decide_eq_true hlater).trans hy)
    · exact ih h

/-- The mark does not go back. -/
theorem later_of_later_keepLater {time : α → τ} {xs : List α} {mark : Option τ} {t : τ}
    (h : later (keepLater time mark xs).2 t = true) : later mark t = true := by
  induction xs generalizing mark with
  | nil => exact h
  | cons y xs ih =>
    rw [keepLater] at h
    split_ifs at h with hlater
    · have hy := of_decide_eq_true (ih h)
      cases mark with
      | none => rfl
      | some t => exact decide_eq_true ((of_decide_eq_true hlater).trans hy)
    · exact ih h

/-- What is later than the mark and than all before it is kept. -/
theorem mem_keepLater {time : α → τ} {before after : List α} {mark : Option τ} {x : α}
    (hmark : later mark (time x) = true) (hbefore : ∀ y ∈ before, time y < time x) :
    x ∈ (keepLater time mark (before ++ x :: after)).1 := by
  induction before generalizing mark with
  | nil =>
    rw [List.nil_append, keepLater, if_pos hmark]
    exact List.mem_cons_self
  | cons y before ih =>
    obtain ⟨hy, hbefore⟩ := List.forall_mem_cons.mp hbefore
    rw [List.cons_append, keepLater]
    split_ifs with hlater
    · exact List.mem_cons_of_mem _ (ih (decide_eq_true hy) hbefore)
    · exact ih hmark hbefore

/-- Whether a segment starts later than the mark. -/
def startsLater (time : β → τ) (mark : Option τ) (segment : List β) : Bool :=
  segment.head?.all fun b => later mark (time b)

/-- The segments of a window agree with what was seen before: none that starts there is kept, and
what is new starts with a segment. -/
structure Meets (time : β → τ) (mark : Option τ) (segments : List (List β)) (old new : List β) :
    Prop where
  old : ∀ s ∈ segments, ∀ b ∈ s.head?, b ∈ old → later mark (time b) = false
  new : ∀ b ∈ new.head?, ∃ s ∈ segments, s.head? = some b

instance [DecidableEq β] (time : β → τ) (mark : Option τ) (segments : List (List β))
    (old new : List β) : Decidable (Meets time mark segments old new) :=
  decidable_of_iff ((∀ s ∈ segments, ∀ b ∈ s.head?, b ∈ old → later mark (time b) = false) ∧
      ∀ b ∈ new.head?, ∃ s ∈ segments, s.head? = some b)
    ⟨fun h => ⟨h.1, h.2⟩, fun h => ⟨h.old, h.new⟩⟩

variable {time : β → τ} {mark : Option τ} {segments : List (List β)} {old new : List β}

/-- Where the segments meet what was seen before, exactly what is new is kept. -/
theorem Meets.flatten_kept (h : Meets time mark segments old new)
    (hflatten : segments.flatten = old ++ new) (hne : ∀ s ∈ segments, s ≠ [])
    (hnodup : (old ++ new).Nodup) (hmark : ∀ b ∈ new, later mark (time b) = true) :
    (segments.filter (startsLater time mark)).flatten = new := by
  have hdrop : ∀ segs : List (List β), (∀ s ∈ segs, s ∈ segments) → (∀ b ∈ segs.flatten, b ∈ old) →
      segs.filter (startsLater time mark) = [] := by
    intro segs hsub hold
    refine List.filter_eq_nil_iff.mpr fun s hs hstarts => ?_
    rcases s with - | ⟨b, s⟩
    · exact hne [] (hsub _ hs) rfl
    · have hb : b ∈ old := hold b (List.mem_flatten.mpr ⟨_, hs, List.mem_cons_self⟩)
      have hstarts' : later mark (time b) = true := hstarts
      rw [h.old _ (hsub _ hs) b rfl hb] at hstarts'
      exact absurd hstarts' (by decide)
  rcases new with - | ⟨f, new⟩
  · rw [hdrop segments (fun _ => id) fun b hb => by rwa [hflatten, List.append_nil] at hb,
      List.flatten_nil]
  · obtain ⟨s, hs, hhead⟩ := h.new f rfl
    obtain ⟨before, after, rfl⟩ := List.append_of_mem hs
    obtain ⟨s, rfl⟩ := List.head?_eq_some_iff.mp hhead
    -- the first new member is in one place only, so that the segments are cut there
    rw [List.flatten_append, List.flatten_cons, List.cons_append] at hflatten
    have hbefore : before.flatten = old ∧ s ++ after.flatten = new := by
      obtain ⟨-, hrest, hdisjoint⟩ := List.nodup_append.mp (hflatten ▸ hnodup)
      obtain ⟨hold, -, hnew⟩ := (List.append_cons_inj_of_notMem
        (fun hf => hdisjoint f hf f List.mem_cons_self rfl)
        (List.nodup_cons.mp hrest).1).mp hflatten
      exact ⟨hold, hnew⟩
    have hlater : ((f :: s) :: after).filter (startsLater time mark) = (f :: s) :: after := by
      refine List.filter_eq_self.mpr fun t ht => ?_
      rcases t with - | ⟨b, t⟩
      · rfl
      · refine hmark b ?_
        have hmem : b ∈ ((f :: s) :: after).flatten :=
          List.mem_flatten.mpr ⟨_, ht, List.mem_cons_self⟩
        rwa [List.flatten_cons, List.cons_append, hbefore.2] at hmem
    rw [List.filter_append, hlater, hdrop before (fun t ht => List.mem_append_left _ ht)
      fun b hb => hbefore.1 ▸ hb, List.nil_append, List.flatten_cons, List.cons_append, hbefore.2]

/-- **When what is new is kept, and only that.** The segments meet what was seen before. -/
theorem kept_once_iff (hflatten : segments.flatten = old ++ new) (hne : ∀ s ∈ segments, s ≠ [])
    (hsorted : (old ++ new).Pairwise fun b b' => time b < time b')
    (hmark : ∀ b ∈ new, later mark (time b) = true) :
    ((∀ b ∈ old, b ∉ (segments.filter (startsLater time mark)).flatten) ∧
        ∀ b ∈ new, b ∈ (segments.filter (startsLater time mark)).flatten) ↔
      Meets time mark segments old new := by
  have hnodup : (old ++ new).Nodup := hsorted.imp fun h => by
    rintro rfl
    exact lt_irrefl _ h
  constructor
  · rintro ⟨hdropped, hkept⟩
    have hold : ∀ s ∈ segments, ∀ b ∈ s.head?, b ∈ old → later mark (time b) = false := by
      intro s hs b hb hmem
      by_contra hlater
      have hstarts : startsLater time mark s = true := by
        rw [startsLater, hb, Option.all_some]
        exact Bool.not_eq_false _ ▸ hlater
      exact hdropped b hmem (List.mem_flatten.mpr
        ⟨s, List.mem_filter.mpr ⟨hs, hstarts⟩, List.mem_of_head? hb⟩)
    refine ⟨hold, fun f hf => ?_⟩
    obtain ⟨new, rfl⟩ := List.head?_eq_some_iff.mp hf
    obtain ⟨s, hs, hfs⟩ := List.mem_flatten.mp (hkept f List.mem_cons_self)
    obtain ⟨hs, hstarts⟩ := List.mem_filter.mp hs
    obtain ⟨b, t, rfl⟩ := List.exists_cons_of_ne_nil (hne s hs)
    refine ⟨_, hs, ?_⟩
    rcases List.mem_cons.mp hfs with rfl | hft
    · rfl
    · -- the segment would start before what is new, or after its first member
      exfalso
      have hsub : (b :: t).Sublist (old ++ f :: new) := by
        rw [← hflatten]
        exact List.sublist_flatten_of_mem hs
      have hlt : time b < time f := (List.pairwise_cons.mp (hsorted.sublist hsub)).1 f hft
      have hb : later mark (time b) = true := by simpa [startsLater] using hstarts
      rcases List.mem_append.mp (hsub.subset List.mem_cons_self) with hbold | hbnew
      · rw [hold _ hs b rfl hbold] at hb
        exact absurd hb (by decide)
      · rcases List.mem_cons.mp hbnew with rfl | hbnew
        · exact lt_irrefl _ hlt
        · have hnew := (List.pairwise_append.mp hsorted).2.1
          exact lt_asymm hlt ((List.pairwise_cons.mp hnew).1 b hbnew)
  · intro h
    rw [h.flatten_kept hflatten hne hnodup hmark]
    refine ⟨fun b hold hnew => ?_, fun b => id⟩
    exact (List.nodup_append.mp hnodup).2.2 b hold b hnew rfl

end

/-! ### Runs of windows -/

section

variable {β γ τ : Type} [LinearOrder τ]

/-- What a window shows: members that were seen before, and then new ones. -/
structure Window (β : Type) where
  old : List β
  new : List β

namespace Window

/-- The whole window. -/
def whole (w : Window β) : List β := w.old ++ w.new

/-- The segments of a window that are kept. -/
def kept (r : Cutter β γ) (time : β → τ) (mark : Option τ) (w : Window β) : List (List β) :=
  (r.cut w.whole).filter (startsLater time mark)

/-- The mark after a window: where the last segment that was kept starts. -/
def markAfter (r : Cutter β γ) (time : β → τ) (mark : Option τ) (w : Window β) : Option τ :=
  (((w.kept r time mark).getLast?.bind List.head?).map time).or mark

/-- The segments that are kept of some windows. -/
def emitted (r : Cutter β γ) (time : β → τ) : Option τ → List (Window β) → List (List β)
  | _, [] => []
  | mark, w :: ws => w.kept r time mark ++ emitted r time (w.markAfter r time mark) ws

/-- The segments of each window meet what was seen before it. -/
def AllMeet (r : Cutter β γ) (time : β → τ) : Option τ → List (Window β) → Prop
  | _, [] => True
  | mark, w :: ws => Meets time mark (r.cut w.whole) w.old w.new ∧
    AllMeet r time (w.markAfter r time mark) ws

/-- Whether the windows meet can be computed. -/
def decideAllMeet [DecidableEq β] (r : Cutter β γ) (time : β → τ) : ∀ (mark : Option τ)
    (ws : List (Window β)), Decidable (AllMeet r time mark ws)
  | _, [] => isTrue trivial
  | mark, w :: ws =>
    @instDecidableAnd _ _ inferInstance (decideAllMeet r time (w.markAfter r time mark) ws)

instance [DecidableEq β] (r : Cutter β γ) (time : β → τ) (mark : Option τ)
    (ws : List (Window β)) : Decidable (AllMeet r time mark ws) := decideAllMeet r time mark ws

/-- The old members of each window are the last of those that were seen before. -/
def Overlap : List β → List (Window β) → Prop
  | _, [] => True
  | seen, w :: ws => w.old <:+ seen ∧ Overlap (seen ++ w.new) ws

/-- Of what was seen before nothing is kept again, and what is new is kept once. -/
def KeepsOnce [DecidableEq β] (r : Cutter β γ) (time : β → τ) (seen : List β) (mark : Option τ)
    (ws : List (Window β)) : Prop :=
  (∀ b ∈ seen, (emitted r time mark ws).flatten.count b = 0) ∧
    ∀ b ∈ ws.flatMap new, (emitted r time mark ws).flatten.count b = 1

variable {r : Cutter β γ} {time : β → τ} {mark : Option τ} {w : Window β} {seen rest : List β}

theorem kept_sublist (w : Window β) : (w.kept r time mark).flatten.Sublist w.whole := by
  have h : (w.kept r time mark).flatten.Sublist (r.cut w.whole).flatten :=
    List.filter_sublist.flatten
  rwa [r.flatten_cut] at h

/-- What comes after a window is later than the mark after it. -/
theorem later_markAfter (hold : w.old <:+ seen)
    (hsorted : (seen ++ w.new ++ rest).Pairwise fun b b' => time b < time b')
    (hmark : ∀ b ∈ rest, later mark (time b) = true) :
    ∀ b ∈ rest, later (w.markAfter r time mark) (time b) = true := by
  intro b hb
  rw [markAfter]
  rcases hhead : (w.kept r time mark).getLast?.bind List.head? with - | first
  · exact hmark b hb
  · obtain ⟨segment, hsegment, hfirst⟩ := Option.bind_eq_some_iff.mp hhead
    have hmem : first ∈ w.whole := (kept_sublist w).subset
      (List.mem_flatten.mpr ⟨segment, List.mem_of_getLast? hsegment, List.mem_of_head? hfirst⟩)
    have hseen : first ∈ seen ++ w.new := (List.mem_append.mp hmem).elim
      (fun h => List.mem_append_left _ (hold.subset h)) fun h => List.mem_append_right _ h
    exact decide_eq_true ((List.pairwise_append.mp hsorted).2.2 first hseen b hb)

variable [DecidableEq β]

/-- One window keeps what is new once, and nothing of what was seen before, if and only if its
segments meet what was seen before. -/
theorem kept_count_iff (hold : w.old <:+ seen)
    (hsorted : (seen ++ w.new).Pairwise fun b b' => time b < time b')
    (hmark : ∀ b ∈ w.new, later mark (time b) = true) :
    ((∀ b ∈ seen, (w.kept r time mark).flatten.count b = 0) ∧
        ∀ b ∈ w.new, (w.kept r time mark).flatten.count b = 1) ↔
      Meets time mark (r.cut w.whole) w.old w.new := by
  have hwhole : w.whole.Sublist (seen ++ w.new) := hold.sublist.append (List.Sublist.refl w.new)
  have hwindow : (w.old ++ w.new).Pairwise fun b b' => time b < time b' := hsorted.sublist hwhole
  have hnodup : (seen ++ w.new).Nodup := hsorted.imp fun h => by
    rintro rfl
    exact lt_irrefl _ h
  have hkept : (w.kept r time mark).flatten.Nodup :=
    hnodup.sublist ((kept_sublist w).trans hwhole)
  rw [← kept_once_iff (r.flatten_cut w.whole) (fun s hs => r.ne_nil_of_mem_cut hs) hwindow hmark]
  refine and_congr ⟨fun h b hb => ?_, fun h b hb => ?_⟩
    ⟨fun h b hb => ?_, fun h b hb => List.count_eq_one_of_mem hkept (h b hb)⟩
  · exact List.count_eq_zero.mp (h b (hold.subset hb))
  · refine List.count_eq_zero.mpr fun hmem => ?_
    rcases List.mem_append.mp ((kept_sublist w).subset hmem) with hmemold | hmemnew
    · exact h b hmemold hmem
    · exact (List.nodup_append.mp hnodup).2.2 b hb b hmemnew rfl
  · exact List.count_pos_iff.mp (h b hb ▸ Nat.one_pos)

/-- **When a run of windows keeps each member once.** Its windows all meet what was seen before
them. -/
theorem keepsOnce_iff {ws : List (Window β)} (hoverlap : Overlap seen ws)
    (hsorted : (seen ++ ws.flatMap new).Pairwise fun b b' => time b < time b')
    (hmark : ∀ b ∈ ws.flatMap new, later mark (time b) = true) :
    (∀ before, before <+: ws → KeepsOnce r time seen mark before) ↔ AllMeet r time mark ws := by
  induction ws generalizing seen mark with
  | nil =>
    refine iff_of_true (fun before hbefore => ?_) trivial
    rw [List.prefix_nil.mp hbefore]
    exact ⟨fun b _ => rfl, fun b hb => absurd hb List.not_mem_nil⟩
  | cons w ws ih =>
    obtain ⟨hold, hoverlap⟩ := hoverlap
    rw [List.flatMap_cons, ← List.append_assoc] at hsorted
    rw [List.flatMap_cons] at hmark
    obtain ⟨hmarkw, hmarks⟩ := List.forall_mem_append.mp hmark
    have hmarks' := later_markAfter (r := r) hold hsorted hmarks
    have hstep := kept_count_iff (r := r) hold (List.pairwise_append.mp hsorted).1 hmarkw
    rw [AllMeet, ← hstep, ← ih hoverlap hsorted hmarks']
    -- a longer run counts what the first window kept and what the rest keeps
    have hcount : ∀ (before : List (Window β)) (b : β),
        (emitted r time mark (w :: before)).flatten.count b =
          (w.kept r time mark).flatten.count b +
            (emitted r time (w.markAfter r time mark) before).flatten.count b := by
      intro before b
      rw [emitted, List.flatten_append, List.count_append]
    -- what is new in a later window is not among the lines of this one
    have hfresh : ∀ b ∈ ws.flatMap new, (w.kept r time mark).flatten.count b = 0 := by
      intro b hb
      refine List.count_eq_zero.mpr fun hmem => ?_
      have hseen : b ∈ seen ++ w.new :=
        (List.mem_append.mp ((kept_sublist w).subset hmem)).elim
          (fun h => List.mem_append_left _ (hold.subset h)) fun h => List.mem_append_right _ h
      exact lt_irrefl _ ((List.pairwise_append.mp hsorted).2.2 b hseen b hb)
    constructor
    · intro h
      have hw : (∀ b ∈ seen, (w.kept r time mark).flatten.count b = 0) ∧
          ∀ b ∈ w.new, (w.kept r time mark).flatten.count b = 1 := by
        obtain ⟨hseen, hnew⟩ := h [w] ⟨ws, rfl⟩
        refine ⟨fun b hb => ?_, fun b hb => ?_⟩
        · simpa [hcount, emitted] using hseen b hb
        · simpa [hcount, emitted] using hnew b (by simpa using hb)
      refine ⟨hw, fun before hbefore => ⟨fun b hb => ?_, fun b hb => ?_⟩⟩
      · obtain ⟨hseen, hnew⟩ := h (w :: before) (List.cons_prefix_cons.mpr ⟨rfl, hbefore⟩)
        rcases List.mem_append.mp hb with hb | hb
        · have hzero := hseen b hb
          rw [hcount] at hzero
          omega
        · have hone := hnew b (by rw [List.flatMap_cons]; exact List.mem_append_left _ hb)
          rw [hcount, hw.2 b hb] at hone
          omega
      · obtain ⟨-, hnew⟩ := h (w :: before) (List.cons_prefix_cons.mpr ⟨rfl, hbefore⟩)
        have hone := hnew b (by rw [List.flatMap_cons]; exact List.mem_append_right _ hb)
        have hlater : b ∈ ws.flatMap new := by
          obtain ⟨more, rfl⟩ := hbefore
          rw [List.flatMap_append]
          exact List.mem_append_left _ hb
        rwa [hcount, hfresh b hlater, Nat.zero_add] at hone
    · rintro ⟨hw, hrest⟩ before hbefore
      rcases before with - | ⟨v, before⟩
      · exact ⟨fun b _ => rfl, fun b hb => absurd hb List.not_mem_nil⟩
      · obtain ⟨rfl, hsub⟩ := List.cons_prefix_cons.mp hbefore
        obtain ⟨hseen, hnew⟩ := hrest before hsub
        refine ⟨fun b hb => ?_, fun b hb => ?_⟩
        · rw [hcount, hw.1 b hb, hseen b (List.mem_append_left _ hb)]
        · rw [List.flatMap_cons] at hb
          rw [hcount]
          rcases List.mem_append.mp hb with hb | hb
          · rw [hw.2 b hb, hseen b (List.mem_append_right _ hb)]
          · have hlater : b ∈ ws.flatMap new := by
              obtain ⟨more, rfl⟩ := hsub
              rw [List.flatMap_append]
              exact List.mem_append_left _ hb
            rw [hfresh b hlater, hnew b hb]

end Window

end

end Foundations
