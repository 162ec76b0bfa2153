import Mathlib.Data.List.Infix
import Mathlib.Data.List.Perm.Basic
import Mathlib.Data.List.Sort
import Mathlib.Order.Basic

/-!
# Rows by descending key

`Ranked key rows sorted` says that a list is a possible answer of `ORDER BY key DESC`: rows of one
key may stand in any order. `rankStable` is the stable sort, which keeps the order that such rows
had. In both, the rows of a key stand after all the rows of larger keys and before all the others
(`Ranked.split`), so that the number of those decides whether a `LIMIT` reaches them.
-/

namespace Foundations

variable {ρ κ : Type} [LinearOrder κ] {key : ρ → κ} {rows sorted : List ρ}

/-- The possible answers of `ORDER BY key DESC`. -/
def Ranked (key : ρ → κ) (rows sorted : List ρ) : Prop :=
  sorted.Perm rows ∧ sorted.Pairwise fun a b => key b ≤ key a

/-- The stable sort by descending key. -/
def rankStable (key : ρ → κ) (rows : List ρ) : List ρ :=
  rows.mergeSort fun a b => decide (key b ≤ key a)

theorem ranked_rankStable (key : ρ → κ) (rows : List ρ) :
    Ranked key rows (rankStable key rows) := by
  refine ⟨List.mergeSort_perm _ _, (List.pairwise_mergeSort ?_ ?_ rows).imp of_decide_eq_true⟩
  · intro a b c hab hbc
    exact decide_eq_true ((of_decide_eq_true hbc).trans (of_decide_eq_true hab))
  · intro a b
    rw [Bool.or_eq_true, decide_eq_true_iff, decide_eq_true_iff]
    exact le_total _ _

theorem Ranked.of_perm {rows' : List ρ} (h : Ranked key rows sorted) (hperm : rows.Perm rows') :
    Ranked key rows' sorted := ⟨h.1.trans hperm, h.2⟩

theorem Ranked.map {σ : Type} {f : ρ → σ} {key' : σ → κ} (h : Ranked key rows sorted)
    (hkey : ∀ r, key' (f r) = key r) : Ranked key' (rows.map f) (sorted.map f) :=
  ⟨h.1.map f, List.pairwise_map.mpr (h.2.imp fun hab => by rwa [hkey, hkey])⟩

/-- A descending list is the rows of larger keys, those of a key and those of smaller keys. -/
theorem Ranked.split (h : Ranked key rows sorted) (k : κ) :
    sorted = (sorted.filter fun r => k < key r) ++ (sorted.filter fun r => key r = k) ++
      sorted.filter fun r => key r < k := by
  replace h := h.2
  induction sorted with
  | nil => rfl
  | cons r l ih =>
    obtain ⟨hr, hl⟩ := List.pairwise_cons.mp h
    replace ih := ih hl
    rcases lt_trichotomy k (key r) with hlt | rfl | hlt
    · rw [List.filter_cons_of_pos (by simpa using hlt),
        List.filter_cons_of_neg (by simpa using hlt.ne'),
        List.filter_cons_of_neg (by simpa using hlt.le), List.cons_append, List.cons_append, ← ih]
    · have hnone : (l.filter fun r' => key r < key r') = [] :=
        List.filter_eq_nil_iff.mpr fun r' hr' => by simpa using hr r' hr'
      rw [hnone, List.nil_append] at ih
      rw [List.filter_cons_of_neg (by simp), hnone, List.filter_cons_of_pos (by simp),
        List.filter_cons_of_neg (by simp), List.nil_append, List.cons_append, ← ih]
    · have hall : ((r :: l).filter fun r' => key r' < k) = r :: l :=
        List.filter_eq_self.mpr fun r' hr' => by
          rcases List.mem_cons.mp hr' with rfl | hr'
          · simpa using hlt
          · simpa using (hr r' hr').trans_lt hlt
      have hnone : ∀ p : ρ → Bool, (∀ r', key r' < k → p r' = false) → (r :: l).filter p = [] :=
        fun p hp => List.filter_eq_nil_iff.mpr fun r' hr' => by
          have hmem := List.mem_filter.mp (hall ▸ hr')
          simp [hp r' (by simpa using hmem.2)]
      rw [hall, hnone _ fun r' h => by simpa using h.le, hnone _ fun r' h => by simpa using h.ne,
        List.nil_append, List.nil_append]

/-- The stable sort keeps the order of the rows of a key. -/
theorem filter_rankStable (key : ρ → κ) (rows : List ρ) (k : κ) :
    ((rankStable key rows).filter fun r => key r = k) = rows.filter fun r => key r = k := by
  have hranked := ranked_rankStable key rows
  have hties : (rows.filter fun r => key r = k).Pairwise
      fun a b => decide (key b ≤ key a) = true := by
    refine List.pairwise_of_forall_mem_list fun a ha b hb => ?_
    have ha := of_decide_eq_true (List.mem_filter.mp ha).2
    have hb := of_decide_eq_true (List.mem_filter.mp hb).2
    exact decide_eq_true (hb.trans ha.symm).le
  have hsub : (rows.filter fun r => key r = k).Sublist (rankStable key rows) := by
    refine List.sublist_mergeSort ?_ ?_ hties List.filter_sublist
    · intro a b c hab hbc
      exact decide_eq_true ((of_decide_eq_true hbc).trans (of_decide_eq_true hab))
    · intro a b
      rw [Bool.or_eq_true, decide_eq_true_iff, decide_eq_true_iff]
      exact le_total _ _
  have hfiltered := hsub.filter fun r => key r = k
  simp only [List.filter_filter, Bool.and_self] at hfiltered
  exact (hfiltered.eq_of_length (hranked.1.filter _).length_eq.symm).symm

/-! ### What a limit reaches -/

theorem length_lt_of_mem_take {l l' : List ρ} {x : ρ} {n : ℕ} (h : x ∈ (l ++ l').take n)
    (hx : x ∉ l) : l.length < n := by
  by_contra hn
  rw [List.take_append_of_le_length (not_lt.mp hn)] at h
  exact hx (List.mem_of_mem_take h)

theorem mem_take_of_length_lt {l l' : List ρ} {x : ρ} {n : ℕ} (h : l.length < n) :
    x ∈ (l ++ x :: l').take n := by
  refine List.mem_take_iff_getElem.mpr ⟨l.length, ?_, ?_⟩
  · rw [List.length_append, List.length_cons]
    omega
  · rw [List.getElem_append_right le_rfl]
    simp

/-- A limit that reaches a row leaves out fewer rows of larger keys. -/
theorem Ranked.countP_lt (h : Ranked key rows sorted) {x : ρ} {n : ℕ} (hx : x ∈ sorted.take n) :
    rows.countP (fun r => key x < key r) < n := by
  have hmem : x ∉ sorted.filter fun r => key x < key r := fun hmem =>
    lt_irrefl _ (of_decide_eq_true (List.mem_filter.mp hmem).2)
  rw [h.split (key x), List.append_assoc] at hx
  rw [← h.1.countP_eq, List.countP_eq_length_filter]
  exact length_lt_of_mem_take hx hmem

/-- A limit that reaches a row reaches all the rows of larger keys. -/
theorem Ranked.countP_take (h : Ranked key rows sorted) {x : ρ} {n : ℕ} (hx : x ∈ sorted.take n)
    {p : ρ → Bool} (hp : ∀ r, p r = true → key x < key r) :
    (sorted.take n).countP p = rows.countP p := by
  have hdrop : (sorted.drop n).countP p = 0 := by
    refine List.countP_eq_zero.mpr fun r hr hpr => ?_
    have hsorted := h.2
    rw [← List.take_append_drop n sorted] at hsorted
    exact ((List.pairwise_append.mp hsorted).2.2 x hx r hr).not_gt (hp r hpr)
  calc (sorted.take n).countP p
      = (sorted.take n).countP p + (sorted.drop n).countP p := by rw [hdrop, Nat.add_zero]
    _ = sorted.countP p := by rw [← List.countP_append, List.take_append_drop]
    _ = rows.countP p := h.1.countP_eq p

/-- The rows in front of the second list's rows of a key, after a stable sort. -/
theorem rankStable_append (key : ρ → κ) (first second : List ρ) (k : κ) :
    ∃ front back : List ρ,
      rankStable key (first ++ second) = front ++ (second.filter fun r => key r = k) ++ back ∧
        (∀ r ∈ front, k < key r ∨ r ∈ first ∧ key r = k) ∧ (∀ r ∈ back, key r < k) ∧
          front.length =
            first.countP (fun r => k ≤ key r) + second.countP (fun r => k < key r) := by
  have hranked := ranked_rankStable key (first ++ second)
  refine ⟨((rankStable key (first ++ second)).filter fun r => k < key r) ++
    first.filter fun r => key r = k, (rankStable key (first ++ second)).filter fun r => key r < k,
    ?_, fun r hr => ?_, fun r hr => of_decide_eq_true (List.mem_filter.mp hr).2, ?_⟩
  · conv_lhs => rw [hranked.split k, filter_rankStable, List.filter_append]
    simp only [List.append_assoc]
  · rcases List.mem_append.mp hr with hr | hr
    · exact Or.inl (of_decide_eq_true (List.mem_filter.mp hr).2)
    · obtain ⟨hr, heq⟩ := List.mem_filter.mp hr
      exact Or.inr ⟨hr, of_decide_eq_true heq⟩
  · have hle : ∀ l : List ρ, l.countP (fun r => k ≤ key r) =
        l.countP (fun r => k < key r) + l.countP (fun r => key r = k) := by
      intro l
      induction l with
      | nil => rfl
      | cons r l ih =>
        simp only [List.countP_cons, decide_eq_true_eq, le_iff_lt_or_eq, eq_comm (a := k)]
        split_ifs <;> grind
    rw [List.length_append, ← List.countP_eq_length_filter, ← List.countP_eq_length_filter,
      hranked.1.countP_eq, List.countP_append, hle]
    omega

/-- A row may stand right after the rows of larger keys. -/
theorem exists_ranked_first (key : ρ → κ) {x : ρ} (hx : x ∈ rows) :
    ∃ front rest : List ρ, Ranked key rows (front ++ x :: rest) ∧ (∀ r ∈ front, key x < key r) ∧
      front.length = rows.countP fun r => key x < key r := by
  obtain ⟨l, l', rfl⟩ := List.append_of_mem hx
  have hperm : (x :: (l ++ l')).Perm (l ++ x :: l') := List.perm_middle.symm
  obtain ⟨front, back, heq, hfront, -, hlength⟩ := rankStable_append key [] (x :: (l ++ l')) (key x)
  rw [List.nil_append, List.filter_cons_of_pos (by simp), List.append_assoc,
    List.cons_append] at heq
  refine ⟨front, (l ++ l').filter (fun r => key r = key x) ++ back, ?_,
    fun r hr => (hfront r hr).resolve_right fun h => List.not_mem_nil h.1, ?_⟩
  · rw [← heq]
    exact (ranked_rankStable key _).of_perm hperm
  · rw [hlength, ← hperm.countP_eq, List.countP_nil, Nat.zero_add]

/-! ### Pages -/

/-- No two rows of one key are on both sides of the first `n`: some rows have at least some key,
and they are `n`. -/
def GapAt (key : ρ → κ) (rows : List ρ) (n : ℕ) : Prop :=
  n = 0 ∨ rows.length ≤ n ∨ ∃ k, rows.countP (fun r => k ≤ key r) = n

/-- In a descending list, the rows of at least some key are the first ones. -/
theorem take_countP {l : List ρ} (h : l.Pairwise fun a b => key b ≤ key a) (k : κ) :
    l.take (l.countP fun r => k ≤ key r) = l.filter fun r => k ≤ key r := by
  induction l with
  | nil => rfl
  | cons r l ih =>
    obtain ⟨hr, hl⟩ := List.pairwise_cons.mp h
    by_cases hk : k ≤ key r
    · rw [List.countP_cons_of_pos (by simpa using hk), List.take_succ_cons, ih hl,
        List.filter_cons_of_pos (by simpa using hk)]
    · have hnone : ∀ r' ∈ r :: l, ¬ (decide (k ≤ key r') = true) := by
        intro r' hr' hk'
        rcases List.mem_cons.mp hr' with rfl | hr'
        · exact hk (of_decide_eq_true hk')
        · exact hk ((of_decide_eq_true hk').trans (hr r' hr'))
      rw [List.countP_eq_zero.mpr hnone, List.filter_eq_nil_iff.mpr hnone, List.take_zero]

/-- In a gap, all answers have the same rows first. -/
theorem GapAt.take_perm {n : ℕ} (hgap : GapAt key rows n) {sorted' : List ρ}
    (h : Ranked key rows sorted) (h' : Ranked key rows sorted') :
    (sorted.take n).Perm (sorted'.take n) := by
  rcases hgap with rfl | hlength | ⟨k, rfl⟩
  · exact List.Perm.refl _
  · rw [List.take_of_length_le (h.1.length_eq.trans_le hlength),
      List.take_of_length_le (h'.1.length_eq.trans_le hlength)]
    exact h.1.trans h'.1.symm
  · rw [← h.1.countP_eq, take_countP h.2, h.1.countP_eq, ← h'.1.countP_eq, take_countP h'.2]
    exact (h.1.trans h'.1.symm).filter _

/-- Between two gaps, all answers have the same rows. -/
theorem GapAt.slice_perm {a L : ℕ} (ha : GapAt key rows a) (hb : GapAt key rows (a + L))
    {sorted' : List ρ} (h : Ranked key rows sorted) (h' : Ranked key rows sorted') :
    ((sorted.drop a).take L).Perm ((sorted'.drop a).take L) := by
  have hboth := hb.take_perm h h'
  rw [List.take_add, List.take_add] at hboth
  exact (List.perm_append_left_iff _).mp
    (hboth.trans (List.Perm.append_right _ (ha.take_perm h h').symm))

/-- The pages of one list are its beginning. -/
theorem flatMap_slices (l : List ρ) (L n : ℕ) :
    ((List.range n).flatMap fun k => (l.drop (k * L)).take L) = l.take (n * L) := by
  induction n with
  | zero => simp
  | succ n ih => rw [List.range_succ, List.flatMap_append, ih, Nat.succ_mul, List.take_add]; simp

/-- **Key result.** Pages between gaps, each from its own answer, have every row once. -/
theorem slices_perm {answer : ℕ → List ρ} {L n : ℕ} (h : ∀ k < n, Ranked key rows (answer k))
    (hgap : ∀ k, k * L < rows.length → GapAt key rows (k * L)) (hn : rows.length ≤ n * L) :
    ((List.range n).flatMap fun k => ((answer k).drop (k * L)).take L).Perm rows := by
  have hgaps : ∀ k, GapAt key rows (k * L) := fun k =>
    (lt_or_ge (k * L) rows.length).elim (hgap k) fun hle => Or.inr (Or.inl hle)
  rcases Nat.eq_zero_or_pos n with rfl | hpos
  · rw [Nat.zero_mul, Nat.le_zero, List.length_eq_zero_iff] at hn
    rw [hn]
    exact List.Perm.refl _
  · have hpages : ((List.range n).flatMap fun k => ((answer k).drop (k * L)).take L).Perm
        ((List.range n).flatMap fun k => ((answer 0).drop (k * L)).take L) := by
      refine List.Perm.flatMap_left _ fun k hk => ?_
      have hnext := hgaps (k + 1)
      rw [Nat.succ_mul] at hnext
      exact (hgaps k).slice_perm hnext (h k (List.mem_range.mp hk)) (h 0 hpos)
    rw [flatMap_slices, List.take_of_length_le ((h 0 hpos).1.length_eq.trans_le hn)] at hpages
    exact hpages.trans (h 0 hpos).1

end Foundations
