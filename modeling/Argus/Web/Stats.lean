import Argus.Foundations.OrderStatistics
import Mathlib.Algebra.Order.BigOperators.Group.List
import Mathlib.Data.List.GetD
import Mathlib.Data.Rat.Floor

/-!
# Statistics of a panel

`summarize` of the dashboard shows one number for a series: the average, the maximum, or a
percentile between the two closest ranks. Numbers are exact. `summarize_ordered` says that the
percentiles are in order and lie, as the average does, between the extremes.
-/

namespace Argus

open Foundations

/-! ### Modes -/

/-- `StatMode`. -/
inductive StatMode
  | avg
  | p85
  | p90
  | p95
  | max
  deriving DecidableEq

/-- `parseStatMode`. -/
def parseStatMode (value : String) : StatMode :=
  if value == "p85" then .p85
  else if value == "p90" then .p90
  else if value == "p95" then .p95
  else if value == "max" then .max
  else .avg

/-- `PERCENTILE`. -/
def percentile : StatMode → Option ℚ
  | .p85 => some (85 / 100)
  | .p90 => some (9 / 10)
  | .p95 => some (95 / 100)
  | _ => none

/-! ### The statistics -/

/-- `[...values].sort((a, b) => a - b)`. -/
def sortedValues (values : List ℚ) : List ℚ := values.mergeSort fun a b => decide (a ≤ b)

/-- `rank`. -/
def rankOf (q : ℚ) (n : ℕ) : ℚ := q * ((n : ℚ) - 1)

/-- `low`. -/
def lowIndex (q : ℚ) (n : ℕ) : ℤ := ⌊rankOf q n⌋

/-- `high`. -/
def highIndex (q : ℚ) (n : ℕ) : ℤ := ⌈rankOf q n⌉

/-- `sorted[i]`. -/
def elementAt (sorted : List ℚ) (i : ℤ) : ℚ := sorted.getD i.toNat 0

/-- `summarize`, with `none` for `null`. -/
def summarize (values : List ℚ) (mode : StatMode) : Option ℚ :=
  match values with
  | [] => none
  | v :: _ =>
    if mode = .max then some (values.foldl (fun a b => if a < b then b else a) v)
    else
      match percentile mode with
      | none => some (values.foldl (fun a b => a + b) 0 / values.length)
      | some q =>
        let sorted := sortedValues values
        let low := lowIndex q sorted.length
        let high := highIndex q sorted.length
        some (elementAt sorted low +
          (elementAt sorted high - elementAt sorted low) * (rankOf q sorted.length - low))

/-! ### The sorted copy -/

theorem sortedValues_perm (values : List ℚ) : (sortedValues values).Perm values :=
  List.mergeSort_perm _ _

theorem sortedValues_pairwise (values : List ℚ) :
    (sortedValues values).Pairwise fun a b => a ≤ b := by
  refine (List.pairwise_mergeSort (fun a b c hab hbc => ?_) (fun a b => ?_) values).imp
    of_decide_eq_true
  · exact decide_eq_true ((of_decide_eq_true hab).trans (of_decide_eq_true hbc))
  · rw [Bool.or_eq_true, decide_eq_true_iff, decide_eq_true_iff]
    exact le_total a b

/-- The copy does not depend on the order of the values. -/
theorem sortedValues_eq_of_perm {values values' : List ℚ} (h : values.Perm values') :
    sortedValues values = sortedValues values' :=
  List.Perm.eq_of_pairwise (fun _ _ _ _ => le_antisymm) (sortedValues_pairwise values)
    (sortedValues_pairwise values')
    ((sortedValues_perm values).trans (h.trans (sortedValues_perm values').symm))

section Values

variable {values : List ℚ}

/-- Inside a sorted list the elements are in order. -/
theorem elementAt_mono {i j : ℤ} (hi : 0 ≤ i) (hij : i ≤ j)
    (hj : j ≤ ((sortedValues values).length : ℤ) - 1) :
    elementAt (sortedValues values) i ≤ elementAt (sortedValues values) j := by
  rw [elementAt, elementAt, List.getD_eq_getElem _ _ (by omega),
    List.getD_eq_getElem _ _ (by omega)]
  rcases eq_or_lt_of_le hij with rfl | hlt
  · exact le_rfl
  · exact List.pairwise_iff_getElem.mp (sortedValues_pairwise values) _ _ (by omega) (by omega)
      (by omega)

/-- The elements of a sorted list are values. -/
theorem elementAt_mem {i : ℤ} (hi : 0 ≤ i) (hj : i ≤ ((sortedValues values).length : ℤ) - 1) :
    elementAt (sortedValues values) i ∈ values := by
  rw [elementAt, List.getD_eq_getElem _ _ (by omega)]
  exact (sortedValues_perm values).mem_iff.mp (List.getElem_mem _)

/-- A percentile is what lies between two elements. -/
theorem summarize_percentile (hne : values ≠ []) {mode : StatMode} {q : ℚ}
    (hq : percentile mode = some q) : summarize values mode =
      some (interpolate (elementAt (sortedValues values)) (rankOf q values.length)) := by
  have hmode : mode ≠ .max := by
    rintro rfl
    exact absurd hq (Option.some_ne_none q).symm
  have hlen : (sortedValues values).length = values.length := (sortedValues_perm values).length_eq
  obtain ⟨v, l, rfl⟩ := List.exists_cons_of_ne_nil hne
  rw [summarize, if_neg hmode]
  simp only [hq]
  rw [hlen]
  rfl

/-- The average is the sum over the number of values. -/
theorem summarize_avg (hne : values ≠ []) :
    summarize values .avg = some (values.sum / values.length) := by
  obtain ⟨v, l, rfl⟩ := List.exists_cons_of_ne_nil hne
  rw [summarize, if_neg (by decide), List.sum_eq_foldl]
  rfl

/-- The maximum is a value, and no value is larger. -/
theorem summarize_max (hne : values ≠ []) : ∃ m, summarize values .max = some m ∧ m ∈ values ∧
    ∀ v ∈ values, v ≤ m := by
  have hfold : ∀ (l : List ℚ) (a : ℚ),
      l.foldl (fun a b => if a < b then b else a) a ∈ a :: l ∧
        ∀ v ∈ a :: l, v ≤ l.foldl (fun a b => if a < b then b else a) a := by
    intro l
    induction l with
    | nil => exact fun a => ⟨List.mem_cons_self, fun v hv => (List.mem_singleton.mp hv).le⟩
    | cons b l ih =>
      intro a
      rw [List.foldl_cons]
      split_ifs with hlt
      · obtain ⟨hmem, hle⟩ := ih b
        refine ⟨List.mem_cons_of_mem a hmem, fun v hv => ?_⟩
        rcases List.mem_cons.mp hv with rfl | hv
        · exact hlt.le.trans (hle b List.mem_cons_self)
        · exact hle v hv
      · obtain ⟨hmem, hle⟩ := ih a
        have hle' := List.forall_mem_cons.mp hle
        refine ⟨?_, fun v hv => ?_⟩
        · rcases List.mem_cons.mp hmem with heq | hmem
          · rw [heq]
            exact List.mem_cons_self
          · exact List.mem_cons_of_mem a (List.mem_cons_of_mem b hmem)
        · rcases List.mem_cons.mp hv with rfl | hv
          · exact hle'.1
          · rcases List.mem_cons.mp hv with rfl | hv
            · exact (not_lt.mp hlt).trans hle'.1
            · exact hle'.2 v hv
  obtain ⟨v, l, rfl⟩ := List.exists_cons_of_ne_nil hne
  obtain ⟨hmem, hle⟩ := hfold (v :: l) v
  refine ⟨_, rfl, ?_, fun w hw => hle w (List.mem_cons_of_mem v hw)⟩
  rcases List.mem_cons.mp hmem with heq | hmem
  · rw [heq]
    exact List.mem_cons_self
  · exact hmem

/-! ### The order of the statistics -/

/-- The ranks of percentiles in one list, in the order of the percentiles. -/
theorem rankOf_mono {q q' : ℚ} (hq : q ≤ q') (hne : values ≠ []) :
    rankOf q values.length ≤ rankOf q' values.length := by
  have hlen : (1 : ℚ) ≤ values.length := by
    exact_mod_cast List.length_pos_of_ne_nil hne
  exact mul_le_mul_of_nonneg_right hq (sub_nonneg.mpr hlen)

/-- The rank of a percentile lies in the list, and so do the two closest ones. -/
theorem rankOf_spec {q : ℚ} (hq : 0 ≤ q) (hq' : q ≤ 1) (hne : values ≠ []) :
    0 ≤ rankOf q values.length ∧ rankOf q values.length ≤ ((values.length : ℤ) - 1 : ℤ) ∧
      0 ≤ lowIndex q values.length ∧ lowIndex q values.length ≤ highIndex q values.length ∧
      highIndex q values.length ≤ (values.length : ℤ) - 1 := by
  have hlen : (1 : ℚ) ≤ values.length := by
    exact_mod_cast List.length_pos_of_ne_nil hne
  have hnonneg : 0 ≤ rankOf q values.length := mul_nonneg hq (sub_nonneg.mpr hlen)
  have hle : rankOf q values.length ≤ ((values.length : ℤ) - 1 : ℤ) := by
    have hmul := mul_le_mul_of_nonneg_right hq' (sub_nonneg.mpr hlen)
    rw [one_mul] at hmul
    push_cast
    exact hmul
  exact ⟨hnonneg, hle, Int.floor_nonneg.mpr hnonneg, Int.floor_le_ceil _, Int.ceil_le.mpr hle⟩

/-- A larger percentile is not smaller. -/
theorem percentile_mono {q q' : ℚ} (hq : 0 ≤ q) (hle : q ≤ q') (hq' : q' ≤ 1) (hne : values ≠ []) :
    interpolate (elementAt (sortedValues values)) (rankOf q values.length) ≤
      interpolate (elementAt (sortedValues values)) (rankOf q' values.length) := by
  have hlen : (sortedValues values).length = values.length := (sortedValues_perm values).length_eq
  refine interpolate_mono (n := (values.length : ℤ) - 1) (fun i j hi hij hj => ?_)
    (rankOf_spec hq (hle.trans hq') hne).1 (rankOf_mono hle hne)
    (rankOf_spec (hq.trans hle) hq' hne).2.1
  exact elementAt_mono hi hij (by omega)

/-- A percentile lies between two values. -/
theorem percentile_between {q : ℚ} (hq : 0 ≤ q) (hq' : q ≤ 1) (hne : values ≠ []) :
    ∃ v ∈ values, ∃ w ∈ values,
      v ≤ interpolate (elementAt (sortedValues values)) (rankOf q values.length) ∧
        interpolate (elementAt (sortedValues values)) (rankOf q values.length) ≤ w := by
  have hlen : (sortedValues values).length = values.length := (sortedValues_perm values).length_eq
  obtain ⟨-, -, hlow, hle, hhigh⟩ := rankOf_spec hq hq' hne
  rw [lowIndex, highIndex] at *
  have hends := @elementAt_mono values _ _ hlow hle (by omega)
  exact ⟨_, elementAt_mem hlow (by omega), _, elementAt_mem (hlow.trans hle) (by omega),
    le_interpolate hends, interpolate_le hends⟩

/-- The average lies between bounds of the values. -/
theorem avg_between (hne : values ≠ []) {lo hi : ℚ} (hlo : ∀ v ∈ values, lo ≤ v)
    (hhi : ∀ v ∈ values, v ≤ hi) :
    lo ≤ values.sum / values.length ∧ values.sum / values.length ≤ hi := by
  have hpos : (0 : ℚ) < values.length := by
    exact_mod_cast List.length_pos_of_ne_nil hne
  have hlower := List.card_nsmul_le_sum values lo hlo
  have hupper := List.sum_le_card_nsmul values hi hhi
  rw [nsmul_eq_mul] at hlower hupper
  rw [le_div_iff₀ hpos, div_le_iff₀ hpos, mul_comm lo, mul_comm hi]
  exact ⟨hlower, hupper⟩

/-- A list that is not empty has a least value. -/
theorem exists_least (hne : values ≠ []) : ∃ lo ∈ values, ∀ v ∈ values, lo ≤ v := by
  have hperm := sortedValues_perm values
  have hsorted : sortedValues values ≠ [] := fun h => hne (h ▸ hperm).symm.eq_nil
  obtain ⟨lo, l, hl⟩ := List.exists_cons_of_ne_nil hsorted
  have hleast := (List.pairwise_cons.mp (hl ▸ sortedValues_pairwise values)).1
  refine ⟨lo, hperm.mem_iff.mp (hl ▸ List.mem_cons_self), fun v hv => ?_⟩
  rcases List.mem_cons.mp (hl ▸ hperm.mem_iff.mpr hv) with rfl | hv
  · exact le_rfl
  · exact hleast v hv

/-- No statistic depends on the order of the values. -/
theorem summarize_perm {values' : List ℚ} (h : values.Perm values') (hne : values ≠ [])
    (mode : StatMode) : summarize values' mode = summarize values mode := by
  have hne' : values' ≠ [] := fun h' => hne (h' ▸ h).eq_nil
  have hpercentile : ∀ {q}, percentile mode = some q →
      summarize values' mode = summarize values mode := fun hq => by
    rw [summarize_percentile hne hq, summarize_percentile hne' hq, sortedValues_eq_of_perm h,
      h.length_eq]
  cases mode with
  | avg => rw [summarize_avg hne, summarize_avg hne', h.sum_eq, h.length_eq]
  | p85 => exact hpercentile rfl
  | p90 => exact hpercentile rfl
  | p95 => exact hpercentile rfl
  | max =>
    obtain ⟨m, hm, hmem, hle⟩ := summarize_max hne
    obtain ⟨m', hm', hmem', hle'⟩ := summarize_max hne'
    rw [hm, hm', le_antisymm (hle m' (h.mem_iff.mpr hmem')) (hle' m (h.mem_iff.mp hmem))]

end Values

/-- The percentiles are between zero and one. -/
theorem percentile_spec {mode : StatMode} {q : ℚ} (h : percentile mode = some q) :
    0 ≤ q ∧ q ≤ 1 := by
  cases mode with
  | avg => exact absurd h (Option.some_ne_none q).symm
  | max => exact absurd h (Option.some_ne_none q).symm
  | p85 => rw [← Option.some.inj h]; norm_num
  | p90 => rw [← Option.some.inj h]; norm_num
  | p95 => rw [← Option.some.inj h]; norm_num

/-- Any text in the address of a page is read as a statistic, and of a list that is not empty that
lies between two of the values. -/
theorem summarize_parseStatMode {values : List ℚ} (hne : values ≠ []) (value : String) :
    ∃ s, summarize values (parseStatMode value) = some s ∧
      (∃ v ∈ values, v ≤ s) ∧ ∃ v ∈ values, s ≤ v := by
  have hpercentile : ∀ {mode q}, percentile mode = some q → ∃ s, summarize values mode = some s ∧
      (∃ v ∈ values, v ≤ s) ∧ ∃ v ∈ values, s ≤ v := fun hq => by
    obtain ⟨v, hv, w, hw, hlow, hhigh⟩ :=
      percentile_between (percentile_spec hq).1 (percentile_spec hq).2 hne
    exact ⟨_, summarize_percentile hne hq, ⟨v, hv, hlow⟩, w, hw, hhigh⟩
  obtain ⟨hi, hmax, hhi, hlargest⟩ := summarize_max hne
  cases parseStatMode value with
  | avg =>
    obtain ⟨lo, hlo, hleast⟩ := exists_least hne
    obtain ⟨hlow, hhigh⟩ := avg_between hne hleast hlargest
    exact ⟨_, summarize_avg hne, ⟨lo, hlo, hlow⟩, hi, hhi, hhigh⟩
  | p85 => exact hpercentile rfl
  | p90 => exact hpercentile rfl
  | p95 => exact hpercentile rfl
  | max => exact ⟨hi, hmax, ⟨hi, hhi, le_rfl⟩, hi, hhi, le_rfl⟩

/-- **Key result.** For a list that is not empty the percentiles are in order between the least and
the largest value, and so is the average; no statistic depends on the order of the values; and both
ranks that a percentile looks at are inside the list. -/
theorem summarize_ordered (values : List ℚ) (hne : values ≠ []) :
    (∃ lo p85 p90 p95 hi avg : ℚ, (lo ∈ values ∧ ∀ v ∈ values, lo ≤ v) ∧
      (hi ∈ values ∧ ∀ v ∈ values, v ≤ hi) ∧
      summarize values .p85 = some p85 ∧ summarize values .p90 = some p90 ∧
      summarize values .p95 = some p95 ∧ summarize values .max = some hi ∧
      summarize values .avg = some avg ∧
      lo ≤ p85 ∧ p85 ≤ p90 ∧ p90 ≤ p95 ∧ p95 ≤ hi ∧ lo ≤ avg ∧ avg ≤ hi) ∧
    (∀ values' mode, values.Perm values' → summarize values' mode = summarize values mode) ∧
    ∀ mode q, percentile mode = some q → 0 ≤ lowIndex q (sortedValues values).length ∧
      lowIndex q (sortedValues values).length ≤ highIndex q (sortedValues values).length ∧
      highIndex q (sortedValues values).length < (sortedValues values).length := by
  refine ⟨?_, fun values' mode h => summarize_perm h hne mode, fun mode q hq => ?_⟩
  · obtain ⟨lo, hlo, hleast⟩ := exists_least hne
    obtain ⟨hi, hmax, hhi, hlargest⟩ := summarize_max hne
    obtain ⟨v, hv, -, -, hlow, -⟩ :=
      percentile_between (q := 85 / 100) (by norm_num) (by norm_num) hne
    obtain ⟨-, -, w, hw, -, hhigh⟩ :=
      percentile_between (q := 95 / 100) (by norm_num) (by norm_num) hne
    obtain ⟨havg, havg'⟩ := avg_between hne hleast hlargest
    exact ⟨lo, _, _, _, hi, _, ⟨hlo, hleast⟩, ⟨hhi, hlargest⟩,
      @summarize_percentile _ hne .p85 _ rfl, @summarize_percentile _ hne .p90 _ rfl,
      @summarize_percentile _ hne .p95 _ rfl, hmax, summarize_avg hne,
      (hleast v hv).trans hlow,
      percentile_mono (by norm_num) (by norm_num) (by norm_num) hne,
      percentile_mono (by norm_num) (by norm_num) (by norm_num) hne,
      hhigh.trans (hlargest w hw), havg, havg'⟩
  · obtain ⟨hpos, hone⟩ := percentile_spec hq
    obtain ⟨-, -, hlow, hle, hhigh⟩ := rankOf_spec hpos hone hne
    rw [(sortedValues_perm values).length_eq]
    exact ⟨hlow, hle, by omega⟩

/-- Two values, the larger one first. -/
theorem summarize_ordered_two :
    (∃ lo p85 p90 p95 hi avg : ℚ, (lo ∈ [20, 10] ∧ ∀ v ∈ [20, 10], lo ≤ v) ∧
      (hi ∈ [20, 10] ∧ ∀ v ∈ [20, 10], v ≤ hi) ∧
      summarize [20, 10] .p85 = some p85 ∧ summarize [20, 10] .p90 = some p90 ∧
      summarize [20, 10] .p95 = some p95 ∧ summarize [20, 10] .max = some hi ∧
      summarize [20, 10] .avg = some avg ∧
      lo ≤ p85 ∧ p85 ≤ p90 ∧ p90 ≤ p95 ∧ p95 ≤ hi ∧ lo ≤ avg ∧ avg ≤ hi) ∧
    (∀ mode, summarize [10, 20] mode = summarize [20, 10] mode) ∧
    ∀ mode q, percentile mode = some q → 0 ≤ lowIndex q 2 ∧ lowIndex q 2 ≤ highIndex q 2 ∧
      highIndex q 2 < 2 := by
  obtain ⟨hvalues, hperm, hindices⟩ := summarize_ordered [20, 10] (by decide)
  have hlength : (sortedValues [20, 10]).length = 2 := List.length_mergeSort _
  rw [hlength] at hindices
  exact ⟨hvalues, fun mode => hperm _ mode (List.Perm.swap _ _ _), hindices⟩

end Argus
