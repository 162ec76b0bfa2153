import Argus.Foundations.SortedMap
import Mathlib.Data.List.Chain
import Mathlib.Data.List.Induction

/-!
# Cool-downs

Alerts ask to be let through, each under a key and with a time of its own. An alert is kept back
while the last one that was let through under its key is recent, and is let through otherwise. The
times need not be in order: whoever asks has read the clock before.

`admitted_chain` says that what is let through under a key is never recent to the one before, and
`recent_admitted` that what is kept back has a recent one in front of it.
-/

namespace Foundations

/-- An alert that asks to be let through. -/
structure Alert (κ τ ε : Type) where
  key : κ
  time : τ
  event : ε

namespace Cooldown

variable {κ τ ε : Type} [LinearOrder κ]

/-- Let an alert through, unless the last one under its key is recent at its time. -/
def letThrough (recent : τ → τ → Bool) (last : SortedMap κ τ) (n : Alert κ τ ε) :
    SortedMap κ τ × Option (Alert κ τ ε) :=
  if (last.get? n.key).any fun t => recent t n.time then (last, none)
  else (last.insert n.key n.time, some n)

/-- Alerts one after the other, and those that are let through. -/
def run (recent : τ → τ → Bool) :
    SortedMap κ τ → List (Alert κ τ ε) → SortedMap κ τ × List (Alert κ τ ε)
  | last, [] => (last, [])
  | last, n :: alerts =>
    let (last, out) := letThrough recent last n
    let (last, admitted) := run recent last alerts
    (last, out.toList ++ admitted)

variable {recent : τ → τ → Bool} {last : SortedMap κ τ} {alerts : List (Alert κ τ ε)}

theorem run_append (alerts' : List (Alert κ τ ε)) :
    run recent last (alerts ++ alerts') =
      ((run recent (run recent last alerts).1 alerts').1,
        (run recent last alerts).2 ++ (run recent (run recent last alerts).1 alerts').2) := by
  induction alerts generalizing last with
  | nil => rfl
  | cons n alerts ih => simp only [List.cons_append, run, ih, List.append_assoc]

theorem run_concat (n : Alert κ τ ε) :
    run recent last (alerts ++ [n]) =
      ((letThrough recent (run recent last alerts).1 n).1,
        (run recent last alerts).2 ++
          (letThrough recent (run recent last alerts).1 n).2.toList) := by
  simp only [run_append, run, List.append_nil]

/-- Those under a key. -/
def under (k : κ) (alerts : List (Alert κ τ ε)) : List (Alert κ τ ε) :=
  alerts.filter fun n => n.key = k

theorem under_append (k : κ) (alerts alerts' : List (Alert κ τ ε)) :
    under k (alerts ++ alerts') = under k alerts ++ under k alerts' :=
  List.filter_append ..

theorem under_singleton (k : κ) (n : Alert κ τ ε) :
    under k [n] = if n.key = k then [n] else [] := by
  rw [under, List.filter_singleton]
  by_cases h : n.key = k <;> simp [h]

/-- The time that is kept is that of the last alert that was let through. -/
theorem get?_run (alerts : List (Alert κ τ ε)) (k : κ) :
    (run recent ∅ alerts).1.get? k =
      (under k (run recent ∅ alerts).2).getLast?.map Alert.time := by
  induction alerts using List.reverseRecOn with
  | nil => rfl
  | append_singleton alerts n ih =>
    rw [run_concat]
    by_cases hrecent : ((run recent ∅ alerts).1.get? n.key).any fun t => recent t n.time
    · rw [letThrough, if_pos hrecent, Option.toList_none, List.append_nil]
      exact ih
    · rw [letThrough, if_neg hrecent, Option.toList_some, under_append, under_singleton,
        SortedMap.get?_insert]
      by_cases hkey : n.key = k
      · rw [if_pos hkey, if_pos hkey, List.getLast?_concat, Option.map_some]
      · rw [if_neg hkey, if_neg hkey, List.append_nil]
        exact ih

/-- **Spacing.** What is let through under a key is not recent to the one before. -/
theorem admitted_chain (alerts : List (Alert κ τ ε)) (k : κ) :
    (under k (run recent ∅ alerts).2).IsChain fun a b => recent a.time b.time = false := by
  induction alerts using List.reverseRecOn with
  | nil => exact List.isChain_nil
  | append_singleton alerts n ih =>
    rw [run_concat]
    by_cases hrecent : ((run recent ∅ alerts).1.get? n.key).any fun t => recent t n.time
    · rw [letThrough, if_pos hrecent, Option.toList_none, List.append_nil]
      exact ih
    · rw [letThrough, if_neg hrecent, Option.toList_some, under_append, under_singleton]
      by_cases hkey : n.key = k
      · rw [if_pos hkey]
        refine List.isChain_append.mpr ⟨ih, List.isChain_singleton n, fun a ha b hb => ?_⟩
        cases hb
        rw [get?_run, hkey, Option.mem_def.mp ha] at hrecent
        exact Bool.eq_false_iff.mpr hrecent
      · rw [if_neg hkey, List.append_nil]
        exact ih

/-- Spacing, of any two alerts with one key. -/
theorem admitted_pairwise (recent : τ → τ → Bool) (alerts : List (Alert κ τ ε))
    (htrans : ∀ a b c, recent a b = false → recent b c = false → recent a c = false) :
    (run recent ∅ alerts).2.Pairwise fun a b =>
      a.key = b.key → recent a.time b.time = false := by
  have hunder : ∀ k, (under k (run recent ∅ alerts).2).Pairwise fun a b =>
      recent a.time b.time = false := by
    intro k
    have : Trans (fun a b : Alert κ τ ε => recent a.time b.time = false)
        (fun a b : Alert κ τ ε => recent a.time b.time = false)
        (fun a b : Alert κ τ ε => recent a.time b.time = false) :=
      ⟨fun hab hbc => htrans _ _ _ hab hbc⟩
    exact List.isChain_iff_pairwise.mp (admitted_chain alerts k)
  generalize (run recent ∅ alerts).2 = admitted at hunder
  induction admitted with
  | nil => exact List.Pairwise.nil
  | cons a admitted ih =>
    refine List.pairwise_cons.mpr ⟨fun b hb hkey => ?_, ih fun k => ?_⟩
    · have hfirst := hunder a.key
      rw [under, List.filter_cons_of_pos (by simp)] at hfirst
      refine (List.pairwise_cons.mp hfirst).1 b (List.mem_filter.mpr ⟨hb, ?_⟩)
      exact decide_eq_true hkey.symm
    · exact (hunder k).sublist ((List.sublist_cons_self a admitted).filter _)

/-- What is let through has asked. -/
theorem mem_of_admitted {n : Alert κ τ ε} (h : n ∈ (run recent last alerts).2) :
    n ∈ alerts := by
  induction alerts generalizing last with
  | nil => exact absurd h List.not_mem_nil
  | cons n' alerts ih =>
    rw [run] at h
    rcases List.mem_append.mp h with h | h
    · rw [letThrough] at h
      split_ifs at h
      · exact absurd h List.not_mem_nil
      · exact List.mem_cons.mpr (.inl (List.mem_singleton.mp h))
    · exact List.mem_cons_of_mem _ (ih h)

/-- **Cover.** An alert is let through, or one under its key that was let through before is recent
at its time. -/
theorem recent_admitted (recent : τ → τ → Bool) {n : Alert κ τ ε} (h : n ∈ alerts) :
    n ∈ (run recent ∅ alerts).2 ∨
      ∃ m ∈ (run recent ∅ alerts).2, m.key = n.key ∧ recent m.time n.time = true := by
  obtain ⟨before, after, rfl⟩ := List.append_of_mem h
  rw [run_append, run]
  simp only
  by_cases hrecent : ((run recent ∅ before).1.get? n.key).any fun t => recent t n.time
  · obtain ⟨t, ht, htn⟩ := (Option.any_eq_true _ _).mp hrecent
    rw [get?_run] at ht
    obtain ⟨m, hm, rfl⟩ := Option.map_eq_some_iff.mp ht
    obtain ⟨hmem, hkey⟩ := List.mem_filter.mp (List.mem_of_getLast? hm)
    exact .inr ⟨m, List.mem_append_left _ hmem, of_decide_eq_true hkey, htn⟩
  · refine .inl (List.mem_append_right _ (List.mem_append_left _ ?_))
    rw [letThrough, if_neg hrecent]
    exact List.mem_singleton_self n

end Cooldown

end Foundations
