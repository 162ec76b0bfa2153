import Mathlib.Algebra.GroupWithZero.Nat
import Mathlib.Data.List.Basic
import Mathlib.Tactic.SplitIfs

/-!
# Bounded work queues

Producers offer work to a queue with a limit, and do not wait: what meets a full queue is dropped.
One consumer takes the work from the front. A queue keeps its history: what was offered, with the
length of the queue at that time, and what was taken. `entered_eq` says that what was taken and
what waits is exactly what met a queue with room, in the order in which it was offered, and
`sum_offers` adds up everything that was offered.
-/

namespace Foundations

/-- A queue and its history. -/
structure WorkQueue (α : Type) where
  offers : List (ℕ × α)
  taken : List α
  waiting : List α

namespace WorkQueue

variable {α : Type}

/-- Nothing was offered. -/
def empty : WorkQueue α := ⟨[], [], []⟩

/-- Offer work. -/
def offer (limit : ℕ) (q : WorkQueue α) (x : α) : WorkQueue α :=
  { q with
    offers := q.offers ++ [(q.waiting.length, x)]
    waiting := if q.waiting.length < limit then q.waiting ++ [x] else q.waiting }

/-- What met a queue with room. -/
def entered (limit : ℕ) (q : WorkQueue α) : List α :=
  (q.offers.filter fun o => o.1 < limit).map Prod.snd

/-- What met a full queue. -/
def dropped (limit : ℕ) (q : WorkQueue α) : List α :=
  (q.offers.filter fun o => !decide (o.1 < limit)).map Prod.snd

/-- The queue has not grown over its limit, and its history fits. -/
structure Sound (limit : ℕ) (q : WorkQueue α) : Prop where
  length_le : q.waiting.length ≤ limit
  offers_le : ∀ o ∈ q.offers, o.1 ≤ limit
  entered_eq : q.taken ++ q.waiting = q.entered limit

variable {limit : ℕ} {q : WorkQueue α}

theorem sound_empty (limit : ℕ) : (empty : WorkQueue α).Sound limit :=
  ⟨Nat.zero_le _, fun _ h => absurd h List.not_mem_nil, rfl⟩

theorem Sound.offer (h : q.Sound limit) (x : α) : (q.offer limit x).Sound limit := by
  have hle : ∀ o ∈ (q.offer limit x).offers, o.1 ≤ limit := by
    intro o ho
    rcases List.mem_append.mp ho with ho | ho
    · exact h.offers_le o ho
    · rw [List.mem_singleton.mp ho]
      exact h.length_le
  by_cases hroom : q.waiting.length < limit
  · refine ⟨?_, hle, ?_⟩
    · rw [WorkQueue.offer, if_pos hroom, List.length_append, List.length_singleton]
      exact hroom
    · rw [WorkQueue.offer, if_pos hroom, entered, List.filter_append, List.map_append, ← entered,
        ← List.append_assoc, h.entered_eq, List.filter_cons_of_pos (by simpa using hroom)]
      rfl
  · refine ⟨?_, hle, ?_⟩
    · rw [WorkQueue.offer, if_neg hroom]
      exact h.length_le
    · rw [WorkQueue.offer, if_neg hroom, entered, List.filter_append, List.map_append, ← entered,
        h.entered_eq, List.filter_cons_of_neg (by simpa using hroom), List.filter_nil,
        List.map_nil, List.append_nil]

/-- The consumer takes from the front. -/
theorem Sound.take {x : α} {rest : List α} (h : q.Sound limit) (hwaiting : q.waiting = x :: rest) :
    ({ q with taken := q.taken ++ [x], waiting := rest } : WorkQueue α).Sound limit := by
  refine ⟨?_, h.offers_le, ?_⟩
  · have hlength := h.length_le
    rw [hwaiting] at hlength
    exact Nat.le_of_succ_le hlength
  · have hentered := h.entered_eq
    rw [hwaiting] at hentered
    rw [List.append_assoc, List.singleton_append]
    exact hentered

/-- **Everything that was offered.** It was taken, it waits, or it was dropped. -/
theorem Sound.sum_offers (h : q.Sound limit) (f : α → ℕ) :
    (q.offers.map fun o => f o.2).sum =
      (q.taken.map f).sum + (q.waiting.map f).sum + ((q.dropped limit).map f).sum := by
  have hsplit := ((List.filter_append_perm (fun o : ℕ × α => decide (o.1 < limit))
    q.offers).map fun o => f o.2).sum_nat
  rw [List.map_append, List.sum_append_nat] at hsplit
  rw [← List.sum_append_nat, ← List.map_append, h.entered_eq, entered, dropped, List.map_map,
    List.map_map, ← hsplit]
  rfl

end WorkQueue

end Foundations
