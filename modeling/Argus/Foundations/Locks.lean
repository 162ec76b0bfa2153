import Mathlib.Data.List.Basic
import Mathlib.Order.Extension.Linear

/-!
# Transactions that lock keys

A transaction asks for the keys of a list, one after the other, and holds them until it ends; a
key that another one holds makes it wait. When all transactions ask for the keys they share in one
order, no run reaches a ring of transactions that wait for each other (`no_deadlock`), and there is
such an order exactly when asking for one key while holding another makes no ring of keys
(`inOneOrder_iff`).
-/

namespace Foundations

variable {ι κ : Type}

/-! ### Order -/

/-- Some list asks for the second key first when it has the first one. -/
def AsksHolding (l : List κ) (held asked : κ) : Prop :=
  ∃ pre post, l = pre ++ asked :: post ∧ asked ∉ pre ∧ held ∈ pre

/-- Two transactions ask for the key. -/
def Contended (plan : ι → List κ) (k : κ) : Prop :=
  ∃ i j, i ≠ j ∧ k ∈ plan i ∧ k ∈ plan j

/-- A transaction holds the one contended key when it asks for the other. -/
def Precedes (plan : ι → List κ) (a b : κ) : Prop :=
  Contended plan a ∧ Contended plan b ∧ ∃ i, AsksHolding (plan i) a b

/-- No keys precede each other in a ring. -/
def NoRing (plan : ι → List κ) : Prop := ∀ a, ¬ Relation.TransGen (Precedes plan) a a

/-- All transactions take the contended keys in the order of one total order. -/
def InOneOrder (plan : ι → List κ) : Prop :=
  ∃ le : κ → κ → Prop, IsLinearOrder κ le ∧ ∀ a b, Precedes plan a b → le a b ∧ a ≠ b

variable {plan : ι → List κ}

theorem AsksHolding.lt [Preorder κ] {l : List κ} (hl : l.Pairwise (· < ·)) {a b : κ}
    (h : AsksHolding l a b) : a < b := by
  obtain ⟨pre, post, rfl, -, hmem⟩ := h
  exact (List.pairwise_append.mp hl).2.2 a hmem b List.mem_cons_self

theorem AsksHolding.ne {l : List κ} {a b : κ} (h : AsksHolding l a b) : a ≠ b := by
  obtain ⟨pre, post, -, hnew, hmem⟩ := h
  rintro rfl
  exact hnew hmem

/-- Keys that every transaction takes in ascending order make no ring. -/
theorem noRing_of_sorted [Preorder κ] (h : ∀ i, (plan i).Pairwise (· < ·)) : NoRing plan := by
  intro a hring
  have hlt : ∀ {a b}, Relation.TransGen (Precedes plan) a b → a < b := by
    intro a b hab
    induction hab with
    | single hstep => exact hstep.2.2.elim fun i hi => hi.lt (h i)
    | tail _ hstep ih => exact ih.trans (hstep.2.2.elim fun i hi => hi.lt (h i))
  exact lt_irrefl a (hlt hring)

/-- **Order and rings.** One total order fits all transactions if and only if no keys precede each
other in a ring. -/
theorem inOneOrder_iff : InOneOrder plan ↔ NoRing plan := by
  constructor
  · rintro ⟨le, hle, h⟩ a hring
    have hlt : ∀ {a b}, Relation.TransGen (Precedes plan) a b → le a b ∧ a ≠ b := by
      intro a b hab
      induction hab with
      | single hstep => exact h _ _ hstep
      | tail _ hstep ih =>
        refine ⟨IsTrans.trans _ _ _ ih.1 (h _ _ hstep).1, ?_⟩
        rintro rfl
        exact ih.2 (antisymm ih.1 (h _ _ hstep).1)
    exact (hlt hring).2 rfl
  · intro h
    have hpartial : IsPartialOrder κ (Relation.ReflTransGen (Precedes plan)) :=
      { refl := fun _ => .refl
        trans := fun _ _ _ => .trans
        antisymm := fun a b hab hba => by
          rcases Relation.reflTransGen_iff_eq_or_transGen.mp hab with rfl | hlt
          · rfl
          · exact absurd (hlt.trans_left hba) (h a) }
    obtain ⟨le, hle, hsub⟩ := extend_partialOrder (Relation.ReflTransGen (Precedes plan))
    exact ⟨le, hle, fun a b hab => ⟨hsub _ _ (.single hab), hab.2.2.elim fun _ hi => hi.ne⟩⟩

/-! ### Runs -/

/-- How far each transaction is: the keys it has got, or `none` when it has ended. -/
abbrev LockState (ι : Type) : Type := ι → Option ℕ

/-- A transaction that has not ended holds the keys that it has got. -/
def Holds (plan : ι → List κ) (s : LockState ι) (i : ι) (k : κ) : Prop :=
  ∃ n, s i = some n ∧ k ∈ (plan i).take n

/-- The key that a transaction asks for. -/
def Asks (plan : ι → List κ) (s : LockState ι) (i : ι) (k : κ) : Prop :=
  ∃ n, s i = some n ∧ (plan i)[n]? = some k

/-- A transaction waits for another one that holds the key it asks for. -/
def Waits (plan : ι → List κ) (s : LockState ι) (i j : ι) : Prop :=
  i ≠ j ∧ ∃ k, Asks plan s i k ∧ Holds plan s j k

/-- A transaction gets a key that no other one holds, or it ends, by a commit or otherwise. -/
inductive LockStep [DecidableEq ι] (plan : ι → List κ) (s : LockState ι) : LockState ι → Prop
  | take {i : ι} {n : ℕ} {k : κ} (hi : s i = some n) (hk : (plan i)[n]? = some k)
      (hfree : ∀ j, j ≠ i → ¬ Holds plan s j k) :
      LockStep plan s (Function.update s i (some (n + 1)))
  | finish (i : ι) : LockStep plan s (Function.update s i none)

/-- The states that a run reaches from the begin of all transactions. -/
def Reached [DecidableEq ι] (plan : ι → List κ) : LockState ι → Prop :=
  Relation.ReflTransGen (LockStep plan) fun _ => some 0

/-- No transaction waits for itself through others. -/
def NoDeadlock [DecidableEq ι] (plan : ι → List κ) : Prop :=
  ∀ s, Reached plan s → ∀ i, ¬ Relation.TransGen (Waits plan s) i i

variable {s s' : LockState ι}

theorem Asks.unique {i : ι} {a b : κ} (ha : Asks plan s i a) (hb : Asks plan s i b) : a = b := by
  obtain ⟨m, hm, ha⟩ := ha
  obtain ⟨n, hn, hb⟩ := hb
  obtain rfl := Option.some.inj (hm.symm.trans hn)
  exact Option.some.inj (ha.symm.trans hb)

variable [DecidableEq ι]

/-- What a transaction holds after a step: what it held, or the key it got. -/
theorem LockStep.holds (h : LockStep plan s s') {i : ι} {k : κ} (hk : Holds plan s' i k) :
    Holds plan s i k ∨ ∀ j, j ≠ i → ¬ Holds plan s j k ∧ ¬ Holds plan s' j k := by
  obtain ⟨m, hm, hmem⟩ := hk
  cases h with
  | @take i' n k' hi hk' hfree =>
    by_cases hii : i = i'
    · subst hii
      rw [Function.update_self] at hm
      obtain rfl := Option.some.inj hm
      rw [List.take_add_one, hk'] at hmem
      rcases List.mem_append.mp hmem with hmem | hmem
      · exact Or.inl ⟨n, hi, hmem⟩
      · obtain rfl := List.mem_singleton.mp hmem
        refine Or.inr fun j hj => ⟨hfree j hj, fun ⟨p, hp, hmem⟩ => hfree j hj ⟨p, ?_, hmem⟩⟩
        rwa [Function.update_of_ne hj] at hp
    · rw [Function.update_of_ne hii] at hm
      exact Or.inl ⟨m, hm, hmem⟩
  | finish i' =>
    by_cases hii : i = i'
    · rw [hii, Function.update_self] at hm
      exact nomatch hm
    · rw [Function.update_of_ne hii] at hm
      exact Or.inl ⟨m, hm, hmem⟩

/-- A key has one holder. -/
theorem Reached.holder_unique (h : Reached plan s) {i j : ι} {k : κ} (hi : Holds plan s i k)
    (hj : Holds plan s j k) : i = j := by
  induction h with
  | refl =>
    obtain ⟨n, hn, hmem⟩ := hi
    obtain rfl := Option.some.inj hn
    exact absurd hmem (List.not_mem_nil)
  | tail _ hstep ih =>
    by_contra hne
    rcases hstep.holds hi with hi | hi
    · rcases hstep.holds hj with hj | hj
      · exact hne (ih hi hj)
      · exact (hj i hne).1 hi
    · exact (hi j (Ne.symm hne)).2 hj

/-- The transaction that is waited for asks for its next key while holding the one it is waited
for. -/
theorem Reached.precedes (h : Reached plan s) {i j l : ι} {a b : κ} (hij : i ≠ j) (hjl : j ≠ l)
    (hi : Asks plan s i a) (ha : Holds plan s j a) (hj : Asks plan s j b)
    (hb : Holds plan s l b) : Precedes plan a b := by
  have hnew : ¬ Holds plan s j b := fun hmem => hjl (h.holder_unique hmem hb)
  obtain ⟨m, -, hm⟩ := hi
  obtain ⟨n, hn, hmem⟩ := ha
  obtain ⟨n', hn', hnext⟩ := hj
  obtain rfl := Option.some.inj (hn.symm.trans hn')
  obtain ⟨p, -, hp⟩ := hb
  refine ⟨⟨i, j, hij, List.mem_of_getElem? hm, List.mem_of_mem_take hmem⟩,
    ⟨j, l, hjl, List.mem_of_getElem? hnext, List.mem_of_mem_take hp⟩, j,
    (plan j).take n, (plan j).drop (n + 1), ?_, fun hmem => hnew ⟨n, hn, hmem⟩, hmem⟩
  obtain ⟨hlt, heq⟩ := List.getElem?_eq_some_iff.mp hnext
  rw [← heq, List.getElem_cons_drop, List.take_append_drop]

/-- A chain of waiting transactions makes a chain of keys. -/
theorem Reached.chain (h : Reached plan s) {i j l : ι} (hij : Relation.TransGen (Waits plan s) i j)
    (hjl : Waits plan s j l) : ∃ a b, Asks plan s i a ∧ Asks plan s j b ∧
      Relation.TransGen (Precedes plan) a b := by
  induction hij generalizing l with
  | single hwait =>
    obtain ⟨hij, a, ha, hheld⟩ := hwait
    obtain ⟨hjl, b, hb, hheld'⟩ := hjl
    exact ⟨a, b, ha, hb, .single (h.precedes hij hjl ha hheld hb hheld')⟩
  | tail _ hwait ih =>
    obtain ⟨a, b, ha, hb, hchain⟩ := ih hwait
    obtain ⟨hij, b', hb', hheld⟩ := hwait
    obtain rfl := hb.unique hb'
    obtain ⟨hjl, c, hc, hheld'⟩ := hjl
    exact ⟨a, c, ha, hc, hchain.tail (h.precedes hij hjl hb hheld hc hheld')⟩

/-- **Key result.** Transactions that take contended keys in one order never wait in a ring. -/
theorem no_deadlock (h : InOneOrder plan) : NoDeadlock plan := by
  intro s hs i hring
  obtain ⟨j, hwait, -⟩ := Relation.TransGen.head'_iff.mp hring
  obtain ⟨a, b, ha, hb, hchain⟩ := hs.chain hring hwait
  obtain rfl := ha.unique hb
  exact inOneOrder_iff.mp h a hchain

/-! ### Keys of several tables -/

section Tables

variable {ι κ μ : Type} {plan : ι → List κ} {plan' : ι → List μ} {f : κ → μ}

/-- A transaction writes the keys of one table, or no key of it. -/
def Embeds (f : κ → μ) (plan : ι → List κ) (plan' : ι → List μ) : Prop :=
  ∀ i, plan' i = (plan i).map f ∨ plan i = [] ∧ ∀ a, f a ∉ plan' i

theorem asksHolding_map (hf : f.Injective) {l : List κ} {a b : κ} :
    AsksHolding (l.map f) (f a) (f b) ↔ AsksHolding l a b := by
  constructor
  · rintro ⟨pre', post', heq, hnew, hmem⟩
    obtain ⟨pre, rest, rfl, rfl, hrest⟩ := List.map_eq_append_iff.mp heq
    obtain ⟨b', post, rfl, hb, rfl⟩ := List.map_eq_cons_iff.mp hrest
    obtain rfl := hf hb
    rw [List.mem_map_of_injective hf] at hnew hmem
    exact ⟨pre, post, rfl, hnew, hmem⟩
  · rintro ⟨pre, post, rfl, hnew, hmem⟩
    refine ⟨pre.map f, post.map f, by rw [List.map_append, List.map_cons], ?_, ?_⟩
    · rwa [List.mem_map_of_injective hf]
    · exact List.mem_map_of_mem hmem

/-- Keys of one table are contended, and ordered, as in the table alone. -/
theorem Embeds.precedes (h : Embeds f plan plan') (hf : f.Injective) {a b : κ} :
    Precedes plan' (f a) (f b) ↔ Precedes plan a b := by
  have hmem : ∀ i a, f a ∈ plan' i ↔ a ∈ plan i := by
    intro i a
    rcases h i with hmap | ⟨hnil, hother⟩
    · rw [hmap, List.mem_map_of_injective hf]
    · rw [hnil]
      exact iff_of_false (hother a) List.not_mem_nil
  have hasks : ∀ i, AsksHolding (plan' i) (f a) (f b) ↔ AsksHolding (plan i) a b := by
    intro i
    rcases h i with hmap | ⟨hnil, hother⟩
    · rw [hmap, asksHolding_map hf]
    · rw [hnil]
      refine iff_of_false ?_ ?_
      · rintro ⟨pre, post, heq, -, hpre⟩
        exact hother a (heq ▸ List.mem_append_left _ hpre)
      · rintro ⟨pre, post, heq, -, -⟩
        exact absurd heq (by simp)
  simp only [Precedes, Contended, hmem, hasks]

/-- What a key of a table precedes is a key of the table. -/
theorem Embeds.chain (h : Embeds f plan plan') (hf : f.Injective) {a : κ} {y : μ}
    (hay : Relation.TransGen (Precedes plan') (f a) y) :
    ∃ b, f b = y ∧ Relation.TransGen (Precedes plan) a b := by
  have hstep : ∀ {a : κ} {y : μ}, Precedes plan' (f a) y → ∃ b, f b = y ∧ Precedes plan a b := by
    intro a y hay
    obtain ⟨i, pre, post, heq, -, hpre⟩ := hay.2.2
    rcases h i with hmap | ⟨-, hother⟩
    · have hy : y ∈ (plan i).map f := by
        rw [← hmap, heq]
        exact List.mem_append_right _ List.mem_cons_self
      obtain ⟨b, -, rfl⟩ := List.mem_map.mp hy
      exact ⟨b, rfl, (h.precedes hf).mp hay⟩
    · exact absurd (heq ▸ List.mem_append_left _ hpre) (hother a)
  induction hay with
  | single hay =>
    obtain ⟨b, rfl, hb⟩ := hstep hay
    exact ⟨b, rfl, .single hb⟩
  | tail _ hyz ih =>
    obtain ⟨b, rfl, hab⟩ := ih
    obtain ⟨c, rfl, hbc⟩ := hstep hyz
    exact ⟨c, rfl, hab.tail hbc⟩

/-- The keys of a table make a ring exactly when they make one in the table alone. -/
theorem Embeds.noRing (h : Embeds f plan plan') (hf : f.Injective) :
    (∀ a, ¬ Relation.TransGen (Precedes plan') (f a) (f a)) ↔ NoRing plan := by
  refine forall_congr' fun a => not_congr ⟨fun hring => ?_, fun hring => ?_⟩
  · obtain ⟨b, hb, hab⟩ := h.chain hf hring
    obtain rfl := hf hb
    exact hab
  · exact hring.lift f fun _ _ => (h.precedes hf).mpr

end Tables

end Foundations
