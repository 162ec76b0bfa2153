import Argus.Foundations.Transactions
import Mathlib.Data.List.Nodup
import Mathlib.Data.List.Pairwise
import Mathlib.Logic.Function.Basic

/-!
# Transactions of many sessions

Sessions with transactions work on one database at the same time. What a transaction has run
becomes part of the database when it is committed, all of it or nothing. Some statements insert a
key unless it is there. Such an insert waits for an open transaction that has inserted the key: it
gets no answer but an error before that transaction has ended.

`Exclusive` says that no key is inserted twice, and every answer keeps it. What one session learns
from its answers is a `TxHistory`; `Coupled` connects it with the database, whatever the other
sessions do. So a program is verified on its own, against `TxHistory.Next`.
-/

namespace Foundations

/-! ### The database -/

/-- The transactions that were committed, oldest first, each with the number of its session, and
what the open transaction of a session has run. -/
structure SharedStore (S : Type) where
  committed : List (ℕ × List S)
  running : ℕ → Option (List S)

/-- Keys that are inserted by statements. -/
def keysOf {S K : Type} (key : S → Option K) (l : List S) : List K := l.filterMap key

namespace SharedStore

variable {S K : Type}

/-- Nothing was committed yet. -/
def empty : SharedStore S := ⟨[], fun _ => none⟩

/-- The keys in the database. -/
def keys (key : S → Option K) (s : SharedStore S) : List K :=
  s.committed.flatMap fun t => keysOf key t.2

/-- The open transaction of a session is another one, or none. -/
def setRunning (s : SharedStore S) (d : ℕ) (l : Option (List S)) : SharedStore S :=
  { s with running := Function.update s.running d l }

/-- The open transaction of a session is committed. -/
def commit (s : SharedStore S) (d : ℕ) (l : List S) : SharedStore S where
  committed := s.committed ++ [(d, l)]
  running := Function.update s.running d none

/-- The answers that a session may get, and the database after them. -/
inductive Answers (key : S → Option K) (d : ℕ) (s : SharedStore S) :
    (o : TxOp S) → TxOp.Answer ℕ o → SharedStore S → Prop
  | begun : Answers key d s .begin true (s.setRunning d (some []))
  | notBegun : Answers key d s .begin false s
  | ran {st : S} {l : List S} {n : ℕ} (running : s.running d = some l) (plain : key st = none) :
      Answers key d s (.exec st) (some n) (s.setRunning d (some (l ++ [st])))
  /-- The key is neither there nor in an open transaction. -/
  | inserted {st : S} {l : List S} {k : K} (running : s.running d = some l)
      (keyed : key st = some k) (free : k ∉ s.keys key)
      (unheld : ∀ d' l', s.running d' = some l' → k ∉ keysOf key l') :
      Answers key d s (.exec st) (some 1) (s.setRunning d (some (l ++ [st])))
  /-- The key is there, or the transaction has inserted it itself. -/
  | found {st : S} {l : List S} {k : K} (running : s.running d = some l)
      (keyed : key st = some k) (taken : k ∈ s.keys key ∨ k ∈ keysOf key l) :
      Answers key d s (.exec st) (some 0) s
  /-- An error ends the transaction. -/
  | failed {st : S} : Answers key d s (.exec st) none (s.setRunning d none)
  | committed {l : List S} (running : s.running d = some l) :
      Answers key d s .commit true (s.commit d l)
  /-- The answer to a commit is lost. -/
  | unanswered {l : List S} (running : s.running d = some l) :
      Answers key d s .commit false (s.commit d l)
  | refused : Answers key d s .commit false (s.setRunning d none)
  | rolledBack : Answers key d s .rollback () (s.setRunning d none)

variable {key : S → Option K} {d d' : ℕ} {s s' : SharedStore S} {o : TxOp S}
  {r : TxOp.Answer ℕ o}

@[simp] theorem keysOf_nil : keysOf key [] = [] := rfl

theorem keysOf_concat (l : List S) (st : S) :
    keysOf key (l ++ [st]) = keysOf key l ++ (key st).toList := by
  rw [keysOf, keysOf, List.filterMap_append]
  cases h : key st <;> simp [h]

@[simp] theorem setRunning_committed (l : Option (List S)) :
    (s.setRunning d l).committed = s.committed := rfl

@[simp] theorem setRunning_keys (l : Option (List S)) :
    (s.setRunning d l).keys key = s.keys key := rfl

theorem setRunning_self (l : Option (List S)) : (s.setRunning d l).running d = l :=
  Function.update_self ..

theorem setRunning_ne (h : d' ≠ d) (l : Option (List S)) :
    (s.setRunning d l).running d' = s.running d' :=
  Function.update_of_ne h ..

theorem commit_keys (l : List S) : (s.commit d l).keys key = s.keys key ++ keysOf key l := by
  simp [keys, commit]

theorem mem_keys {k : K} :
    k ∈ s.keys key ↔ ∃ t ∈ s.committed, k ∈ keysOf key t.2 := List.mem_flatMap

theorem commit_running_self (l : List S) : (s.commit d l).running d = none :=
  Function.update_self ..

theorem commit_running_ne (h : d' ≠ d) (l : List S) :
    (s.commit d l).running d' = s.running d' :=
  Function.update_of_ne h ..

/-- What is committed stays. -/
theorem Answers.committed_prefix (h : Answers key d s o r s') : s.committed <+: s'.committed := by
  cases h with
  | committed _ | unanswered _ => exact List.prefix_append _ _
  | _ => exact List.prefix_refl _

/-- What is added is committed by the session. -/
theorem Answers.mem_committed (h : Answers key d s o r s') {t : ℕ × List S}
    (ht : t ∈ s'.committed) : t ∈ s.committed ∨ t.1 = d := by
  cases h with
  | committed _ | unanswered _ =>
    exact (List.mem_append.mp ht).imp_right fun ht => congrArg Prod.fst (List.mem_singleton.mp ht)
  | _ => exact .inl ht

/-- A key that is there stays. -/
theorem Answers.mem_keys_of_mem (h : Answers key d s o r s') {k : K} (hk : k ∈ s.keys key) :
    k ∈ s'.keys key := by
  obtain ⟨t, ht, hkt⟩ := mem_keys.mp hk
  exact mem_keys.mpr ⟨t, h.committed_prefix.subset ht, hkt⟩

/-! ### Keys are inserted once -/

/-- No key is inserted twice, by committed and open transactions. -/
structure Exclusive (key : S → Option K) (s : SharedStore S) : Prop where
  /-- By the committed ones. -/
  once : (s.keys key).Nodup
  /-- By an open one. -/
  inner : ∀ d l, s.running d = some l → (keysOf key l).Nodup
  /-- By an open and a committed one. -/
  free : ∀ d l, s.running d = some l → ∀ k ∈ keysOf key l, k ∉ s.keys key
  /-- By two open ones. -/
  apart : ∀ d d' l l', d ≠ d' → s.running d = some l → s.running d' = some l' →
    ∀ k ∈ keysOf key l, k ∉ keysOf key l'

theorem exclusive_empty : Exclusive key (empty : SharedStore S) :=
  ⟨List.nodup_nil, nofun, nofun, nofun⟩

/-- A transaction has ended. -/
theorem Exclusive.ended (h : Exclusive key s) (d : ℕ) : Exclusive key (s.setRunning d none) := by
  have hrunning : ∀ d' l, (s.setRunning d none).running d' = some l → s.running d' = some l := by
    intro d' l hl
    by_cases hd : d' = d
    · rw [hd, setRunning_self] at hl
      exact nomatch hl
    · rwa [setRunning_ne hd] at hl
  exact ⟨h.once, fun d' l hl => h.inner d' l (hrunning d' l hl),
    fun d' l hl => h.free d' l (hrunning d' l hl),
    fun d₁ d₂ l₁ l₂ hne h₁ h₂ => h.apart d₁ d₂ l₁ l₂ hne (hrunning _ _ h₁) (hrunning _ _ h₂)⟩

/-- A transaction goes on with other keys, which no one else has inserted. -/
theorem Exclusive.goesOn (h : Exclusive key s) {l : List S} (hinner : (keysOf key l).Nodup)
    (hfree : ∀ k ∈ keysOf key l, k ∉ s.keys key)
    (hapart : ∀ d' l', d' ≠ d → s.running d' = some l' →
      ∀ k ∈ keysOf key l, k ∉ keysOf key l') :
    Exclusive key (s.setRunning d (some l)) := by
  have hrunning : ∀ d' l', (s.setRunning d (some l)).running d' = some l' →
      d' = d ∧ l' = l ∨ d' ≠ d ∧ s.running d' = some l' := by
    intro d' l' hl
    by_cases hd : d' = d
    · rw [hd, setRunning_self] at hl
      exact .inl ⟨hd, (Option.some.inj hl).symm⟩
    · rw [setRunning_ne hd] at hl
      exact .inr ⟨hd, hl⟩
  refine ⟨h.once, fun d' l' hl => ?_, fun d' l' hl => ?_, fun d₁ d₂ l₁ l₂ hne h₁ h₂ => ?_⟩
  · rcases hrunning d' l' hl with ⟨-, rfl⟩ | ⟨-, hl⟩
    · exact hinner
    · exact h.inner d' l' hl
  · rcases hrunning d' l' hl with ⟨-, rfl⟩ | ⟨-, hl⟩
    · exact hfree
    · exact h.free d' l' hl
  · rcases hrunning d₁ l₁ h₁ with ⟨rfl, rfl⟩ | ⟨hd₁, h₁⟩
    · rcases hrunning d₂ l₂ h₂ with ⟨rfl, -⟩ | ⟨hd₂, h₂⟩
      · exact absurd rfl hne
      · exact hapart d₂ l₂ hd₂ h₂
    · rcases hrunning d₂ l₂ h₂ with ⟨hd₂, hl₂⟩ | ⟨-, h₂⟩
      · rw [hl₂]
        exact fun k hk hk' => hapart d₁ l₁ hd₁ h₁ k hk' hk
      · exact h.apart d₁ d₂ l₁ l₂ hne h₁ h₂

/-- A transaction is committed. -/
theorem Exclusive.commit (h : Exclusive key s) {l : List S} (hl : s.running d = some l) :
    Exclusive key (s.commit d l) := by
  have hrunning : ∀ d' l', (s.commit d l).running d' = some l' →
      d' ≠ d ∧ s.running d' = some l' := by
    intro d' l' hl'
    by_cases hd : d' = d
    · rw [hd, commit_running_self] at hl'
      exact nomatch hl'
    · rw [commit_running_ne hd] at hl'
      exact ⟨hd, hl'⟩
  refine ⟨?_, fun d' l' hl' => h.inner d' l' (hrunning d' l' hl').2, fun d' l' hl' k hk => ?_,
    fun d₁ d₂ l₁ l₂ hne h₁ h₂ => h.apart d₁ d₂ l₁ l₂ hne (hrunning _ _ h₁).2 (hrunning _ _ h₂).2⟩
  · rw [commit_keys, List.nodup_append]
    refine ⟨h.once, h.inner d l hl, fun k hk k' hk' heq => ?_⟩
    exact h.free d l hl k' hk' (heq ▸ hk)
  · obtain ⟨hd, hl'⟩ := hrunning d' l' hl'
    rw [commit_keys, List.mem_append]
    exact fun hmem => hmem.elim (h.free d' l' hl' k hk) (h.apart d' d l' l hd hl' hl k hk)

/-- **Step lemma.** Every answer keeps the keys apart. -/
theorem Exclusive.answers (h : Exclusive key s) (hstep : Answers key d s o r s') :
    Exclusive key s' := by
  cases hstep with
  | begun => exact h.goesOn List.nodup_nil nofun nofun
  | notBegun | found _ _ _ => exact h
  | @ran st l n hl hplain =>
    have hkeys : keysOf key (l ++ [st]) = keysOf key l := by
      rw [keysOf_concat, hplain, Option.toList_none, List.append_nil]
    refine h.goesOn (hkeys ▸ h.inner d l hl) (hkeys ▸ h.free d l hl) fun d' l' hd hl' => ?_
    exact hkeys ▸ h.apart d d' l l' hd.symm hl hl'
  | @inserted st l k hl hkeyed hfree hunheld =>
    have hkeys : keysOf key (l ++ [st]) = keysOf key l ++ [k] := by
      rw [keysOf_concat, hkeyed, Option.toList_some]
    refine h.goesOn ?_ ?_ ?_
    · rw [hkeys, List.nodup_append]
      refine ⟨h.inner d l hl, List.nodup_singleton k, fun k' hk' k'' hk'' heq => ?_⟩
      rw [List.mem_singleton.mp hk''] at heq
      exact hunheld d l hl (heq ▸ hk')
    · intro k' hk'
      rw [hkeys, List.mem_append, List.mem_singleton] at hk'
      rcases hk' with hk' | rfl
      · exact h.free d l hl k' hk'
      · exact hfree
    · intro d' l' hd hl' k' hk'
      rw [hkeys, List.mem_append, List.mem_singleton] at hk'
      rcases hk' with hk' | rfl
      · exact h.apart d d' l l' hd.symm hl hl' k' hk'
      · exact hunheld d' l' hl'
  | failed | refused | rolledBack => exact h.ended d
  | committed hl | unanswered hl => exact h.commit hl

/-- At most one committed transaction has inserted a key. -/
theorem Exclusive.length_le_one [DecidableEq K] (h : Exclusive key s) (k : K) :
    (s.committed.filter fun t => k ∈ keysOf key t.2).length ≤ 1 := by
  have hlist : ∀ l : List (ℕ × List S), (l.flatMap fun t => keysOf key t.2).Nodup →
      (l.filter fun t => k ∈ keysOf key t.2).length ≤ 1 := by
    intro l
    induction l with
    | nil => exact fun _ => Nat.zero_le _
    | cons t l ih =>
      intro hnodup
      rw [List.flatMap_cons, List.nodup_append] at hnodup
      obtain ⟨-, hrest, hdisjoint⟩ := hnodup
      by_cases hk : k ∈ keysOf key t.2
      · have hnone : (l.filter fun t => k ∈ keysOf key t.2) = [] := by
          refine List.filter_eq_nil_iff.mpr fun t' ht' hk' => ?_
          exact hdisjoint k hk k (List.mem_flatMap.mpr ⟨t', ht', of_decide_eq_true hk'⟩) rfl
        rw [List.filter_cons_of_pos (by simpa using hk), hnone]
        exact Nat.le_refl 1
      · rw [List.filter_cons_of_neg (by simpa using hk)]
        exact ih hrest
  exact hlist _ h.once

/-- Two committed transactions that have inserted a key are one. -/
theorem Exclusive.eq_of_mem (h : Exclusive key s) {t t' : ℕ × List S} (ht : t ∈ s.committed)
    (ht' : t' ∈ s.committed) {k : K} (hk : k ∈ keysOf key t.2) (hk' : k ∈ keysOf key t'.2) :
    t = t' := by
  by_contra hne
  have hdisjoint := (List.nodup_flatMap.mp h.once).2
  have : Std.Symm (Function.onFun List.Disjoint fun t : ℕ × List S => keysOf key t.2) :=
    ⟨fun _ _ h _ hk hk' => h hk' hk⟩
  exact hdisjoint.forall ht ht' hne hk hk'

end SharedStore

/-! ### What a session knows -/

/-- What a session has learned: what it has run since it began its last transaction, which
transactions it tried to commit and which commits were confirmed, newest first, and which keys it
found in the database. -/
structure TxHistory (S K : Type) where
  ran : List S
  tried : List (List S)
  confirmed : List (List S)
  found : List K

namespace TxHistory

variable {S K : Type}

/-- Before the first operation. -/
def start : TxHistory S K := ⟨[], [], [], []⟩

/-- What an answer adds. -/
inductive Next (key : S → Option K) (h : TxHistory S K) :
    (o : TxOp S) → TxOp.Answer ℕ o → TxHistory S K → Prop
  | begun : Next key h .begin true { h with ran := [] }
  | notBegun : Next key h .begin false h
  | ran {st : S} {n : ℕ} (plain : key st = none ∨ n ≠ 0) :
      Next key h (.exec st) (some n) { h with ran := h.ran ++ [st] }
  | found {st : S} {k : K} (keyed : key st = some k) :
      Next key h (.exec st) (some 0) { h with found := k :: h.found }
  | own {st : S} {k : K} (keyed : key st = some k) (own : k ∈ keysOf key h.ran) :
      Next key h (.exec st) (some 0) h
  | failed {st : S} : Next key h (.exec st) none h
  | committed : Next key h .commit true
      { h with tried := h.ran :: h.tried, confirmed := h.ran :: h.confirmed }
  | uncommitted : Next key h .commit false { h with tried := h.ran :: h.tried }
  | rolledBack : Next key h .rollback () h

end TxHistory

namespace SharedStore

variable {S K : Type} {key : S → Option K} {d d' : ℕ} {s s' : SharedStore S} {o : TxOp S}
  {r : TxOp.Answer ℕ o} {h : TxHistory S K}

/-- What a session knows is so. -/
structure Coupled (key : S → Option K) (d : ℕ) (s : SharedStore S) (h : TxHistory S K) : Prop where
  running : ∀ l, s.running d = some l → l = h.ran
  tried : ∀ l, (d, l) ∈ s.committed → l ∈ h.tried
  confirmed : ∀ l ∈ h.confirmed, (d, l) ∈ s.committed
  found : ∀ k ∈ h.found, k ∈ s.keys key

/-- A session that has not begun knows nothing. -/
theorem coupled_start (hrunning : s.running d = none) (hcommitted : ∀ l, (d, l) ∉ s.committed) :
    Coupled key d s .start :=
  ⟨fun _ hl => absurd (hrunning.symm.trans hl) nofun, fun l hl => absurd hl (hcommitted l), nofun,
    nofun⟩

/-- What is known stays so when no more is committed by the session, and its transaction ends or
is as before. -/
theorem Coupled.mono (hc : Coupled key d s h)
    (hrunning : ∀ l, s'.running d = some l → s.running d = some l)
    (hcommitted : s.committed <+: s'.committed)
    (hown : ∀ l, (d, l) ∈ s'.committed → (d, l) ∈ s.committed) : Coupled key d s' h where
  running l hl := hc.running l (hrunning l hl)
  tried l hl := hc.tried l (hown l hl)
  confirmed l hl := hcommitted.subset (hc.confirmed l hl)
  found k hk := by
    obtain ⟨t, ht, hkt⟩ := mem_keys.mp (hc.found k hk)
    exact mem_keys.mpr ⟨t, hcommitted.subset ht, hkt⟩

/-- Sessions may be lost. -/
theorem Coupled.lost (hc : Coupled key d s h) (d' : ℕ) :
    Coupled key d (s.setRunning d' none) h := by
  refine hc.mono (fun l hl => ?_) (List.prefix_refl _) fun _ hl => hl
  by_cases hd : d = d'
  · rw [hd, setRunning_self] at hl
    exact nomatch hl
  · rwa [setRunning_ne hd] at hl

/-- **The others.** What a session knows stays so whatever another one does. -/
theorem Coupled.other (hc : Coupled key d s h) (hd : d ≠ d') (hstep : Answers key d' s o r s') :
    Coupled key d s' h := by
  have hset : ∀ l, Coupled key d (s.setRunning d' l) h := fun l =>
    hc.mono (fun l' hl' => by rwa [setRunning_ne hd] at hl') (List.prefix_refl _) fun _ hl => hl
  have hcommit : ∀ l, Coupled key d (s.commit d' l) h := by
    refine fun l => hc.mono (fun l' hl' => ?_) (List.prefix_append _ _) fun l' hl' => ?_
    · rwa [commit_running_ne hd] at hl'
    · rcases List.mem_append.mp hl' with hl' | hl'
      · exact hl'
      · exact absurd (congrArg Prod.fst (List.mem_singleton.mp hl')) hd
  cases hstep with
  | notBegun | found _ _ _ => exact hc
  | begun | ran _ _ | inserted _ _ _ _ | failed | refused | rolledBack => exact hset _
  | committed _ | unanswered _ => exact hcommit _

/-- **The session itself.** It learns from each of its answers. -/
theorem Coupled.own (hc : Coupled key d s h) (hstep : Answers key d s o r s') :
    ∃ h', TxHistory.Next key h o r h' ∧ Coupled key d s' h' := by
  have hset : ∀ l, Coupled key d (s.setRunning d (some l)) { h with ran := l } := fun l =>
    ⟨fun l' hl' => by
      rw [setRunning_self] at hl'
      exact (Option.some.inj hl').symm, hc.tried, hc.confirmed, hc.found⟩
  -- both ends of a COMMIT that was executed, with and without its answer
  have hcommit : ∀ {l confirmed}, s.running d = some l →
      (∀ l' ∈ confirmed, l' ∈ h.ran :: h.confirmed) →
      Coupled key d (s.commit d l)
        { h with tried := h.ran :: h.tried, confirmed := confirmed } := by
    intro l confirmed hl hconfirmed
    obtain rfl := hc.running l hl
    refine ⟨fun l' hl' => ?_, fun l' hl' => ?_, fun l' hl' => ?_, fun k hk => ?_⟩
    · rw [commit_running_self] at hl'
      exact nomatch hl'
    · rcases List.mem_append.mp hl' with hl' | hl'
      · exact List.mem_cons_of_mem _ (hc.tried l' hl')
      · rw [show l' = h.ran from congrArg Prod.snd (List.mem_singleton.mp hl')]
        exact List.mem_cons_self
    · rcases List.mem_cons.mp (hconfirmed l' hl') with rfl | hl'
      · exact List.mem_append_right _ List.mem_cons_self
      · exact List.mem_append_left _ (hc.confirmed l' hl')
    · rw [commit_keys]
      exact List.mem_append_left _ (hc.found k hk)
  cases hstep with
  | begun => exact ⟨_, .begun, hset _⟩
  | notBegun => exact ⟨_, .notBegun, hc⟩
  | ran hl hplain =>
    rw [hc.running _ hl]
    exact ⟨_, .ran (.inl hplain), hset _⟩
  | inserted hl _ _ _ =>
    rw [hc.running _ hl]
    exact ⟨_, .ran (.inr Nat.one_ne_zero), hset _⟩
  | found hl hkeyed htaken =>
    -- the key is of a committed transaction or of this one
    rcases htaken with htaken | hown
    · refine ⟨_, .found hkeyed, hc.running, hc.tried, hc.confirmed, fun k hk => ?_⟩
      rcases List.mem_cons.mp hk with rfl | hk
      · exact htaken
      · exact hc.found k hk
    · exact ⟨_, .own hkeyed (hc.running _ hl ▸ hown), hc⟩
  | failed => exact ⟨_, .failed, hc.lost d⟩
  | committed hl => exact ⟨_, .committed, hcommit hl fun _ hl' => hl'⟩
  | unanswered hl => exact ⟨_, .uncommitted, hcommit hl fun _ hl' => List.mem_cons_of_mem _ hl'⟩
  | refused =>
    refine ⟨_, .uncommitted, (hc.lost d).running, fun l hl => ?_, hc.confirmed, hc.found⟩
    exact List.mem_cons_of_mem _ (hc.tried l hl)
  | rolledBack => exact ⟨_, .rolledBack, hc.lost d⟩

end SharedStore

/-! ### Programs of a session -/

section Programs

open Program

/-- A program with other statements. -/
def mapStatements {S S' ρ α : Type} (f : S → S') : TxM S ρ α → TxM S' ρ α
  | .ret a => .ret a
  | .call .begin k => .call .begin fun r => mapStatements f (k r)
  | .call (.exec st) k => .call (.exec (f st)) fun r => mapStatements f (k r)
  | .call .commit k => .call .commit fun r => mapStatements f (k r)
  | .call .rollback k => .call .rollback fun r => mapStatements f (k r)

theorem mapStatements_bind {S S' ρ α β : Type} (f : S → S') (p : TxM S ρ α)
    (q : α → TxM S ρ β) :
    mapStatements f (p >>= q) = mapStatements f p >>= fun a => mapStatements f (q a) := by
  induction p with
  | ret a => rfl
  | call o k ih =>
    cases o <;> exact congrArg (call _) (funext fun r => ih r)

theorem mapStatements_execAll {S S' ρ : Type} (f : S → S') (stmts : List (Option S)) :
    mapStatements f (execAll stmts : TxM S ρ Bool) = execAll (stmts.map (Option.map f)) := by
  induction stmts with
  | nil => rfl
  | cons st stmts ih =>
    cases st with
    | none => rfl
    | some st =>
      refine congrArg (call (TxOp.exec (f st))) (funext fun r => ?_)
      cases r with
      | none => rfl
      | some r => exact ih

variable {S K : Type} {key : S → Option K} {J : TxHistory S K → Prop} {h : TxHistory S K}

/-- Statements that insert no key, up to the first error. -/
theorem wp_execAll {stmts : List (Option S)} (hplain : ∀ st, some st ∈ stmts → key st = none)
    (hJ : ∀ l, J { h with ran := l }) :
    (execAll stmts : TxM S ℕ Bool).wp (TxHistory.Next key) J (fun ok h' =>
      ∃ l, h' = { h with ran := h.ran ++ l } ∧ (ok = true → stmts = l.map some)) h := by
  induction stmts generalizing h with
  | nil => exact ⟨[], by rw [List.append_nil], fun _ => rfl⟩
  | cons st stmts ih =>
    cases st with
    | none => exact ⟨[], by rw [List.append_nil], fun hok => absurd hok Bool.false_ne_true⟩
    | some st =>
      have hst : key st = none := hplain st List.mem_cons_self
      rw [execAll, call_bind]
      intro r h' hE
      cases hE with
      | failed =>
        exact ⟨hJ h.ran, [], by rw [List.append_nil], fun hok => absurd hok Bool.false_ne_true⟩
      | @ran _ n _ =>
        refine ⟨hJ _, wp_post (ih (fun st' hst' => hplain st' (List.mem_cons_of_mem _ hst')) hJ) ?_⟩
        rintro ok h' ⟨l, rfl, hl⟩
        exact ⟨st :: l, by simp, fun hok => by rw [hl hok, List.map_cons]⟩
      | found hkeyed => exact absurd (hst.symm.trans hkeyed) (Option.some_ne_none _).symm
      | own hkeyed _ => exact absurd (hst.symm.trans hkeyed) (Option.some_ne_none _).symm

/-- At most one more transaction was tried, and perhaps confirmed. -/
structure TxHistory.Adds (P : List S → Prop) (h h' : TxHistory S K) : Prop where
  tried : h'.tried = h.tried ∨ ∃ l, P l ∧ h'.tried = l :: h.tried
  confirmed : h'.confirmed = h.confirmed ∨ ∃ l, P l ∧ h'.confirmed = l :: h.confirmed

/-- Nothing was tried. -/
theorem TxHistory.adds_nothing {P : List S → Prop} {h' : TxHistory S K}
    (htried : h'.tried = h.tried) (hconfirmed : h'.confirmed = h.confirmed) : h.Adds P h' :=
  ⟨.inl htried, .inl hconfirmed⟩

/-- A transaction was tried, and confirmed or not. -/
theorem TxHistory.adds_one {P : List S → Prop} {h' : TxHistory S K} {l : List S} (hl : P l)
    (htried : h'.tried = l :: h.tried)
    (hconfirmed : h'.confirmed = h.confirmed ∨ h'.confirmed = l :: h.confirmed) : h.Adds P h' :=
  ⟨.inr ⟨l, hl, htried⟩, hconfirmed.imp_right fun hconfirmed => ⟨l, hl, hconfirmed⟩⟩

theorem TxHistory.Adds.mono {P P' : List S → Prop} {h' : TxHistory S K} (hadds : h.Adds P h')
    (hP : ∀ l, P l → P' l) : h.Adds P' h' where
  tried := hadds.tried.imp_right fun ⟨l, hl, heq⟩ => ⟨l, hP l hl, heq⟩
  confirmed := hadds.confirmed.imp_right fun ⟨l, hl, heq⟩ => ⟨l, hP l hl, heq⟩

/-- A transaction of such statements. -/
theorem wp_transaction {stmts : List (Option S)} (hplain : ∀ st, some st ∈ stmts → key st = none)
    (hJ : ∀ h', h.Adds (fun l => l.map some = stmts) h' → J h') :
    (transaction (execAll stmts) : TxM S ℕ Bool).wp (TxHistory.Next key) J (fun ok h' =>
      h.Adds (fun l => l.map some = stmts) h' ∧
        (ok = true → ∃ l ∈ h'.confirmed, l.map some = stmts)) h := by
  have hran : ∀ l, h.Adds (fun l => l.map some = stmts) { h with ran := l } := fun _ =>
    TxHistory.adds_nothing rfl rfl
  simp only [transaction, call_bind, ret_bind]
  intro begun h₁ hE
  cases hE with
  | notBegun => exact ⟨hJ _ (hran h.ran), hran h.ran, fun hok => absurd hok Bool.false_ne_true⟩
  | begun =>
    simp only [if_true]
    refine ⟨hJ _ (hran []), wp_seq (wp_execAll hplain fun l => hJ _ (hran l)) ?_⟩
    rintro ok h₂ ⟨l, rfl, hl⟩
    cases ok with
    | false =>
      intro r h₃ hE
      cases hE
      exact ⟨hJ _ (hran _), hran _, fun hok => absurd hok Bool.false_ne_true⟩
    | true =>
      intro r h₃ hE
      cases hE with
      | committed =>
        have hadds : h.Adds (fun l => l.map some = stmts)
            { h with ran := l, tried := l :: h.tried, confirmed := l :: h.confirmed } :=
          TxHistory.adds_one (hl rfl).symm rfl (.inr rfl)
        exact ⟨hJ _ hadds, hadds, fun _ => ⟨l, List.mem_cons_self, (hl rfl).symm⟩⟩
      | uncommitted =>
        have hadds : h.Adds (fun l => l.map some = stmts)
            { h with ran := l, tried := l :: h.tried } :=
          TxHistory.adds_one (hl rfl).symm rfl (.inl rfl)
        exact ⟨hJ _ hadds, hadds, fun hok => absurd hok Bool.false_ne_true⟩

end Programs

end Foundations
