import Argus.Foundations.Program
import Mathlib.Data.List.Chain
import Mathlib.Logic.Function.Basic

/-!
# Requests to a shared state

A service answers requests that run at the same time. A request is a program; each of its calls is
answered at one moment, by the state of that moment, and may change it, while between two of its
calls the other requests go on. The service keeps all versions of its state, newest first, so that
what an answer says can be compared with the versions that there were from the beginning of its
request to its end, and for every request the calls that it has made, newest first.

`Program.Accounts` is what is proved of one request on its own: what every call does to the state is
a change that is allowed, whatever allowed changes the others make in between, and the answer is
explained by the versions that the request has lived through and by the calls that it has made.
`Service.good` is the rule: then the changes of the whole service are allowed ones, and every
answer it has given is explained.
-/

namespace Foundations

/-! ### One request -/

section Accounts

variable {O : Type} {R : O → Type} {σ α β : Type}

/-- The versions of a state, newest first, each allowed after the one before and satisfying `J`. -/
structure Lawful (J : σ → Prop) (G : σ → σ → Prop) (versions : List σ) : Prop where
  chain : versions.IsChain fun new old => G old new
  all : ∀ s ∈ versions, J s

theorem Lawful.cons {J : σ → Prop} {G : σ → σ → Prop} (hG : ∀ s s', J s → G s s' → J s') {s s' : σ}
    {versions : List σ} (h : Lawful J G (s :: versions)) (hs : G s s') :
    Lawful J G (s' :: s :: versions) where
  chain := h.chain.cons_cons hs
  all := List.forall_mem_cons.mpr ⟨hG s s' (h.all s List.mem_cons_self) hs, h.all⟩

namespace Program

/-- A program that has lived through the versions `seen` and made the calls `made` makes allowed
changes only, and returns what the versions and the calls at its end explain. Before every call, and
at the end, others have made changes. -/
def Accounts (E : Effect σ O R) (J : σ → Prop) (G : σ → σ → Prop)
    (Q : List σ → List (Σ o, R o) → α → Prop) :
    Program O R α → List σ → List (Σ o, R o) → Prop
  | ret a, seen, made => ∀ later, Lawful J G (later ++ seen) → Q (later ++ seen) made a
  | call o k, seen, made => ∀ later, Lawful J G (later ++ seen) → ∀ s ∈ (later ++ seen).head?,
      ∀ r s', E s o r s' →
        G s s' ∧ (k r).Accounts E J G Q (s' :: (later ++ seen)) (⟨o, r⟩ :: made)

variable {E : Effect σ O R} {J : σ → Prop} {G : σ → σ → Prop}

/-- What others do does not matter. -/
theorem Accounts.append {Q : List σ → List (Σ o, R o) → α → Prop} {p : Program O R α}
    {seen : List σ} {made : List (Σ o, R o)} (h : p.Accounts E J G Q seen made) (later : List σ) :
    p.Accounts E J G Q (later ++ seen) made := by
  cases p with
  | ret a =>
    intro more hmore
    rw [← List.append_assoc] at hmore ⊢
    exact h (more ++ later) hmore
  | call o k =>
    intro more hmore
    rw [← List.append_assoc] at hmore ⊢
    exact h (more ++ later) hmore

/-- **Consequence rule.** -/
theorem Accounts.mono {Q Q' : List σ → List (Σ o, R o) → α → Prop} {p : Program O R α}
    {seen : List σ} {made : List (Σ o, R o)} (hQ : ∀ lived made a, Q lived made a → Q' lived made a)
    (h : p.Accounts E J G Q seen made) : p.Accounts E J G Q' seen made := by
  induction p generalizing seen made with
  | ret a => exact fun later hlater => hQ _ _ a (h later hlater)
  | call o k ih =>
    intro later hlater s hs r s' hE
    obtain ⟨hchange, hk⟩ := h later hlater s hs r s' hE
    exact ⟨hchange, ih r hk⟩

/-- The calls that a program has made stay made. -/
theorem Accounts.made_suffix {Q : List σ → List (Σ o, R o) → α → Prop} {p : Program O R α}
    {seen : List σ} {made : List (Σ o, R o)} (h : p.Accounts E J G Q seen made) :
    p.Accounts E J G (fun lived made' a => made <:+ made' ∧ Q lived made' a) seen made := by
  induction p generalizing seen made with
  | ret a => exact fun later hlater => ⟨List.suffix_rfl, h later hlater⟩
  | call o k ih =>
    intro later hlater s hs r s' hE
    obtain ⟨hchange, hk⟩ := h later hlater s hs r s' hE
    refine ⟨hchange, (ih r hk).mono fun lived made' a hQ => ?_⟩
    exact ⟨(List.suffix_cons _ made).trans hQ.1, hQ.2⟩

/-- **Sequencing rule.** The rest is proved from the versions and the calls at the end of the first
part. -/
theorem Accounts.bind {Q : List σ → List (Σ o, R o) → α → Prop}
    {Q' : List σ → List (Σ o, R o) → β → Prop} {p : Program O R α} {f : α → Program O R β}
    {seen : List σ} {made : List (Σ o, R o)} (hG : ∀ s s', J s → G s s' → J s')
    (hp : p.Accounts E J G Q seen made) (hseen : Lawful J G seen)
    (hf : ∀ a seen' made', Lawful J G seen' → Q seen' made' a →
      (f a).Accounts E J G Q' seen' made') : (p >>= f).Accounts E J G Q' seen made := by
  induction p generalizing seen made with
  | ret a => exact hf a seen made hseen (hp [] hseen)
  | call o k ih =>
    intro later hlater s hs r s' hE
    obtain ⟨hchange, hk⟩ := hp later hlater s hs r s' hE
    obtain ⟨rest, hrest⟩ := List.head?_eq_some_iff.mp hs
    have hnext : Lawful J G (s' :: (later ++ seen)) := by
      rw [hrest] at hlater ⊢
      exact hlater.cons hG hchange
    exact ⟨hchange, ih r hk hnext⟩

end Program

end Accounts

/-! ### The service -/

/-- A request that is running: how many versions are older than the one at its beginning, the calls
that it has made, and what is left of its program. -/
structure Running (O : Type) (R : O → Type) (Q A : Type) where
  request : Q
  older : ℕ
  made : List (Σ o, R o)
  program : Program O R A

/-- An answer that was given, with the versions that its request has lived through and the calls
that it has made. -/
structure Answered (O : Type) (R : O → Type) (σ Q A : Type) where
  request : Q
  lived : List σ
  made : List (Σ o, R o)
  answer : A

/-- A service: the versions of its state, newest first, the requests that are running, and the
answers that it has given. -/
structure Service (O : Type) (R : O → Type) (σ Q A : Type) where
  versions : List σ
  running : ℕ → Option (Running O R Q A)
  answered : List (Answered O R σ Q A)

namespace Service

variable {O : Type} {R : O → Type} {σ Q A : Type}

/-- A service in its first state, without requests. -/
def initial (s : σ) : Service O R σ Q A := ⟨[s], fun _ => none, []⟩

/-- The steps: a request begins, makes a call, gives its answer, or is dropped. -/
inductive Step (E : Effect σ O R) (handler : Q → Program O R A) :
    Service O R σ Q A → Service O R σ Q A → Prop
  | begin {t : Service O R σ Q A} (c : ℕ) (q : Q) (free : t.running c = none) :
      Step E handler t { t with
        running := Function.update t.running c (some ⟨q, t.versions.length - 1, [], handler q⟩) }
  | call {t : Service O R σ Q A} {c n : ℕ} {q : Q} {made : List (Σ o, R o)} {o : O}
      {k : R o → Program O R A} {s s' : σ} {r : R o}
      (running : t.running c = some ⟨q, n, made, .call o k⟩) (current : s ∈ t.versions.head?)
      (answers : E s o r s') :
      Step E handler t { t with
        versions := s' :: t.versions
        running := Function.update t.running c (some ⟨q, n, ⟨o, r⟩ :: made, k r⟩) }
  | answer {t : Service O R σ Q A} {c n : ℕ} {q : Q} {made : List (Σ o, R o)} {a : A}
      (running : t.running c = some ⟨q, n, made, .ret a⟩) :
      Step E handler t { t with
        running := Function.update t.running c none
        answered := ⟨q, t.versions.take (t.versions.length - n), made, a⟩ :: t.answered }
  | drop {t : Service O R σ Q A} (c : ℕ) :
      Step E handler t { t with running := Function.update t.running c none }

variable {E : Effect σ O R} {handler : Q → Program O R A} {J : σ → Prop} {G : σ → σ → Prop}
  {explains : Q → List σ → List (Σ o, R o) → A → Prop} {s : σ} {t t' : Service O R σ Q A}

/-- A running request has lived through some versions, from which it makes allowed changes and gives
an answer that is explained. -/
structure RunningGood (J : σ → Prop) (G : σ → σ → Prop) (E : Effect σ O R)
    (explains : Q → List σ → List (Σ o, R o) → A → Prop) (versions : List σ)
    (x : Running O R Q A) : Prop where
  older : x.older < versions.length
  accounts : x.program.Accounts E J G (explains x.request)
    (versions.take (versions.length - x.older)) x.made

theorem take_cons {versions : List σ} {n : ℕ} (h : n < versions.length) (s : σ) :
    (s :: versions).take ((s :: versions).length - n) =
      s :: versions.take (versions.length - n) := by
  have hlength : (s :: versions).length - n = versions.length - n + 1 := by
    rw [List.length_cons]
    omega
  rw [hlength, List.take_succ_cons]

/-- Another version does not matter to a request that is running. -/
theorem RunningGood.cons {versions : List σ} {x : Running O R Q A}
    (h : RunningGood J G E explains versions x) (s : σ) :
    RunningGood J G E explains (s :: versions) x where
  older := h.older.trans (Nat.lt_succ_self _)
  accounts := by
    rw [take_cons h.older]
    exact h.accounts.append [s]

/-- What holds in every state of the service. -/
structure Good (J : σ → Prop) (G : σ → σ → Prop) (E : Effect σ O R)
    (explains : Q → List σ → List (Σ o, R o) → A → Prop) (t : Service O R σ Q A) : Prop where
  nonempty : t.versions ≠ []
  lawful : Lawful J G t.versions
  running : ∀ c x, t.running c = some x → RunningGood J G E explains t.versions x
  answered : ∀ a ∈ t.answered, a.lived <:+: t.versions ∧ explains a.request a.lived a.made a.answer

theorem good_initial (hs : J s) :
    Good J G E explains (initial s : Service O R σ Q A) where
  nonempty := List.cons_ne_nil _ _
  lawful := ⟨List.isChain_singleton s, List.forall_mem_singleton.mpr hs⟩
  running c x h := absurd h (by simp [initial])
  answered a h := absurd h List.not_mem_nil

theorem running_update {running : ℕ → Option (Running O R Q A)} {P : Running O R Q A → Prop}
    {c : ℕ} {y : Option (Running O R Q A)} (hy : ∀ x, y = some x → P x)
    (h : ∀ c x, running c = some x → P x) :
    ∀ c' x, Function.update running c y c' = some x → P x := by
  intro c' x hx
  rw [Function.update_apply] at hx
  split_ifs at hx
  · exact hy x hx
  · exact h c' x hx

/-- **The step lemma.** -/
theorem good_step (hG : ∀ s s', J s → G s s' → J s')
    (hhandler : ∀ q s, J s → (handler q).Accounts E J G (explains q) [s] [])
    (hstep : Step E handler t t') (h : Good J G E explains t) : Good J G E explains t' := by
  cases hstep with
  | begin c q free =>
    refine { h with running := running_update ?_ h.running }
    rintro x hx
    obtain rfl := Option.some.inj hx
    obtain ⟨s, versions, hversions⟩ := List.exists_cons_of_ne_nil h.nonempty
    have hs : J s := h.lawful.all s (hversions ▸ List.mem_cons_self)
    have hlength : t.versions.length = versions.length + 1 := by rw [hversions, List.length_cons]
    -- a request that begins has lived through the current version only
    have htake : t.versions.take (t.versions.length - (t.versions.length - 1)) = [s] := by
      rw [hlength, Nat.add_sub_cancel, Nat.add_sub_cancel_left, hversions]
      rfl
    refine ⟨by rw [hlength]; exact Nat.lt_succ_self _, ?_⟩
    rw [htake]
    exact hhandler q s hs
  | call running current answers =>
    rename_i c n q made o k s s' r
    have hrun := h.running c _ running
    obtain ⟨versions, hversions⟩ := List.head?_eq_some_iff.mp current
    have htake : s ∈ (t.versions.take (t.versions.length - n)).head? := by
      obtain ⟨m, hm⟩ : ∃ m, t.versions.length - n = m + 1 :=
        ⟨_, (Nat.succ_pred_eq_of_pos (Nat.sub_pos_of_lt hrun.older)).symm⟩
      rw [hm, hversions, List.take_succ_cons]
      rfl
    -- what the request has lived through is lawful, so that its account goes on
    have hlived : Lawful J G (t.versions.take (t.versions.length - n)) :=
      ⟨h.lawful.chain.take _, fun v hv => h.lawful.all v (List.mem_of_mem_take hv)⟩
    obtain ⟨hchange, hk⟩ := hrun.accounts [] hlived s htake r s' answers
    have hlawful : Lawful J G (s' :: t.versions) := by
      have hlawful := h.lawful
      rw [hversions] at hlawful ⊢
      exact hlawful.cons hG hchange
    refine ⟨List.cons_ne_nil _ _, hlawful,
      running_update ?_ fun c x hx => (h.running c x hx).cons s',
      fun a ha => ⟨(h.answered a ha).1.trans (List.suffix_cons s' _).isInfix, (h.answered a ha).2⟩⟩
    intro x hx
    obtain rfl := Option.some.inj hx
    exact ⟨hrun.older.trans (Nat.lt_succ_self _), by rw [take_cons hrun.older]; exact hk⟩
  | answer running =>
    rename_i c n q made a
    have hrun := h.running c _ running
    refine { h with
      running := running_update (fun x hx => absurd hx (by simp)) h.running
      answered := List.forall_mem_cons.mpr ⟨?_, h.answered⟩ }
    have hlived : Lawful J G (t.versions.take (t.versions.length - n)) :=
      ⟨h.lawful.chain.take _, fun v hv => h.lawful.all v (List.mem_of_mem_take hv)⟩
    exact ⟨(List.take_prefix _ _).isInfix, hrun.accounts [] hlived⟩
  | drop c =>
    exact { h with running := running_update (fun x hx => absurd hx (by simp)) h.running }

/-- **The rule for services.** When every request accounts for what it does, whatever allowed
changes the others make, the versions of the state are allowed ones, and every answer is explained
by versions that its request has lived through and by calls that it has made. -/
theorem good (hG : ∀ s s', J s → G s s' → J s')
    (hhandler : ∀ q s, J s → (handler q).Accounts E J G (explains q) [s] []) (hs : J s)
    (hrun : Relation.ReflTransGen (Step E handler) (initial s) t) : Good J G E explains t := by
  induction hrun with
  | refl => exact good_initial hs
  | tail _ hstep ih => exact good_step hG hhandler hstep ih

end Service

end Foundations
