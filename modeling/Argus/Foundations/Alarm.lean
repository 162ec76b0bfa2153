import Argus.Foundations.History
import Mathlib.Data.List.Chain
import Mathlib.Data.List.DropRight

/-!
# Alarms with a delay

An alarm looks at readings, each above its threshold or not. When the readings have been above for
long enough the alarm goes off, once, and it is called off by the next reading that is not above.

The state of an alarm is the start of the present run of readings above the threshold and whether
the alarm is on. `judged_next` says what the signals are, each in view of the readings and signals
before it, and `alternates` that they alternate.
-/

namespace Foundations

/-- What an alarm tells. -/
inductive Signal
  | fired
  | resolved
  deriving DecidableEq

/-- A reading: whether it was above, its time, and what was told at it. -/
structure Sample (τ : Type) where
  above : Bool
  time : τ
  signals : List Signal

namespace Alarm

variable {τ : Type}

/-- The state of an alarm: nothing, or the start of a run and whether the alarm is on. -/
abbrev State (τ : Type) : Type := Option (τ × Bool)

/-- The state after a reading, and what is told. `held` says for a start and a time whether it has
been long enough. -/
def next (held : τ → τ → Bool) (s : State τ) (above : Bool) (time : τ) : State τ × List Signal :=
  let since := (s.map Prod.fst).getD time
  let on := (s.map Prod.snd).getD false
  if above then
    if !on && held since time then (some (since, true), [.fired]) else (some (since, on), [])
  else (none, if on then [.resolved] else [])

/-- The run at the end of a history: the readings since the last one that was not above. -/
def run (h : List (Sample τ)) : List (Sample τ) := h.rtakeWhile Sample.above

/-- Whether the alarm went off in the run at the end of a history. -/
def on (h : List (Sample τ)) : Bool := (run h).any fun r => Signal.fired ∈ r.signals

/-- The start of a run that goes on with a reading at this time. -/
def start (h : List (Sample τ)) (time : τ) : τ := ((run h).head?.map Sample.time).getD time

/-- What is told at a reading, in view of the readings before: `fired` when the run with this
reading has lasted long enough and nothing was told in it, `resolved` when the run that ends here
had the alarm on. -/
structure Judged (held : τ → τ → Bool) (before : List (Sample τ)) (r : Sample τ) : Prop where
  fired : Signal.fired ∈ r.signals ↔
    r.above = true ∧ held (start before r.time) r.time = true ∧
      ∀ r' ∈ run before, Signal.fired ∉ r'.signals
  resolved : Signal.resolved ∈ r.signals ↔
    r.above = false ∧ ∃ r' ∈ run before, Signal.fired ∈ r'.signals
  once : r.signals.length ≤ 1

/-- All signals of a history. -/
def signals (h : List (Sample τ)) : List Signal := h.flatMap Sample.signals

/-- The state that a history leads to. -/
def stateOf (h : List (Sample τ)) : State τ :=
  (run h).head?.map fun r => (r.time, on h)

variable {held : τ → τ → Bool} {h : List (Sample τ)} {r : Sample τ}

theorem run_concat (h : List (Sample τ)) (r : Sample τ) :
    run (h ++ [r]) = if r.above then run h ++ [r] else [] := by
  rw [run]
  split_ifs with habove
  · exact List.rtakeWhile_concat_pos _ _ _ habove
  · exact List.rtakeWhile_concat_neg _ _ _ habove

theorem on_concat (h : List (Sample τ)) (r : Sample τ) :
    on (h ++ [r]) = (r.above && (on h || decide (Signal.fired ∈ r.signals))) := by
  rw [on, run_concat]
  split_ifs with habove
  · rw [habove, List.any_append, List.any_cons, List.any_nil, Bool.or_false, Bool.true_and, on]
  · rw [eq_false_of_ne_true habove]
    rfl

theorem on_iff : on h = true ↔ ∃ r ∈ run h, Signal.fired ∈ r.signals := by
  rw [on, List.any_eq_true]
  simp only [decide_eq_true_eq]

theorem on_eq_false_iff : on h = false ↔ ∀ r ∈ run h, Signal.fired ∉ r.signals := by
  rw [← Bool.not_eq_true, on_iff]
  push Not
  exact Iff.rfl

/-- The start of a run is kept, or set by its first reading. -/
theorem start_of_stateOf (h : List (Sample τ)) (time : τ) :
    ((stateOf h).map Prod.fst).getD time = start h time := by
  rw [stateOf, Option.map_map, start]
  rfl

theorem on_of_stateOf (h : List (Sample τ)) : ((stateOf h).map Prod.snd).getD false = on h := by
  rw [stateOf, Option.map_map, on]
  rcases run h with - | ⟨r, l⟩ <;> rfl

/-- A run that goes on has the same start. -/
theorem stateOf_concat (h : List (Sample τ)) (r : Sample τ) :
    stateOf (h ++ [r]) = if r.above then some (start h r.time, on (h ++ [r])) else none := by
  rw [stateOf, run_concat]
  split_ifs
  · rw [start]
    rcases run h with - | ⟨r', l⟩ <;> rfl
  · rfl

/-! ### The signals of an alarm -/

/-- What an alarm does, by the history that led to its state. -/
theorem next_stateOf (h : List (Sample τ)) (above : Bool) (time : τ) :
    next held (stateOf h) above time =
      if above then
        if !on h && held (start h time) time then (some (start h time, true), [.fired])
        else (some (start h time, on h), [])
      else (none, if on h then [.resolved] else []) := by
  rw [next, start_of_stateOf, on_of_stateOf]

/-- **What an alarm tells is as it should be.** -/
theorem judged_next (h : List (Sample τ)) (above : Bool) (time : τ) :
    Judged held h ⟨above, time, (next held (stateOf h) above time).2⟩ := by
  rw [next_stateOf]
  cases above with
  | true =>
    rw [if_pos rfl]
    split_ifs with hfire
    · obtain ⟨hoff, hheld⟩ := Bool.and_eq_true_iff.mp hfire
      have hquiet := on_eq_false_iff.mp (Bool.not_eq_true' _ ▸ hoff)
      exact ⟨iff_of_true List.mem_cons_self ⟨rfl, hheld, hquiet⟩,
        iff_of_false (by simp) (by simp), le_rfl⟩
    · refine ⟨iff_of_false List.not_mem_nil ?_, iff_of_false List.not_mem_nil (by simp),
        Nat.zero_le _⟩
      rintro ⟨-, hheld, hquiet⟩
      have hoff : on h = false := on_eq_false_iff.mpr hquiet
      exact hfire (by rw [hoff, hheld]; rfl)
  | false =>
    rw [if_neg Bool.false_ne_true]
    refine ⟨iff_of_false ?_ (by simp), ?_, ?_⟩
    · split_ifs <;> simp
    · rw [← on_iff]
      split_ifs with hon <;> simp [hon]
    · split_ifs <;> simp

/-- The state of an alarm is that of its history. -/
theorem next_fst_stateOf (h : List (Sample τ)) (above : Bool) (time : τ) :
    (next held (stateOf h) above time).1 =
      stateOf (h ++ [⟨above, time, (next held (stateOf h) above time).2⟩]) := by
  rw [stateOf_concat, on_concat, next_stateOf]
  cases above with
  | true =>
    rw [if_pos rfl, if_pos rfl]
    split_ifs with hfire
    · simp
    · simp
  | false => rfl

/-! ### When an alarm is on -/

/-- An alarm has a state when the last reading was above. -/
theorem isSome_stateOf (h : List (Sample τ)) :
    (stateOf h).isSome = true ↔ ∃ r ∈ h.getLast?, r.above = true := by
  rw [stateOf, Option.isSome_map]
  induction h using List.reverseRecOn with
  | nil => simp [run]
  | append_singleton h r ih =>
    rw [run_concat]
    cases habove : r.above <;> simp [habove]

/-- An alarm is on when the run at the end of its history has lasted long enough at some reading. -/
theorem on_iff_held (hjudged : Always (Judged held) h) :
    on h = true ↔ ∃ first ∈ (run h).head?, ∃ r ∈ run h, held first.time r.time = true := by
  induction h using List.reverseRecOn with
  | nil => exact iff_of_false (by simp [on, run]) (by simp [run])
  | append_singleton h r ih =>
    obtain ⟨hh, hr⟩ := always_concat.mp hjudged
    replace ih := ih hh
    rw [on_concat, run_concat]
    cases habove : r.above with
    | false => simp
    | true =>
      rw [Bool.true_and, Bool.or_eq_true, decide_eq_true_eq, if_pos rfl, hr.fired, habove,
        ← on_eq_false_iff, start]
      rcases hrun : run h with - | ⟨first, rest⟩
      · -- the reading is the first of its run
        have hoff : on h = false := by rw [on, hrun]; rfl
        simp [hoff]
      · rw [hrun] at ih
        simp only [List.head?_cons, Option.mem_some_iff, exists_eq_left'] at ih
        cases hon : on h with
        | true =>
          obtain ⟨r', hr', hheld⟩ := ih.mp hon
          exact iff_of_true (.inl rfl)
            ⟨first, rfl, r', List.mem_append_left _ hr', hheld⟩
        | false =>
          have hnot : ∀ r' ∈ first :: rest, ¬held first.time r'.time = true := fun r' hr' hheld =>
            absurd (ih.mpr ⟨r', hr', hheld⟩) (by simp [hon])
          constructor
          · rintro (himpossible | ⟨-, hheld, -⟩)
            · exact absurd himpossible Bool.false_ne_true
            · exact ⟨first, rfl, r, by simp, hheld⟩
          · rintro ⟨first', hfirst', r', hr', hheld⟩
            obtain rfl : first = first' := Option.some.inj hfirst'
            rcases List.mem_append.mp hr' with hr' | hr'
            · exact absurd hheld (hnot r' hr')
            · rw [List.mem_singleton.mp hr'] at hheld
              exact .inr ⟨rfl, hheld, rfl⟩

/-! ### Alternation -/

theorem signals_concat (h : List (Sample τ)) (r : Sample τ) :
    signals (h ++ [r]) = signals h ++ r.signals := by
  rw [signals, List.flatMap_append, List.flatMap_singleton, signals]

/-- A reading tells nothing, or one thing. -/
theorem Judged.cases_signals (hr : Judged held h r) :
    (r.signals = [] ∧ on (h ++ [r]) = on h) ∨
      (r.signals = [.fired] ∧ on h = false ∧ on (h ++ [r]) = true) ∨
      (r.signals = [.resolved] ∧ on h = true ∧ on (h ++ [r]) = false) := by
  rw [on_concat]
  rcases hsignals : r.signals with - | ⟨signal, rest⟩
  · refine .inl ⟨rfl, ?_⟩
    cases habove : r.above with
    | true => simp
    | false =>
      -- with the alarm on, a reading that is not above would have been told
      have hoff : on h = false := by
        rw [← Bool.not_eq_true, on_iff]
        intro hon
        have hmem := hr.resolved.mpr ⟨habove, hon⟩
        rw [hsignals] at hmem
        exact List.not_mem_nil hmem
      rw [hoff]
      rfl
  · obtain rfl : rest = [] := by
      have honce := hr.once
      rw [hsignals, List.length_cons] at honce
      exact List.eq_nil_of_length_eq_zero (by omega)
    cases signal with
    | fired =>
      obtain ⟨habove, -, hquiet⟩ := hr.fired.mp (hsignals ▸ List.mem_cons_self)
      refine .inr (.inl ⟨rfl, on_eq_false_iff.mpr hquiet, ?_⟩)
      rw [habove]
      simp
    | resolved =>
      obtain ⟨habove, hon⟩ := hr.resolved.mp (hsignals ▸ List.mem_cons_self)
      exact .inr (.inr ⟨rfl, on_iff.mpr hon, by rw [habove]; rfl⟩)

/-- The last signal tells whether the alarm is on. -/
theorem getLast?_signals (hjudged : Always (Judged held) h) :
    (signals h).getLast? = some .fired ↔ on h = true := by
  induction h using List.reverseRecOn with
  | nil => exact iff_of_false (by simp [signals]) (by simp [on, run])
  | append_singleton h r ih =>
    obtain ⟨hh, hr⟩ := always_concat.mp hjudged
    rw [signals_concat]
    rcases hr.cases_signals with ⟨hsignals, hon⟩ | ⟨hsignals, -, hon⟩ | ⟨hsignals, -, hon⟩
    · rw [hsignals, hon, List.append_nil]
      exact ih hh
    · rw [hsignals, hon]
      simp
    · rw [hsignals, hon]
      simp

/-- A list of signals that alternate, the first that the alarm went off, is continued by the
other signal than its last. -/
theorem alternates_concat {l : List Signal} {signal : Signal} (hchain : l.IsChain (· ≠ ·))
    (hhead : ∀ first ∈ l.head?, first = Signal.fired)
    (hlast : l.getLast? = some .fired ↔ signal = .resolved) :
    (l ++ [signal]).IsChain (· ≠ ·) ∧ ∀ first ∈ (l ++ [signal]).head?, first = Signal.fired := by
  refine ⟨List.isChain_append.mpr ⟨hchain, List.IsChain.singleton _, ?_⟩, ?_⟩
  · rintro x hx y hy rfl
    obtain rfl : signal = x := Option.some.inj hy
    cases signal with
    | fired => exact absurd (hlast.mp hx) (by decide)
    | resolved => exact absurd (hx.symm.trans (hlast.mpr rfl)) (by decide)
  · rintro first hfirst
    rcases l with - | ⟨s, l⟩
    · obtain rfl : signal = first := Option.some.inj hfirst
      cases signal with
      | fired => rfl
      | resolved => exact absurd (hlast.mpr rfl) (by simp)
    · exact hhead first hfirst

/-- **Signals alternate**, and the first says that the alarm went off. -/
theorem alternates (hjudged : Always (Judged held) h) :
    (signals h).IsChain (· ≠ ·) ∧ ∀ first ∈ (signals h).head?, first = Signal.fired := by
  induction h using List.reverseRecOn with
  | nil => exact ⟨List.IsChain.nil, fun first hfirst => by simp [signals] at hfirst⟩
  | append_singleton h r ih =>
    obtain ⟨hh, hr⟩ := always_concat.mp hjudged
    obtain ⟨hchain, hhead⟩ := ih hh
    have hlast := getLast?_signals hh
    rw [signals_concat]
    rcases hr.cases_signals with ⟨hsignals, -⟩ | ⟨hsignals, hoff, -⟩ | ⟨hsignals, hon, -⟩
    · rw [hsignals, List.append_nil]
      exact ⟨hchain, hhead⟩
    · rw [hsignals]
      exact alternates_concat hchain hhead (hlast.trans (by simp [hoff]))
    · rw [hsignals]
      exact alternates_concat hchain hhead (hlast.trans (by simp [hon]))

end Alarm

end Foundations
