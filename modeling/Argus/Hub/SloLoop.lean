import Argus.Foundations.Cooldown
import Argus.Slo

/-!
# The loop over the objectives

`sloLoop` evaluates the objectives once a minute, with one `Evaluator` for the whole life of the
hub. Under the key of an objective the evaluator is a cool-down of half an hour
(`evaluate_eq_run`), so that over any number of rounds its events are half an hour apart, and no
round that finds a budget low is without one.
-/

namespace Argus

open Foundations

/-- A round of `sloLoop`: the clock, and what `Evaluate` meets of each objective that is listed. -/
structure SloRound where
  now : Time
  evaluations : List Evaluation

/-- `sloLoop`: one evaluator, round after round, and what it publishes. -/
def sloLoop : Evaluator → List SloRound → Evaluator × List Model.Event
  | e, [] => (e, [])
  | e, round :: rounds =>
    let (e, events) := e.evaluate round.now round.evaluations
    let (e, later) := sloLoop e rounds
    (e, events ++ later)

/-- `now.Sub(t) < e.dedupe`, for the evaluator of the hub. -/
def recentBudget (t now : Time) : Bool := now.sub t < Evaluator.new.dedupe

/-- What an evaluation asks to publish. -/
def Evaluation.alert (now : Time) (v : Evaluation) : Option (Alert String Time Model.Event) :=
  match v.status with
  | none => none
  | some status =>
    if 10 ≤ status.errorBudgetRemaining then none
    else some ⟨v.slo.key, now, budgetLow v status now⟩

/-- What the rounds ask to publish. -/
def budgetAlerts (rounds : List SloRound) : List (Alert String Time Model.Event) :=
  rounds.flatMap fun round => round.evaluations.filterMap (Evaluation.alert round.now)

/-! ### The evaluator is a cool-down -/

variable {e : Evaluator}

theorem due_eq (he : e.dedupe = Evaluator.new.dedupe) (slo : SLODefinition) (now : Time) :
    e.due slo now = !((e.last.get? slo.key).any fun t => recentBudget t now) := by
  rw [Evaluator.due, he]
  cases e.last.get? slo.key <;> rfl

/-- An evaluation asks the cool-down, if it asks at all. -/
theorem step_eq_run (now : Time) (he : e.dedupe = Evaluator.new.dedupe) (v : Evaluation) :
    let out := Cooldown.run recentBudget e.last (v.alert now).toList
    (e.step now v).1 = { e with last := out.1 } ∧
      (e.step now v).2.toList = out.2.map Alert.event := by
  cases hstatus : v.status with
  | none => simp [Evaluation.alert, Evaluator.step, hstatus, Cooldown.run]
  | some status =>
    by_cases hlow : 10 ≤ status.errorBudgetRemaining
    · simp [Evaluation.alert, Evaluator.step, hstatus, hlow, Cooldown.run]
    · simp only [Evaluation.alert, Evaluator.step, hstatus, hlow, if_false, due_eq he,
        Option.toList_some, Cooldown.run, Cooldown.letThrough]
      cases (e.last.get? v.slo.key).any fun t => recentBudget t now <;> exact ⟨rfl, rfl⟩

theorem evaluate_cons (e : Evaluator) (now : Time) (v : Evaluation) (l : List Evaluation) :
    Evaluator.evaluate now e (v :: l) = ((Evaluator.evaluate now (e.step now v).1 l).1,
      (e.step now v).2.toList ++ (Evaluator.evaluate now (e.step now v).1 l).2) := rfl

theorem evaluate_eq_run (now : Time) (he : e.dedupe = Evaluator.new.dedupe)
    (evaluations : List Evaluation) :
    let out := Cooldown.run recentBudget e.last
      (evaluations.filterMap (Evaluation.alert now))
    Evaluator.evaluate now e evaluations = ({ e with last := out.1 }, out.2.map Alert.event) := by
  induction evaluations generalizing e with
  | nil => rfl
  | cons v evaluations ih =>
    obtain ⟨hstate, hout⟩ := step_eq_run now he v
    have hsplit : (v :: evaluations).filterMap (Evaluation.alert now) =
        (v.alert now).toList ++ evaluations.filterMap (Evaluation.alert now) := by
      rw [List.filterMap_cons]
      cases v.alert now <;> rfl
    have hrest := @ih (e.step now v).1 (by rw [hstate]; exact he)
    rw [evaluate_cons, hrest, hsplit, Cooldown.run_append]
    dsimp only
    rw [List.map_append, ← hout, hstate]

theorem sloLoop_cons (e : Evaluator) (round : SloRound) (rounds : List SloRound) :
    sloLoop e (round :: rounds) =
      ((sloLoop (Evaluator.evaluate round.now e round.evaluations).1 rounds).1,
        (Evaluator.evaluate round.now e round.evaluations).2 ++
          (sloLoop (Evaluator.evaluate round.now e round.evaluations).1 rounds).2) := rfl

theorem sloLoop_eq_run (he : e.dedupe = Evaluator.new.dedupe) (rounds : List SloRound) :
    let out := Cooldown.run recentBudget e.last (budgetAlerts rounds)
    sloLoop e rounds = ({ e with last := out.1 }, out.2.map Alert.event) := by
  induction rounds generalizing e with
  | nil => rfl
  | cons round rounds ih =>
    have hround := evaluate_eq_run round.now he round.evaluations
    have hrest :=
      @ih (Evaluator.evaluate round.now e round.evaluations).1 (by rw [hround]; exact he)
    rw [sloLoop_cons, hrest, budgetAlerts, List.flatMap_cons, ← budgetAlerts, Cooldown.run_append]
    dsimp only
    rw [List.map_append, hround]

/-! ### Spacing and cover -/

/-- Half an hour, in nanoseconds. -/
def budgetCooldown : ℕ := 30 * 60 * 1000000000

theorem recentBudget_eq_false {t now : Time} :
    recentBudget t now = false ↔ t.ns + budgetCooldown ≤ now.ns := by
  rw [recentBudget, decide_eq_false_iff_not, not_lt, Time.sub, Evaluator.new, budgetCooldown]
  dsimp only
  omega

/-- The entity of the events of an objective. -/
def sloEntity (id : String) : String := "slo:" ++ id

theorem mem_budgetAlerts {rounds : List SloRound} {n : Alert String Time Model.Event} :
    n ∈ budgetAlerts rounds ↔ ∃ round ∈ rounds, ∃ v ∈ round.evaluations, ∃ status,
      v.status = some status ∧ status.errorBudgetRemaining < 10 ∧
        n = ⟨v.slo.key, round.now, budgetLow v status round.now⟩ := by
  simp only [budgetAlerts, List.mem_flatMap, List.mem_filterMap]
  refine exists_congr fun round => and_congr_right fun _ => exists_congr fun v =>
    and_congr_right fun _ => ?_
  rw [Evaluation.alert]
  cases v.status with
  | none => simp
  | some status =>
    by_cases hlow : 10 ≤ status.errorBudgetRemaining
    · simp [hlow, not_lt.mpr hlow]
    · simp [hlow, not_le.mp hlow, eq_comm]

theorem key_inj {slo slo' : SLODefinition} : slo.key = slo'.key ↔ slo.id = slo'.id := by
  rw [SLODefinition.key, SLODefinition.key, ← String.toList_inj, String.toList_append,
    String.toList_append, List.append_cancel_right_eq, String.toList_inj]

theorem sloEntity_inj {id id' : String} : sloEntity id = sloEntity id' ↔ id = id' := by
  rw [sloEntity, sloEntity, ← String.toList_inj, String.toList_append, String.toList_append,
    List.append_cancel_left_eq, String.toList_inj]

/-- **Spacing.** Over any rounds, whatever the clock shows, two events of one objective are half an
hour apart. -/
theorem budget_spaced (rounds : List SloRound) :
    (sloLoop .new rounds).2.Pairwise fun a b =>
      a.entityUID = b.entityUID → a.ts.ns + budgetCooldown ≤ b.ts.ns := by
  have hspaced := Cooldown.admitted_pairwise recentBudget (budgetAlerts rounds)
    fun a b c hab hbc => by
      rw [recentBudget_eq_false] at hab hbc ⊢
      omega
  rw [sloLoop_eq_run rfl, List.pairwise_map]
  refine hspaced.imp_of_mem fun {a b} ha hb hrecent huid => ?_
  obtain ⟨_, -, v, -, _, -, -, rfl⟩ := mem_budgetAlerts.mp (Cooldown.mem_of_admitted ha)
  obtain ⟨_, -, v', -, _, -, -, rfl⟩ := mem_budgetAlerts.mp (Cooldown.mem_of_admitted hb)
  exact recentBudget_eq_false.mp (hrecent (key_inj.mpr (sloEntity_inj.mp huid)))

/-- **Cover.** A round that finds less than ten percent of a budget left has an event of the
objective that is not half an hour older. -/
theorem budget_covered {rounds : List SloRound} {round : SloRound} (hround : round ∈ rounds)
    {v : Evaluation} (hv : v ∈ round.evaluations) {status : SLOStatus}
    (hstatus : v.status = some status) (hlow : status.errorBudgetRemaining < 10) :
    ∃ e ∈ (sloLoop .new rounds).2, e.entityUID = sloEntity v.slo.id ∧
      round.now.ns < e.ts.ns + budgetCooldown := by
  have hmem := mem_budgetAlerts.mpr ⟨round, hround, v, hv, status, hstatus, hlow, rfl⟩
  rw [sloLoop_eq_run rfl]
  rcases Cooldown.recent_admitted recentBudget hmem with hn | ⟨m, hm, hkey, hrecent⟩
  · exact ⟨_, List.mem_map_of_mem hn, rfl, Nat.lt_add_of_pos_right (by decide)⟩
  · obtain ⟨round', -, v', -, status', -, -, rfl⟩ :=
      mem_budgetAlerts.mp (Cooldown.mem_of_admitted hm)
    refine ⟨_, List.mem_map_of_mem hm, sloEntity_inj.mpr (key_inj.mp hkey), ?_⟩
    have hlt : ¬round'.now.ns + budgetCooldown ≤ round.now.ns := by
      rw [← recentBudget_eq_false, hrecent]
      decide
    exact not_le.mp hlt

/-- An objective with five percent of its budget left. -/
def lowObjective : SLODefinition := ⟨"slo-1", "api", "api", "", "availability", 99, 24, 0⟩

/-- Its status. -/
def lowStatus : SLOStatus := ⟨lowObjective, 98, 5, 98, 100, .finite 12, true, ⟨0⟩⟩

/-- A round that finds it. -/
def lowRound : SloRound := ⟨⟨0⟩, [⟨lowObjective, some lowStatus, "event"⟩]⟩

theorem budget_covered_lowObjective : ∃ e ∈ (sloLoop .new [lowRound]).2,
    e.entityUID = sloEntity "slo-1" ∧ lowRound.now.ns < e.ts.ns + budgetCooldown := by
  have hlow : lowStatus.errorBudgetRemaining < 10 := by decide
  have hround : lowRound ∈ [lowRound] := List.mem_cons_self
  have hevaluation :
      (⟨lowObjective, some lowStatus, "event"⟩ : Evaluation) ∈ lowRound.evaluations :=
    List.mem_cons_self
  exact budget_covered hround hevaluation rfl hlow

end Argus
