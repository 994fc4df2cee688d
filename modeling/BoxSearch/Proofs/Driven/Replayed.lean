import BoxSearch.Proofs.Driven.Asked

/-!
# Steps taken by hand and steps taken by a run

No step looks at the events of an account, or at whether a search that is set up was started by a run: so the
steps of a run do what the same steps do by hand.  A run has enough rounds to get to the first step after
which no other one is possible, because every step before that has evaluated something.
-/

namespace BoxSearch

variable {σ α κ β γ : Type} {n : ℕ}

namespace SearchM

/-! ## 1. Steps that do not look at events -/

namespace Echoes

theorem ite {p : Prop} [Decidable p] {m₁ m₁' m₂ m₂' : SearchM σ α n κ β} (h₁ : Echoes m₁ m₁')
    (h₂ : Echoes m₂ m₂') : Echoes (if p then m₁ else m₂) (if p then m₁' else m₂') := by
  split
  · exact h₁
  · exact h₂

theorem repeatWhile {step step' : SearchM σ α n κ Bool} (h : Echoes step step') (fuel : ℕ) :
    Echoes (SearchM.repeatWhile step fuel) (SearchM.repeatWhile step' fuel) := by
  induction fuel with
  | zero => exact (Quiet.pure ()).echoes
  | succ fuel ih => exact h.bind fun _ => .ite ih (Quiet.pure ()).echoes

variable [Scalar α]

theorem withinBudget (t : Task α n) :
    Echoes (SearchM.withinBudget t : SearchM σ α n κ Bool) (SearchM.withinBudget t) :=
  fun _ events => ⟨events, rfl⟩

theorem stopWithin (t : Task α n) (phase : Phase α) :
    Echoes (SearchM.stopWithin t phase : SearchM σ α n κ Unit) (SearchM.stopWithin t phase) :=
  .bind (withinBudget t) fun _ => .ite (Quiet.stop phase).echoes (Quiet.pure ()).echoes

end Echoes

end SearchM

open SearchM

/-- The set-up and the steps do not look at events, and the set-up does not look at whether a run was
started. -/
structure Replays (ready : κ → Prop) (first step : SearchM σ α n κ Bool) : Prop where
  started : ∀ draws s, ¬ready s →
    first.run ⟨{ phase := .running }, draws, s⟩ = first.run ⟨{}, draws, s⟩
  first_echoes : Echoes first first
  step_echoes : Echoes step step

variable [Scalar α]

namespace Rotation

variable {t : Task α n} {p : Params α}

theorem step_echoes : Echoes (step t p : SearchM σ α n (State α n) Bool) (step t p) := by
  apply Echoes.bind Quiet.own.echoes
  intro s
  apply Echoes.bind (Quiet.require s.initialized .notInitialized).echoes
  intro _
  apply Echoes.ledger_bind
  intro L events
  apply Echoes.bind (.withinBudget t)
  intro within
  apply Echoes.ite (Quiet.pure false).echoes
  apply Echoes.bind (turnIfExhausted_quiet t.budget).echoes
  intro _
  exact .bind (tryMove_steady t.budget).echoes fun _ => .withinBudget t

/-- A set-up marks a search as running that was not started. -/
theorem run_setUp_running [DrawSource σ α] {s : State α n} (hs : ¬s.IsReady) (draws : σ) :
    (setUp t p : SearchM σ α n (State α n) Unit).run ⟨{ phase := .running }, draws, s⟩ =
      (setUp t p).run ⟨{}, draws, s⟩ := by
  have hnew := Bool.eq_false_of_not_eq_true hs
  rw [run_setUp_of_not_ready hnew, run_setUp_of_not_ready hnew]
  rfl

theorem replays [DrawSource σ α] :
    Replays State.IsReady (opening t p : SearchM σ α n (State α n) Bool) (step t p) where
  first_echoes := .bind (setUp_steady t.budget).echoes fun _ => (Quiet.pure true).echoes
  step_echoes := step_echoes
  started draws s hs := by
    unfold opening
    rw [run_bind, run_bind, run_setUp_running hs]

end Rotation

namespace Partition

variable {t : Task α n} {p : Params α}

theorem divideAll_echoes (places : List ℕ) :
    Echoes (divideAll t places : SearchM σ α n (State α n) Unit) (divideAll t places) := by
  induction places with
  | nil => exact (Quiet.pure ()).echoes
  | cons place rest ih =>
    apply Echoes.bind (.withinBudget t)
    intro within
    exact .ite (.bind (divide_steady t.budget place).echoes fun _ => ih) (Quiet.pure ()).echoes

theorem checkIterations_echoes :
    Echoes (checkIterations t p : SearchM σ α n (State α n) Bool) (checkIterations t p) := by
  unfold checkIterations
  cases p.iterations with
  | none => exact (Quiet.pure false).echoes
  | some cap =>
    apply Echoes.ledger_bind
    intro L events
    exact .ite (.bind (.stopWithin t _) fun _ => (Quiet.pure true).echoes) (Quiet.pure false).echoes

theorem iterate_echoes : Echoes (iterate t p : SearchM σ α n (State α n) Bool) (iterate t p) := by
  apply Echoes.bind Quiet.own.echoes
  intro s
  apply Echoes.bind (Quiet.require s.initialized .notInitialized).echoes
  intro _
  apply Echoes.ledger_bind
  intro L events
  apply Echoes.bind (.withinBudget t)
  intro within
  apply Echoes.ite (Quiet.pure false).echoes
  apply Echoes.bind select_quiet.echoes
  intro places
  apply Echoes.bind (divideAll_echoes places)
  intro _
  apply Echoes.bind Quiet.endRound.echoes
  intro _
  apply Echoes.bind enterRecord_quiet.echoes
  intro _
  apply Echoes.bind checkTarget_quiet.echoes
  intro reached
  apply Echoes.ite (Quiet.pure false).echoes
  apply Echoes.bind checkIterations_echoes
  intro capped
  exact .ite (Quiet.pure false).echoes (.withinBudget t)

theorem replays :
    Replays State.IsReady (setUp t p : SearchM σ α n (State α n) Bool) (iterate t p) where
  first_echoes := (setUp_steady t.budget).echoes
  step_echoes := iterate_echoes
  started draws s hs := by
    have hnew := Bool.eq_false_of_not_eq_true hs
    rw [run_setUp_of_not_ready hnew, run_setUp_of_not_ready hnew]
    rfl

end Partition

/-! ## 2. Steps until the first one after which no other is possible -/

/-- The steps from a course on up to the first one that answers otherwise than that another is possible,
what that one comes to and where it leads. -/
inductive StepsTo (step : SearchM σ α n κ Bool) :
    Course σ α n κ → Except (Halt α) Bool → Course σ α n κ → Prop
  | last {c d : Course σ α n κ} {o : Except (Halt α) Bool} (h : step.run c = (o, d))
      (ho : o ≠ .ok true) : StepsTo step c o d
  | next {c d d' : Course σ α n κ} {o : Except (Halt α) Bool} (h : step.run c = (.ok true, d))
      (hd : StepsTo step d o d') : StepsTo step c o d'

section

variable {t : Task α n} {ready : κ → Prop} {most : ℕ} {first step : SearchM σ α n κ Bool}
  (h : Advances t ready most first step)

include h

/-- A step that answers that another one is possible has evaluated something. -/
theorem Advances.of_step_true {c d : Course σ α n κ} (hd : step.run c = (.ok true, d)) :
    c.ledger.evaluations < d.ledger.evaluations ∧ d.ledger.evaluations < t.budget := by
  by_cases hready : ready c.own
  · by_cases hended : t.Ended c.ledger
    · rw [h.step_ended c hready hended] at hd
      exact nomatch hd
    · have hrun := h.step c.ledger.evaluations c ⟨⟨hready, le_rfl, le_rfl⟩, hended⟩
      rw [hd] at hrun
      exact ⟨hrun.1.least_le, hrun.2.1 rfl⟩
  · rw [h.step_refused c hready] at hd
    exact nomatch hd

/-- With enough rounds, the repetition of steps gets there. -/
theorem Advances.exists_stepsTo (fuel : ℕ) (c : Course σ α n κ)
    (hfuel : t.budget ≤ fuel + c.ledger.evaluations) :
    ∃ o d, StepsTo step c o d ∧ (repeatWhile step (fuel + 1)).run c = (o.map fun _ => (), d) := by
  -- The rounds and the evaluations make up the budget together, as long as steps go on.
  induction fuel generalizing c with
  | zero =>
    rcases hr : step.run c with ⟨e | _ | _, d⟩
    · exact ⟨_, d, .last hr nofun, run_bind_of_error hr⟩
    · exact ⟨_, d, .last hr nofun, run_bind_of_ok hr⟩
    · have hcount := h.of_step_true hr
      omega
  | succ fuel ih =>
    rcases hr : step.run c with ⟨e | _ | _, d⟩
    · exact ⟨_, d, .last hr nofun, run_bind_of_error hr⟩
    · exact ⟨_, d, .last hr nofun, run_bind_of_ok hr⟩
    · have hcount := h.of_step_true hr
      obtain ⟨o, d', hsteps, hrun⟩ := ih d (by omega)
      exact ⟨o, d', .next hr hsteps, (run_bind_of_ok hr).trans hrun⟩

end

end BoxSearch
