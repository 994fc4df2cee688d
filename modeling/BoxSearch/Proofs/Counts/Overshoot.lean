import Mathlib
import BoxSearch.Proofs.Counts.Solve
import BoxSearch.Proofs.Kept.Simplex

/-!
# How far a simplex overshoots its budget

A simplex looks at its budget between rounds.  A round reflects the worst vertex, and at most one point
more and one for each vertex but the best are evaluated before the next look; the first vertices are
evaluated whatever the budget.  So a search makes at most `n + 1` evaluations more than its budget
has, and at least `n + 1`, unless a cost is not finite.
-/

namespace BoxSearch

/-- If all that was answered is finite, the search does not say that a cost was not. -/
theorem Account.Closes.status_ne_nonFinite_of_answers {α P : Type} [Scalar α]
    {f : P → ℕ → Except Failure (Cost α)} {A B : Account α P} {answer : Except (Fault α) Unit}
    (h : Closes f A answer B) (hA : A.IsFinite) (hB : ∀ a ∈ B.answers, a.2.IsFinite) :
    B.phase.status ≠ .nonFinite := by
  cases h with
  | returned h => exact (status_close _).not.mpr (h.isFinite hA).status
  | @nonFinite B x c h _ hc =>
    rw [answers_close] at hB
    refine absurd (hB (x, c) ?_) hc
    show (x, c) ∈ (B.enter x c).answers
    rw [answers_enter]
    exact List.mem_append_right _ (List.mem_singleton_self _)
  | faulted h _ => exact (h.isFinite hA).status
  | failed h _ => exact (h.isFinite hA).status

namespace Run

section

variable {σ α : Type} [Scalar α] [DrawSource σ α] {n : ℕ} {t : Task α n} {p : Simplex.Params α}
  {s : Simplex.State α n} {draws : σ}

theorem succ_le_evaluations (hreturns : ((⟨{}, draws, .simplex p s⟩ : Run σ α n).solve t).1 = .ok ())
    (hfinite : ∀ a ∈ ((⟨{}, draws, .simplex p s⟩ : Run σ α n).solve t).2.ledger.answers,
      a.2.IsFinite) :
    n + 1 ≤ ((⟨{}, draws, .simplex p s⟩ : Run σ α n).solve t).2.ledger.evaluations := by
  have hstatus := (solve_closes ⟨{}, draws, .simplex p s⟩ t rfl).status_ne_nonFinite_of_answers
    (Account.isFinite_start n t.budget) hfinite
  have hends := (solve_overshoot draws p s t).2 hreturns
  cases hphase : ((⟨{}, draws, .simplex p s⟩ : Run σ α n).solve t).2.ledger.phase <;>
    rw [hphase] at hends hstatus
  case budgetSpent => exact hends.2
  case degenerate => exact hends
  case nonFinite => exact absurd rfl hstatus
  all_goals exact hends.elim

theorem budget_le_evaluations
    (hreturns : ((⟨{}, draws, .simplex p s⟩ : Run σ α n).solve t).1 = .ok ())
    (hspent : ((⟨{}, draws, .simplex p s⟩ : Run σ α n).solve t).2.ledger.phase.status =
      .budgetExhausted) :
    t.budget ≤ ((⟨{}, draws, .simplex p s⟩ : Run σ α n).solve t).2.ledger.evaluations := by
  have hends := (solve_overshoot draws p s t).2 hreturns
  cases hphase : ((⟨{}, draws, .simplex p s⟩ : Run σ α n).solve t).2.ledger.phase <;>
    rw [hphase] at hends hspent
  case budgetSpent => exact hends.1
  all_goals exact nomatch hspent

end

/-- A simplex search makes at most `n + 1` evaluations more than its budget has, also if it does not
return.  One that returns made at least `n + 1`, if no cost was not finite, and spent its budget if it
says so.  If the objective answers and the settings are numbers, it returns in any arithmetic unless a
check refuses a point, and in exact arithmetic it returns. -/
theorem simplex_overshoot (σ : Type) (n : ℕ) :
    (∀ (α : Type) [Scalar α] [DrawSource σ α] (t : Task α n) (p : Simplex.Params α)
      (s : Simplex.State α n) (draws : σ),
      let d := (⟨{}, draws, .simplex p s⟩ : Run σ α n).solve t
      d.2.ledger.evaluations ≤ t.budget + n + 1 ∧
        (d.1 = .ok () → (∀ a ∈ d.2.ledger.answers, a.2.IsFinite) →
          n + 1 ≤ d.2.ledger.evaluations) ∧
        (d.1 = .ok () → d.2.ledger.phase.status = .budgetExhausted →
          t.budget ≤ d.2.ledger.evaluations) ∧
        (t.objective.Answers → p.IsNumeric → ∀ f, d.1 = .error f → ¬f.IsOrdinary)) ∧
    ∀ [DrawSource σ ℝ] (t : Task ℝ n) (p : Simplex.Params ℝ) (s : Simplex.State ℝ n) (draws : σ),
      (∀ x ∈ t.starts, t.region.Feasible x) → t.objective.Answers → p.IsNumeric →
      ((⟨{}, draws, .simplex p s⟩ : Run σ ℝ n).solve t).1 = .ok () := by
  constructor
  · intro α _ _ t p s draws
    exact ⟨(solve_overshoot draws p s t).1, succ_le_evaluations, budget_le_evaluations,
      fun ht hp _ hf => (Simplex.run_faultless ht hp).not_isOrdinary_of_solve
        (c := ⟨{}, draws, s⟩) rfl trivial hf⟩
  · intro _ t p s draws hstarts ht hp
    have hnone : t.region.Confines ({} : Ledger ℝ n) := fun _ he => nomatch he
    exact (Simplex.run_faultless ht hp).solve (c := ⟨{}, draws, s⟩) rfl trivial
      (Confined.solve (c := ⟨{}, draws, s⟩) hnone trivial (Simplex.run_confined hstarts hp)).2

/-- The least of four integers is to be found with one evaluation. -/
noncomputable def leastAtOnce : Task ℝ 1 := { leastOfFour with budget := 1, checked := false }

/-- A simplex on four integers, with two vertices. -/
noncomputable def edge : Run (Tape ℝ) ℝ 1 := ⟨{}, climb.draws, .simplex Simplex.usual {}⟩

/-- Both vertices are evaluated, although the budget has one evaluation. -/
theorem simplex_overshoot_edge :
    let d := edge.solve leastAtOnce
    leastAtOnce.objective.Answers ∧ Simplex.usual.IsNumeric ∧ d.1 = .ok () ∧
      (∀ a ∈ d.2.ledger.answers, a.2.IsFinite) ∧ 2 ≤ d.2.ledger.evaluations ∧
      d.2.ledger.evaluations ≤ 3 ∧ d.2.ledger.phase.status = .budgetExhausted ∧
      1 ≤ d.2.ledger.evaluations := by
  intro d
  have hanswers : leastAtOnce.objective.Answers := fun x _ => ⟨.finite (x.get 0), rfl⟩
  have hnumeric : Simplex.usual.IsNumeric := ⟨⟨_, rfl⟩, ⟨_, rfl⟩, ⟨_, rfl⟩, ⟨_, rfl⟩, ⟨_, rfl⟩⟩
  have hreturns : d.1 = .ok () := (simplex_overshoot (Tape ℝ) 1).2 leastAtOnce
    Simplex.usual {} climb.draws (fun _ hx => nomatch hx) hanswers hnumeric
  obtain ⟨hmost, hleast, hspent, -⟩ := (simplex_overshoot (Tape ℝ) 1).1 ℝ leastAtOnce
    Simplex.usual {} climb.draws
  have hfinite : ∀ a ∈ d.2.ledger.answers, a.2.IsFinite := by
    intro a ha
    have hbalanced := ((solve_closes edge leastAtOnce rfl).balanced
      (fun _ _ c _ => Cost.isProper_real c) (Account.Balanced.empty.aside _ _ _))
    obtain ⟨k, hk⟩ := hbalanced.exists_eq_ok ha
    exact ⟨a.1.get 0, (Except.ok.inj hk).symm⟩
  have hstatus : d.2.ledger.phase.status = .budgetExhausted := rfl
  exact ⟨hanswers, hnumeric, hreturns, hfinite, hleast hreturns hfinite, hmost, hstatus,
    hspent hreturns hstatus⟩

end Run

end BoxSearch
