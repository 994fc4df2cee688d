import Mathlib
import BoxSearch.Engine
import BoxSearch.Proofs.Budget.Methods
import BoxSearch.Proofs.Budget.Populations
import BoxSearch.Proofs.Feasible.Solve

/-!
# A larger budget extends a run

With a larger budget a run of any method makes the calls that it makes with the smaller one, in the
same order, and then perhaps others.  So its best cost is not larger.
-/

namespace BoxSearch

theorem Account.Rests.close {α P : Type} (L : Account α P) : L.Rests L.close := by
  unfold Account.close
  cases L.phase <;> exact ⟨rfl, rfl, rfl⟩

namespace Course

variable {σ α κ : Type} [Scalar α] {n : ℕ} {t : Task α n} {b : ℕ} {last : Prop}
  {body body' : SearchM σ α n κ Unit}

/-- The end of a run adds no call to those of its body. -/
theorem rests_solve (t : Task α n) (body : SearchM σ α n κ Unit) {c : Course σ α n κ}
    (h : c.ledger.phase = .notStarted) :
    (body.run { c with ledger := c.ledger.start n t.budget }).2.ledger.Rests
      (c.solve t body).2.ledger := by
  refine solve_keeps (I := fun d => Account.Rests
    (body.run { c with ledger := c.ledger.start n t.budget }).2.ledger d.ledger) h (.refl _) ?_
  intro d hd
  exact hd.trans (.close d.ledger)

theorem solve_leads (h : SearchM.Outlasts t last body body') (c : Course σ α n κ) :
    (c.solve t body).2.ledger.Leads (c.solve (t.withBudget b) body').2.ledger := by
  -- Only a run that was not started does anything, and its end adds no call.
  by_cases hphase : c.ledger.phase = .notStarted
  · have hrests := rests_solve t body hphase
    have hrests' := rests_solve (t.withBudget b) body' hphase
    -- The two starts differ in the budget that they tell.
    have hleads := h.leads { c with ledger := c.ledger.start n t.budget }
      (c.ledger.events ++ [.started n b])
    exact (Account.Leads.of_rests_left hrests hleads).trans (.of_rests hrests')
  · rw [solve_of_started hphase, solve_of_started hphase]
    exact .refl c.ledger

end Course

namespace Run

variable {σ α : Type} [Scalar α] [DrawSource σ α] {n : ℕ} {t : Task α n} {b : ℕ}

theorem solve_leads (r : Run σ α n) (hb : t.budget ≤ b) :
    (r.solve t).2.ledger.Leads (r.solve (t.withBudget b)).2.ledger := by
  obtain ⟨L, draws, engine⟩ := r
  cases engine with
  | hillClimb p => exact Course.solve_leads (HillClimb.run_outlasts hb p) ⟨L, draws, ()⟩
  | swarm p s => exact Course.solve_leads (Swarm.run_outlasts hb) ⟨L, draws, s⟩
  | genetic p lengths s => exact Course.solve_leads (Genetic.run_outlasts hb) ⟨L, draws, s⟩
  | evolution p s => exact Course.solve_leads (Evolution.run_outlasts hb) ⟨L, draws, s⟩
  | simplex p s => exact Course.solve_leads (Simplex.run_outlasts hb) ⟨L, draws, s⟩
  | rotation p s => exact Course.solve_leads (Rotation.run_outlasts hb) ⟨L, draws, s⟩
  | partition p s => exact Course.solve_leads (Partition.run_outlasts hb) ⟨L, draws, s⟩

/-- The calls of a run are the first calls of the run with a larger budget, with the same answers,
and the best cost of the longer run is the same or strictly smaller. -/
theorem solve_withBudget (r : Run σ α n) (t : Task α n) {b : ℕ} (hb : t.budget ≤ b) :
    (r.solve t).2.ledger.trace <+: (r.solve (t.withBudget b)).2.ledger.trace ∧
      ((∀ x y z : α, x < y → y < z → x < z) →
        ∀ v, (r.solve t).2.ledger.bestCost = some v →
          ∃ w, (r.solve (t.withBudget b)).2.ledger.bestCost = some w ∧ (w = v ∨ w < v)) := by
  have h := solve_leads r hb
  constructor
  · exact h.isPrefix
  · intro htrans v hv
    exact h.bestCost htrans hv

/-- A climb over four integers with ten evaluations and with twenty. -/
theorem solve_withBudget_leastOfFour :
    leastOfFour.budget ≤ 20 ∧
      (climb.solve leastOfFour).2.ledger.trace <+:
        (climb.solve (leastOfFour.withBudget 20)).2.ledger.trace ∧
      ∀ v, (climb.solve leastOfFour).2.ledger.bestCost = some v →
        ∃ w, (climb.solve (leastOfFour.withBudget 20)).2.ledger.bestCost = some w ∧
          (w = v ∨ w < v) :=
  have hb : leastOfFour.budget ≤ 20 := Nat.le_add_right 10 10
  have h := solve_withBudget climb leastOfFour hb
  ⟨hb, h.1, h.2 fun _ _ _ => lt_trans⟩

end Run

end BoxSearch
