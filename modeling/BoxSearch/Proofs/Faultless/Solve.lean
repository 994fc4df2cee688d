import Mathlib
import BoxSearch.Proofs.Faultless.Methods
import BoxSearch.Proofs.Faultless.Populations
import BoxSearch.Proofs.Feasible.Solve

/-!
# A search returns

In exact arithmetic a search of any method returns, whatever its objective answers and whatever uniform
numbers of the unit interval it draws, if its settings are such as are accepted.  Two methods ask for more
where there are integer variables: genetic search codes them on at most `longestCode` bits, and an
evolution draws them anew from the words between their bounds, of which there must be some.
-/

namespace BoxSearch

variable {σ : Type} [DrawSource σ ℝ] {n : ℕ}

/-- The search of the method was not set up yet. -/
def Engine.IsFresh {α : Type} : Engine α n → Prop
  | .rotation _ s => s.initialized = false
  | .partition _ s => s.initialized = false ∧ s.cells = []
  | _ => True

/-- The settings of the method are such as are accepted, and can be used. -/
def Engine.IsReady (r : Region ℝ n) : Engine ℝ n → Prop
  | .hillClimb p => p.IsNumeric
  | .swarm p _ => p.IsNumeric ∧ p.CountFits ∧ p.FactorsMeet (fun _ => False) 4 n
  | .genetic p lengths _ => p.IsNumeric ∧ 0 < p.size ∧ Genetic.codeLengths r = .ok lengths ∧
      ∀ i, lengths.get i ≤ Genetic.longestCode
  | .evolution p _ => p.IsNumeric ∧ p.FamiliesFit ∧ Evolution.HasWords r
  | .simplex p _ => p.IsNumeric
  -- A basis is completed from unit vectors, each of which it may miss by the tolerance of `1e-12`;
  -- no row has so many entries.
  | .rotation p _ => p.IsNumeric ∧ p.StepsAhead ∧ n < 10 ^ 24
  | .partition p _ => p.IsNumeric

omit [DrawSource σ ℝ] in
/-- A new search that only refusals of points could fail, and that makes no point to be refused, returns. -/
theorem Faultless.solve_new {κ : Type} {t : Task ℝ n} {draws : σ} {own : κ}
    {body : SearchM σ ℝ n κ Unit} {P : Option (Best ℝ (Point ℝ n)) → κ → Prop}
    {Q : Unit → Option (Best ℝ (Point ℝ n)) → κ → Prop} {J : Unit → κ → Prop}
    (h : Faultless P body Q) (hP : P none own) (hconfined : Confined t (fun _ => True) body J) :
    (Course.solve t body ⟨{}, draws, own⟩).1 = .ok () := by
  have hnone : t.region.Confines ({} : Ledger ℝ n) := fun _ he => nomatch he
  have hordinary := (Confined.solve (c := ⟨{}, draws, own⟩) hnone trivial hconfined).2
  exact h.solve (c := ⟨{}, draws, own⟩) rfl hP hordinary

namespace Run

/-- A run whose objective answers returns. -/
theorem solve_returns {t : Task ℝ n} (ht : t.objective.Answers) (hunit : UnitDraws σ)
    (hstarts : ∀ x ∈ t.starts, t.region.Feasible x) {r : Run σ ℝ n} (hr : r.ledger = {})
    (hfresh : r.engine.IsFresh) (hready : r.engine.IsReady t.region) : (r.solve t).1 = .ok () := by
  obtain ⟨L, draws, engine⟩ := r
  obtain rfl : L = {} := hr
  cases engine with
  | hillClimb p =>
    have hfaultless := HillClimb.run_faultless (σ := σ) ht hready
    exact hfaultless.solve_new trivial (HillClimb.run_confined hstarts hready)
  | swarm p s =>
    obtain ⟨hp, hcount, hfactors⟩ := hready
    have hfaultless := Swarm.run_faultless (σ := σ) ht hstarts hp hcount hfactors
    exact hfaultless.solve_new trivial (Swarm.run_confined hstarts hp)
  | genetic p lengths s =>
    obtain ⟨hp, hsize, hlengths, hshort⟩ := hready
    have hfaultless := Genetic.run_faultless (σ := σ) hp hlengths hshort ht hstarts hsize
    exact hfaultless.solve_new trivial (Genetic.run_confined hstarts hp lengths)
  | evolution p s =>
    obtain ⟨hp, hfit, hwords⟩ := hready
    have hfaultless := Evolution.run_faultless (σ := σ) ht hunit hstarts hp hfit hwords
    exact hfaultless.solve_new trivial (Evolution.run_confined hstarts hp)
  | simplex p s =>
    have hfaultless := Simplex.run_faultless (σ := σ) ht hready
    exact hfaultless.solve_new trivial (Simplex.run_confined hstarts hready)
  | rotation p s =>
    obtain ⟨hp, hstep, hn⟩ := hready
    have hfaultless := Rotation.run_faultless (σ := σ) ht hstarts hp hstep hn
    exact hfaultless.solve_new hfresh (Rotation.run_confined hstarts hp)
  | partition p s =>
    have hfaultless := Partition.run_faultless (σ := σ) ht hready
    exact hfaultless.solve_new hfresh.1 (Partition.run_confined hready)

end Run

end BoxSearch
