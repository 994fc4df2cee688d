import Mathlib
import BoxSearch.Proofs.Exact
import BoxSearch.Proofs.Feasible.Solve
import BoxSearch.Proofs.Order.Methods
import BoxSearch.Proofs.Order.Populations
import BoxSearch.Proofs.Order.Simplex

/-!
# Only the order of the costs matters

Two objectives whose costs are in the same order lead a search through the same points.  This holds
of every method but the division of the region, which weighs costs against lengths.
-/

namespace BoxSearch

/-- On a linear order a strictly increasing function keeps the order of finite costs. -/
theorem Cost.KeepsOrder.of_increasing {α : Type} [LinearOrder α] {g : Cost α → Cost α}
    (hfinite : ∀ v, (g (.finite v)).IsFinite) (honly : ∀ c, (g c).IsFinite → c.IsFinite)
    (hlt : ∀ v w v' w', g (.finite v) = .finite v' → g (.finite w) = .finite w' → v < w →
      v' < w') : Cost.KeepsOrder g where
  finite := hfinite
  onlyFinite := honly
  lt_iff v w v' w' hv hw := by
    constructor
    · intro h
      rcases lt_trichotomy v w with hvw | rfl | hwv
      · exact hvw
      · rw [hv] at hw
        exact absurd h (Cost.finite.inj hw).not_lt
      · exact absurd h (hlt w v w' v' hw hv hwv).not_gt
    · exact hlt v w v' w' hv hw

/-- The method compares costs with each other only: it does not divide the region. -/
def Engine.OnlyCompares {α : Type} {n : ℕ} : Engine α n → Prop
  | .partition _ _ => False
  | _ => True

namespace Run

variable {σ α : Type} [Scalar α] [DrawSource σ α] {n : ℕ}

/-- A run on the rescaled task and account ends as the run does, with its account rescaled. -/
theorem solve_mirrors {g : Cost α → Cost α} (hg : Cost.KeepsOrder g) (t : Task α n)
    (L : Ledger α n) (draws : σ) {engine : Engine α n} (he : engine.OnlyCompares) :
    (solve ⟨L.rescale g, draws, engine⟩ (t.rescale g)).1 = (solve ⟨L, draws, engine⟩ t).1 ∧
      (solve ⟨L.rescale g, draws, engine⟩ (t.rescale g)).2.ledger =
        (solve ⟨L, draws, engine⟩ t).2.ledger.rescale g := by
  cases engine with
  | hillClimb p => exact SearchM.solve_mirrors (HillClimb.run_mirrors hg p) L draws trivial
  | swarm p s => exact SearchM.solve_mirrors (Swarm.run_mirrors hg Eq) L draws rfl
  | genetic p lengths s => exact SearchM.solve_mirrors (Genetic.run_mirrors hg Eq) L draws rfl
  | evolution p s => exact SearchM.solve_mirrors (Evolution.run_mirrors hg Eq) L draws rfl
  | simplex p s => exact SearchM.solve_mirrors (Simplex.run_mirrors hg Eq) L draws rfl
  | rotation p s => exact SearchM.solve_mirrors (Rotation.run_mirrors hg) L draws rfl
  | partition p s => exact False.elim he

/-- The run on the rescaled costs evaluates the same points in the same order and ends with the same
status, the same numbers of rounds and evaluations and the same best point, and its best cost is the
rescaled one. -/
theorem solve_rescale {g : Cost α → Cost α} (hg : Cost.KeepsOrder g) (t : Task α n) (draws : σ)
    {engine : Engine α n} (he : engine.OnlyCompares) :
    let fresh : Run σ α n := ⟨{}, draws, engine⟩
    let L := (fresh.solve t).2.ledger
    let L' := (fresh.solve (t.rescale g)).2.ledger
    (fresh.solve (t.rescale g)).1 = (fresh.solve t).1 ∧
      L'.trace.map (·.1) = L.trace.map (·.1) ∧
      L'.phase.status = L.phase.status ∧
      L'.rounds = L.rounds ∧
      L'.evaluations = L.evaluations ∧
      L'.best.map (·.point) = L.best.map (·.point) ∧
      L'.bestCost.map Cost.finite = L.bestCost.map fun v => g (.finite v) := by
  intro fresh L L'
  obtain ⟨hanswer, hledger⟩ := solve_mirrors hg t {} draws he
  have hL : L' = L.rescale g := hledger
  rw [hL]
  refine ⟨hanswer, List.map_map, Phase.status_rescale g L.phase, rfl, rfl, Option.map_map .., ?_⟩
  rw [Account.bestCost_rescale, Option.map_map]
  congr 1
  funext v
  exact (hg.apply_finite v).symm

/-- Every finite cost is doubled; the others stay as they are. -/
noncomputable def double : Cost ℝ → Cost ℝ
  | .finite v => .finite (v + v)
  | c => c

theorem keepsOrder_double : Cost.KeepsOrder double := by
  apply Cost.KeepsOrder.of_increasing
  · intro v
    exact ⟨v + v, rfl⟩
  · intro c h
    cases c with
    | finite v => exact ⟨v, rfl⟩
    | _ => exact h
  · intro v w v' w' hv hw hlt
    obtain rfl := Cost.finite.inj hv
    obtain rfl := Cost.finite.inj hw
    exact add_lt_add hlt hlt

/-- A climb over four integers does not notice that costs are doubled. -/
theorem solve_rescale_leastOfFour :
    Cost.KeepsOrder double ∧ climb.engine.OnlyCompares ∧
      (climb.solve (leastOfFour.rescale double)).2.ledger.trace.map (·.1) =
        (climb.solve leastOfFour).2.ledger.trace.map (·.1) :=
  have he : climb.engine.OnlyCompares := trivial
  ⟨keepsOrder_double, he, (solve_rescale keepsOrder_double leastOfFour climb.draws he).2.1⟩

end Run

end BoxSearch
