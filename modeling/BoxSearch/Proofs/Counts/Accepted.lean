import Mathlib
import BoxSearch.Proofs.Counts.Endings
import BoxSearch.Proofs.Counts.Genetic
import BoxSearch.Proofs.Settings.Ranges

/-!
# Accepted settings

The counts of a method are checked when its settings are read: there are as many particles as the rule
of a swarm needs, at least one child of a generation of an evolution, an elite of a genetic population
leaves places for children, and a cap on iterations is a positive number.  So what holds of runs with
counts that fit holds of the runs of all accepted settings.
-/

namespace BoxSearch

variable {m : Method} {s : Settings} {c : MethodConfig} {n : ℕ} {engine : Engine Float n}

/-! ## 1. Engines -/

/-- The engine of a method with accepted settings has counts that fit. -/
theorem MethodConfig.countsFit (hc : m.configure s = .ok c) {r : Region Float n}
    (h : c.engine r = .ok engine) : engine.CountsFit := by
  cases m with
  | hillClimb =>
    obtain ⟨b, -, rfl⟩ := exists_of_map_eq_ok hc
    rw [← Except.ok.inj h]
    trivial
  | swarm =>
    obtain ⟨b, hb, rfl⟩ := exists_of_map_eq_ok hc
    rw [← Except.ok.inj h]
    exact (Swarm.Config.ranges hb).leastCount_le
  | genetic =>
    obtain ⟨b, -, rfl⟩ := exists_of_map_eq_ok hc
    obtain ⟨lengths, -, h⟩ := exists_of_bind_eq_ok h
    rw [← Except.ok.inj h]
    trivial
  | evolution =>
    obtain ⟨b, hb, rfl⟩ := exists_of_map_eq_ok hc
    rw [← Except.ok.inj h]
    exact (Evolution.Config.ranges hb).children
  | simplex =>
    obtain ⟨b, -, rfl⟩ := exists_of_map_eq_ok hc
    rw [← Except.ok.inj h]
    trivial
  | rotation =>
    obtain ⟨b, -, rfl⟩ := exists_of_map_eq_ok hc
    rw [← Except.ok.inj h]
    trivial
  | partition =>
    obtain ⟨b, hb, rfl⟩ := exists_of_map_eq_ok hc
    rw [← Except.ok.inj h]
    exact (Partition.Config.ranges hb).iterations

/-- The engine of accepted settings was not set up yet. -/
theorem MethodConfig.isFresh {r : Region Float n} (h : c.engine r = .ok engine) : engine.IsFresh := by
  cases c with
  | genetic b =>
    obtain ⟨lengths, -, h⟩ := exists_of_bind_eq_ok h
    rw [← Except.ok.inj h]
    trivial
  | partition b =>
    rw [← Except.ok.inj h]
    exact ⟨rfl, rfl⟩
  | _ =>
    rw [← Except.ok.inj h]
    trivial

/-- The elite of an accepted genetic search leaves places for children. -/
theorem MethodConfig.elite_lt_size (hc : m.configure s = .ok c) {r : Region Float n}
    {p : Genetic.Params Float} {lengths : Vector ℕ n} {members : List (Sample Float n)}
    (h : c.engine r = .ok (.genetic p lengths members)) : p.elite < p.size := by
  cases m with
  | genetic =>
    obtain ⟨b, hb, rfl⟩ := exists_of_map_eq_ok hc
    obtain ⟨_, -, h⟩ := exists_of_bind_eq_ok h
    obtain ⟨rfl, -, -⟩ := Engine.genetic.inj (Except.ok.inj h)
    exact (Genetic.Config.ranges hb).elite.2
  | _ =>
    obtain ⟨b, -, rfl⟩ := exists_of_map_eq_ok hc
    exact nomatch Except.ok.inj h

/-! ## 2. Runs -/

/-- With accepted settings a search in doubles keeps its budget if its method looks at it before every
evaluation, and if it returns it says truthfully why it ended.  If every cost is finite, it then has spent
a budget that alone ends it, and a genetic search has made the generations that budget and cap allow. -/
theorem Run.solve_accepted {σ : Type} [DrawSource σ Float] (hc : m.configure s = .ok c)
    {t : Task Float n} (hengine : c.engine t.region = .ok engine) (hbudget : 0 < t.budget) (draws : σ) :
    let d := (⟨{}, draws, engine⟩ : Run σ Float n).solve t
    (engine.LooksFirst → d.2.ledger.evaluations ≤ t.budget ∧
      ∀ e ∈ d.2.ledger.history, e.1 ≤ t.budget) ∧
    (t.objective.IsProper → d.1 = .ok () → engine.EndsTruthfully t.budget d.2.ledger) ∧
    (t.objective.IsFinite → d.1 = .ok () →
      (engine.SpendsAll → engine.SpentExactly t.budget d.2.ledger) ∧
      ∀ p lengths members, engine = .genetic p lengths members →
        Genetic.Accounted p t.budget d.2.ledger) := by
  intro d
  let r : Run σ Float n := ⟨{}, draws, engine⟩
  have hfit : r.engine.CountsFit := MethodConfig.countsFit hc hengine
  refine ⟨fun hlooks => ⟨?_, ?_⟩, fun hf hreturns => ?_, fun hf hreturns => ⟨fun hspends => ?_, ?_⟩⟩
  · exact Engine.le_budget_of_admits hlooks (solve_terms (r := r) hbudget rfl hfit).1
  · exact le_budget_of_mem_history (r := r) hbudget rfl hfit hlooks
  · exact solve_endsTruthfully (r := r) hbudget hf rfl (MethodConfig.isFresh hengine) hfit hreturns
  · exact solve_spentExactly (r := r) hbudget hf rfl hfit hspends hreturns
  · rintro p lengths members rfl
    exact solve_accounted (MethodConfig.elite_lt_size hc hengine) hf hreturns

end BoxSearch
