import Mathlib
import BoxSearch.Proofs.Counts.Solve
import BoxSearch.Proofs.Counts.Target

/-!
# Truthful endings

A search that returns says why it ended, and what it says is so.  A loop that used up its fuel would
leave the search running, and such a search is said to have spent its budget when it is closed: that
this is only said when the budget is spent shows as well that no search is cut short by its fuel.
-/

namespace BoxSearch

namespace Engine

variable {α : Type} {n : ℕ}

/-! ## 1. What an ending says -/

/-- The number of rounds after which the method ends a search, if there is one. -/
def cap? : Engine α n → Option ℕ
  | genetic p _ _ => some p.generations
  | partition p _ => p.iterations
  | _ => none

/-- The method ends a search where a reflected vertex ties. -/
def EndsAtTies : Engine α n → Prop
  | simplex _ _ => True
  | _ => False

variable [Scalar α]

/-- The method has a target, and the cost misses it by less than the tolerance. -/
def MeetsTarget (cost : α) : Engine α n → Prop
  | partition p _ => ∃ target, p.target = some (.ok target) ∧
      Partition.percentError target cost < p.tolerance
  | _ => False

/-- The search is at its end, and its status is so. -/
structure EndsTruthfully (engine : Engine α n) (budget : ℕ) (L : Ledger α n) : Prop where
  started : L.phase.status ≠ .notStarted
  ended : L.phase.status ≠ .running
  spent : L.phase.status = .budgetExhausted → budget ≤ L.evaluations
  capped : L.phase.status = .maxIterations → engine.cap? = some L.rounds ∧ L.evaluations < budget
  tied : L.phase.status = .degenerate → engine.EndsAtTies
  -- No cost that was answered is below the best one, or below the one that meets the target.
  met : L.phase.status = .targetReached →
    ∃ best cost, L.bestCost = some best ∧ L.IsLeast best ∧ L.IsLeast cost ∧ engine.MeetsTarget cost

/-! ## 2. From the terms of the methods -/

namespace EndsTruthfully

variable {engine : Engine α n} {budget : ℕ} {L : Ledger α n}

theorem of_spent (hstatus : L.phase.status = .budgetExhausted) (h : budget ≤ L.evaluations) :
    engine.EndsTruthfully budget L := by
  constructor <;> rw [hstatus] <;> first | exact fun _ => h | exact nofun

theorem of_nonFinite (hstatus : L.phase.status = .nonFinite) : engine.EndsTruthfully budget L := by
  constructor <;> rw [hstatus] <;> exact nofun

theorem of_capped (hstatus : L.phase.status = .maxIterations) (hcap : engine.cap? = some L.rounds)
    (hless : L.evaluations < budget) : engine.EndsTruthfully budget L := by
  constructor <;> rw [hstatus] <;> first | exact fun _ => ⟨hcap, hless⟩ | exact nofun

theorem of_tied (hstatus : L.phase.status = .degenerate) (h : engine.EndsAtTies) :
    engine.EndsTruthfully budget L := by
  constructor <;> rw [hstatus] <;> first | exact fun _ => h | exact nofun

theorem of_met (hstatus : L.phase.status = .targetReached)
    (h : ∃ best cost, L.bestCost = some best ∧ L.IsLeast best ∧ L.IsLeast cost ∧
      engine.MeetsTarget cost) : engine.EndsTruthfully budget L := by
  constructor <;> rw [hstatus] <;> first | exact fun _ => h | exact nofun

theorem of_spending {R : ℕ → Prop}
    (h : (Terms.spending budget R).ends L.phase L.evaluations L.rounds) :
    engine.EndsTruthfully budget L := by
  cases hphase : L.phase <;> rw [hphase] at h
  case budgetSpent => exact .of_spent (congrArg Phase.status hphase) h.1.ge
  case nonFinite => exact .of_nonFinite (congrArg Phase.status hphase)
  all_goals exact h.elim

variable {t : Task α n}

theorem of_genetic {p : Genetic.Params α} {lengths : Vector ℕ n} {s : List (Sample α n)}
    (h : (Genetic.terms t p).ends L.phase L.evaluations L.rounds) :
    (genetic p lengths s).EndsTruthfully t.budget L := by
  cases hphase : L.phase <;> rw [hphase] at h
  case budgetSpent => exact .of_spent (congrArg Phase.status hphase) (Nat.le_of_eq h.symm)
  case nonFinite => exact .of_nonFinite (congrArg Phase.status hphase)
  case generationsDone cap =>
    obtain ⟨rfl, hrounds, hless⟩ := h
    exact .of_capped (congrArg Phase.status hphase) (congrArg some hrounds.symm) hless
  all_goals exact h.elim

theorem of_simplex {p : Simplex.Params α} {s : Simplex.State α n}
    (h : (Simplex.terms t).ends L.phase L.evaluations L.rounds) :
    (simplex p s).EndsTruthfully t.budget L := by
  cases hphase : L.phase <;> rw [hphase] at h
  case budgetSpent => exact .of_spent (congrArg Phase.status hphase) h
  case nonFinite => exact .of_nonFinite (congrArg Phase.status hphase)
  case degenerate => exact .of_tied (congrArg Phase.status hphase) trivial
  all_goals exact h.elim

theorem of_partition {p : Partition.Params α} {s : Partition.State α n}
    (h : (Partition.terms t p).ends L.phase L.evaluations L.rounds)
    (hmet : L.phase.status = .targetReached → ∃ best cost, L.bestCost = some best ∧
      L.IsLeast best ∧ L.IsLeast cost ∧ (partition p s).MeetsTarget cost) :
    (partition p s).EndsTruthfully t.budget L := by
  cases hphase : L.phase <;> rw [hphase] at h
  case budgetSpent => exact .of_spent (congrArg Phase.status hphase) h
  case nonFinite => exact .of_nonFinite (congrArg Phase.status hphase)
  case iterationsDone cap =>
    obtain ⟨hcap, rfl, hless⟩ := h
    exact .of_capped (congrArg Phase.status hphase) hcap hless
  case targetReached =>
    have hstatus : L.phase.status = .targetReached := congrArg Phase.status hphase
    exact .of_met hstatus (hmet hstatus)
  all_goals exact h.elim

/-- An ending on the terms of the method is truthful, if the target is met where a partition says so. -/
theorem of_ends {engine : Engine α n}
    (h : (engine.terms t).ends L.phase L.evaluations L.rounds)
    (hmet : ∀ p s, engine = .partition p s → L.phase.status = .targetReached →
      ∃ best cost, L.bestCost = some best ∧ L.IsLeast best ∧ L.IsLeast cost ∧
        engine.MeetsTarget cost) :
    engine.EndsTruthfully t.budget L := by
  cases engine with
  | hillClimb p => exact .of_spending h
  | swarm p s => exact .of_spending h
  | genetic p lengths s => exact .of_genetic h
  | evolution p s => exact .of_spending h
  | simplex p s => exact .of_simplex h
  | rotation p s => exact .of_spending h
  | partition p s => exact .of_partition h (hmet p s rfl)

end EndsTruthfully

end Engine

/-! ## 3. Whole searches -/

/-- In exact arithmetic two least costs are one. -/
theorem Account.IsLeast.unique {P : Type} {A : Account ℝ P} {v w : ℝ} (hv : A.IsLeast v)
    (hw : A.IsLeast w) : v = w :=
  le_antisymm (le_of_not_gt (hv.not_lt w hw.mem)) (le_of_not_gt (hw.not_lt v hv.mem))

namespace Run

open Account

section

variable {σ α : Type} [Scalar α] [Scalar.Ordered α] [DrawSource σ α] {n : ℕ} {t : Task α n}
  {r : Run σ α n}

/-- A partition says that the target is reached when its best cost, or one that ties it, meets it. -/
theorem exists_meetsTarget (hf : t.objective.IsProper) (hr : r.ledger = {})
    (hfresh : r.engine.IsFresh) {p : Partition.Params α} {s : Partition.State α n}
    (hengine : r.engine = .partition p s)
    (hreached : (r.solve t).2.ledger.phase.status = .targetReached) :
    ∃ best cost, (r.solve t).2.ledger.bestCost = some best ∧
      (r.solve t).2.ledger.IsLeast best ∧ (r.solve t).2.ledger.IsLeast cost ∧
      r.engine.MeetsTarget cost := by
  have hbalanced : (r.solve t).2.ledger.Balanced t.objective := by
    have hcloses := r.solve_closes t (by rw [hr])
    rw [hr] at hcloses
    exact hcloses.balanced hf (Balanced.empty.aside _ _ _)
  have hproper : ∀ a ∈ (r.solve t).2.ledger.answers, a.2.IsProper :=
    fun _ ha => hbalanced.isProper_of_mem hf ha
  obtain ⟨L, draws, engine⟩ := r
  obtain rfl : engine = .partition p s := hengine
  obtain rfl : L = {} := hr
  obtain ⟨target, least, htarget, hleast, herror⟩ :=
    (Partition.solve_targetMet hfresh.2 hreached).exists_isLeast hproper
  -- The least cost is finite, so there is a best one.
  obtain ⟨a, ha, hfinite⟩ := mem_costs.mp hleast.mem
  obtain ⟨b, hb⟩ := Option.isSome_iff_exists.mp (hbalanced.best.isSome_iff.mpr ⟨a, ha, least, hfinite⟩)
  have hbest := hbalanced.best
  rw [hb] at hbest
  exact ⟨b.cost, least, congrArg (Option.map Best.cost) hb, isLeast_of_isBest hbest, hleast, target,
    htarget, herror⟩

theorem solve_endsTruthfully (hbudget : 0 < t.budget) (hf : t.objective.IsProper)
    (hr : r.ledger = {}) (hfresh : r.engine.IsFresh) (hfit : r.engine.CountsFit)
    (hreturns : (r.solve t).1 = .ok ()) :
    r.engine.EndsTruthfully t.budget (r.solve t).2.ledger :=
  .of_ends ((solve_terms hbudget hr hfit).2 hreturns) fun _ _ hengine hreached =>
    exists_meetsTarget hf hr hfresh hengine hreached

end

/-- Every search that returns says truthfully why it ended, in any arithmetic.  In exact arithmetic
every search returns, and where it says that its target is reached the best cost meets the target. -/
theorem endings_are_truthful (σ : Type) (n : ℕ) :
    (∀ (α : Type) [Scalar α] [Scalar.Ordered α] [DrawSource σ α] (t : Task α n) (r : Run σ α n),
      0 < t.budget → t.objective.IsProper → r.ledger = {} → r.engine.IsFresh → r.engine.CountsFit →
      (r.solve t).1 = .ok () → r.engine.EndsTruthfully t.budget (r.solve t).2.ledger) ∧
    ∀ [DrawSource σ ℝ] (t : Task ℝ n) (r : Run σ ℝ n),
      0 < t.budget → UnitDraws σ → (∀ x ∈ t.starts, t.region.Feasible x) → t.objective.Answers →
      r.ledger = {} → r.engine.IsFresh → r.engine.CountsFit → r.engine.IsReady t.region →
      (r.solve t).1 = .ok () ∧ r.engine.EndsTruthfully t.budget (r.solve t).2.ledger ∧
        ((r.solve t).2.ledger.phase.status = .targetReached →
          ∃ best, (r.solve t).2.ledger.bestCost = some best ∧ r.engine.MeetsTarget best) := by
  constructor
  · intro α _ _ _ t r hbudget hf hr hfresh hfit hreturns
    exact solve_endsTruthfully hbudget hf hr hfresh hfit hreturns
  · intro _ t r hbudget hunit hstarts ht hr hfresh hfit hready
    have hf : t.objective.IsProper := fun _ _ c _ => Cost.isProper_real c
    have hreturns := solve_returns ht hunit hstarts hr hfresh hready
    have hends := solve_endsTruthfully hbudget hf hr hfresh hfit hreturns
    refine ⟨hreturns, hends, fun hreached => ?_⟩
    obtain ⟨best, cost, hbest, hleast, hcost, hmeets⟩ := hends.met hreached
    exact ⟨best, hbest, hleast.unique hcost ▸ hmeets⟩

/-- The objective is zero everywhere on the unit square. -/
noncomputable def flatSquare : Task ℝ 2 :=
  { leastOnSquare with objective := fun _ _ => .ok (.finite 0) }

/-- A search for a cost of zero. -/
noncomputable def aimed : Run UnitTape ℝ 2 :=
  ⟨{}, zeroDraws, .partition ⟨.ok 1e-4, none, some (.ok 0), 0.01⟩ {}⟩

theorem status_aimed : (aimed.solve flatSquare).2.ledger.phase.status = .targetReached := by
  let p : Partition.Params ℝ := ⟨.ok 1e-4, none, some (.ok 0), 0.01⟩
  let fresh : Course UnitTape ℝ 2 (Partition.State ℝ 2) := ⟨{}, aimed.draws, {}⟩
  let start := { fresh with ledger := fresh.ledger.start 2 flatSquare.budget }
  -- The course when the cost at the centre is entered.
  let entered : Course UnitTape ℝ 2 (Partition.State ℝ 2) := ((do
      let v ← SearchM.trial flatSquare (Partition.inRegion flatSquare.region (Point.fill 2 0.5))
      SearchM.setOwn ⟨true, [Partition.Cell.whole v], []⟩
      Partition.enterRecord : SearchM UnitTape ℝ 2 (Partition.State ℝ 2) Unit).run start).2
  have hleast : Partition.leastCost entered.own.cells = some 0 := rfl
  have herror : Partition.percentError 0 0 < p.tolerance := by
    show Partition.percentError (0 : ℝ) 0 < 0.01
    unfold Partition.percentError
    norm_num
  have hsetUp : (Partition.setUp flatSquare p).run start = (do
      return !(← Partition.checkTarget p) :
        SearchM UnitTape ℝ 2 (Partition.State ℝ 2) Bool).run entered := rfl
  rw [run_bind_of_ok (Partition.checkTarget_run rfl hleast herror)] at hsetUp
  show (Course.solve flatSquare (Partition.run flatSquare p) fresh).2.ledger.phase.status = _
  rw [Course.solve_of_notStarted rfl, Partition.run, run_bind_of_ok hsetUp]
  rfl

/-- The target is met at the centre of the square. -/
theorem endings_are_truthful_aimed :
    flatSquare.objective.Answers ∧ aimed.engine.IsReady flatSquare.region ∧
      (aimed.solve flatSquare).1 = .ok () ∧
      (aimed.solve flatSquare).2.ledger.phase.status = .targetReached ∧
      aimed.engine.EndsTruthfully 12 (aimed.solve flatSquare).2.ledger ∧
      ∃ best, (aimed.solve flatSquare).2.ledger.bestCost = some best ∧
        aimed.engine.MeetsTarget best := by
  have hbudget : 0 < flatSquare.budget := Nat.succ_pos 11
  have hanswers : flatSquare.objective.Answers := fun _ _ => ⟨.finite 0, rfl⟩
  have hproper : flatSquare.objective.IsProper := fun _ _ c _ => Cost.isProper_real c
  have hfit : aimed.engine.CountsFit := fun _ hcap => nomatch hcap
  have hready : aimed.engine.IsReady flatSquare.region :=
    ⟨⟨1e-4, rfl⟩, fun _ hq => ⟨0, (Option.some.inj hq).symm⟩⟩
  obtain ⟨hreturns, -, hmet⟩ :=
    (endings_are_truthful UnitTape 2).2 flatSquare aimed hbudget unitDraws_unitTape
      (fun _ hx => nomatch hx) hanswers rfl ⟨rfl, rfl⟩ hfit hready
  have hends := (endings_are_truthful UnitTape 2).1 ℝ flatSquare aimed hbudget hproper rfl
    ⟨rfl, rfl⟩ hfit hreturns
  exact ⟨hanswers, hready, hreturns, status_aimed, hends, hmet status_aimed⟩

end Run

end BoxSearch
