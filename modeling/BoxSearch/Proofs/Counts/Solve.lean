import Mathlib
import BoxSearch.Proofs.Account.Solve
import BoxSearch.Proofs.Counts.Methods
import BoxSearch.Proofs.Counts.Populations
import BoxSearch.Proofs.Counts.Rounds
import BoxSearch.Proofs.Faultless.Solve

/-!
# Exact budgets

Five methods look at the budget before every evaluation and never exceed it.  Four of them end for no
other reason than that it is spent, unless a cost is not finite: they make exactly as many evaluations
as the budget has, and how many rounds these are is a matter of division.
-/

namespace BoxSearch

/-! ## 1. Whole searches -/

section

variable {α : Type} [Scalar α] {n : ℕ}

/-- The counts of the settings are such as are accepted. -/
def Engine.CountsFit : Engine α n → Prop
  | .swarm p _ => p.CountFits
  | .evolution p _ => 0 < p.children
  | .partition p _ => ∀ cap ∈ p.iterations, 0 < cap
  | _ => True

/-- On what terms a search by the method ends. -/
def Engine.terms (t : Task α n) : Engine α n → Terms α
  | .hillClimb _ => HillClimb.terms t
  | .swarm p _ => Swarm.terms t p
  | .genetic p _ _ => Genetic.terms t p
  | .evolution p _ => Evolution.terms t p
  | .simplex _ _ => Simplex.terms t
  | .rotation _ _ => Rotation.terms t
  | .partition p _ => Partition.terms t p

/-- A simplex overshoots its budget on its terms. -/
theorem Run.solve_overshoot {σ : Type} [DrawSource σ α] (draws : σ) (p : Simplex.Params α)
    (s : Simplex.State α n) (t : Task α n) :
    let d := (⟨{}, draws, .simplex p s⟩ : Run σ α n).solve t
    (Simplex.overshoot t).admits d.2.ledger.evaluations ∧
      (d.1 = .ok () →
        (Simplex.overshoot t).ends d.2.ledger.phase d.2.ledger.evaluations d.2.ledger.rounds) :=
  Terms.solve (c := ⟨{}, draws, s⟩) Simplex.run_counted rfl (Nat.zero_le _) rfl

/-- A genetic search accounts for its generations on its terms. -/
theorem Run.solve_accounts {σ : Type} [DrawSource σ α] (draws : σ) (p : Genetic.Params α)
    (lengths : Vector ℕ n) (s : List (Sample α n)) (t : Task α n) :
    let d := (⟨{}, draws, .genetic p lengths s⟩ : Run σ α n).solve t
    (Genetic.accounts t p).admits d.2.ledger.evaluations ∧
      (d.1 = .ok () →
        (Genetic.accounts t p).ends d.2.ledger.phase d.2.ledger.evaluations d.2.ledger.rounds) :=
  Terms.solve (c := ⟨{}, draws, s⟩) Genetic.run_counted rfl ⟨Nat.zero_le _, Nat.zero_le _⟩ ⟨rfl, rfl⟩

/-- Every search keeps to the terms of its method, and one that returns ended on them. -/
theorem Run.solve_terms {σ : Type} [DrawSource σ α] {t : Task α n} (hbudget : 0 < t.budget)
    {r : Run σ α n} (hr : r.ledger = {}) (hfit : r.engine.CountsFit) :
    (r.engine.terms t).admits (r.solve t).2.ledger.evaluations ∧
      ((r.solve t).1 = .ok () →
        (r.engine.terms t).ends (r.solve t).2.ledger.phase (r.solve t).2.ledger.evaluations
          (r.solve t).2.ledger.rounds) := by
  obtain ⟨L, draws, engine⟩ := r
  obtain rfl : L = {} := hr
  cases engine with
  | hillClimb p =>
    exact Terms.solve (c := ⟨{}, draws, ()⟩) (HillClimb.run_counted hbudget p) rfl (Nat.zero_le _)
      ⟨rfl, rfl⟩
  | swarm p s =>
    exact Terms.solve (c := ⟨{}, draws, s⟩) (Swarm.run_counted hfit.size_pos) rfl (Nat.zero_le _)
      ⟨rfl, rfl⟩
  | genetic p lengths s =>
    have haccounts := solve_accounts draws p lengths s t
    exact ⟨haccounts.1.1, fun hreturns => Genetic.terms_of_accounts (haccounts.2 hreturns)⟩
  | evolution p s =>
    exact Terms.solve (c := ⟨{}, draws, s⟩) (Evolution.run_counted hfit) rfl (Nat.zero_le _)
      ⟨rfl, rfl⟩
  | simplex p s =>
    exact ⟨trivial, fun hreturns =>
      Simplex.terms_of_overshoot ((solve_overshoot draws p s t).2 hreturns)⟩
  | rotation p s =>
    exact Terms.solve (c := ⟨{}, draws, s⟩) (Rotation.run_counted hbudget) rfl (Nat.zero_le _) rfl
  | partition p s =>
    exact ⟨trivial, (Terms.solve (c := ⟨{}, draws, s⟩) (Partition.run_counted hfit) rfl
      (Nat.zero_le _) ⟨rfl, rfl⟩).2⟩

end

/-! ## 2. Numbers of evaluations -/

namespace Account

variable {α P : Type} [Scalar α] {f : P → ℕ → Except Failure (Cost α)} {A B : Account α P}

/-- The number of no evaluation is beyond their count. -/
def IsNumbered (A : Account α P) : Prop := ∀ e ∈ A.history, e.1 ≤ A.evaluations

theorem IsNumbered.enter (h : A.IsNumbered) (x : P) (c : Cost α) : (A.enter x c).IsNumbered := by
  intro e he
  rcases List.mem_append.mp he with he | he
  · exact Nat.le_succ_of_le (h e he)
  · rw [List.mem_singleton.mp he]
    exact le_rfl

omit [Scalar α] in
theorem IsNumbered.close (h : A.IsNumbered) : A.close.IsNumbered := by
  unfold Account.close
  cases A.phase <;> exact h

theorem GoesOn.isNumbered (h : GoesOn f A B) (hA : A.IsNumbered) : B.IsNumbered := by
  induction h with
  | refl => exact hA
  | enter _ _ ih => exact ih.enter _ _
  | aside _ _ _ _ ih => exact ih

theorem Closes.isNumbered {answer : Except (Fault α) Unit} (h : Closes f A answer B)
    (hA : A.IsNumbered) : B.IsNumbered := by
  cases h with
  | returned h => exact (h.isNumbered hA).close
  | nonFinite h _ _ => exact IsNumbered.close ((h.isNumbered hA).enter _ _)
  | faulted h _ => exact h.isNumbered hA
  | failed h _ => exact h.isNumbered hA

/-- If no answer is a cost that is not finite, the search does not say that one was. -/
theorem Closes.status_ne_nonFinite {answer : Except (Fault α) Unit} (h : Closes f A answer B)
    (hf : ∀ x k c, f x k = .ok c → c.IsFinite) (hA : A.IsFinite) : B.phase.status ≠ .nonFinite := by
  cases h with
  | returned h => exact (status_close _).not.mpr (h.isFinite hA).status
  | nonFinite h hx hc => exact absurd (hf _ _ _ hx) hc
  | faulted h _ => exact (h.isFinite hA).status
  | failed h _ => exact (h.isFinite hA).status

end Account

/-! ## 3. Searches that only the budget ends -/

section

variable {α : Type} {n : ℕ}

/-- Every cost that is answered is finite. -/
def Objective.IsFinite (f : Objective α n) : Prop := ∀ x k c, f x k = .ok c → c.IsFinite

/-- The method looks at the budget before every evaluation. -/
def Engine.LooksFirst : Engine α n → Prop
  | .simplex _ _ => False
  | .partition _ _ => False
  | _ => True

/-- Nothing but the budget and costs that are not finite ends the search. -/
def Engine.SpendsAll : Engine α n → Prop
  | .hillClimb _ => True
  | .swarm _ _ => True
  | .evolution _ _ => True
  | .rotation _ _ => True
  | _ => False

/-- How many rounds a budget is spent in; the turns of the axes depend on the costs. -/
def Engine.RoundsOf (budget rounds : ℕ) : Engine α n → Prop
  | .hillClimb _ => rounds = budget - 1
  | .swarm p _ => rounds = if p.size ≤ budget then (budget - p.size) / p.size else 0
  | .evolution p _ => rounds = if p.size ≤ budget then (budget - p.size) ⌈/⌉ p.children else 0
  | _ => True

/-- The search made as many evaluations as the budget has, and says that it ended because of that. -/
structure Engine.SpentExactly (engine : Engine α n) (budget : ℕ) (L : Ledger α n) : Prop where
  evaluations : L.evaluations = budget
  status : L.phase.status = .budgetExhausted
  rounds : engine.RoundsOf budget L.rounds

theorem Terms.spending_ends {budget e r : ℕ} {R : ℕ → Prop} {phase : Phase α}
    (h : (Terms.spending budget R).ends phase e r) (hfinite : phase.status ≠ .nonFinite) :
    e = budget ∧ phase.status = .budgetExhausted ∧ R r := by
  cases phase with
  | budgetSpent => exact ⟨h.1, rfl, h.2⟩
  | nonFinite cost evaluation => exact absurd rfl hfinite
  | _ => exact h.elim

variable [Scalar α]

theorem Engine.spentExactly_of_ends {t : Task α n} {engine : Engine α n} (hspends : engine.SpendsAll)
    {L : Ledger α n} (h : (engine.terms t).ends L.phase L.evaluations L.rounds)
    (hfinite : L.phase.status ≠ .nonFinite) : engine.SpentExactly t.budget L := by
  cases engine with
  | hillClimb p =>
    obtain ⟨he, hphase, hr⟩ := Terms.spending_ends h hfinite
    exact ⟨he, hphase, hr⟩
  | swarm p s =>
    obtain ⟨he, hphase, hr⟩ := Terms.spending_ends h hfinite
    refine ⟨he, hphase, ?_⟩
    show L.rounds = if p.size ≤ t.budget then (t.budget - p.size) / p.size else 0
    split_ifs with hfew
    · exact hr
    · rw [hr, Nat.sub_eq_zero_of_le (not_le.mp hfew).le, Nat.zero_div]
  | evolution p s =>
    obtain ⟨he, hphase, hr⟩ := Terms.spending_ends h hfinite
    refine ⟨he, hphase, ?_⟩
    show L.rounds = if p.size ≤ t.budget then (t.budget - p.size) ⌈/⌉ p.children else 0
    rw [← Nat.ceilDiv_eq_add_pred_div] at hr
    split_ifs with hfew
    · exact hr
    · rw [hr, Nat.sub_eq_zero_of_le (not_le.mp hfew).le, zero_ceilDiv]
  | rotation p s =>
    obtain ⟨he, hphase, -⟩ := Terms.spending_ends h hfinite
    exact ⟨he, hphase, trivial⟩
  | genetic p lengths s => exact hspends.elim
  | simplex p s => exact hspends.elim
  | partition p s => exact hspends.elim

theorem Engine.le_budget_of_admits {t : Task α n} {engine : Engine α n} (hlooks : engine.LooksFirst)
    {e : ℕ} (h : (engine.terms t).admits e) : e ≤ t.budget := by
  cases engine with
  | simplex p s => exact hlooks.elim
  | partition p s => exact hlooks.elim
  | _ => exact h

end

namespace Run

section

variable {σ α : Type} [Scalar α] [DrawSource σ α] {n : ℕ} {t : Task α n} {r : Run σ α n}

theorem status_ne_nonFinite (hf : t.objective.IsFinite) (hr : r.ledger = {}) :
    (r.solve t).2.ledger.phase.status ≠ .nonFinite := by
  have hcloses := r.solve_closes t (by rw [hr])
  rw [hr] at hcloses
  exact hcloses.status_ne_nonFinite hf (Account.isFinite_start n t.budget)

theorem le_budget_of_mem_history (hbudget : 0 < t.budget) (hr : r.ledger = {})
    (hfit : r.engine.CountsFit) (hlooks : r.engine.LooksFirst) :
    ∀ e ∈ (r.solve t).2.ledger.history, e.1 ≤ t.budget := by
  intro e he
  have hcloses := r.solve_closes t (by rw [hr])
  rw [hr] at hcloses
  have hnone : (({} : Ledger α n).start n t.budget).IsNumbered := fun _ h => nomatch h
  exact (hcloses.isNumbered hnone e he).trans
    (Engine.le_budget_of_admits hlooks (solve_terms hbudget hr hfit).1)

theorem solve_spentExactly (hbudget : 0 < t.budget) (hf : t.objective.IsFinite) (hr : r.ledger = {})
    (hfit : r.engine.CountsFit) (hspends : r.engine.SpendsAll) (hreturns : (r.solve t).1 = .ok ()) :
    r.engine.SpentExactly t.budget (r.solve t).2.ledger :=
  Engine.spentExactly_of_ends hspends ((solve_terms hbudget hr hfit).2 hreturns)
    (status_ne_nonFinite hf hr)

end

/-- The methods that look at the budget first never exceed it.  If every cost is finite, those that
only the budget ends spend it exactly: any run of them that returns does so, in any arithmetic, and in
exact arithmetic every run returns. -/
theorem budget_is_exact (σ : Type) (n : ℕ) :
    (∀ (α : Type) [Scalar α] [DrawSource σ α] (t : Task α n) (r : Run σ α n),
      0 < t.budget → r.ledger = {} → r.engine.CountsFit → r.engine.LooksFirst →
      (r.solve t).2.ledger.evaluations ≤ t.budget ∧
        (∀ e ∈ (r.solve t).2.ledger.history, e.1 ≤ t.budget) ∧
        (t.objective.IsFinite → r.engine.SpendsAll → (r.solve t).1 = .ok () →
          r.engine.SpentExactly t.budget (r.solve t).2.ledger)) ∧
    ∀ [DrawSource σ ℝ] (t : Task ℝ n) (r : Run σ ℝ n),
      0 < t.budget → UnitDraws σ → (∀ x ∈ t.starts, t.region.Feasible x) →
      t.objective.Answers → t.objective.IsFinite → r.ledger = {} → r.engine.IsFresh →
      r.engine.CountsFit → r.engine.IsReady t.region → r.engine.SpendsAll →
      (r.solve t).1 = .ok () ∧ r.engine.SpentExactly t.budget (r.solve t).2.ledger := by
  constructor
  · intro α _ _ t r hbudget hr hfit hlooks
    exact ⟨Engine.le_budget_of_admits hlooks (solve_terms hbudget hr hfit).1,
      le_budget_of_mem_history hbudget hr hfit hlooks, fun hf hspends hreturns =>
      solve_spentExactly hbudget hf hr hfit hspends hreturns⟩
  · intro _ t r hbudget hunit hstarts ht hf hr hfresh hfit hready hspends
    have hreturns := solve_returns ht hunit hstarts hr hfresh hready
    exact ⟨hreturns, solve_spentExactly hbudget hf hr hfit hspends hreturns⟩

/-- Every uniform number that is drawn is zero. -/
noncomputable def zeroDraws : UnitTape := ⟨climb.draws, fun _ => ⟨le_rfl, zero_lt_one⟩⟩

/-- Two members that have three children in a generation, each with its integers drawn anew. -/
noncomputable def family : Run UnitTape ℝ 1 :=
  ⟨{}, zeroDraws, .evolution ⟨2, 3, 2, .random, .uniform, .ok 1, .ok 1, .ok 1, 1⟩ {}⟩

/-- The third generation of a family is cut short by a budget of ten evaluations. -/
theorem budget_is_exact_family :
    leastOfFour.objective.Answers ∧ leastOfFour.objective.IsFinite ∧ UnitDraws UnitTape ∧
      family.engine.IsReady leastOfFour.region ∧ (family.solve leastOfFour).1 = .ok () ∧
      (∀ e ∈ (family.solve leastOfFour).2.ledger.history, e.1 ≤ 10) ∧
      (family.solve leastOfFour).2.ledger.evaluations = 10 ∧
      (family.solve leastOfFour).2.ledger.phase.status = .budgetExhausted ∧
      (family.solve leastOfFour).2.ledger.rounds = 3 := by
  have hbudget : 0 < leastOfFour.budget := Nat.succ_pos 9
  have hanswers : leastOfFour.objective.Answers := fun x _ => ⟨.finite (x.get 0), rfl⟩
  have hfinite : leastOfFour.objective.IsFinite := fun x _ _ h => ⟨x.get 0, (Except.ok.inj h).symm⟩
  have hfit : family.engine.CountsFit := Nat.succ_pos 2
  have hwords : Evolution.HasWords leastOfFour.region := by
    refine Evolution.hasWords_of_lt fun i _ => ?_
    have hupper : leastOfFour.region.upper.get i = 3 :=
      (Point.get_ofFn (fun _ => ((3 : ℤ) : ℝ)) i).trans (Int.cast_ofNat 3)
    rw [hupper]
    norm_num
  have hready : family.engine.IsReady leastOfFour.region :=
    ⟨⟨⟨1, rfl⟩, ⟨1, rfl⟩, ⟨1, rfl⟩⟩, ⟨Nat.two_pos, le_rfl⟩, hwords⟩
  obtain ⟨hreturns, hevaluations, hstatus, hrounds⟩ :=
    (budget_is_exact UnitTape 1).2 leastOfFour family hbudget unitDraws_unitTape
      (fun _ hx => nomatch hx) hanswers hfinite rfl trivial hfit hready trivial
  obtain ⟨-, hhistory, -⟩ :=
    (budget_is_exact UnitTape 1).1 ℝ leastOfFour family hbudget rfl hfit trivial
  exact ⟨hanswers, hfinite, unitDraws_unitTape, hready, hreturns, hhistory, hevaluations, hstatus,
    hrounds⟩

end Run

end BoxSearch
