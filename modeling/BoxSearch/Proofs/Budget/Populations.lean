import BoxSearch.Evolution
import BoxSearch.Genetic
import BoxSearch.Proofs.Budget.Pace

/-!
# Populations within two budgets

A generation may end early.  In a genetic search it then ends the search; in an evolution the
children that were born still compete with their parents, and no further generation starts.
-/

namespace BoxSearch

open SearchM

variable {σ α : Type} [Scalar α] {n : Nat} {t : Task α n} {b : Nat}

/-! ## 1. Genetic search -/

namespace Genetic

variable {p : Params α} {lengths : Vector Nat n}

omit [Scalar α] in
theorem memberAt_quiet (population : List (Sample α n)) (i : Nat) :
    Quiet (memberAt population i : SearchM σ α n (List (Sample α n)) (Point α n))
      (memberAt population i) := by
  unfold memberAt
  cases population[i]? with
  | none => exact .throw _
  | some s => exact .pure s.point

theorem enroll_paced (hb : t.budget ≤ b) (children : List (Point α n)) (next : List (Sample α n)) :
    Paced t False
      (enroll t p children next : SearchM σ α n (List (Sample α n)) (List (Sample α n)))
      (enroll (t.withBudget b) p children next) := by
  induction children generalizing next with
  | nil => exact .of_quiet (.pure next)
  | cons x rest ih =>
    apply Paced.ite
    · apply Paced.requireBudget_bind hb
      exact .after (.trial t b x) fun v => (ih (next ++ [⟨x, .finite v⟩])).toOutlasts
    · exact .of_quiet (.pure next)

variable [DrawSource σ α]

theorem fillGeneration_paced (hb : t.budget ≤ b) (population : List (Sample α n))
    (wheel : List Nat) (fuel : Nat) (next : List (Sample α n)) :
    Paced t False
      (fillGeneration t p lengths population wheel fuel next :
        SearchM σ α n (List (Sample α n)) (List (Sample α n)))
      (fillGeneration (t.withBudget b) p lengths population wheel fuel next) := by
  induction fuel generalizing next with
  | zero => exact .of_quiet (.pure next)
  | succ fuel ih =>
    apply Paced.ite
    · apply Paced.bind (.of_quiet (.draw _))
      intro i
      apply Paced.bind (.of_quiet (memberAt_quiet population i))
      intro a
      apply Paced.bind (.of_quiet (.draw _))
      intro j
      apply Paced.bind (.of_quiet (memberAt_quiet population j))
      intro a'
      apply Paced.bind (.of_quiet (.drawOr (breed t.region p lengths a a')))
      rintro ⟨childA, childB⟩
      exact .bind (enroll_paced hb [childA, childB] next) ih
    · exact .of_quiet (.pure next)

theorem generation_paced (hb : t.budget ≤ b) :
    Paced t False (generation t p lengths : SearchM σ α n (List (Sample α n)) Unit)
      (generation (t.withBudget b) p lengths) := by
  apply Paced.bind (.of_quiet (.modifyOwn _))
  intro _
  apply Paced.bind (.of_quiet .own)
  intro population
  apply Paced.bind (fillGeneration_paced hb population _ p.size _)
  intro next
  exact .of_quiet (.bind (.setOwn next) fun _ => .endRound)

/-- The cap on generations is the same for both budgets. -/
theorem generations_paced (hb : t.budget ≤ b) :
    Paced t False (generations t p lengths : SearchM σ α n (List (Sample α n)) Unit)
      (generations (t.withBudget b) p lengths) := by
  apply Paced.bind (.roundsWithin hb (generation_paced hb).toOutlasts (.inl rfl))
  intro _
  exact .stopWithin hb _

theorem found_paced (hb : t.budget ≤ b) (k : Nat) (given : List (Point α n)) :
    Paced t False (found t k given : SearchM σ α n (List (Sample α n)) Unit)
      (found (t.withBudget b) k given) := by
  induction k generalizing given with
  | zero => exact .of_quiet (.pure ())
  | succ k ih =>
    apply Paced.requireBudget_bind hb
    apply Outlasts.after (.of_quiet (.draw (newcomer t.region given)))
    intro x
    apply Outlasts.after (.evaluate t b x)
    intro c
    apply Outlasts.after (.of_quiet (.modifyOwn _))
    intro _
    apply Outlasts.after (.of_quiet (.requireFinite c))
    intro _
    exact (ih (given.drop 1)).toOutlasts

theorem run_outlasts (hb : t.budget ≤ b) :
    Outlasts t False (run t p lengths : SearchM σ α n (List (Sample α n)) Unit)
      (run (t.withBudget b) p lengths) := by
  apply Outlasts.after (.of_quiet (.setOwn []))
  intro _
  apply (found_paced hb p.size t.starts).toOutlasts.bind
  intro _
  apply Paced.bind (.of_quiet (.report _))
  intro _
  exact generations_paced hb

end Genetic

/-! ## 2. Evolution -/

namespace Evolution

variable [DrawSource σ α] {p : Params α} {rates : Rates α}

theorem bear_steady (b : Nat) (population : List (Member α n)) :
    Steady (bear t p rates population : SearchM σ α n (State α n) (Member α n))
      (bear (t.withBudget b) p rates population) := by
  apply Steady.bind (.of_quiet (.drawOr (marry p)))
  intro places
  cases membersAt population places with
  | none => exact .of_quiet (.throw _)
  | some parents =>
    apply Steady.bind (.of_quiet (.use p.stepSize))
    intro _
    apply Steady.bind (.of_quiet (.drawOr (conceive t.region p rates parents)))
    rintro ⟨steps, x⟩
    exact .bind (.trial t b x) fun v => .of_quiet (.pure _)

theorem bearAll_paced (hb : t.budget ≤ b) (population : List (Member α n)) (k : Nat) :
    Paced t False
      (bearAll t p rates population k : SearchM σ α n (State α n) (List (Member α n)))
      (bearAll (t.withBudget b) p rates population k) := by
  induction k with
  | zero => exact .of_quiet (.pure [])
  | succ k ih =>
    apply Paced.withinBudget_bind hb
    · apply Outlasts.after (bear_steady b population)
      intro child
      exact (ih.bind fun others => .of_quiet (.pure (child :: others))).toOutlasts
    · exact .of_quiet (.pure [])

theorem generation_paced (hb : t.budget ≤ b) :
    Paced t False (generation t p rates : SearchM σ α n (State α n) Unit)
      (generation (t.withBudget b) p rates) := by
  apply Paced.bind (.of_quiet .own)
  intro s
  apply Paced.bind (bearAll_paced hb s.population p.children)
  intro children
  exact .of_quiet (.bind (.modifyOwn _) fun _ => .endRound)

theorem found_paced (hb : t.budget ≤ b) :
    Paced t False (found t p : SearchM σ α n (State α n) Unit) (found (t.withBudget b) p) := by
  apply Paced.bind (.of_quiet (.drawOr (Population.points t p.size p.sampling p.spread)))
  intro points
  apply Paced.bind (.of_quiet (.modifyOwn _))
  intro _
  apply Paced.bind (.evaluateAll hb (keepFirst p) points)
  intro _
  exact .of_quiet (.modifyOwn _)

theorem run_outlasts (hb : t.budget ≤ b) :
    Outlasts t True (run t p : SearchM σ α n (State α n) Unit) (run (t.withBudget b) p) := by
  apply Outlasts.after (.of_quiet (.use p.learning))
  intro learning
  apply Outlasts.after (.of_quiet (.modifyOwn _))
  intro _
  apply Outlasts.after (.of_quiet (.report _))
  intro _
  apply (found_paced hb).toOutlasts.bind
  intro _
  exact .roundsWithin hb (generation_paced hb).toOutlasts (.inr ⟨hb, trivial⟩)

end Evolution

end BoxSearch
