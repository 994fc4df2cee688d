import Mathlib
import BoxSearch.Engine
import BoxSearch.Proofs.Account.Passage

/-!
# All methods are orderly

Wherever a method evaluates a point, it looks at the answer before it does anything else to the account:
a cost that is not finite ends the search at every place, deep inside a round as well, and no step that
follows changes how the search ended.
-/

namespace BoxSearch

variable {σ α : Type} [Scalar α] [DrawSource σ α] {n : ℕ} {t : Task α n}

/-! ## 1. Hill climbing -/

namespace HillClimb

theorem climb_orderly (stepSize : α) (fuel : ℕ) (x : Point α n) (fx : α) :
    Orderly t (climb t stepSize fuel x fx : SearchM σ α n Unit Unit) := by
  induction fuel generalizing x fx with
  | zero => exact .pure
  | succ fuel ih =>
    apply Orderly.bind .withinBudget
    intro b
    refine .ite ?_ .pure
    apply Orderly.bind (.draw _)
    intro y
    apply Orderly.bind (.trial y)
    intro fy
    exact .bind .endRound fun _ => .ite (ih y fy) (ih x fx)

theorem run_orderly (p : Params α) : Orderly t (run t p : SearchM σ α n Unit Unit) := by
  apply Orderly.bind (.draw _)
  intro x
  apply Orderly.bind (.use _)
  intro stepSize
  exact .bind (.trial x) fun fx => climb_orderly stepSize t.budget x fx

end HillClimb

/-! ## 2. Swarms -/

namespace Swarm

variable {p : Params α}

omit [DrawSource σ α] in
theorem modifyParticles_orderly (f : List (Particle α n) → List (Particle α n)) :
    Orderly t (modifyParticles f : SearchM σ α n (State α n) Unit) := .modifyOwn

theorem moveParticle_orderly (swarm : List (Particle α n)) (i : ℕ) (q : Particle α n)
    (target : Point α n) :
    Orderly t (moveParticle t p swarm i q target : SearchM σ α n (State α n) Unit) := by
  apply Orderly.bind (.use _)
  intro s
  apply Orderly.bind (.drawOr _)
  rintro ⟨v, x⟩
  apply Orderly.keep_bind x
  intro _
  exact .ite (modifyParticles_orderly _) .pure

theorem advance_orderly (best : Option (Point α n)) (i : ℕ) :
    Orderly t (advance t p best i : SearchM σ α n (State α n) Unit) := by
  apply Orderly.bind .requireBudget
  intro _
  apply Orderly.bind .own
  intro s
  dsimp only
  cases s.particles[i]? with
  | none => exact .throw
  | some q =>
    cases best with
    | none =>
      have htarget : Orderly t (bestPoint q.point : SearchM σ α n (State α n) (Point α n)) :=
        .bind .ledger fun _ => .pure
      exact .bind htarget fun target => moveParticle_orderly _ i q target
    | some target => exact moveParticle_orderly _ i q target

theorem advanceAll_orderly (best : Option (Point α n)) (places : List ℕ) :
    Orderly t (advanceAll t p best places : SearchM σ α n (State α n) Unit) := by
  induction places with
  | nil => exact .pure
  | cons i rest ih => exact .bind (advance_orderly best i) fun _ => ih

theorem sweep_orderly : Orderly t (sweep t p : SearchM σ α n (State α n) Unit) := by
  apply Orderly.bind .own
  intro s
  cases p.refresh with
  | afterSweep =>
    apply Orderly.bind .ledger
    intro L
    apply Orderly.bind (advanceAll_orderly _ _)
    intro _
    exact .bind (modifyParticles_orderly _) fun _ => .endRound
  | afterMove => exact .bind (advanceAll_orderly _ _) fun _ => .endRound

theorem launch_orderly : Orderly t (launch t p : SearchM σ α n (State α n) Unit) := by
  apply Orderly.bind (.drawOr _)
  intro points
  apply Orderly.bind .setOwn
  intro _
  apply Orderly.bind (.evaluateAll _ points)
  intro _
  apply Orderly.bind .own
  intro s
  apply Orderly.bind (.drawOr _)
  intro velocities
  exact .bind (modifyParticles_orderly _) fun _ => .report _

theorem run_orderly (p : Params α) : Orderly t (run t p : SearchM σ α n (State α n) Unit) :=
  .bind launch_orderly fun _ => .roundsWithin sweep_orderly _

end Swarm

/-! ## 3. Genetic search -/

namespace Genetic

variable {p : Params α}

omit [DrawSource σ α] in
theorem enroll_orderly (xs : List (Point α n)) (next : List (Sample α n)) :
    Orderly t (enroll t p xs next : SearchM σ α n (List (Sample α n)) (List (Sample α n))) := by
  induction xs generalizing next with
  | nil => exact .pure
  | cons x rest ih =>
    refine .ite ?_ .pure
    apply Orderly.bind .requireBudget
    intro _
    exact .bind (.trial x) fun v => ih _

omit [DrawSource σ α] in
theorem memberAt_orderly (population : List (Sample α n)) (i : ℕ) :
    Orderly t (memberAt population i : SearchM σ α n (List (Sample α n)) (Point α n)) := by
  unfold memberAt
  cases population[i]? with
  | none => exact .throw
  | some s => exact .pure

theorem fillGeneration_orderly (lengths : Vector ℕ n) (population : List (Sample α n))
    (wheel : List ℕ) (fuel : ℕ) (next : List (Sample α n)) :
    Orderly t (fillGeneration t p lengths population wheel fuel next :
      SearchM σ α n (List (Sample α n)) (List (Sample α n))) := by
  induction fuel generalizing next with
  | zero => exact .pure
  | succ fuel ih =>
    refine .ite ?_ .pure
    apply Orderly.bind (.draw _)
    intro i
    apply Orderly.bind (memberAt_orderly population i)
    intro a
    apply Orderly.bind (.draw _)
    intro j
    apply Orderly.bind (memberAt_orderly population j)
    intro b
    apply Orderly.bind (.drawOr _)
    intro children
    exact .bind (enroll_orderly _ next) fun next' => ih next'

theorem generation_orderly (lengths : Vector ℕ n) :
    Orderly t (generation t p lengths : SearchM σ α n (List (Sample α n)) Unit) := by
  apply Orderly.bind .modifyOwn
  intro _
  apply Orderly.bind .own
  intro population
  apply Orderly.bind (fillGeneration_orderly lengths population _ _ _)
  intro next
  exact .bind .setOwn fun _ => .endRound

theorem found_orderly (k : ℕ) (given : List (Point α n)) :
    Orderly t (found t k given : SearchM σ α n (List (Sample α n)) Unit) := by
  induction k generalizing given with
  | zero => exact .pure
  | succ k ih =>
    apply Orderly.bind .requireBudget
    intro _
    apply Orderly.bind (.draw _)
    intro x
    exact .keep_bind x _ fun _ => ih _

theorem run_orderly (p : Params α) (lengths : Vector ℕ n) :
    Orderly t (run t p lengths : SearchM σ α n (List (Sample α n)) Unit) := by
  apply Orderly.bind .setOwn
  intro _
  apply Orderly.bind (found_orderly _ _)
  intro _
  apply Orderly.bind (.report _)
  intro _
  exact .bind (.roundsWithin (generation_orderly lengths) _) fun _ => .stopWithin nofun

end Genetic

/-! ## 4. Evolution -/

namespace Evolution

variable {p : Params α}

theorem bear_orderly (rates : Rates α) (population : List (Member α n)) :
    Orderly t (bear t p rates population : SearchM σ α n (State α n) (Member α n)) := by
  apply Orderly.bind (.drawOr _)
  intro places
  cases membersAt population places with
  | none => exact .throw
  | some parents =>
    apply Orderly.bind (.use _)
    intro _
    apply Orderly.bind (.drawOr _)
    intro child
    exact .bind (.trial _) fun v => .pure

theorem bearAll_orderly (rates : Rates α) (population : List (Member α n)) (k : ℕ) :
    Orderly t (bearAll t p rates population k :
      SearchM σ α n (State α n) (List (Member α n))) := by
  induction k with
  | zero => exact .pure
  | succ k ih =>
    apply Orderly.bind .withinBudget
    intro b
    refine .ite ?_ .pure
    exact .bind (bear_orderly rates population) fun child => .bind ih fun others => .pure

theorem generation_orderly (rates : Rates α) :
    Orderly t (generation t p rates : SearchM σ α n (State α n) Unit) := by
  apply Orderly.bind .own
  intro s
  apply Orderly.bind (bearAll_orderly rates s.population p.children)
  intro children
  exact .bind .modifyOwn fun _ => .endRound

theorem found_orderly : Orderly t (found t p : SearchM σ α n (State α n) Unit) := by
  apply Orderly.bind (.drawOr _)
  intro points
  apply Orderly.bind .modifyOwn
  intro _
  exact .bind (.evaluateAll _ points) fun _ => .modifyOwn

theorem run_orderly (p : Params α) : Orderly t (run t p : SearchM σ α n (State α n) Unit) := by
  apply Orderly.bind (.use _)
  intro learning
  apply Orderly.bind .modifyOwn
  intro _
  apply Orderly.bind (.report _)
  intro _
  exact .bind found_orderly fun _ => .roundsWithin (generation_orderly _) _

end Evolution

/-! ## 5. Simplexes -/

namespace Simplex

variable {p : Params α}

section

omit [DrawSource σ α]

theorem vertices_orderly :
    Orderly t (vertices : SearchM σ α n (State α n) (Vertices α n)) := by
  apply Orderly.bind .own
  intro s
  cases s.vertices with
  | nil => exact .throw
  | cons v vs => exact .pure

theorem modifyVertices_orderly (f : Vertices α n → Vertices α n) :
    Orderly t (modifyVertices f : SearchM σ α n (State α n) Unit) := .modifyOwn

theorem note_orderly (move : Move) :
    Orderly t (note move : SearchM σ α n (State α n) Unit) := .modifyOwn

theorem shrinkAt_orderly (best : Point α n) (places : List ℕ) :
    Orderly t (shrinkAt t p best places : SearchM σ α n (State α n) Unit) := by
  induction places with
  | nil => exact .pure
  | cons k rest ih =>
    apply Orderly.bind vertices_orderly
    intro v
    cases v[k]? with
    | none => exact .throw
    | some s =>
      apply Orderly.bind (.use _)
      intro shrinkage
      apply Orderly.bind (modifyVertices_orderly _)
      intro _
      exact .keep_bind _ _ fun _ => ih

theorem shrink_orderly : Orderly t (shrink t p : SearchM σ α n (State α n) Unit) := by
  apply Orderly.bind vertices_orderly
  intro v
  cases v with
  | nil => exact .throw
  | cons best others => exact shrinkAt_orderly _ _

theorem expand_orderly (middle xr : Point α n) (fr : α) :
    Orderly t (expand t p middle xr fr : SearchM σ α n (State α n) Unit) := by
  apply Orderly.bind (note_orderly .expand)
  intro _
  apply Orderly.bind (.use _)
  intro expansion
  exact .bind (.trial _) fun fe => .ite (modifyVertices_orderly _) (modifyVertices_orderly _)

theorem contract_orderly (worst : Sample α n) (middle xr : Point α n) (fr : α) :
    Orderly t (contract t p worst middle xr fr : SearchM σ α n (State α n) Unit) := by
  apply Orderly.bind (note_orderly _)
  intro _
  apply Orderly.bind (.use _)
  intro contraction
  apply Orderly.bind (.trial _)
  intro fc
  exact .ite (modifyVertices_orderly _) (.bind (note_orderly .shrink) fun _ => shrink_orderly)

theorem endDegenerate_orderly (fr : α) :
    Orderly t (endDegenerate fr : SearchM σ α n (State α n) Unit) := by
  apply Orderly.bind (note_orderly .degenerate)
  intro _
  apply Orderly.bind .ledger
  intro L
  exact .bind (.stop nofun) fun _ => .bind (.report _) fun _ => .throw

theorem round_orderly : Orderly t (round t p : SearchM σ α n (State α n) Unit) := by
  apply Orderly.bind vertices_orderly
  intro v
  cases v.corners? with
  | none => exact .throw
  | some c =>
    apply Orderly.bind (.use _)
    intro reflection
    apply Orderly.bind (.trial _)
    intro fr
    have hend : Orderly t (do
        modifyVertices (·.ranked)
        SearchM.endRound : SearchM σ α n (State α n) Unit) :=
      .bind (modifyVertices_orderly _) fun _ => .endRound
    apply Orderly.ite
    · exact .bind (note_orderly .reflect) fun _ => .bind (modifyVertices_orderly _) fun _ => hend
    · apply Orderly.ite
      · exact .bind (expand_orderly _ _ _) fun _ => hend
      · apply Orderly.ite
        · exact .bind (contract_orderly _ _ _ _) fun _ => hend
        · exact .bind (endDegenerate_orderly fr) fun _ => hend

theorem addVertex_orderly (x : Point α n) :
    Orderly t (addVertex t x : SearchM σ α n (State α n) Unit) := by
  apply Orderly.keep_bind x
  intro _
  exact .pure

end

theorem foundAround_orderly (first : Point α n) (k : ℕ) :
    Orderly t (foundAround t p first k : SearchM σ α n (State α n) Unit) := by
  induction k with
  | zero => exact .pure
  | succ k ih =>
    apply Orderly.bind (.drawOr _)
    intro x
    exact .bind (addVertex_orderly x) fun _ => ih

theorem found_orderly : Orderly t (found t p : SearchM σ α n (State α n) Unit) := by
  apply Orderly.bind (.drawOr _)
  intro first
  apply Orderly.bind (modifyVertices_orderly _)
  intro _
  apply Orderly.bind (addVertex_orderly first)
  intro _
  exact .bind (foundAround_orderly first n) fun _ => modifyVertices_orderly _

theorem run_orderly (p : Params α) : Orderly t (run t p : SearchM σ α n (State α n) Unit) :=
  .bind found_orderly fun _ => .roundsWithin round_orderly _

end Simplex

/-! ## 6. Rotating axes -/

namespace Rotation

variable {p : Params α}

section

omit [DrawSource σ α]

theorem bestInCube_orderly :
    Orderly t (bestInCube t : SearchM σ α n (State α n) (Point α n)) := by
  apply Orderly.bind .ledger
  intro L
  cases L.best with
  | none => exact .throw
  | some b => exact .pure

theorem frame_orderly : Orderly t (frame : SearchM σ α n (State α n) (Frame α n)) := by
  apply Orderly.bind .own
  intro s
  cases s.frame with
  | none => exact .throw
  | some f => exact .pure

theorem setFrame_orderly (f : Frame α n) :
    Orderly t (setFrame f : SearchM σ α n (State α n) Unit) := .modifyOwn

theorem turn_orderly : Orderly t (turn t p : SearchM σ α n (State α n) Unit) := by
  apply Orderly.bind frame_orderly
  intro f
  apply Orderly.bind bestInCube_orderly
  intro best
  apply Orderly.bind (.use _)
  intro stepSize
  apply Orderly.bind (setFrame_orderly _)
  intro _
  apply Orderly.bind (.use _)
  intro _
  apply Orderly.bind (setFrame_orderly _)
  intro _
  exact .bind .endRound fun _ => .bind .ledger fun L => .report _

theorem turnIfExhausted_orderly :
    Orderly t (turnIfExhausted t p : SearchM σ α n (State α n) Unit) :=
  .bind frame_orderly fun _ => .ite turn_orderly .pure

theorem tryMove_orderly : Orderly t (tryMove t p : SearchM σ α n (State α n) Unit) := by
  apply Orderly.bind frame_orderly
  intro f
  cases f.moves[f.direction]? with
  | none => exact .throw
  | some move =>
    apply Orderly.bind bestInCube_orderly
    intro best
    apply Orderly.bind .ledger
    intro L
    apply Orderly.bind (.trial _)
    intro v
    exact .bind (.use _) fun next => setFrame_orderly _

theorem step_orderly : Orderly t (step t p : SearchM σ α n (State α n) Bool) := by
  apply Orderly.bind .own
  intro s
  apply Orderly.bind (.require _ _)
  intro _
  apply Orderly.bind .ledger
  intro L
  apply Orderly.bind .withinBudget
  intro b
  refine .ite .pure ?_
  apply Orderly.bind turnIfExhausted_orderly
  intro _
  exact .bind tryMove_orderly fun _ => .withinBudget

end

theorem setUp_orderly : Orderly t (setUp t p : SearchM σ α n (State α n) Unit) := by
  apply Orderly.bind .own
  intro s
  apply Orderly.bind (.require _ _)
  intro _
  apply Orderly.bind .markRunning
  intro _
  apply Orderly.bind .modifyOwn
  intro _
  apply Orderly.bind (.drawOr _)
  intro x
  apply Orderly.bind (.trial x)
  intro _
  apply Orderly.bind (.use _)
  intro stepSize
  exact .bind bestInCube_orderly fun best => setFrame_orderly _

theorem run_orderly (p : Params α) : Orderly t (run t p : SearchM σ α n (State α n) Unit) :=
  .bind setUp_orderly fun _ => .repeatWhile step_orderly _

end Rotation

/-! ## 7. Partitions -/

namespace Partition

variable {p : Params α}

omit [DrawSource σ α]

theorem probe_orderly (c : Cell α n) (delta : α) (dimensions : List (Fin n)) :
    Orderly t (probe t c delta dimensions : SearchM σ α n (State α n) (List (Probe α n))) := by
  induction dimensions with
  | nil => exact .pure
  | cons i rest ih =>
    apply Orderly.bind (.trial _)
    intro fl
    apply Orderly.bind (.trial _)
    intro fr
    exact .bind ih fun others => .pure

theorem divide_orderly (place : ℕ) :
    Orderly t (divide t place : SearchM σ α n (State α n) Unit) := by
  apply Orderly.bind .own
  intro s
  cases s.cells[place]? with
  | none => exact .throw
  | some c =>
    apply Orderly.bind (.use _)
    intro delta
    exact .bind (probe_orderly c delta _) fun probes => .modifyOwn

theorem divideAll_orderly (places : List ℕ) :
    Orderly t (divideAll t places : SearchM σ α n (State α n) Unit) := by
  induction places with
  | nil => exact .pure
  | cons place rest ih =>
    apply Orderly.bind .withinBudget
    intro b
    exact .ite (.bind (divide_orderly place) fun _ => ih) .pure

theorem enterRecord_orderly : Orderly t (enterRecord : SearchM σ α n (State α n) Unit) :=
  .bind .ledger fun _ => .bind .own fun _ => .bind .modifyOwn fun _ => .report _

theorem checkTarget_orderly : Orderly t (checkTarget p : SearchM σ α n (State α n) Bool) := by
  apply Orderly.bind .own
  intro s
  cases p.target with
  | none => exact .pure
  | some target =>
    cases leastCost s.cells with
    | none => exact .pure
    | some least =>
      apply Orderly.bind (.use _)
      intro v
      exact .ite (.bind (.stop nofun) fun _ => .pure) .pure

theorem select_orderly : Orderly t (select p : SearchM σ α n (State α n) (List ℕ)) := by
  apply Orderly.bind .own
  intro s
  apply Orderly.bind (.use _)
  intro selection
  exact .bind (.reportIf _ _) fun _ => .pure

theorem checkIterations_orderly :
    Orderly t (checkIterations t p : SearchM σ α n (State α n) Bool) := by
  unfold checkIterations
  cases p.iterations with
  | none => exact .pure
  | some cap =>
    apply Orderly.bind .ledger
    intro L
    exact .ite (.bind (.stopWithin nofun) fun _ => .pure) .pure

theorem iterate_orderly : Orderly t (iterate t p : SearchM σ α n (State α n) Bool) := by
  apply Orderly.bind .own
  intro s
  apply Orderly.bind (.require _ _)
  intro _
  apply Orderly.bind .ledger
  intro L
  apply Orderly.bind .withinBudget
  intro b
  refine .ite .pure ?_
  apply Orderly.bind select_orderly
  intro places
  apply Orderly.bind (divideAll_orderly places)
  intro _
  apply Orderly.bind .endRound
  intro _
  apply Orderly.bind enterRecord_orderly
  intro _
  apply Orderly.bind checkTarget_orderly
  intro b
  refine .ite .pure ?_
  exact .bind checkIterations_orderly fun b => .ite .pure .withinBudget

theorem setUp_orderly : Orderly t (setUp t p : SearchM σ α n (State α n) Bool) := by
  apply Orderly.bind .own
  intro s
  apply Orderly.bind (.require _ _)
  intro _
  apply Orderly.bind .markRunning
  intro _
  apply Orderly.bind .modifyOwn
  intro _
  apply Orderly.bind (.trial _)
  intro v
  apply Orderly.bind .modifyOwn
  intro _
  exact .bind enterRecord_orderly fun _ => .bind checkTarget_orderly fun _ => .pure

theorem run_orderly (p : Params α) : Orderly t (run t p : SearchM σ α n (State α n) Unit) := by
  apply Orderly.bind setUp_orderly
  intro b
  exact .ite (.repeatWhile iterate_orderly _) .pure

end Partition

end BoxSearch
