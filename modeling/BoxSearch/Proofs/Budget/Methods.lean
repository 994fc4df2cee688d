import BoxSearch.HillClimb
import BoxSearch.Partition
import BoxSearch.Proofs.Budget.Pace
import BoxSearch.Rotation
import BoxSearch.Simplex
import BoxSearch.Swarm

/-!
# Methods within two budgets

Each method looks at the budget in places of its own: a climb before each trial, rotating axes before
and after a step, a swarm before each move, a simplex before each round, a partition before each
division.  Everywhere else it does the same for every budget.
-/

namespace BoxSearch

open SearchM

variable {σ α : Type} [Scalar α] {n : Nat} {t : Task α n} {b : Nat}

/-! ## 1. Hill climbing -/

namespace HillClimb

variable [DrawSource σ α]

theorem climb_grows (t : Task α n) (stepSize : α) (fuel : Nat) (x : Point α n) (fx : α) :
    Grows (climb t stepSize fuel x fx : SearchM σ α n Unit Unit) := by
  induction fuel generalizing x fx with
  | zero => exact .pure ()
  | succ fuel ih =>
    apply Grows.bind (.withinBudget t)
    intro within
    apply Grows.ite
    · apply Grows.bind (.of_quiet (.draw _))
      intro y
      apply Grows.bind (Steady.trial t t.budget y).grows
      intro fy
      apply Grows.bind (.of_quiet .endRound)
      intro _
      exact .ite (ih y fy) (ih x fx)
    · exact .pure ()

theorem climb_paced (hb : t.budget ≤ b) (stepSize : α) {fuel fuel' : Nat} (hfuel : fuel ≤ fuel')
    (x : Point α n) (fx : α) :
    Paced t True (climb t stepSize fuel x fx : SearchM σ α n Unit Unit)
      (climb (t.withBudget b) stepSize fuel' x fx) := by
  induction fuel generalizing fuel' x fx with
  | zero => exact .leave (climb_grows _ stepSize fuel' x fx) trivial
  | succ fuel ih =>
    obtain ⟨k, rfl⟩ := Nat.exists_eq_add_of_le' hfuel
    have hk : fuel ≤ k + fuel := Nat.le_add_left fuel k
    apply Paced.withinBudget_bind hb
    · apply Outlasts.after (.of_quiet (.draw (neighbour t stepSize x)))
      intro y
      apply Outlasts.after (.trial t b y)
      intro fy
      apply Outlasts.after (.of_quiet .endRound)
      intro _
      exact (Paced.ite (ih hk y fy) (ih hk x fx)).toOutlasts
    · exact .of_quiet (.pure ())

theorem run_outlasts (hb : t.budget ≤ b) (p : Params α) :
    Outlasts t True (run t p : SearchM σ α n Unit Unit) (run (t.withBudget b) p) := by
  apply Outlasts.after (.of_quiet (.draw (start t)))
  intro x
  apply Outlasts.after (.of_quiet (.use p.stepSize))
  intro stepSize
  apply Outlasts.after (.trial t b x)
  intro fx
  exact (climb_paced hb stepSize hb x fx).toOutlasts

end HillClimb

/-! ## 2. Rotating axes -/

namespace Rotation

variable {p : Params α}

theorem bestInCube_quiet (b : Nat) :
    Quiet (bestInCube t : SearchM σ α n (State α n) (Point α n)) (bestInCube (t.withBudget b)) := by
  apply Quiet.ledger_bind
  intro L events
  dsimp only
  cases L.best with
  | none => exact .throw _
  | some best => exact .pure _

omit [Scalar α] in
theorem frame_quiet : Quiet (frame : SearchM σ α n (State α n) (Frame α n)) frame := by
  apply Quiet.bind .own
  intro s
  cases s.frame with
  | none => exact .throw _
  | some f => exact .pure f

omit [Scalar α] in
theorem setFrame_quiet (f : Frame α n) :
    Quiet (setFrame f : SearchM σ α n (State α n) Unit) (setFrame f) :=
  .modifyOwn _

theorem turn_quiet (b : Nat) :
    Quiet (turn t p : SearchM σ α n (State α n) Unit) (turn (t.withBudget b) p) := by
  apply Quiet.bind frame_quiet
  intro f
  apply Quiet.bind (bestInCube_quiet b)
  intro best
  apply Quiet.bind (.use p.stepSize)
  intro stepSize
  apply Quiet.bind (setFrame_quiet _)
  intro _
  apply Quiet.bind (.use (checkMoves t (f.turn stepSize best)))
  intro _
  apply Quiet.bind (setFrame_quiet _)
  intro _
  apply Quiet.bind .endRound
  intro _
  exact .ledger_bind fun L _ => .report (.rotated L.evaluations)

theorem turnIfExhausted_quiet (b : Nat) :
    Quiet (turnIfExhausted t p : SearchM σ α n (State α n) Unit)
      (turnIfExhausted (t.withBudget b) p) := by
  apply Quiet.bind frame_quiet
  intro f
  exact .ite (turn_quiet b) (.pure ())

theorem tryMove_steady (b : Nat) :
    Steady (tryMove t p : SearchM σ α n (State α n) Unit) (tryMove (t.withBudget b) p) := by
  apply Steady.bind (.of_quiet frame_quiet)
  intro f
  cases f.moves[f.direction]? with
  | none => exact .of_quiet (.throw _)
  | some move =>
    apply Steady.bind (.of_quiet (bestInCube_quiet b))
    intro best
    apply Steady.ledger_bind
    intro L events
    apply Steady.bind (.trial t b _)
    intro v
    apply Steady.of_quiet
    apply Quiet.bind (.use _)
    intro next
    exact setFrame_quiet _

theorem step_paced (hb : t.budget ≤ b) :
    Paced t False (step t p : SearchM σ α n (State α n) Bool) (step (t.withBudget b) p) := by
  apply Paced.bind (.of_quiet .own)
  intro s
  apply Paced.bind (.of_quiet (.require s.initialized .notInitialized))
  intro _
  apply Paced.ledger_bind
  intro L events
  dsimp only
  apply Paced.withinBudget_bind hb
  · cases L.phase.isOver with
    | true => exact (Paced.of_quiet (.pure false)).toOutlasts
    | false =>
      apply Outlasts.after (.of_quiet (turnIfExhausted_quiet b))
      intro _
      apply Outlasts.after (tryMove_steady b)
      intro _
      exact (Paced.withinBudget hb).toOutlasts
  · rw [Bool.not_false, Bool.or_true, if_pos rfl, if_pos rfl]
    exact .of_quiet (.pure false)

theorem setUp_steady [DrawSource σ α] (b : Nat) :
    Steady (setUp t p : SearchM σ α n (State α n) Unit) (setUp (t.withBudget b) p) := by
  apply Steady.bind (.of_quiet .own)
  intro s
  apply Steady.bind (.of_quiet (.require (!s.initialized) .alreadyInitialized))
  intro _
  apply Steady.bind (.of_quiet .markRunning)
  intro _
  apply Steady.bind (.of_quiet (.modifyOwn _))
  intro _
  apply Steady.bind (.of_quiet (.drawOr (start t p)))
  intro x
  apply Steady.bind (.trial t b x)
  intro _
  apply Steady.of_quiet
  apply Quiet.bind (.use p.stepSize)
  intro stepSize
  apply Quiet.bind (bestInCube_quiet b)
  intro best
  exact setFrame_quiet _

theorem run_outlasts [DrawSource σ α] (hb : t.budget ≤ b) :
    Outlasts t True (run t p : SearchM σ α n (State α n) Unit) (run (t.withBudget b) p) := by
  apply Outlasts.after (setUp_steady b)
  intro _
  exact (Paced.repeatWhile (step_paced hb) (Nat.succ_le_succ hb)).toOutlasts

end Rotation

/-! ## 3. Swarms -/

namespace Swarm

variable [DrawSource σ α] {p : Params α}

omit [Scalar α] [DrawSource σ α] in
theorem modifyParticles_quiet (f : List (Particle α n) → List (Particle α n)) :
    Quiet (modifyParticles f : SearchM σ α n (State α n) Unit) (modifyParticles f) :=
  .modifyOwn _

omit [Scalar α] [DrawSource σ α] in
theorem bestPoint_quiet (x : Point α n) :
    Quiet (bestPoint x : SearchM σ α n (State α n) (Point α n)) (bestPoint x) :=
  .ledger_bind fun L _ => .pure ((L.best.map (·.point)).getD x)

theorem moveParticle_steady (b : Nat) (swarm : List (Particle α n)) (i : Nat) (q : Particle α n)
    (target : Point α n) :
    Steady (moveParticle t p swarm i q target : SearchM σ α n (State α n) Unit)
      (moveParticle (t.withBudget b) p swarm i q target) := by
  apply Steady.bind (.of_quiet (.use (situation p swarm i q target)))
  intro s
  apply Steady.bind (.of_quiet (.drawOr (move t p s)))
  rintro ⟨v, x⟩
  apply Steady.bind (.evaluate t b x)
  intro c
  apply Steady.of_quiet
  apply Quiet.bind (modifyParticles_quiet _)
  intro _
  apply Quiet.bind (.requireFinite c)
  intro _
  exact .ite (modifyParticles_quiet _) (.pure ())

theorem advance_paced (hb : t.budget ≤ b) (best : Option (Point α n)) (i : Nat) :
    Paced t False (advance t p best i : SearchM σ α n (State α n) Unit)
      (advance (t.withBudget b) p best i) := by
  apply Paced.requireBudget_bind hb
  apply Outlasts.after (.of_quiet .own)
  intro s
  apply Outlasts.of_steady
  dsimp only
  cases s.particles[i]? with
  | none => exact .of_quiet (.throw _)
  | some q =>
    cases best with
    | some target => exact moveParticle_steady b _ i q target
    | none =>
      apply Steady.bind (.of_quiet (bestPoint_quiet q.point))
      intro target
      exact moveParticle_steady b _ i q target

theorem advanceAll_paced (hb : t.budget ≤ b) (best : Option (Point α n)) (places : List Nat) :
    Paced t False (advanceAll t p best places : SearchM σ α n (State α n) Unit)
      (advanceAll (t.withBudget b) p best places) := by
  induction places with
  | nil => exact .of_quiet (.pure ())
  | cons i rest ih => exact .bind (advance_paced hb best i) fun _ => ih

theorem sweep_paced (hb : t.budget ≤ b) :
    Paced t False (sweep t p : SearchM σ α n (State α n) Unit) (sweep (t.withBudget b) p) := by
  apply Paced.bind (.of_quiet .own)
  intro s
  dsimp only
  cases p.refresh with
  | afterSweep =>
    apply Paced.ledger_bind
    intro L events
    apply Paced.bind (advanceAll_paced hb _ _)
    intro _
    apply Paced.bind (.of_quiet (modifyParticles_quiet _))
    intro _
    exact .of_quiet .endRound
  | afterMove =>
    apply Paced.bind (advanceAll_paced hb _ _)
    intro _
    exact .of_quiet .endRound

theorem launch_paced (hb : t.budget ≤ b) :
    Paced t False (launch t p : SearchM σ α n (State α n) Unit) (launch (t.withBudget b) p) := by
  apply Paced.bind (.of_quiet (.drawOr (Population.points t p.size p.sampling p.spread)))
  intro points
  apply Paced.bind (.of_quiet (.setOwn _))
  intro _
  apply Paced.bind (.evaluateAll hb _ points)
  intro _
  apply Paced.of_quiet
  apply Quiet.bind .own
  intro s
  apply Quiet.bind (.drawOr (launchVelocities t p points.length))
  intro velocities
  apply Quiet.bind (modifyParticles_quiet _)
  intro _
  exact .report _

theorem run_outlasts (hb : t.budget ≤ b) :
    Outlasts t True (run t p : SearchM σ α n (State α n) Unit) (run (t.withBudget b) p) := by
  apply (launch_paced hb).toOutlasts.bind
  intro _
  exact .roundsWithin hb (sweep_paced hb).toOutlasts (.inr ⟨hb, trivial⟩)

end Swarm

/-! ## 4. Simplices -/

namespace Simplex

variable {p : Params α}

omit [Scalar α] in
theorem vertices_quiet : Quiet (vertices : SearchM σ α n (State α n) (Vertices α n)) vertices := by
  apply Quiet.bind .own
  intro s
  cases s.vertices with
  | nil => exact .throw _
  | cons v rest => exact .pure _

omit [Scalar α] in
theorem modifyVertices_quiet (f : Vertices α n → Vertices α n) :
    Quiet (modifyVertices f : SearchM σ α n (State α n) Unit) (modifyVertices f) :=
  .modifyOwn _

omit [Scalar α] in
theorem note_quiet (move : Move) :
    Quiet (note move : SearchM σ α n (State α n) Unit) (note move) :=
  .modifyOwn _

theorem shrinkAt_steady (b : Nat) (best : Point α n) (places : List Nat) :
    Steady (shrinkAt t p best places : SearchM σ α n (State α n) Unit)
      (shrinkAt (t.withBudget b) p best places) := by
  induction places with
  | nil => exact .of_quiet (.pure ())
  | cons k rest ih =>
    apply Steady.bind (.of_quiet vertices_quiet)
    intro v
    cases v[k]? with
    | none => exact .of_quiet (.throw _)
    | some s =>
      apply Steady.bind (.of_quiet (.use p.shrinkage))
      intro shrinkage
      apply Steady.bind (.of_quiet (modifyVertices_quiet _))
      intro _
      apply Steady.bind (.evaluate t b _)
      intro c
      apply Steady.bind (.of_quiet (modifyVertices_quiet _))
      intro _
      apply Steady.bind (.of_quiet (.requireFinite c))
      intro _
      exact ih

theorem shrink_steady (b : Nat) :
    Steady (shrink t p : SearchM σ α n (State α n) Unit) (shrink (t.withBudget b) p) := by
  apply Steady.bind (.of_quiet vertices_quiet)
  intro v
  cases v with
  | nil => exact .of_quiet (.throw _)
  | cons best rest => exact shrinkAt_steady b best.point _

theorem expand_steady (b : Nat) (middle xr : Point α n) (fr : α) :
    Steady (expand t p middle xr fr : SearchM σ α n (State α n) Unit)
      (expand (t.withBudget b) p middle xr fr) := by
  apply Steady.bind (.of_quiet (note_quiet .expand))
  intro _
  apply Steady.bind (.of_quiet (.use p.expansion))
  intro expansion
  apply Steady.bind (.trial t b _)
  intro fe
  exact .of_quiet (.ite (modifyVertices_quiet _) (modifyVertices_quiet _))

theorem contract_steady (b : Nat) (worst : Sample α n) (middle xr : Point α n) (fr : α) :
    Steady (contract t p worst middle xr fr : SearchM σ α n (State α n) Unit)
      (contract (t.withBudget b) p worst middle xr fr) := by
  apply Steady.bind (.of_quiet (note_quiet _))
  intro _
  apply Steady.bind (.of_quiet (.use p.contraction))
  intro contraction
  apply Steady.bind (.trial t b _)
  intro fc
  apply Steady.ite
  · exact .of_quiet (modifyVertices_quiet _)
  · exact .bind (.of_quiet (note_quiet .shrink)) fun _ => shrink_steady b

omit [Scalar α] in
theorem endDegenerate_quiet (fr : α) :
    Quiet (endDegenerate fr : SearchM σ α n (State α n) Unit) (endDegenerate fr) := by
  apply Quiet.bind (note_quiet .degenerate)
  intro _
  apply Quiet.ledger_bind
  intro L events
  apply Quiet.bind (.stop (.degenerate fr L.evaluations))
  intro _
  apply Quiet.bind (.report (.tied (.degenerate fr L.evaluations)))
  intro _
  exact .throw .ended

theorem round_steady (b : Nat) :
    Steady (round t p : SearchM σ α n (State α n) Unit) (round (t.withBudget b) p) := by
  apply Steady.bind (.of_quiet vertices_quiet)
  intro v
  cases v.corners? with
  | none => exact .of_quiet (.throw _)
  | some c =>
    apply Steady.bind (.of_quiet (.use p.reflection))
    intro reflection
    apply Steady.bind (.trial t b _)
    intro fr
    have hend : Steady
        (do modifyVertices (·.ranked); SearchM.endRound : SearchM σ α n (State α n) Unit)
        (do modifyVertices (·.ranked); SearchM.endRound) :=
      .of_quiet (.bind (modifyVertices_quiet _) fun _ => .endRound)
    apply Steady.ite
    · apply Steady.bind (.of_quiet (note_quiet .reflect))
      intro _
      exact .bind (.of_quiet (modifyVertices_quiet _)) fun _ => hend
    · apply Steady.ite
      · exact .bind (expand_steady b _ _ fr) fun _ => hend
      · apply Steady.ite
        · exact .bind (contract_steady b _ _ _ fr) fun _ => hend
        · exact .bind (.of_quiet (endDegenerate_quiet fr)) fun _ => hend

theorem addVertex_steady (b : Nat) (x : Point α n) :
    Steady (addVertex t x : SearchM σ α n (State α n) Unit) (addVertex (t.withBudget b) x) := by
  apply Steady.bind (.evaluate t b x)
  intro c
  apply Steady.of_quiet
  apply Quiet.bind (modifyVertices_quiet _)
  intro _
  exact .bind (.requireFinite c) fun _ => .pure ()

variable [DrawSource σ α]

theorem foundAround_steady (b : Nat) (first : Point α n) (k : Nat) :
    Steady (foundAround t p first k : SearchM σ α n (State α n) Unit)
      (foundAround (t.withBudget b) p first k) := by
  induction k with
  | zero => exact .of_quiet (.pure ())
  | succ k ih =>
    apply Steady.bind (.of_quiet (.drawOr (Draw.normalPoint t.region first p.spread)))
    intro x
    exact .bind (addVertex_steady b x) fun _ => ih

theorem found_steady (b : Nat) :
    Steady (found t p : SearchM σ α n (State α n) Unit) (found (t.withBudget b) p) := by
  apply Steady.bind (.of_quiet (.drawOr (firstVertex t p)))
  intro first
  apply Steady.bind (.of_quiet (modifyVertices_quiet _))
  intro _
  apply Steady.bind (addVertex_steady b first)
  intro _
  apply Steady.bind (foundAround_steady b first n)
  intro _
  exact .of_quiet (modifyVertices_quiet _)

theorem run_outlasts (hb : t.budget ≤ b) :
    Outlasts t True (run t p : SearchM σ α n (State α n) Unit) (run (t.withBudget b) p) := by
  apply Outlasts.after (found_steady b)
  intro _
  exact (Paced.roundsWithin hb (.of_steady (round_steady b)) (.inr ⟨hb, trivial⟩)).toOutlasts

end Simplex

/-! ## 5. Partition -/

namespace Partition

variable {p : Params α}

theorem probe_steady (b : Nat) (c : Cell α n) (delta : α) (sides : List (Fin n)) :
    Steady (probe t c delta sides : SearchM σ α n (State α n) (List (Probe α n)))
      (probe (t.withBudget b) c delta sides) := by
  induction sides with
  | nil => exact .of_quiet (.pure [])
  | cons i rest ih =>
    apply Steady.bind (.trial t b _)
    intro fl
    apply Steady.bind (.trial t b _)
    intro fr
    exact .bind ih fun others => .of_quiet (.pure _)

theorem divide_steady (b place : Nat) :
    Steady (divide t place : SearchM σ α n (State α n) Unit) (divide (t.withBudget b) place) := by
  apply Steady.bind (.of_quiet .own)
  intro s
  cases s.cells[place]? with
  | none => exact .of_quiet (.throw _)
  | some c =>
    apply Steady.bind (.of_quiet (.use (thirdOf c.fewestCuts)))
    intro delta
    apply Steady.bind (probe_steady b c delta c.longestSides)
    intro probes
    exact .of_quiet (.modifyOwn _)

theorem enterRecord_quiet :
    Quiet (enterRecord : SearchM σ α n (State α n) Unit) enterRecord := by
  apply Quiet.ledger_bind
  intro L events
  apply Quiet.bind .own
  intro s
  apply Quiet.bind (.modifyOwn _)
  intro _
  exact .report _

theorem checkTarget_quiet :
    Quiet (checkTarget p : SearchM σ α n (State α n) Bool) (checkTarget p) := by
  apply Quiet.bind .own
  intro s
  cases p.target with
  | none => exact .pure false
  | some target =>
    cases leastCost s.cells with
    | none => exact .pure false
    | some least =>
      apply Quiet.bind (.use target)
      intro v
      apply Quiet.ite
      · exact .bind (.stop _) fun _ => .pure true
      · exact .pure false

theorem select_quiet : Quiet (select p : SearchM σ α n (State α n) (List Nat)) (select p) := by
  apply Quiet.bind .own
  intro s
  apply Quiet.bind (.use _)
  rintro ⟨places, fallback⟩
  exact .bind (.reportIf fallback _) fun _ => .pure places

theorem divideAll_paced (hb : t.budget ≤ b) (places : List Nat) :
    Paced t False (divideAll t places : SearchM σ α n (State α n) Unit)
      (divideAll (t.withBudget b) places) := by
  induction places with
  | nil => exact .of_quiet (.pure ())
  | cons place rest ih =>
    apply Paced.withinBudget_bind hb
    · exact .after (divide_steady b place) fun _ => ih.toOutlasts
    · exact .of_quiet (.pure ())

theorem checkIterations_paced (hb : t.budget ≤ b) :
    Paced t False (checkIterations t p : SearchM σ α n (State α n) Bool)
      (checkIterations (t.withBudget b) p) := by
  unfold checkIterations
  cases p.iterations with
  | none => exact .of_quiet (.pure false)
  | some cap =>
    apply Paced.ledger_bind
    intro L events
    apply Paced.ite
    · exact .bind (.stopWithin hb _) fun _ => .of_quiet (.pure true)
    · exact .of_quiet (.pure false)

theorem iterate_paced (hb : t.budget ≤ b) :
    Paced t False (iterate t p : SearchM σ α n (State α n) Bool) (iterate (t.withBudget b) p) := by
  apply Paced.bind (.of_quiet .own)
  intro s
  apply Paced.bind (.of_quiet (.require s.initialized .notInitialized))
  intro _
  apply Paced.ledger_bind
  intro L events
  apply Paced.bind (.withinBudget hb)
  intro within
  apply Paced.ite
  · exact .of_quiet (.pure false)
  · apply Paced.bind (.of_quiet select_quiet)
    intro places
    apply Paced.bind (divideAll_paced hb places)
    intro _
    apply Paced.bind (.of_quiet .endRound)
    intro _
    apply Paced.bind (.of_quiet enterRecord_quiet)
    intro _
    apply Paced.bind (.of_quiet checkTarget_quiet)
    intro reached
    apply Paced.ite
    · exact .of_quiet (.pure false)
    · apply Paced.bind (checkIterations_paced hb)
      intro capped
      exact .ite (.of_quiet (.pure false)) (.withinBudget hb)

theorem setUp_steady (b : Nat) :
    Steady (setUp t p : SearchM σ α n (State α n) Bool) (setUp (t.withBudget b) p) := by
  apply Steady.bind (.of_quiet .own)
  intro s
  apply Steady.bind (.of_quiet (.require (!s.initialized) .alreadyInitialized))
  intro _
  apply Steady.bind (.of_quiet .markRunning)
  intro _
  apply Steady.bind (.of_quiet (.modifyOwn _))
  intro _
  apply Steady.bind (.trial t b _)
  intro v
  apply Steady.of_quiet
  apply Quiet.bind (.modifyOwn _)
  intro _
  apply Quiet.bind enterRecord_quiet
  intro _
  exact .bind checkTarget_quiet fun reached => .pure (!reached)

theorem run_outlasts (hb : t.budget ≤ b) :
    Outlasts t True (run t p : SearchM σ α n (State α n) Unit) (run (t.withBudget b) p) := by
  apply Outlasts.after (setUp_steady b)
  intro goesOn
  apply Paced.toOutlasts
  apply Paced.ite
  · exact .repeatWhile (iterate_paced hb) (Nat.succ_le_succ hb)
  · exact .of_quiet (.pure ())

end Partition

end BoxSearch
