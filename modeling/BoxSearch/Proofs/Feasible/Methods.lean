import Mathlib
import BoxSearch.Proofs.Feasible.Confined
import BoxSearch.Proofs.Feasible.Offspring
import BoxSearch.Proofs.Partition.Steps

/-!
# Methods that repair what they compute

Five methods bring whatever they compute into the region right before they evaluate it: they are
confined wherever they stand, and nothing has to be known of the state that they keep.
-/

namespace BoxSearch

variable {σ : Type} [DrawSource σ ℝ] {n : ℕ} {t : Task ℝ n}

/-! ## 1. Hill climbing -/

namespace HillClimb

/-- The setting of a climb is a number. -/
structure Params.IsNumeric {α : Type} (p : Params α) : Prop where
  stepSize : p.stepSize.IsNumber

theorem climb_confined (stepSize : ℝ) (fuel : ℕ) (x : Point ℝ n) (fx : ℝ) :
    Confined t (fun _ => True) (climb t stepSize fuel x fx : SearchM σ ℝ n Unit Unit)
      fun _ _ => True := by
  induction fuel generalizing x fx with
  | zero => exact .pure fun _ hk => hk
  | succ fuel ih =>
    apply Confined.bind .withinBudget
    intro b
    apply Confined.ite
    · intro _
      apply Confined.draw_bind (neighbour_gives t stepSize x)
      intro y hy
      apply Confined.bind (.trial hy)
      intro fy
      exact .bind .endRound fun _ => .ite (fun _ => ih y fy) fun _ => ih x fx
    · intro _
      exact .pure fun _ hk => hk

theorem run_confined (hstarts : ∀ x ∈ t.starts, t.region.Feasible x) {p : Params ℝ}
    (hp : p.IsNumeric) :
    Confined t (fun _ => True) (run t p : SearchM σ ℝ n Unit Unit) fun _ _ => True := by
  apply Confined.draw_bind (start_gives hstarts)
  intro x hx
  apply Confined.bind (.useNumber hp.stepSize)
  intro stepSize
  exact .bind (.trial hx) fun fx => climb_confined stepSize t.budget x fx

end HillClimb

/-! ## 2. Swarms -/

namespace Swarm

variable {p : Params ℝ}

omit [DrawSource σ ℝ] in
theorem modifyParticles_confined (f : List (Particle ℝ n) → List (Particle ℝ n)) :
    Confined t (fun _ => True) (modifyParticles f : SearchM σ ℝ n (State ℝ n) Unit)
      fun _ _ => True :=
  .modifyOwn fun _ hk => hk

omit [DrawSource σ ℝ] in
theorem bestPoint_confined (x : Point ℝ n) :
    Confined t (fun _ => True) (bestPoint x : SearchM σ ℝ n (State ℝ n) (Point ℝ n))
      fun _ _ => True :=
  .bind .ledger fun _ => .pure fun _ hk => hk

theorem situation_isOrdinary (swarm : List (Particle ℝ n)) (i : ℕ) (q : Particle ℝ n)
    (best : Point ℝ n) (f : Fault ℝ) (hf : situation p swarm i q best = .error f) :
    f.IsOrdinary := by
  unfold situation at hf
  cases h : informantPoints p swarm i with
  | none =>
    rw [h] at hf
    rw [← Except.error.inj hf]
    trivial
  | some informants =>
    rw [h] at hf
    exact nomatch hf

theorem moveParticle_confined (hp : p.IsNumeric) (swarm : List (Particle ℝ n)) (i : ℕ)
    (q : Particle ℝ n) (target : Point ℝ n) :
    Confined t (fun _ => True)
      (moveParticle t p swarm i q target : SearchM σ ℝ n (State ℝ n) Unit) fun _ _ => True := by
  apply Confined.bind (.use (situation_isOrdinary swarm i q target))
  intro s
  apply Confined.drawOr_bind (move_meets t hp (hp.factorsMeet _ _))
  intro vx hx
  apply Confined.bind (.evaluate hx)
  intro c
  apply Confined.bind (modifyParticles_confined _)
  intro _
  apply Confined.bind (.requireFinite c)
  intro _
  exact .ite (fun _ => modifyParticles_confined _) fun _ => .pure fun _ hk => hk

theorem advance_confined (hp : p.IsNumeric) (best : Option (Point ℝ n)) (i : ℕ) :
    Confined t (fun _ => True) (advance t p best i : SearchM σ ℝ n (State ℝ n) Unit)
      fun _ _ => True := by
  apply Confined.bind .requireBudget
  intro _
  apply Confined.own_bind
  intro s _
  dsimp only
  cases s.particles[i]? with
  | none => exact .throw (e := .fault .noSuchMember) trivial
  | some q =>
    cases best with
    | none =>
      apply Confined.bind (bestPoint_confined q.point)
      intro target
      exact moveParticle_confined hp _ i q target
    | some target => exact moveParticle_confined hp _ i q target

theorem advanceAll_confined (hp : p.IsNumeric) (best : Option (Point ℝ n)) (places : List ℕ) :
    Confined t (fun _ => True) (advanceAll t p best places : SearchM σ ℝ n (State ℝ n) Unit)
      fun _ _ => True := by
  induction places with
  | nil => exact .pure fun _ hk => hk
  | cons i rest ih => exact .bind (advance_confined hp best i) fun _ => ih

theorem sweep_confined (hp : p.IsNumeric) :
    Confined t (fun _ => True) (sweep t p : SearchM σ ℝ n (State ℝ n) Unit) fun _ _ => True := by
  apply Confined.own_bind
  intro s _
  cases p.refresh with
  | afterSweep =>
    apply Confined.bind .ledger
    intro L
    apply Confined.bind (advanceAll_confined hp _ _)
    intro _
    exact .bind (modifyParticles_confined _) fun _ => .endRound
  | afterMove => exact .bind (advanceAll_confined hp _ _) fun _ => .endRound

theorem launch_confined (hstarts : ∀ x ∈ t.starts, t.region.Feasible x) (hp : p.IsNumeric) :
    Confined t (fun _ => True) (launch t p : SearchM σ ℝ n (State ℝ n) Unit) fun _ _ => True := by
  apply Confined.drawOr_bind (Population.points_meets hstarts _ _ hp.spread)
  intro points hpoints
  apply Confined.bind (.setOwn (J := fun _ => True) trivial)
  intro _
  apply Confined.bind (.evaluateAll (I := fun _ => True) (fun _ _ _ hk => hk) hpoints)
  intro _
  apply Confined.own_bind
  intro s _
  apply Confined.drawOr_bind (launchVelocities_meets t hp _)
  intro velocities _
  exact .bind (modifyParticles_confined _) fun _ => .report _

theorem run_confined (hstarts : ∀ x ∈ t.starts, t.region.Feasible x) (hp : p.IsNumeric) :
    Confined t (fun _ => True) (run t p : SearchM σ ℝ n (State ℝ n) Unit) fun _ _ => True :=
  .bind (launch_confined hstarts hp) fun _ => .roundsWithin (sweep_confined hp) _

end Swarm

/-! ## 3. Simplexes -/

namespace Simplex

/-- Every setting of the search is a number. -/
structure Params.IsNumeric {α : Type} (p : Params α) : Prop where
  reflection : p.reflection.IsNumber
  expansion : p.expansion.IsNumber
  contraction : p.contraction.IsNumber
  shrinkage : p.shrinkage.IsNumber
  spread : p.spread.IsNumber

variable {p : Params ℝ}

section

omit [DrawSource σ ℝ]

theorem vertices_confined :
    Confined t (fun _ => True) (vertices : SearchM σ ℝ n (State ℝ n) (Vertices ℝ n))
      fun _ _ => True := by
  apply Confined.own_bind
  intro s _
  cases s.vertices with
  | nil => exact .throw (e := .fault .absent) trivial
  | cons v vs => exact .pure fun _ hk => hk

theorem modifyVertices_confined (f : Vertices ℝ n → Vertices ℝ n) :
    Confined t (fun _ => True) (modifyVertices f : SearchM σ ℝ n (State ℝ n) Unit)
      fun _ _ => True :=
  .modifyOwn fun _ hk => hk

theorem note_confined (move : Move) :
    Confined t (fun _ => True) (note move : SearchM σ ℝ n (State ℝ n) Unit) fun _ _ => True :=
  .modifyOwn fun _ hk => hk

theorem shrinkAt_confined (hp : p.IsNumeric) (best : Point ℝ n) (places : List ℕ) :
    Confined t (fun _ => True) (shrinkAt t p best places : SearchM σ ℝ n (State ℝ n) Unit)
      fun _ _ => True := by
  induction places with
  | nil => exact .pure fun _ hk => hk
  | cons k rest ih =>
    apply Confined.bind vertices_confined
    intro v
    cases v[k]? with
    | none => exact .throw (e := .fault .noSuchMember) trivial
    | some s =>
      apply Confined.bind (.useNumber hp.shrinkage)
      intro shrinkage
      apply Confined.bind (modifyVertices_confined _)
      intro _
      apply Confined.bind (.evaluate (t.region.feasible_repair _))
      intro c
      exact .bind (modifyVertices_confined _) fun _ => .bind (.requireFinite c) fun _ => ih

theorem shrink_confined (hp : p.IsNumeric) :
    Confined t (fun _ => True) (shrink t p : SearchM σ ℝ n (State ℝ n) Unit) fun _ _ => True := by
  apply Confined.bind vertices_confined
  intro v
  cases v with
  | nil => exact .throw (e := .fault .absent) trivial
  | cons best others => exact shrinkAt_confined hp _ _

theorem expand_confined (hp : p.IsNumeric) (middle xr : Point ℝ n) (fr : ℝ) :
    Confined t (fun _ => True) (expand t p middle xr fr : SearchM σ ℝ n (State ℝ n) Unit)
      fun _ _ => True := by
  apply Confined.bind (note_confined .expand)
  intro _
  apply Confined.bind (.useNumber hp.expansion)
  intro expansion
  apply Confined.bind (.trial (t.region.feasible_repair _))
  intro fe
  exact .ite (fun _ => modifyVertices_confined _) fun _ => modifyVertices_confined _

theorem contract_confined (hp : p.IsNumeric) (worst : Sample ℝ n) (middle xr : Point ℝ n) (fr : ℝ) :
    Confined t (fun _ => True) (contract t p worst middle xr fr : SearchM σ ℝ n (State ℝ n) Unit)
      fun _ _ => True := by
  apply Confined.bind (note_confined _)
  intro _
  apply Confined.bind (.useNumber hp.contraction)
  intro contraction
  apply Confined.bind (.trial (t.region.feasible_repair _))
  intro fc
  apply Confined.ite
  · intro _
    exact modifyVertices_confined _
  · intro _
    exact .bind (note_confined .shrink) fun _ => shrink_confined hp

theorem endDegenerate_confined (fr : ℝ) :
    Confined t (fun _ => True) (endDegenerate fr : SearchM σ ℝ n (State ℝ n) Unit)
      fun _ _ => True := by
  apply Confined.bind (note_confined .degenerate)
  intro _
  apply Confined.bind .ledger
  intro L
  exact .bind (.stop _) fun _ => .bind (.report _) fun _ => .throw (e := .ended) trivial

theorem round_confined (hp : p.IsNumeric) :
    Confined t (fun _ => True) (round t p : SearchM σ ℝ n (State ℝ n) Unit) fun _ _ => True := by
  apply Confined.bind vertices_confined
  intro v
  cases v.corners? with
  | none => exact .throw (e := .fault .noSuchMember) trivial
  | some c =>
    apply Confined.bind (.useNumber hp.reflection)
    intro reflection
    apply Confined.bind (.trial (t.region.feasible_repair _))
    intro fr
    have hend : Confined t (fun _ => True) (do
        modifyVertices (·.ranked)
        SearchM.endRound : SearchM σ ℝ n (State ℝ n) Unit) fun _ _ => True :=
      .bind (modifyVertices_confined _) fun _ => .endRound
    apply Confined.ite
    · intro _
      exact .bind (note_confined .reflect) fun _ => .bind (modifyVertices_confined _) fun _ => hend
    · intro _
      apply Confined.ite
      · intro _
        exact .bind (expand_confined hp _ _ _) fun _ => hend
      · intro _
        apply Confined.ite
        · intro _
          exact .bind (contract_confined hp _ _ _ _) fun _ => hend
        · intro _
          exact .bind (endDegenerate_confined fr) fun _ => hend

theorem addVertex_confined {x : Point ℝ n} (hx : t.region.Feasible x) :
    Confined t (fun _ => True) (addVertex t x : SearchM σ ℝ n (State ℝ n) Unit)
      fun _ _ => True := by
  apply Confined.bind (.evaluate hx)
  intro c
  apply Confined.bind (modifyVertices_confined _)
  intro _
  exact .bind (.requireFinite c) fun _ => .pure fun _ hk => hk

end

theorem foundAround_confined (hp : p.IsNumeric) (first : Point ℝ n) (k : ℕ) :
    Confined t (fun _ => True) (foundAround t p first k : SearchM σ ℝ n (State ℝ n) Unit)
      fun _ _ => True := by
  induction k with
  | zero => exact .pure fun _ hk => hk
  | succ k ih =>
    apply Confined.drawOr_bind (Draw.normalPoint_meets t.region first hp.spread)
    intro x hx
    exact .bind (addVertex_confined hx) fun _ => ih

theorem run_confined (hstarts : ∀ x ∈ t.starts, t.region.Feasible x) (hp : p.IsNumeric) :
    Confined t (fun _ => True) (run t p : SearchM σ ℝ n (State ℝ n) Unit) fun _ _ => True := by
  have hfound : Confined t (fun _ => True) (found t p : SearchM σ ℝ n (State ℝ n) Unit)
      fun _ _ => True := by
    apply Confined.drawOr_bind (firstVertex_meets hstarts hp.spread)
    intro first hfirst
    apply Confined.bind (modifyVertices_confined _)
    intro _
    apply Confined.bind (addVertex_confined hfirst)
    intro _
    exact .bind (foundAround_confined hp first n) fun _ => modifyVertices_confined _
  exact .bind hfound fun _ => .roundsWithin (round_confined hp) _

end Simplex

/-! ## 4. Rotating axes -/

namespace Rotation

/-- Every setting of the search is a number. -/
structure Params.IsNumeric {α : Type} (p : Params α) : Prop where
  stretch : p.stretch.IsNumber
  shorten : p.shorten.IsNumber
  stepSize : p.stepSize.IsNumber

variable {p : Params ℝ}

section

omit [DrawSource σ ℝ]

theorem bestInCube_confined :
    Confined t (fun _ => True) (bestInCube t : SearchM σ ℝ n (State ℝ n) (Point ℝ n))
      fun _ _ => True := by
  apply Confined.bind .ledger
  intro L
  cases L.best with
  | none => exact .throw (e := .fault .absent) trivial
  | some b => exact .pure fun _ hk => hk

theorem frame_confined :
    Confined t (fun _ => True) (frame : SearchM σ ℝ n (State ℝ n) (Frame ℝ n)) fun _ _ => True := by
  apply Confined.own_bind
  intro s _
  cases s.frame with
  | none => exact .throw (e := .fault .absent) trivial
  | some f => exact .pure fun _ hk => hk

theorem setFrame_confined (f : Frame ℝ n) :
    Confined t (fun _ => True) (setFrame f : SearchM σ ℝ n (State ℝ n) Unit) fun _ _ => True :=
  .modifyOwn fun _ hk => hk

theorem checkMoves_isOrdinary (f : Frame ℝ n) (e : Fault ℝ) (he : checkMoves t f = .error e) :
    e.IsOrdinary := by
  -- Axes may be skewed or have a row of zeros; neither is a fault of a point.
  unfold checkMoves at he
  split_ifs at he
  cases hs : Orthonormal.skewness f.moves with
  | error g =>
    have hcheck : Orthonormal.check 1e-8 f.moves = .error g := by
      unfold Orthonormal.check
      rw [hs]
      rfl
    rw [hcheck] at he
    unfold Orthonormal.skewness at hs
    split_ifs at hs
    rw [← Except.error.inj he, ← Except.error.inj hs]
    trivial
  | ok error =>
    have hcheck : Orthonormal.check 1e-8 f.moves =
        if 1e-8 < error then .error (.skewed 1e-8 error) else .ok () := by
      unfold Orthonormal.check
      rw [hs]
      rfl
    rw [hcheck] at he
    split_ifs at he
    rw [← Except.error.inj he]
    trivial

theorem turn_confined (hp : p.IsNumeric) :
    Confined t (fun _ => True) (turn t p : SearchM σ ℝ n (State ℝ n) Unit) fun _ _ => True := by
  apply Confined.bind frame_confined
  intro f
  apply Confined.bind bestInCube_confined
  intro best
  apply Confined.bind (.useNumber hp.stepSize)
  intro stepSize
  apply Confined.bind (setFrame_confined _)
  intro _
  apply Confined.bind (.use (checkMoves_isOrdinary _))
  intro _
  apply Confined.bind (setFrame_confined _)
  intro _
  exact .bind .endRound fun _ => .bind .ledger fun L => .report _

theorem turnIfExhausted_confined (hp : p.IsNumeric) :
    Confined t (fun _ => True) (turnIfExhausted t p : SearchM σ ℝ n (State ℝ n) Unit)
      fun _ _ => True :=
  .bind frame_confined fun _ => .ite (fun _ => turn_confined hp) fun _ => .pure fun _ hk => hk

theorem tried_isNumber (hp : p.IsNumeric) (f : Frame ℝ n) (better : Bool) :
    (f.tried p better).IsNumber := by
  obtain ⟨stretch, hstretch⟩ := hp.stretch
  obtain ⟨shorten, hshorten⟩ := hp.shorten
  unfold Frame.tried
  rw [hstretch, hshorten]
  cases better
  · exact ⟨f.fail shorten, rfl⟩
  · exact ⟨f.succeed stretch, rfl⟩

theorem tryMove_confined (hp : p.IsNumeric) :
    Confined t (fun _ => True) (tryMove t p : SearchM σ ℝ n (State ℝ n) Unit) fun _ _ => True := by
  apply Confined.bind frame_confined
  intro f
  cases f.moves[f.direction]? with
  | none => exact .throw (e := .fault .noSuchMember) trivial
  | some move =>
    apply Confined.bind bestInCube_confined
    intro best
    apply Confined.bind .ledger
    intro L
    apply Confined.bind (.trial (t.region.feasible_repair _))
    intro v
    exact .bind (.useNumber (tried_isNumber hp f _)) fun next => setFrame_confined _

theorem step_confined (hp : p.IsNumeric) :
    Confined t (fun _ => True) (step t p : SearchM σ ℝ n (State ℝ n) Bool) fun _ _ => True := by
  apply Confined.own_bind
  intro s _
  apply Confined.bind (.require (f := .notInitialized) _ trivial)
  intro _
  apply Confined.bind .ledger
  intro L
  apply Confined.bind .withinBudget
  intro b
  apply Confined.ite
  · intro _
    exact .pure fun _ hk => hk
  · intro _
    apply Confined.bind (turnIfExhausted_confined hp)
    intro _
    exact .bind (tryMove_confined hp) fun _ => .withinBudget

end

theorem setUp_confined (hstarts : ∀ x ∈ t.starts, t.region.Feasible x) (hp : p.IsNumeric) :
    Confined t (fun _ => True) (setUp t p : SearchM σ ℝ n (State ℝ n) Unit) fun _ _ => True := by
  apply Confined.own_bind
  intro s _
  apply Confined.bind (.require (f := .alreadyInitialized) _ trivial)
  intro _
  apply Confined.bind .markRunning
  intro _
  apply Confined.bind (.modifyOwn (J := fun _ => True) fun _ hk => hk)
  intro _
  apply Confined.drawOr_bind (start_meets hstarts hp.stepSize)
  intro x hx
  apply Confined.bind (.trial hx)
  intro _
  apply Confined.bind (.useNumber hp.stepSize)
  intro stepSize
  apply Confined.bind bestInCube_confined
  intro best
  exact setFrame_confined _

theorem run_confined (hstarts : ∀ x ∈ t.starts, t.region.Feasible x) (hp : p.IsNumeric) :
    Confined t (fun _ => True) (run t p : SearchM σ ℝ n (State ℝ n) Unit) fun _ _ => True :=
  .bind (setUp_confined hstarts hp) fun _ => .repeatWhile (step_confined hp) _

end Rotation

/-! ## 5. Partitions -/

namespace Partition

/-- The settings of the search that are given are numbers. -/
structure Params.IsNumeric {α : Type} (p : Params α) : Prop where
  ep : p.ep.IsNumber
  target : ∀ q ∈ p.target, q.IsNumber

variable {p : Params ℝ}

omit [DrawSource σ ℝ]

/-- Here a point is clamped first and rounded afterwards. -/
theorem feasible_inRegion (r : Region ℝ n) (u : Point ℝ n) : r.Feasible (inRegion r u) := by
  unfold inRegion Region.ofUnit
  rw [r.roundIntegers_clamp]
  exact r.feasible_repair _

theorem probe_confined (c : Cell ℝ n) (delta : ℝ) (dimensions : List (Fin n)) :
    Confined t (fun _ => True)
      (probe t c delta dimensions : SearchM σ ℝ n (State ℝ n) (List (Probe ℝ n)))
      fun _ _ => True := by
  induction dimensions with
  | nil => exact .pure fun _ hk => hk
  | cons i rest ih =>
    apply Confined.bind (.trial (feasible_inRegion _ _))
    intro fl
    apply Confined.bind (.trial (feasible_inRegion _ _))
    intro fr
    exact .bind ih fun others => .pure fun _ hk => hk

theorem thirdOf_isNumber (cuts : ℤ) : Usable.IsNumber (thirdOf cuts : Quantity ℝ) := ⟨_, rfl⟩

theorem divide_confined (place : ℕ) :
    Confined t (fun _ => True) (divide t place : SearchM σ ℝ n (State ℝ n) Unit)
      fun _ _ => True := by
  apply Confined.own_bind
  intro s _
  cases s.cells[place]? with
  | none => exact .throw (e := .fault .noSuchMember) trivial
  | some c =>
    apply Confined.bind (.useNumber (thirdOf_isNumber _))
    intro delta
    exact .bind (probe_confined c delta _) fun probes => .modifyOwn fun _ hk => hk

theorem divideAll_confined (places : List ℕ) :
    Confined t (fun _ => True) (divideAll t places : SearchM σ ℝ n (State ℝ n) Unit)
      fun _ _ => True := by
  induction places with
  | nil => exact .pure fun _ hk => hk
  | cons place rest ih =>
    apply Confined.bind .withinBudget
    intro b
    apply Confined.ite
    · intro _
      exact .bind (divide_confined place) fun _ => ih
    · intro _
      exact .pure fun _ hk => hk

theorem enterRecord_confined :
    Confined t (fun _ => True) (enterRecord : SearchM σ ℝ n (State ℝ n) Unit) fun _ _ => True :=
  .bind .ledger fun _ => .own_bind fun _ _ => .bind (.modifyOwn fun _ hk => hk) fun _ => .report _

theorem checkTarget_confined (hp : p.IsNumeric) :
    Confined t (fun _ => True) (checkTarget p : SearchM σ ℝ n (State ℝ n) Bool)
      fun _ _ => True := by
  apply checkTarget_rule
  · exact fun _ hd => hd
  · exact fun _ _ _ hd _ _ _ => hd
  · intro d f _ htarget
    obtain ⟨target, hnumber⟩ := hp.target _ htarget
    exact nomatch hnumber

theorem selectFor_isOrdinary {ep : Quantity ℝ} (h : ep.IsNumber) (cells : List (Sighting ℝ))
    (f : Fault ℝ) (hf : Hull.selectFor ep cells = .error f) : f.IsOrdinary := by
  obtain ⟨e, rfl⟩ := h
  rw [Usable.eq_of_ofOption_eq_error hf]
  trivial

theorem select_confined (hp : p.IsNumeric) :
    Confined t (fun _ => True) (select p : SearchM σ ℝ n (State ℝ n) (List ℕ)) fun _ _ => True := by
  apply select_rule
  · exact fun _ _ hd _ => hd
  · exact fun _ _ hd _ => hd
  · exact fun _ f hd hf => ⟨hd.1, selectFor_isOrdinary hp.ep _ f hf⟩

theorem checkIterations_confined :
    Confined t (fun _ => True) (checkIterations t p : SearchM σ ℝ n (State ℝ n) Bool)
      fun _ _ => True := by
  apply checkIterations_rule
  · exact fun _ hd _ => hd
  · exact fun _ _ hd _ _ _ => hd
  · exact fun _ _ hd _ _ _ => hd

theorem iterate_confined (hp : p.IsNumeric) :
    Confined t (fun _ => True) (iterate t p : SearchM σ ℝ n (State ℝ n) Bool) fun _ _ => True := by
  apply Confined.own_bind
  intro s _
  apply Confined.bind (.require (f := .notInitialized) _ trivial)
  intro _
  apply Confined.bind .ledger
  intro L
  apply Confined.bind .withinBudget
  intro b
  apply Confined.ite
  · intro _
    exact .pure fun _ hk => hk
  · intro _
    apply Confined.bind (select_confined hp)
    intro places
    apply Confined.bind (divideAll_confined places)
    intro _
    apply Confined.bind .endRound
    intro _
    apply Confined.bind enterRecord_confined
    intro _
    apply Confined.bind (checkTarget_confined hp)
    intro b
    apply Confined.ite
    · intro _
      exact .pure fun _ hk => hk
    · intro _
      apply Confined.bind checkIterations_confined
      intro b
      apply Confined.ite
      · intro _
        exact .pure fun _ hk => hk
      · intro _
        exact .withinBudget

theorem setUp_confined (hp : p.IsNumeric) :
    Confined t (fun _ => True) (setUp t p : SearchM σ ℝ n (State ℝ n) Bool) fun _ _ => True := by
  apply Confined.own_bind
  intro s _
  apply Confined.bind (.require (f := .alreadyInitialized) _ trivial)
  intro _
  apply Confined.bind .markRunning
  intro _
  apply Confined.bind (.modifyOwn (J := fun _ => True) fun _ hk => hk)
  intro _
  apply Confined.bind (.trial (feasible_inRegion _ _))
  intro v
  apply Confined.bind (.modifyOwn (J := fun _ => True) fun _ hk => hk)
  intro _
  exact .bind enterRecord_confined fun _ => .bind (checkTarget_confined hp) fun _ =>
    .pure fun _ hk => hk

theorem run_confined (hp : p.IsNumeric) :
    Confined t (fun _ => True) (run t p : SearchM σ ℝ n (State ℝ n) Unit) fun _ _ => True := by
  apply Confined.bind (setUp_confined hp)
  intro b
  apply Confined.ite
  · intro _
    exact .repeatWhile (iterate_confined hp) _
  · intro _
    exact .pure fun _ hk => hk

end Partition

end BoxSearch
