import BoxSearch.HillClimb
import BoxSearch.Proofs.Order.Mirror
import BoxSearch.Rotation
import BoxSearch.Swarm

/-!
# Methods that compare costs one by one

A climb, rotating axes and a swarm look at costs only to see which of two is smaller.  What they keep
is rescaled with the costs in it, and as long as the search runs these are finite.
-/

namespace BoxSearch

open SearchM

variable {σ α : Type} [Scalar α] [DrawSource σ α] {n : Nat} {t : Task α n} {g : Cost α → Cost α}

/-! ## 1. Hill climbing -/

namespace HillClimb

theorem climb_mirrors (hg : Cost.KeepsOrder g) (stepSize : α) (fuel : Nat) (x : Point α n) (fx : α) :
    Mirrors g (fun _ _ => True) (climb t stepSize fuel x fx : SearchM σ α n Unit Unit)
      (climb (t.rescale g) stepSize fuel x (Cost.onValue g fx)) fun _ _ _ _ => True := by
  induction fuel generalizing x fx with
  | zero => exact .pure fun _ _ hk => hk
  | succ fuel ih =>
    apply Mirrors.bind_same .withinBudget
    intro b
    apply Mirrors.ite Iff.rfl
    · apply Mirrors.bind_same (.draw (neighbour t stepSize x))
      intro y
      apply Mirrors.trial_bind hg
      intro fy
      apply Mirrors.seq .endRound
      exact .ite (hg.onValue_lt_iff fy fx) (ih y fy) (ih x fx)
    · exact .pure fun _ _ hk => hk

theorem run_mirrors (hg : Cost.KeepsOrder g) (p : Params α) :
    Mirrors g (fun _ _ => True) (run t p : SearchM σ α n Unit Unit) (run (t.rescale g) p)
      fun _ _ _ _ => True := by
  apply Mirrors.bind_same (.draw (start t))
  intro x
  apply Mirrors.bind_same (.use p.stepSize)
  intro stepSize
  apply Mirrors.trial_bind hg
  intro fx
  exact climb_mirrors hg stepSize t.budget x fx

end HillClimb

/-! ## 2. Rotating axes -/

namespace Rotation

variable {p : Params α}

section

omit [DrawSource σ α]

theorem bestInCube_mirrors :
    Mirrors g Eq (bestInCube t : SearchM σ α n (State α n) (Point α n)) (bestInCube (t.rescale g))
      fun x x' s s' => x' = x ∧ s = s' := by
  apply Mirrors.ledger_bind
  intro L
  have hbest : (L.rescale g).best = L.best.map (Best.rescale g) := rfl
  rw [hbest]
  cases L.best with
  | none => exact .throw _
  | some b => exact .pure fun _ _ hk => ⟨rfl, hk⟩

omit [Scalar α] in
theorem frame_mirrors :
    Mirrors g Eq (frame : SearchM σ α n (State α n) (Frame α n)) frame
      fun f f' s s' => f' = f ∧ s = s' := by
  apply Mirrors.own_bind
  rintro s _ rfl
  cases s.frame with
  | none => exact .throw _
  | some f => exact .pure fun _ _ hk => ⟨rfl, hk⟩

omit [Scalar α] in
theorem setFrame_mirrors (f : Frame α n) :
    Mirrors g Eq (setFrame f : SearchM σ α n (State α n) Unit) (setFrame f) fun _ _ => Eq :=
  .modifyOwn fun _ _ hk => by rw [hk]

theorem turn_mirrors :
    Mirrors g Eq (turn t p : SearchM σ α n (State α n) Unit) (turn (t.rescale g) p)
      fun _ _ => Eq := by
  apply Mirrors.bind_same frame_mirrors
  intro f
  apply Mirrors.bind_same bestInCube_mirrors
  intro best
  apply Mirrors.bind_same (.use p.stepSize)
  intro stepSize
  apply Mirrors.seq (setFrame_mirrors _)
  apply Mirrors.bind_same (.use (checkMoves t (f.turn stepSize best)))
  intro _
  apply Mirrors.seq (setFrame_mirrors _)
  apply Mirrors.seq .endRound
  apply Mirrors.ledger_bind
  intro L
  exact .report rfl

theorem turnIfExhausted_mirrors :
    Mirrors g Eq (turnIfExhausted t p : SearchM σ α n (State α n) Unit)
      (turnIfExhausted (t.rescale g) p) fun _ _ => Eq := by
  apply Mirrors.bind_same frame_mirrors
  intro f
  exact .ite Iff.rfl turn_mirrors (.pure fun _ _ hk => hk)

/-- A value beats the best cost exactly if the rescaled value beats the rescaled best cost. -/
theorem below_ofOption (hg : Cost.KeepsOrder g) (v : α) (o : Option α) :
    (Cost.finite (Cost.onValue g v)).below (Cost.ofOption (o.map (Cost.onValue g))) =
      (Cost.finite v).below (Cost.ofOption o) := by
  cases o with
  | none => rfl
  | some w => exact decide_eq_decide.mpr (hg.onValue_lt_iff v w)

theorem tryMove_mirrors (hg : Cost.KeepsOrder g) :
    Mirrors g Eq (tryMove t p : SearchM σ α n (State α n) Unit) (tryMove (t.rescale g) p)
      fun _ _ => Eq := by
  apply Mirrors.bind_same frame_mirrors
  intro f
  cases f.moves[f.direction]? with
  | none => exact .throw _
  | some move =>
    apply Mirrors.bind_same bestInCube_mirrors
    intro best
    apply Mirrors.ledger_bind
    intro L
    apply Mirrors.trial_bind hg
    intro v
    rw [Account.bestCost_rescale, below_ofOption hg]
    apply Mirrors.bind_same (.use _)
    intro next
    exact setFrame_mirrors _

theorem step_mirrors (hg : Cost.KeepsOrder g) :
    Mirrors g Eq (step t p : SearchM σ α n (State α n) Bool) (step (t.rescale g) p)
      fun b b' s s' => b' = b ∧ s = s' := by
  apply Mirrors.own_bind
  rintro s _ rfl
  apply Mirrors.seq (.require rfl _)
  apply Mirrors.ledger_bind
  intro L
  apply Mirrors.bind_same .withinBudget
  intro b
  have hover : (L.rescale g).phase.isOver = L.phase.isOver := Phase.isOver_rescale g L.phase
  rw [hover]
  apply Mirrors.ite Iff.rfl
  · exact .pure fun _ _ hk => ⟨rfl, hk⟩
  · apply Mirrors.seq turnIfExhausted_mirrors
    apply Mirrors.seq (tryMove_mirrors hg)
    exact .withinBudget

end

theorem setUp_mirrors (hg : Cost.KeepsOrder g) :
    Mirrors g Eq (setUp t p : SearchM σ α n (State α n) Unit) (setUp (t.rescale g) p)
      fun _ _ => Eq := by
  apply Mirrors.own_bind
  rintro s _ rfl
  apply Mirrors.seq (.require rfl _)
  apply Mirrors.seq .markRunning
  apply Mirrors.seq (.modifyOwn fun _ _ hk => congrArg _ hk)
  apply Mirrors.bind_same (.drawOr (start t p))
  intro x
  apply Mirrors.trial_bind hg
  intro v
  apply Mirrors.bind_same (.use p.stepSize)
  intro stepSize
  apply Mirrors.bind_same bestInCube_mirrors
  intro best
  exact setFrame_mirrors _

theorem run_mirrors (hg : Cost.KeepsOrder g) :
    Mirrors g Eq (run t p : SearchM σ α n (State α n) Unit) (run (t.rescale g) p)
      fun _ _ => Eq := by
  apply Mirrors.seq (setUp_mirrors hg)
  exact .repeatWhile (step_mirrors hg) _

end Rotation

/-! ## 3. Swarms -/

namespace Swarm

variable {p : Params α}

section

omit [Scalar α] [DrawSource σ α]

/-- The particle with its two costs rescaled. -/
def Particle.rescale (g : Cost α → Cost α) (q : Particle α n) : Particle α n :=
  { q with cost := g q.cost, bestCost := g q.bestCost }

/-- The costs of the particle are finite. -/
def Particle.IsFinite (q : Particle α n) : Prop := q.cost.IsFinite ∧ q.bestCost.IsFinite

/-- The swarm with every cost rescaled. -/
def State.rescale (g : Cost α → Cost α) (s : State α n) : State α n :=
  { s with costs := s.costs.map g, particles := s.particles.map (Particle.rescale g) }

/-- A swarm with finite costs, next to the rescaled one. -/
structure Alike (g : Cost α → Cost α) (s s' : State α n) : Prop where
  rescaled : s' = s.rescale g
  costs : ∀ c ∈ s.costs, c.IsFinite
  particles : ∀ q ∈ s.particles, q.IsFinite

theorem informantPoints_rescale (g : Cost α → Cost α) (p : Params α) (swarm : List (Particle α n))
    (i : Nat) :
    informantPoints p (swarm.map (Particle.rescale g)) i = informantPoints p swarm i := by
  have hpoint (j : Nat) : (swarm.map (Particle.rescale g))[j]?.map (·.bestPoint) =
      swarm[j]?.map (·.bestPoint) := by
    rw [List.getElem?_map, Option.map_map]
    rfl
  unfold informantPoints
  simp only [hpoint]

theorem situation_rescale (g : Cost α → Cost α) (p : Params α) (swarm : List (Particle α n))
    (i : Nat) (q : Particle α n) (best : Point α n) :
    situation p (swarm.map (Particle.rescale g)) i (q.rescale g) best =
      situation p swarm i q best := by
  unfold situation
  rw [informantPoints_rescale]
  rfl

theorem Alike.set {s s' : State α n} (h : Alike g s s') (i : Nat) {q : Particle α n}
    (hq : q.IsFinite) :
    Alike g { s with particles := s.particles.set i q }
      { s' with particles := s'.particles.set i (q.rescale g) } where
  rescaled := by
    rw [h.rescaled]
    unfold State.rescale
    dsimp only
    rw [List.map_set]
  costs := h.costs
  particles q' hq' := by
    rcases List.mem_or_eq_of_mem_set hq' with hold | rfl
    · exact h.particles q' hold
    · exact hq

theorem modifyParticles_mirrors {f f' : List (Particle α n) → List (Particle α n)}
    (hf : ∀ qs, (∀ q ∈ qs, q.IsFinite) →
      f' (qs.map (Particle.rescale g)) = (f qs).map (Particle.rescale g) ∧ ∀ q ∈ f qs, q.IsFinite) :
    Mirrors g (Alike g) (modifyParticles f : SearchM σ α n (State α n) Unit) (modifyParticles f')
      fun _ _ => Alike g := by
  apply Mirrors.modifyOwn
  rintro s _ ⟨rfl, hcosts, hparticles⟩
  obtain ⟨hmap, hfinite⟩ := hf s.particles hparticles
  refine ⟨?_, hcosts, hfinite⟩
  show { s.rescale g with particles := f' (s.particles.map (Particle.rescale g)) } = _
  rw [hmap]
  rfl

end

omit [DrawSource σ α] in
theorem refresh_rescale (hg : Cost.KeepsOrder g) {q : Particle α n} (hq : q.IsFinite) :
    (q.rescale g).refresh = q.refresh.rescale g := by
  have hbelow : (g q.cost).below (g q.bestCost) = q.cost.below q.bestCost :=
    hg.below_apply hq.1 hq.2
  unfold Particle.refresh
  by_cases h : q.cost.below q.bestCost = true
  · rw [if_pos h, if_pos (show (q.rescale g).cost.below (q.rescale g).bestCost = true from
      hbelow.trans h)]
    rfl
  · rw [if_neg h, if_neg (show ¬(q.rescale g).cost.below (q.rescale g).bestCost = true from
      fun h' => h (hbelow.symm.trans h'))]

omit [DrawSource σ α] in
theorem isFinite_refresh {q : Particle α n} (hq : q.IsFinite) : q.refresh.IsFinite := by
  unfold Particle.refresh
  split
  · exact ⟨hq.1, hq.1⟩
  · exact hq

omit [DrawSource σ α] in
theorem refreshAt_mirrors (hg : Cost.KeepsOrder g) (i : Nat) :
    Mirrors g (Alike g)
      (modifyParticles (·.modify i Particle.refresh) : SearchM σ α n (State α n) Unit)
      (modifyParticles (·.modify i Particle.refresh)) fun _ _ => Alike g := by
  -- Place by place: only at place `i` there is something to compare, and both costs are finite.
  apply modifyParticles_mirrors
  intro qs hqs
  constructor
  · apply List.ext_getElem?
    intro j
    rw [List.getElem?_map, List.getElem?_modify, List.getElem?_modify, List.getElem?_map]
    cases hq : qs[j]? with
    | none => rfl
    | some q =>
      have hfinite : q.IsFinite := hqs q (List.mem_of_getElem? hq)
      by_cases hij : i = j
      · simp only [hij, if_true, Option.map_some, Option.map_eq_map, refresh_rescale hg hfinite]
      · simp only [hij, if_false, Option.map_some, Option.map_eq_map]
  · intro q hq
    obtain ⟨j, hj⟩ := List.getElem?_of_mem hq
    rw [List.getElem?_modify] at hj
    obtain ⟨q', hq', rfl⟩ := Option.map_eq_some_iff.mp hj
    have hfinite : q'.IsFinite := hqs q' (List.mem_of_getElem? hq')
    split
    · exact isFinite_refresh hfinite
    · exact hfinite

omit [DrawSource σ α] in
theorem refreshAll_mirrors (hg : Cost.KeepsOrder g) :
    Mirrors g (Alike g)
      (modifyParticles (·.map Particle.refresh) : SearchM σ α n (State α n) Unit)
      (modifyParticles (·.map Particle.refresh)) fun _ _ => Alike g := by
  apply modifyParticles_mirrors
  intro qs hqs
  constructor
  · rw [List.map_map, List.map_map]
    apply List.map_congr_left
    intro q hq
    exact refresh_rescale hg (hqs q hq)
  · intro q hq
    obtain ⟨q', hq', rfl⟩ := List.mem_map.mp hq
    exact isFinite_refresh (hqs q' hq')

theorem moveParticle_mirrors (hg : Cost.KeepsOrder g) (swarm : List (Particle α n)) (i : Nat)
    {q : Particle α n} (hq : q.IsFinite) (target : Point α n) :
    Mirrors g (Alike g)
      (moveParticle t p swarm i q target : SearchM σ α n (State α n) Unit)
      (moveParticle (t.rescale g) p (swarm.map (Particle.rescale g)) i (q.rescale g) target)
      fun _ _ => Alike g := by
  -- The move depends on positions only; the new cost is kept before it may end the search.
  unfold moveParticle
  rw [situation_rescale]
  apply Mirrors.bind_same (.use _)
  intro s
  apply Mirrors.bind_same (.drawOr (move t p s))
  rintro ⟨v, x⟩
  apply Mirrors.keep_bind hg x
  · intro w s s' hs
    have hmoved : (q.rescale g).moved v x (.finite (Cost.onValue g w)) =
        (q.moved v x (.finite w)).rescale g := by
      rw [← hg.apply_finite]
      rfl
    rw [hmoved]
    exact hs.set i ⟨⟨w, rfl⟩, hq.2⟩
  · intro _
    exact .ite Iff.rfl (refreshAt_mirrors hg i) (.pure fun _ _ hk => hk)

theorem advance_mirrors (hg : Cost.KeepsOrder g) (best : Option (Point α n)) (i : Nat) :
    Mirrors g (Alike g) (advance t p best i : SearchM σ α n (State α n) Unit)
      (advance (t.rescale g) p best i) fun _ _ => Alike g := by
  apply Mirrors.seq .requireBudget
  apply Mirrors.own_bind
  rintro s _ ⟨rfl, hcosts, hparticles⟩
  have hget : (s.rescale g).particles[i]? = s.particles[i]?.map (Particle.rescale g) :=
    List.getElem?_map
  dsimp only
  rw [hget]
  cases hq : s.particles[i]? with
  | none => exact .throw _
  | some q =>
    have hfinite : q.IsFinite := hparticles q (List.mem_of_getElem? hq)
    cases best with
    | none =>
      have htarget : Mirrors g (Alike g) (bestPoint q.point : SearchM σ α n (State α n) (Point α n))
          (bestPoint q.point) fun x x' k k' => x' = x ∧ Alike g k k' := by
        apply Mirrors.ledger_bind
        intro L
        have hbest : (L.rescale g).best.map (·.point) = L.best.map (·.point) := Option.map_map ..
        rw [hbest]
        exact .pure fun _ _ hk => ⟨rfl, hk⟩
      exact .bind_same htarget fun target => moveParticle_mirrors hg _ i hfinite target
    | some target => exact moveParticle_mirrors hg _ i hfinite target

theorem advanceAll_mirrors (hg : Cost.KeepsOrder g) (best : Option (Point α n))
    (places : List Nat) :
    Mirrors g (Alike g) (advanceAll t p best places : SearchM σ α n (State α n) Unit)
      (advanceAll (t.rescale g) p best places) fun _ _ => Alike g := by
  induction places with
  | nil => exact .pure fun _ _ hk => hk
  | cons i rest ih => exact .seq (advance_mirrors hg best i) ih

theorem sweep_mirrors (hg : Cost.KeepsOrder g) :
    Mirrors g (Alike g) (sweep t p : SearchM σ α n (State α n) Unit) (sweep (t.rescale g) p)
      fun _ _ => Alike g := by
  apply Mirrors.own_bind
  rintro s _ ⟨rfl, hcosts, hparticles⟩
  have hlength : (s.rescale g).particles.length = s.particles.length := List.length_map _
  dsimp only
  rw [hlength]
  cases p.refresh with
  | afterSweep =>
    apply Mirrors.ledger_bind
    intro L
    have hbest : (L.rescale g).best.map (·.point) = L.best.map (·.point) := Option.map_map ..
    rw [hbest]
    apply Mirrors.seq (advanceAll_mirrors hg _ _)
    apply Mirrors.seq (refreshAll_mirrors hg)
    exact .endRound
  | afterMove =>
    apply Mirrors.seq (advanceAll_mirrors hg _ _)
    exact .endRound

omit [Scalar α] [DrawSource σ α] in
/-- The particles that start from rescaled costs are the rescaled particles. -/
theorem map_starting (points : List (Point α n)) (costs : List (Cost α))
    (velocities : List (Point α n)) :
    List.zipWith (fun (x, c) v => Particle.starting x c v) (points.zip (costs.map g)) velocities =
      (List.zipWith (fun (x, c) v => Particle.starting x c v) (points.zip costs) velocities).map
        (Particle.rescale g) := by
  rw [List.zip_map_right, List.zipWith_map_left, List.map_zipWith]
  rfl

omit [Scalar α] [DrawSource σ α] in
theorem isFinite_starting {points velocities : List (Point α n)} {costs : List (Cost α)}
    (hcosts : ∀ c ∈ costs, c.IsFinite) {q : Particle α n}
    (hq : q ∈ List.zipWith (fun (x, c) v => Particle.starting x c v) (points.zip costs)
      velocities) : q.IsFinite := by
  rw [← List.map_uncurry_zip_eq_zipWith] at hq
  obtain ⟨⟨⟨x, c⟩, v⟩, hmem, rfl⟩ := List.mem_map.mp hq
  have hc : c.IsFinite := hcosts c (List.of_mem_zip (List.of_mem_zip hmem).1).2
  exact ⟨hc, hc⟩

theorem launch_mirrors (hg : Cost.KeepsOrder g) (S : State α n → State α n → Prop) :
    Mirrors g S (launch t p : SearchM σ α n (State α n) Unit) (launch (t.rescale g) p)
      fun _ _ => Alike g := by
  apply Mirrors.bind_same (.drawOr (Population.points t p.size p.sampling p.spread))
  intro points
  have hnone : Alike g ({ chosen := points } : State α n) { chosen := points } := by
    constructor
    · rfl
    · intro c hc
      exact absurd hc List.not_mem_nil
    · intro q hq
      exact absurd hq List.not_mem_nil
  apply Mirrors.seq (.setOwn hnone)
  have hkeep (x : Point α n) (v : α) (s s' : State α n) (hs : Alike g s s') :
      Alike g { s with costs := s.costs ++ [.finite v] }
        { s' with costs := s'.costs ++ [.finite (Cost.onValue g v)] } := by
    obtain ⟨rfl, hcosts, hparticles⟩ := hs
    constructor
    · unfold State.rescale
      dsimp only
      rw [List.map_append, List.map_singleton, hg.apply_finite]
    · intro c hc
      rcases List.mem_append.mp hc with hc | hc
      · exact hcosts c hc
      · exact ⟨v, List.mem_singleton.mp hc⟩
    · exact hparticles
  apply Mirrors.seq (.evaluateAll hg hkeep points)
  apply Mirrors.own_bind
  rintro s _ ⟨rfl, hcosts, hparticles⟩
  apply Mirrors.bind_same (.drawOr (launchVelocities t p points.length))
  intro velocities
  apply Mirrors.seq
  · apply modifyParticles_mirrors
    intro _ _
    constructor
    · exact map_starting points s.costs velocities
    · intro q hq
      exact isFinite_starting hcosts hq
  · exact .report rfl

theorem run_mirrors (hg : Cost.KeepsOrder g) (S : State α n → State α n → Prop) :
    Mirrors g S (run t p : SearchM σ α n (State α n) Unit) (run (t.rescale g) p)
      fun _ _ => Alike g :=
  .seq (launch_mirrors hg S) (.roundsWithin (sweep_mirrors hg) t.budget)

end Swarm

end BoxSearch
