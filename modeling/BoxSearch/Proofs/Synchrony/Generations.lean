import Mathlib
import BoxSearch.Proofs.Feasible.Solve
import BoxSearch.Proofs.Synchrony.Abreast

/-!
# Generations are synchronous

What is evaluated during a generation is settled by the state at its start and by the draws: the
costs that are answered meanwhile come into play with the next generation only.  A genetic search
selects parents from the old population until the new one is complete, children of an evolution are
ranked after the last one is born, and a swarm that remembers at the end of a sweep draws its
particles to the best point that was known before the sweep.
-/

namespace BoxSearch

open SearchM

variable {σ α : Type} [Scalar α] {n : ℕ} {t : Task α n} {o : Objective α n}

/-! ## 1. Genetic search -/

namespace Genetic

variable {p : Params α} {k : ℕ} {S : List (Sample α n) → List (Sample α n) → Prop}

/-- How many children are enrolled is a matter of their number, not of their costs. -/
theorem enroll_abreast (children : List (Point α n)) {next next' : List (Sample α n)}
    (h : next'.length = next.length) :
    Abreast k S
      (enroll t p children next : SearchM σ α n (List (Sample α n)) (List (Sample α n)))
      (enroll (t.answeredBy o) p children next')
      fun next next' s s' => next'.length = next.length ∧ S s s' := by
  induction children generalizing next next' with
  | nil => exact .pure fun _ _ hs => ⟨h, hs⟩
  | cons x rest ih =>
    unfold enroll
    rw [h]
    apply Abreast.ite
    · apply Abreast.requireBudget_bind
      apply Abreast.trial_bind
      intro v v'
      apply ih
      rw [List.length_append, List.length_append, h]
      rfl
    · exact .pure fun _ _ hs => ⟨h, hs⟩

omit [Scalar α] in
theorem memberAt_bind {β β' : Type} {Q : β → β' → List (Sample α n) → List (Sample α n) → Prop}
    (population : List (Sample α n)) (i : ℕ)
    {f : Point α n → SearchM σ α n (List (Sample α n)) β}
    {f' : Point α n → SearchM σ α n (List (Sample α n)) β'}
    (hf : ∀ x, Abreast k S (f x) (f' x) Q) :
    Abreast k S (memberAt population i >>= f) (memberAt population i >>= f') Q := by
  unfold memberAt
  cases population[i]? with
  | none => exact .throw _
  | some s => exact hf s.point

variable [DrawSource σ α]

/-- All parents are members of the old population. -/
theorem fillGeneration_abreast (lengths : Vector ℕ n) (population : List (Sample α n))
    (wheel : List ℕ) (fuel : ℕ) {next next' : List (Sample α n)} (h : next'.length = next.length) :
    Abreast k S
      (fillGeneration t p lengths population wheel fuel next :
        SearchM σ α n (List (Sample α n)) (List (Sample α n)))
      (fillGeneration (t.answeredBy o) p lengths population wheel fuel next')
      fun next next' s s' => next'.length = next.length ∧ S s s' := by
  induction fuel generalizing next next' with
  | zero => exact .pure fun _ _ hs => ⟨h, hs⟩
  | succ fuel ih =>
    unfold fillGeneration
    rw [h]
    apply Abreast.ite
    · apply Abreast.draw_bind
      intro i
      apply memberAt_bind
      intro a
      apply Abreast.draw_bind
      intro j
      apply memberAt_bind
      intro b
      apply Abreast.drawOr_bind
      rintro ⟨childA, childB⟩
      apply (enroll_abreast [childA, childB] h).bind
      · exact fun next => fillGeneration_orderly lengths population wheel fuel next
      · exact fun next => fillGeneration_orderly lengths population wheel fuel next
      intro next next'
      apply Abreast.assume (fun _ _ hs => hs.1)
      intro hnext
      exact (ih hnext).mono (fun _ _ hs => hs.2) fun _ _ _ _ hs => hs
    · exact .pure fun _ _ hs => ⟨h, hs⟩

theorem generation_abreast (lengths : Vector ℕ n) :
    Abreast k Eq (generation t p lengths : SearchM σ α n (List (Sample α n)) Unit)
      (generation (t.answeredBy o) p lengths) fun _ _ _ _ => True := by
  apply Abreast.bind_parallel (.modifyOwn (T := Eq) fun s s' h => congrArg (Cost.rank (·.cost)) h)
  intro _ _
  apply Abreast.own_bind
  rintro population _ rfl
  apply (fillGeneration_abreast lengths population _ p.size rfl).bind (t := t)
  · exact fun next => .bind .setOwn fun _ => .endRound
  · exact fun next => .bind (t := t.answeredBy o) .setOwn fun _ => .endRound
  intro next next'
  exact .bind_parallel (.setOwn (T := fun _ _ => True) trivial) fun _ _ => .of_parallel .endRound

end Genetic

variable [DrawSource σ α]

/-! ## 2. Evolution -/

namespace Evolution

variable {p : Params α} {k : ℕ} {S : State α n → State α n → Prop}

theorem bear_abreast (rates : Rates α) (population : List (Member α n)) :
    Abreast k S (bear t p rates population : SearchM σ α n (State α n) (Member α n))
      (bear (t.answeredBy o) p rates population) fun _ _ => S := by
  apply Abreast.drawOr_bind
  intro places
  cases membersAt population places with
  | none => exact .throw _
  | some parents =>
    apply Abreast.use_bind
    intro _
    apply Abreast.drawOr_bind
    intro child
    exact Abreast.trial_bind _ fun _ _ => .pure fun _ _ hs => hs

/-- The parents of all children are those from the start of the generation. -/
theorem bearAll_abreast (rates : Rates α) (population : List (Member α n)) (j : ℕ) :
    Abreast k S
      (bearAll t p rates population j : SearchM σ α n (State α n) (List (Member α n)))
      (bearAll (t.answeredBy o) p rates population j) fun _ _ => S := by
  induction j with
  | zero => exact .pure fun _ _ hs => hs
  | succ j ih =>
    apply Abreast.withinBudget_bind
    intro within
    apply Abreast.ite
    · apply (bear_abreast rates population).bind
      · exact fun _ => .bind (bearAll_orderly rates population j) fun _ => .pure
      · exact fun _ => .bind (bearAll_orderly rates population j) fun _ => .pure
      intro _ _
      exact ih.bind (t := t) (u := t) (fun _ => .pure) (fun _ => .pure) fun _ _ =>
        .pure fun _ _ hs => hs
    · exact .pure fun _ _ hs => hs

theorem generation_abreast (rates : Rates α) :
    Abreast k Eq (generation t p rates : SearchM σ α n (State α n) Unit)
      (generation (t.answeredBy o) p rates) fun _ _ _ _ => True := by
  apply Abreast.own_bind
  rintro s _ rfl
  apply (bearAll_abreast rates s.population p.children).bind (t := t) (u := t)
  · exact fun _ => .bind .modifyOwn fun _ => .endRound
  · exact fun _ => .bind .modifyOwn fun _ => .endRound
  intro _ _
  exact .bind_parallel (.modifyOwn (T := fun _ _ => True) fun _ _ _ => trivial) fun _ _ =>
    .of_parallel .endRound

end Evolution

/-! ## 3. Swarms -/

namespace Swarm

variable {p : Params α} {k : ℕ}

/-- What a particle is moved by: where it is, how it moves, and what it remembers. -/
def Particle.bearing (q : Particle α n) : Point α n × Point α n × Point α n :=
  (q.point, q.velocity, q.bestPoint)

/-- The swarms differ in costs at most. -/
def SameBearings (s s' : State α n) : Prop :=
  s'.particles.map Particle.bearing = s.particles.map Particle.bearing

omit [Scalar α] [DrawSource σ α] in
theorem informantPoints_of_bearings {swarm swarm' : List (Particle α n)}
    (h : swarm'.map Particle.bearing = swarm.map Particle.bearing) (i : ℕ) :
    informantPoints p swarm' i = informantPoints p swarm i := by
  have hremembered (j : ℕ) : swarm'[j]?.map (·.bestPoint) = swarm[j]?.map (·.bestPoint) := by
    have hj := congrArg (fun bearings => bearings[j]?.map (·.2.2)) h
    simp only [List.getElem?_map, Option.map_map] at hj
    exact hj
  unfold informantPoints
  simp only [hremembered]

omit [Scalar α] [DrawSource σ α] in
theorem situation_of_bearings {swarm swarm' : List (Particle α n)} {q q' : Particle α n}
    (h : swarm'.map Particle.bearing = swarm.map Particle.bearing) (hq : q'.bearing = q.bearing)
    (i : ℕ) (best : Point α n) : situation p swarm' i q' best = situation p swarm i q best := by
  obtain ⟨hpoint, hvelocity, hremembered⟩ : q'.point = q.point ∧ q'.velocity = q.velocity ∧
      q'.bestPoint = q.bestPoint := by
    unfold Particle.bearing at hq
    exact ⟨congrArg (·.1) hq, congrArg (·.2.1) hq, congrArg (·.2.2) hq⟩
  unfold situation
  rw [informantPoints_of_bearings h, hpoint, hvelocity, hremembered]

/-- A move shows the cost of the particle only, as long as nothing is remembered. -/
theorem moveParticle_abreast (hp : p.refresh = .afterSweep) {swarm swarm' : List (Particle α n)}
    {q q' : Particle α n} (h : swarm'.map Particle.bearing = swarm.map Particle.bearing)
    (hq : q'.bearing = q.bearing) (i : ℕ) (target : Point α n) :
    Abreast k SameBearings
      (moveParticle t p swarm i q target : SearchM σ α n (State α n) Unit)
      (moveParticle (t.answeredBy o) p swarm' i q' target) fun _ _ => SameBearings := by
  unfold moveParticle
  rw [situation_of_bearings h hq]
  apply Abreast.use_bind
  intro s
  apply Abreast.drawOr_bind
  rintro ⟨v, x⟩
  apply Abreast.keep_bind x (T := SameBearings)
  · intro c c' s s' hs
    have hremembered : q'.bestPoint = q.bestPoint := congrArg (·.2.2) hq
    unfold SameBearings
    rw [List.map_set, List.map_set, hs]
    unfold Particle.bearing Particle.moved
    rw [hremembered]
  · intro _ _
    rw [hp]
    exact .pure fun _ _ hs => hs

theorem advance_abreast (hp : p.refresh = .afterSweep) (best : Point α n) (i : ℕ) :
    Abreast k SameBearings (advance t p (some best) i : SearchM σ α n (State α n) Unit)
      (advance (t.answeredBy o) p (some best) i) fun _ _ => SameBearings := by
  apply Abreast.requireBudget_bind
  apply Abreast.own_bind
  intro s s' hs
  have hi := congrArg (fun bearings => bearings[i]?) hs
  simp only [List.getElem?_map] at hi
  dsimp only
  cases hq : s.particles[i]? with
  | none =>
    rw [hq, Option.map_none, Option.map_eq_none_iff] at hi
    rw [hi]
    exact .throw _
  | some q =>
    rw [hq, Option.map_some] at hi
    obtain ⟨q', hq', hbearing⟩ := Option.map_eq_some_iff.mp hi
    rw [hq']
    exact moveParticle_abreast hp hs hbearing i best

theorem advanceAll_abreast (hp : p.refresh = .afterSweep) (best : Point α n) (places : List ℕ) :
    Abreast k SameBearings
      (advanceAll t p (some best) places : SearchM σ α n (State α n) Unit)
      (advanceAll (t.answeredBy o) p (some best) places) fun _ _ => SameBearings := by
  induction places with
  | nil => exact .pure fun _ _ hs => hs
  | cons i rest ih =>
    exact (advance_abreast hp best i).bind (fun _ => advanceAll_orderly (some best) rest)
      (fun _ => advanceAll_orderly (some best) rest) fun _ _ => ih

/-- A sweep reads the best point before the first particle is moved. -/
theorem run_sweep (hp : p.refresh = .afterSweep) (c : Course σ α n (State α n)) :
    (sweep t p).run c =
      (advanceAll t p (c.ledger.best.map (·.point)) (List.range c.own.particles.length) >>= fun _ =>
        modifyParticles (·.map Particle.refresh) >>= fun _ => SearchM.endRound).run c := by
  unfold sweep
  rw [hp]
  rfl

theorem sweep_alongside (hp : p.refresh = .afterSweep) {c : Course σ α n (State α n)}
    (hc : c.ledger.best.isSome ∨ c.own.particles = []) (hk : k ≤ c.ledger.trace.length)
    (hfinite : ((sweep t p).run c).2.ledger.IsFiniteFrom k)
    (hfinite' : ((sweep (t.answeredBy o) p).run c).2.ledger.IsFiniteFrom k) :
    Alongside k (fun _ _ _ _ => True) ((sweep t p).run c) ((sweep (t.answeredBy o) p).run c) := by
  rw [run_sweep hp] at hfinite hfinite' ⊢
  rw [run_sweep hp]
  let remember : SearchM σ α n (State α n) Unit :=
    modifyParticles (·.map Particle.refresh) >>= fun _ => SearchM.endRound
  have hend : Abreast k SameBearings remember remember fun _ _ _ _ => True :=
    .bind_parallel (.modifyOwn (T := fun _ _ => True) fun _ _ _ => trivial) fun _ _ =>
      .of_parallel .endRound
  have hstart : Level k SameBearings c c := ⟨hk, .refl _, rfl, rfl⟩
  rcases hc with hbest | hnone
  · obtain ⟨best, hbest⟩ := Option.isSome_iff_exists.mp hbest
    rw [hbest] at hfinite hfinite' ⊢
    apply Abreast.bind (t := t) (u := t) (advanceAll_abreast hp best.point _)
      (fun _ => .bind (modifyParticles_orderly _) fun _ => .endRound)
      (fun _ => .bind (modifyParticles_orderly _) fun _ => .endRound)
      (fun _ _ => hend) c c hstart hfinite hfinite'
  · -- There is no particle to be moved.
    rw [hnone] at hfinite hfinite' ⊢
    exact hend c c hstart hfinite hfinite'

/-! ## 4. Sweeps of a run start from a best point -/

omit [DrawSource σ α] in
theorem evaluateAll_best {κ : Type} (keep : Sample α n → κ → κ) (xs : List (Point α n)) :
    Answers (fun _ => True) (Population.evaluateAll t keep xs : SearchM σ α n κ Unit)
      fun _ c => c.ledger.best.isSome ∨ xs = [] := by
  cases xs with
  | nil => exact .pure fun _ _ => .inr rfl
  | cons x rest =>
    apply Triple.bind (Q := fun _ _ => True)
      (.requireBudget (fun _ _ _ => trivial) fun _ _ _ => trivial)
    intro _
    -- The first answer is the best one so far, and later ones do not take it away.
    apply Answers.keep_bind (Q := fun _ c => c.ledger.best.isSome)
    · intro v c _ _
      exact Account.isSome_improve c.ledger.best x v
    · intro v
      exact Triple.weaken (Orderly.evaluateAll (t := t) keep rest).answers_best
        (fun _ _ hbest => .inl hbest) fun _ _ _ => trivial

theorem launch_best :
    Answers (fun _ => True) (launch t p : SearchM σ α n (State α n) Unit)
      fun _ c => c.ledger.best.isSome ∨ c.own.particles = [] := by
  apply Answers.drawOr_bind (fun _ _ _ => trivial)
  intro points
  apply Triple.bind (Q := fun _ _ => True) (.setOwn fun _ _ => trivial)
  intro _
  apply Triple.bind (evaluateAll_best _ points)
  intro _
  apply Triple.bind (Q := fun _ c => c.ledger.best.isSome ∨ points = []) (.own fun _ hc => hc)
  intro s
  apply Answers.drawOr_bind (fun _ _ hc => hc)
  intro velocities
  apply Triple.bind (Q := fun _ c => c.ledger.best.isSome ∨ c.own.particles = [])
  · apply Triple.modifyOwn
    rintro c (hbest | rfl)
    · exact .inl hbest
    · exact .inr rfl
  · exact fun _ => .modifyLedger fun _ hc => hc

theorem sweep_best (hp : p.refresh = .afterSweep) :
    Answers (fun c => c.ledger.best.isSome ∨ c.own.particles = [])
      (sweep t p : SearchM σ α n (State α n) Unit)
      fun _ c => c.ledger.best.isSome ∨ c.own.particles = [] := by
  rintro c (hbest | hnone)
  · exact Triple.weaken (sweep_orderly (t := t) (p := p)).answers_best (fun _ _ h => .inl h)
      (fun _ _ _ => trivial) c hbest
  · rw [run_sweep hp, hnone]
    have hparticles : c.own.particles.map Particle.refresh = [] := by rw [hnone, List.map_nil]
    exact .inr hparticles

/-- A swarm that was set going, and `k` sweeps of it. -/
def upTo (t : Task α n) (p : Params α) (k : ℕ) : SearchM σ α n (State α n) Unit := do
  launch t p
  SearchM.roundsWithin t (sweep t p) k

theorem upTo_budget : (upTo t p t.budget : SearchM σ α n (State α n) Unit) = run t p := rfl

theorem upTo_best (hp : p.refresh = .afterSweep) (j : ℕ) :
    Answers (fun _ => True) (upTo t p j : SearchM σ α n (State α n) Unit)
      fun _ c => c.ledger.best.isSome ∨ c.own.particles = [] :=
  launch_best.bind fun _ => .roundsWithin (sweep_best hp) j

end Swarm

/-! ## 5. Generations -/

/-- Whatever two objectives answer during a step, as long as it is finite, they are asked for the same
points in the same order. -/
def Synchronous {κ : Type} (t : Task α n) (step : Task α n → SearchM σ α n κ Unit)
    (c : Course σ α n κ) : Prop :=
  ∀ o o' : Objective α n,
    let d := ((step (t.answeredBy o)).run c).2
    let d' := ((step (t.answeredBy o')).run c).2
    d.ledger.IsFiniteFrom c.ledger.trace.length → d'.ledger.IsFiniteFrom c.ledger.trace.length →
      (d'.ledger.trace.drop c.ledger.trace.length).map (·.1) =
        (d.ledger.trace.drop c.ledger.trace.length).map (·.1)

omit [Scalar α] [DrawSource σ α] in
theorem SearchM.Alongside.points {κ β β' : Type} {k : ℕ} {Q : β → β' → κ → κ → Prop}
    {r : Except (Halt α) β × Course σ α n κ} {r' : Except (Halt α) β' × Course σ α n κ}
    (h : Alongside k Q r r') :
    (r'.2.ledger.trace.drop k).map (·.1) = (r.2.ledger.trace.drop k).map (·.1) := by
  have hcalls : r.2.ledger.SameCalls r'.2.ledger := by
    obtain ⟨_ | _, c⟩ := r <;> obtain ⟨_ | _, c'⟩ := r'
    · exact h.2
    · exact False.elim h
    · exact False.elim h
    · exact h.calls
  rw [List.map_drop, List.map_drop, hcalls.points]

/-- The points of a generation depend on the state at its start and on the draws.  The sweeps of a
swarm that remembers at their end do so once there is a best point, and a run has one before its first
sweep. -/
theorem generations_synchronous (t : Task α n) :
    (∀ (p : Genetic.Params α) (lengths : Vector ℕ n) (c : Course σ α n (List (Sample α n))),
        Synchronous t (Genetic.generation · p lengths) c) ∧
      (∀ (p : Evolution.Params α) (rates : Evolution.Rates α)
          (c : Course σ α n (Evolution.State α n)),
        Synchronous t (Evolution.generation · p rates) c) ∧
      ∀ p : Swarm.Params α, p.refresh = .afterSweep →
        (∀ c : Course σ α n (Swarm.State α n), c.ledger.best.isSome ∨ c.own.particles = [] →
          Synchronous t (Swarm.sweep · p) c) ∧
        ∀ k (c d : Course σ α n (Swarm.State α n)), (Swarm.upTo t p k).run c = (.ok (), d) →
          d.ledger.best.isSome ∨ d.own.particles = [] := by
  refine ⟨?_, ?_, ?_⟩
  · intro p lengths c o o' d d' hfinite hfinite'
    exact (Genetic.generation_abreast (t := t.answeredBy o) (o := o') lengths c c
      ⟨le_rfl, .refl _, rfl, rfl⟩ hfinite hfinite').points
  · intro p rates c o o' d d' hfinite hfinite'
    exact (Evolution.generation_abreast (t := t.answeredBy o) (o := o') rates c c
      ⟨le_rfl, .refl _, rfl, rfl⟩ hfinite hfinite').points
  · intro p hp
    constructor
    · intro c hc o o' d d' hfinite hfinite'
      exact (Swarm.sweep_alongside (t := t.answeredBy o) (o := o') hp hc le_rfl hfinite
        hfinite').points
    · intro k c d hd
      have hbest := Swarm.upTo_best (t := t) hp k c trivial
      rw [hd] at hbest
      exact hbest

/-- Two particles that are drawn to their own best position and to the best point. -/
noncomputable def Swarm.pair : Swarm.Params ℝ :=
  ⟨2, .inertia, .afterSweep, .uniform, .ok 0.5, .ok (.row [1, 1]), .ok (.row [1, 1]),
    .ok (.row [1, 1]), .ok 0.5, .ok 0.1, 0, .ok 0.1⟩

/-- The two particles in opposite corners, the first one in the best point so far. -/
noncomputable def Swarm.inCorners : Course (Tape ℝ) ℝ 2 (Swarm.State ℝ 2) :=
  ⟨{ evaluations := 2, best := some ⟨Point.fill 2 0, 0⟩ }, ⟨fun _ => 1, fun _ => 1⟩,
    { particles := [.starting (Point.fill 2 0) (.finite 0) (Point.fill 2 1),
        .starting (Point.fill 2 1) (.finite 1) (Point.fill 2 1)] }⟩

/-- The particles are asked for the first coordinate, and for its opposite. -/
theorem generations_synchronous_pair :
    let t := Run.leastOnSquare
    let d := ((Swarm.sweep t Swarm.pair).run Swarm.inCorners).2
    let d' := ((Swarm.sweep (t.answeredBy fun x _ => .ok (.finite (-x.get 0))) Swarm.pair).run
      Swarm.inCorners).2
    d.ledger.trace.length = 2 ∧ d.ledger.IsFiniteFrom 0 ∧ d'.ledger.IsFiniteFrom 0 ∧
      d'.ledger.trace.map (·.1) = d.ledger.trace.map (·.1) := by
  intro t d d'
  have hfinite : d.ledger.IsFiniteFrom 0 :=
    Swarm.sweep_orderly.isFiniteFrom (fun x _ => ⟨x.get 0, rfl⟩) Swarm.inCorners
  have hfinite' : d'.ledger.IsFiniteFrom 0 :=
    Swarm.sweep_orderly.isFiniteFrom (fun x _ => ⟨-x.get 0, rfl⟩) Swarm.inCorners
  have hpoints := ((generations_synchronous t).2.2 Swarm.pair rfl).1 Swarm.inCorners (.inl rfl)
    t.objective _ hfinite hfinite'
  exact ⟨by decide +kernel, hfinite, hfinite', hpoints⟩

end BoxSearch
