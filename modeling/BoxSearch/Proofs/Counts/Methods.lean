import BoxSearch.HillClimb
import BoxSearch.Proofs.Counts.Terms
import BoxSearch.Rotation
import BoxSearch.Simplex
import BoxSearch.Swarm

/-!
# Methods that move points, on their terms

A climb, a swarm and a frame that turns look at the budget before each evaluation, and nothing but the
budget ends them.  A round of a climb is one evaluation, and a round of a swarm one for each particle:
a sweep that the budget cuts short is no round.
-/

namespace BoxSearch

/-- A search spends the whole budget and no more, in a number of rounds that has `R`. -/
def Terms.spending {α : Type} (budget : Nat) (R : Nat → Prop) : Terms α where
  admits e := e ≤ budget
  ends
    | .budgetSpent, e, r => e = budget ∧ R r
    | .nonFinite _ _, _, _ => True
    | _, _, _ => False
  nonFinite _ _ _ _ := trivial

variable {σ α : Type} [Scalar α] {n : Nat} {t : Task α n}

/-! ## 1. Hill climbing -/

namespace HillClimb

variable [DrawSource σ α]

/-- Every evaluation but the first one is a round. -/
abbrev terms (t : Task α n) : Terms α := .spending t.budget (· = t.budget - 1)

theorem climb_counted (stepSize : α) (fuel : Nat) (x : Point α n) (fx : α) :
    Counted (terms t) (fun e r _ => e = r + 1 ∧ t.budget ≤ e + fuel)
      (climb t stepSize fuel x fx : SearchM σ α n Unit Unit)
      fun _ e r _ => e = r + 1 ∧ t.budget ≤ e := by
  induction fuel generalizing x fx with
  | zero => exact .pure fun _ _ _ h => h
  | succ fuel ih =>
    apply Counted.withinBudget_bind
    · apply Counted.bind (.draw (neighbour t stepSize x))
      intro y
      apply Counted.bind (.trial (fun e r k h => h.2)
        (S := fun e r _ => e = r + 2 ∧ t.budget ≤ e + fuel) fun e r k h => by omega)
      intro fy
      apply Counted.bind (.endRound (S := fun e r _ => e = r + 1 ∧ t.budget ≤ e + fuel)
        fun e r k h => by omega)
      intro _
      exact .ite (fun _ => ih y fy) fun _ => ih x fx
    · exact .pure fun _ _ _ h => ⟨h.1.1, h.2⟩

theorem run_counted (hbudget : 0 < t.budget) (p : Params α) :
    SearchM.Triple ((terms t).Under fun e r _ => e = 0 ∧ r = 0)
      (run t p : SearchM σ α n Unit Unit) (fun _ => (terms t).Over) (terms t).Halts := by
  apply Counted.finish (Q := fun _ e r _ => e = r + 1 ∧ t.budget ≤ e)
  · apply Counted.bind (.draw (start t))
    intro x
    apply Counted.bind (.use p.stepSize)
    intro stepSize
    apply Counted.bind (.trial (fun e r k h => by show e + 1 ≤ _; omega)
      (S := fun e r _ => e = r + 1 ∧ t.budget ≤ e + t.budget) fun e r k h => by omega)
    exact climb_counted stepSize t.budget x
  · intro _ e r _ h hadmitted
    have hle : e ≤ t.budget := hadmitted
    exact ⟨by omega, by omega⟩

end HillClimb

/-! ## 2. Rotating axes -/

namespace Rotation

variable {p : Params α} {T : Terms α}

section

variable {P : Nat → Nat → State α n → Prop}

theorem bestInCube_counted :
    Counted T P (bestInCube t : SearchM σ α n (State α n) (Point α n)) fun _ => P := by
  apply Counted.bind .ledger
  intro L
  cases L.best with
  | none => exact .fault
  | some best => exact .pure fun _ _ _ h => h

omit [Scalar α] in
theorem frame_counted :
    Counted T P (frame : SearchM σ α n (State α n) (Frame α n)) fun _ => P := by
  apply Counted.own_bind
  intro s
  cases s.frame with
  | none => exact .fault
  | some f => exact .pure fun _ _ _ h => h.1

end

variable {P : Nat → Prop}

omit [Scalar α] in
theorem setFrame_counted (f : Frame α n) :
    Counted T (fun e _ _ => P e) (setFrame f : SearchM σ α n (State α n) Unit) fun _ e _ _ => P e :=
  .modifyOwn_of_counts _

/-- A turn of the axes evaluates nothing. -/
theorem turn_counted :
    Counted T (fun e _ _ => P e) (turn t p : SearchM σ α n (State α n) Unit) fun _ e _ _ => P e := by
  apply Counted.bind frame_counted
  intro f
  apply Counted.bind bestInCube_counted
  intro best
  apply Counted.bind (.use p.stepSize)
  intro stepSize
  apply Counted.bind (setFrame_counted _)
  intro _
  apply Counted.bind (.use (checkMoves t (f.turn stepSize best)))
  intro _
  apply Counted.bind (setFrame_counted _)
  intro _
  apply Counted.bind (.endRound (S := fun e _ _ => P e) fun _ _ _ h => h)
  intro _
  exact .bind .ledger fun L => .report (.rotated L.evaluations)

theorem turnIfExhausted_counted :
    Counted T (fun e _ _ => P e) (turnIfExhausted t p : SearchM σ α n (State α n) Unit)
      fun _ e _ _ => P e := by
  apply Counted.bind frame_counted
  intro f
  exact .ite (fun _ => turn_counted) fun _ => .pure fun _ _ _ h => h

theorem tryMove_counted {S : Nat → Prop} (hadmits : ∀ e, P e → T.admits (e + 1))
    (h : ∀ e, P e → S (e + 1)) :
    Counted T (fun e _ _ => P e) (tryMove t p : SearchM σ α n (State α n) Unit)
      fun _ e _ _ => S e := by
  apply Counted.bind frame_counted
  intro f
  cases f.moves[f.direction]? with
  | none => exact .fault
  | some move =>
    apply Counted.bind bestInCube_counted
    intro best
    apply Counted.bind .ledger
    intro L
    apply Counted.bind (.trial (fun e _ _ => hadmits e) (S := fun e _ _ => S e) fun e _ _ => h e)
    intro v
    exact .bind (.use _) fun next => setFrame_counted _

/-- The budget is all that ends this search, and nothing is said about the number of turns. -/
abbrev terms (t : Task α n) : Terms α := .spending t.budget fun _ => True

theorem step_counted (start : Nat) :
    Counted (terms t) (fun e _ _ => e = start) (step t p : SearchM σ α n (State α n) Bool)
      fun b e _ _ => b = decide (e < t.budget) ∧ (b = true → start < e) := by
  apply Counted.own_bind
  intro s
  apply Counted.pre (S := fun e _ _ => e = start) _ fun _ _ _ h => h.1
  apply Counted.bind (.require s.initialized .notInitialized)
  intro _
  apply Counted.ledger_bind
  intro L hL
  rw [hL]
  apply Counted.withinBudget_bind
  · apply Counted.bind (turnIfExhausted_counted (P := fun e => e = start ∧ e < t.budget))
    intro _
    apply Counted.bind (tryMove_counted (S := (· = start + 1)) (fun e h => h.2)
      fun e h => congrArg (· + 1) h.1)
    intro _
    exact Counted.withinBudget.post fun b e _ _ h => ⟨h.1, fun _ => h.2 ▸ Nat.lt_succ_self start⟩
  · apply Counted.pure
    intro e _ _ h
    exact ⟨(decide_eq_false (Nat.not_lt.mpr h.2)).symm, fun hfalse => nomatch hfalse⟩

theorem setUp_counted [DrawSource σ α] (hbudget : 0 < t.budget) :
    Counted (terms t) (fun e _ _ => e = 0) (setUp t p : SearchM σ α n (State α n) Unit)
      fun _ e _ _ => e = 1 := by
  apply Counted.own_bind
  intro s
  apply Counted.bind (.require (!s.initialized) .alreadyInitialized)
  intro _
  apply Counted.bind .markRunning
  intro _
  apply Counted.bind (.modifyOwn (S := fun e _ _ => e = 0) fun _ _ _ h => h.1)
  intro _
  apply Counted.bind (.drawOr (start t p))
  intro x
  apply Counted.bind (.trial (S := fun e _ _ => e = 1) (fun e _ _ (h : e = 0) => h ▸ hbudget)
    fun e _ _ h => congrArg (· + 1) h)
  intro _
  apply Counted.bind (.use p.stepSize)
  intro stepSize
  apply Counted.bind bestInCube_counted
  intro best
  exact setFrame_counted (P := (· = 1)) _

theorem run_counted [DrawSource σ α] (hbudget : 0 < t.budget) :
    SearchM.Triple ((terms t).Under fun e _ _ => e = 0) (run t p : SearchM σ α n (State α n) Unit)
      (fun _ => (terms t).Over) (terms t).Halts := by
  apply SearchM.Triple.bind (setUp_counted hbudget)
  intro _ c hc
  have hone : c.ledger.evaluations = 1 := hc.counts
  have hfuel : t.budget < c.ledger.evaluations + (t.budget + 1) := by omega
  refine Counted.repeatWhile (P := fun _ _ _ => True) (fun start => ?_) (t.budget + 1) c
    ⟨hc.phase, hc.admitted, trivial, hfuel, Nat.succ_pos _⟩
  · apply Counted.onward ((step_counted start).pre fun _ _ _ h => h.2)
    · rintro e r k ⟨hb, hmore⟩
      exact ⟨trivial, hmore rfl, of_decide_eq_true hb.symm⟩
    · rintro e r k ⟨hb, -⟩ hadmitted
      have hle : e ≤ t.budget := hadmitted
      exact ⟨Nat.le_antisymm hle (Nat.le_of_not_lt (of_decide_eq_false hb.symm)), trivial⟩

end Rotation

/-! ## 3. Swarms -/

namespace Swarm

variable [DrawSource σ α] {p : Params α}

/-- Rounds are the whole sweeps for which there is a budget after the launch. -/
abbrev terms (t : Task α n) (p : Params α) : Terms α :=
  .spending t.budget (· = (t.budget - p.size) / p.size)

/-- In a launched swarm `P` is about the counts only. -/
def Launched (p : Params α) (P : Nat → Nat → Prop) (e r : Nat) (s : State α n) : Prop :=
  P e r ∧ s.particles.length = p.size

omit [Scalar α] [DrawSource σ α] in
theorem modifyParticles_counted {T : Terms α} {P : Nat → Nat → Prop}
    {f : List (Particle α n) → List (Particle α n)} (hf : ∀ swarm, (f swarm).length = swarm.length) :
    Counted T (Launched p P) (modifyParticles f : SearchM σ α n (State α n) Unit)
      fun _ => Launched p P :=
  .modifyOwn fun _ _ s h => ⟨h.1, (hf s.particles).trans h.2⟩

variable {P S : Nat → Nat → Prop}

theorem moveParticle_counted (hbudget : ∀ e r, P e r → e < t.budget)
    (h : ∀ e r, P e r → S (e + 1) r) (swarm : List (Particle α n)) (i : Nat) (q : Particle α n)
    (target : Point α n) :
    Counted (terms t p) (Launched p P)
      (moveParticle t p swarm i q target : SearchM σ α n (State α n) Unit)
      fun _ => Launched p S := by
  apply Counted.bind (.use (situation p swarm i q target))
  intro s
  apply Counted.bind (.drawOr (move t p s))
  rintro ⟨v, x⟩
  apply Counted.bind (.evaluate (S := Launched p S) (fun e r _ hc => hbudget e r hc.1)
    fun e r _ hc => ⟨h e r hc.1, hc.2⟩)
  intro c
  apply Counted.bind (modifyParticles_counted fun swarm => List.length_set)
  intro _
  apply Counted.bind (.requireFinite c)
  intro _
  exact .ite (fun _ => modifyParticles_counted fun swarm => List.length_modify _ _ _)
    fun _ => .pure fun _ _ _ hc => hc

theorem advance_counted
    (hend : ∀ e r, P e r → e = t.budget → r = (t.budget - p.size) / p.size)
    (h : ∀ e r, P e r → S (e + 1) r) (best : Option (Point α n)) (i : Nat) :
    Counted (terms t p) (Launched p P) (advance t p best i : SearchM σ α n (State α n) Unit)
      fun _ => Launched p S := by
  apply Counted.bind (.requireBudget (t := t) fun e r k hc hadmitted hspent => ?_)
  · intro _
    apply Counted.pre (S := Launched p fun e r => P e r ∧ e < t.budget) _
      fun _ _ _ hc => ⟨⟨hc.1.1, hc.2⟩, hc.1.2⟩
    apply Counted.own_bind
    intro s
    apply Counted.pre (S := Launched p fun e r => P e r ∧ e < t.budget) _ fun _ _ _ hc => hc.1
    have hmove (q : Particle α n) (target : Point α n) :=
      moveParticle_counted (σ := σ) (p := p) (P := fun e r => P e r ∧ e < t.budget) (S := S)
        (fun _ _ hc => hc.2) (fun e r hc => h e r hc.1) s.particles i q target
    dsimp only
    cases s.particles[i]? with
    | none => exact .fault
    | some q =>
      cases best with
      | none => exact .bind (.bind .ledger fun L => .pure fun _ _ _ hc => hc) fun target => hmove q target
      | some target => exact hmove q target
  · have he : e = t.budget := Nat.le_antisymm hadmitted hspent
    exact ⟨he, hend e r hc.1 he⟩

/-- The whole sweeps of a swarm of `m` particles when `k` particles were moved after them. -/
theorem sweeps_eq {m budget sweeps k : Nat} (hk : k < m)
    (h : budget = m + sweeps * m + k) : sweeps = (budget - m) / m := by
  have hrest : budget - m = sweeps * m + k := by omega
  rw [hrest, Nat.mul_comm, Nat.mul_add_div (by omega), Nat.div_eq_of_lt hk, Nat.add_zero]

/-- The particles at the given places are still to be moved in sweep number `sweep`. -/
theorem advanceAll_counted (best : Option (Point α n)) (sweep : Nat) (places : List Nat)
    (hplaces : places.length ≤ p.size) :
    Counted (terms t p)
      (Launched p fun e r => e + places.length = p.size + (sweep + 1) * p.size ∧ r = sweep)
      (advanceAll t p best places : SearchM σ α n (State α n) Unit)
      fun _ => Launched p fun e r => e = p.size + (sweep + 1) * p.size ∧ r = sweep := by
  induction places with
  | nil => exact .pure fun _ _ _ hc => hc
  | cons i rest ih =>
    have hlength : (i :: rest).length = rest.length + 1 := List.length_cons
    apply Counted.bind (advance_counted
      (S := fun e r => e + rest.length = p.size + (sweep + 1) * p.size ∧ r = sweep) ?_ ?_ best i)
    · intro _
      exact ih (by omega)
    · rintro e r ⟨hleft, rfl⟩ rfl
      -- The budget ends within the sweep: at least one particle of it is not moved.
      rw [hlength, Nat.succ_mul] at hleft
      exact sweeps_eq (k := p.size - (rest.length + 1)) (by omega) (by omega)
    · rintro e r ⟨hleft, rfl⟩
      exact ⟨by omega, rfl⟩

theorem sweep_counted (number : Nat) :
    Counted (terms t p) (Launched p fun e r => e = p.size + number * p.size ∧ r = number)
      (sweep t p : SearchM σ α n (State α n) Unit)
      fun _ => Launched p fun e r => e = p.size + (number + 1) * p.size ∧ r = number + 1 := by
  apply Counted.own_bind
  intro s
  apply Counted.assume (p := s.particles.length = p.size)
  · rintro e r k ⟨hk, rfl⟩
    exact hk.2
  · intro hlength
    have hplaces : (List.range s.particles.length).length = p.size := by
      rw [List.length_range, hlength]
    have hall (best : Option (Point α n)) : Counted (terms t p)
        (fun e r k => Launched p (fun e r => e = p.size + number * p.size ∧ r = number) e r k ∧ k = s)
        (advanceAll t p best (List.range s.particles.length) : SearchM σ α n (State α n) Unit)
        fun _ => Launched p fun e r => e = p.size + (number + 1) * p.size ∧ r = number := by
      apply (advanceAll_counted best number _ (Nat.le_of_eq hplaces)).pre
      rintro e r k ⟨⟨⟨rfl, rfl⟩, hk⟩, -⟩
      refine ⟨⟨?_, rfl⟩, hk⟩
      rw [hplaces, Nat.succ_mul, Nat.add_assoc]
    have hround : Counted (terms t p)
        (Launched p fun e r => e = p.size + (number + 1) * p.size ∧ r = number)
        (SearchM.endRound : SearchM σ α n (State α n) Unit)
        fun _ => Launched p fun e r => e = p.size + (number + 1) * p.size ∧ r = number + 1 :=
      .endRound fun e r k hc => ⟨⟨hc.1.1, congrArg (· + 1) hc.1.2⟩, hc.2⟩
    cases p.refresh with
    | afterSweep =>
      apply Counted.bind .ledger
      intro L
      apply Counted.bind (hall _)
      intro _
      exact .bind (modifyParticles_counted fun swarm => List.length_map _) fun _ => hround
    | afterMove => exact .bind (hall none) fun _ => hround

theorem length_launchVelocities (t : Task α n) (p : Params α) (count : Nat) :
    Meets (fun velocities => velocities.length = count) (fun _ => True)
      (launchVelocities t p count : ChoiceM σ α (List (Point α n))) := by
  apply Meets.bind (.draw (.length_times _ count))
  intro zs hzs
  apply Meets.bind (.attained _)
  intro launch _
  exact .pure ((List.length_map _).trans hzs)

theorem launch_counted :
    Counted (terms t p) (fun e r _ => e = 0 ∧ r = 0) (launch t p : SearchM σ α n (State α n) Unit)
      fun _ => Launched p fun e r => e = p.size ∧ r = 0 := by
  apply Counted.drawOr_bind_of (Population.length_points t p.size p.sampling p.spread)
  intro points hpoints
  apply Counted.bind (.setOwn
    (S := fun e r s => (r = 0 ∧ s.costs.length = e) ∧ e + points.length = p.size)
    fun e r _ h => by simp [h, hpoints])
  intro _
  apply Counted.bind (.evaluateAll (I := fun e r (s : State α n) => r = 0 ∧ s.costs.length = e)
    (fun _ h => h) ?_ ?_ points)
  · intro _
    apply Counted.own_bind
    intro s
    apply Counted.drawOr_bind_of (length_launchVelocities t p points.length)
    intro velocities hvelocities
    apply Counted.bind (.modifyOwn (S := Launched p fun e r => e = p.size ∧ r = 0) ?_)
    · exact fun _ => .report (.swarmReady p.size)
    · rintro e r k ⟨⟨⟨hr, hcosts⟩, he⟩, rfl⟩
      refine ⟨⟨he, hr⟩, ?_⟩
      simp [hcosts, he, hpoints, hvelocities]
  · rintro e r s ⟨rfl, -⟩ hadmitted hfew hspent
    have hsize : t.budget - p.size = 0 := by omega
    exact ⟨Nat.le_antisymm hadmitted hspent, by rw [hsize, Nat.zero_div]⟩
  · rintro s e r k ⟨hr, hcosts⟩
    exact ⟨hr, by simp [hcosts]⟩

theorem run_counted (hsize : 0 < p.size) :
    SearchM.Triple ((terms t p).Under fun e r _ => e = 0 ∧ r = 0)
      (run t p : SearchM σ α n (State α n) Unit) (fun _ => (terms t p).Over)
      (terms t p).Halts := by
  have hstep (start : Nat) (hstart : start < t.budget) : Counted (terms t p)
      (fun e r k => Launched p (fun e r => e = p.size + r * p.size) e r k ∧ e = start)
      (sweep t p : SearchM σ α n (State α n) Unit)
      fun _ e r k => Launched p (fun e r => e = p.size + r * p.size) e r k ∧ start < e := by
    apply Counted.named
    intro _ number
    apply Counted.assume (p := start = p.size + number * p.size)
    · rintro e r k ⟨⟨⟨he, -⟩, rfl⟩, -, rfl⟩
      exact he
    · rintro rfl
      have hsweep := (sweep_counted (σ := σ) (t := t) (p := p) number).post (Q := fun _ e r k =>
        Launched p (fun e r => e = p.size + r * p.size) e r k ∧ p.size + number * p.size < e)
        fun _ e r k hc => ⟨⟨hc.1.2 ▸ hc.1.1, hc.2⟩, by rw [hc.1.1, Nat.succ_mul]; omega⟩
      exact hsweep.pre fun e r k hc => ⟨⟨hc.1.2, hc.2.2⟩, hc.1.1.2⟩
  apply Counted.finish (Q := fun _ e r s => Launched p (fun e r => e = p.size + r * p.size) e r s ∧
    t.budget ≤ e)
  · apply Counted.bind launch_counted
    intro _
    apply (Counted.roundsWithin hstep t.budget).pre
    rintro e r k ⟨⟨rfl, rfl⟩, hk⟩
    exact ⟨⟨by omega, hk⟩, by omega⟩
  · rintro _ e r k ⟨⟨he, -⟩, hspent⟩ hadmitted
    have hbudget : e = t.budget := Nat.le_antisymm hadmitted hspent
    exact ⟨hbudget, sweeps_eq hsize (hbudget ▸ he)⟩

end Swarm

end BoxSearch
