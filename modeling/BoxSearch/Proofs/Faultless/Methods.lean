import Mathlib
import BoxSearch.Proofs.Counts.Methods
import BoxSearch.Proofs.Faultless.Axes
import BoxSearch.Proofs.Faultless.Choices
import BoxSearch.Proofs.Faultless.Steps
import BoxSearch.Proofs.Feasible.Methods
import BoxSearch.Proofs.Partition.Optimality

/-!
# Methods that find what they look up

What a method looks up in what it keeps is there: the particle that is moved and its informants, the
corners of a simplex, the move that is tried next, the cell that was selected.  For each method this is
one invariant of its kept state, mostly the number of what is kept, and with it no step of the method
meets a fault.
-/

namespace BoxSearch

variable {σ : Type} [DrawSource σ ℝ] {n : ℕ} {t : Task ℝ n}

/-! ## 1. Hill climbing -/

namespace HillClimb

theorem climb_faultless (ht : t.objective.Answers) (stepSize : ℝ) (fuel : ℕ) (x : Point ℝ n)
    (fx : ℝ) :
    Faultless (fun _ _ => True) (climb t stepSize fuel x fx : SearchM σ ℝ n Unit Unit)
      fun _ _ _ => True := by
  induction fuel generalizing x fx with
  | zero => exact .pure fun _ _ hk => hk
  | succ fuel ih =>
    apply Faultless.bind .withinBudget
    intro b
    apply Faultless.ite
    · intro _
      apply Faultless.draw_bind (.trivial _)
      intro y _
      apply Faultless.bind (.trial ht (S := fun _ _ => True) fun _ _ _ hk => hk)
      intro fy
      exact .bind .endRound fun _ => .ite (fun _ => ih y fy) fun _ => ih x fx
    · intro _
      exact .pure fun _ _ hk => hk

theorem run_faultless (ht : t.objective.Answers) {p : Params ℝ} (hp : p.IsNumeric) :
    Faultless (fun _ _ => True) (run t p : SearchM σ ℝ n Unit Unit) fun _ _ _ => True := by
  apply Faultless.draw_bind (.trivial _)
  intro x _
  apply Faultless.bind (.useNumber hp.stepSize)
  intro stepSize
  apply Faultless.bind (.trial ht (S := fun _ _ => True) fun _ _ _ hk => hk)
  exact fun fx => climb_faultless ht stepSize t.budget x fx

end HillClimb

/-! ## 2. Swarms -/

namespace Swarm

variable {p : Params ℝ}

/-- Every particle that there should be is there. -/
abbrev Manned (p : Params ℝ) (_ : Option (Best ℝ (Point ℝ n))) (s : State ℝ n) : Prop :=
  s.particles.length = p.size

omit [DrawSource σ ℝ] in
theorem modifyParticles_faultless {f : List (Particle ℝ n) → List (Particle ℝ n)}
    (h : ∀ swarm, (f swarm).length = swarm.length) :
    Faultless (Manned p) (modifyParticles f : SearchM σ ℝ n (State ℝ n) Unit) fun _ => Manned p :=
  .modifyOwn fun _ s hs => (h s.particles).trans hs

section

variable (ht : t.objective.Answers) (hp : p.IsNumeric) (hcount : p.CountFits)
  (hfactors : p.FactorsMeet (fun _ => False) 4 n)

include ht hp hcount hfactors

theorem moveParticle_faultless {swarm : List (Particle ℝ n)} (hswarm : swarm.length = p.size) (i : ℕ)
    (q : Particle ℝ n) (target : Point ℝ n) :
    Faultless (Manned p) (moveParticle t p swarm i q target : SearchM σ ℝ n (State ℝ n) Unit)
      fun _ => Manned p := by
  obtain ⟨s, hs, hfit⟩ := situation_eq_ok hcount hswarm i q target
  apply Faultless.use_bind hs
  apply Faultless.drawOr_bind (move_meets t hp (hfit _ hfactors))
  intro vx _
  apply Faultless.bind (.evaluate ht (V := fun _ => Manned p) fun _ _ _ hk => hk)
  intro c
  apply Faultless.bind (modifyParticles_faultless fun _ => List.length_set)
  intro _
  apply Faultless.bind (.requireFinite c)
  intro _
  apply Faultless.ite
  · exact fun _ => modifyParticles_faultless fun _ => List.length_modify ..
  · exact fun _ => .pure fun _ _ hk => hk

theorem advance_faultless (best : Option (Point ℝ n)) {i : ℕ} (hi : i < p.size) :
    Faultless (Manned p) (advance t p best i : SearchM σ ℝ n (State ℝ n) Unit)
      fun _ => Manned p := by
  apply Faultless.bind .requireBudget
  intro _
  apply Faultless.own_bind
  intro o s hs
  have hlt : i < s.particles.length := hs ▸ hi
  dsimp only
  rw [List.getElem?_eq_getElem hlt]
  cases best with
  | none =>
    apply Faultless.bind (.ledger_bind fun L _ _ => .pure (Q := fun _ => Manned p) fun _ _ hk => hk)
    exact fun target => moveParticle_faultless ht hp hcount hfactors hs i _ target
  | some target => exact moveParticle_faultless ht hp hcount hfactors hs i _ target

theorem advanceAll_faultless (best : Option (Point ℝ n)) {places : List ℕ}
    (h : ∀ i ∈ places, i < p.size) :
    Faultless (Manned p) (advanceAll t p best places : SearchM σ ℝ n (State ℝ n) Unit)
      fun _ => Manned p := by
  induction places with
  | nil => exact .pure fun _ _ hk => hk
  | cons i rest ih =>
    apply Faultless.bind (advance_faultless ht hp hcount hfactors best (h i List.mem_cons_self))
    exact fun _ => ih fun j hj => h j (List.mem_cons_of_mem i hj)

theorem sweep_faultless :
    Faultless (Manned p) (sweep t p : SearchM σ ℝ n (State ℝ n) Unit) fun _ => Manned p := by
  apply Faultless.own_bind
  intro o s hs
  have hplaces : ∀ i ∈ List.range s.particles.length, i < p.size :=
    fun i hi => hs ▸ List.mem_range.mp hi
  cases p.refresh with
  | afterSweep =>
    apply Faultless.ledger_bind
    intro L _ _
    apply Faultless.bind (advanceAll_faultless ht hp hcount hfactors _ hplaces)
    intro _
    exact .bind (modifyParticles_faultless fun _ => List.length_map _) fun _ => .endRound
  | afterMove =>
    exact .bind (advanceAll_faultless ht hp hcount hfactors _ hplaces) fun _ => .endRound

end

theorem launch_faultless (ht : t.objective.Answers)
    (hstarts : ∀ x ∈ t.starts, t.region.Feasible x) (hp : p.IsNumeric) :
    Faultless (fun _ _ => True) (launch t p : SearchM σ ℝ n (State ℝ n) Unit)
      fun _ => Manned p := by
  have hchoice := Population.points_meets (σ := σ) (F := fun _ => False) hstarts p.size p.sampling
    hp.spread
  apply Faultless.drawOr_bind (hchoice.and (Population.length_points t p.size p.sampling p.spread))
  rintro points ⟨-, hpoints⟩
  apply Faultless.bind (.setOwn (S := fun _ s => s.costs.length = 0) fun _ => rfl)
  intro _
  -- One cost is kept for every point.
  apply Faultless.bind (.evaluateAll ht (I := fun j (s : State ℝ n) => s.costs.length = j) points ?_ 0)
  · intro _
    apply Faultless.own_bind
    intro o s hcosts
    apply Faultless.drawOr_bind
      ((launchVelocities_meets t hp points.length).and (length_launchVelocities t p points.length))
    rintro velocities ⟨-, hvelocities⟩
    apply Faultless.bind (.modifyOwn (S := Manned p) fun _ _ _ => ?_)
    · exact fun _ => .report _
    · show (List.zipWith _ _ _).length = _
      rw [List.length_zipWith, List.length_zip, hcosts, hvelocities, hpoints]
      omega
  · intro s j own _ hcosts
    exact List.length_append.trans (congrArg (· + 1) hcosts)

theorem run_faultless (ht : t.objective.Answers) (hstarts : ∀ x ∈ t.starts, t.region.Feasible x)
    (hp : p.IsNumeric) (hcount : p.CountFits) (hfactors : p.FactorsMeet (fun _ => False) 4 n) :
    Faultless (fun _ _ => True) (run t p : SearchM σ ℝ n (State ℝ n) Unit) fun _ => Manned p :=
  .bind (launch_faultless ht hstarts hp) fun _ =>
    .roundsWithin (sweep_faultless ht hp hcount hfactors) _

end Swarm

/-! ## 3. Simplexes -/

namespace Simplex

omit [DrawSource σ ℝ]

variable {α : Type}

/-- There is one vertex more than there are variables. -/
abbrev Complete (_ : Option (Best α (Point α n))) (s : State α n) : Prop :=
  s.vertices.length = n + 1

theorem vertices_faultless :
    Faultless Complete (vertices : SearchM σ α n (State α n) (Vertices α n))
      fun v o s => v.length = n + 1 ∧ Complete o s := by
  apply Faultless.own_bind
  intro o s hs
  cases hv : s.vertices with
  | nil =>
    rw [Complete, hv] at hs
    exact nomatch hs
  | cons best others =>
    exact .pure fun _ _ hk => ⟨hv ▸ hs, hk⟩

theorem modifyVertices_faultless {f : Vertices α n → Vertices α n}
    (h : ∀ v, (f v).length = v.length) :
    Faultless Complete (modifyVertices f : SearchM σ α n (State α n) Unit) fun _ => Complete :=
  .modifyOwn fun _ s hs => (h s.vertices).trans hs

theorem replaceWorst_faultless (s : Sample α n) :
    Faultless Complete (modifyVertices (·.replaceWorst s) : SearchM σ α n (State α n) Unit)
      fun _ => Complete :=
  modifyVertices_faultless fun _ => List.length_set

theorem note_faultless (move : Move) :
    Faultless Complete (note move : SearchM σ α n (State α n) Unit) fun _ => Complete :=
  .modifyOwn fun _ _ hk => hk

theorem corners?_eq_some {v : Vertices α n} (h : v.length = n + 1) : ∃ c, v.corners? = some c := by
  have hbest : 0 < v.length := by omega
  have hsecond : n - 1 < v.length := by omega
  have hworst : n < v.length := by omega
  refine ⟨⟨v[0], v[n - 1], v[n]⟩, ?_⟩
  unfold Vertices.corners?
  rw [List.getElem?_eq_getElem hbest, List.getElem?_eq_getElem hsecond,
    List.getElem?_eq_getElem hworst]
  rfl

variable [Scalar α] {t : Task α n} {p : Params α}

section

variable (ht : t.objective.Answers) (hp : p.IsNumeric)

include ht hp

theorem shrinkAt_faultless (best : Point α n) {places : List ℕ} (h : ∀ k ∈ places, k < n + 1) :
    Faultless Complete (shrinkAt t p best places : SearchM σ α n (State α n) Unit)
      fun _ => Complete := by
  induction places with
  | nil => exact .pure fun _ _ hk => hk
  | cons k rest ih =>
    apply Faultless.bind_of vertices_faultless
    intro v hv
    have hlt : k < v.length := hv ▸ h k List.mem_cons_self
    rw [List.getElem?_eq_getElem hlt]
    apply Faultless.bind (.useNumber hp.shrinkage)
    intro shrinkage
    apply Faultless.bind (modifyVertices_faultless fun _ => List.length_set)
    intro _
    apply Faultless.bind (.evaluate ht (V := fun _ => Complete) fun _ _ _ hk => hk)
    intro c
    apply Faultless.bind (modifyVertices_faultless fun _ => List.length_set)
    intro _
    apply Faultless.bind (.requireFinite c)
    exact fun _ => ih fun k hk => h k (List.mem_cons_of_mem _ hk)

theorem shrink_faultless :
    Faultless Complete (shrink t p : SearchM σ α n (State α n) Unit) fun _ => Complete := by
  apply Faultless.bind_of vertices_faultless
  intro v hv
  cases v with
  | nil => exact nomatch hv
  | cons best others =>
    apply shrinkAt_faultless ht hp
    intro k hk
    obtain ⟨j, hj, rfl⟩ := List.mem_map.mp hk
    exact Nat.succ_lt_succ (List.mem_range.mp hj)

theorem expand_faultless (middle xr : Point α n) (fr : α) :
    Faultless Complete (expand t p middle xr fr : SearchM σ α n (State α n) Unit)
      fun _ => Complete := by
  apply Faultless.bind (note_faultless .expand)
  intro _
  apply Faultless.bind (.useNumber hp.expansion)
  intro expansion
  apply Faultless.bind (.trial ht (S := Complete) fun _ _ _ hk => hk)
  exact fun fe => .ite (fun _ => replaceWorst_faultless _) fun _ => replaceWorst_faultless _

theorem contract_faultless (worst : Sample α n) (middle xr : Point α n) (fr : α) :
    Faultless Complete (contract t p worst middle xr fr : SearchM σ α n (State α n) Unit)
      fun _ => Complete := by
  apply Faultless.bind (note_faultless _)
  intro _
  apply Faultless.bind (.useNumber hp.contraction)
  intro contraction
  apply Faultless.bind (.trial ht (S := Complete) fun _ _ _ hk => hk)
  intro fc
  apply Faultless.ite
  · exact fun _ => replaceWorst_faultless _
  · exact fun _ => .bind (note_faultless .shrink) fun _ => shrink_faultless ht hp

omit ht hp [Scalar α] in
theorem endDegenerate_faultless (fr : α) :
    Faultless Complete (endDegenerate fr : SearchM σ α n (State α n) Unit) fun _ => Complete := by
  apply Faultless.bind (note_faultless .degenerate)
  intro _
  apply Faultless.ledger_bind
  intro L _ _
  exact .bind (.stop _) fun _ => .bind (.report _) fun _ => .ended

theorem round_faultless :
    Faultless Complete (round t p : SearchM σ α n (State α n) Unit) fun _ => Complete := by
  apply Faultless.bind_of vertices_faultless
  intro v hv
  obtain ⟨c, hc⟩ := corners?_eq_some hv
  rw [hc]
  apply Faultless.bind (.useNumber hp.reflection)
  intro reflection
  apply Faultless.bind (.trial ht (S := Complete) fun _ _ _ hk => hk)
  intro fr
  have hend : Faultless Complete (do
      modifyVertices (·.ranked)
      SearchM.endRound : SearchM σ α n (State α n) Unit) fun _ => Complete :=
    .bind (modifyVertices_faultless (Cost.length_rank _)) fun _ => .endRound
  apply Faultless.ite
  · intro _
    exact .bind (note_faultless .reflect) fun _ => .bind (replaceWorst_faultless _) fun _ => hend
  · intro _
    apply Faultless.ite
    · intro _
      exact .bind (expand_faultless ht hp _ _ _) fun _ => hend
    · intro _
      apply Faultless.ite
      · intro _
        exact .bind (contract_faultless ht hp _ _ _ _) fun _ => hend
      · intro _
        exact .bind (endDegenerate_faultless fr) fun _ => hend

omit hp in
theorem addVertex_faultless (x : Point α n) (k : ℕ) :
    Faultless (fun _ s => s.vertices.length = k) (addVertex t x : SearchM σ α n (State α n) Unit)
      fun _ _ s => s.vertices.length = k + 1 := by
  apply Faultless.bind
    (.evaluate ht (V := fun _ _ (s : State α n) => s.vertices.length = k) fun _ _ _ hk => hk)
  intro c
  apply Faultless.bind (.modifyOwn (S := fun _ s => s.vertices.length = k + 1) fun _ s hs =>
    List.length_append.trans (congrArg (· + 1) hs))
  intro _
  exact .bind (.requireFinite c) fun _ => .pure fun _ _ hk => hk

end

section

variable [DrawSource σ α] (ht : t.objective.Answers) (hp : p.IsNumeric)

include ht hp

theorem foundAround_faultless (first : Point α n) (k j : ℕ) :
    Faultless (fun _ s => s.vertices.length = j)
      (foundAround t p first k : SearchM σ α n (State α n) Unit)
      fun _ _ s => s.vertices.length = j + k := by
  induction k generalizing j with
  | zero => exact .pure fun _ _ hk => hk
  | succ k ih =>
    apply Faultless.drawOr_bind (Draw.normalPoint_repaired t.region first hp.spread)
    intro x _
    apply Faultless.bind (addVertex_faultless ht x j)
    intro _
    rw [← Nat.add_assoc, Nat.add_right_comm]
    exact ih (j + 1)

/-- A search finds the corners of its simplex in any arithmetic. -/
theorem run_faultless :
    Faultless (fun _ _ => True) (run t p : SearchM σ α n (State α n) Unit) fun _ => Complete := by
  have hfound : Faultless (fun _ _ => True) (found t p : SearchM σ α n (State α n) Unit)
      fun _ => Complete := by
    apply Faultless.drawOr_bind (firstVertex_total hp.spread)
    intro first _
    apply Faultless.bind (.modifyOwn (S := fun _ s => s.vertices.length = 0) fun _ _ _ => rfl)
    intro _
    apply Faultless.bind (addVertex_faultless ht first 0)
    intro _
    apply Faultless.bind (foundAround_faultless ht hp first n 1)
    intro _
    rw [Nat.add_comm]
    exact modifyVertices_faultless (Cost.length_rank _)
  exact .bind hfound fun _ => .roundsWithin (round_faultless ht hp) _

end

end Simplex

/-! ## 4. Rotating axes -/

namespace Rotation

/-- The search was set up, there is a best point, and there is a move along every axis. -/
structure Ready (best : Option (Best ℝ (Point ℝ n))) (s : State ℝ n) : Prop where
  initialized : s.initialized = true
  best : best.isSome = true
  frame : ∃ f, s.frame = some f ∧ f.moves.length = n ∧ f.direction < n

/-- The length of a move after a turn is a positive number. -/
def Params.StepsAhead (p : Params ℝ) : Prop := ∃ s, p.stepSize = .ok s ∧ 0 < s

variable {p : Params ℝ}

theorem isSome_improve (best : Option (Best ℝ (Point ℝ n))) (x : Point ℝ n) (v : ℝ) :
    (Account.improve best x (.finite v)).isSome = true := by
  cases best with
  | none => rfl
  | some b =>
    unfold Account.improve
    dsimp only
    split_ifs <;> rfl

section

omit [DrawSource σ ℝ]

theorem bestInCube_faultless {P : Option (Best ℝ (Point ℝ n)) → State ℝ n → Prop}
    (hP : ∀ o k, P o k → o.isSome = true) :
    Faultless P (bestInCube t : SearchM σ ℝ n (State ℝ n) (Point ℝ n)) fun _ => P := by
  apply Faultless.ledger_bind
  intro L k hk
  obtain ⟨b, hb⟩ := Option.isSome_iff_exists.mp (hP _ _ hk)
  rw [hb]
  exact .pure fun _ _ hk => hk

theorem frame_faultless :
    Faultless Ready (frame : SearchM σ ℝ n (State ℝ n) (Frame ℝ n))
      fun f o s => (f.moves.length = n ∧ f.direction < n) ∧ Ready o s := by
  apply Faultless.own_bind
  intro o s hs
  obtain ⟨f, hf, hspans⟩ := hs.frame
  rw [hf]
  exact .pure fun _ _ hk => ⟨hspans, hk⟩

theorem setFrame_faultless {f : Frame ℝ n} (h : f.moves.length = n ∧ f.direction < n) :
    Faultless Ready (setFrame f : SearchM σ ℝ n (State ℝ n) Unit) fun _ => Ready :=
  .modifyOwn fun _ _ hs => ⟨hs.initialized, hs.best, _, rfl, h⟩

variable (ht : t.objective.Answers) (hp : p.IsNumeric) (hstep : p.StepsAhead) (hn : n < 10 ^ 24)

include hstep hn in
theorem turn_faultless :
    Faultless Ready (turn t p : SearchM σ ℝ n (State ℝ n) Unit) fun _ => Ready := by
  obtain ⟨stepSize, hstepSize, hpos⟩ := hstep
  apply Faultless.bind_of frame_faultless
  intro f hf
  apply Faultless.bind (bestInCube_faultless fun _ _ hs => hs.best)
  intro best
  apply Faultless.use_bind hstepSize
  obtain ⟨hrows, hlength⟩ := Orthonormal.along_complete_of_lt hn (Point.sub f.origin best) f.moves
  have hturned : (f.turn stepSize best).moves.length = n ∧ (f.turn stepSize best).direction < n :=
    ⟨(List.length_map _).trans hlength, hf.2⟩
  -- The new moves are an orthonormal basis that was stretched as a whole.
  have hcheck : checkMoves t (f.turn stepSize best) = .ok () := by
    unfold checkMoves
    split_ifs
    · exact hrows.check_scale hpos (by norm_num)
    · rfl
  apply Faultless.bind (setFrame_faultless hturned)
  intro _
  apply Faultless.use_bind hcheck
  have hlowered : (f.turn stepSize best).lower.moves.length = n ∧
      (f.turn stepSize best).lower.direction < n :=
    ⟨hturned.1, (Nat.zero_le _).trans_lt hf.2⟩
  apply Faultless.bind (setFrame_faultless hlowered)
  intro _
  apply Faultless.bind .endRound
  intro _
  exact .ledger_bind fun L _ _ => .report _

include hstep hn in
theorem turnIfExhausted_faultless :
    Faultless Ready (turnIfExhausted t p : SearchM σ ℝ n (State ℝ n) Unit) fun _ => Ready :=
  .bind_of frame_faultless fun _ _ =>
    .ite (fun _ => turn_faultless hstep hn) fun _ => .pure fun _ _ hk => hk

omit [DrawSource σ ℝ] in
theorem spans_tried {f next : Frame ℝ n} (hf : f.moves.length = n ∧ f.direction < n) {better : Bool}
    (h : f.tried p better = .ok next) : next.advance.moves.length = n ∧ next.advance.direction < n := by
  have hmod (d : ℕ) : (d + 1) % n < n := Nat.mod_lt _ ((Nat.zero_le _).trans_lt hf.2)
  unfold Frame.tried at h
  cases better with
  | true =>
    cases hstretch : p.stretch with
    | error e =>
      rw [hstretch] at h
      exact nomatch h
    | ok stretch =>
      rw [hstretch] at h
      obtain rfl := Except.ok.inj h
      exact ⟨(List.length_modify ..).trans hf.1, hmod _⟩
  | false =>
    cases hshorten : p.shorten with
    | error e =>
      rw [hshorten] at h
      exact nomatch h
    | ok shorten =>
      rw [hshorten] at h
      obtain rfl := Except.ok.inj h
      exact ⟨(List.length_modify ..).trans hf.1, hmod _⟩

include ht hp in
theorem tryMove_faultless :
    Faultless Ready (tryMove t p : SearchM σ ℝ n (State ℝ n) Unit) fun _ => Ready := by
  apply Faultless.bind_of frame_faultless
  intro f hf
  have hlt : f.direction < f.moves.length := hf.1.symm ▸ hf.2
  rw [List.getElem?_eq_getElem hlt]
  apply Faultless.bind (bestInCube_faultless fun _ _ hs => hs.best)
  intro best
  apply Faultless.ledger_bind
  intro L _ _
  apply Faultless.bind (.trial ht (S := Ready) fun o v s hs =>
    ⟨hs.initialized, isSome_improve o _ v, hs.frame⟩)
  intro v
  obtain ⟨next, hnext⟩ := tried_isNumber hp f ((Cost.finite v).below (Cost.ofOption L.bestCost))
  exact .use_bind hnext (setFrame_faultless (spans_tried hf hnext))

include ht hp hstep hn in
theorem step_faultless :
    Faultless Ready (step t p : SearchM σ ℝ n (State ℝ n) Bool) fun _ => Ready := by
  apply Faultless.own_bind
  intro o s hs
  apply Faultless.bind (.require hs.initialized _)
  intro _
  apply Faultless.ledger_bind
  intro L _ _
  apply Faultless.bind .withinBudget
  intro b
  apply Faultless.ite
  · exact fun _ => .pure fun _ _ hk => hk
  · intro _
    apply Faultless.bind (turnIfExhausted_faultless hstep hn)
    intro _
    exact .bind (tryMove_faultless ht hp) fun _ => .withinBudget

end

theorem setUp_faultless (ht : t.objective.Answers)
    (hstarts : ∀ x ∈ t.starts, t.region.Feasible x) (hp : p.IsNumeric) :
    Faultless (fun _ s => s.initialized = false) (setUp t p : SearchM σ ℝ n (State ℝ n) Unit)
      fun _ => Ready := by
  apply Faultless.own_bind
  intro o s hs
  apply Faultless.bind (.require (congrArg not hs) _)
  intro _
  apply Faultless.bind .markRunning
  intro _
  apply Faultless.bind (.modifyOwn (S := fun _ s => s.initialized = true) fun _ _ _ => rfl)
  intro _
  apply Faultless.drawOr_bind (start_meets hstarts hp.stepSize)
  intro x _
  apply Faultless.bind
    (.trial ht (S := fun o s => o.isSome = true ∧ s.initialized = true) fun o v s hs =>
      ⟨isSome_improve o _ v, hs⟩)
  intro _
  apply Faultless.bind (.useNumber hp.stepSize)
  intro stepSize
  apply Faultless.bind (bestInCube_faultless fun _ _ hs => hs.1)
  intro best
  apply Faultless.modifyOwn
  rintro o s ⟨hbest, hinitialized⟩
  refine ⟨hinitialized, hbest, _, rfl, ?_, t.region.nonempty⟩
  exact ((List.length_map _).trans (List.length_map _)).trans List.length_range

theorem run_faultless (ht : t.objective.Answers) (hstarts : ∀ x ∈ t.starts, t.region.Feasible x)
    (hp : p.IsNumeric) (hstep : p.StepsAhead) (hn : n < 10 ^ 24) :
    Faultless (fun _ s => s.initialized = false) (run t p : SearchM σ ℝ n (State ℝ n) Unit)
      fun _ => Ready :=
  .bind (setUp_faultless ht hstarts hp) fun _ => .repeatWhile (step_faultless ht hp hstep hn) _

end Rotation

/-! ## 5. Partitions -/

namespace Hull

variable {cells : List (Sighting ℝ)}

/-- Where there are cells there are candidates, the cheapest cell of every level among them. -/
theorem candidates_ne_nil (h : cells ≠ []) : candidates cells ≠ [] := by
  obtain ⟨d, hd⟩ := List.exists_mem_of_ne_nil cells h
  obtain ⟨e, he, -⟩ := exists_candidate_le hd
  exact List.ne_nil_of_mem he

/-- There is a selection among some cells, and it selects places of cells. -/
theorem select_eq_some (ep : ℝ) (h : cells ≠ []) :
    ∃ selection, select ep cells = some selection ∧ ∀ i ∈ selection.1, i < cells.length := by
  have hplace {c : ℕ × Sighting ℝ} (hc : c ∈ candidates cells) : c.1 < cells.length :=
    (List.getElem?_eq_some_iff.mp (getElem?_of_mem_candidates hc)).1
  unfold select
  cases hcandidates : candidates cells with
  | nil => exact absurd hcandidates (candidates_ne_nil h)
  | cons first rest =>
    dsimp only
    split
    · refine ⟨_, rfl, fun i hi => ?_⟩
      rw [List.mem_singleton.mp hi]
      exact hplace (hcandidates ▸ List.mem_cons_self)
    · refine ⟨_, rfl, fun i hi => ?_⟩
      obtain ⟨c, hc, rfl⟩ := List.mem_map.mp hi
      exact hplace (List.mem_of_mem_filter hc)

end Hull

namespace Partition

/-- The search was set up, there are cells, and the given places are places of cells. -/
structure Holds (places : List ℕ) (s : State ℝ n) : Prop where
  initialized : s.initialized = true
  cells : s.cells ≠ []
  places : ∀ place ∈ places, place < s.cells.length

variable {p : Params ℝ} {places : List ℕ}

omit [DrawSource σ ℝ]

theorem probe_faultless (ht : t.objective.Answers) {P : State ℝ n → Prop} (c : Cell ℝ n) (delta : ℝ)
    (sides : List (Fin n)) :
    Faultless (fun _ => P) (probe t c delta sides : SearchM σ ℝ n (State ℝ n) (List (Probe ℝ n)))
      fun _ _ => P := by
  induction sides with
  | nil => exact .pure fun _ _ hk => hk
  | cons i rest ih =>
    apply Faultless.bind (.trial ht (S := fun _ => P) fun _ _ _ hk => hk)
    intro fl
    apply Faultless.bind (.trial ht (S := fun _ => P) fun _ _ _ hk => hk)
    intro fr
    exact .bind ih fun others => .pure fun _ _ hk => hk

/-- A division takes no place away. -/
theorem divide_faultless (ht : t.objective.Answers) {place : ℕ} (h : place ∈ places) :
    Faultless (fun _ => Holds places) (divide t place : SearchM σ ℝ n (State ℝ n) Unit)
      fun _ _ => Holds places := by
  apply Faultless.own_bind
  intro o s hs
  rw [List.getElem?_eq_getElem (hs.places place h)]
  apply Faultless.bind (.useNumber (thirdOf_isNumber _))
  intro delta
  apply Faultless.bind (probe_faultless ht _ delta _)
  intro probes
  have hmore (middle : Cell ℝ n) (new : List (Cell ℝ n)) (s : State ℝ n) :
      s.cells.length ≤ (s.cells.set place middle ++ new).length := by
    rw [List.length_append, List.length_set]
    exact Nat.le_add_right _ _
  exact .modifyOwn fun _ s hs =>
    ⟨hs.initialized,
      List.ne_nil_of_length_pos ((List.length_pos_iff.mpr hs.cells).trans_le (hmore _ _ s)),
      fun q hq => (hs.places q hq).trans_le (hmore _ _ s)⟩

theorem divideAll_faultless (ht : t.objective.Answers) {chosen : List ℕ} (h : chosen ⊆ places) :
    Faultless (fun _ => Holds places) (divideAll t chosen : SearchM σ ℝ n (State ℝ n) Unit)
      fun _ _ => Holds places := by
  induction chosen with
  | nil => exact .pure fun _ _ hk => hk
  | cons place rest ih =>
    apply Faultless.bind .withinBudget
    intro b
    apply Faultless.ite
    · intro _
      apply Faultless.bind (divide_faultless ht (h List.mem_cons_self))
      exact fun _ => ih fun q hq => h (List.mem_cons_of_mem place hq)
    · exact fun _ => .pure fun _ _ hk => hk

theorem enterRecord_faultless :
    Faultless (fun _ => Holds places) (enterRecord : SearchM σ ℝ n (State ℝ n) Unit)
      fun _ _ => Holds places := by
  apply Faultless.ledger_bind
  intro L _ _
  apply Faultless.own_bind
  intro o s _
  exact .bind (.modifyOwn fun _ _ hs => ⟨hs.initialized, hs.cells, hs.places⟩) fun _ => .report _

theorem checkTarget_faultless (hp : p.IsNumeric) :
    Faultless (fun _ => Holds places) (checkTarget p : SearchM σ ℝ n (State ℝ n) Bool)
      fun _ _ => Holds places := by
  apply checkTarget_rule
  · exact fun _ hd => hd
  · exact fun _ _ _ hd _ _ _ => hd
  · intro d f _ htarget
    obtain ⟨target, hnumber⟩ := hp.target _ htarget
    exact nomatch hnumber

theorem checkIterations_faultless :
    Faultless (fun _ => Holds places) (checkIterations t p : SearchM σ ℝ n (State ℝ n) Bool)
      fun _ _ => Holds places := by
  apply checkIterations_rule
  · exact fun _ hd _ => hd
  · exact fun _ _ hd _ _ _ => hd
  · exact fun _ _ hd _ _ _ => hd

/-- The places that are selected are places of cells. -/
theorem select_faultless (hp : p.IsNumeric) :
    Faultless (fun _ => Holds []) (select p : SearchM σ ℝ n (State ℝ n) (List ℕ))
      fun places _ => Holds places := by
  obtain ⟨ep, hep⟩ := hp.ep
  apply Faultless.own_bind_eq
  rintro s ⟨-, hs⟩
  obtain ⟨selection, hselection, hplaces⟩ :=
    Hull.select_eq_some ep (List.map_eq_nil_iff.not.mpr hs.cells : s.cells.map Cell.sighting ≠ [])
  rw [List.length_map] at hplaces
  have hfor : Hull.selectFor p.ep (s.cells.map Cell.sighting) = .ok selection := by
    rw [hep]
    exact congrArg (Usable.ofOption _) hselection
  apply Faultless.use_bind hfor
  apply Faultless.bind (.reportIf _ _)
  intro _
  exact .pure fun _ s' hs' => hs' ▸ ⟨hs.initialized, hs.cells, hplaces⟩

theorem iterate_faultless (ht : t.objective.Answers) (hp : p.IsNumeric) :
    Faultless (fun _ => Holds []) (iterate t p : SearchM σ ℝ n (State ℝ n) Bool)
      fun _ _ => Holds [] := by
  apply Faultless.own_bind
  intro o s hs
  apply Faultless.bind (.require hs.initialized _)
  intro _
  apply Faultless.ledger_bind
  intro L _ _
  apply Faultless.bind .withinBudget
  intro b
  apply Faultless.ite
  · exact fun _ => .pure fun _ _ hk => hk
  · intro _
    apply Faultless.bind (select_faultless hp)
    intro places
    have hnone {s : State ℝ n} (hs : Holds places s) : Holds [] s :=
      ⟨hs.initialized, hs.cells, fun _ hq => nomatch hq⟩
    apply Faultless.bind (divideAll_faultless ht (List.Subset.refl places))
    intro _
    apply Faultless.bind .endRound
    intro _
    apply Faultless.bind enterRecord_faultless
    intro _
    apply Faultless.bind (checkTarget_faultless hp)
    intro b
    apply Faultless.ite
    · exact fun _ => .pure fun _ _ hk => hnone hk
    · intro _
      apply Faultless.bind checkIterations_faultless
      intro b
      apply Faultless.ite
      · exact fun _ => .pure fun _ _ hk => hnone hk
      · exact fun _ => Faultless.withinBudget.post fun _ _ _ hk => hnone hk

theorem setUp_faultless (ht : t.objective.Answers) (hp : p.IsNumeric) :
    Faultless (fun _ s => s.initialized = false) (setUp t p : SearchM σ ℝ n (State ℝ n) Bool)
      fun _ _ => Holds [] := by
  apply Faultless.own_bind
  intro o s hs
  apply Faultless.bind (.require (congrArg not hs) _)
  intro _
  apply Faultless.bind .markRunning
  intro _
  apply Faultless.bind (.modifyOwn (S := fun _ s => s.initialized = true) fun _ _ _ => rfl)
  intro _
  apply Faultless.bind (.trial ht (S := fun _ s => s.initialized = true) fun _ _ _ hs => hs)
  intro v
  have hwhole (s : State ℝ n) (hs : s.initialized = true) :
      Holds [] { s with cells := s.cells ++ [Cell.whole v] } :=
    ⟨hs, List.append_ne_nil_of_right_ne_nil _ (List.cons_ne_nil _ _), fun _ hq => nomatch hq⟩
  apply Faultless.bind (.modifyOwn (S := fun _ => Holds []) fun _ s hs => hwhole s hs)
  intro _
  apply Faultless.bind enterRecord_faultless
  intro _
  exact .bind (checkTarget_faultless hp) fun _ => .pure fun _ _ hk => hk

theorem run_faultless (ht : t.objective.Answers) (hp : p.IsNumeric) :
    Faultless (fun _ s => s.initialized = false) (run t p : SearchM σ ℝ n (State ℝ n) Unit)
      fun _ _ => Holds [] := by
  apply Faultless.bind (setUp_faultless ht hp)
  intro b
  apply Faultless.ite
  · exact fun _ => .repeatWhile (iterate_faultless ht hp) _
  · exact fun _ => .pure fun _ _ hk => hk

end Partition

end BoxSearch
