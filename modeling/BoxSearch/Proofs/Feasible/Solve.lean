import Mathlib
import BoxSearch.Engine
import BoxSearch.Proofs.Feasible.Methods
import BoxSearch.Proofs.Feasible.Populations

/-!
# Every evaluated point is feasible

A run of any method, on any objective and with any draws, passes only feasible points to the
objective, provided that its start points were repaired and its settings are numbers.  So the check
of a debug run never refuses a point.
-/

namespace BoxSearch

/-- The integers from `lo` to `hi` in one variable. -/
noncomputable def Region.integers (lo hi : ℤ) (h : lo ≤ hi) : Region ℝ 1 where
  lower := Vector.ofFn fun _ => lo
  upper := Vector.ofFn fun _ => hi
  integral := Vector.ofFn fun _ => true
  nonempty := Nat.one_pos
  finite _ := ⟨rfl, rfl⟩
  ordered i := by
    rw [Point.get_ofFn, Point.get_ofFn]
    exact Int.cast_le.mpr h
  whole i _ := by
    rw [Point.get_ofFn, Point.get_ofFn, Scalar.same_real, Scalar.same_real, Scalar.nearest_real,
      Scalar.nearest_real, roundHalfEven_intCast, roundHalfEven_intCast]
    exact ⟨rfl, rfl⟩

/-- The unit square. -/
noncomputable def Region.square : Region ℝ 2 where
  lower := Point.fill 2 0
  upper := Point.fill 2 1
  integral := Vector.ofFn fun _ => false
  nonempty := Nat.two_pos
  finite _ := ⟨rfl, rfl⟩
  ordered i := by
    unfold Point.fill
    rw [Point.get_ofFn, Point.get_ofFn]
    exact zero_le_one' ℝ
  whole i hi := by
    rw [Point.get_ofFn] at hi
    exact absurd hi Bool.false_ne_true

/-- Every setting of the method that may be no number is one. -/
def Engine.IsNumeric {α : Type} {n : ℕ} : Engine α n → Prop
  | .hillClimb p => p.IsNumeric
  | .swarm p _ => p.IsNumeric
  | .genetic p _ _ => p.IsNumeric
  | .evolution p _ => p.IsNumeric
  | .simplex p _ => p.IsNumeric
  | .rotation p _ => p.IsNumeric
  | .partition p _ => p.IsNumeric

/-- The task with given start points, which are repaired first. -/
def Task.startingFrom {α : Type} [Scalar α] {n : ℕ} (t : Task α n) (rows : List (Point α n)) :
    Task α n :=
  { t with starts := rows.map t.region.repair }

theorem Task.feasible_startingFrom {n : ℕ} (t : Task ℝ n) (rows : List (Point ℝ n)) :
    ∀ x ∈ (t.startingFrom rows).starts, t.region.Feasible x := by
  intro x hx
  obtain ⟨row, -, rfl⟩ := List.mem_map.mp hx
  exact t.region.feasible_repair row

namespace Run

variable {σ : Type} [DrawSource σ ℝ] {n : ℕ}

/-- Whatever the objective answers and whatever is drawn, a run evaluates feasible points only and
meets no fault that a check of a point raises. -/
theorem solve_feasible (t : Task ℝ n) (rows : List (Point ℝ n)) (r : Run σ ℝ n)
    (hr : ∀ e ∈ r.ledger.trace, t.region.Feasible e.1) (hp : r.engine.IsNumeric) :
    (∀ e ∈ (r.solve (t.startingFrom rows)).2.ledger.trace, t.region.Feasible e.1) ∧
      ∀ f, (r.solve (t.startingFrom rows)).1 = .error f → f.IsOrdinary := by
  obtain ⟨L, draws, engine⟩ := r
  have hstarts := t.feasible_startingFrom rows
  cases engine with
  | hillClimb p =>
    exact Confined.solve (c := ⟨L, draws, ()⟩) hr trivial (HillClimb.run_confined hstarts hp)
  | swarm p s =>
    exact Confined.solve (c := ⟨L, draws, s⟩) hr trivial (Swarm.run_confined hstarts hp)
  | genetic p lengths s =>
    have hrun := Genetic.run_confined (σ := σ) hstarts hp lengths
    exact Confined.solve (c := ⟨L, draws, s⟩) hr trivial hrun
  | evolution p s =>
    exact Confined.solve (c := ⟨L, draws, s⟩) hr trivial (Evolution.run_confined hstarts hp)
  | simplex p s =>
    exact Confined.solve (c := ⟨L, draws, s⟩) hr trivial (Simplex.run_confined hstarts hp)
  | rotation p s =>
    exact Confined.solve (c := ⟨L, draws, s⟩) hr trivial (Rotation.run_confined hstarts hp)
  | partition p s =>
    exact Confined.solve (c := ⟨L, draws, s⟩) hr trivial (Partition.run_confined hp)

/-- The smallest of the integers from zero to three is looked for, in a debug run. -/
noncomputable def leastOfFour : Task ℝ 1 where
  region := .integers 0 3 (by decide)
  objective x _ := .ok (.finite (x.get 0))
  budget := 10
  starts := []
  checked := true

/-- The first coordinate is made small on the unit square. -/
noncomputable def leastOnSquare : Task ℝ 2 where
  region := .square
  objective x _ := .ok (.finite (x.get 0))
  budget := 12
  starts := []
  checked := false

/-- A climb that was not started yet, with steps of half the width. -/
noncomputable def climb : Run (Tape ℝ) ℝ 1 :=
  ⟨{}, ⟨fun _ => 0, fun _ => 1⟩, .hillClimb ⟨.ok 0.5⟩⟩

/-- A climb over four integers from a point between two of them. -/
theorem solve_feasible_leastOfFour :
    climb.engine.IsNumeric ∧
      (∀ e ∈ (climb.solve (leastOfFour.startingFrom [Vector.ofFn fun _ => 5 / 2])).2.ledger.trace,
        leastOfFour.region.Feasible e.1) ∧
      ∀ f, (climb.solve (leastOfFour.startingFrom [Vector.ofFn fun _ => 5 / 2])).1 = .error f →
        f.IsOrdinary :=
  have hp : climb.engine.IsNumeric := HillClimb.Params.IsNumeric.mk ⟨_, rfl⟩
  ⟨hp, solve_feasible leastOfFour [Vector.ofFn fun _ => 5 / 2] climb (fun _ he => nomatch he) hp⟩

end Run

end BoxSearch
