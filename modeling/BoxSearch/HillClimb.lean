import BoxSearch.Search

/-!
# Hill climbing — one point that only moves downhill

The search stands at a point, tries a normal step away from it, and moves only if the trial is
strictly cheaper. The standard deviation of the step is a fraction of every width.
-/

namespace BoxSearch.HillClimb

variable {σ α : Type} [Scalar α] [DrawSource σ α] {n : Nat}

structure Params (α : Type) where
  -- Standard deviation of a step as a fraction of the width.
  stepSize : Quantity α

def start (t : Task α n) : StateM σ (Point α n) :=
  match t.starts with
  | x :: _ => pure x
  | [] => Draw.uniformPoint t.region

def neighbour (t : Task α n) (stepSize : α) (x : Point α n) : StateM σ (Point α n) := do
  let z ← Draw.normals n
  pure (t.region.repair
    (Vector.ofFn fun i => x.get i + z.get i * (stepSize * t.region.width i)))

/-- Climbs from `x`, which costs `fx`, for at most `fuel` trials within the budget. -/
def climb (t : Task α n) (stepSize : α) : Nat → Point α n → α → SearchM σ α n Unit Unit
  | 0, _, _ => pure ()
  | fuel + 1, x, fx => do
    if ← SearchM.withinBudget t then
      let y ← SearchM.draw (neighbour t stepSize x)
      let fy ← SearchM.trial t y
      SearchM.endRound
      if fy < fx then climb t stepSize fuel y fy else climb t stepSize fuel x fx

def run (t : Task α n) (p : Params α) : SearchM σ α n Unit Unit := do
  let x ← SearchM.draw (start t)
  let stepSize ← SearchM.use p.stepSize
  let fx ← SearchM.trial t x
  climb t stepSize t.budget x fx

end BoxSearch.HillClimb
