import BoxSearch.Search

/-!
# Population — the points that a population starts from

A population takes the given start points first and fills up with random points: uniform ones, or
normal steps away from its first start point. All are chosen before the first is evaluated.
-/

namespace BoxSearch

/-- How the points that are not given are chosen. -/
inductive Sampling where
  | uniform
  | gaussian
  deriving DecidableEq, Repr

def Sampling.table : List (String × Sampling) := [("uniform", .uniform), ("gaussian", .gaussian)]

namespace Population

variable {σ α κ : Type} [Scalar α] [DrawSource σ α] {n : Nat}

def samplePoint (t : Task α n) (sampling : Sampling) (spread : Quantity α) (base : Point α n) :
    ChoiceM σ α (Point α n) :=
  match sampling with
  | .uniform => .draw (Draw.uniformPoint t.region)
  | .gaussian => Draw.normalPoint t.region base spread

def base (t : Task α n) : StateM σ (Point α n) :=
  match t.starts with
  -- Normal steps go out from the first start point, or else from a uniform one.
  | x :: _ => pure x
  | [] => Draw.uniformPoint t.region

def points (t : Task α n) (size : Nat) (sampling : Sampling) (spread : Quantity α) :
    ChoiceM σ α (List (Point α n)) := do
  let given := t.starts.take size
  let center ← .draw (base t)
  let others ← Draw.times (size - given.length) (samplePoint t sampling spread center)
  pure (given ++ others)

/-- Evaluates points in order, as far as the budget and the costs allow. -/
def evaluateAll (t : Task α n) (keep : Sample α n → κ → κ) :
    List (Point α n) → SearchM σ α n κ Unit
  | [] => pure ()
  | x :: rest => do
    SearchM.requireBudget t
    let c ← SearchM.evaluate t x
    -- The point is kept before its cost is looked at, also if that ends the search.
    SearchM.modifyOwn (keep ⟨x, c⟩)
    let _ ← SearchM.requireFinite c
    evaluateAll t keep rest

end Population

end BoxSearch
