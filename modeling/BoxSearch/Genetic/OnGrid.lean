import BoxSearch.Genetic
import BoxSearch.Grid.Rows
import BoxSearch.Region.OnGrid

/-!
# Genetic search on grids — children of parents of any length

Parents that are given by hand need not have a coordinate for each variable. Their children are bred
variable by variable like any others; a coordinate that is missing shows when it is crossed, and
children that are no points of the box show when they are clamped.
-/

namespace BoxSearch.Genetic

variable {σ α : Type} [Scalar α] [DrawSource σ α] {n : Nat}

def crossInto (r : Region α n) (p : Params α) (lengths : Vector Nat n) (a b : Grid α)
    (children : Grid α × Grid α) (i : Fin n) : ChoiceM σ α (Grid α × Grid α) := do
  match ← crossVariable r p (lengths.get i) i (a.valueAt i) (b.valueAt i) with
  | some (x, y) => do
    let first ← .use (children.1.setRow i (.single x))
    let second ← .use (children.2.setRow i (.single y))
    pure (first, second)
  | none => pure children

def breedGrids (r : Region α n) (p : Params α) (lengths : Vector Nat n) (a b : Grid α) :
    ChoiceM σ α (Grid α × Grid α) := do
  let (x, y) ← (List.finRange n).foldlM (crossInto r p lengths a b) (a, b)
  let first ← .use (r.clampGrid x)
  let second ← .use (r.clampGrid y)
  pure (first, second)

end BoxSearch.Genetic
