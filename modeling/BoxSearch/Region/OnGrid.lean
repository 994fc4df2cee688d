import BoxSearch.Draw

/-!
# Regions on grids — many points at once

The maps of a region apply to grids of numbers whose last direction runs through the variables, or
to which the variables can be stretched. Clamping and rounding work in place, so that their grid
must not need stretching; rounding takes the variables along the first direction.
-/

namespace BoxSearch.Region

variable {σ α : Type} [Scalar α] [DrawSource σ α] {n : Nat}

def mapGrid (f : Fin n → α → α) (g : Grid α) : Usable α (Grid α) := do
  let pairs ← .ofOption .misshapen (g.pair? (.row (List.finRange n)))
  .ok (pairs.map fun (v, i) => f i v)

def clampGrid (r : Region α n) (g : Grid α) : Usable α (Grid α) := do
  let clamped ← mapGrid r.clampAt g
  if clamped.shape = g.shape then .ok clamped else .error .misshapen

def roundGrid (r : Region α n) (g : Grid α) : Usable α (Grid α) :=
  if r.hasIntegers then .ofOption .noSuchMember (g.mapRows? r.integral.toList Scalar.nearest)
  else .ok g

def repairGrid (r : Region α n) (g : Grid α) : Usable α (Grid α) := do
  r.clampGrid (← r.roundGrid g)

def toUnitGrid (r : Region α n) (g : Grid α) : Usable α (Grid α) := mapGrid r.toUnitAt g

def ofUnitGrid (r : Region α n) (g : Grid α) : Usable α (Grid α) := do
  r.clampGrid (← mapGrid r.atFraction g)

/-- A normal step away from the given centres, as many times as long as the widths as the scale
says. -/
def normalGrid (r : Region α n) (centers : Grid α) (scale : Usable α (Grid α)) :
    ChoiceM σ α (Grid α) := do
  -- The same normal numbers serve all centres, and they are drawn before the scale is looked at.
  let z : Point α n ← .draw (Draw.normals n)
  let scaled ← .use (do
    .ofOption .misshapen ((Grid.row z.toList).pair? (← scale)))
  let steps ← .use (mapGrid (fun i v => v * r.width i) (scaled.map fun (z, c) => z * c))
  let moved ← .use (.ofOption .misshapen (centers.pair? steps))
  .use (r.repairGrid (moved.map fun (x, d) => x + d))

end BoxSearch.Region
