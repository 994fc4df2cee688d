import BoxSearch.Evolution
import BoxSearch.Grid.Rows
import BoxSearch.Region.OnGrid

/-!
# Table of a population — parents and children chosen by hand

A population that is driven by hand is a table: a grid for the points, one for the step sizes and
one for the costs. The grids are put in place as they come and need not fit together; what is
missing is found out when it is used.
-/

namespace BoxSearch.Evolution

/-- The members of a population, a grid for each of their properties. -/
structure Table (α : Type) where
  points : Grid α
  steps : Grid α
  costs : Grid (Cost α)

namespace Table

variable {σ α : Type} [Scalar α] [DrawSource σ α] {n : Nat}

def ofMembers (ms : List (Member α n)) : Table α where
  points := .ofPoints (ms.map (·.point))
  steps := .ofPoints (ms.map (·.steps))
  costs := .row (ms.map (·.cost))

/-- The table of points that were chosen to begin with, all with the same step sizes, and of the costs
that are known. -/
def ofChosen (steps : Point α n) (chosen : List (Point α n)) (costs : List (Cost α)) : Table α where
  points := .ofPoints chosen
  steps := .ofPoints (chosen.map fun _ => steps)
  costs := .row costs

/-- Rows with a part for every variable, the parts of integer variables replaced by those of the
picked parents. -/
def inherit (r : Region α n) (parents : Grid α) (picks : List Int) (mean : Grid α) :
    Usable α (Grid α) := do
  let chosen ← parents.rowsAt picks
  if mean.shape.head? = some n then
    (List.finRange n).foldlM (fun x i => do
      if r.integral.get i then x.setRow i (← (← chosen.rowAt i).rowAt i) else pure x) mean
  else .error .noSuchMember

/-- What the family at some places recombines to. -/
def recombine (r : Region α n) (tb : Table α) (family : List Int) : ChoiceM σ α (Grid α) := do
  let parents ← .use (tb.points.rowsAt family)
  if r.hasIntegers then
    -- Rows of any length have a mean, but only from rows with a coordinate for each variable can
    -- integer variables be inherited.
    let picks ← Draw.times n (Draw.below (σ := σ) (α := α) family.length)
    .use (inherit r parents picks parents.meanRow)
  else pure parents.meanRow

/-- The `size` cheapest of the members of two tables, earlier members first among equals. -/
def compete (size : Nat) (parents children : Table α) : Usable α (Table α) := do
  let points ← .ofOption .misshapen (parents.points.append? children.points)
  let steps ← .ofOption .misshapen (parents.steps.append? children.steps)
  let costs ← .ofOption .misshapen (parents.costs.append? children.costs)
  let keep := ((Cost.rankedPlaces costs.values).take size).map Int.ofNat
  .ok ⟨← points.rowsAt keep, ← steps.rowsAt keep, ← costs.rowsAt keep⟩

end Table

variable {σ α : Type} [Scalar α] [DrawSource σ α] {n : Nat}

/-- Mutated step sizes of any shape that can be stretched to one for each variable. -/
def mutateStepGrid (n : Nat) (rates : Rates α) (steps : Grid α) : ChoiceM σ α (Grid α) := do
  let (shared, own) ← stepFactors (n := n) rates
  -- The step sizes are looked at after all factors are drawn.
  let pairs ← .use (.ofOption .misshapen (steps.pair? (.row own.toList)))
  pure (pairs.map fun (s, f) => shared * s * f)

/-- The step sizes of a child of the family at some places. -/
def Table.childSteps (n : Nat) (rates : Rates α) (tb : Table α) (family : List Int) :
    ChoiceM σ α (Grid α) := do
  let rows ← .use (tb.steps.rowsAt family)
  mutateStepGrid n rates rows.meanRow

/-! ## 2. Mutation -/

def placesOf (flags : Vector Bool n) : List Int :=
  ((List.finRange n).filter fun i => flags.get i).map fun i => (i.val : Int)

/-- The rows of a grid at the variables of a kind, of which the grid must have one for each
variable. -/
def rowsOf (flags : Vector Bool n) (g : Grid α) : Usable α (Grid α) :=
  if g.shape.head? = some n then g.rowsAt (placesOf flags) else .error .noSuchMember

def mutateRealRows (r : Region α n) (x steps : Grid α) : ChoiceM σ α (Grid α) := do
  -- Adds a normal step to the rows of every real variable.
  let real := r.integral.map (!·)
  let rows ← .use (rowsOf real x)
  let sizes ← .use (rowsOf real steps)
  let zs : List α ← .draw (Draw.times (placesOf real).length DrawSource.normal)
  let moves ← .use (Grid.combine (· * ·) sizes (.row zs))
  let moved ← .use (Grid.combine (· + ·) rows moves)
  if moved.shape = rows.shape then .use (x.setRows (placesOf real) moved)
  else .use (.error .misshapen)

/-- Draws the row of each integer variable anew with the chance of the settings. -/
def mutateIntegerRows (r : Region α n) (p : Params α) (x : Grid α) : ChoiceM σ α (Grid α) := do
  if r.hasIntegers then
    let u : Point α n ← .draw (Draw.uniforms n)
    let chosen := fun i => r.integral.get i && decide (u.get i < p.mutation)
    requireWords r chosen
    let places := (List.finRange n).filter chosen
    let values ← places.mapM (resample r)
    if places.isEmpty then pure x
    else .use (x.setRows (places.map fun i => (i.val : Int)) (.row values))
  else pure x

/-- Mutates a grid with a row for every variable and clamps it. -/
def mutateGrid (r : Region α n) (p : Params α) (x steps : Grid α) : ChoiceM σ α (Grid α) := do
  let x ← mutateRealRows r x steps
  let x ← mutateIntegerRows r p x
  .use (r.clampGrid x)

end BoxSearch.Evolution
