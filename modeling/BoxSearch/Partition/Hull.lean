import BoxSearch.Fault

/-!
# Hull — which cells may hold the optimum

A cell is seen as its level, its size and the cost at its centre. The cheapest cells of every level
are the candidates. A candidate is promising if some rate of change of the objective would make it
the best of all candidates, and if at that rate it would improve on the least cost by a given
fraction.
-/

namespace BoxSearch

/-- What the selection sees of a cell. -/
structure Sighting (α : Type) where
  -- The number of cuts; cells of equal level have equal size.
  level : Int
  size : α
  cost : α

namespace Hull

variable {α : Type} [Scalar α]

/-- Costs of one level that differ by no more than this tie. -/
def tieTolerance : α := 1e-13

def slopeBelow : α := -1.976e14

def slopeAbove : α := 1.976e14

/-! ## 1. Candidates -/

/-- The place of the least cost, the first among equals. -/
def cheapest : List (Nat × Sighting α) → Option (Nat × Sighting α)
  | [] => none
  | c :: rest => some (rest.foldl (fun best c =>
      -- An undefined cost comes before any other.
      if Scalar.isUndefined best.2.cost then best
      else if best.2.cost ≤ c.2.cost then best else c) c)

def levels (cells : List (Sighting α)) : List Int :=
  (cells.map (·.level)).mergeSort.eraseDups

/-- The candidates of one level: its cheapest cell, then the cells that tie it. -/
def candidatesOf (cells : List (Nat × Sighting α)) (level : Int) : List (Nat × Sighting α) :=
  let members := cells.filter fun c => c.2.level == level
  match cheapest members with
  | none => []
  | some best => best :: members.filter fun c =>
      c.1 != best.1 && decide (Scalar.abs (c.2.cost - best.2.cost) ≤ tieTolerance)

def candidates (cells : List (Sighting α)) : List (Nat × Sighting α) :=
  (levels cells).flatMap (candidatesOf (cells.zipIdx.map fun (c, i) => (i, c)))

/-! ## 2. Slopes -/

/-- The extreme of some slopes, or a bound that stands for it where there are none. -/
def extreme (pick : α → α → α) (bound : α) : List α → α
  | [] => bound
  | s :: rest => rest.foldl pick s

def steepestBelow (hull : List (Sighting α)) (c : Sighting α) : α :=
  extreme Scalar.strictMost slopeBelow <|
    (hull.filter fun d => decide (c.level < d.level)).map fun d =>
      (c.cost - d.cost) / (c.size - d.size)

def flattestAbove (hull : List (Sighting α)) (c : Sighting α) : α :=
  extreme Scalar.strictLeast slopeAbove <|
    (hull.filter fun d => decide (d.level < c.level)).map fun d =>
      (d.cost - c.cost) / (d.size - c.size)

/-! ## 3. Selection -/

/-- Whether `c`, at the rate `rate`, improves on the least cost by the fraction `ep`. -/
def improves (ep least rate : α) (c : Sighting α) : Bool :=
  if Scalar.same least 0.0 then decide (c.cost - c.size * rate ≤ 0.0)
  else
    decide (ep ≤ (least - c.cost) / Scalar.abs least + c.size * rate / Scalar.abs least)

/-- Whether some rate of change would make a candidate the best of all. -/
def isExtreme (hull : List (Sighting α)) (c : Sighting α) : Bool :=
  decide (steepestBelow hull c - flattestAbove hull c ≤ 0.0)

def isPromising (ep least : α) (hull : List (Sighting α)) (c : Sighting α) : Bool :=
  isExtreme hull c && improves ep least (flattestAbove hull c) c

/-- The least cost of some cells, an undefined one before any other. -/
def leastCost (cells : List (Sighting α)) : α :=
  match cells with
  | [] => 0.0
  | c :: rest => (rest.map (·.cost)).foldl Scalar.strictLeast c.cost

def promising (ep : α) (cells : List (Sighting α)) : List Nat :=
  let hull := candidates cells
  let sightings := hull.map (·.2)
  (hull.filter fun c => isPromising ep (leastCost cells) sightings c.2).map (·.1)

/-- The selected places. The flag tells whether the fallback was needed. -/
def select (ep : α) (cells : List (Sighting α)) : Option (List Nat × Bool) :=
  match candidates cells with
  -- There is no selection among no cells.
  | [] => none
  | first :: _ =>
    match promising ep cells with
    -- No candidate is promising: the first candidate of the largest cells stands in.
    | [] => some ([first.1], true)
    | places => some (places, false)

/-- Whether a selection looks at the fraction by which a candidate has to improve. -/
def weighsImprovement (cells : List (Sighting α)) : Bool :=
  let hull := (candidates cells).map (·.2)
  !Scalar.same (leastCost cells) 0.0 && hull.any (isExtreme hull)

def selectFor (ep : Quantity α) (cells : List (Sighting α)) : Usable α (List Nat × Bool) :=
  match ep with
  | .ok ep => .ofOption .noSuchMember (select ep cells)
  | .error f =>
    if weighsImprovement cells then .error f
    else .ofOption .noSuchMember (select 0.0 cells)

end Hull

end BoxSearch
