import BoxSearch.Session.Steps

/-!
# Steps of a simplex — vertices moved by hand

The vertices of a simplex can be replaced, and its rounds and shrinkages carried out one by one.
Rows that are no points of the region are evaluated like vertices, but no round can work on them.
-/

namespace BoxSearch.SessionM

variable {n : Nat}

def evaluateRows : List (Grid Float) → SessionM n (List (Cost Float))
  | [] => pure []
  | row :: rest => do
    let c ← evaluateGrid row
    return c :: (← evaluateRows rest)

/-- Replaces the vertices by rows that are no points of the region. -/
def placeRows (g : Grid Float) : SessionM n Unit := do
  let s ← get
  let old := (s.simplex?.map (·.2)).getD []
  -- Until all rows are evaluated and ranked, the costs before them stand.
  modify fun s => { s with placed := some (.vertices g old) }
  match g.shape with
  | [] => use (.error .notNumber)
  | count :: rest => do
    let rows := (Grid.splitRows (Grid.volume rest) count g.values).map fun row => ⟨rest, row⟩
    let costs ← evaluateRows rows
    let order := (Cost.rankedPlaces costs).map Int.ofNat
    let points ← use (.ofOption .noSuchMember (g.rowsAt? order))
    modify fun s => { s with placed := some (.vertices points (Cost.rank id costs)) }

def placeVertices (given : Setting) : SessionM n (List (Cost Float)) := do
  -- Replaces the vertices. The answer is their costs, the least first.
  let g ← grid given
  let s ← get
  match s.engine, g.points? n with
  | .simplex _ _, some (first :: rest) =>
    set { s with placed := none }
    step fun r => r.placeVertices s.task (first :: rest)
  | .simplex _ _, _ => placeRows g
  | _, _ => throw .notOffered
  return ((← get).simplex?.map (·.2)).getD []

def requirePoints : SessionM n Unit := do
  -- Refuses to work on vertices that are no points of the region.
  match (← get).placed with
  | some (.vertices g _) =>
    use (.error (if g.shape.headD 0 ≤ n then .noSuchMember else .misshapen))
  | _ => pure ()

def round : SessionM n Bool := do
  requirePoints
  let s ← get
  step fun r => r.round s.task

def shrink : SessionM n Bool := do
  requirePoints
  let s ← get
  step fun r => r.shrink s.task

end BoxSearch.SessionM
