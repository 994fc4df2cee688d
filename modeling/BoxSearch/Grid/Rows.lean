import BoxSearch.Fault

/-!
# Rows — the rows of a grid

The rows of a grid are the grids along its first direction. Rows are read, replaced, added up and
combined with the rows of other grids. A row that is not there, or that does not fit, is a fault.
-/

namespace BoxSearch.Grid

variable {α β γ δ : Type}

/-! ## 1. Combining grids -/

/-- The grid of what a function makes of the values of two grids, stretched to each other. -/
def combine (f : β → γ → δ) (g : Grid β) (h : Grid γ) : Usable α (Grid δ) := do
  let pairs ← .ofOption .misshapen (g.pair? h)
  .ok (pairs.map fun (b, c) => f b c)

/-- The grid stretched to a shape. -/
def fitted? (g : Grid β) (shape : List Nat) : Option (Grid β) :=
  -- Leading directions of length one that the shape lacks are dropped.
  let extra := g.shape.length - shape.length
  if (g.shape.take extra).all (· == 1) then
    ({ g with shape := g.shape.drop extra } : Grid β).stretchTo? shape
  else none

/-! ## 2. Points -/

def ofPoints {n : Nat} (xs : List (Point α n)) : Grid α :=
  ⟨[xs.length, n], xs.flatMap Vector.toList⟩

def point? (n : Nat) (g : Grid α) : Option (Point α n) :=
  if g.shape.length = 1 then Point.ofList? n g.values else none

def points? (n : Nat) (g : Grid α) : Option (List (Point α n)) :=
  g.rows?.bind fun rows => rows.mapM (Point.ofList? n)

/-! ## 3. Sums -/

def sumRows [Scalar α] (g : Grid α) : Grid α :=
  let rest := g.shape.drop 1
  let rows := splitRows (volume rest) (g.shape.headD 0) g.values
  ⟨rest, rows.foldl (List.zipWith (· + ·)) (List.replicate (volume rest) 0.0)⟩

/-- The mean of the rows: they are added in order, then divided. -/
def meanRow [Scalar α] (g : Grid α) : Grid α :=
  g.sumRows.map (· / Scalar.ofNat (g.shape.headD 0))

/-! ## 4. Rows at places -/

def rowAt (g : Grid β) (place : Int) : Usable α (Grid β) := .ofOption .noSuchMember (g.rowAt? place)

def rowsAt (g : Grid β) (places : List Int) : Usable α (Grid β) :=
  .ofOption .noSuchMember (g.rowsAt? places)

def valueAt (g : Grid β) (place : Int) : Usable α β := do
  let row : Grid β ← g.rowAt place
  .ofOption .misshapen (if row.shape.isEmpty then row.values.head? else none)

/-- The grid with other rows at some places, one for each or one that is stretched to all. -/
def setRows (g : Grid β) (places : List Int) (rows : Grid β) : Usable α (Grid β) :=
  match g.shape with
  | [] => .error .noSuchMember
  | count :: rest => do
    let is ← .ofOption .noSuchMember (places.mapM (Place.inRow count))
    let fitted : Grid β ← .ofOption .misshapen (rows.fitted? (is.length :: rest))
    let old := splitRows (volume rest) count g.values
    let new := splitRows (volume rest) is.length fitted.values
    .ok { g with values := ((is.zip new).foldl (fun rows (i, row) => rows.set i row) old).flatten }

def setRow (g : Grid β) (place : Int) (row : Grid β) : Usable α (Grid β) :=
  g.setRows [place] { row with shape := 1 :: row.shape }

end BoxSearch.Grid
