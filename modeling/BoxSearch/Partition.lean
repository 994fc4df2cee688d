import BoxSearch.Partition.Hull
import BoxSearch.Search

/-!
# Partition — the unit cube, cut into ever smaller cells

The search evaluates the centre of the cube and then divides cells: a promising cell is cut in three
along each of its longest sides, and the outer thirds become cells of their own. The dimension with
the better of the two new samples is cut first, so that good samples get large cells. A division
that halts leaves the cells as they were.

The budget is looked at before each division.
-/

namespace BoxSearch.Partition

structure Params (α : Type) where
  -- The relative improvement that a promising cell must be good for.
  ep : Quantity α
  -- The cap on iterations, if there is one.
  iterations : Option Nat
  -- The optimum, if it is known.
  target : Option (Quantity α)
  -- The percentage by which the least cost may miss the optimum.
  tolerance : α

/-- A cell of the partition. -/
structure Cell (α : Type) (n : Nat) where
  -- How often every side was cut; the side has length `3 ^ -cuts`. A search starts from sides that
  -- are not cut, and a cell put in place by hand may have longer ones.
  cuts : Vector Int n
  -- The centre in the unit cube.
  center : Point α n
  -- The cost at the centre.
  cost : α

structure State (α : Type) (n : Nat) where
  initialized : Bool := false
  cells : List (Cell α n) := []
  -- Iteration, evaluations and least cost, entered after every iteration.
  records : List (Nat × Nat × Option α) := []

variable {σ α : Type} [Scalar α] {n : Nat}

/-- Half the length of the diagonal of a box with the given sides. -/
def halfDiagonal (sides : List α) : α :=
  0.5 * Scalar.sqrt (Scalar.sum (sides.map fun s => s * s))

namespace Cell

def side (c : Cell α n) (i : Fin n) : α := Scalar.thirds (c.cuts.get i)

def size (c : Cell α n) : α := halfDiagonal (c.cuts.toList.map Scalar.thirds)

def level (c : Cell α n) : Int := c.cuts.toList.foldl (· + ·) 0

def sighting (c : Cell α n) : Sighting α := ⟨c.level, c.size, c.cost⟩

def fewestCuts (c : Cell α n) : Int := (c.cuts.toList.min?).getD 0

def longestSides (c : Cell α n) : List (Fin n) :=
  (List.finRange n).filter fun i => c.cuts.get i == c.fewestCuts

def whole (cost : α) : Cell α n := ⟨Vector.ofFn fun _ => 0, Point.fill n 0.5, cost⟩

def shifted (c : Cell α n) (i : Fin n) (offset : α) : Point α n :=
  c.center.set i.val (c.center.get i + offset) i.isLt

end Cell

def leastCost : List (Cell α n) → Option α
  | [] => none
  | c :: rest => some ((rest.map (·.cost)).foldl Scalar.least c.cost)

/-! ## 1. Division -/

/-- The two samples along one longest side. -/
structure Probe (α : Type) (n : Nat) where
  dimension : Fin n
  left : Point α n × α
  right : Point α n × α

def Probe.best (s : Probe α n) : α := Scalar.least s.left.2 s.right.2

/-- The order in which dimensions are cut: by the better cost, then by index. -/
def Probe.notAfter (a b : Probe α n) : Bool :=
  if a.best < b.best then true
  else if b.best < a.best then false
  else decide (a.dimension.val ≤ b.dimension.val)

def inRegion (r : Region α n) (u : Point α n) : Point α n := r.roundIntegers (r.ofUnit u)

/-- Samples both sides of the centre along each of the given dimensions. -/
def probe (t : Task α n) (c : Cell α n) (delta : α) :
    List (Fin n) → SearchM σ α n (State α n) (List (Probe α n))
  | [] => pure []
  | i :: rest => do
    let l := c.shifted i (-delta)
    let fl ← SearchM.trial t (inRegion t.region l)
    let r := c.shifted i delta
    let fr ← SearchM.trial t (inRegion t.region r)
    let others ← probe t c delta rest
    pure (⟨i, (l, fl), (r, fr)⟩ :: others)

/-- Cuts the sides in the order of the samples. The answer is the remaining middle and the new
cells. -/
def cut : List (Probe α n) → Vector Int n → Vector Int n × List (Cell α n)
  | [], cuts => (cuts, [])
  | s :: rest, cuts =>
    let cuts := cuts.set s.dimension.val (cuts.get s.dimension + 1) s.dimension.isLt
    -- The cells cut off here have the cuts made so far, not those that follow.
    let (final, cells) := cut rest cuts
    (final, ⟨cuts, s.left.1, s.left.2⟩ :: ⟨cuts, s.right.1, s.right.2⟩ :: cells)

def thirdOf (cuts : Int) : Quantity α :=
  let third := Scalar.thirds (cuts + 1)
  -- A side that was lengthened by hand may exceed all scalars.
  if Scalar.isFinite third then .ok third else .error .overflow

def divide (t : Task α n) (place : Nat) : SearchM σ α n (State α n) Unit := do
  -- Divides the cell at a place along all of its longest sides.
  match (← SearchM.own).cells[place]? with
  | none => throw (.fault .noSuchMember)
  | some c => do
    let probes ← probe t c (← SearchM.use (thirdOf c.fewestCuts)) c.longestSides
    let (cuts, cells) := cut (probes.mergeSort Probe.notAfter) c.cuts
    SearchM.modifyOwn fun s =>
      { s with cells := s.cells.set place { c with cuts } ++ cells }

/-! ## 2. Iterations -/

def enterRecord : SearchM σ α n (State α n) Unit := do
  let L ← SearchM.ledger
  let cells := (← SearchM.own).cells
  let least := leastCost cells
  SearchM.modifyOwn fun s => { s with records := s.records ++ [(L.rounds, L.evaluations, least)] }
  SearchM.report (.divided L.rounds cells.length least)

def percentError (target cost : α) : α :=
  if Scalar.same target 0.0 then 100.0 * cost
  else 100.0 * (cost - target) / Scalar.abs target

/-- Ends the search if the least cost is close enough to the known optimum. -/
def checkTarget (p : Params α) : SearchM σ α n (State α n) Bool := do
  match p.target, leastCost (← SearchM.own).cells with
  | some target, some least => do
    let error := percentError (← SearchM.use target) least
    if error < p.tolerance then
      SearchM.stop (.targetReached error)
      pure true
    else pure false
  | _, _ => pure false

def setUp (t : Task α n) (p : Params α) : SearchM σ α n (State α n) Bool := do
  SearchM.require (!(← SearchM.own).initialized) .alreadyInitialized
  SearchM.markRunning
  SearchM.modifyOwn fun s => { s with initialized := true }
  -- A centre without a finite cost leaves no cell, and the search is over.
  let v ← SearchM.trial t (inRegion t.region (Point.fill n 0.5))
  SearchM.modifyOwn fun s => { s with cells := s.cells ++ [Cell.whole v] }
  enterRecord
  -- The answer says whether the search may go on.
  return !(← checkTarget p)

def select (p : Params α) : SearchM σ α n (State α n) (List Nat) := do
  let (places, fallback) ← SearchM.use (Hull.selectFor p.ep ((← SearchM.own).cells.map Cell.sighting))
  SearchM.reportIf fallback (.nonePromising (places.headD 0))
  pure places

def divideAll (t : Task α n) : List Nat → SearchM σ α n (State α n) Unit
  | [] => pure ()
  | place :: rest => do
    if ← SearchM.withinBudget t then
      divide t place
      divideAll t rest

/-- Whether the cap on iterations is reached. -/
def checkIterations (t : Task α n) (p : Params α) : SearchM σ α n (State α n) Bool := do
  match p.iterations with
  | none => pure false
  | some cap => do
    if cap ≤ (← SearchM.ledger).rounds then
      -- A search without evaluations left ends because of its budget.
      SearchM.stopWithin t (.iterationsDone cap)
      pure true
    else pure false

/-- One iteration. The answer says whether another one is possible. -/
def iterate (t : Task α n) (p : Params α) : SearchM σ α n (State α n) Bool := do
  SearchM.require (← SearchM.own).initialized .notInitialized
  -- A search that is over or out of budget does not choose cells any more.
  if (← SearchM.ledger).phase.isOver || !(← SearchM.withinBudget t) then pure false
  else do
    divideAll t (← select p)
    SearchM.endRound
    enterRecord
    if ← checkTarget p then pure false
    else if ← checkIterations t p then pure false
    else SearchM.withinBudget t

def run (t : Task α n) (p : Params α) : SearchM σ α n (State α n) Unit := do
  if ← setUp t p then SearchM.repeatWhile (iterate t p) (t.budget + 1)

end BoxSearch.Partition
