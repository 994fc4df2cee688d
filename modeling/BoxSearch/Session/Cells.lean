import BoxSearch.Session.Steps

/-!
# Steps of a partition — cells divided by hand

The cells of a partition can be replaced and divided one by one. Cells that do not fit the cube
stand in for those of the search, and are divided as far as they go.
-/

namespace BoxSearch.SessionM

variable {n : Nat}

def partition : SessionM n (Partition.Params Float × Partition.State Float n) := do
  match (← get).engine with
  | .partition p s => pure (p, s)
  | _ => throw .notOffered

/-- Replaces the cells. -/
def setCells (cells : List (Partition.Stray Float)) : SessionM n Unit := do
  match Partition.Stray.cells? n cells with
  -- The search keeps cells itself that fit the cube, all of them.
  | some fitting =>
    step fun r => r.placeCells fitting
    modify fun s => { s with placed := none }
  | none =>
    let _ ← partition
    modify fun s => { s with placed := some (.cells cells) }

/-- A place in a row, given as an integer or a flag. -/
def placeIn (length : Nat) (given : Setting) : SessionM n Nat := do
  match given with
  | .whole _ | .flag _ => use (.ofOption .noSuchMember (Place.inRow length (← integer given)))
  | _ => use (.error .notNumber)

/-- Evaluates what a grid of the unit cube leads to. -/
def evaluateInCube (u : Grid Float) : SessionM n (Option Float) := do
  let s ← get
  let x ← use (do s.region.roundGrid (← s.region.ofUnitGrid u))
  match ← evaluateGrid x with
  | .finite v => pure (some v)
  -- The search ends, so that there is no cost to go on with.
  | cost => do
    modifyAccount (·.stopNonFinite cost)
    pure none

def sample (c : Partition.Stray Float) (d : Nat) (offset : Float) :
    SessionM n (Option (Grid Float × Float)) := do
  let u ← use (c.shifted d offset)
  return (← evaluateInCube u).map fun v => (u, v)

/-- Samples both sides of the centre of a stray cell along each of the given dimensions. -/
def probe (c : Partition.Stray Float) (delta : Float) :
    List Nat → SessionM n (Option (List (Partition.Stray.Probe Float)))
  | [] => pure (some [])
  | d :: rest => do
    match ← sample c d (-delta) with
    | none => pure none
    | some left =>
      match ← sample c d delta with
      | none => pure none
      | some right => do
        let others ← probe c delta rest
        pure (others.map (⟨d, left, right⟩ :: ·))

def divideStray (c : Partition.Stray Float) (place : Nat) : SessionM n Bool := do
  -- Divides the stray cell at a place along all of its longest sides.
  let cells := (← get).cells
  let delta ← use c.thirdOfLongest
  match ← probe c delta c.longestSides with
  | none => pure false
  | some probes => do
    let (cuts, parts) := Partition.Stray.cut (probes.mergeSort Partition.Stray.Probe.notAfter) c.cuts
    let cells := cells.set place { c with cuts } ++ parts
    modify fun s => { s with placed := some (.cells cells) }
    pure true

/-- Divides the cell at a place that exists. The answer says whether the search may go on. -/
def divideAt (i : Nat) : SessionM n Bool := do
  let s ← get
  match s.hasStrays, s.cells[i]? with
  | true, some c => divideStray c i
  | _, _ => step fun r => r.divide s.task i

/-- Divides the cell at a place. The answer says whether the search may go on. -/
def divide (place : Setting) : SessionM n Bool := do
  let _ ← partition
  divideAt (← placeIn (← get).cells.length place)

def promising : SessionM n (List Nat) := do
  -- The places of the cells that the next iteration would divide.
  let (p, _) ← partition
  let s ← get
  let (places, fallback) ← use (Hull.selectFor p.ep (s.cells.map Partition.Stray.sighting))
  if fallback then
    modifyAccount (·.report (.nonePromising (places.headD 0)))
  pure places

def word (s : Setting) : SessionM n Int := do
  let k ← integer s
  if -9223372036854775808 ≤ k ∧ k < 9223372036854775808 then pure k
  else use (.error .overflow)

/-- Reads a cell from the numbers of its cuts, its centre and its cost. -/
def readCell : Setting → SessionM n (Partition.Stray Float)
  | .list [cuts, center, cost] => do
    let cuts ← (← read .setting cuts.items?).mapM word
    let center ← grid center
    return ⟨cuts, center, ← real cost⟩
  | _ => use (.error .misshapen)

def placeCells (given : Setting) : SessionM n Nat := do
  let cells ← (← read .setting given.items?).mapM readCell
  setCells cells
  pure cells.length

end BoxSearch.SessionM
