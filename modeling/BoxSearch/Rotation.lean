import BoxSearch.Rotation.Orthonormal

/-!
# Rotation — trials along axes that turn with the progress

The search tries one move vector after the other from the best point, in the unit cube. A move that
succeeds is stretched, one that fails is reversed and shortened. Once every axis has seen a success
and a failure, the axes are turned so that the first one follows the displacement since the last
turn.
-/

namespace BoxSearch.Rotation

structure Params (α : Type) where
  -- Factor after a success.
  stretch : Quantity α
  -- Factor after a failure, besides the reversal.
  shorten : Quantity α
  -- Length of a move after a turn.
  stepSize : Quantity α

/-- The axes and what was seen along them since the last turn. -/
structure Frame (α : Type) (n : Nat) where
  -- The move vectors in the unit cube.
  moves : List (Point α n)
  -- The best point at the last turn, in the unit cube.
  origin : Point α n
  succeeded : Vector Bool n
  failed : Vector Bool n
  -- How many of these flags are raised.
  raised : Nat
  -- The move that is tried next.
  direction : Nat

structure State (α : Type) (n : Nat) where
  initialized : Bool := false
  frame : Option (Frame α n) := none

variable {σ α : Type} [Scalar α] [DrawSource σ α] {n : Nat}

namespace Frame

def lowered (moves : List (Point α n)) (origin : Point α n) : Frame α n :=
  ⟨moves, origin, Vector.ofFn fun _ => false, Vector.ofFn fun _ => false, 0, 0⟩

def upright (stepSize : α) (origin : Point α n) : Frame α n :=
  lowered ((Orthonormal.unitVectors n).map (Point.scale stepSize)) origin

def isExhausted (f : Frame α n) : Bool := f.raised == 2 * n

def lower (f : Frame α n) : Frame α n := lowered f.moves f.origin

def turn (stepSize : α) (f : Frame α n) (best : Point α n) : Frame α n :=
  { f with
    origin := best
    moves := (Orthonormal.along 1e-12 (Point.sub f.origin best) f.moves).map
      (Point.scale stepSize) }

def advance (f : Frame α n) : Frame α n := { f with direction := (f.direction + 1) % n }

def succeed (stretch : α) (f : Frame α n) : Frame α n :=
  -- Stretches the present move and raises its flag of success.
  let d := f.direction
  { f with
    moves := f.moves.modify d (Point.scale stretch)
    succeeded := f.succeeded.setIfInBounds d true
    raised := if f.succeeded[d]? = some false then f.raised + 1 else f.raised }

def fail (shorten : α) (f : Frame α n) : Frame α n :=
  -- Reverses and shortens the present move and raises its flag of failure.
  let d := f.direction
  { f with
    moves := f.moves.modify d (Point.scale (-shorten))
    failed := f.failed.setIfInBounds d true
    raised := if f.failed[d]? = some false then f.raised + 1 else f.raised }

end Frame

/-! ## 1. Steps -/

def bestInCube (t : Task α n) : SearchM σ α n (State α n) (Point α n) := do
  match (← SearchM.ledger).best with
  | some b => pure (t.region.toUnit b.point)
  | none => throw (.fault .absent)

def frame : SearchM σ α n (State α n) (Frame α n) := do
  match (← SearchM.own).frame with
  | some f => pure f
  | none => throw (.fault .absent)

def setFrame (f : Frame α n) : SearchM σ α n (State α n) Unit :=
  SearchM.modifyOwn fun s => { s with frame := some f }

def start (t : Task α n) (p : Params α) : ChoiceM σ α (Point α n) :=
  match t.starts with
  | x :: _ => pure x
  | [] => Draw.normalPoint t.region t.region.center p.stepSize

def setUp (t : Task α n) (p : Params α) : SearchM σ α n (State α n) Unit := do
  -- Evaluates the start point and sets up the axes of the cube.
  SearchM.require (!(← SearchM.own).initialized) .alreadyInitialized
  SearchM.markRunning
  SearchM.modifyOwn fun s => { s with initialized := true }
  let x ← SearchM.drawOr (start t p)
  let _ ← SearchM.trial t x
  let stepSize ← SearchM.use p.stepSize
  setFrame (Frame.upright stepSize (← bestInCube t))

def checkMoves (t : Task α n) (f : Frame α n) : Usable α Unit :=
  if t.checked then Orthonormal.check 1e-8 f.moves else .ok ()

def turn (t : Task α n) (p : Params α) : SearchM σ α n (State α n) Unit := do
  let f ← frame
  let best ← bestInCube t
  let f := f.turn (← SearchM.use p.stepSize) best
  setFrame f
  SearchM.use (checkMoves t f)
  setFrame f.lower
  SearchM.endRound
  SearchM.report (.rotated (← SearchM.ledger).evaluations)

def turnIfExhausted (t : Task α n) (p : Params α) : SearchM σ α n (State α n) Unit := do
  if (← frame).isExhausted then turn t p

/-- The point that the present move leads to, brought into the region. -/
def trialPoint (r : Region α n) (best move : Point α n) : Point α n :=
  r.repair (r.ofUnit (Vector.ofFn fun i => Scalar.clamp 0.0 1.0 (best.get i + move.get i)))

def Frame.tried (p : Params α) (f : Frame α n) (better : Bool) : Usable α (Frame α n) :=
  if better then p.stretch.map fun stretch => f.succeed stretch
  else p.shorten.map fun shorten => f.fail shorten

def tryMove (t : Task α n) (p : Params α) : SearchM σ α n (State α n) Unit := do
  let f ← frame
  match f.moves[f.direction]? with
  | none => throw (.fault .noSuchMember)
  | some move => do
    let best ← bestInCube t
    let previous := (← SearchM.ledger).bestCost
    let v ← SearchM.trial t (trialPoint t.region best move)
    let next ← SearchM.use (f.tried p ((Cost.finite v).below (Cost.ofOption previous)))
    setFrame next.advance

/-- One step. The answer says whether another step is possible. -/
def step (t : Task α n) (p : Params α) : SearchM σ α n (State α n) Bool := do
  SearchM.require (← SearchM.own).initialized .notInitialized
  -- A search that is over or out of budget does not turn its axes any more.
  if (← SearchM.ledger).phase.isOver || !(← SearchM.withinBudget t) then pure false
  else do
    turnIfExhausted t p
    tryMove t p
    SearchM.withinBudget t

def run (t : Task α n) (p : Params α) : SearchM σ α n (State α n) Unit := do
  setUp t p
  SearchM.repeatWhile (step t p) (t.budget + 1)

end BoxSearch.Rotation
