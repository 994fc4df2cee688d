import BoxSearch.Grid
import BoxSearch.Objective

/-!
# Fault — why a step cannot be carried out

A fault stops a step: the objective fails, a point breaks a rule, or a value that the step needs
cannot be used. A quantity is a scalar that may turn out to be unusable; what is wrong with it
shows only where it is used.
-/

namespace BoxSearch

/-- Why a step cannot be carried out. -/
inductive Fault (α : Type) where
  -- The objective failed.
  | failed (failure : Failure)
  -- Coordinates outside their bounds: index, coordinate, lower and upper bound.
  | outside (coordinates : List (Nat × α × α × α))
  -- Integer variables with a fraction: index and coordinate.
  | fractional (coordinates : List (Nat × α))
  -- Rows that should be orthogonal have this error, beyond the tolerance.
  | skewed (tolerance error : α)
  | zeroRow
  | alreadySolved
  | alreadyInitialized
  | notInitialized
  -- What the step works on does not exist yet.
  | absent
  -- An integer that a bit string of this length does not code.
  | uncodable (value length : Int)
  -- A span below zero.
  | negativeSpan (span : Int)
  -- A count below the least for a torus.
  | tooFewForTorus (count : String)
  -- The members have no neighbourhood.
  | noNeighbours
  -- A matrix that is not square.
  | notSquare (shape : List Nat)
  -- Lengths that do not fit together.
  | misshapen
  -- No member at the given place.
  | noSuchMember
  -- An undefined number where an integer is needed.
  | undefinedInteger
  -- An infinite number where an integer is needed.
  | infiniteInteger
  -- A value that is no number where one is needed.
  | notNumber
  -- A number beyond all scalars.
  | overflow
  -- A range of integers with none in it.
  | emptyRange
  -- A text where a multiplier is needed.
  | textFactor
  -- A table with more numbers than can be counted in bytes.
  | tooManyNumbers
  | outOfMemory
  deriving Repr

/-- A value that may turn out to be unusable when it is used. -/
abbrev Usable (α β : Type) := Except (Fault α) β

/-- A scalar that may turn out to be unusable when it is used. -/
abbrev Quantity (α : Type) := Usable α α

/-- A multiplier of points: a grid that is stretched to their coordinates. -/
abbrev Factor (α : Type) := Usable α (Grid α)

namespace Usable

variable {α β : Type}

/-- A value that is unusable for a given reason when there is none. -/
def ofOption (f : Fault α) : Option β → Usable α β
  | some b => .ok b
  | none => .error f

/-- A scalar from which an integer is made, which must be finite. -/
def finite [Scalar α] (x : α) : Quantity α :=
  if Scalar.isFinite x then .ok x
  else if Scalar.isUndefined x then .error .undefinedInteger
  else .error .infiniteInteger

end Usable

namespace Factor

variable {α : Type}

def point (n : Nat) (f : Factor α) : Usable α (Point α n) := do
  let g : Grid α ← f
  let row : Grid α ← .ofOption .misshapen (g.stretchTo? [n])
  .ofOption .misshapen (Point.ofList? n row.values)

def points (k n : Nat) (f : Factor α) : Usable α (List (Point α n)) := do
  let g : Grid α ← f
  let rows : Grid α ← .ofOption .misshapen (g.stretchTo? [k, n])
  .ofOption .misshapen ((Grid.splitRows n k rows.values).mapM (Point.ofList? n))

end Factor

end BoxSearch
