import BoxSearch.Binary64

/-!
# Scalars — the numbers a search computes with

The searches are written over any type of scalars: doubles when they run, and any other model of
the same operations when they are reasoned about. The class lists operations only. Comparisons are
those of the type, so that an undefined scalar compares with nothing, itself included.
-/

namespace BoxSearch

/-- The operations that the searches use. -/
class Scalar (α : Type) extends Add α, Sub α, Mul α, Div α, Neg α, LT α, LE α, OfScientific α where
  decidableLt : DecidableLT α
  decidableLe : DecidableLE α
  -- The scalar of an integer.
  ofInt : Int → α
  -- Magnitude.
  abs : α → α
  -- Square root.
  sqrt : α → α
  -- Natural exponential.
  exp : α → α
  -- Two to the power of the argument.
  powTwo : α → α
  -- One third, multiplied with itself as often as the argument says.
  thirds : Int → α
  -- The nearest whole scalar; a tie goes to the even one.
  nearest : α → α
  -- The greatest integer that does not exceed the argument.
  floor : α → Int
  -- Neither undefined nor infinite.
  isFinite : α → Bool

attribute [reducible, instance] Scalar.decidableLt Scalar.decidableLe

namespace Scalar

variable {α : Type} [Scalar α]

def same (x y : α) : Bool := decide (x ≤ y) && decide (y ≤ x)

def isUndefined (x : α) : Bool := !decide (x ≤ x)

/-- The smaller of two; the first where they do not compare as smaller. -/
def least (x y : α) : α := if y < x then y else x

/-- The larger of two; the first where they do not compare as larger. -/
def most (x y : α) : α := if x < y then y else x

def strictLeast (x y : α) : α := if isUndefined x then x else if x ≤ y then x else y

def strictMost (x y : α) : α := if isUndefined x then x else if y ≤ x then x else y

def clamp (lo hi x : α) : α := if x < lo then lo else if hi < x then hi else x

def ofNat (k : Nat) : α := ofInt (k : Int)

def truncate (x : α) : Int := if x < 0.0 then -floor (-x) else floor x

def sum (xs : List α) : α := xs.foldl (· + ·) 0.0

end Scalar

/-! ## 1. Doubles -/

def Float.nearestWhole (x : Float) : Float :=
  if x.isFinite && x.abs < 4503599627370496.0 then Float.ofInt (Reading.ofFloat x).nearest else x

instance : Scalar Float where
  decidableLt := inferInstance
  decidableLe := inferInstance
  ofInt := Float.ofInt
  abs := Float.abs
  sqrt := Float.sqrt
  exp := Float.exp
  powTwo x := Float.pow 2.0 x
  thirds k := Float.pow 3.0 (Float.ofInt (-k))
  nearest := Float.nearestWhole
  floor x := (Reading.ofFloat x).floor
  isFinite := Float.isFinite

end BoxSearch
