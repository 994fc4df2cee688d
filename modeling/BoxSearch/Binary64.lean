import BoxSearch.Rounding

/-!
# Binary64 — the exact value of a double

A double is read from its bits as a sign and `mantissa · 2 ^ exponent`, an infinity, or no number
at all. Floors, roundings and decimal texts are computed from this reading in exact integer
arithmetic.
-/

namespace BoxSearch

/-- What the bits of a double say. -/
inductive Reading where
  | undefined
  | infinite (negative : Bool)
  | finite (negative : Bool) (mantissa : Nat) (exponent : Int)
  deriving DecidableEq, Repr

namespace Reading

def leastExponent : Int := -1074

/-- The mantissa of a normal number starts at this power of two. -/
def hiddenBit : Nat := 4503599627370496

def ofFields (negative : Bool) (field fraction : Nat) : Reading :=
  if field = 2047 then
    if fraction = 0 then infinite negative else undefined
  else if field = 0 then finite negative fraction leastExponent
  else finite negative (hiddenBit + fraction) (leastExponent + (field - 1 : Nat))

def ofFloat (x : Float) : Reading :=
  let word := x.toBits.toNat
  ofFields (word / 9223372036854775808 % 2 == 1) (word / 4503599627370496 % 2048)
    (word % 4503599627370496)

def ratio (mantissa : Nat) (exponent : Int) : Nat × Nat :=
  if 0 ≤ exponent then (mantissa * Nat.pow 2 exponent.toNat, 1)
  else (mantissa, Nat.pow 2 (-exponent).toNat)

def floor : Reading → Int
  | finite negative mantissa exponent =>
    let (num, den) := ratio mantissa exponent
    if negative then Int.fdiv (-(num : Int)) den else (num / den : Nat)
  -- Zero stands in where there is no finite value.
  | _ => 0

def nearest : Reading → Int
  | finite negative mantissa exponent =>
    let (num, den) := ratio mantissa exponent
    if negative then -(roundQuot num den : Int) else roundQuot num den
  -- Zero stands in where there is no finite value.
  | _ => 0

end Reading

end BoxSearch
