import BoxSearch.Binary64

/-!
# Decimal — texts of doubles with a given number of digits

A double is printed from its exact value: the digits asked for are those of the nearest decimal
number of that form, a tie going to the even digit. An exponent has a sign and at least two digits.
-/

namespace BoxSearch.Decimal

/-! ## 1. Digits -/

def digits (k : Nat) : List Char := Nat.toDigits 10 k

/-- A positive quotient lies between this power of ten and the next. -/
def exponentOf (num den : Nat) : Int :=
  if den ≤ num then ((digits (num / den)).length - 1 : Nat)
  else -((digits ((den + num - 1) / num - 1)).length : Int)

/-- The quotient `num / den`, multiplied by a power of ten and rounded. -/
def scaled (num den : Nat) (power : Int) : Nat :=
  if 0 ≤ power then roundQuot (num * Nat.pow 10 power.toNat) den
  else roundQuot num (den * Nat.pow 10 (-power).toNat)

/-- A quotient as `digits · 10 ^ (exponent - places)` with one digit more than `places`. -/
def leading (num den places : Nat) : Nat × Int :=
  if num = 0 then (0, 0)
  else
    let e := exponentOf num den
    let q := scaled num den (places - e)
    -- Rounding may have carried into one more digit.
    if q = Nat.pow 10 (places + 1) then (Nat.pow 10 places, e + 1) else (q, e)

/-! ## 2. Layout -/

def padded (width : Nat) (cs : List Char) : List Char :=
  List.replicate (width - cs.length) '0' ++ cs

def pointed (places : Nat) (cs : List Char) : List Char :=
  let cs := padded (places + 1) cs
  if places = 0 then cs
  else cs.take (cs.length - places) ++ '.' :: cs.drop (cs.length - places)

def exponentText (e : Int) : List Char :=
  'e' :: (if e < 0 then '-' else '+') :: padded 2 (digits e.natAbs)

def trimmed (cs : List Char) : List Char :=
  if cs.contains '.' then
    -- Zeros at the end go first, then a point that is left alone.
    let rest := cs.reverse.dropWhile (· == '0')
    (if rest.head? = some '.' then rest.drop 1 else rest).reverse
  else cs

def fixedText (places num den : Nat) : List Char :=
  pointed places (digits (roundQuot (num * Nat.pow 10 places) den))

def scientificText (places num den : Nat) : List Char :=
  let (q, e) := leading num den places
  pointed places (digits q) ++ exponentText e

/-- Text with the given number of significant digits. -/
def generalText (significant num den : Nat) : List Char :=
  let (q, e) := leading num den (significant - 1)
  -- Moderate exponents are written positionally.
  if -4 ≤ e ∧ e < significant then
    trimmed (fixedText ((significant : Int) - 1 - e).toNat num den)
  else trimmed (pointed (significant - 1) (digits q)) ++ exponentText e

/-! ## 3. Doubles -/

/-- The text of a double, given the text of a finite magnitude. -/
def signed (magnitude : Nat → Int → List Char) : Reading → String
  | .undefined => "nan"
  | .infinite negative => if negative then "-inf" else "inf"
  | .finite negative m e => String.ofList ((if negative then ['-'] else []) ++ magnitude m e)

def ofRatio (text : Nat → Nat → List Char) (m : Nat) (e : Int) : List Char :=
  let (num, den) := Reading.ratio m e
  text num den

def fixed (places : Nat) (x : Float) : String :=
  signed (ofRatio (fixedText places)) (Reading.ofFloat x)

def scientific (places : Nat) (x : Float) : String :=
  signed (ofRatio (scientificText places)) (Reading.ofFloat x)

def general (significant : Nat) (x : Float) : String :=
  signed (ofRatio (generalText significant)) (Reading.ofFloat x)

end BoxSearch.Decimal
