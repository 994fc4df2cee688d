import BoxSearch.Decimal

/-!
# Shortest decimal — the fewest digits that read back

A double stands for every real number nearer to it than to its neighbours. Its shortest text is
found on the coarsest decimal grid that has a point in this interval; of two points the nearer one
is taken. The two points of a grid next to the value are enough to look at.
-/

namespace BoxSearch.Decimal

/-- A value `4 · 2 ^ unit` times a mantissa, with the interval that rounds to it, all in quarters of
the distance to the next double. -/
structure Neighbourhood where
  value : Nat
  low : Nat
  high : Nat
  -- Whether the ends of the interval round to the value.
  closed : Bool
  unit : Int

def Neighbourhood.of (mantissa : Nat) (exponent : Int) : Neighbourhood :=
  let narrow := mantissa = Reading.hiddenBit ∧ Reading.leastExponent < exponent
  ⟨4 * mantissa, 4 * mantissa - (if narrow then 1 else 2), 4 * mantissa + 2, mantissa % 2 == 0,
    exponent - 2⟩

namespace Neighbourhood

/-- Grid point `c` of the grid of step `10 ^ k`, in a scale common with `quarters`. -/
def gridPoint (v : Neighbourhood) (k : Int) (c : Nat) : Nat :=
  c * Nat.pow 10 k.toNat * Nat.pow 2 (-v.unit).toNat

def quarters (v : Neighbourhood) (k : Int) (x : Nat) : Nat :=
  x * Nat.pow 2 v.unit.toNat * Nat.pow 10 (-k).toNat

def readsBack (v : Neighbourhood) (k : Int) (c : Nat) : Bool :=
  let p := v.gridPoint k c
  let low := v.quarters k v.low
  let high := v.quarters k v.high
  if v.closed then decide (low ≤ p ∧ p ≤ high) else decide (low < p ∧ p < high)

/-- The grid point next to the value that reads back, the nearer one of two. -/
def onGrid (v : Neighbourhood) (k : Int) : Option Nat :=
  let step := v.gridPoint k 1
  let x := v.quarters k v.value
  let g := x / step
  match v.readsBack k g, v.readsBack k (g + 1) with
  | true, false => some g
  | false, true => some (g + 1)
  | true, true =>
    let below := x - g * step
    let above := (g + 1) * step - x
    if below < above then some g
    else if above < below then some (g + 1)
    else some (g + g % 2)
  | false, false => none

/-- Tries ever finer grids, at most `fuel` of them, the first with step `10 ^ k`. -/
def search (v : Neighbourhood) : Nat → Int → Nat × Int
  -- Out of fuel the value itself is cut off.
  | 0, k => (v.quarters k v.value / v.gridPoint k 1, k)
  | fuel + 1, k =>
    match v.onGrid k with
    | some c => (c, k)
    | none => search v fuel (k - 1)

end Neighbourhood

/-- The digits of the shortest text and the power of ten of the last of them. -/
def shortestDigits (mantissa : Nat) (exponent : Int) : Nat × Int :=
  let (num, den) := Reading.ratio mantissa exponent
  (Neighbourhood.of mantissa exponent).search 17 (exponentOf num den)

/-- Which decimal exponents are written positionally: from `10 ^ -4` up to below `10 ^ 16`. -/
def isPositional (e : Int) : Bool := decide (-4 ≤ e ∧ e < 16)

/-- The shortest text of a positive magnitude. -/
def shortestText (mantissa : Nat) (exponent : Int) : List Char :=
  if mantissa = 0 then ['0', '.', '0']
  else
    let (c, k) := shortestDigits mantissa exponent
    let all := digits c
    let core := (all.reverse.dropWhile (· == '0')).reverse
    let e := k + (all.length : Int) - 1
    if isPositional e then
      if e < 0 then '0' :: '.' :: (List.replicate (-e - 1).toNat '0' ++ core)
      else
        let whole := e.toNat + 1
        let ds := core ++ List.replicate (whole - core.length) '0'
        -- A whole number keeps one fraction digit.
        let fraction := ds.drop whole
        ds.take whole ++ '.' :: (if fraction.isEmpty then ['0'] else fraction)
    else
      let mantissaText := match core with
        | [] => []
        | [d] => [d]
        | d :: rest => d :: '.' :: rest
      mantissaText ++ exponentText e

def shortest (x : Float) : String := signed shortestText (Reading.ofFloat x)

end BoxSearch.Decimal
