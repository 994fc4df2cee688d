import BoxSearch.Refusal

/-!
# Feasibility — checks of grids that need not fit together

Grids of numbers are compared place by place, stretched to each other. A check that fails names the
places that are wrong in the stretched grid, counted in row order, and shows the rows of the grids
at these places.
-/

namespace BoxSearch.Feasibility

/-- A refusal without a text of its own, for a value that is missing. -/
def orFault {β : Type} (f : Fault Float) (b : Option β) : Except Refusal β :=
  match b with
  | some b => .ok b
  | none => .error (.fault none f)

def compare (r : Float → Float → Bool) (x y : Grid Float) : Except Refusal (Grid Bool) := do
  return (← orFault .misshapen (x.pair? y)).map fun (a, b) => r a b

/-- The places, in row order, of the flags that are not raised. -/
def lowered (flags : Grid Bool) : List Nat :=
  (flags.values.zipIdx.filter fun (b, _) => !b).map (·.2)

def rowsAt (g : Grid Float) (places : List Nat) : Except Refusal (Grid Float) :=
  orFault .noSuchMember (g.rowsAt? (places.map Int.ofNat))

/-! ## 1. Bounds -/

def above (x lower : Grid Float) : Except Refusal (Grid Bool) :=
  compare (fun a l => decide (l ≤ a)) x lower

def below (x upper : Grid Float) : Except Refusal (Grid Bool) :=
  compare (fun a u => decide (a ≤ u)) x upper

/-- Whether every number is at least its lower and at most its upper bound. -/
def isWithin (x lower upper : Grid Float) : Except Refusal Bool := do
  if (← above x lower).values.all id then return (← below x upper).values.all id
  else return false

def assertWithin (x lower upper : Grid Float) : Except Refusal Unit := do
  unless ← isWithin x lower upper do
    let inside ← orFault .misshapen ((← above x lower).pair? (← below x upper))
    let bad := lowered (inside.map fun (a, b) => a && b)
    throw (.outside bad (← rowsAt x bad) (← rowsAt lower bad) (← rowsAt upper bad))

/-! ## 2. Integers -/

def isWhole (x : Float) : Bool := x == Scalar.nearest x

def isIntegral (x : Grid Float) (mask : Grid Bool) : Except Refusal Bool := do
  return (← orFault .noSuchMember (x.flagged? mask)).all isWhole

def assertIntegral (x : Grid Float) (mask : Grid Bool) : Except Refusal Unit := do
  unless ← isIntegral x mask do
    let pairs ← orFault .misshapen (mask.pair? (x.map isWhole))
    let bad := lowered (pairs.map fun (flag, whole) => !flag || whole)
    throw (.fractional bad (← rowsAt x bad))

end BoxSearch.Feasibility
