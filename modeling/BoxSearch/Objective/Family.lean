import BoxSearch.Objective
import BoxSearch.Place

/-!
# Families of objectives

Objectives over doubles that are given by a form, its coefficients and some exceptions: a call that
fails, calls with a fixed answer, and slabs of the domain with a fixed answer. The sums run over the
coordinates in order, so that an answer does not depend on how it is computed. A row of any length is
answered unless a coefficient for one of its coordinates, or the coordinate of a slab, is missing.
-/

namespace BoxSearch

/-- A coefficient for every coordinate. -/
inductive Coefficients where
  | same (c : Float)
  | each (cs : List Float)

def Coefficients.at? : Coefficients → Nat → Option Float
  | same c, _ => some c
  | each cs, i => cs[i]?

/-- The forms of objectives. -/
inductive Form where
  | sphere
  | abs
  | linear
  | steps
  -- A sphere with products of neighbouring coordinates, weighted by `coupling`.
  | coupled (coupling : Float)
  | max
  | banana
  | rastrigin
  | const (v : Float)
  -- The answers of the calls in order, the last one repeated.
  | table (answers : List Float)

/-- A slab of the domain with a fixed answer. -/
structure Hole where
  -- The place of its coordinate in a row.
  coordinate : Int
  low : Option Float
  high : Option Float
  answer : Float

/-- Whether a row lies in a hole, if it has the coordinate of the hole. -/
def Hole.contains? (h : Hole) (xs : List Float) : Option Bool := do
  let x ← xs[← Place.inRow xs.length h.coordinate]?
  some ((h.low.all fun l => decide (l ≤ x)) && (h.high.all fun u => decide (x ≤ u)))

/-- The answer of the first hole in which a row lies, if it has the coordinates of the holes up to
that one. -/
def Hole.answer? (xs : List Float) : List Hole → Option (Option Float)
  | [] => some none
  | h :: rest => do if ← h.contains? xs then some (some h.answer) else answer? xs rest

/-- An objective of a family. -/
structure Family where
  form : Form
  center : Coefficients := .same 0.0
  weight : Coefficients := .same 1.0
  base : Float := 0.0
  -- The call that fails.
  failure : Option (Nat × Failure) := none
  -- A fixed answer from a call on.
  after : Option (Nat × Float) := none
  -- A fixed answer to one call.
  once : Option (Nat × Float) := none
  holes : List Hole := []

namespace Family

/-- Distances from the centre, with their weights, if all coordinates have coefficients. -/
def offsets? (f : Family) (xs : List Float) : Option (List (Float × Float)) :=
  xs.zipIdx.mapM fun (x, i) => do return (x - (← f.center.at? i), ← f.weight.at? i)

def sumOver? (f : Family) (xs : List Float) (term : Float → Float → Float) : Option Float :=
  (f.offsets? xs).map (·.foldl (fun s (d, w) => s + term d w) f.base)

def coupledSum (k : Float) : Float → List (Float × Float) → Float
  | s, [] => s
  | s, [(d, w)] => s + w * (d * d)
  | s, (d, w) :: (e, v) :: rest => coupledSum k (s + w * (d * d) + k * (d * e)) ((e, v) :: rest)

def bananaSum : Float → List Float → Float
  | s, x :: y :: rest =>
    let a := y - x * x
    let e := 1.0 - x
    bananaSum (s + (100.0 * (a * a) + e * e)) (y :: rest)
  | s, _ => s

def pi : Float := 3.141592653589793

def formValue? (f : Family) (xs : List Float) (call : Nat) : Option Float :=
  -- The value of the form, unless a coefficient is missing.
  match f.form with
  | .sphere => f.sumOver? xs fun d w => w * (d * d)
  | .abs => f.sumOver? xs fun d w => w * d.abs
  | .linear => f.sumOver? xs fun d w => w * d
  | .steps => f.sumOver? xs fun d w => w * d.abs.floor
  | .coupled k => (f.offsets? xs).map (coupledSum k f.base)
  | .max => (f.offsets? xs).map (·.foldl (fun s (d, w) => Scalar.most s (w * d.abs)) f.base)
  | .banana => some (bananaSum 0.0 xs)
  | .rastrigin =>
    some (xs.foldl (fun s x => s + (x * x - 10.0 * Float.cos (2.0 * pi * x)))
      (10.0 * Float.ofNat xs.length))
  | .const v => some v
  | .table answers => answers[min call answers.length - 1]?

/-- The fixed answer to a call, if it has one and no coordinate is missing. -/
def exception? (f : Family) (xs : List Float) (call : Nat) : Option (Option Float) :=
  match f.after.filter fun (k, _) => decide (k ≤ call), f.once.filter fun (k, _) => call == k with
  | some (_, v), _ => some (some v)
  | none, some (_, v) => some (some v)
  | none, none => Hole.answer? xs f.holes

/-- The cost of a row, unless a coordinate or a coefficient is missing. -/
def cost? (f : Family) (xs : List Float) (call : Nat) : Option (Cost Float) := do
  match ← f.exception? xs call with
  | some v => some (Cost.ofScalar v)
  | none => (f.formValue? xs call).map Cost.ofScalar

def answer (f : Family) (xs : List Float) (call : Nat) : Except Failure (Cost Float) :=
  match f.failure.filter fun (k, _) => call == k, f.cost? xs call with
  | some (_, failure), _ => .error failure
  | none, some c => .ok c
  | none, none => .error ⟨.noCoordinate, none⟩

def objective (f : Family) (n : Nat) : Objective Float n := fun x call => f.answer x.toList call

end Family

end BoxSearch
