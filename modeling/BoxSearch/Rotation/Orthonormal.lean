import BoxSearch.Search

/-!
# Orthonormal rows — a basis whose first row follows a direction

Candidates are taken in order: the direction, the rows of a basis, the unit vectors. Each is made
orthogonal to the rows accepted so far and, unless little is left of it, accepted at length one.
-/

namespace BoxSearch.Orthonormal

variable {α : Type} [Scalar α] {n : Nat}

/-- What is left of `v` without its components along the rows, taken out one after the other. -/
def residual (rows : List (Point α n)) (v : Point α n) : Point α n :=
  rows.foldl (fun w q => Point.sub w (Point.scale (Point.dot w q) q)) v

def accept (tolerance : α) (rows : List (Point α n)) (v : Point α n) : List (Point α n) :=
  let w := residual rows v
  let length := Point.norm w
  if tolerance * Scalar.most 1.0 (Point.norm v) < length then rows ++ [Point.shrink w length]
  else rows

def collect (tolerance : α) : List (Point α n) → List (Point α n) → List (Point α n)
  | [], rows => rows
  | v :: rest, rows =>
    let more := accept tolerance rows v
    if more.length = n then more else collect tolerance rest more

def unitVectors (n : Nat) : List (Point α n) := (List.range n).map (Point.axis n 1.0)

def along (tolerance : α) (direction : Point α n) (basis : List (Point α n)) : List (Point α n) :=
  collect tolerance (direction :: basis ++ unitVectors n) []

/-! ## 1. Check -/

/-- The largest deviation from the identity of the products of rows that have length one. -/
def deviation (rows : List (Point α n)) : α :=
  let products := rows.zipIdx.flatMap fun (x, i) => rows.zipIdx.map fun (y, j) =>
    Scalar.abs (Point.dot x y - (if i = j then 1.0 else 0.0))
  match products with
  | [] => 0.0
  | d :: ds => ds.foldl Scalar.strictMost d

/-- By how much rows of any length other than zero miss being orthogonal to each other. -/
def skewness (rows : List (Point α n)) : Except (Fault α) α :=
  if rows.any fun x => Scalar.same (Point.norm x) 0.0 then .error .zeroRow
  else .ok (deviation (rows.map fun x => Point.shrink x (Point.norm x)))

/-- Accepts rows that are not zero and, whatever their lengths, orthogonal to each other. -/
def check (tolerance : α) (rows : List (Point α n)) : Except (Fault α) Unit := do
  let error ← skewness rows
  if tolerance < error then .error (.skewed tolerance error) else .ok ()

end BoxSearch.Orthonormal
