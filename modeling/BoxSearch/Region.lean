import BoxSearch.Point

/-!
# Region — a box with some integer variables

A region is a box `lower ≤ x ≤ upper` in `n ≥ 1` variables, some of which take integers only. The
bounds are finite and ordered, and an integer variable has whole bounds; `Region.declare` builds a
region from lists or says which of these fails. The maps of the section on points bring any point
into the region and carry points between the region and the unit cube.
-/

namespace BoxSearch

/-- The points `lower ≤ x ≤ upper` whose flagged coordinates are whole. -/
structure Region (α : Type) [Scalar α] (n : Nat) where
  lower : Point α n
  upper : Point α n
  -- The integer variables.
  integral : Vector Bool n
  nonempty : 0 < n
  finite : ∀ i : Fin n,
    Scalar.isFinite (lower.get i) = true ∧ Scalar.isFinite (upper.get i) = true
  ordered : ∀ i : Fin n, lower.get i ≤ upper.get i
  whole : ∀ i : Fin n, integral.get i = true →
    Scalar.same (lower.get i) (Scalar.nearest (lower.get i)) = true ∧
      Scalar.same (upper.get i) (Scalar.nearest (upper.get i)) = true

/-- Why lists do not describe a region. -/
inductive RegionFault where
  | noVariables
  | lengths (lower upper integral : Nat)
  | unbounded
  | reversed (indices : List Nat)
  | fractionalBounds
  deriving Repr, DecidableEq

namespace Region

variable {α : Type} [Scalar α] {n : Nat}

/-! ## 1. Declaration -/

/-- The variables whose lower bound is not at most their upper bound. -/
def reversedAt (lower upper : Point α n) : List Nat :=
  (List.finRange n).filterMap fun i => if lower.get i ≤ upper.get i then none else some i.val

/-- A region from its bounds and integer flags, or the first of its conditions that fails. -/
def declare (lower upper : List α) (integral : Option (List Bool)) :
    Except RegionFault ((n : Nat) × Region α n) :=
  let flags := integral.getD (List.replicate lower.length false)
  if hn : 0 < lower.length then
    if h : upper.length = lower.length ∧ flags.length = lower.length then
      let lo : Point α lower.length := ⟨lower.toArray, by simp⟩
      let hi : Point α lower.length := ⟨upper.toArray, by simp [h.1]⟩
      let ints : Vector Bool lower.length := ⟨flags.toArray, by simp [h.2]⟩
      if hfin : ∀ i : Fin lower.length,
          Scalar.isFinite (lo.get i) = true ∧ Scalar.isFinite (hi.get i) = true then
        if hord : ∀ i : Fin lower.length, lo.get i ≤ hi.get i then
          if hint : ∀ i : Fin lower.length, ints.get i = true →
              Scalar.same (lo.get i) (Scalar.nearest (lo.get i)) = true ∧
                Scalar.same (hi.get i) (Scalar.nearest (hi.get i)) = true then
            .ok ⟨lower.length, lo, hi, ints, hn, hfin, hord, hint⟩
          else .error .fractionalBounds
        else .error (.reversed (reversedAt lo hi))
      else .error .unbounded
    else .error (.lengths lower.length upper.length flags.length)
  else .error .noVariables

/-! ## 2. Shape -/

def width (r : Region α n) (i : Fin n) : α := r.upper.get i - r.lower.get i

def span (r : Region α n) : Point α n := Vector.ofFn r.width

def center (r : Region α n) : Point α n :=
  Vector.ofFn fun i => 0.5 * (r.lower.get i + r.upper.get i)

def hasIntegers (r : Region α n) : Bool := r.integral.any id

/-! ## 3. Points -/

def clampAt (r : Region α n) (i : Fin n) (v : α) : α :=
  Scalar.clamp (r.lower.get i) (r.upper.get i) v

/-- A coordinate as a fraction of the width of its variable; zero where there is no width. -/
def toUnitAt (r : Region α n) (i : Fin n) (v : α) : α :=
  if 0.0 < r.width i then (v - r.lower.get i) / r.width i else 0.0

def atFraction (r : Region α n) (i : Fin n) (u : α) : α := r.lower.get i + u * r.width i

def clamp (r : Region α n) (x : Point α n) : Point α n :=
  Vector.ofFn fun i => r.clampAt i (x.get i)

def roundIntegers (r : Region α n) (x : Point α n) : Point α n :=
  Vector.ofFn fun i => if r.integral.get i then Scalar.nearest (x.get i) else x.get i

def repair (r : Region α n) (x : Point α n) : Point α n := r.clamp (r.roundIntegers x)

/-- The coordinates of a point as fractions of the widths; zero where there is no width. -/
def toUnit (r : Region α n) (x : Point α n) : Point α n :=
  Vector.ofFn fun i => r.toUnitAt i (x.get i)

/-- The point at the given fractions of the widths, clamped to the box. -/
def ofUnit (r : Region α n) (u : Point α n) : Point α n :=
  r.clamp (Vector.ofFn fun i => r.atFraction i (u.get i))

end Region

end BoxSearch
