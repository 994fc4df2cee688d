import BoxSearch.Fault
import BoxSearch.Region

/-!
# Draw — random choices from a source

A source of draws is a state from which uniform numbers of the unit interval and normal numbers
are taken one after the other. The searches are written over any source; every other random
choice, an integer below a bound or a selection without repetition, is made from those two.
-/

namespace BoxSearch

/-- A state from which numbers are drawn. -/
class DrawSource (σ : Type) (α : outParam Type) where
  -- A number of the unit interval, its right end excluded.
  uniform : StateM σ α
  -- A standard normal number.
  normal : StateM σ α
  -- Whether a range is looked at before a number is drawn from it.
  checksRanges : Bool

/-- A random choice that may meet a fault. The draws made before a fault are spent. -/
abbrev ChoiceM (σ α : Type) := ExceptT (Fault α) (StateM σ)

namespace ChoiceM

variable {σ α β : Type}

def draw (m : StateM σ β) : ChoiceM σ α β := ExceptT.lift m

def use (b : Usable α β) : ChoiceM σ α β := ExceptT.mk (pure b)

end ChoiceM

namespace Draw

variable {σ α : Type} [Scalar α] [DrawSource σ α] {n : Nat}

def uniforms (n : Nat) : StateM σ (Point α n) := Vector.ofFnM fun _ => DrawSource.uniform

def normals (n : Nat) : StateM σ (Point α n) := Vector.ofFnM fun _ => DrawSource.normal

/-- One normal number for each flagged variable, in order; the others are left as they are. -/
def normalsWhere (flags : Vector Bool n) (x : Point α n) (f : Fin n → α → α) :
    StateM σ (Point α n) :=
  Vector.ofFnM fun i =>
    if flags.get i then do
      let z ← DrawSource.normal
      pure (f i z)
    else pure (x.get i)

def times {β : Type} {m : Type → Type} [Monad m] (k : Nat) (choice : m β) : m (List β) :=
  match k with
  | 0 => pure []
  | k + 1 => do
    let b ← choice
    let bs ← times k choice
    pure (b :: bs)

/-! ## 1. Ranges -/

/-- A source that looks at ranges refuses those from which there is nothing to draw. -/
def checkRange (good : Bool) (f : Fault α) : ChoiceM σ α Unit :=
  .use (if DrawSource.checksRanges σ && !good then .error f else .ok ())

omit [Scalar α] in
@[simp] theorem checkRange_true (f : Fault α) : (checkRange true f : ChoiceM σ α Unit) = pure () := by
  unfold checkRange
  rw [Bool.not_true, Bool.and_false]
  rfl

/-- A number between two others, which have to be a finite distance apart. -/
def between (a b : α) : ChoiceM σ α α := do
  checkRange (Scalar.isFinite (b - a)) .overflow
  let u ← .draw DrawSource.uniform
  pure (a + (b - a) * u)

/-- An integer below `m`: the part of the unit interval, cut into `m`, that a uniform number hits.
-/
def below (m : Int) : ChoiceM σ α Int := do
  checkRange (0 < m) .emptyRange
  let u ← .draw DrawSource.uniform
  -- A uniform number of the unit interval is finite; any other number must be.
  let x ← .use (Usable.finite (u * Scalar.ofInt m))
  pure (min (Scalar.floor x) (m - 1))

/-! ## 2. Selections -/

/-- Exchanges the member at a place of a pool with one that is drawn from that place on. -/
def exchangeAt (pool : Array Nat) (i : Nat) : ChoiceM σ α (Array Nat) := do
  let k ← below (pool.size - i : Nat)
  let j ← .use (.ofOption .noSuchMember (Place.inRow pool.size (i + k)))
  pure (pool.swapIfInBounds i j)

/-- `k` members of a pool without repetition. -/
def choose (k : Nat) (pool : List Nat) : ChoiceM σ α (List Nat) := do
  -- One after the other they are exchanged to the front of the pool.
  let pool ← (List.range k).foldlM exchangeAt pool.toArray
  pure (pool.toList.take k)

/-- Where a running sum of weights first exceeds `t`; the last place if it never does. -/
def hit (t : α) : α → List α → Nat
  | _, [] => 0
  | _, [_] => 0
  | s, w :: rest => if t < s + w then 0 else 1 + hit t (s + w) rest

/-- `k` members of a weighted pool without repetition. -/
def chooseWeighted : Nat → List (Nat × α) → StateM σ (List Nat)
  | 0, _ => pure []
  | k + 1, pool => do
    -- Each member has a chance in proportion to its weight among those left.
    let u ← DrawSource.uniform
    let weights := pool.map (·.2)
    let i := hit (u * Scalar.sum weights) 0.0 weights
    match pool[i]? with
    | none => pure []
    | some (taken, _) =>
      let others ← chooseWeighted k (pool.eraseIdx i)
      pure (taken :: others)

/-! ## 3. Points -/

def uniformPoint (r : Region α n) : StateM σ (Point α n) := do
  let u ← uniforms n
  pure (r.repair (Vector.ofFn fun i => r.lower.get i + u.get i * r.width i))

/-- A normal step away from `center`, `spread` times as long as the widths, brought into the region.
-/
def normalPoint (r : Region α n) (center : Point α n) (spread : Quantity α) :
    ChoiceM σ α (Point α n) := do
  let z ← .draw (normals n)
  -- The spread is looked at after the normal numbers are drawn.
  let c ← .use spread
  pure (r.repair (Vector.ofFn fun i => center.get i + z.get i * c * r.width i))

end Draw

end BoxSearch
