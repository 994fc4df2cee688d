import BoxSearch.Scalar

/-!
# Point — vectors of scalars

A point has one scalar for every variable. Everything here is written coordinate by coordinate, so
that a coordinate of the result is read off its definition.
-/

namespace BoxSearch

/-- A vector with one scalar for each of `n` variables. -/
abbrev Point (α : Type) (n : Nat) := Vector α n

namespace Point

variable {α : Type} [Scalar α] {n : Nat}

/-! ## 1. Coordinates -/

@[simp] theorem get_ofFn {β : Type} (f : Fin n → β) (i : Fin n) : (Vector.ofFn f).get i = f i :=
  Vector.getElem_ofFn i.isLt

theorem ofFn_get {β : Type} (v : Vector β n) : Vector.ofFn (fun i => v.get i) = v :=
  Vector.ofFn_getElem

@[simp] theorem get_map {β γ : Type} (f : β → γ) (v : Vector β n) (i : Fin n) :
    (v.map f).get i = f (v.get i) :=
  Vector.getElem_map f i.isLt

theorem ext_get {β : Type} {v w : Vector β n} (h : ∀ i : Fin n, v.get i = w.get i) : v = w :=
  Vector.ext fun k hk => h ⟨k, hk⟩

theorem get_set {β : Type} (v : Vector β n) (i j : Fin n) (b : β) :
    (v.set i.val b i.isLt).get j = if i = j then b else v.get j := by
  show (v.set i.val b i.isLt)[j.val] = _
  rw [Vector.getElem_set]
  simp only [Fin.ext_iff]
  rfl

@[simp] theorem get_push_castSucc {β : Type} (v : Vector β n) (b : β) (i : Fin n) :
    (v.push b).get i.castSucc = v.get i :=
  Vector.getElem_push_lt i.isLt

@[simp] theorem get_push_last {β : Type} (v : Vector β n) (b : β) :
    (v.push b).get (Fin.last n) = b :=
  Vector.getElem_push_eq

/-! ## 2. Operations -/

def ofList? {β : Type} (n : Nat) (xs : List β) : Option (Vector β n) :=
  if h : xs.length = n then some ⟨xs.toArray, by simpa using h⟩ else none

/-- The point with these coordinates, or with a single value in all its coordinates. -/
def stretch? {β : Type} (n : Nat) (xs : List β) : Option (Vector β n) :=
  match xs with
  | [c] => some (Vector.ofFn fun _ => c)
  | xs => ofList? n xs

def add (x y : Point α n) : Point α n := Vector.ofFn fun i => x.get i + y.get i

def sub (x y : Point α n) : Point α n := Vector.ofFn fun i => x.get i - y.get i

def mul (x y : Point α n) : Point α n := Vector.ofFn fun i => x.get i * y.get i

def scale (c : α) (x : Point α n) : Point α n := Vector.ofFn fun i => c * x.get i

def shrink (x : Point α n) (c : α) : Point α n := Vector.ofFn fun i => x.get i / c

def dot (x y : Point α n) : α := Scalar.sum (mul x y).toList

def norm (x : Point α n) : α := Scalar.sqrt (dot x x)

def fill (n : Nat) (c : α) : Point α n := Vector.ofFn fun _ => c

/-- The point that is `c` along axis `d` and zero along the others. -/
def axis (n : Nat) (c : α) (d : Nat) : Point α n :=
  Vector.ofFn fun i => if i.val = d then c else 0.0

/-- The mean of some points: coordinates are added in order, then divided. -/
def mean (points : List (Point α n)) : Point α n :=
  Vector.ofFn fun i =>
    Scalar.sum (points.map fun x => x.get i) / Scalar.ofNat points.length

end Point

end BoxSearch
