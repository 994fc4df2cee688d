import BoxSearch.Place

/-!
# Grid — values in several directions

A grid holds values in row order, with the lengths in every direction. Grids of different shapes are
combined by stretching: their shapes are compared from the last direction on, and a direction that
is missing or has length one is repeated.
-/

namespace BoxSearch

/-- Values in row order, with the lengths in every direction. -/
structure Grid (β : Type) where
  shape : List Nat
  values : List β
  deriving Repr

namespace Grid

variable {β γ δ : Type}

def single (b : β) : Grid β := ⟨[], [b]⟩

def row (bs : List β) : Grid β := ⟨[bs.length], bs⟩

def map (f : β → γ) (g : Grid β) : Grid γ := ⟨g.shape, g.values.map f⟩

/-! ## 1. Rows -/

def volume (shape : List Nat) : Nat := shape.foldl (· * ·) 1

def splitRows (width : Nat) : Nat → List β → List (List β)
  | 0, _ => []
  | count + 1, values => values.take width :: splitRows width count (values.drop width)

def rows? (g : Grid β) : Option (List (List β)) :=
  match g.shape with
  | [count, width] => some (splitRows width count g.values)
  | _ => none

/-- The rows at some places of the first direction, if all of them exist. -/
def rowsAt? (g : Grid β) (places : List Int) : Option (Grid β) :=
  match g.shape with
  | [] => none
  | count :: rest => do
    let rows := splitRows (volume rest) count g.values
    let chosen ← places.mapM fun i => do rows[← Place.inRow count i]?
    some ⟨places.length :: rest, chosen.flatten⟩

/-- The row at a place of the first direction, if it exists. -/
def rowAt? (g : Grid β) (place : Int) : Option (Grid β) :=
  (g.rowsAt? [place]).map fun rows => { rows with shape := rows.shape.drop 1 }

/-- The rows of one grid before those of another, if they have equal shapes. -/
def append? (g h : Grid β) : Option (Grid β) :=
  match g.shape, h.shape with
  | k :: rest, l :: rest' =>
    if rest = rest' then some ⟨(k + l) :: rest, g.values ++ h.values⟩ else none
  | _, _ => none

/-- What nested lists of the grid come to, given what a value and a list come to. -/
def foldNested (leaf : β → γ) (node : List γ → γ) : (shape : List Nat) → List β → γ
  | [], b :: _ => leaf b
  | [], [] => node []
  | d :: ds, bs => node ((splitRows (volume ds) d bs).map (foldNested leaf node ds))

def nested (leaf : β → γ) (node : List γ → γ) (g : Grid β) : γ :=
  foldNested leaf node g.shape g.values

/-! ## 2. Stretching -/

def commonLengths? : List Nat → List Nat → Option (List Nat)
  | [], ts => some ts
  | ss, [] => some ss
  | s :: ss, t :: ts => do
    let rest ← commonLengths? ss ts
    if s = t ∨ t = 1 then some (s :: rest) else if s = 1 then some (t :: rest) else none

def commonShape? (s t : List Nat) : Option (List Nat) :=
  (commonLengths? s.reverse t.reverse).map List.reverse

def stretched : (source target : List Nat) → List β → List β
  | s :: ss, t :: ts, bs =>
    let whole := ((splitRows (volume ss) s bs).map (stretched ss ts)).flatten
    if s = t then whole else (List.replicate t whole).flatten
  | _, _, bs => bs

def stretch (g : Grid β) (shape : List Nat) : Grid β :=
  ⟨shape, stretched (List.replicate (shape.length - g.shape.length) 1 ++ g.shape) shape g.values⟩

/-- The grid stretched to a shape, if it can be and the shape is not stretched itself. -/
def stretchTo? (g : Grid β) (shape : List Nat) : Option (Grid β) :=
  if commonShape? g.shape shape = some shape then some (g.stretch shape) else none

/-- The values of two grids side by side, if their shapes can be stretched to each other. -/
def pair? (g : Grid β) (h : Grid γ) : Option (Grid (β × γ)) := do
  let shape ← commonShape? g.shape h.shape
  some ⟨shape, (g.stretch shape).values.zip (h.stretch shape).values⟩

/-! ## 3. Masks -/

/-- Whether a mask fits the first directions of a grid. -/
def fits (mask shape : List Nat) : Bool :=
  -- A mask without places in some direction flags nothing and fits any length.
  decide (mask.length ≤ shape.length) && (mask.zip shape).all fun (m, d) => m == 0 || m == d

def flagged? (g : Grid β) (mask : Grid Bool) : Option (List β) :=
  -- The values in the flagged places, if the mask fits.
  if fits mask.shape g.shape then
    let width := volume (g.shape.drop mask.shape.length)
    let rows := splitRows width (volume (g.shape.take mask.shape.length)) g.values
    some (((rows.zip mask.values).filter (·.2)).flatMap (·.1))
  else none

/-- Another value in each flagged row, if there is one flag for every row. -/
def mapRows? (g : Grid β) (mask : List Bool) (f : β → β) : Option (Grid β) :=
  match g.shape with
  | count :: rest =>
    if count = mask.length then
      let rows := (splitRows (volume rest) count g.values).zip mask
      some ⟨g.shape, rows.flatMap fun (row, flag) => if flag then row.map f else row⟩
    else none
  | [] => none

end Grid

end BoxSearch
