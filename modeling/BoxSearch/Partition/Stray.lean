import BoxSearch.Grid.Rows
import BoxSearch.Partition

/-!
# Stray cells — cells put in place by hand

A cell that is put in place by hand may have cuts and a centre of any length. It counts in a
selection like any other, and it is divided as long as its centre leads to points.
-/

namespace BoxSearch.Partition

/-- A cell whose cuts and whose centre need not have one entry for each variable. -/
structure Stray (α : Type) where
  cuts : List Int
  center : Grid α
  cost : α

namespace Stray

variable {α : Type} [Scalar α] {n : Nat}

def ofCell (c : Cell α n) : Stray α := ⟨c.cuts.toList, .row c.center.toList, c.cost⟩

def cell? (n : Nat) (s : Stray α) : Option (Cell α n) := do
  let cuts ← Point.ofList? n s.cuts
  let center ← if s.center.shape.length = 1 then Point.ofList? n s.center.values else none
  some ⟨cuts, center, s.cost⟩

def cells? (n : Nat) (strays : List (Stray α)) : Option (List (Cell α n)) := strays.mapM (cell? n)

def size (s : Stray α) : α := halfDiagonal (s.cuts.map Scalar.thirds)

def level (s : Stray α) : Int := Int.bmod (s.cuts.foldl (· + ·) 0) 18446744073709551616

def sighting (s : Stray α) : Sighting α := ⟨s.level, s.size, s.cost⟩

def leastCost : List (Stray α) → Option α
  | [] => none
  | c :: rest => some ((rest.map (·.cost)).foldl Scalar.least c.cost)

def longestSides (s : Stray α) : List Nat :=
  match s.cuts.min? with
  | none => []
  | some fewest => (List.range s.cuts.length).filter fun d => s.cuts[d]? == some fewest

def thirdOfLongest (s : Stray α) : Quantity α :=
  (Usable.ofOption .misshapen s.cuts.min?).bind thirdOf

def shifted (s : Stray α) (d : Nat) (offset : α) : Usable α (Grid α) := do
  let row : Grid α ← .ofOption .noSuchMember (s.center.rowAt? d)
  s.center.setRow d (row.map (· + offset))

/-- The two samples along one longest side. -/
structure Probe (α : Type) where
  dimension : Nat
  left : Grid α × α
  right : Grid α × α

def Probe.best (p : Probe α) : α := Scalar.least p.left.2 p.right.2

/-- The order in which dimensions are cut: by the better cost, then by index. -/
def Probe.notAfter (a b : Probe α) : Bool :=
  if a.best < b.best then true
  else if b.best < a.best then false
  else decide (a.dimension ≤ b.dimension)

def cut : List (Probe α) → List Int → List Int × List (Stray α)
  | [], cuts => (cuts, [])
  | p :: rest, cuts =>
    let cuts := cuts.modify p.dimension (· + 1)
    -- The cells cut off here have the cuts made so far, not those that follow.
    let (final, cells) := cut rest cuts
    (final, ⟨cuts, p.left.1, p.left.2⟩ :: ⟨cuts, p.right.1, p.right.2⟩ :: cells)

end Stray

end BoxSearch.Partition
