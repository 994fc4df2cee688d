import BoxSearch.Rounding

/-!
# Torus — the neighbourhood of a fully informed swarm

The members of a swarm are laid out row by row on a grid that closes in both directions. A grid for
about `k` members has `⌊√k⌋` columns and as many rows as come nearest to `k` members. Every member
is informed by the four members above, left, right and below.
-/

namespace BoxSearch

/-- A grid that closes in both directions. -/
structure Torus where
  rows : Nat
  cols : Nat
  deriving DecidableEq, Repr

namespace Torus

def ofQuotient (num den : Nat) : Torus :=
  let cols := Nat.sqrt (num / den)
  ⟨roundQuot num (den * cols), cols⟩

/-- The grid for `count` members, of which there must be at least four. -/
def ofCount (count : Nat) : Torus := ofQuotient count 1

def size (g : Torus) : Nat := g.rows * g.cols

/-- The place in row `r` and column `c`, both taken around the grid. -/
def place (g : Torus) (r c : Nat) : Nat := (r % g.rows) * g.cols + c % g.cols

def up (g : Torus) (i : Nat) : Nat := g.place (i / g.cols + (g.rows - 1)) (i % g.cols)

def left (g : Torus) (i : Nat) : Nat := g.place (i / g.cols) (i % g.cols + (g.cols - 1))

def right (g : Torus) (i : Nat) : Nat := g.place (i / g.cols) (i % g.cols + 1)

def down (g : Torus) (i : Nat) : Nat := g.place (i / g.cols + 1) (i % g.cols)

def informants (g : Torus) (i : Nat) : List Nat := [g.up i, g.left i, g.right i, g.down i]

end Torus

end BoxSearch
