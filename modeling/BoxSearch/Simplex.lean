import BoxSearch.Search

/-!
# Simplex — a simplex that moves its worst vertex

In `n` variables the simplex has `n + 1` vertices, ranked by cost. A round reflects the worst vertex
through the centroid of the others and, by the cost of the reflected point, keeps it, goes further,
comes back, or pulls all vertices towards the best one. A reflected cost that ties the best or the
second worst vertex ends the search.

A search makes `n + 1` vertices. A simplex that is put in place by hand may have more, which are
ranked with the others and take no other part; one with fewer is no simplex to work on.

The budget is looked at between rounds only.
-/

namespace BoxSearch.Simplex

structure Params (α : Type) where
  reflection : Quantity α
  expansion : Quantity α
  contraction : Quantity α
  shrinkage : Quantity α
  -- Spread of the first simplex as a fraction of the widths.
  spread : Quantity α

/-- What a round did last. -/
inductive Move where
  | nothing
  | reflect
  | expand
  | contractOutside
  | contractInside
  | shrink
  | degenerate
  deriving DecidableEq, Repr

/-- The vertices of a simplex. -/
abbrev Vertices (α : Type) (n : Nat) := List (Sample α n)

structure State (α : Type) (n : Nat) where
  vertices : Vertices α n := []
  lastMove : Move := .nothing

/-- The vertices that a round compares with the reflected point. -/
structure Corners (α : Type) (n : Nat) where
  best : Sample α n
  -- The worst vertex but one; the best one if there are only two.
  secondWorst : Sample α n
  worst : Sample α n

namespace Vertices

variable {α : Type} [Scalar α] {n : Nat}

def corners? (v : Vertices α n) : Option (Corners α n) := do
  -- The corners of a simplex with at least `n + 1` vertices.
  let best ← v[0]?
  let secondWorst ← v[n - 1]?
  let worst ← v[n]?
  some ⟨best, secondWorst, worst⟩

def ranked (v : Vertices α n) : Vertices α n := Cost.rank (·.cost) v

def centroid (v : Vertices α n) : Point α n := Point.mean ((v.take n).map (·.point))

def replaceWorst (v : Vertices α n) (s : Sample α n) : Vertices α n := v.set n s

end Vertices

variable {σ α : Type} [Scalar α] [DrawSource σ α] {n : Nat}

/-- The point `factor` of the way from `x` to `y`, brought into the region. -/
def towards (r : Region α n) (x : Point α n) (factor : α) (y : Point α n) : Point α n :=
  r.repair (Vector.ofFn fun i => x.get i + factor * (y.get i - x.get i))

def reflected (r : Region α n) (reflection : α) (middle : Point α n) (worst : Point α n) :
    Point α n :=
  r.repair (Vector.ofFn fun i => middle.get i + reflection * (middle.get i - worst.get i))

/-! ## 1. Access to the simplex -/

def vertices : SearchM σ α n (State α n) (Vertices α n) := do
  match (← SearchM.own).vertices with
  | [] => throw (.fault .absent)
  | v => pure v

def modifyVertices (f : Vertices α n → Vertices α n) : SearchM σ α n (State α n) Unit :=
  SearchM.modifyOwn fun s => { s with vertices := f s.vertices }

def note (move : Move) : SearchM σ α n (State α n) Unit :=
  SearchM.modifyOwn fun s => { s with lastMove := move }

/-! ## 2. A round -/

/-- Pulls the vertices at the given places towards `best`, each evaluated at its new point. -/
def shrinkAt (t : Task α n) (p : Params α) (best : Point α n) :
    List Nat → SearchM σ α n (State α n) Unit
  | [] => pure ()
  | k :: rest => do
    match (← vertices)[k]? with
    | none => throw (.fault .noSuchMember)
    | some s => do
      let x := towards t.region best (← SearchM.use p.shrinkage) s.point
      modifyVertices (·.set k { s with point := x })
      let c ← SearchM.evaluate t x
      modifyVertices (·.set k ⟨x, c⟩)
      let _ ← SearchM.requireFinite c
      shrinkAt t p best rest

/-- Pulls `n` vertices, all but the best of a search, towards the best. -/
def shrink (t : Task α n) (p : Params α) : SearchM σ α n (State α n) Unit := do
  match ← vertices with
  | [] => throw (.fault .absent)
  | best :: _ => shrinkAt t p best.point ((List.range n).map (· + 1))

def expand (t : Task α n) (p : Params α) (middle xr : Point α n) (fr : α) :
    SearchM σ α n (State α n) Unit := do
  -- Goes further in the direction of a reflected point that beats every vertex.
  note .expand
  let xe := towards t.region middle (← SearchM.use p.expansion) xr
  let fe ← SearchM.trial t xe
  if fe < fr then modifyVertices (·.replaceWorst ⟨xe, .finite fe⟩)
  else modifyVertices (·.replaceWorst ⟨xr, .finite fr⟩)

/-- Comes back towards the centroid from the better of the worst vertex and its reflection. -/
def contract (t : Task α n) (p : Params α) (worst : Sample α n) (middle xr : Point α n) (fr : α) :
    SearchM σ α n (State α n) Unit := do
  let outside := (Cost.finite fr).below worst.cost
  note (if outside then .contractOutside else .contractInside)
  let base : Sample α n := if outside then ⟨xr, .finite fr⟩ else worst
  let xc := towards t.region middle (← SearchM.use p.contraction) base.point
  let fc ← SearchM.trial t xc
  if (Cost.finite fc).below base.cost then modifyVertices (·.replaceWorst ⟨xc, .finite fc⟩)
  else do
    -- Nothing along the line helps: every vertex moves towards the best one.
    note .shrink
    shrink t p

def endDegenerate (fr : α) : SearchM σ α n (State α n) Unit := do
  -- Ends the search because the reflected cost ties a vertex.
  note .degenerate
  let phase := Phase.degenerate fr (← SearchM.ledger).evaluations
  SearchM.stop phase
  SearchM.report (.tied phase)
  throw .ended

def round (t : Task α n) (p : Params α) : SearchM σ α n (State α n) Unit := do
  let v ← vertices
  match v.corners? with
  | none => throw (.fault .noSuchMember)
  | some c => do
    let middle := v.centroid
    let xr := reflected t.region (← SearchM.use p.reflection) middle c.worst.point
    let fr ← SearchM.trial t xr
    let cost := Cost.finite fr
    if c.best.cost.below cost && cost.below c.secondWorst.cost then do
      note .reflect
      modifyVertices (·.replaceWorst ⟨xr, cost⟩)
    else if cost.below c.best.cost then expand t p middle xr fr
    else if c.secondWorst.cost.below cost then contract t p c.worst middle xr fr
    else endDegenerate fr
    modifyVertices (·.ranked)
    SearchM.endRound

/-! ## 3. The whole search -/

def firstVertex (t : Task α n) (p : Params α) : ChoiceM σ α (Point α n) :=
  match t.starts with
  | x :: _ => pure x
  | [] => Draw.normalPoint t.region t.region.center p.spread

def addVertex (t : Task α n) (x : Point α n) : SearchM σ α n (State α n) Unit := do
  let c ← SearchM.evaluate t x
  -- The vertex is kept before its cost is looked at, also if that ends the search.
  modifyVertices (· ++ [⟨x, c⟩])
  let _ ← SearchM.requireFinite c

def foundAround (t : Task α n) (p : Params α) (first : Point α n) :
    (k : Nat) → SearchM σ α n (State α n) Unit
  | 0 => pure ()
  | k + 1 => do
    addVertex t (← SearchM.drawOr (Draw.normalPoint t.region first p.spread))
    foundAround t p first k

def found (t : Task α n) (p : Params α) : SearchM σ α n (State α n) Unit := do
  -- Evaluates the first vertex and `n` points around it, and ranks them.
  let first ← SearchM.drawOr (firstVertex t p)
  modifyVertices fun _ => []
  addVertex t first
  foundAround t p first n
  modifyVertices (·.ranked)

def run (t : Task α n) (p : Params α) : SearchM σ α n (State α n) Unit := do
  found t p
  SearchM.roundsWithin t (round t p) t.budget

/-! ## 4. A simplex put in place -/

def costsOf (t : Task α n) : List (Point α n) → SearchM σ α n (State α n) (List (Cost α))
  | [] => pure []
  | x :: rest => do
    let c ← SearchM.evaluate t x
    let others ← costsOf t rest
    pure (c :: others)

/-- Replaces the vertices by the given points, evaluated in order and ranked. -/
def place (t : Task α n) (points : List (Point α n)) : SearchM σ α n (State α n) Unit := do
  -- Until all of them are evaluated they stand with the costs of the vertices before them.
  modifyVertices fun v => List.zipWith (fun x s => { s with point := x }) points v
  let costs ← costsOf t points
  modifyVertices fun _ => Vertices.ranked (List.zipWith (fun x c => ⟨x, c⟩) points costs)

end BoxSearch.Simplex
