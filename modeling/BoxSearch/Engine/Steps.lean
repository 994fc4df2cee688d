import BoxSearch.Engine

/-!
# Single steps of an engine

A search that is driven by hand is set up once and then advanced step by step; the parts of a step
can be carried out one by one as well. Each step belongs to one method, or to two, and there is no
answer when the engine's method has no such step.
-/

namespace BoxSearch

/-- What a step answers and the search after it; nothing if the method has no such step. -/
abbrev Step (σ α : Type) (n : Nat) (β : Type) := Option (Except (Fault α) β × Run σ α n)

namespace Run

variable {σ α β γ : Type} [Scalar α] {n : Nat}

/-! ## 1. Answers -/

/-- The answer of a step; another one if the step found the search to be over. -/
def answered (f : β → γ) (ended : γ) :
    Except (Fault α) (Option β) × Run σ α n → Except (Fault α) γ × Run σ α n
  | (.ok (some b), r) => (.ok (f b), r)
  | (.ok none, r) => (.ok ended, r)
  | (.error e, r) => (.error e, r)

def goesOn : Except (Fault α) (Option Unit) × Run σ α n → Except (Fault α) Bool × Run σ α n :=
  answered (fun _ => true) false

def drawOr (r : Run σ α n) (m : ChoiceM σ α β) : Except (Fault α) β × Run σ α n :=
  let (b, draws) := m.run r.draws
  (b, { r with draws })

variable [DrawSource σ α]

/-! ## 2. Searches driven by hand -/

def setUp (r : Run σ α n) (t : Task α n) : Step σ α n Bool :=
  -- Evaluates the first point. The answer says whether the search may go on.
  match r.engine with
  | .rotation p s => some (goesOn (r.carry s (.rotation p) (Rotation.setUp t p)))
  | .partition p s => some (answered id false (r.carry s (.partition p) (Partition.setUp t p)))
  | _ => none

def advance (r : Run σ α n) (t : Task α n) : Step σ α n Bool :=
  -- One step of the search. The answer says whether another one is possible.
  match r.engine with
  | .rotation p s => some (answered id false (r.carry s (.rotation p) (Rotation.step t p)))
  | .partition p s => some (answered id false (r.carry s (.partition p) (Partition.iterate t p)))
  | _ => none

/-! ## 3. Partition -/

/-- Divides the cell at a place. The answer says whether the search may go on. -/
def divide (r : Run σ α n) (t : Task α n) (place : Nat) : Step σ α n Bool :=
  match r.engine with
  | .partition p s => some (goesOn (r.carry s (.partition p) (Partition.divide t place)))
  | _ => none

def cells (r : Run σ α n) : List (Partition.Cell α n) :=
  match r.engine with
  | .partition _ s => s.cells
  | _ => []

def placeCells (r : Run σ α n) (cells : List (Partition.Cell α n)) : Step σ α n Unit :=
  match r.engine with
  | .partition p s => some (.ok (), { r with engine := .partition p { s with cells } })
  | _ => none

/-! ## 4. Simplex -/

def placeVertices (r : Run σ α n) (t : Task α n) (points : List (Point α n)) : Step σ α n Unit :=
  match r.engine with
  | .simplex p s => some (answered id () (r.carry s (.simplex p) (Simplex.place t points)))
  | _ => none

def round (r : Run σ α n) (t : Task α n) : Step σ α n Bool :=
  match r.engine with
  | .simplex p s => some (goesOn (r.carry s (.simplex p) (Simplex.round t p)))
  | _ => none

/-- Pulls the vertices towards the best one. The answer says whether the search may go on. -/
def shrink (r : Run σ α n) (t : Task α n) : Step σ α n Bool :=
  match r.engine with
  | .simplex p s => some (goesOn (r.carry s (.simplex p) (Simplex.shrink t p)))
  | _ => none

/-! ## 5. Genetic search -/

def mutationStep (r : Run σ α n) (scale : α) : Step σ α n α :=
  match r.engine with
  | .genetic p _ _ => some (r.drawOr (Genetic.mutationStep p scale))
  | _ => none

/-! ## 6. Evolution -/

def marry (r : Run σ α n) : Step σ α n (List Nat) :=
  match r.engine with
  | .evolution p _ => some (r.drawOr (Evolution.marry p))
  | _ => none

end Run

end BoxSearch
