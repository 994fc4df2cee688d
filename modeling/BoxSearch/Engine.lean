import BoxSearch.Evolution
import BoxSearch.Genetic
import BoxSearch.HillClimb
import BoxSearch.Partition
import BoxSearch.Rotation
import BoxSearch.Simplex
import BoxSearch.Swarm

/-!
# Engine — a search of any method

An engine is a method with its settings and with what it keeps between steps. Solving runs the
engine's method from its first step to its end.
-/

namespace BoxSearch

/-- A method with its settings and what it keeps. -/
inductive Engine (α : Type) (n : Nat) where
  | hillClimb (p : HillClimb.Params α)
  | swarm (p : Swarm.Params α) (state : Swarm.State α n)
  | genetic (p : Genetic.Params α) (lengths : Vector Nat n) (population : List (Sample α n))
  | evolution (p : Evolution.Params α) (state : Evolution.State α n)
  | simplex (p : Simplex.Params α) (state : Simplex.State α n)
  | rotation (p : Rotation.Params α) (state : Rotation.State α n)
  | partition (p : Partition.Params α) (state : Partition.State α n)

/-- A search of any method with its account and its draws. -/
structure Run (σ α : Type) (n : Nat) where
  ledger : Ledger α n
  draws : σ
  engine : Engine α n

namespace Run

variable {σ α κ β : Type} [Scalar α] {n : Nat}

def carry (r : Run σ α n) (own : κ) (wrap : κ → Engine α n) (m : SearchM σ α n κ β) :
    Except (Fault α) (Option β) × Run σ α n :=
  let (b, c) := Course.carry m ⟨r.ledger, r.draws, own⟩
  (b, ⟨c.ledger, c.draws, wrap c.own⟩)

def solveWith (r : Run σ α n) (t : Task α n) (own : κ) (wrap : κ → Engine α n)
    (body : SearchM σ α n κ Unit) : Except (Fault α) Unit × Run σ α n :=
  let (b, c) := Course.solve t body ⟨r.ledger, r.draws, own⟩
  (b, ⟨c.ledger, c.draws, wrap c.own⟩)

variable [DrawSource σ α]

def solve (r : Run σ α n) (t : Task α n) : Except (Fault α) Unit × Run σ α n :=
  -- Runs the engine's method from its first step to its end.
  match r.engine with
  | .hillClimb p => r.solveWith t () (fun _ => .hillClimb p) (HillClimb.run t p)
  | .swarm p s => r.solveWith t s (.swarm p) (Swarm.run t p)
  | .genetic p lengths s => r.solveWith t s (.genetic p lengths) (Genetic.run t p lengths)
  | .evolution p s => r.solveWith t s (.evolution p) (Evolution.run t p)
  | .simplex p s => r.solveWith t s (.simplex p) (Simplex.run t p)
  | .rotation p s => r.solveWith t s (.rotation p) (Rotation.run t p)
  | .partition p s => r.solveWith t s (.partition p) (Partition.run t p)

end Run

end BoxSearch
