import BoxSearch.Engine
import BoxSearch.Evolution.Table
import BoxSearch.Partition.Stray
import BoxSearch.Swarm.Table

/-!
# Placed — what is put in place of what an engine keeps

A search that is driven by hand can be given particles, members, vertices or cells. They stand in
for those of its engine until the engine makes its own.
-/

namespace BoxSearch

/-- Something put in place by hand. -/
inductive Placed (α : Type) where
  | swarm (tb : Swarm.Table α)
  | population (tb : Evolution.Table α)
  -- Vertices that are no points of the region, with their costs.
  | vertices (points : Grid α) (costs : List (Cost α))
  -- Cells of which some do not fit the cube.
  | cells (cells : List (Partition.Stray α))

namespace Engine

variable {α : Type} [Scalar α] {n : Nat}

/-- The swarm, as placed by hand or as the engine keeps it. -/
def swarmTable? (e : Engine α n) (placed : Option (Placed α)) : Option (Swarm.Table α) :=
  match e, placed with
  | .swarm p s, some (.swarm tb) =>
    -- Positions chosen for a swarm that was never set going stand in for those that were placed.
    if s.chosen.isEmpty then some tb else some (tb.restarted p.rule s.chosen s.costs)
  | .swarm p s, _ => if s.particles.isEmpty then none else some (.ofParticles p.rule s.particles)
  | _, _ => none

/-- The population of an evolution, as placed by hand or as the engine keeps it. -/
def populationTable? (e : Engine α n) (placed : Option (Placed α)) : Option (Evolution.Table α) :=
  match e, placed with
  | .evolution _ _, some (.population tb) => some tb
  | .evolution p s, _ =>
    -- Until all the points chosen to begin with are evaluated, they are the population.
    if s.population.length < s.chosen.length then
      some (.ofChosen (p.firstSteps n) s.chosen (s.population.map (·.cost)))
    else if s.population.isEmpty then none
    else some (.ofMembers s.population)
  | _, _ => none

/-- The vertices of a simplex with their costs, as placed by hand or as the engine keeps them. -/
def simplex? (e : Engine α n) (placed : Option (Placed α)) : Option (Grid α × List (Cost α)) :=
  match e, placed with
  | .simplex _ _, some (.vertices points costs) => some (points, costs)
  | .simplex _ s, _ =>
    if s.vertices.isEmpty then none
    else some (.ofPoints (s.vertices.map (·.point)), s.vertices.map (·.cost))
  | _, _ => none

/-- The cells of a partition, as placed by hand or as the engine keeps them. -/
def cells (e : Engine α n) (placed : Option (Placed α)) : List (Partition.Stray α) :=
  match e, placed with
  | .partition _ _, some (.cells cells) => cells
  | .partition _ s, _ => s.cells.map .ofCell
  | _, _ => []

/-- What still stands in for what an engine keeps: nothing once the engine has made its own. -/
def keepPlaced (e : Engine α n) (placed : Option (Placed α)) : Option (Placed α) :=
  match e with
  | .swarm _ s => if s.particles.isEmpty then placed else none
  | .evolution _ s => if s.chosen.isEmpty then placed else none
  | .simplex _ s => if s.vertices.isEmpty then placed else none
  | _ => placed

end Engine

end BoxSearch
