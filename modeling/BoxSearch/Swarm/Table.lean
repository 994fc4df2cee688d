import BoxSearch.Grid.Rows
import BoxSearch.Region.OnGrid
import BoxSearch.Swarm

/-!
# Table of a swarm — particles that are moved one by one

A swarm that is driven by hand is a table: a grid for the positions, one for the costs, one for the
velocities, and two for what the particles remember. The grids are put in place as they come and
need not fit together; a move or a refresh finds out what is missing when it gets there. Where they
do fit, a particle moves as in a search.
-/

namespace BoxSearch.Swarm

/-- The particles of a swarm, a grid for each of their properties. -/
structure Table (α : Type) where
  -- The number of particles that the table goes by.
  size : Nat
  points : Grid α
  costs : Grid (Cost α)
  velocities : Grid α
  bestPoints : Grid α
  bestCosts : Grid (Cost α)
  -- The neighbourhood, in an informed swarm.
  torus : Option Torus

variable {σ α : Type} [Scalar α] [DrawSource σ α] {n : Nat}

/-! ## 1. One move -/

/-- The attraction of a particle at `x` to a target, with fresh uniform numbers. -/
def pullToRow (n : Nat) (factor : Factor α) (x : Grid α) (target : Usable α (Grid α)) :
    ChoiceM σ α (Grid α) := do
  let u : Point α n ← .draw (Draw.uniforms n)
  let scaled ← .use (do Grid.combine (· * ·) (.row u.toList) (← factor))
  -- The target is looked at after the numbers are drawn.
  let offset ← .use (do Grid.combine (· - ·) (← target) x)
  .use (Grid.combine (· * ·) scaled offset)

/-- Draws a velocity anew where it has come to rest. -/
def stirRow (t : Task α n) (p : Params α) (v : Grid α) : ChoiceM σ α (Grid α) := do
  match v.point? n with
  | some y => return .row (← stir t p y).toList
  | none =>
    -- Without a coordinate for each variable there is none to draw anew.
    let resting := v.values.countP atRest
    if 0 < resting then
      let _ : List α ← .draw (Draw.times resting DrawSource.normal)
      let _ ← .use p.damping
      .use (.error .noSuchMember)
    else pure v

/-- Mutates the integer variables of a position. -/
def mutateRow (t : Task α n) (p : Params α) (x : Grid α) : ChoiceM σ α (Grid α) := do
  match x.point? n with
  | some y => return .row (← mutateIntegers t p y).toList
  | none =>
    let rounded ← .use (t.region.roundGrid x)
    if t.region.hasIntegers then
      let u : Point α n ← .draw (Draw.uniforms n)
      -- Only a position with a coordinate for each variable has any that can be mutated.
      if (List.finRange n).any fun i => t.region.integral.get i && decide (u.get i < p.mutation) then
        .use (.error .misshapen)
    pure rounded

namespace Table

/-- The neighbourhood of a swarm of the given size, if its rule and its size have one. -/
def torusFor (rule : Rule) (size : Nat) : Option Torus :=
  match rule with
  | .informed => if size < 4 then none else some (Torus.ofCount size)
  | _ => none

def ofParticles (rule : Rule) (qs : List (Particle α n)) : Table α where
  size := qs.length
  points := .ofPoints (qs.map (·.point))
  costs := .row (qs.map (·.cost))
  velocities := .ofPoints (qs.map (·.velocity))
  bestPoints := .ofPoints (qs.map (·.bestPoint))
  bestCosts := .row (qs.map (·.bestCost))
  torus := torusFor rule qs.length

def restarted (tb : Table α) (rule : Rule) (chosen : List (Point α n)) (costs : List (Cost α)) :
    Table α :=
  -- The table with other positions and costs, whose number decides about the neighbourhood.
  { tb with
    size := chosen.length
    points := .ofPoints chosen
    costs := .row costs
    torus := torusFor rule chosen.length }

def informants (tb : Table α) (place : Int) : Usable α (List Int) := do
  let g ← .ofOption .noNeighbours tb.torus
  let i ← .ofOption .noSuchMember (Place.inRow g.size place)
  .ok ((g.informants i).map Int.ofNat)

/-- The damped velocity of the informed particle at a place, which stands at `x`: the old velocity
`v` and the mean attraction. -/
def informedVelocity (n : Nat) (p : Params α) (tb : Table α) (place : Int) (x v : Grid α) :
    ChoiceM σ α (Grid α) := do
  let places ← .use (tb.informants place)
  let us : List (Point α n) ← .draw (Draw.times places.length (Draw.uniforms n))
  let scaled ← .use (do Grid.combine (· * ·) (.ofPoints us) (← p.pull))
  let offsets ← .use (do Grid.combine (· - ·) (← tb.bestPoints.rowsAt places) x)
  let pulls ← .use (Grid.combine (· * ·) scaled offsets)
  let mean := pulls.sumRows.map (· / Scalar.ofNat places.length)
  let moved ← .use (Grid.combine (· + ·) v mean)
  let damping ← .use p.damping
  pure (moved.map (damping * ·))

/-- The attraction of the particle at a place, which stands at `x`, to its own best position and to
the best row of the search. -/
def twoPointPull (n : Nat) (p : Params α) (tb : Table α) (place : Int) (x best : Grid α) :
    ChoiceM σ α (Grid α) := do
  let own ← pullToRow n p.ownPull x (tb.bestPoints.rowAt place)
  let best ← pullToRow n p.bestPull x (.ok best)
  .use (Grid.combine (· + ·) own best)

/-- The velocity that the rule gives to the particle at a place, which stands at `x` and has the
velocity `v`. -/
def ruleVelocity (n : Nat) (p : Params α) (tb : Table α) (place : Int) (x v best : Grid α) :
    ChoiceM σ α (Grid α) :=
  match p.rule with
  | .informed => informedVelocity n p tb place x v
  | .inertia => do
    let pull ← twoPointPull n p tb place x best
    let damping ← .use p.damping
    .use (Grid.combine (fun v d => damping * v + d) v pull)
  | .constriction => do
    let pull ← twoPointPull n p tb place x best
    let moved ← .use (Grid.combine (· + ·) v pull)
    let damping ← .use p.damping
    pure (moved.map (damping * ·))

def move (t : Task α n) (p : Params α) (tb : Table α) (place : Int) (best : Grid α) :
    ChoiceM σ α (Grid α × Grid α) := do
  -- The velocity and position of the particle at a place after a move.
  let x ← .use (tb.points.rowAt place)
  let v ← .use (tb.velocities.rowAt place)
  let v ← stirRow t p (← ruleVelocity n p tb place x v best)
  let x ← mutateRow t p (← .use (Grid.combine (· + ·) x v))
  pure (v, ← .use (t.region.clampGrid x))

/-! ## 2. What particles remember -/

/-- Lets the particles at some places remember their positions if those are strictly cheaper. -/
def refresh (tb : Table α) (places : List Int) : Usable α (Table α) := do
  let present ← tb.costs.rowsAt places
  let remembered ← tb.bestCosts.rowsAt places
  let better : Grid Bool ← Grid.combine Cost.below present remembered
  let improved ← .ofOption .noSuchMember ((Grid.row places).flagged? better)
  let bestPoints ← tb.bestPoints.setRows improved (← tb.points.rowsAt improved)
  let bestCosts ← tb.bestCosts.setRows improved (← tb.costs.rowsAt improved)
  .ok { tb with bestPoints, bestCosts }

end Table

end BoxSearch.Swarm
