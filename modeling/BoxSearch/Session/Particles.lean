import BoxSearch.Session.Steps

/-!
# Steps of a swarm — particles moved by hand

The particles of a swarm can be replaced. A particle that is moved by hand stays where it is: the
answer tells where it would be.
-/

namespace BoxSearch.SessionM

variable {n : Nat}

def swarm : SessionM n (Swarm.Params Float × Swarm.Table Float) := do
  -- The settings of a swarm, and the swarm in its present state.
  let s ← get
  match s.engine with
  | .swarm p _ => return (p, ← require true s.swarm?)
  | _ => throw .notOffered

/-- Replaces the particles, given by points and costs, velocities, and what they remember. The
answer is their number. -/
def placeParticles (x fx v bestX bestFx : Setting) : SessionM n Nat := do
  let points ← grid x
  let pointCosts ← costs fx
  let velocities ← grid v
  let bestPoints ← grid bestX
  let bestCosts ← costs bestFx
  match (← get).engine with
  | .swarm p _ => do
    let size ← use (.ofOption .notNumber points.shape.head?)
    let torus := Swarm.Table.torusFor p.rule size
    let tb := ⟨size, points, pointCosts, velocities, bestPoints, bestCosts, torus⟩
    modify fun s => { s with engine := .swarm p {}, placed := some (.swarm tb) }
    -- A swarm that is too small for its neighbourhood is in place all the same.
    if p.rule = .informed ∧ torus.isNone then
      use (.error (.tooFewForTorus (toString size)))
    pure size
  | _ => throw .notOffered

def moveParticle (place best : Setting) : SessionM n (Grid Float × Grid Float) := do
  -- The velocity and the position of a particle after a move.
  let i ← integer place
  let target ← grid best
  let (p, tb) ← swarm
  let s ← get
  choose (tb.move s.task p i target)

def refreshParticles (places : Setting) : SessionM n (Swarm.Table Float) := do
  -- Lets particles remember their present positions if those are better.
  let is ← integers places
  let (_, tb) ← swarm
  let tb ← use (tb.refresh is)
  match (← get).engine with
  | .swarm p _ => modify fun s => { s with engine := .swarm p {}, placed := some (.swarm tb) }
  | _ => pure ()
  pure tb

end BoxSearch.SessionM
