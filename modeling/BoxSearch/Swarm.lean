import BoxSearch.Population
import BoxSearch.Swarm.Torus

/-!
# Swarm — particles that are drawn to good points

Every particle has a velocity and remembers the best of its own positions. A particle is drawn
either to the remembered positions of its four informants on a torus, or to its own remembered
position and the best point of the search. A velocity that has come to rest is drawn anew, and
integer variables are mutated now and then. A sweep moves every particle once; what a particle
remembers is refreshed at the end of the sweep or right after its move.
-/

namespace BoxSearch.Swarm

/-- What draws a particle, and how its velocity is damped. -/
inductive Rule where
  -- Drawn to its informants.
  | informed
  -- Drawn to two points; only the old velocity is damped.
  | inertia
  -- Drawn to two points; the new velocity is damped as a whole.
  | constriction
  deriving DecidableEq, Repr

/-- When a remembered position is refreshed. -/
inductive Refresh where
  | afterSweep
  | afterMove
  deriving DecidableEq, Repr

structure Params (α : Type) where
  -- The number of particles asked for.
  count : Nat
  rule : Rule
  refresh : Refresh
  sampling : Sampling
  -- Damping of the velocity.
  damping : Quantity α
  -- Attraction to the informants.
  pull : Factor α
  -- Attraction to the particle's own best position.
  ownPull : Factor α
  -- Attraction to the best point of the search.
  bestPull : Factor α
  -- Scale of the first velocities.
  launch : Quantity α
  -- Spread of the first positions when they are normal.
  spread : Quantity α
  -- Chance that an integer variable is mutated.
  mutation : α
  -- Spread of a mutation.
  mutationSpread : Quantity α

/-- The number of particles: in an informed swarm, the size of its torus. -/
def Params.size {α : Type} (p : Params α) : Nat :=
  match p.rule with
  | .informed => (Torus.ofCount p.count).size
  | _ => p.count

/-- Whether the multipliers of the rule have a value for every one of `n` coordinates. -/
def Params.factorsFit {α : Type} (p : Params α) (n : Nat) : Bool :=
  -- Multipliers that cannot be used at all do not count.
  match p.rule with
  | .informed => p.pull.toOption.all fun g => (g.stretchTo? [4, n]).isSome
  | _ => [p.ownPull, p.bestPull].all fun f => f.toOption.all fun g => (g.stretchTo? [n]).isSome

/-- A particle. -/
structure Particle (α : Type) (n : Nat) where
  point : Point α n
  cost : Cost α
  velocity : Point α n
  bestPoint : Point α n
  bestCost : Cost α

variable {σ α : Type} [Scalar α] [DrawSource σ α] {n : Nat}

namespace Particle

/-- Remembers the present position if it is strictly cheaper than the remembered one. -/
def refresh (q : Particle α n) : Particle α n :=
  if q.cost.below q.bestCost then { q with bestPoint := q.point, bestCost := q.cost } else q

def moved (q : Particle α n) (velocity point : Point α n) (cost : Cost α) : Particle α n :=
  { q with velocity, point, cost }

end Particle

/-! ## 1. One move -/

/-- What a move depends on. -/
structure Situation (α : Type) (n : Nat) where
  point : Point α n
  velocity : Point α n
  -- The remembered positions of the informants.
  informants : List (Point α n)
  -- The particle's own remembered position.
  ownBest : Point α n
  -- The best point of the search.
  best : Point α n

/-- The damped velocity of an informed particle: the old one and the mean attraction. -/
def informedVelocity (p : Params α) (s : Situation α n) : ChoiceM σ α (Point α n) := do
  let k := s.informants.length
  -- The uniform numbers for all informants are drawn first.
  let us ← .draw (Draw.times k (Draw.uniforms n))
  let factors ← .use (p.pull.points k n)
  let pulls := List.zipWith Point.mul (List.zipWith Point.mul us factors)
    (s.informants.map fun best => Point.sub best s.point)
  let damping ← .use p.damping
  pure (Vector.ofFn fun i =>
    damping * (s.velocity.get i + Scalar.sum (pulls.map fun v => v.get i) / Scalar.ofNat k))

/-- The attraction of a particle to a point, with fresh uniform numbers. -/
def pullTo (factor : Factor α) (point target : Point α n) : ChoiceM σ α (Point α n) := do
  let u ← .draw (Draw.uniforms n)
  let factor ← .use (factor.point n)
  pure (Point.mul (Point.mul u factor) (Point.sub target point))

/-- The attraction to a particle's own best position and to the best point of the search. -/
def twoPointPull (p : Params α) (s : Situation α n) : ChoiceM σ α (Point α n) := do
  let own ← pullTo p.ownPull s.point s.ownBest
  let best ← pullTo p.bestPull s.point s.best
  pure (Point.add own best)

def ruleVelocity (p : Params α) (s : Situation α n) : ChoiceM σ α (Point α n) :=
  match p.rule with
  | .informed => informedVelocity p s
  | .inertia => do
    let pull ← twoPointPull p s
    let damping ← .use p.damping
    pure (Point.add (Point.scale damping s.velocity) pull)
  | .constriction => do
    let pull ← twoPointPull p s
    let damping ← .use p.damping
    pure (Point.scale damping (Point.add s.velocity pull))

def atRest (v : α) : Bool := Scalar.same (Scalar.nearest (v * 100000.0) / 100000.0) 0.0

/-- Draws the coordinates anew in which a velocity has come to rest. -/
def stir (t : Task α n) (p : Params α) (v : Point α n) : ChoiceM σ α (Point α n) := do
  let damping ← .use p.damping
  .draw (Draw.normalsWhere (Vector.ofFn fun i => atRest (v.get i)) v fun i z =>
    z * damping * t.region.width i)

/-- Adds a normal step to each chosen variable and rounds it. -/
def mutateChosen (t : Task α n) (p : Params α) (chosen : Vector Bool n) (x : Point α n) :
    ChoiceM σ α (Point α n) := do
  let z ← .draw (Draw.normalsWhere chosen x fun _ z => z)
  if chosen.any id then
    -- The spread is looked at only if a variable is chosen.
    let spread ← .use p.mutationSpread
    pure (Vector.ofFn fun i =>
      if chosen.get i then Scalar.nearest (x.get i + z.get i * spread * t.region.width i)
      else x.get i)
  else pure x

def mutateIntegers (t : Task α n) (p : Params α) (x : Point α n) : ChoiceM σ α (Point α n) := do
  -- Mutates each integer variable with the chance of the settings.
  if t.region.hasIntegers then
    let u ← .draw (Draw.uniforms n)
    mutateChosen t p (Vector.ofFn fun i => t.region.integral.get i && decide (u.get i < p.mutation))
      (t.region.roundIntegers x)
  else pure x

def move (t : Task α n) (p : Params α) (s : Situation α n) :
    ChoiceM σ α (Point α n × Point α n) := do
  -- The velocity and position of a particle after a move.
  let v ← ruleVelocity p s
  let v ← stir t p v
  let x ← mutateIntegers t p (Point.add s.point v)
  pure (v, t.region.clamp x)

/-! ## 2. Sweeps -/

/-- What a swarm keeps: the positions chosen to begin with, the costs of those that were evaluated,
and the particles once they are set going. -/
structure State (α : Type) (n : Nat) where
  chosen : List (Point α n) := []
  costs : List (Cost α) := []
  particles : List (Particle α n) := []

def modifyParticles (f : List (Particle α n) → List (Particle α n)) :
    SearchM σ α n (State α n) Unit :=
  SearchM.modifyOwn fun s => { s with particles := f s.particles }

/-- The remembered positions of the informants of place `i`, if all of them exist. -/
def informantPoints (p : Params α) (swarm : List (Particle α n)) (i : Nat) :
    Option (List (Point α n)) :=
  match p.rule with
  | .informed => ((Torus.ofCount p.count).informants i).mapM fun j => swarm[j]?.map (·.bestPoint)
  | _ => some []

def situation (p : Params α) (swarm : List (Particle α n)) (i : Nat) (q : Particle α n)
    (best : Point α n) : Usable α (Situation α n) := do
  let informants ← .ofOption .noSuchMember (informantPoints p swarm i)
  .ok ⟨q.point, q.velocity, informants, q.bestPoint, best⟩

/-- The best point of the search so far, or else the given one. -/
def bestPoint (x : Point α n) : SearchM σ α n (State α n) (Point α n) := do
  return ((← SearchM.ledger).best.map (·.point)).getD x

/-- Moves the particle `q` at place `i` of a swarm; `target` stands for the best point. -/
def moveParticle (t : Task α n) (p : Params α) (swarm : List (Particle α n)) (i : Nat)
    (q : Particle α n) (target : Point α n) : SearchM σ α n (State α n) Unit := do
  let s ← SearchM.use (situation p swarm i q target)
  let (v, x) ← SearchM.drawOr (move t p s)
  let c ← SearchM.evaluate t x
  modifyParticles (·.set i (q.moved v x c))
  let _ ← SearchM.requireFinite c
  if p.refresh = .afterMove then modifyParticles (·.modify i Particle.refresh)

/-- Moves the particle at place `i`, drawn to the given point or else to the best one so far. -/
def advance (t : Task α n) (p : Params α) (best : Option (Point α n)) (i : Nat) :
    SearchM σ α n (State α n) Unit := do
  SearchM.requireBudget t
  let swarm := (← SearchM.own).particles
  match swarm[i]? with
  | none => throw (.fault .noSuchMember)
  | some q =>
    match best with
    | some target => moveParticle t p swarm i q target
    | none => do moveParticle t p swarm i q (← bestPoint q.point)

def advanceAll (t : Task α n) (p : Params α) (best : Option (Point α n)) :
    List Nat → SearchM σ α n (State α n) Unit
  | [] => pure ()
  | i :: rest => do
    advance t p best i
    advanceAll t p best rest

def sweep (t : Task α n) (p : Params α) : SearchM σ α n (State α n) Unit := do
  let places := List.range (← SearchM.own).particles.length
  match p.refresh with
  | .afterSweep => do
    let best := (← SearchM.ledger).best.map (·.point)
    advanceAll t p best places
    modifyParticles (·.map Particle.refresh)
  | .afterMove => advanceAll t p none places
  SearchM.endRound

/-! ## 3. The whole search -/

def launchVelocities (t : Task α n) (p : Params α) (count : Nat) :
    ChoiceM σ α (List (Point α n)) := do
  let zs ← .draw (Draw.times count (Draw.normals n))
  let launch ← .use p.launch
  pure (zs.map fun z => Vector.ofFn fun i => z.get i * t.region.width i * launch)

def Particle.starting (x : Point α n) (c : Cost α) (v : Point α n) : Particle α n := ⟨x, c, v, x, c⟩

def launch (t : Task α n) (p : Params α) : SearchM σ α n (State α n) Unit := do
  -- Chooses and evaluates the first positions and sets the particles going.
  let points ← SearchM.drawOr (Population.points t p.size p.sampling p.spread)
  SearchM.setOwn { chosen := points }
  Population.evaluateAll t (fun s own => { own with costs := own.costs ++ [s.cost] }) points
  let costs := (← SearchM.own).costs
  let velocities ← SearchM.drawOr (launchVelocities t p points.length)
  modifyParticles fun _ =>
    List.zipWith (fun (x, c) v => .starting x c v) (points.zip costs) velocities
  SearchM.report (.swarmReady p.size)

def run (t : Task α n) (p : Params α) : SearchM σ α n (State α n) Unit := do
  launch t p
  SearchM.roundsWithin t (sweep t p) t.budget

end BoxSearch.Swarm
