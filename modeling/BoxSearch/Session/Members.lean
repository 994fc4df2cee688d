import BoxSearch.Capacity
import BoxSearch.Genetic.OnGrid
import BoxSearch.Genetic.Ranks
import BoxSearch.Session.Steps

/-!
# Steps of the methods with a population — members bred by hand

Parents are selected and children are bred one by one, and the population of an evolution can be
replaced.
-/

namespace BoxSearch.SessionM

variable {n : Nat}

/-! ## 1. Genetic search -/

def breed (a b : Setting) : SessionM n (Grid Float × Grid Float) := do
  let x ← grid a
  let y ← grid b
  let s ← get
  match s.engine with
  | .genetic p lengths _ => choose (Genetic.breedGrids s.region p lengths x y)
  | _ => throw .notOffered

/-- The place that a spin of the wheel of some costs selects. -/
def spin (given : Setting) : SessionM n Nat := do
  let cs ← costs given
  match (← get).engine with
  | .genetic _ _ _ => do
    let weights ← use (rankWeightsOfGrid cs)
    let place ← choose (.draw (Wheel.spin (α := Float) (Wheel.ofWeights 0 weights)))
    -- A wheel without places is spun, but selects nothing.
    if weights.isEmpty then use (.error .noSuchMember) else pure place
  | _ => throw .notOffered

def mutationStep (given : Setting) : SessionM n Float := do
  let scale ← real given
  step fun r => r.mutationStep scale

/-! ## 2. Evolution -/

def evolution : SessionM n (Evolution.Params Float × Evolution.State Float n) := do
  match (← get).engine with
  | .evolution p s => pure (p, s)
  | _ => throw .notOffered

def population : SessionM n (Evolution.Table Float) := do
  let _ ← evolution
  require true (← get).population?

def rates : SessionM n (Evolution.Rates Float) := do require true (← evolution).2.rates

/-- Replaces the population and the learning rates. The answer is the number of members. -/
def placePopulation (x fx steps own shared : Setting) : SessionM n Nat := do
  let points ← grid x
  let pointCosts ← costs fx
  let stepSizes ← grid steps
  let rates : Evolution.Rates Float := ⟨← real own, ← real shared⟩
  let (p, state) ← evolution
  let size ← use (.ofOption .notNumber points.shape.head?)
  modify fun s => { s with
    engine := .evolution p { state with rates := some rates }
    placed := some (.population ⟨points, stepSizes, pointCosts⟩) }
  pure size

/-- The places of the parents of a child, drawn from a table of all places. -/
def marry : SessionM n (List Nat) := do
  let (p, _) ← evolution
  use (Capacity.table p.size 1)
  step (·.marry)

def recombine (family : Setting) : SessionM n (Grid Float) := do
  let is ← integers family
  let tb ← population
  let s ← get
  choose (tb.recombine s.region is)

def childSteps (family : Setting) : SessionM n (Grid Float) := do
  let is ← integers family
  let tb ← population
  choose (tb.childSteps n (← rates) is)

def mutateSteps (steps : Setting) : SessionM n (Grid Float) := do
  let g ← grid steps
  choose (Evolution.mutateStepGrid n (← rates) g)

def mutate (given steps : Setting) : SessionM n (Grid Float) := do
  let x ← grid given
  let w ← grid steps
  let (p, _) ← evolution
  let s ← get
  choose (Evolution.mutateGrid s.region p x w)

def compete (x steps fx : Setting) : SessionM n (Evolution.Table Float) := do
  let points ← grid x
  let stepSizes ← grid steps
  let pointCosts ← costs fx
  let (p, _) ← evolution
  let tb ← use (Evolution.Table.compete p.size (← population) ⟨points, stepSizes, pointCosts⟩)
  modify fun s => { s with placed := some (.population tb) }
  pure tb

end BoxSearch.SessionM
