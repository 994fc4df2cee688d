import BoxSearch.Population

/-!
# Evolution — parents and children compete, step sizes included

Every member carries its own step size for each variable. A child recombines a family of parents:
its step sizes are their mean, mutated by log-normal factors, and with these step sizes the mean of
the parents is mutated in turn. An integer variable is inherited from one parent and now and then
drawn anew between its bounds. The cheapest of parents and children survive a generation, earlier
members first among equals.
-/

namespace BoxSearch.Evolution

/-- How parents are selected. -/
inductive Marriage where
  -- Every member has the same chance.
  | random
  -- Better ranked members have better chances.
  | roulette
  deriving DecidableEq, Repr

structure Params (α : Type) where
  -- The number of survivors of a generation.
  size : Nat
  -- The number of children of a generation.
  children : Nat
  -- The number of parents of a child.
  parents : Nat
  marriage : Marriage
  sampling : Sampling
  -- The step size of the first members.
  stepSize : Quantity α
  -- Spread of the first members when they are normal.
  spread : Quantity α
  -- The constant of the learning rates.
  learning : Quantity α
  -- Chance that an integer variable is drawn anew.
  mutation : α

/-- The learning rates: of the factor of one variable, and of the factor that all share. -/
structure Rates (α : Type) where
  own : α
  shared : α

/-- A member of the population. -/
structure Member (α : Type) (n : Nat) where
  point : Point α n
  steps : Point α n
  cost : Cost α

structure State (α : Type) (n : Nat) where
  rates : Option (Rates α) := none
  -- The points that were chosen to begin with.
  chosen : List (Point α n) := []
  -- The members; to begin with, the chosen points that were evaluated.
  population : List (Member α n) := []

variable {σ α : Type} [Scalar α] [DrawSource σ α] {n : Nat}

def Rates.of (learning : α) (n : Nat) : Rates α :=
  ⟨learning / Scalar.sqrt (2.0 * Scalar.sqrt (Scalar.ofNat n)),
   learning / Scalar.sqrt (2.0 * Scalar.ofNat n)⟩

/-- The step sizes of a first member. An unusable step size shows when a child is born. -/
def Params.firstSteps (p : Params α) (n : Nat) : Point α n := Point.fill n (p.stepSize.toOption.getD 0.0)

/-! ## 1. Parents -/

/-- The weights of the places of a ranked population, adding up to one. -/
def marriageWeights (size : Nat) : List (Nat × α) :=
  let weights := (List.range size).map fun i => (Scalar.ofNat (size - i) : α)
  let total := Scalar.sum weights
  (List.range size).zip (weights.map (· / total))

def marry (p : Params α) : ChoiceM σ α (List Nat) :=
  match p.marriage with
  | .random => Draw.choose p.parents (List.range p.size)
  | .roulette => .draw (Draw.chooseWeighted p.parents (marriageWeights p.size))

def membersAt (population : List (Member α n)) (places : List Nat) : Option (List (Member α n)) :=
  places.mapM fun i => population[i]?

/-! ## 2. Children -/

/-- One of the parents for every variable. -/
def donors (parents : List (Point α n)) : ChoiceM σ α (Vector (Point α n) n) := do
  -- All are drawn before the first is looked up.
  let picks : Vector Int n ← Vector.ofFnM fun _ => Draw.below parents.length
  Vector.ofFnM fun i => .use (.ofOption .noSuchMember do
    parents[← Place.inRow parents.length (picks.get i)]?)

/-- The mean of the parents, its integer variables inherited from parents drawn one by one. -/
def recombine (r : Region α n) (parents : List (Point α n)) : ChoiceM σ α (Point α n) := do
  let mean := Point.mean parents
  if r.hasIntegers then
    let chosen ← donors parents
    pure (Vector.ofFn fun i =>
      if r.integral.get i then (chosen.get i).get i else mean.get i)
  else pure mean

/-- The factor that all step sizes of a child share. -/
def sharedFactor (rates : Rates α) (z : α) : Except (Fault α) α :=
  let power := rates.shared * z
  -- It must not exceed all numbers.
  if Scalar.isFinite power && !Scalar.isFinite (Scalar.exp power) then .error .overflow
  else .ok (Scalar.exp power)

def stepFactors (rates : Rates α) : ChoiceM σ α (α × Point α n) := do
  -- The shared factor is drawn before those of the variables.
  let z : α ← .draw DrawSource.normal
  let shared ← .use (sharedFactor rates z)
  let zs : Point α n ← .draw (Draw.normals n)
  pure (shared, Vector.ofFn fun i => Scalar.exp (rates.own * zs.get i))

def mutateSteps (rates : Rates α) (steps : Point α n) : ChoiceM σ α (Point α n) := do
  let (shared, own) ← stepFactors rates
  pure (Vector.ofFn fun i => shared * steps.get i * own.get i)

def childSteps (rates : Rates α) (steps : List (Point α n)) : ChoiceM σ α (Point α n) :=
  mutateSteps rates (Point.mean steps)

/-- An integer as a signed 64-bit word; what does not fit becomes the least word. -/
def asWord (k : Int) : Int :=
  if -9223372036854775808 ≤ k ∧ k ≤ 9223372036854775807 then k else -9223372036854775808

def lowWord (r : Region α n) (i : Fin n) : Int := asWord (Scalar.truncate (r.lower.get i))

/-- How many words there are between the bounds of a variable. There are none where the upper bound
is no word but the lower one is. -/
def wordCount (r : Region α n) (i : Fin n) : Int :=
  asWord (asWord (Scalar.truncate (r.upper.get i)) + 1) - lowWord r i

/-- An integer between the bounds of a variable. -/
def resample (r : Region α n) (i : Fin n) : ChoiceM σ α α := do
  let k ← Draw.below (wordCount r i)
  pure (Scalar.ofInt (lowWord r i + k))

/-- Each chosen variable must have words between its bounds. -/
def requireWords (r : Region α n) (chosen : Fin n → Bool) : ChoiceM σ α Unit :=
  Draw.checkRange (decide (∀ i, chosen i = true → 0 < wordCount r i)) .emptyRange

theorem requireWords_eq_pure {r : Region α n} {chosen : Fin n → Bool}
    (h : ∀ i, chosen i = true → 0 < wordCount r i) :
    (requireWords r chosen : ChoiceM σ α Unit) = pure () := by
  unfold requireWords
  rw [decide_eq_true h]
  exact Draw.checkRange_true _

def mutateReals (r : Region α n) (x steps : Point α n) : StateM σ (Point α n) :=
  Draw.normalsWhere (r.integral.map (!·)) x fun i z => x.get i + steps.get i * z

def mutateIntegers (r : Region α n) (p : Params α) (x : Point α n) : ChoiceM σ α (Point α n) := do
  -- Draws each integer variable anew with the chance of the settings.
  if r.hasIntegers then
    let u : Point α n ← .draw (Draw.uniforms n)
    let chosen := fun i => r.integral.get i && decide (u.get i < p.mutation)
    -- All ranges are looked at before the first integer is drawn.
    requireWords r chosen
    Vector.ofFnM fun i => if chosen i then resample r i else pure (x.get i)
  else pure x

def mutate (r : Region α n) (p : Params α) (x steps : Point α n) : ChoiceM σ α (Point α n) := do
  let x ← .draw (mutateReals r x steps)
  let x ← mutateIntegers r p x
  pure (r.clamp x)

def conceive (r : Region α n) (p : Params α) (rates : Rates α) (parents : List (Member α n)) :
    ChoiceM σ α (Point α n × Point α n) := do
  let steps ← childSteps rates (parents.map (·.steps))
  let x ← recombine r (parents.map (·.point))
  let x ← mutate r p x steps
  pure (steps, x)

/-! ## 3. Generations -/

def survivors (p : Params α) (parents children : List (Member α n)) : List (Member α n) :=
  (Cost.rank (·.cost) (parents ++ children)).take p.size

def bear (t : Task α n) (p : Params α) (rates : Rates α) (population : List (Member α n)) :
    SearchM σ α n (State α n) (Member α n) := do
  match membersAt population (← SearchM.drawOr (marry p)) with
  | none => throw (.fault .noSuchMember)
  | some parents => do
    let _ ← SearchM.use p.stepSize
    let (steps, x) ← SearchM.drawOr (conceive t.region p rates parents)
    let v ← SearchM.trial t x
    pure ⟨x, steps, .finite v⟩

def bearAll (t : Task α n) (p : Params α) (rates : Rates α) (population : List (Member α n)) :
    Nat → SearchM σ α n (State α n) (List (Member α n))
  | 0 => pure []
  | k + 1 => do
    if ← SearchM.withinBudget t then
      let child ← bear t p rates population
      let others ← bearAll t p rates population k
      pure (child :: others)
    else pure []

def generation (t : Task α n) (p : Params α) (rates : Rates α) :
    SearchM σ α n (State α n) Unit := do
  let population := (← SearchM.own).population
  let children ← bearAll t p rates population p.children
  SearchM.modifyOwn fun s => { s with population := survivors p population children }
  SearchM.endRound

/-! ## 4. The whole search -/

def keepFirst (p : Params α) (s : Sample α n) (own : State α n) : State α n :=
  { own with population := own.population ++ [⟨s.point, p.firstSteps n, s.cost⟩] }

def found (t : Task α n) (p : Params α) : SearchM σ α n (State α n) Unit := do
  let points ← SearchM.drawOr (Population.points t p.size p.sampling p.spread)
  SearchM.modifyOwn fun own => { own with chosen := points, population := [] }
  Population.evaluateAll t (keepFirst p) points
  SearchM.modifyOwn fun own => { own with population := Cost.rank (·.cost) own.population }

def run (t : Task α n) (p : Params α) : SearchM σ α n (State α n) Unit := do
  let rates := Rates.of (← SearchM.use p.learning) n
  SearchM.modifyOwn fun s => { s with rates := some rates }
  SearchM.report (.learningRates rates.own rates.shared)
  found t p
  SearchM.roundsWithin t (generation t p rates) t.budget

end BoxSearch.Evolution
