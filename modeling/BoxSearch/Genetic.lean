import BoxSearch.Genetic.BitCode
import BoxSearch.Genetic.Wheel

/-!
# Genetic search — generations bred by rank

A generation keeps its best members and fills up with children of parents that are drawn by rank.
Integer variables are crossed and mutated as rows of bits, real ones mixed along the line through
the parents and mutated by a step whose length decays exponentially. A generation replaces the
population only when it is complete.
-/

namespace BoxSearch.Genetic

structure Params (α : Type) where
  -- The size of the population.
  size : Nat
  -- The cap on generations.
  generations : Nat
  -- Chance that a variable is crossed.
  crossing : α
  -- Chance that a bit is flipped or a real variable mutated.
  mutation : α
  -- Members that are kept from one generation to the next.
  elite : Nat
  -- How far a mixture may go beyond the parents.
  reach : Quantity α
  -- Longest mutation as a fraction of the width.
  mutationRange : Quantity α
  -- How many halvings the length of a mutation ranges over.
  precision : Quantity α

variable {σ α : Type} [Scalar α] [DrawSource σ α] {n : Nat}

/-! ## 1. Variables -/

def mutationStep (p : Params α) (scale : α) : ChoiceM σ α α := do
  -- A signed step of at most `scale`, its length spread exponentially.
  let u ← .draw DrawSource.uniform
  let w ← .draw DrawSource.uniform
  let precision ← .use p.precision
  pure ((2.0 * u - 1.0) * scale * Scalar.powTwo (-w * precision))

def flipBits (p : Params α) (bits : List Bool) : StateM σ (List Bool) :=
  bits.mapM fun b => do
    let u ← DrawSource.uniform
    pure (b ^^ decide (u ≤ p.mutation))

def exchange (cut : Nat) (a b : List Bool) : List Bool × List Bool :=
  (a.take cut ++ b.drop cut, b.take cut ++ a.drop cut)

/-- The coordinate that a row of bits stands for, capped at the upper bound. -/
def decodeCoordinate (r : Region α n) (i : Fin n) (bits : List Bool) : α :=
  Scalar.least (Scalar.ofNat (BitCode.value bits) + r.lower.get i) (r.upper.get i)

/-- The most bits that a variable can be coded on: as many as the magnitude of a signed 64-bit word
has below its highest bit. -/
def longestCode : Nat := 62

/-- The row of bits that stands for a coordinate. -/
def encodeCoordinate (r : Region α n) (i : Fin n) (length : Nat) (x : α) :
    Except (Fault α) (List Bool) := do
  let v ← BitCode.toInteger (x - r.lower.get i)
  -- Variables that need too many bits have none.
  if length ≤ longestCode then BitCode.encode v length else .error (.uncodable v length)

def crossBits (r : Region α n) (p : Params α) (i : Fin n) (length : Nat) (a b : Quantity α) :
    ChoiceM σ α (α × α) := do
  -- Crosses an integer variable that is coded on more than one bit.
  let cut ← Draw.below length
  let bitsA ← .use (encodeCoordinate r i length (← .use a))
  let bitsB ← .use (encodeCoordinate r i length (← .use b))
  let (codeA, codeB) := exchange (Place.ofCut length cut) bitsA bitsB
  let codeA ← .draw (flipBits p codeA)
  let codeB ← .draw (flipBits p codeB)
  pure (decodeCoordinate r i codeA, decodeCoordinate r i codeB)

/-- Crosses a real variable: two opposite mixtures of the parents. -/
def crossReal (r : Region α n) (p : Params α) (i : Fin n) (a b : Quantity α) :
    ChoiceM σ α (α × α) := do
  let reach ← .use p.reach
  let mix ← Draw.between (-reach) (1.0 + reach)
  let a ← .use a
  let b ← .use b
  let childA := a * mix + b * (1.0 - mix)
  let childB := b * mix + a * (1.0 - mix)
  let w ← .draw DrawSource.uniform
  -- Now and then both mixtures are mutated.
  if w ≤ p.mutation then
    let mutationRange ← .use p.mutationRange
    let scale := mutationRange * Scalar.abs (r.upper.get i - r.lower.get i)
    let stepA ← mutationStep p scale
    let stepB ← mutationStep p scale
    pure (childA + stepA, childB + stepB)
  else pure (childA, childB)

/-- The coordinates of two children in one variable, from those of their parents; none if the
variable is not crossed. -/
def crossVariable (r : Region α n) (p : Params α) (length : Nat) (i : Fin n) (a b : Quantity α) :
    ChoiceM σ α (Option (α × α)) := do
  let u : α ← .draw DrawSource.uniform
  if p.crossing < u then pure none
  else if r.integral.get i then
    if 1 < length then some <$> crossBits r p i length a b
    else do
      let y ← .use b
      let x ← .use a
      pure (some (y, x))
  else some <$> crossReal r p i a b

/-- Two children of two parents. -/
def breed (r : Region α n) (p : Params α) (lengths : Vector Nat n) (a b : Point α n) :
    ChoiceM σ α (Point α n × Point α n) := do
  let pairs ← Vector.ofFnM fun i => do
    let crossed ← crossVariable r p (lengths.get i) i (.ok (a.get i)) (.ok (b.get i))
    -- A variable that is not crossed is inherited as it is.
    pure (crossed.getD (a.get i, b.get i))
  pure (r.clamp (pairs.map (·.1)), r.clamp (pairs.map (·.2)))

/-- The number of bits of every integer variable, zero for a real one. -/
def codeLengths (r : Region α n) : Except (Fault α) (Vector Nat n) :=
  Vector.ofFnM fun i =>
    if r.integral.get i then BitCode.lengthForWidth (r.width i) else pure 0

/-! ## 2. Generations -/

/-- Evaluates children and adds them to the next generation until it is full. -/
def enroll (t : Task α n) (p : Params α) :
    List (Point α n) → List (Sample α n) → SearchM σ α n (List (Sample α n)) (List (Sample α n))
  | [], next => pure next
  | x :: rest, next => do
    if next.length < p.size then
      SearchM.requireBudget t
      let v ← SearchM.trial t x
      enroll t p rest (next ++ [⟨x, .finite v⟩])
    else pure next

def memberAt (population : List (Sample α n)) (i : Nat) :
    SearchM σ α n (List (Sample α n)) (Point α n) :=
  match population[i]? with
  | some s => pure s.point
  | none => throw (.fault .noSuchMember)

def fillGeneration (t : Task α n) (p : Params α) (lengths : Vector Nat n)
    (population : List (Sample α n)) (wheel : List Nat) :
    Nat → List (Sample α n) → SearchM σ α n (List (Sample α n)) (List (Sample α n))
  | 0, next => pure next
  | fuel + 1, next => do
    if next.length < p.size then
      let a ← memberAt population (← SearchM.draw (Wheel.spin (α := α) wheel))
      let b ← memberAt population (← SearchM.draw (Wheel.spin (α := α) wheel))
      let (childA, childB) ← SearchM.drawOr (breed t.region p lengths a b)
      let next ← enroll t p [childA, childB] next
      fillGeneration t p lengths population wheel fuel next
    else pure next

def generation (t : Task α n) (p : Params α) (lengths : Vector Nat n) :
    SearchM σ α n (List (Sample α n)) Unit := do
  -- Ranks the population and replaces it by the next generation.
  SearchM.modifyOwn (Cost.rank (·.cost))
  let population ← SearchM.own
  let wheel := Wheel.ofCosts (population.map (·.cost))
  let next ← fillGeneration t p lengths population wheel p.size (population.take p.elite)
  SearchM.setOwn next
  SearchM.endRound

def generations (t : Task α n) (p : Params α) (lengths : Vector Nat n) :
    SearchM σ α n (List (Sample α n)) Unit := do
  SearchM.roundsWithin t (generation t p lengths) p.generations
  SearchM.stopWithin t (.generationsDone p.generations)

/-! ## 3. The whole search -/

/-- A point for the next member: the next start point, or else a uniform one. -/
def newcomer (r : Region α n) : (given : List (Point α n)) → StateM σ (Point α n)
  | x :: _ => pure x
  | [] => Draw.uniformPoint r

/-- Evaluates `k` more members of the first population: given start points, then uniform ones. -/
def found (t : Task α n) : (k : Nat) → List (Point α n) → SearchM σ α n (List (Sample α n)) Unit
  | 0, _ => pure ()
  | k + 1, given => do
    SearchM.requireBudget t
    let x ← SearchM.draw (newcomer t.region given)
    let c ← SearchM.evaluate t x
    -- The member is kept before its cost is looked at, also if that ends the search.
    SearchM.modifyOwn (· ++ [⟨x, c⟩])
    let _ ← SearchM.requireFinite c
    found t k (given.drop 1)

def run (t : Task α n) (p : Params α) (lengths : Vector Nat n) :
    SearchM σ α n (List (Sample α n)) Unit := do
  SearchM.setOwn []
  found t p.size t.starts
  SearchM.report (.populationReady p.size (min t.starts.length p.size))
  generations t p lengths

end BoxSearch.Genetic
