import BoxSearch.Capacity
import BoxSearch.Feasibility
import BoxSearch.Genetic.Ranks
import BoxSearch.Partition.Stray
import BoxSearch.Request

/-!
# Query — what can be asked without a search

The parts that the searches are made of, each asked with loosely typed values: checks of rows and of
settings, bit codes, ranks, neighbourhoods, orthonormal rows.
-/

namespace BoxSearch.Query

/-- An answer, or what is wrong with the question. -/
abbrev Answer (β : Type) := Except Refusal β

def orRefuse {β ε : Type} (wrap : ε → Refusal) (e : Except ε β) : Answer β := e.mapError wrap

def orFault {β : Type} (e : Except (Fault Float) β) : Answer β := orRefuse (.fault none) e

def numbers (s : Setting) : Answer (Grid Float) := orRefuse .grid (Grid.numbers s)

def flags (s : Setting) : Answer (Grid Bool) := orRefuse .grid (Grid.flags s)

def integer (s : Setting) : Answer Int := orRefuse .setting s.toInteger

def integers (s : Setting) : Answer (List Int) := do
  (← orRefuse .setting s.items?).mapM integer

/-! ## 1. Checks -/

def isWithin (x lower upper : Setting) : Answer Bool := do
  Feasibility.isWithin (← numbers x) (← numbers lower) (← numbers upper)

def assertWithin (x lower upper : Setting) : Answer Unit := do
  Feasibility.assertWithin (← numbers x) (← numbers lower) (← numbers upper)

def isIntegral (x mask : Setting) : Answer Bool := do
  Feasibility.isIntegral (← numbers x) (← flags mask)

def assertIntegral (x mask : Setting) : Answer Unit := do
  Feasibility.assertIntegral (← numbers x) (← flags mask)

def squareRows? (g : Grid Float) : Option ((n : Nat) × List (Point Float n)) :=
  -- The rows of a grid as points, if it is square.
  match g.shape with
  | [k, n] =>
    if k = n then
      ((Grid.splitRows n k g.values).mapM (Point.ofList? n)).map fun rows => ⟨n, rows⟩
    else none
  | _ => none

def assertOrthogonal (basis tolerance : Setting) : Answer Unit := do
  -- Accepts a square grid whose rows are orthogonal up to a tolerance.
  let g ← numbers basis
  match squareRows? g with
  | some ⟨_, rows⟩ => do
    let error ← orFault (Orthonormal.skewness rows)
    let limit ← orRefuse .setting (Config.number tolerance)
    if limit.toFloat < error then throw (.skewed tolerance error)
  | none => throw (.fault none (.notSquare g.shape))

def assertPositive (setting : String) (v : Setting) : Answer Unit := do
  let _ ← orRefuse .setting (Config.positive setting v)

def assertProbability (setting : String) (v : Setting) : Answer Unit := do
  let _ ← orRefuse .setting (Config.probability setting v)

/-! ## 2. Modes and configurations -/

def modeTables : List (String × List String) :=
  [("sampling", Sampling.table.map (·.1)), ("psomode", Swarm.Rule.table.map (·.1)),
    ("pxupdatemode", Swarm.Refresh.table.map (·.1)),
    ("selmode", Evolution.Marriage.table.map (·.1))]

def modeName (table setting : String) (v : Setting) : Answer String :=
  match modeTables.lookup table with
  | some names =>
    orRefuse .setting (Config.mode (names.map fun name => (name, name)) setting v)
  | none => .error (.notListed table)

def configuration (method : Setting) (s : Settings) : Reporting MethodConfig := do
  (← Lookup.read (.exactly method)).readConfig s

/-! ## 3. Bit codes and ranks -/

def bitsFor (span : Setting) : Answer Nat := do
  -- The number of bits for the integers from zero to a span.
  let k ← match span.number? with
    | some (.real x) => orFault (BitCode.toInteger x)
    | some _ => integer span
    | none => .error (.setting .notIntegral)
  if k < 0 then throw (.fault none (.negativeSpan k)) else pure (BitCode.lengthFor k.toNat)

def wholeLength : Setting → Answer Int
  | .whole k => .ok k
  | .flag b => .ok b.toNat
  | _ => .error (.setting .notIntegral)

def longestCode : Int := 1073741824

/-- The code of an integer on a number of bits. -/
def encode (value length : Setting) : Answer (List Bool) := do
  let v ← integer value
  -- The length is looked at only for an integer that is not below zero.
  if v < 0 then throw (.uncodable v length)
  let l ← wholeLength length
  if l < 0 then throw (.fault none .misshapen)
  if 9223372036854775808 ≤ l then throw (.fault none .overflow)
  if longestCode ≤ l then throw (.fault none .outOfMemory)
  match (BitCode.encode v l.toNat : Usable Float (List Bool)) with
  | .ok bits => pure bits
  | .error _ => throw (.uncodable v length)

def decode (digits : Setting) : Answer Int := do return BitCode.merge (← integers digits)

def rankWeights (costs : Setting) : Answer (List Nat) := do
  orFault (rankWeightsOfGrid ((← numbers costs).map Cost.ofScalar))

/-! ## 4. Geometry -/

def torus (count : Setting) : Answer Torus := do
  -- The torus for a count that may have a fraction.
  let x ← orRefuse .setting (Config.number count)
  if x.toFloat < 4.0 then throw (.fault none (.tooFewForTorus count.shown))
  match x with
  | .real x =>
    match Reading.ofFloat x with
    | .finite _ m e => do
      let (num, den) := Reading.ratio m e
      let g := Torus.ofQuotient num den
      orFault (Capacity.table g.size 4)
      pure g
    | .infinite _ => throw (.fault none .infiniteInteger)
    | .undefined => throw (.fault none .undefinedInteger)
  | _ => orFault (Capacity.torus (← integer count).toNat)

def asRows (g : Grid Float) : Option (Nat × Nat) :=
  match g.shape with
  | [] => some (1, 1)
  | [n] => some (1, n)
  | [k, n] => some (k, n)
  | _ => none

def orthonormal (direction basis tolerance : Setting) : Answer (List (List Float)) := do
  -- Orthonormal rows, the first along a direction, the others from a basis.
  let d ← numbers direction
  let b ← numbers basis
  match asRows b with
  | none => throw (.fault none .misshapen)
  | some (k, n) =>
    match Point.ofList? n d.values, (Grid.splitRows n k b.values).mapM (Point.ofList? n) with
    | some x, some rows => do
      let limit ← orFault (Config.quantity tolerance)
      pure ((Orthonormal.along limit x rows).map Vector.toList)
    | _, _ => throw (.fault none .misshapen)

def wordOf : Setting → Except GridFault Int
  | .whole k =>
    if -9223372036854775808 ≤ k ∧ k < 9223372036854775808 then .ok k else .error .tooLarge
  | _ => .error .notNumber

/-- Half the diagonal of a box whose sides were cut so often, and the number of its cuts. -/
def boxSize (cuts : Setting) : Answer (Float × Int) := do
  let ks ← orRefuse .setting cuts.toIntegers
  let g ← orRefuse .grid (Grid.readWith wordOf ks)
  let box : Partition.Stray Float := ⟨g.values, .row [], 0.0⟩
  pure (box.size, box.level)

/-! ## 5. Results -/

/-- Whether a result is a success, which takes a point and a finite cost, and the status that is
named. -/
def result (x cost : Setting) (word : String) : Answer (Bool × Status) := do
  let found ← match x with
    | .null => pure false
    | x => do let _ ← numbers x; pure true
  let c ← orRefuse .setting cost.toReal
  match Status.ofName? word with
  | some s => pure (found && c.isFinite, s)
  | none => throw .unknownWord

def repeated (seeds costs : Setting) : Answer (List Setting × List Float) := do
  -- The seeds and the costs of repeated runs, a cost for each seed.
  let g ← numbers costs
  match g.shape with
  | [k] => do
    let items ← orRefuse .setting seeds.items?
    if k = items.length then
      pure (← items.mapM fun s => orRefuse .setting s.toIntegers, g.values)
    else throw (.unequalCounts items.length k)
  | shape => throw (.costShape shape)

end BoxSearch.Query
