import BoxSearch.Capacity
import BoxSearch.Request
import BoxSearch.Draw.WordStream

/-!
# Repeat — one search with several seeds

A search is run afresh for every seed, one after the other, and the best costs are summarized. The
runs share nothing but the objective, which counts its calls through all of them. The statistics are
taken over the runs that found a finite cost.
-/

namespace BoxSearch.Repeat

variable {σ α P : Type} [Scalar α] {n : Nat}

/-! ## 1. Summaries -/

def firstBest (bests : List (Option (Best α P))) : Option (Best α P) :=
  bests.foldl (fun best b =>
    match best, b with
    | some v, some w => if w.cost < v.cost then some w else some v
    | none, b => b
    | best, none => best) none

/-- Adds blocks of eight to eight running sums. -/
def sumLanes (a b c d e f g h : α) : List α → α
  | a' :: b' :: c' :: d' :: e' :: f' :: g' :: h' :: rest =>
    sumLanes (a + a') (b + b') (c + c') (d + d') (e + e') (f + f') (g + g') (h + h') rest
  -- The running sums are added pair by pair, and what is left over one by one.
  | rest => rest.foldl (· + ·) (((a + b) + (c + d)) + ((e + f) + (g + h)))

def sumBlock : List α → α
  | a :: b :: c :: d :: e :: f :: g :: h :: rest => sumLanes a b c d e f g h rest
  | xs => Scalar.sum xs

/-- The sum of some scalars. It is taken in parts, so that a scalar goes through few roundings. -/
def pairwiseSum (xs : List α) : α :=
  if xs.length ≤ 128 then sumBlock xs
  else
    -- The first part is made of whole blocks.
    let half := xs.length / 2 / 8 * 8
    pairwiseSum (xs.take half) + pairwiseSum (xs.drop half)
termination_by xs.length
decreasing_by
  · rw [List.length_take]
    omega
  · rw [List.length_drop]
    omega

def mean : List α → Option α
  | [] => none
  | xs => some (pairwiseSum xs / Scalar.ofNat xs.length)

def sorted (xs : List α) : List α := xs.mergeSort fun a b => !decide (b < a)

def median (xs : List α) : Option α :=
  let ys := sorted xs
  let half := ys.length / 2
  -- Of an even number of runs the two in the middle are averaged.
  if ys.length % 2 = 1 then ys[half]?
  else do
    let a ← ys[half - 1]?
    let b ← ys[half]?
    some ((a + b) / 2.0)

def deviation (xs : List α) : Option α := do
  let m ← mean xs
  let v ← mean (xs.map fun x => (x - m) * (x - m))
  some (Scalar.sqrt v)

/-- What several runs found. -/
structure Summary (α P : Type) where
  -- The best cost of every run.
  costs : List (Option α)
  best : Option (Best α P)
  mean : Option α
  median : Option α
  deviation : Option α

def Summary.ofBests (bests : List (Option (Best α P))) : Summary α P :=
  let costs := bests.map fun b => b.map (·.cost)
  let found := costs.filterMap id
  ⟨costs, firstBest bests, Repeat.mean found, Repeat.median found, Repeat.deviation found⟩

/-! ## 2. Runs -/

/-- What one run came to. -/
structure Outcome (α : Type) (n : Nat) where
  seed : Nat
  ledger : Ledger α n
  -- What broke the run off, if anything did.
  fault : Option (Fault α)

def laterTask (t : Task α n) (calls : Nat) : Task α n :=
  { t with objective := fun x k => t.objective x (calls + k) }

variable [DrawSource σ α]

def solveOne (t : Task α n) (engine : Engine α n) (source : Nat → σ) (seed : Nat) : Outcome α n :=
  match (⟨{}, source seed, engine⟩ : Run σ α n).solve t with
  | (.ok (), r) => ⟨seed, r.ledger, none⟩
  | (.error f, r) => ⟨seed, r.ledger, some f⟩

/-- Runs a fresh search for every seed, up to the first that is broken off. -/
def solveEach (t : Task α n) (engine : Engine α n) (source : Nat → σ) :
    (calls : Nat) → List Nat → List (Outcome α n)
  | _, [] => []
  | calls, seed :: rest =>
    let o := solveOne (laterTask t calls) engine source seed
    match o.fault with
    | none => o :: solveEach t engine source (calls + o.ledger.calls) rest
    | some _ => [o]

/-! ## 3. Requests -/

/-- A search to be run with several seeds. -/
structure Request where
  -- The name by which the method is asked for.
  name : Setting
  problem : ProblemForm
  budget : Setting
  settings : Settings
  seeds : Setting

/-- What a repeated search answers. -/
structure Answer where
  seeds : List Nat
  n : Nat
  summary : Summary Float (Point Float n)
  calls : Nat

def logger : String := "metaheur.experiments.repeat"

/-- A statistic as a double, the undefined one if there is none. -/
def statistic (x : Option Float) : Float := x.getD (0.0 / 0.0)

/-- The records of one run: what it reports, and how it ended. -/
def Outcome.records (name : String) (m : Method) (o : Outcome Float n) : List LogRecord :=
  let events := o.ledger.events.map (LogRecord.ofEvent m (toString o.seed))
  match o.fault with
  | some _ => events
  | none =>
    events ++ [.debug logger (name ++ " seed " ++ toString o.seed ++ ": best cost " ++
      bestText o.ledger.bestCost ++ " (" ++ o.ledger.phase.status.name ++ ")")]

def Summary.record (name : String) (s : Summary Float P) : LogRecord :=
  .info logger (name ++ " over " ++ toString s.costs.length ++ " seeds: best " ++
    bestText (s.best.map (·.cost)) ++ ", mean " ++ Decimal.general 6 (statistic s.mean) ++
    ", median " ++ Decimal.general 6 (statistic s.median))

namespace Request

def readSeeds (r : Request) : Reporting (List Int) := do
  let items ← .quiet .setting r.seeds.items?
  let seeds ← items.mapM fun s => .quiet .setting s.toInteger
  if seeds.isEmpty then throw .noSeeds else pure seeds

def single (r : Request) : BoxSearch.Request :=
  ⟨.byName r.name, .form r.problem, r.budget, .settings r.settings⟩

def requireAll (m : Method) (outcomes : List (Outcome Float n)) : Reporting Unit :=
  match outcomes.findSome? (·.fault) with
  | some f => throw (.fault (some m) f)
  | none => pure ()

/-- Runs a plan for every seed. -/
def runPlan (r : Request) (p : Plan n) (ignored : List LogRecord) (seeds : List Int) :
    Reporting Answer := do
  -- A seed below zero breaks the repetition off when its turn comes.
  let usable := (seeds.takeWhile fun k => decide (0 ≤ k)).map Int.toNat
  if usable.isEmpty then throw .negativeSeed
  let engine ← p.engine
  .quiet (.fault p.method) (Capacity.engine engine)
  let outcomes := solveEach (p.task [] false) engine WordStream.ofSeed 0 usable
  -- What the settings leave is noted before every run; for the first run it is noted already.
  .note (ignored.intercalate (outcomes.map (Outcome.records r.name.shown p.method)))
  requireAll p.method outcomes
  if usable.length = seeds.length then
    let summary := Summary.ofBests (outcomes.map (·.ledger.best))
    .note [summary.record r.name.shown]
    return ⟨usable, n, summary, outcomes.foldl (fun k o => k + o.ledger.calls) 0⟩
  else
    .note ignored
    throw .negativeSeed

/-- Carries out a repeated search. -/
def solve (r : Request) : Reporting Answer := do
  -- The problem is looked at before the seeds.
  let _ ← r.problem.read
  let seeds ← r.readSeeds
  let before ← get
  let ⟨_, p⟩ ← r.single.plan
  r.runPlan p ((← get).drop before.length) seeds

end Request

end BoxSearch.Repeat
