import BoxSearch.Draw.WordStream
import BoxSearch.Seed
import BoxSearch.Session.Placed

/-!
# Session — a search that is held open

A session is a plan with a seed and start points, and with the search as far as it has gone. Rows of
any length can be evaluated by hand, so that the account of a session is kept over rows. The search
goes on from a ledger over the points of its region and what it enters there is carried over to the
account.
-/

namespace BoxSearch

/-- A search that is held open. -/
structure Session (n : Nat) where
  plan : Plan n
  -- The seed as it was given.
  seed : Setting
  -- The start points, if any were given.
  starts : Option (List (Point Float n))
  -- Whether points are checked; without an answer the default decides.
  checks : Option Bool
  -- The default for searches that do not say whether points are checked.
  checkDefault : Bool := false
  account : Account Float (List Float) := {}
  draws : WordStream
  engine : Engine Float n
  -- What stands in for what the engine keeps.
  placed : Option (Placed Float) := none

/-! ## 1. Opening -/

namespace Session

/-- The rows of a grid of start points for `n` variables. -/
def startRows (n : Nat) (g : Grid Float) : Reporting (List (Point Float n)) :=
  let shape := match g.shape with
    -- A single row may stand alone.
    | [k] => [1, k]
    | s => s
  match ({ g with shape } : Grid Float).points? n with
  | some rows =>
    if g.values.all Float.isFinite then pure rows else throw .unboundedStart
  | none => throw (.startShape n g.shape)

/-- Start points, brought into the region. -/
def readStarts {n : Nat} (r : Region Float n) : Setting → Reporting (Option (List (Point Float n)))
  | .null => pure none
  | s => do
    let g ← .quiet .grid (Grid.numbers s)
    -- An empty grid gives no start points, as if there was none.
    if g.values.isEmpty then pure none
    else return some ((← startRows n g).map r.repair)

def readChecks : Setting → Option Bool
  | .null => none
  | s => some s.isTruthy

end Session

def Plan.session {n : Nat} (p : Plan n) (seed starts checks : Setting) : Reporting (Session n) := do
  let k ← Seed.read seed
  let starts ← Session.readStarts p.problem.region starts
  let engine ← p.engine
  pure { plan := p, seed, starts, checks := Session.readChecks checks,
         draws := WordStream.ofSeed k, engine }

def Request.session (r : Request) (seed starts checks : Setting) :
    Reporting ((n : Nat) × Session n) := do
  let ⟨n, p⟩ ← r.plan
  return ⟨n, ← p.session seed starts checks⟩

/-! ## 2. The account -/

namespace Account

/-- The ledger in which a search goes on. -/
def resumed (n : Nat) (A : Account Float (List Float)) : Ledger Float n where
  -- Calls that were carried out are not listed again.
  calls := A.calls
  evaluations := A.evaluations
  rounds := A.rounds
  -- A best row that stands for no point of the region is kept as the origin with its cost.
  best := A.best.map fun b => ⟨(Point.stretch? n b.point).getD (Point.fill n 0.0), b.cost⟩
  history := A.history
  phase := A.phase
  events := A.events

/-- The best of an account after a search went on: its own unless the search found a better one. -/
def bestAfter {n : Nat} (A : Account Float (List Float)) (L : Ledger Float n) :
    Option (Best Float (List Float)) :=
  match A.best, L.best with
  | some a, some b => if b.cost < a.cost then some ⟨b.point.toList, b.cost⟩ else some a
  | none, some b => some ⟨b.point.toList, b.cost⟩
  | a, none => a

def continued {n : Nat} (A : Account Float (List Float)) (L : Ledger Float n) :
    Account Float (List Float) where
  -- The account after a search went on in a ledger.
  calls := L.calls
  evaluations := L.evaluations
  rounds := L.rounds
  best := A.bestAfter L
  history := L.history
  trace := A.trace ++ L.trace.map fun (x, c) => (x.toList, c)
  phase := L.phase
  events := L.events

end Account

namespace Session

variable {n : Nat} {β : Type}

def run (s : Session n) : Run WordStream Float n := ⟨s.account.resumed n, s.draws, s.engine⟩

def goOn (s : Session n) (r : Run WordStream Float n) : Session n :=
  { s with account := s.account.continued r.ledger, draws := r.draws, engine := r.engine }

/-! ## 3. What a session shows -/

def method (s : Session n) : Method := s.plan.method

def region (s : Session n) : Region Float n := s.plan.problem.region

def isChecked (s : Session n) : Bool := s.checks.getD s.checkDefault

def task (s : Session n) : Task Float n := s.plan.task (s.starts.getD []) s.isChecked

def message (s : Session n) : String := s.account.phase.message s.plan.config.tolerance

def hasEvaluated (s : Session n) (size : Nat) : Bool :=
  decide (size ≤ s.account.evaluations) &&
    !(s.account.phase.status == .nonFinite && s.account.evaluations == size)

def swarm? (s : Session n) : Option (Swarm.Table Float) := s.engine.swarmTable? s.placed

/-- The population of an evolution in its present state, if there is one. -/
def population? (s : Session n) : Option (Evolution.Table Float) :=
  s.engine.populationTable? s.placed

/-- The vertices of a simplex with their costs, if there are any. -/
def simplex? (s : Session n) : Option (Grid Float × List (Cost Float)) := s.engine.simplex? s.placed

/-- Whether cells that do not fit the cube stand in for those of the search. -/
def hasStrays (s : Session n) : Bool :=
  match s.placed with
  | some (.cells _) => true
  | _ => false

/-- Whether the best row so far is no point of the region. -/
def hasStrayBest (s : Session n) : Bool :=
  s.account.best.any fun b => (Point.stretch? n b.point).isNone

def cells (s : Session n) : List (Partition.Stray Float) := s.engine.cells s.placed

def records (s : Session n) : List LogRecord :=
  s.account.events.map (LogRecord.ofEvent s.method s.seed.shown)

def preload (s : Session n) (uniforms normals : List Float) : Session n :=
  { s with draws := s.draws.preload uniforms normals }

end Session

end BoxSearch
