import BoxSearch.Objective

/-!
# Ledger — the account of a search

The ledger counts evaluations and rounds, keeps the best point with its cost, the running best
after every evaluation, every call of the objective, the phase of the search and the events worth
reporting. The best changes only on a finite cost that is strictly smaller, so it is the first
point that attained the least finite cost.

An account is kept over any type of points: a search keeps its ledger over the points of its
region, and rows of other lengths can be entered into an account over rows.
-/

namespace BoxSearch

/-- Where a search stands. A search that is over says why. -/
inductive Phase (α : Type) where
  | notStarted
  | running
  -- The evaluations are used up.
  | budgetSpent
  -- The cap on generations is reached.
  | generationsDone (cap : Nat)
  -- The cap on iterations is reached.
  | iterationsDone (cap : Nat)
  -- The objective answered with a cost that is not finite.
  | nonFinite (cost : Cost α) (evaluation : Nat)
  -- A reflected vertex ties a vertex of the simplex.
  | degenerate (cost : α) (evaluation : Nat)
  -- The known optimum is approached closely enough.
  | targetReached (percentError : α)
  deriving Repr

namespace Phase

def isOver {α : Type} : Phase α → Bool
  | notStarted => false
  | running => false
  | _ => true

end Phase

/-- Something a search reports while it runs. -/
inductive Event (α : Type) where
  | started (dimension budget : Nat)
  | finished (phase : Phase α) (evaluations : Nat) (best : Option α)
  | keptBest (phase : Phase α) (best : Option α)
  | populationReady (size supplied : Nat)
  | swarmReady (size : Nat)
  | learningRates (own shared : α)
  | tied (phase : Phase α)
  | rotated (evaluation : Nat)
  | divided (iteration cells : Nat) (least : Option α)
  | nonePromising (index : Nat)
  deriving Repr

/-- A point with the cost that the objective answered for it. -/
structure Sample (α : Type) (n : Nat) where
  point : Point α n
  cost : Cost α

/-- The best point of a search with its finite cost. -/
structure Best (α P : Type) where
  point : P
  cost : α

/-- The account of a search over points of type `P`. -/
structure Account (α P : Type) where
  -- Calls of the objective, failed ones included.
  calls : Nat := 0
  -- Calls that were answered.
  evaluations : Nat := 0
  -- Completed rounds of the search.
  rounds : Nat := 0
  best : Option (Best α P) := none
  -- The number of every evaluation with the least finite cost up to it.
  history : List (Nat × Option α) := []
  -- Every call: the point, and the cost unless the call failed.
  trace : List (P × Option (Cost α)) := []
  phase : Phase α := .notStarted
  events : List (Event α) := []

/-- The account of a search in `n` variables. -/
abbrev Ledger (α : Type) (n : Nat) := Account α (Point α n)

namespace Account

variable {α P : Type} [Scalar α]

def bestCost (L : Account α P) : Option α := L.best.map (·.cost)

def improve (best : Option (Best α P)) (x : P) (c : Cost α) : Option (Best α P) :=
  match c, best with
  | .finite v, none => some ⟨x, v⟩
  | .finite v, some b => if v < b.cost then some ⟨x, v⟩ else some b
  | _, best => best

def enterFailure (L : Account α P) (x : P) : Account α P :=
  { L with calls := L.calls + 1, trace := L.trace ++ [(x, none)] }

def enter (L : Account α P) (x : P) (c : Cost α) : Account α P :=
  let best := improve L.best x c
  { L with
    calls := L.calls + 1
    evaluations := L.evaluations + 1
    best
    history := L.history ++ [(L.evaluations + 1, best.map (·.cost))]
    trace := L.trace ++ [(x, some c)] }

def report (L : Account α P) (e : Event α) : Account α P := { L with events := L.events ++ [e] }

def left (L : Account α P) (budget : Nat) : Nat := budget - L.evaluations

def start (L : Account α P) (dimension budget : Nat) : Account α P :=
  { L with phase := .running }.report (.started dimension budget)

/-- Enters the first step of a search that is driven by hand. -/
def markRunning (L : Account α P) : Account α P :=
  match L.phase with
  | .notStarted => { L with phase := .running }
  | _ => L

omit [Scalar α] in
@[simp] theorem calls_markRunning (L : Account α P) : L.markRunning.calls = L.calls := by
  unfold markRunning
  cases L.phase <;> rfl

/-- Enters the end of a run. -/
def close (L : Account α P) : Account α P :=
  -- A search that nothing else ended has spent its budget.
  let L := match L.phase with
    | .running => { L with phase := .budgetSpent }
    | _ => L
  L.report (.finished L.phase L.evaluations L.bestCost)

omit [Scalar α] in
@[simp] theorem trace_close (L : Account α P) : L.close.trace = L.trace := by
  unfold close
  cases L.phase <;> rfl

omit [Scalar α] in
@[simp] theorem best_close (L : Account α P) : L.close.best = L.best := by
  unfold close
  cases L.phase <;> rfl

def stopNonFinite (L : Account α P) (c : Cost α) : Account α P :=
  let phase := Phase.nonFinite c L.evaluations
  { L with phase }.report (.keptBest phase L.bestCost)

end Account

end BoxSearch
