import BoxSearch.Draw
import BoxSearch.Ledger

/-!
# Search — the steps that every method is made of

A search runs on a course: the ledger, the source of draws, and what the method itself keeps. A step
may halt, because the search is over or because of a fault; the course then stands as the halted
step left it. `trial` is the step around which all methods are built: evaluate a point, and halt on
a cost that is not finite.
-/

namespace BoxSearch

/-- A step does not go on: the search is over, or there is a fault. -/
inductive Halt (α : Type) where
  | ended
  | fault (f : Fault α)
  deriving Repr

/-- The state of a search: its account, its draws, and what its method keeps. -/
structure Course (σ α : Type) (n : Nat) (κ : Type) where
  ledger : Ledger α n
  draws : σ
  own : κ

/-- A computation on a course that may halt. -/
abbrev SearchM (σ α : Type) (n : Nat) (κ : Type) := ExceptT (Halt α) (StateM (Course σ α n κ))

/-- What a search is to do. -/
structure Task (α : Type) [Scalar α] (n : Nat) where
  region : Region α n
  objective : Objective α n
  -- The number of evaluations after which no round starts.
  budget : Nat
  -- Start points, in the region.
  starts : List (Point α n)
  -- Whether points are checked before they are evaluated.
  checked : Bool

namespace Region

variable {α : Type} [Scalar α] {n : Nat}

def outsideAt (r : Region α n) (x : Point α n) : List (Nat × α × α × α) :=
  (List.finRange n).filterMap fun i =>
    if r.lower.get i ≤ x.get i ∧ x.get i ≤ r.upper.get i then none
    else some (i.val, x.get i, r.lower.get i, r.upper.get i)

def fractionalAt (r : Region α n) (x : Point α n) : List (Nat × α) :=
  -- The integer variables of a point that have a fraction.
  (List.finRange n).filterMap fun i =>
    if r.integral.get i && !Scalar.same (x.get i) (Scalar.nearest (x.get i)) then
      some (i.val, x.get i)
    else none

/-- Accepts the points of the region, and says what is wrong with any other point. -/
def check (r : Region α n) (x : Point α n) : Except (Fault α) Unit :=
  match r.outsideAt x with
  | [] =>
    match r.fractionalAt x with
    | [] => .ok ()
    | bad => .error (.fractional bad)
  | bad => .error (.outside bad)

end Region

namespace SearchM

variable {σ α κ β : Type} [Scalar α] {n : Nat}

/-! ## 1. Access to the course -/

def own : SearchM σ α n κ κ := do return (← get).own

def setOwn (k : κ) : SearchM σ α n κ Unit := modify fun c => { c with own := k }

def modifyOwn (f : κ → κ) : SearchM σ α n κ Unit := modify fun c => { c with own := f c.own }

def ledger : SearchM σ α n κ (Ledger α n) := do return (← get).ledger

def modifyLedger (f : Ledger α n → Ledger α n) : SearchM σ α n κ Unit :=
  modify fun c => { c with ledger := f c.ledger }

def report (e : Event α) : SearchM σ α n κ Unit := modifyLedger (·.report e)

def reportIf (b : Bool) (e : Event α) : SearchM σ α n κ Unit := if b then report e else pure ()

def endRound : SearchM σ α n κ Unit := modifyLedger fun L => { L with rounds := L.rounds + 1 }

def withinBudget (t : Task α n) : SearchM σ α n κ Bool := do
  return (← ledger).evaluations < t.budget

def requireBudget (t : Task α n) : SearchM σ α n κ Unit := do
  unless ← withinBudget t do throw .ended

def require (b : Bool) (f : Fault α) : SearchM σ α n κ Unit :=
  if b then pure () else throw (.fault f)

/-- Marks the search as running, unless it is already or is over. -/
def markRunning : SearchM σ α n κ Unit := modifyLedger (·.markRunning)

def stop (phase : Phase α) : SearchM σ α n κ Unit := modifyLedger fun L => { L with phase }

/-- Ends the search for the given reason. -/
def stopWithin (t : Task α n) (phase : Phase α) : SearchM σ α n κ Unit := do
  -- A search without evaluations left ends because of its budget.
  if ← withinBudget t then stop phase

/-! ## 2. Draws -/

def draw (m : StateM σ β) : SearchM σ α n κ β :=
  modifyGet fun c => let (b, draws) := m c.draws; (b, { c with draws })

def use (b : Usable α β) : SearchM σ α n κ β :=
  match b with
  | .ok b => pure b
  | .error f => throw (.fault f)

def drawOr (m : ChoiceM σ α β) : SearchM σ α n κ β := do use (← draw m.run)

/-! ## 3. Evaluation -/

/-- Calls the objective once and enters the answer. -/
def evaluate (t : Task α n) (x : Point α n) : SearchM σ α n κ (Cost α) := do
  if t.checked then
    -- A point that is refused leaves the account as it is, and the objective is not asked.
    match t.region.check x with
    | .ok () => pure ()
    | .error f => throw (.fault f)
  match t.objective x ((← ledger).calls + 1) with
  | .error failure =>
    -- A call that failed is listed, but it is no evaluation.
    modifyLedger (·.enterFailure x)
    throw (.fault (.failed failure))
  | .ok c =>
    modifyLedger (·.enter x c)
    pure c

def requireFinite (c : Cost α) : SearchM σ α n κ α :=
  match c with
  -- Any cost but a finite one ends the search.
  | .finite v => pure v
  | c => do
    modifyLedger (·.stopNonFinite c)
    throw .ended

def trial (t : Task α n) (x : Point α n) : SearchM σ α n κ α := do
  requireFinite (← evaluate t x)

def repeatWhile (step : SearchM σ α n κ Bool) : Nat → SearchM σ α n κ Unit
  | 0 => pure ()
  | fuel + 1 => do if ← step then repeatWhile step fuel

/-- Carries out rounds while the budget lasts, at most `fuel` of them. -/
def roundsWithin (t : Task α n) (round : SearchM σ α n κ Unit) : Nat → SearchM σ α n κ Unit
  | 0 => pure ()
  | fuel + 1 => do
    if ← withinBudget t then
      round
      roundsWithin t round fuel

end SearchM

namespace Course

variable {σ α κ β : Type} [Scalar α] {n : Nat}

/-- Carries out a step. -/
def carry (m : SearchM σ α n κ β) (c : Course σ α n κ) :
    Except (Fault α) (Option β) × Course σ α n κ :=
  match m.run c with
  | (.ok b, c) => (.ok (some b), c)
  -- A step that found the search to be over answers nothing, and that is no fault.
  | (.error .ended, c) => (.ok none, c)
  | (.error (.fault f), c) => (.error f, c)

def close (c : Course σ α n κ) : Course σ α n κ := { c with ledger := c.ledger.close }

/-- Runs a search from its first step to its end. -/
def solve (t : Task α n) (body : SearchM σ α n κ Unit) (c : Course σ α n κ) :
    Except (Fault α) Unit × Course σ α n κ :=
  match c.ledger.phase with
  | .notStarted =>
    match carry body { c with ledger := c.ledger.start n t.budget } with
    | (.ok _, c) => (.ok (), c.close)
    | (.error f, c) => (.error f, c)
  -- A course is run only once.
  | _ => (.error .alreadySolved, c)

end Course

end BoxSearch
