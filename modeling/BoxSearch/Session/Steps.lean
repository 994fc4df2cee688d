import BoxSearch.Engine.Steps
import BoxSearch.Feasibility
import BoxSearch.Region.OnGrid
import BoxSearch.Session

/-!
# Steps of a session

A step changes the session or leaves it as it is, and a step that is refused does not end it. The
arguments of a step are loosely typed; they are read before anything is done. This module has the
steps that every method offers and that do not carry the search on.
-/

namespace BoxSearch

/-- A step of a session. -/
abbrev SessionM (n : Nat) := ExceptT Refusal (StateM (Session n))

namespace SessionM

variable {n : Nat} {β : Type}

/-! ## 1. Readings -/

def read {ε : Type} (wrap : ε → Refusal) (e : Except ε β) : SessionM n β :=
  match e with
  | .ok b => pure b
  | .error f => throw (wrap f)

def use (b : Usable Float β) : SessionM n β := do
  let s ← get
  read (.fault s.method) b

def grid (s : Setting) : SessionM n (Grid Float) := read .grid (Grid.numbers s)

def costs (s : Setting) : SessionM n (Grid (Cost Float)) := do
  return (← grid s).map Cost.ofScalar

def integer (s : Setting) : SessionM n Int := read .setting s.toInteger

def integers (s : Setting) : SessionM n (List Int) := do (← read .setting s.items?).mapM integer

def real (s : Setting) : SessionM n Float := read .setting s.toReal

/-! ## 2. Ways of going on -/

def modifyAccount (f : Account Float (List Float) → Account Float (List Float)) : SessionM n Unit :=
  modify fun s => { s with account := f s.account }

def enter (answer : Except (Fault Float) β × Run WordStream Float n) : SessionM n β := do
  modify (·.goOn answer.2)
  use answer.1

def step (f : Run WordStream Float n → Step WordStream Float n β) : SessionM n β := do
  match f (← get).run with
  | some answer => enter answer
  | none => throw .notOffered

def choose (m : ChoiceM WordStream Float β) : SessionM n β := do
  let b ← modifyGet fun s => let (b, draws) := m.run s.draws; (b, { s with draws })
  use b

/-- What the search must have for a step. -/
def require {κ : Type} (offered : Bool) (kept : Option κ) : SessionM n κ :=
  match kept with
  | some k => pure k
  -- The wrong method has no such step, and the right one has nothing yet to work on.
  | none => if offered then use (.error .absent) else throw .notOffered

/-! ## 3. Steps of every method -/

def call (xs : List Float) : SessionM n (Cost Float) := do
  let s ← get
  match s.plan.problem.answer xs (s.account.calls + 1) with
  | .error failure =>
    set { s with account := s.account.enterFailure xs }
    use (.error (.failed failure))
  | .ok c =>
    set { s with account := s.account.enter xs c }
    pure c

def evaluateGrid (g : Grid Float) : SessionM n (Cost Float) := do
  -- Evaluates a grid of numbers, which has to be a row.
  let s ← get
  if s.isChecked then
    read id (Feasibility.assertWithin g (.row s.region.lower.toList) (.row s.region.upper.toList))
    read id (Feasibility.assertIntegral g (.row s.region.integral.toList))
  if g.shape.length = 1 then call g.values else use (.error .notNumber)

def evaluate (given : Setting) : SessionM n (Cost Float) := do evaluateGrid (← grid given)

/-- Whether a value is a number that is not finite. -/
def isNonFinite : Setting → Usable Float Bool
  | .real x => .ok !x.isFinite
  | .flag _ => .ok false
  | .whole k =>
    -- Integers have to fit into a word of 64 bits.
    if -9223372036854775808 ≤ k ∧ k < 18446744073709551616 then .ok false
    else .error .notNumber
  | _ => .error .notNumber

/-- Whether a value, or the only value of nested lists, is a number that is not finite. -/
def holdsNonFinite (s : Setting) : SessionM n Bool := do
  let g ← read .grid (Grid.ofSetting s)
  match ← use (g.values.mapM isNonFinite) with
  | [b] => pure b
  | _ => use (.error .misshapen)

/-- Ends the search if a cost is not finite. The answer says whether it did. -/
def stopNonFinite (given : Setting) : SessionM n Bool := do
  if ← holdsNonFinite given then
    modifyAccount (·.stopNonFinite (Cost.ofScalar given.toFloat))
    pure true
  else pure false

/-- Sets the default for searches that do not say whether points are checked. The answer is the
default before. -/
def setCheckDefault (on : Bool) : SessionM n Bool :=
  modifyGet fun s => (s.checkDefault, { s with checkDefault := on })

def mapped (f : Region Float n → Grid Float → Usable Float (Grid Float)) (given : Setting) :
    SessionM n (Grid Float) := do
  let g ← grid given
  let s ← get
  use (f s.region g)

def uniformPoint : SessionM n (Point Float n) := do
  let s ← get
  choose (.draw (Draw.uniformPoint s.region))

/-- A scale: one number, which is looked at when it is used, or a grid of numbers. -/
def scale : Setting → SessionM n (Usable Float (Grid Float))
  | .list items => do return .ok (← grid (.list items))
  | s => pure ((Config.quantity s).map Grid.single)

def normalPoint (center scaling : Setting) : SessionM n (Grid Float) := do
  let centers ← grid center
  let c ← scale scaling
  let s ← get
  choose (s.region.normalGrid centers c)

end SessionM

end BoxSearch
