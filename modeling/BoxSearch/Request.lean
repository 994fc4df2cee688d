import BoxSearch.Objective.Family
import BoxSearch.Refusal

/-!
# Request — a search as it is asked for

A request names a method and gives a problem, a budget and settings, all loosely typed. Reading it
gives a plan, or the first thing that is wrong: the problem is read first, then the method is looked
up, then come budget and settings. Settings that no field takes are noted in the log on the way.
-/

namespace BoxSearch

/-! ## 1. Readings that are reported -/

/-- A reading that leaves records in the log and may be refused. -/
abbrev Reporting := ExceptT Refusal (StateM (List LogRecord))

namespace Reporting

def note (records : List LogRecord) : Reporting Unit := modify (· ++ records)

def quiet {β ε : Type} (wrap : ε → Refusal) (e : Except ε β) : Reporting β :=
  match e with
  | .ok b => pure b
  | .error f => throw (wrap f)

def outcome {β : Type} (m : Reporting β) : Except Refusal β × List LogRecord := m.run []

end Reporting

/-! ## 2. Problems -/

/-- A region with an objective, which answers rows of any length. -/
structure Problem (n : Nat) where
  region : Region Float n
  answer : List Float → Nat → Except Failure (Cost Float)

def Problem.objective {n : Nat} (p : Problem n) : Objective Float n :=
  fun x call => p.answer x.toList call

/-- Bounds, flags and objective as they are given. -/
structure ProblemForm where
  lower : Setting
  upper : Setting
  -- The flags of the integer variables; without them every variable is real.
  integral : Setting
  -- The objective, if what is given can be called.
  objective : Option Family

namespace ProblemForm

def readFlags : Setting → Except GridFault (Option (List Bool))
  | .null => .ok none
  | s => do return some (← Grid.flags s).values

/-- Reads a problem. -/
def read (p : ProblemForm) : Reporting ((n : Nat) × Problem n) := do
  let lower ← .quiet .grid (Grid.numbers p.lower)
  let upper ← .quiet .grid (Grid.numbers p.upper)
  let flags ← .quiet .grid (readFlags p.integral)
  match p.objective with
  | none => throw .uncallable
  | some f => do
    -- Grids of any shape are read in row order.
    let ⟨n, region⟩ ← .quiet .region (Region.declare lower.values upper.values flags)
    pure ⟨n, region, f.answer⟩

end ProblemForm

/-- What is given as a problem. -/
inductive ProblemGiven where
  | form (p : ProblemForm)
  -- Something else.
  | other (s : Setting)

/-! ## 3. Methods and configurations -/

/-- How a method is looked up. -/
inductive Lookup where
  -- By any spelling of its name.
  | byName (name : Setting)
  -- By its exact name.
  | exactly (name : Setting)

def Lookup.read : Lookup → Reporting Method
  | byName (.text name) =>
    match Method.find? name with
    | some m => pure m
    | none => throw (.unknownMethod name)
  | byName _ => throw .nameNotText
  | exactly (.text name) =>
    match Method.ofName? name with
    | some m => pure m
    | none => throw (.notListed name)
  | exactly name => throw (.notListed name.shown)

/-- What is given as a configuration. -/
inductive ConfigGiven where
  | settings (s : Settings)
  -- The configuration of a method, put together beforehand from the values of its fields.
  | record (method : Lookup) (s : Settings)

/-- The configuration of a method, with a note of the settings that it ignores. -/
def Method.readConfig (m : Method) (s : Settings) : Reporting MethodConfig := do
  .note ((m.schema.unknown s).map (LogRecord.ignoredSetting m.schema.title))
  .quiet .setting (m.configure s)

/-- The configuration of a method from the values of its fields, which go by their own names. -/
def Method.readRecord (m : Method) (s : Settings) : Reporting MethodConfig :=
  match s.find? fun entry => !m.schema.fields.contains entry.1 with
  | some (key, _) => throw (.noField key)
  | none => .quiet .setting (m.configure s)

namespace ConfigGiven

def readAhead : ConfigGiven → Reporting (Option MethodConfig)
  | settings _ => pure none
  | record method s => do return some (← (← method.read).readRecord s)

def pending : ConfigGiven → Settings
  | settings s => s
  | record _ _ => []

end ConfigGiven

/-! ## 4. Plans -/

/-- A search as it is asked for, but for its seed and its start points. -/
structure Request where
  method : Lookup
  problem : ProblemGiven
  budget : Setting
  config : ConfigGiven

/-- A search that is ready to be seeded. -/
structure Plan (n : Nat) where
  problem : Problem n
  budget : Nat
  config : MethodConfig

namespace Request

def readBudget (s : Setting) : Reporting Nat := do
  let k ← .quiet .setting s.toInteger
  if k < 1 then throw (.budgetTooSmall s) else pure k.toNat

def readConfig (m : Method) (ahead : Option MethodConfig) (given : ConfigGiven) :
    Reporting MethodConfig :=
  match ahead with
  | none => m.readConfig given.pending
  | some c => if c.method = m then pure c else throw (.foreignConfig m c.method)

def plan (r : Request) : Reporting ((n : Nat) × Plan n) := do
  match r.problem with
  | .form p => do
    let ⟨n, problem⟩ ← p.read
    let ahead ← r.config.readAhead
    let m ← r.method.read
    let budget ← readBudget r.budget
    let config ← readConfig m ahead r.config
    pure ⟨n, problem, budget, config⟩
  | .other s => do
    let _ ← r.config.readAhead
    let _ ← r.method.read
    throw (.notProblem s)

end Request

namespace Plan

variable {n : Nat}

def method (p : Plan n) : Method := p.config.method

def engine (p : Plan n) : Reporting (Engine Float n) :=
  .quiet (.fault p.method) (p.config.engine p.problem.region)

def task (p : Plan n) (starts : List (Point Float n)) (checked : Bool) : Task Float n :=
  ⟨p.problem.region, p.problem.objective, p.budget, starts, checked⟩

end Plan

end BoxSearch
