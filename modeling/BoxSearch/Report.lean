import BoxSearch.Method

/-!
# Report — the texts by which a search speaks

The status of a search, the message that goes with it, the explanation of a fault, and the record
that an event leaves in the log.
-/

namespace BoxSearch

/-! ## 1. Status -/

/-- Where a search stands, in one word. -/
inductive Status where
  | notStarted
  | running
  | budgetExhausted
  | maxIterations
  | nonFinite
  | degenerate
  | targetReached
  deriving DecidableEq, Repr

namespace Status

def all : List Status :=
  [.notStarted, .running, .budgetExhausted, .maxIterations, .nonFinite, .degenerate,
    .targetReached]

def name : Status → String
  | .notStarted => "not_started"
  | .running => "running"
  | .budgetExhausted => "budget_exhausted"
  | .maxIterations => "max_iterations"
  | .nonFinite => "non_finite"
  | .degenerate => "degenerate"
  | .targetReached => "target_reached"

def ofName? (s : String) : Option Status := all.find? fun w => w.name == s

end Status

def Phase.status {α : Type} : Phase α → Status
  | .notStarted => .notStarted
  | .running => .running
  | .budgetSpent => .budgetExhausted
  | .generationsDone _ => .maxIterations
  | .iterationsDone _ => .maxIterations
  | .nonFinite _ _ => .nonFinite
  | .degenerate _ _ => .degenerate
  | .targetReached _ => .targetReached

/-! ## 2. Numbers -/

def Cost.toFloat : Cost Float → Float
  | .finite v => v
  | .posInf => 1.0 / 0.0
  | .negInf => -1.0 / 0.0
  | .undefined => 0.0 / 0.0

def bestToFloat (best : Option Float) : Float := best.getD (1.0 / 0.0)

def bestText (best : Option Float) : String := Decimal.general 6 (bestToFloat best)

/-! ## 3. Messages -/

/-- The message of a phase. -/
def Phase.message (tolerance : String) : Phase Float → String
  | .notStarted => ""
  | .running => ""
  | .budgetSpent => "Evaluation budget exhausted."
  | .generationsDone cap => "Reached maxgen=" ++ toString cap ++ " generations."
  | .iterationsDone cap => "Reached maxits=" ++ toString cap ++ " iterations."
  | .nonFinite c k =>
    "Objective returned " ++ Decimal.shortest c.toFloat ++ " at evaluation " ++ toString k ++ "."
  | .degenerate f k =>
    "Degenerate simplex at evaluation " ++ toString k ++ ": reflected cost " ++
      Decimal.shortest f ++ " ties a vertex cost."
  -- The tolerance is shown as it was given.
  | .targetReached e =>
    "Percent error " ++ Decimal.general 3 e ++ " below target_tol=" ++ tolerance ++ "."

def MethodConfig.tolerance : MethodConfig → String
  | .partition c => c.tolerance.toSetting.shown
  | _ => ""

def numberList (xs : List Float) : String := Text.bracketed (xs.map Decimal.shortest)

def placeList (places : List Nat) : String := Text.bracketed (places.map toString)

def skewText (tolerance : String) (error : Float) : String :=
  "Rows are not orthogonal within tolerance " ++ tolerance ++ "; max |B B^T - I| = " ++
    Decimal.scientific 3 error

/-- The text for an integer that does not fit into a number of bits. -/
def uncodableText (value : Int) (length : String) : String :=
  toString value ++ " cannot be coded on " ++ length ++ " bits"

def outsideText (places : List Nat) (x lower upper : String) : String :=
  "Point violates box constraints at indices " ++ placeList places ++ ": x=" ++ x ++ ", lb=" ++
    lower ++ ", ub=" ++ upper

def fractionalText (places : List Nat) (x : String) : String :=
  "Integer variables hold fractional values at indices " ++ placeList places ++ ": " ++ x

def Method.searchTitle : Method → String
  | .partition => "DIRECT"
  | m => m.title

/-- The name of a step of a search that is driven by hand. -/
def Method.stepName : Method → String
  | .partition => "iterate"
  | _ => "step"

/-- The explanation of a fault in a search of the given method, if it has one of its own. -/
def Fault.message? (m : Option Method) : Fault Float → Option String
  | .failed failure => failure.message
  | .outside cs =>
    some (outsideText (cs.map (·.1)) (numberList (cs.map (·.2.1)))
      (numberList (cs.map (·.2.2.1))) (numberList (cs.map (·.2.2.2))))
  | .fractional cs => some (fractionalText (cs.map (·.1)) (numberList (cs.map (·.2))))
  | .skewed tolerance error => some (skewText (Decimal.shortest tolerance) error)
  | .zeroRow => some "basis contains a zero row."
  | .alreadySolved => m.map fun m => m.title ++ " instances can only be solved once."
  | .alreadyInitialized => m.map fun m => m.searchTitle ++ " search is already initialized."
  | .notInitialized => m.map fun m => "Call initialize() before " ++ m.stepName ++ "()."
  | .uncodable v length => some (uncodableText v (toString length))
  | .negativeSpan span => some ("span must be non-negative, got " ++ toString span)
  | .tooFewForTorus count =>
    some ("A von Neumann neighbourhood needs popsize >= 4, got " ++ count)
  | .notSquare shape => some ("basis must be a square matrix, got shape " ++ Text.shape shape)
  | .absent => none
  | .noNeighbours => none
  | .misshapen => none
  | .noSuchMember => none
  | .undefinedInteger => none
  | .infiniteInteger => none
  | .notNumber => none
  | .overflow => none
  | .emptyRange => none
  | .textFactor => none
  | .tooManyNumbers => none
  | .outOfMemory => none

/-! ## 4. Records -/

/-- A record of the log. -/
structure LogRecord where
  level : Int
  logger : String
  text : String
  deriving Repr

namespace LogRecord

def debug (logger text : String) : LogRecord := ⟨10, logger, text⟩

def info (logger text : String) : LogRecord := ⟨20, logger, text⟩

def warning (logger text : String) : LogRecord := ⟨30, logger, text⟩

def ignoredSetting (title key : String) : LogRecord :=
  debug "metaheur.core.config" (title ++ " ignores unknown setting " ++ Text.quoted key)

def ofEvent (m : Method) (seed : String) (e : Event Float) : LogRecord :=
  -- The record of an event in a search with the given seed.
  let core := "metaheur.core.solver"
  let here := "metaheur.solvers." ++ m.name
  let say := fun text => m.name ++ text
  match e with
  | .started n budget =>
    debug core (say (": n=" ++ toString n ++ ", max_evals=" ++ toString budget ++ ", seed=" ++ seed))
  | .finished phase k best =>
    info core (say (" finished (" ++ phase.status.name ++ ") after " ++ toString k ++
      " evaluations, best cost " ++ bestText best))
  | .keptBest phase best =>
    info core (say (": " ++ phase.message "" ++ " Keeping best cost " ++ bestText best ++ "."))
  | .populationReady size supplied =>
    debug here (say (": initial population of " ++ toString size ++ ", " ++ toString supplied ++
      " from x0"))
  | .swarmReady size =>
    debug here (say (": swarm of " ++ toString size ++ " particles initialised"))
  | .learningRates own shared =>
    debug here (say (": tau=" ++ Decimal.general 4 own ++ ", tau0=" ++ Decimal.general 4 shared))
  | .tied phase => warning here (say (": " ++ phase.message ""))
  | .rotated k => debug here (say (": basis rotated at evaluation " ++ toString k))
  | .divided iteration cells least =>
    debug here (say (": iteration " ++ toString iteration ++ ", " ++ toString cells ++
      " boxes, minval " ++ bestText least))
  | .nonePromising i =>
    debug here (say (": no box passed the hull test, dividing box " ++ toString i))

end LogRecord

end BoxSearch
