import BoxSearch.Capacity
import BoxSearch.Session.Cells

/-!
# Driving a session — whole runs and the steps of a run

A search is run from its first step to its end, or it is set up and then advanced step by step. What
was put in place by hand may not fit: cells that do not fit the cube are divided as far as they go,
and a best row that is no point of the region breaks a step off where the search looks at it.
-/

namespace BoxSearch.SessionM

variable {n : Nat}

/-! ## 1. Partitions with stray cells -/

def modifyPartition (f : Partition.State Float n → Partition.State Float n) : SessionM n Unit := do
  let (p, state) ← partition
  modify fun s => { s with engine := .partition p (f state) }

def enterRecord : SessionM n Unit := do
  let s ← get
  let least := Partition.Stray.leastCost s.cells
  let entry := (s.account.rounds, s.account.evaluations, least)
  modifyPartition fun state => { state with records := state.records ++ [entry] }
  modifyAccount (·.report (.divided s.account.rounds s.cells.length least))

/-- Ends the search if the least cost is close enough to the known optimum. -/
def checkTarget : SessionM n Bool := do
  let (p, _) ← partition
  let s ← get
  match p.target, Partition.Stray.leastCost s.cells with
  | some target, some least => do
    let error := Partition.percentError (← use target) least
    if error < p.tolerance then
      modifyAccount fun L => { L with phase := .targetReached error }
      pure true
    else pure false
  | _, _ => pure false

/-- Adds the whole cube to the cells. The answer says whether the search may go on. -/
def setUpCells : SessionM n Bool := do
  let (_, state) ← partition
  if state.initialized then use (.error .alreadyInitialized)
  modifyAccount fun L => match L.phase with
    | .notStarted => { L with phase := .running }
    | _ => L
  modifyPartition fun state => { state with initialized := true }
  let center : Point Float n := Point.fill n 0.5
  match ← evaluateInCube (.row center.toList) with
  | none => pure false
  | some v => do
    setCells ((← get).cells ++ [.ofCell (.whole v : Partition.Cell Float n)])
    enterRecord
    return !(← checkTarget)

def divideEach : List Nat → SessionM n Bool
  | [] => pure true
  | i :: rest => do
    let s ← get
    if s.account.evaluations < s.plan.budget then
      if ← divideAt i then divideEach rest else pure false
    else pure true

/-- Whether the cap on iterations is reached. -/
def checkIterations (withinBudget : Bool) : SessionM n Bool := do
  let (p, _) ← partition
  let s ← get
  match p.iterations with
  | none => pure false
  | some cap =>
    if cap ≤ s.account.rounds then
      -- A search without evaluations left ends because of its budget.
      if withinBudget then modifyAccount fun L => { L with phase := .iterationsDone cap }
      pure true
    else pure false

def iterateCells : SessionM n Bool := do
  -- One iteration, unless the search is over or out of budget.
  let (_, state) ← partition
  unless state.initialized do use (.error .notInitialized)
  let s ← get
  if s.account.phase.isOver || s.plan.budget ≤ s.account.evaluations then pure false
  else if ← divideEach (← promising) then
    modifyAccount fun L => { L with rounds := L.rounds + 1 }
    enterRecord
    let s ← get
    let withinBudget := decide (s.account.evaluations < s.plan.budget)
    if ← checkTarget then pure false
    else if ← checkIterations withinBudget then pure false
    else pure withinBudget
  else pure false

/-! ## 2. Rotations from a stray best row -/

/-- Sets up a rotation. -/
def setUpRotation : SessionM n Bool := do
  let s ← get
  let goesOn ← step fun r => r.setUp s.task
  let s ← get
  -- Its axes start from the best row, which has to be a point by then.
  if goesOn && s.hasStrayBest then
    match s.engine with
    | .rotation p state => set { s with engine := .rotation p { state with frame := none } }
    | _ => pure ()
    use (.error .misshapen)
  else pure goesOn

def advanceRotation : SessionM n Bool := do
  -- One step of a rotation, which starts from the best row.
  let s ← get
  match s.engine with
  | .rotation _ state => do
    let idle := s.account.phase.isOver || s.plan.budget ≤ s.account.evaluations
    if state.initialized && !idle && s.hasStrayBest then use (.error .misshapen)
    else step fun r => r.advance s.task
  | _ => throw .notOffered

/-! ## 3. Steps of a run -/

/-- Sets up a search that is driven by hand. The answer says whether it may go on. -/
def setUp : SessionM n Bool := do
  let s ← get
  match s.engine with
  | .partition _ _ => if s.hasStrays then setUpCells else step fun r => r.setUp s.task
  | _ => setUpRotation

/-- One step of a search that is driven by hand. The answer says whether another one is possible. -/
def advance : SessionM n Bool := do
  let s ← get
  match s.engine with
  | .partition _ _ => if s.hasStrays then iterateCells else step fun r => r.advance s.task
  | _ => advanceRotation

/-! ## 4. Runs -/

def repeatWhile (again : SessionM n Bool) : (fuel : Nat) → SessionM n Unit
  | 0 => pure ()
  | fuel + 1 => do if ← again then repeatWhile again fuel

/-- Whether the particles of a swarm cannot be moved like points: the best row is none, or the
multipliers do not fit. -/
def movesStray (s : Session n) (p : Swarm.Params Float) : Bool :=
  s.hasStrayBest && p.rule != .informed || !p.factorsFit n

/-- Moves the first particle to where no particle can be. -/
def moveStray (p : Swarm.Params Float) : SessionM n Unit := do
  let s ← get
  match s.account.best with
  | some b =>
    if s.account.evaluations < s.plan.budget then do
      let tb ← require true s.swarm?
      let (_, x) ← choose (tb.move s.task p 0 (.row b.point))
      -- The position is evaluated, if it is a row, and is not kept.
      let _ ← evaluateGrid x
      use (.error .misshapen)
  | none => pure ()

/-- Runs a swarm whose particles may not move like points once it is launched. -/
def runSwarm (p : Swarm.Params Float) (state : Swarm.State Float n) : SessionM n Unit := do
  let s ← get
  let (launched, r) := s.run.carry state (.swarm p) (Swarm.launch s.task p)
  set { s.goOn r with placed := r.engine.keepPlaced s.placed }
  match ← use launched, (← get).engine with
  | some (), .swarm p state => do
    if movesStray (← get) p then moveStray p
    let s ← get
    let (swept, r) := s.run.carry state (.swarm p)
      (SearchM.roundsWithin s.task (Swarm.sweep s.task p) s.plan.budget)
    set (s.goOn r)
    let _ ← use swept
  | _, _ => pure ()

def runStray : SessionM n Unit := do
  -- Runs a search step by step from a start that does not fit.
  let s ← get
  match s.engine with
  | .swarm p state => runSwarm p state
  | _ => if ← setUp then repeatWhile advance (s.plan.budget + 1)

/-- Whether a run starts from something that does not fit and looks at it. -/
def startsStray (s : Session n) : Bool :=
  match s.engine with
  | .swarm p _ => movesStray s p
  | .rotation _ _ => s.hasStrayBest
  | .partition _ _ => s.hasStrays
  | _ => false

def requireRoom : SessionM n Unit := do
  -- Breaks a search off that starts with more members than fit into memory.
  let s ← get
  match (Capacity.engine s.engine : Usable Float Unit) with
  | .ok () => pure ()
  | .error f => do
    modifyAccount (·.start n s.plan.budget)
    use (.error f)

/-- Runs the search from its first step to its end. -/
def solve : SessionM n Unit := do
  let s ← get
  match s.account.phase with
  | .notStarted =>
    requireRoom
    if startsStray s then
      modifyAccount (·.start n s.plan.budget)
      runStray
      modifyAccount (·.close)
    else
      let (answer, r) := s.run.solve s.task
      -- What was put in place by hand stands until the search makes its own.
      set { s.goOn r with placed := r.engine.keepPlaced s.placed }
      use answer
  -- A search is run only once.
  | _ => use (.error .alreadySolved)

end BoxSearch.SessionM
