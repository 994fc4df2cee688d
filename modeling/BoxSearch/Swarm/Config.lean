import BoxSearch.Config
import BoxSearch.Swarm

/-!
# Configuration of a swarm
-/

namespace BoxSearch.Swarm

def Rule.table : List (String × Rule) :=
  [("fips", .informed), ("inertia", .inertia), ("constriction", .constriction)]

def Refresh.table : List (String × Refresh) :=
  [("population", .afterSweep), ("particle", .afterMove)]

/-- The accepted settings of a swarm. The attractions are taken as they are given. -/
structure Config where
  count : Nat
  damping : Number
  pull : Setting
  ownPull : Setting
  bestPull : Setting
  launch : Number
  rule : Rule
  refresh : Refresh
  sampling : Sampling
  spread : Number
  mutation : Number
  mutationSpread : Number

namespace Config

def schema : Schema :=
  ⟨"PSOConfig",
    ["popsize", "chi", "phi", "phi1", "phi2", "v0max", "psomode", "pxupdatemode", "x0sampling",
      "s0", "intmut", "mutstdev"],
    [("x0samplingmode", "x0sampling")]⟩

def leastCount : Rule → Int
  | .informed => 4
  | _ => 1

def readCount (rule : Rule) (v : Setting) : Except SettingFault Nat := do
  let k ← v.toInteger
  if k < leastCount rule then
    throw (.swarmTooSmall (leastCount rule) (BoxSearch.Config.modeName Rule.table rule) k)
  else pure k.toNat

def ofSettings (s : Settings) : Except SettingFault Config := do
  let value := schema.valueOf s
  let rule ← BoxSearch.Config.mode Rule.table "psomode" (value "psomode" (.text "fips"))
  let refresh ← BoxSearch.Config.mode Refresh.table "pxupdatemode"
    (value "pxupdatemode" (.text "population"))
  let sampling ← BoxSearch.Config.mode Sampling.table "x0sampling"
    (value "x0sampling" (.text "uniform"))
  let count ← readCount rule (value "popsize" (.whole 24))
  let damping ← BoxSearch.Config.positive "chi" (value "chi" (.real 0.1))
  let mutation ← BoxSearch.Config.probability "intmut" (value "intmut" (.real 0.5))
  let together := "v0max, s0 and mutstdev"
  let launch ← BoxSearch.Config.notNegative together (value "v0max" (.real 0.2))
  let spread ← BoxSearch.Config.notNegative together (value "s0" (.real 1.0))
  let mutationSpread ← BoxSearch.Config.notNegative together (value "mutstdev" (.real 0.3))
  let pull := value "phi" (.real 4.0)
  let ownPull := value "phi1" (.real 2.05)
  let bestPull := value "phi2" (.real 2.05)
  pure { count, damping, pull, ownPull, bestPull, launch, rule, refresh, sampling, spread,
         mutation, mutationSpread }

def toSettings (c : Config) : Settings :=
  [("popsize", .whole c.count), ("chi", c.damping.toSetting), ("phi", c.pull),
    ("phi1", c.ownPull), ("phi2", c.bestPull), ("v0max", c.launch.toSetting),
    ("psomode", .text (BoxSearch.Config.modeName Rule.table c.rule)),
    ("pxupdatemode", .text (BoxSearch.Config.modeName Refresh.table c.refresh)),
    ("x0sampling", .text (BoxSearch.Config.modeName Sampling.table c.sampling)),
    ("s0", c.spread.toSetting), ("intmut", c.mutation.toSetting),
    ("mutstdev", c.mutationSpread.toSetting)]

def params (c : Config) : Params Float :=
  let quantity := BoxSearch.Config.quantityOfNumber
  let factor := BoxSearch.Config.factor
  { count := c.count, rule := c.rule, refresh := c.refresh, sampling := c.sampling,
    damping := quantity c.damping, pull := factor c.pull, ownPull := factor c.ownPull,
    bestPull := factor c.bestPull, launch := quantity c.launch, spread := quantity c.spread,
    mutation := c.mutation.toFloat, mutationSpread := quantity c.mutationSpread }

end Config

end BoxSearch.Swarm
