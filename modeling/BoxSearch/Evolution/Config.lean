import BoxSearch.Config
import BoxSearch.Evolution

/-!
# Configuration of an evolution
-/

namespace BoxSearch.Evolution

def Marriage.table : List (String × Marriage) := [("random", .random), ("roulette", .roulette)]

structure Config where
  size : Nat
  children : Nat
  parents : Nat
  marriage : Marriage
  stepSize : Number
  spread : Number
  learning : Number
  mutation : Number
  sampling : Sampling

namespace Config

def schema : Schema :=
  ⟨"ESConfig",
    ["popsize", "lambda_", "roh", "selmode", "stepsize", "stepsize0", "tauc", "pmut_int",
      "x0sampling"],
    [("lambda", "lambda_")]⟩

/-- The number of children: as many as there are members unless it is given. -/
def readChildren (size : Int) : Setting → Except SettingFault Int
  | .null => BoxSearch.Config.atLeast "lambda" 1 (.whole size)
  | v => BoxSearch.Config.atLeast "lambda" 1 v

def ofSettings (s : Settings) : Except SettingFault Config := do
  let value := schema.valueOf s
  let size ← BoxSearch.Config.atLeast "popsize" 1 (value "popsize" (.whole 20))
  let children ← readChildren size (value "lambda_" .null)
  let parents ← BoxSearch.Config.atLeast "roh" 1 (value "roh" (.whole 2))
  let marriage ← BoxSearch.Config.mode Marriage.table "selmode"
    (value "selmode" (.text "roulette"))
  let sampling ← BoxSearch.Config.mode Sampling.table "x0sampling"
    (value "x0sampling" (.text "uniform"))
  let stepSize ← BoxSearch.Config.positive "stepsize" (value "stepsize" (.real 0.5))
  let spread ← BoxSearch.Config.positive "stepsize0" (value "stepsize0" (.real 0.5))
  let learning ← BoxSearch.Config.positive "tauc" (value "tauc" (.real 1.0))
  let mutation ← BoxSearch.Config.probability "pmut_int" (value "pmut_int" (.real 0.5))
  -- A child has no more parents than there are members.
  pure ⟨size.toNat, children.toNat, (min parents size).toNat, marriage, stepSize, spread, learning,
    mutation, sampling⟩

def toSettings (c : Config) : Settings :=
  [("popsize", .whole c.size), ("lambda_", .whole c.children), ("roh", .whole c.parents),
    ("selmode", .text (BoxSearch.Config.modeName Marriage.table c.marriage)),
    ("stepsize", c.stepSize.toSetting), ("stepsize0", c.spread.toSetting),
    ("tauc", c.learning.toSetting), ("pmut_int", c.mutation.toSetting),
    ("x0sampling", .text (BoxSearch.Config.modeName Sampling.table c.sampling))]

def params (c : Config) : Params Float :=
  let quantity := BoxSearch.Config.quantityOfNumber
  { size := c.size, children := c.children, parents := c.parents, marriage := c.marriage,
    sampling := c.sampling, stepSize := quantity c.stepSize, spread := quantity c.spread,
    learning := quantity c.learning, mutation := c.mutation.toFloat }

end Config

end BoxSearch.Evolution
