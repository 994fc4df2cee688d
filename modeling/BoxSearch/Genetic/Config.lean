import BoxSearch.Config
import BoxSearch.Genetic

/-!
# Configuration of a genetic search
-/

namespace BoxSearch.Genetic

structure Config where
  size : Nat
  generations : Nat
  crossing : Number
  mutation : Number
  elite : Nat
  reach : Number
  mutationRange : Number
  precision : Number

namespace Config

def schema : Schema :=
  ⟨"GAConfig", ["popsize", "maxgen", "pcross", "pmut", "elite", "d", "r", "k"], []⟩

def ofSettings (s : Settings) : Except SettingFault Config := do
  let value := schema.valueOf s
  -- All counts are read before any of them is checked.
  let size ← (value "popsize" (.whole 20)).toInteger
  let generations ← (value "maxgen" (.whole 100)).toInteger
  let elite ← (value "elite" (.whole 1)).toInteger
  if size < 2 then throw (.belowLeast "popsize" 2 size)
  unless 0 ≤ elite ∧ elite < size do throw (.eliteOutOfRange elite)
  unless 0 < generations do throw (.notPositive "maxgen" (.whole generations))
  let crossing ← BoxSearch.Config.probability "pcross" (value "pcross" (.real 0.7))
  let mutation ← BoxSearch.Config.probability "pmut" (value "pmut" (.real 0.3))
  let together := "d, r and k"
  let reach ← BoxSearch.Config.notNegative together (value "d" (.real 0.1))
  let mutationRange ← BoxSearch.Config.notNegative together (value "r" (.real 0.1))
  let precision ← BoxSearch.Config.notNegative together (value "k" (.real 16.0))
  pure ⟨size.toNat, generations.toNat, crossing, mutation, elite.toNat, reach, mutationRange,
    precision⟩

def toSettings (c : Config) : Settings :=
  [("popsize", .whole c.size), ("maxgen", .whole c.generations), ("pcross", c.crossing.toSetting),
    ("pmut", c.mutation.toSetting), ("elite", .whole c.elite), ("d", c.reach.toSetting),
    ("r", c.mutationRange.toSetting), ("k", c.precision.toSetting)]

def params (c : Config) : Params Float :=
  let quantity := BoxSearch.Config.quantityOfNumber
  { size := c.size, generations := c.generations, crossing := c.crossing.toFloat,
    mutation := c.mutation.toFloat, elite := c.elite, reach := quantity c.reach,
    mutationRange := quantity c.mutationRange, precision := quantity c.precision }

end Config

end BoxSearch.Genetic
