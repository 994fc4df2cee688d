import BoxSearch.Config
import BoxSearch.Rotation

/-!
# Configuration of a search along rotating axes
-/

namespace BoxSearch.Rotation

structure Config where
  stretch : Number
  shorten : Number
  stepSize : Number

namespace Config

def schema : Schema := ⟨"RosenbrockConfig", ["alpha", "beta", "stepsize"], []⟩

def ofSettings (s : Settings) : Except SettingFault Config := do
  let read := fun field default =>
    BoxSearch.Config.positive field (schema.valueOf s field (.real default))
  let stretch ← read "alpha" 2.0
  let shorten ← read "beta" 0.5
  let stepSize ← read "stepsize" 0.125
  pure ⟨stretch, shorten, stepSize⟩

def toSettings (c : Config) : Settings :=
  [("alpha", c.stretch.toSetting), ("beta", c.shorten.toSetting),
    ("stepsize", c.stepSize.toSetting)]

def params (c : Config) : Params Float :=
  let quantity := BoxSearch.Config.quantityOfNumber
  ⟨quantity c.stretch, quantity c.shorten, quantity c.stepSize⟩

end Config

end BoxSearch.Rotation
