import BoxSearch.Config
import BoxSearch.HillClimb

/-!
# Configuration of hill climbing
-/

namespace BoxSearch.HillClimb

structure Config where
  -- Standard deviation of a step as a fraction of the width.
  stepSize : Number

namespace Config

def schema : Schema := ⟨"HillClimberConfig", ["stepsize"], []⟩

def ofSettings (s : Settings) : Except SettingFault Config := do
  let stepSize ← BoxSearch.Config.positive "stepsize" (schema.valueOf s "stepsize" (.real 0.1))
  pure ⟨stepSize⟩

def toSettings (c : Config) : Settings := [("stepsize", c.stepSize.toSetting)]

def params (c : Config) : Params Float := ⟨BoxSearch.Config.quantityOfNumber c.stepSize⟩

end Config

end BoxSearch.HillClimb
