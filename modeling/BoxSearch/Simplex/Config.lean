import BoxSearch.Config
import BoxSearch.Simplex

/-!
# Configuration of a simplex search
-/

namespace BoxSearch.Simplex

structure Config where
  reflection : Number
  expansion : Number
  contraction : Number
  shrinkage : Number
  spread : Number

namespace Config

def schema : Schema := ⟨"NelderMeadConfig", ["alpha", "gamma", "rho", "sigma", "step0"], []⟩

def ofSettings (s : Settings) : Except SettingFault Config := do
  let read := fun field default =>
    BoxSearch.Config.positive field (schema.valueOf s field (.real default))
  let reflection ← read "alpha" 1.0
  let expansion ← read "gamma" 1.5
  let contraction ← read "rho" 0.25
  let shrinkage ← read "sigma" 0.2
  let spread ← read "step0" 0.02
  pure ⟨reflection, expansion, contraction, shrinkage, spread⟩

def toSettings (c : Config) : Settings :=
  [("alpha", c.reflection.toSetting), ("gamma", c.expansion.toSetting),
    ("rho", c.contraction.toSetting), ("sigma", c.shrinkage.toSetting),
    ("step0", c.spread.toSetting)]

def params (c : Config) : Params Float :=
  let quantity := BoxSearch.Config.quantityOfNumber
  ⟨quantity c.reflection, quantity c.expansion, quantity c.contraction, quantity c.shrinkage,
    quantity c.spread⟩

end Config

end BoxSearch.Simplex
