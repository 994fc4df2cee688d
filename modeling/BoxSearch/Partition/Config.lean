import BoxSearch.Config
import BoxSearch.Partition

/-!
# Configuration of a partitioning search
-/

namespace BoxSearch.Partition

/-- The accepted settings of the search. The known optimum is taken as it is given. -/
structure Config where
  ep : Number
  iterations : Option Nat
  target : Setting
  tolerance : Number

namespace Config

def schema : Schema := ⟨"DirectConfig", ["ep", "maxits", "target", "target_tol"], []⟩

def readIterations : Setting → Except SettingFault (Option Nat)
  | .null => pure none
  | v => do
    let k ← v.toInteger
    if 0 < k then pure (some k.toNat) else throw (.notPositive "maxits" (.whole k))

def ofSettings (s : Settings) : Except SettingFault Config := do
  let value := schema.valueOf s
  let given := value "ep" (.real 1e-4)
  let ep ← BoxSearch.Config.number given
  if ep.isNegative then throw (.negative "ep" given)
  let iterations ← readIterations (value "maxits" .null)
  let tolerance ← BoxSearch.Config.positive "target_tol" (value "target_tol" (.real 0.01))
  pure ⟨ep, iterations, value "target" .null, tolerance⟩

def toSettings (c : Config) : Settings :=
  [("ep", c.ep.toSetting),
    ("maxits", match c.iterations with
      | some k => .whole k
      | none => .null),
    ("target", c.target), ("target_tol", c.tolerance.toSetting)]

def readTarget : Setting → Option (Quantity Float)
  | .null => none
  | v => some (BoxSearch.Config.quantity v)

def params (c : Config) : Params Float :=
  { ep := BoxSearch.Config.quantityOfNumber c.ep, iterations := c.iterations,
    target := readTarget c.target, tolerance := c.tolerance.toFloat }

end Config

end BoxSearch.Partition
