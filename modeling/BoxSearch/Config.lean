import BoxSearch.Fault
import BoxSearch.Grid.Reading

/-!
# Config — typed configurations from loosely typed settings

A schema names the fields of a configuration and the keys that stand for fields under another name.
Of several entries for one field the last one counts, and entries for no field are ignored. The
checks of this module are those that the configurations are built from.
-/

namespace BoxSearch

/-- Keys with their values, in the order in which they were given. -/
abbrev Settings := List (String × Setting)

/-- Puts a value under a key. -/
def Settings.put (settings : Settings) (key : String) (value : Setting) : Settings :=
  match settings with
  | [] => [(key, value)]
  -- An entry that has the key already keeps its place.
  | (k, v) :: rest => if k = key then (key, value) :: rest else (k, v) :: Settings.put rest key value

def Settings.ofPairs (pairs : List (String × Setting)) : Settings :=
  pairs.foldl (fun settings (key, value) => settings.put key value) []

/-- The fields of a configuration. -/
structure Schema where
  -- The name of the configuration in reports.
  title : String
  fields : List String
  -- Other keys, each with the field that it stands for.
  aliases : List (String × String) := []

namespace Schema

def field? (s : Schema) (key : String) : Option String :=
  let name := (s.aliases.lookup key).getD key
  if s.fields.contains name then some name else none

/-- The value for a field: that of its last entry, or else the default. -/
def valueOf (s : Schema) (settings : Settings) (field : String) (default : Setting) : Setting :=
  match settings.reverse.find? fun entry => s.field? entry.1 == some field with
  | some (_, value) => value
  | none => default

def unknown (s : Schema) (settings : Settings) : List String :=
  (settings.filter fun entry => (s.field? entry.1).isNone).map (·.1)

end Schema

namespace Config

/-- A number, which any value has to be that is compared with one. -/
def number (v : Setting) : Except SettingFault Number :=
  match v.number? with
  | some x => .ok x
  | none => .error .unordered

def positive (setting : String) (v : Setting) : Except SettingFault Number := do
  let x ← number v
  if x.isPositive then pure x else throw (.notPositive setting v)

def probability (setting : String) (v : Setting) : Except SettingFault Number := do
  let x ← number v
  if x.isProbability then pure x else throw (.notProbability setting v)

def notNegative (settings : String) (v : Setting) : Except SettingFault Number := do
  let x ← number v
  -- The number is refused together with the settings it is named with.
  if x.isNegative then throw (.someNegative settings) else pure x

def atLeast (setting : String) (least : Int) (v : Setting) : Except SettingFault Int := do
  let k ← v.toInteger
  if k < least then throw (.belowLeast setting least k) else pure k

/-! ## 1. Quantities -/

/-- A reading as a value that may be unusable: what is no number cannot be used. -/
def usable {β : Type} : Except SettingFault β → Usable Float β
  | .ok b => .ok b
  -- An integer that is beyond all doubles.
  | .error .tooLarge => .error .overflow
  | .error _ => .error .notNumber

def quantityOfNumber : Number → Quantity Float
  | .whole k => usable (Setting.realOfInteger k)
  | x => .ok x.toFloat

def quantity (v : Setting) : Quantity Float := (usable (number v)).bind quantityOfNumber

/-- A number of a list of factors. -/
def listedNumber : Setting → Quantity Float
  | .whole k =>
    -- Integers have to fit into words of 64 bits.
    if -9223372036854775808 ≤ k ∧ k < 18446744073709551616 then quantityOfNumber (.whole k)
    else (quantityOfNumber (.whole k)).bind fun _ => .error .notNumber
  | v => quantity v

def isTextual : Setting → Bool
  | .null => false
  | .table _ => false
  | _ => true

/-- A value as a factor: nested lists have a factor in each place. -/
def factor (v : Setting) : Factor Float :=
  match Grid.ofSetting v with
  | .error _ => .error .misshapen
  | .ok g =>
    -- One text makes texts of all values that stand beside it.
    if g.values.any Setting.isText && g.values.all isTextual then .error .textFactor
    else
      let numbers : Usable Float (List Float) :=
        g.values.mapM (if g.shape.isEmpty then quantity else listedNumber)
      numbers.map fun xs => ⟨g.shape, xs⟩

/-! ## 2. Modes -/

/-- The place of a mode given by its name or by its code. -/
def modePlace? (names : List String) : Setting → Except SettingFault (Option Nat)
  -- Names are compared without regard to case.
  | .text s => .ok (names.idxOf? (Text.lower s))
  | .whole k => do
    -- A code beyond all doubles is refused as such, before it is looked up.
    let _ ← Setting.realOfInteger k
    return if 0 ≤ k ∧ k < names.length then some k.toNat else none
  | .real x =>
    if x == Scalar.nearest x && x.isFinite then
      .ok (if 0.0 ≤ x ∧ x < Float.ofInt names.length then some (Reading.ofFloat x).nearest.toNat
        else none)
    else .ok none
  | _ => .ok none

/-- A mode from a table of names, the code of a mode being its place. -/
def mode {β : Type} (table : List (String × β)) (setting : String) (v : Setting) :
    Except SettingFault β := do
  let names := table.map (·.1)
  match (← modePlace? names v).bind fun i => table[i]? with
  | some (_, b) => pure b
  | none => throw (.unknownMode setting v names)

def modeName {β : Type} [BEq β] (table : List (String × β)) (b : β) : String :=
  ((table.find? fun entry => entry.2 == b).map (·.1)).getD ""

end Config

namespace SettingFault

/-- The text that explains a refusal, if it has one of its own. -/
def message? : SettingFault → Option String
  | notPositive setting given => some (setting ++ " must be positive, got " ++ given.shown)
  | notProbability setting given =>
    some (setting ++ " must lie in [0, 1], got " ++ given.shown)
  | unknownMode setting given names =>
    some ("Unsupported " ++ setting ++ " " ++ given.written ++ ". Supported values: " ++
      Text.bracketed ((names.mergeSort fun a b => decide (a ≤ b)).map Text.quoted) ++
      " or codes " ++ Text.bracketed ((List.range names.length).map toString))
  | belowLeast setting least given =>
    some (setting ++ " must be at least " ++ toString least ++ ", got " ++ toString given)
  | swarmTooSmall least mode given =>
    some ("popsize must be at least " ++ toString least ++ " in " ++ Text.quoted mode ++
      " mode, got " ++ toString given)
  | eliteOutOfRange given => some ("elite must lie in [0, popsize), got " ++ toString given)
  | negative setting given => some (setting ++ " must be non-negative, got " ++ given.shown)
  | someNegative settings => some (settings ++ " must be non-negative.")
  | unordered => none
  | notIntegral => none
  | noItems => none
  | notNumeral => none
  | undefinedInteger => none
  | infiniteInteger => none
  | tooLarge => none

end SettingFault

end BoxSearch
