import BoxSearch.Decimal.Shortest
import BoxSearch.Text.Numeral
import BoxSearch.Text.Quoted

/-!
# Setting — a value as a caller gives it

Settings arrive loosely typed: a count may be a numeral, a flag, or a number with a fraction. This
module holds such values, the texts by which reports show them, and the readings that the typed
configurations make of them.
-/

namespace BoxSearch

/-- A value of no fixed type. -/
inductive Setting where
  | null
  | flag (b : Bool)
  | whole (k : Int)
  | real (x : Float)
  | text (s : String)
  | list (items : List Setting)
  | table (entries : List (String × Setting))

/-- A value that counts as a number. Flags count as zero and one. -/
inductive Number where
  | whole (k : Int)
  | real (x : Float)
  | flag (b : Bool)

/-- Why a value is refused. -/
inductive SettingFault where
  | notPositive (setting : String) (given : Setting)
  | notProbability (setting : String) (given : Setting)
  | unknownMode (setting : String) (given : Setting) (names : List String)
  | belowLeast (setting : String) (least given : Int)
  | swarmTooSmall (least : Int) (mode : String) (given : Int)
  | eliteOutOfRange (given : Int)
  | negative (setting : String) (given : Setting)
  -- One of several settings, named together, is negative.
  | someNegative (settings : String)
  -- The value does not compare with numbers.
  | unordered
  -- The value has no integer: it is neither a number nor a text.
  | notIntegral
  -- The value has no items.
  | noItems
  -- The text is no numeral.
  | notNumeral
  | undefinedInteger
  | infiniteInteger
  -- The integer is beyond all doubles, or beyond all signed 64-bit words where one is needed.
  | tooLarge

/-! ## 1. Texts -/

namespace Text

def commaSeparated (items : List String) : String := ", ".intercalate items

def bracketed (items : List String) : String := "[" ++ commaSeparated items ++ "]"

/-- A shape: its lengths in parentheses, with a comma even after a single one. -/
def shape (lengths : List Nat) : String :=
  match lengths with
  | [k] => "(" ++ toString k ++ ",)"
  | ks => "(" ++ commaSeparated (ks.map toString) ++ ")"

end Text

namespace Setting

mutual

def written : Setting → String
  | null => "None"
  | flag b => if b then "True" else "False"
  | whole k => toString k
  | real x => Decimal.shortest x
  | text s => Text.quoted s
  | list items => Text.bracketed (writtenItems items)
  | table entries => "\x7b" ++ Text.commaSeparated (writtenEntries entries) ++ "\x7d"

def writtenItems : List Setting → List String
  | [] => []
  | item :: rest => written item :: writtenItems rest

def writtenEntries : List (String × Setting) → List String
  | [] => []
  | (key, value) :: rest => (Text.quoted key ++ ": " ++ written value) :: writtenEntries rest

end

/-- The text that shows a value to a reader: texts stand without quotes. -/
def shown : Setting → String
  | text s => s
  | s => written s

/-! ## 2. Readings -/

def number? : Setting → Option Number
  | flag b => some (.flag b)
  | whole k => some (.whole k)
  | real x => some (.real x)
  | _ => none

def isText : Setting → Bool
  | text _ => true
  | _ => false

/-- Whether a value counts as true: it is neither zero nor empty. -/
def isTruthy : Setting → Bool
  | null => false
  | flag b => b
  | whole k => k != 0
  | real x => !(x == 0.0)
  | text s => !s.isEmpty
  | list items => !items.isEmpty
  | table entries => !entries.isEmpty

def integerOfReal (x : Float) : Except SettingFault Int :=
  match Reading.ofFloat x with
  | .undefined => .error .undefinedInteger
  | .infinite _ => .error .infiniteInteger
  | .finite negative m e =>
    let (num, den) := Reading.ratio m e
    .ok (if negative then -((num / den : Nat) : Int) else (num / den : Nat))

/-- The integer of a value. -/
def toInteger : Setting → Except SettingFault Int
  | flag b => .ok b.toNat
  | whole k => .ok k
  -- A fraction is dropped, and a text is read as a numeral.
  | real x => integerOfReal x
  | text s =>
    match Text.readWhole? s with
    | some k => .ok k
    | none => .error .notNumeral
  | _ => .error .notIntegral

/-- The double nearest to an integer, which must not be beyond all doubles. -/
def realOfInteger (k : Int) : Except SettingFault Float :=
  if (Float.ofInt k).isFinite then .ok (Float.ofInt k) else .error .tooLarge

/-- The double of a value: a text is read as a numeral. -/
def toReal : Setting → Except SettingFault Float
  | flag b => .ok (if b then 1.0 else 0.0)
  | whole k => realOfInteger k
  | real x => .ok x
  | text s =>
    match Text.readReal? s with
    | some x => .ok x
    | none => .error .notNumeral
  | _ => .error .unordered

/-- The items of a value that has some: those of a list, the characters of a text, the keys of a
table. -/
def items? : Setting → Except SettingFault (List Setting)
  | list items => .ok items
  | text s => .ok (s.toList.map fun c => text c.toString)
  | table entries => .ok (entries.map fun entry => text entry.1)
  | _ => .error .noItems

mutual

/-- The value with an integer for each of its items, lists within lists included. -/
def toIntegers : Setting → Except SettingFault Setting
  | list items => do return list (← itemsToIntegers items)
  | s => do return whole (← s.toInteger)

/-- The items of a list with an integer for each of them. -/
def itemsToIntegers : List Setting → Except SettingFault (List Setting)
  | [] => .ok []
  | item :: rest => do return (← toIntegers item) :: (← itemsToIntegers rest)

end

end Setting

namespace Number

def toSetting : Number → Setting
  | whole k => .whole k
  | real x => .real x
  | flag b => .flag b

def toFloat : Number → Float
  | whole k => Float.ofInt k
  | real x => x
  | flag b => if b then 1.0 else 0.0

def isPositive : Number → Bool
  | whole k => decide (0 < k)
  | real x => decide (0.0 < x)
  | flag b => b

def isNegative : Number → Bool
  | whole k => decide (k < 0)
  | real x => decide (x < 0.0)
  | flag _ => false

def isProbability : Number → Bool
  | whole k => decide (0 ≤ k ∧ k ≤ 1)
  | real x => decide (0.0 ≤ x ∧ x ≤ 1.0)
  | flag _ => true

end Number

/-- The double nearest to a value; the undefined one if the value is no number. -/
def Setting.toFloat (s : Setting) : Float :=
  match s.number? with
  | some x => x.toFloat
  | none => 0.0 / 0.0

end BoxSearch
