import BoxSearch.Text.Blank
import BoxSearch.Text.DecimalDigit
import BoxSearch.Text.Fold

/-!
# Numerals — numbers read from texts

A numeral may have blanks around it, a sign, and single underscores between digits, which may be
those of any script. A whole numeral has digits only, and not too many of them; a real one may have
a point and an exponent, or name an infinity or the undefined number.
-/

namespace BoxSearch.Text

def digitsValue (ds : List Nat) : Nat := ds.foldl (fun v d => 10 * v + d) 0

/-- The values of a row of digits with single underscores between them. -/
def digitRow : List Char → Option (List Nat)
  | [] => none
  | [c] => (digitValue? c).map ([·])
  | c :: '_' :: rest => do return (← digitValue? c) :: (← digitRow rest)
  | c :: rest => do return (← digitValue? c) :: (← digitRow rest)

/-- Whether a text starts with a minus sign, and the text without its sign. -/
def splitSign : List Char → Bool × List Char
  | '-' :: rest => (true, rest)
  | '+' :: rest => (false, rest)
  | cs => (false, cs)

def signedValue (negative : Bool) (ds : List Nat) : Int :=
  if negative then -(digitsValue ds : Int) else digitsValue ds

/-- The most digits that a whole numeral may have, zeros in front included. -/
def mostDigits : Nat := 4300

def readWhole? (s : String) : Option Int := do
  let (negative, cs) := splitSign (strippedOf isNumeralBlank s.toList)
  let ds ← digitRow cs
  if ds.length ≤ mostDigits then some (signedValue negative ds) else none

def digitRowOrNone (cs : List Char) : Option (List Nat) :=
  if cs.isEmpty then some [] else digitRow cs

def readExponent? : List Char → Option Int
  | [] => some 0
  | e :: rest =>
    if e = 'e' ∨ e = 'E' then
      let (negative, cs) := splitSign rest
      (digitRow cs).map (signedValue negative)
    else none

def scaledDouble (mantissa : Nat) (exponent : Int) : Float :=
  if mantissa = 0 then 0.0
  else if 400 < exponent then 1.0 / 0.0
  else
    let places := (Nat.toDigits 10 mantissa).length
    if exponent < -(400 + places : Int) then 0.0
    else Float.ofScientific mantissa (decide (exponent < 0)) exponent.natAbs

def readMagnitude? (cs : List Char) : Option Float :=
  -- The double of a mantissa with an optional point, and an exponent.
  let mantissa := cs.takeWhile fun c => c != 'e' && c != 'E'
  let whole := mantissa.takeWhile (· != '.')
  let fraction := (mantissa.dropWhile (· != '.')).drop 1
  match digitRowOrNone whole, digitRowOrNone fraction,
      readExponent? (cs.drop mantissa.length) with
  | some ws, some fs, some e =>
    if ws.isEmpty && fs.isEmpty then none
    else some (scaledDouble (digitsValue (ws ++ fs)) (e - fs.length))
  | _, _, _ => none

def readReal? (s : String) : Option Float :=
  let (negative, cs) := splitSign (strippedOf isNumeralBlank s.toList)
  let name := lower (String.ofList cs)
  let magnitude :=
    if name = "inf" ∨ name = "infinity" then some (1.0 / 0.0)
    else if name = "nan" then some (0.0 / 0.0)
    else readMagnitude? cs
  magnitude.map fun x => if negative then -x else x

end BoxSearch.Text
