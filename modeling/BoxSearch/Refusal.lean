import BoxSearch.Grid.Reading
import BoxSearch.Report

/-!
# Refusal — why a request is not carried out

Everything that can be wrong with a request, and the text that explains it. Some refusals have no
text of their own: the value is of the wrong kind, and its kind says all.
-/

namespace BoxSearch

/-- What is wrong with a request. -/
inductive Refusal where
  -- A value is no grid of numbers or flags.
  | grid (f : GridFault)
  | setting (f : SettingFault)
  | region (f : RegionFault)
  -- A step cannot be carried out, in a search of the given method.
  | fault (m : Option Method) (f : Fault Float)
  -- The objective cannot be called.
  | uncallable
  -- Rows outside their bounds: their places, and the rows of points and bounds.
  | outside (places : List Nat) (x lower upper : Grid Float)
  -- Rows with fractions where there should be integers: their places and the rows.
  | fractional (places : List Nat) (x : Grid Float)
  -- An integer that a bit string of this length does not code.
  | uncodable (value : Int) (length : Setting)
  | notProblem (given : Setting)
  | unknownMethod (name : String)
  -- A name that is not listed exactly as it is written.
  | notListed (name : String)
  -- A configuration of another method.
  | foreignConfig (expected given : Method)
  -- A configuration has no field of this name.
  | noField (name : String)
  | budgetTooSmall (given : Setting)
  | negativeSeed
  | seedNotWhole
  -- Start points of this shape do not fit the dimension.
  | startShape (dimension : Nat) (shape : List Nat)
  | unboundedStart
  | noSeeds
  -- Costs that are no row.
  | costShape (shape : List Nat)
  | unequalCounts (seeds costs : Nat)
  -- Rows that should be orthogonal have this error, beyond the tolerance as it was given.
  | skewed (tolerance : Setting) (error : Float)
  -- A word that is in no list.
  | unknownWord
  -- A level that is neither an integer nor a name.
  | levelNotNamed
  -- A layout of records without any field.
  | emptyLayout
  -- A layout of records that is no text.
  | layoutNotText
  -- A name of a logger that is no text.
  | nameNotText
  -- No context to close.
  | noContext
  -- The search has no such step, or nothing yet that the step could work on.
  | notOffered

def Setting.kind : Setting → String
  | .null => "NoneType"
  | .flag _ => "bool"
  | .whole _ => "int"
  | .real _ => "float"
  | .text _ => "str"
  | .list _ => "list"
  | .table _ => "dict"

def RegionFault.message : RegionFault → String
  | .noVariables => "Problem must have at least one variable."
  | .lengths lower upper integral =>
    "lb, ub and integer must have equal lengths, got " ++ toString lower ++ ", " ++
      toString upper ++ " and " ++ toString integral
  | .unbounded => "Bounds must be finite."
  | .reversed places => "lb must not exceed ub; violated at indices " ++ placeList places
  | .fractionalBounds => "Integer variables must have integral bounds."

namespace Refusal

def allowedShapes (n : Nat) : String :=
  Text.shape [n] ++ " or (m, " ++ toString n ++ ")"

/-- The explanation of a refusal, if it has one of its own. -/
def message? : Refusal → Option String
  | grid _ => none
  | setting f => f.message?
  | region f => some f.message
  | fault m f => f.message? m
  | uncallable => some "fun must be callable."
  | outside places x lower upper => some (outsideText places x.text lower.text upper.text)
  | fractional places x => some (fractionalText places x.text)
  | uncodable value length => some (uncodableText value length.shown)
  | notProblem given => some ("problem must be a Problem, got " ++ given.kind)
  | unknownMethod name =>
    some ("Unsupported solver name '" ++ name ++ "'. Supported names: " ++
      Text.bracketed (Method.names.map Text.quoted))
  | notListed _ => none
  | foreignConfig expected given =>
    some (expected.title ++ " expects a " ++ expected.schema.title ++
      " or a settings mapping, got " ++ given.schema.title)
  | noField _ => none
  | budgetTooSmall given => some ("max_evals must be at least 1, got " ++ given.shown)
  | negativeSeed => none
  | seedNotWhole => none
  | startShape n shape =>
    some ("x0 must have shape " ++ allowedShapes n ++ ", got " ++ Text.shape shape)
  | unboundedStart => some "x0 must be finite."
  | noSeeds => some "seeds must be non-empty"
  | costShape shape => some ("costs must be 1D, got shape " ++ Text.shape shape)
  | unequalCounts seeds costs =>
    some ("seeds and costs must have the same length, got " ++ toString seeds ++ " and " ++
      toString costs)
  | skewed tolerance error => some (skewText tolerance.shown error)
  | unknownWord => none
  | levelNotNamed => none
  | emptyLayout => none
  | layoutNotText => none
  | nameNotText => none
  | noContext => none
  | notOffered => none

end Refusal

end BoxSearch
