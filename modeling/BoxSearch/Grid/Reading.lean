import BoxSearch.Grid
import BoxSearch.Setting

/-!
# Reading grids — nested lists of equal shape

A grid is read from nested lists whose rows have equal shapes. A number grid takes flags for zero
and one, numerals for their values and a missing value for the undefined number; a flag grid takes
whatever counts as true.
-/

namespace BoxSearch

/-- Why a value is no grid. -/
inductive GridFault where
  | ragged
  | notNumeral
  | notNumber
  | tooLarge
  | tooDeep
  deriving DecidableEq, Repr

namespace Grid

variable {β : Type}

def stack : List (Grid β) → Except GridFault (Grid β)
  | [] => .ok ⟨[0], []⟩
  | g :: rest =>
    if rest.all fun h => h.shape == g.shape then
      .ok ⟨(rest.length + 1) :: g.shape, (g :: rest).flatMap (·.values)⟩
    else .error .ragged

mutual

/-- The grid of nested lists, any other value in a place of its own. -/
def ofSetting : Setting → Except GridFault (Grid Setting)
  | .list items => do stack (← ofItems items)
  | s => .ok (single s)

def ofItems : List Setting → Except GridFault (List (Grid Setting))
  | [] => .ok []
  | item :: rest => do return (← ofSetting item) :: (← ofItems rest)

end

def mostDirections : Nat := 64

def readWith (leaf : Setting → Except GridFault β) (s : Setting) : Except GridFault (Grid β) := do
  let g ← ofSetting s
  if mostDirections < g.shape.length then throw .tooDeep
  return ⟨g.shape, ← g.values.mapM leaf⟩

def readNumber : Setting → Except GridFault Float
  | .null => .ok (0.0 / 0.0)
  | .flag b => .ok (if b then 1.0 else 0.0)
  | .whole k => if (Float.ofInt k).isFinite then .ok (Float.ofInt k) else .error .tooLarge
  | .real x => .ok x
  | .text s =>
    match Text.readReal? s with
    | some x => .ok x
    | none => .error .notNumeral
  | _ => .error .notNumber

def numbers (s : Setting) : Except GridFault (Grid Float) := readWith readNumber s

def flags (s : Setting) : Except GridFault (Grid Bool) := readWith (fun s => .ok s.isTruthy) s

def text (g : Grid Float) : String := g.nested Decimal.shortest Text.bracketed

end Grid

end BoxSearch
