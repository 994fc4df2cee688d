import BoxSearch.Refusal

/-!
# Check default — whether points are checked when nothing is said

The default starts from a word of the environment. It can be set, and it can be changed for the
extent of a context, at whose end the default before the context returns.
-/

namespace BoxSearch

/-- The default, with the defaults that the open contexts will return to, the innermost first. -/
structure CheckDefault where
  enabled : Bool
  saved : List Bool := []
  deriving Repr

namespace CheckDefault

def yesWords : List String := ["1", "true", "yes", "on"]

def ofWord (word : Option String) : CheckDefault :=
  match word with
  | some w => ⟨yesWords.contains (Text.lower (String.ofList (Text.stripped w.toList))), []⟩
  | none => ⟨false, []⟩

def set (d : CheckDefault) (on : Bool) : CheckDefault := { d with enabled := on }

def resolve (d : CheckDefault) : Setting → Bool
  | .null => d.enabled
  | s => s.isTruthy

def enter (d : CheckDefault) (on : Bool) : CheckDefault := ⟨on, d.enabled :: d.saved⟩

def exit (d : CheckDefault) : Except Refusal CheckDefault :=
  match d.saved with
  | before :: rest => .ok ⟨before, rest⟩
  | [] => .error .noContext

end CheckDefault

end BoxSearch
