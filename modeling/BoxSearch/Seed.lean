import BoxSearch.Request

/-!
# Seed — what may seed a source of draws

A seed is a natural number, and a flag counts as one. Anything else is refused. A list is refused
like the first of its items that cannot be a word of a seed, or, if all of them can, for being a
list.
-/

namespace BoxSearch.Seed

def isHexDigit (c : Char) : Bool :=
  c.isDigit || (decide ('a' ≤ c) && decide (c ≤ 'f')) || (decide ('A' ≤ c) && decide (c ≤ 'F'))

/-- Whether a text spells a word of a seed: a decimal numeral that starts with a digit, or
hexadecimal digits behind their sign. -/
def isWord (s : String) : Bool :=
  match s.toList with
  | '0' :: 'x' :: digits => !digits.isEmpty && digits.all isHexDigit
  | c :: _ => c.isDigit && (Text.readWhole? s).isSome
  | [] => false

mutual

def wordFault? : Setting → Option Refusal
  | .whole k => if k < 0 then some .negativeSeed else none
  -- A flag counts as zero or one.
  | .flag _ => none
  | .text s => if isWord s then none else some (.setting .notNumeral)
  | .list items => firstFault? items
  | .table entries =>
    (entries.find? fun entry => !isWord entry.1).map fun _ => .setting .notNumeral
  | _ => some .seedNotWhole

/-- Why the first of some items that cannot be a word of a seed cannot. -/
def firstFault? : List Setting → Option Refusal
  | [] => none
  | item :: rest => wordFault? item <|> firstFault? rest

end

def read : Setting → Reporting Nat
  | .whole k => if k < 0 then throw .negativeSeed else pure k.toNat
  | .flag b => pure b.toNat
  | .list items => throw ((firstFault? items).getD .seedNotWhole)
  | _ => throw .seedNotWhole

end BoxSearch.Seed
