/-!
# Case folding — names without regard to case

Names are compared with names of ASCII letters, so folding has to be right on the characters that
fold to such letters: the ASCII letters, the Kelvin sign, which is a capital k, and for capitals the
dotless i and the long s. Any other character stays as it is and matches no letter.
-/

namespace BoxSearch.Text

def lowerChar (c : Char) : Char := if c = '\u212a' then 'k' else c.toLower

def upperChar (c : Char) : Char :=
  if c = '\u0131' then 'I' else if c = '\u017f' then 'S' else c.toUpper

def lower (s : String) : String := String.ofList (s.toList.map lowerChar)

def upper (s : String) : String := String.ofList (s.toList.map upperChar)

end BoxSearch.Text
