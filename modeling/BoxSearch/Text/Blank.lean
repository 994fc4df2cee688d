/-!
# Blank characters — what is stripped from both ends of a text

The characters of white space are the separators, the line breaks and the four information
separators. Around a numeral the information separators are not white space.
-/

namespace BoxSearch.Text

def isBlank (c : Char) : Bool :=
  let k := c.toNat
  (0x09 ≤ k && k ≤ 0x0d) || (0x1c ≤ k && k ≤ 0x20) || k == 0x85 || k == 0xa0 || k == 0x1680 ||
    (0x2000 ≤ k && k ≤ 0x200a) || k == 0x2028 || k == 0x2029 || k == 0x202f || k == 0x205f ||
    k == 0x3000

def isInformationSeparator (c : Char) : Bool := 0x1c ≤ c.toNat && c.toNat ≤ 0x1f

def isNumeralBlank (c : Char) : Bool := isBlank c && !isInformationSeparator c

/-- The text without the characters of a class at its two ends. -/
def strippedOf (blank : Char → Bool) (cs : List Char) : List Char :=
  ((cs.dropWhile blank).reverse.dropWhile blank).reverse

def stripped (cs : List Char) : List Char := strippedOf isBlank cs

theorem isBlank_of_isWhitespace (c : Char) (h : c.isWhitespace = true) : isBlank c = true := by
  simp only [Char.isWhitespace, Bool.or_eq_true, decide_eq_true_eq] at h
  rcases h with ((h | h) | h) | h <;> subst h <;> decide

end BoxSearch.Text
