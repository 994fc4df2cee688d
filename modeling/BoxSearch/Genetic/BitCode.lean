import BoxSearch.Search

/-!
# Bit code — integers as rows of bits

A natural number below `2 ^ length` is coded on `length` bits, the most significant one first.
-/

namespace BoxSearch.BitCode

/-- The bits of `value`, most significant first; higher bits than these are dropped. -/
def bits : (length : Nat) → (value : Nat) → List Bool
  | 0, _ => []
  | length + 1, value => value.testBit length :: bits length value

def value (bits : List Bool) : Nat := bits.foldl (fun v b => 2 * v + b.toNat) 0

def disjunction (a b : Int) : Int :=
  match a, b with
  | .ofNat x, .ofNat y => (x ||| y : Nat)
  | .negSucc x, .ofNat y => .negSucc (x - (x &&& y))
  | .ofNat x, .negSucc y => .negSucc (y - (y &&& x))
  | .negSucc x, .negSucc y => .negSucc (x &&& y)

/-- The number that a row of digits codes: each digit is merged into the doubled number before it,
so that on bits this is `value`. -/
def merge (digits : List Int) : Int := digits.foldl (fun v d => disjunction (2 * v) d) 0

def encode {α : Type} (value : Int) (length : Nat) : Except (Fault α) (List Bool) :=
  if value < 0 ∨ (Nat.pow 2 length : Int) ≤ value then .error (.uncodable value length)
  else .ok (bits length value.toNat)

/-- The number of bits that code every integer from zero to `span`. -/
def lengthFor (span : Nat) : Nat := max (if span = 0 then 0 else span.log2 + 1) 1

def toInteger {α : Type} [Scalar α] (x : α) : Usable α Int :=
  (Usable.finite x).map fun x => Scalar.floor (Scalar.nearest x)

def lengthForWidth {α : Type} [Scalar α] (width : α) : Except (Fault α) Nat := do
  let span ← toInteger width
  if span < 0 then .error (.negativeSpan span) else .ok (lengthFor span.toNat)

end BoxSearch.BitCode
