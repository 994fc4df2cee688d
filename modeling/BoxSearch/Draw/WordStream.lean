import BoxSearch.Draw

/-!
# Word stream — a source of doubles from 64-bit words

A counter advances by a fixed odd increment and each value is mixed into a word; the top 53 bits of
a word make a uniform double, and twelve of them, less six, a normal one. Numbers set aside in
advance are handed out first.
-/

namespace BoxSearch

/-- The counter, and the numbers to hand out before words are used. -/
structure WordStream where
  counter : UInt64
  uniforms : List Float
  normals : List Float

namespace WordStream

/-- The stream of a seed; only its remainder modulo the word size counts. -/
def ofSeed (seed : Nat) : WordStream := ⟨UInt64.ofNat seed, [], []⟩

def preload (s : WordStream) (uniforms normals : List Float) : WordStream :=
  { s with uniforms, normals }

def mix (z : UInt64) : UInt64 :=
  let z := (z ^^^ (z >>> 30)) * 0xBF58476D1CE4E5B9
  let z := (z ^^^ (z >>> 27)) * 0x94D049BB133111EB
  z ^^^ (z >>> 31)

def fromWord (s : WordStream) : Float × WordStream :=
  let counter := s.counter + 0x9E3779B97F4A7C15
  ((mix counter >>> 11).toFloat / 9007199254740992.0, { s with counter })

/-- The sum of `k` uniform doubles from words, added to `acc` one by one. -/
def sumOfWords : Nat → Float → WordStream → Float × WordStream
  | 0, acc, s => (acc, s)
  | k + 1, acc, s =>
    let (u, s) := s.fromWord
    sumOfWords k (acc + u) s

def nextUniform (s : WordStream) : Float × WordStream :=
  match s.uniforms with
  | u :: rest => (u, { s with uniforms := rest })
  | [] => s.fromWord

def nextNormal (s : WordStream) : Float × WordStream :=
  match s.normals with
  | z :: rest => (z, { s with normals := rest })
  | [] =>
    let (total, s) := sumOfWords 12 0.0 s
    (total - 6.0, s)

instance : DrawSource WordStream Float where
  uniform := nextUniform
  normal := nextNormal
  -- Words are drawn from any range: one without integers gives the integer before it.
  checksRanges := false

end WordStream

end BoxSearch
