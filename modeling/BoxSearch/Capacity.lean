import BoxSearch.Engine

/-!
# Capacity — what fits into memory

A table is laid out as a whole before it is filled. Its size in bytes has to be a signed word of 64
bits, and there has to be room for it. A search with a population lays out a row for every member,
an informed swarm the four informants of every particle as well.
-/

namespace BoxSearch.Capacity

def numberBytes : Nat := 8

def room : Nat := 137438953472

variable {α : Type} {n : Nat}

def table (rows cols : Nat) : Usable α Unit :=
  let bytes := rows * cols * numberBytes
  if 9223372036854775808 ≤ bytes then .error .tooManyNumbers
  else if room ≤ bytes then .error .outOfMemory
  else .ok ()

variable [Scalar α]

def torus (count : Nat) : Usable α Torus :=
  -- The count has to be a scalar to have a root.
  if Scalar.isFinite (Scalar.ofNat count : α) then do
    let g := Torus.ofCount count
    table g.size 4
    .ok g
  else .error .overflow

def engine : Engine α n → Usable α Unit
  | .swarm p _ => do
    if p.rule = .informed then
      let _ ← torus p.count
    table p.size n
  | .genetic p _ _ => table p.size n
  | .evolution p _ => table p.size n
  | _ => .ok ()

end BoxSearch.Capacity
