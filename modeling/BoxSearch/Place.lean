/-!
# Place — places in a row

A place is given by an integer. Places below zero count from the end of the row, so that the last
one is also the place minus one.
-/

namespace BoxSearch.Place

def inRow (length : Nat) (place : Int) : Option Nat :=
  -- The place in a row of the given length, if it exists.
  if 0 ≤ place then
    if place < length then some place.toNat else none
  else if -(length : Int) ≤ place then some (place + length).toNat
  else none

theorem inRow_lt {length i : Nat} {place : Int} (h : inRow length place = some i) : i < length := by
  unfold inRow at h
  split at h
  · split at h <;> simp at h
    omega
  · split at h <;> simp at h
    omega

/-- A place from the start of the row counts as it is. -/
theorem inRow_natCast {length i : Nat} (h : i < length) : inRow length i = some i := by
  simp [inRow, h]

/-- Where a row of the given length is cut in two. -/
def ofCut (length : Nat) (place : Int) : Nat :=
  -- A cut beyond an end is at that end.
  if 0 ≤ place then min place.toNat length else (place + length).toNat

theorem ofCut_le (length : Nat) (place : Int) : ofCut length place ≤ length := by
  unfold ofCut
  split <;> omega

end BoxSearch.Place
