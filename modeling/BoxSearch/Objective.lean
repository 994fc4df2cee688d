import BoxSearch.Cost
import BoxSearch.Point

/-!
# Objective — the function that a search minimizes

An objective answers a point with a cost, or fails. It also sees the number of the call, so that
answers that change from call to call are functions like any other.
-/

namespace BoxSearch

/-- The kinds of failure an objective may report. -/
inductive FailureKind where
  | badValue
  | atRunTime
  | arithmetic
  -- The point and the objective have different numbers of coordinates.
  | noCoordinate
  deriving DecidableEq, Repr

/-- A failure reported by an objective, with a message if it has one. -/
structure Failure where
  kind : FailureKind
  message : Option String := none
  deriving Repr

/-- The answer to a point at a call, calls being numbered from one. -/
abbrev Objective (α : Type) (n : Nat) := Point α n → Nat → Except Failure (Cost α)

end BoxSearch
