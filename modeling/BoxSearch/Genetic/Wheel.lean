import BoxSearch.Cost
import BoxSearch.Draw

/-!
# Wheel — selection in proportion to rank

Among `N` costs the cheapest has weight `N` and the dearest weight 1; of equal costs the earlier one
has the greater weight. The wheel holds the running sums of the weights, and a spin selects the
first place whose running sum it does not exceed.
-/

namespace BoxSearch

variable {α : Type} [Scalar α]

def rankWeights (costs : List (Cost α)) : List Nat :=
  let order := Cost.rankedPlaces costs
  (List.range costs.length).map fun i => costs.length - order.idxOf i

namespace Wheel

def ofWeights : (sum : Nat) → List Nat → List Nat
  | _, [] => []
  | sum, w :: rest => (sum + w) :: ofWeights (sum + w) rest

def ofCosts (costs : List (Cost α)) : List Nat := ofWeights 0 (rankWeights costs)

def select (wheel : List Nat) (spin : α) : Nat :=
  min ((wheel.takeWhile fun w => !decide (spin ≤ Scalar.ofNat w)).length) (wheel.length - 1)

def selectAt (wheel : List Nat) (u : α) : Nat :=
  select wheel (u * Scalar.ofNat (wheel.getLast?.getD 0))

def spin {σ : Type} [DrawSource σ α] (wheel : List Nat) : StateM σ Nat := do
  let u : α ← DrawSource.uniform
  pure (selectAt wheel u)

end Wheel

end BoxSearch
