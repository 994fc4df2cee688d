import BoxSearch.Genetic.Wheel

/-!
# Ranks of a grid of costs

A row of costs gives every place its weight by rank. In a grid of more directions each line along
the last direction is ranked, and the weights go to as many places as there are rows: the lines
have to have that length, and the last of them decides.
-/

namespace BoxSearch

variable {α : Type} [Scalar α]

/-- The weights of the places of a grid of costs. -/
def rankWeightsOfGrid (costs : Grid (Cost α)) : Usable α (List Nat) :=
  match costs.shape with
  -- A single cost has no places.
  | [] => .error .notNumber
  | size :: rest =>
    let length := rest.getLast?.getD size
    if length = size then .ok (rankWeights (costs.values.drop (costs.values.length - length)))
    else if size = 1 then .error .noSuchMember
    else .error .misshapen

end BoxSearch
