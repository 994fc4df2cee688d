import BoxSearch.Scalar

/-!
# Cost — what an objective answers

A cost is a finite scalar, one of the two infinities, or undefined. Costs compare as extended
numbers and an undefined cost compares with nothing; in a ranking it comes last. Rankings are
stable: equal costs keep their order.
-/

namespace BoxSearch

/-- An answer of the objective. -/
inductive Cost (α : Type) where
  | finite (value : α)
  | posInf
  | negInf
  | undefined
  deriving Repr

namespace Cost

variable {α : Type} [Scalar α]

def ofScalar (v : α) : Cost α :=
  if Scalar.isFinite v then finite v
  else if Scalar.isUndefined v then undefined
  else if v < 0.0 then negInf
  else posInf

def value? : Cost α → Option α
  | finite v => some v
  | _ => none

/-- A finite cost, or the positive infinity that stands for having none. -/
def ofOption : Option α → Cost α
  | some v => finite v
  | none => posInf

def below : Cost α → Cost α → Bool
  | finite a, finite b => decide (a < b)
  | finite _, posInf => true
  | negInf, finite _ => true
  | negInf, posInf => true
  | _, _ => false

/-- Strictly earlier in a ranking: by size, and anything defined before the undefined. -/
def before : Cost α → Cost α → Bool
  | undefined, _ => false
  | _, undefined => true
  | a, b => a.below b

def notAfter (a b : Cost α) : Bool := !b.before a

def rank {β : Type} (cost : β → Cost α) (items : List β) : List β :=
  items.mergeSort fun a b => (cost a).notAfter (cost b)

def rankedPlaces (costs : List (Cost α)) : List Nat :=
  (rank (fun item => item.1) costs.zipIdx).map (·.2)

@[simp] theorem length_rank {β : Type} (cost : β → Cost α) (items : List β) :
    (rank cost items).length = items.length :=
  List.length_mergeSort items

theorem rank_perm {β : Type} (cost : β → Cost α) (items : List β) :
    (rank cost items).Perm items :=
  List.mergeSort_perm items _

end Cost

end BoxSearch
