import Mathlib
import BoxSearch.Proofs.Feasible.Region
import BoxSearch.Region.OnGrid

/-!
# Points as rows

The maps of a region are also asked for grids of numbers.  On a row with one number for each variable
nothing is stretched, and the answer is the row of what the map makes of the point.
-/

namespace BoxSearch

/-! ## 1. Rows -/

namespace Grid

variable {β : Type}

theorem splitRows_one (bs : List β) : splitRows 1 bs.length bs = bs.map fun b => [b] := by
  induction bs with
  | nil => rfl
  | cons b rest ih => exact congrArg ([b] :: ·) ih

/-- A row is not stretched to its own length. -/
theorem stretch_row (bs : List β) : (row bs).stretch [bs.length] = row bs := by
  have hsingles : ((splitRows 1 bs.length bs).map (stretched [] [])).flatten = bs := by
    rw [splitRows_one, List.map_map]
    exact (List.flatMap_def ..).symm.trans (List.flatMap_singleton' bs)
  have hlengths : List.replicate ([bs.length].length - (row bs).shape.length) 1 ++ (row bs).shape =
      [bs.length] := rfl
  unfold stretch
  rw [hlengths, stretched]
  unfold row
  simp only [if_pos]
  exact congrArg _ hsingles

theorem pair?_row {γ : Type} {bs : List β} {cs : List γ} (h : bs.length = cs.length) :
    (row bs).pair? (row cs) = some (row (bs.zip cs)) := by
  have hshape : commonShape? (row bs).shape (row cs).shape = some [bs.length] := by
    unfold commonShape? row
    simp [commonLengths?, h]
  have hpair : (row bs).pair? (row cs) = some ⟨[bs.length],
      ((row bs).stretch [bs.length]).values.zip ((row cs).stretch [bs.length]).values⟩ := by
    unfold pair?
    rw [hshape]
    rfl
  rw [hpair, stretch_row, h, stretch_row]
  unfold row
  rw [List.length_zip, h, min_self]

theorem mapRows?_row {f : β → β} {bs : List β} {mask : List Bool} (h : bs.length = mask.length) :
    (row bs).mapRows? mask f =
      some (row ((bs.zip mask).map fun e => if e.2 then f e.1 else e.1)) := by
  have hvalues {F : List β × Bool → List β}
      (hF : ∀ b flag, F ([b], flag) = [if flag then f b else b]) :
      ((splitRows 1 bs.length bs).zip mask).flatMap F =
        (bs.zip mask).map fun e => if e.2 then f e.1 else e.1 := by
    rw [splitRows_one, List.zip_map_left, List.flatMap_map, List.map_eq_flatMap]
    congr 1
    funext e
    exact hF e.1 e.2
  have hvolume : volume [] = 1 := rfl
  unfold mapRows? row
  dsimp only
  rw [if_pos h, hvolume, hvalues]
  · rw [List.length_map, List.length_zip, ← h, min_self]
  · intro b flag
    cases flag <;> rfl

end Grid

/-! ## 2. Maps of a region -/

namespace Region

variable {α : Type} {n : ℕ}

theorem mapGrid_row (f : Fin n → α → α) (x : Point α n) :
    mapGrid f (.row x.toList) = .ok (.row (Vector.ofFn fun i => f i (x.get i)).toList) := by
  have hlength : x.toList.length = (List.finRange n).length := by
    rw [Vector.length_toList, List.length_finRange]
  have hvalues : (x.toList.zip (List.finRange n)).map (fun e => f e.2 e.1) =
      (Vector.ofFn fun i => f i (x.get i)).toList := by
    apply List.ext_getElem
    · simp
    · intro k _ _
      simp [Vector.get]
  unfold mapGrid
  rw [Grid.pair?_row hlength, ← hvalues]
  show Except.ok (Grid.mk _ _) = _
  unfold Grid.row
  rw [List.length_map]

variable [Scalar α] (r : Region α n)

theorem clampGrid_row (x : Point α n) :
    r.clampGrid (.row x.toList) = .ok (.row (r.clamp x).toList) := by
  unfold clampGrid
  rw [mapGrid_row]
  exact if_pos (by simp [Grid.row])

theorem roundGrid_row (x : Point α n) :
    r.roundGrid (.row x.toList) = .ok (.row (r.roundIntegers x).toList) := by
  unfold roundGrid
  split_ifs with h
  · have hlength : x.toList.length = r.integral.toList.length := by
      rw [Vector.length_toList, Vector.length_toList]
    have hvalues : (x.toList.zip r.integral.toList).map
        (fun e => if e.2 then Scalar.nearest e.1 else e.1) = (r.roundIntegers x).toList := by
      apply List.ext_getElem
      · simp
      · intro k _ _
        simp [roundIntegers, Vector.get]
    rw [Grid.mapRows?_row hlength, hvalues]
    rfl
  · rw [r.roundIntegers_eq_self h]

theorem repairGrid_row (x : Point α n) :
    r.repairGrid (.row x.toList) = .ok (.row (r.repair x).toList) := by
  unfold repairGrid
  rw [roundGrid_row]
  exact r.clampGrid_row _

theorem toUnitGrid_row (x : Point α n) :
    r.toUnitGrid (.row x.toList) = .ok (.row (r.toUnit x).toList) :=
  mapGrid_row r.toUnitAt x

theorem ofUnitGrid_row (u : Point α n) :
    r.ofUnitGrid (.row u.toList) = .ok (.row (r.ofUnit u).toList) := by
  unfold ofUnitGrid
  rw [mapGrid_row]
  exact r.clampGrid_row _

end Region

end BoxSearch
