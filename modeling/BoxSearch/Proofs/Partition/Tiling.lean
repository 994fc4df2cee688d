import Mathlib
import BoxSearch.Partition
import BoxSearch.Proofs.Exact

/-!
# Tilings — cells that fit together

In exact arithmetic a cell is a box of the unit cube.  Some cells tile another one when they lie
inside it, have no inner point in common, leave nothing out, and have its volume together.  Cutting
one side of a cell in three tiles the cell, a piece of a tiling may be replaced by a tiling of that
piece, and so cutting several sides one after the other tiles the cell as well.
-/

namespace BoxSearch.Partition

variable {n : ℕ}

/-! ## 1. Boxes -/

namespace Cell

/-- The points of a cell. -/
def box (c : Cell ℝ n) : Set (Fin n → ℝ) := {x | ∀ i, |x i - c.center.get i| ≤ 0.5 * c.side i}

/-- The volume of a cell. -/
noncomputable def volume (c : Cell ℝ n) : ℝ := Scalar.thirds c.level

/-- A third of a cell that is cut along one side: the middle one, moved by `offset`. -/
noncomputable def third (c : Cell ℝ n) (i : Fin n) (offset k : ℝ) : Cell ℝ n :=
  ⟨c.cuts.set i.val (c.cuts.get i + 1) i.isLt, c.shifted i offset, k⟩

theorem thirds_add_one (k : ℤ) : (Scalar.thirds (k + 1) : ℝ) = Scalar.thirds k / 3 := by
  have h3 : (3 : ℝ) ≠ 0 := by norm_num
  rw [Scalar.thirds_real, Scalar.thirds_real, neg_add, ← sub_eq_add_neg, zpow_sub_one₀ h3,
    div_eq_mul_inv]

theorem side_pos (c : Cell ℝ n) (i : Fin n) : 0 < c.side i := by
  unfold side
  rw [Scalar.thirds_real]
  positivity

theorem side_third (c : Cell ℝ n) (i j : Fin n) (offset k : ℝ) :
    (c.third i offset k).side j = if i = j then c.side i / 3 else c.side j := by
  unfold side third
  rw [Point.get_set]
  split_ifs
  · exact thirds_add_one _
  · rfl

theorem center_third (c : Cell ℝ n) (i j : Fin n) (offset k : ℝ) :
    (c.third i offset k).center.get j =
      if i = j then c.center.get i + offset else c.center.get j := by
  unfold third shifted
  rw [Point.get_set]

/-- A third is as long as its cell, except along the side that was cut. -/
theorem mem_box_third (c : Cell ℝ n) (i : Fin n) (offset k : ℝ) (x : Fin n → ℝ) :
    x ∈ (c.third i offset k).box ↔
      |x i - (c.center.get i + offset)| ≤ 0.5 * (c.side i / 3) ∧
        ∀ j, i ≠ j → |x j - c.center.get j| ≤ 0.5 * c.side j := by
  constructor
  · intro h
    constructor
    · have hi := h i
      rwa [side_third, center_third, if_pos rfl, if_pos rfl] at hi
    · intro j hj
      have hother := h j
      rwa [side_third, center_third, if_neg hj, if_neg hj] at hother
  · rintro ⟨hi, hother⟩ j
    rw [side_third, center_third]
    by_cases hj : i = j
    · subst hj
      rw [if_pos rfl, if_pos rfl]
      exact hi
    · rw [if_neg hj, if_neg hj]
      exact hother j hj

theorem level_eq_sum (c : Cell ℝ n) : c.level = c.cuts.toList.sum := List.sum_eq_foldl.symm

theorem level_third (c : Cell ℝ n) (i : Fin n) (offset k : ℝ) :
    (c.third i offset k).level = c.level + 1 := by
  have hi : i.val < c.cuts.toList.length := by rw [Vector.length_toList]; exact i.isLt
  have hget : c.cuts.toList[i.val] = c.cuts.get i := Vector.getElem_toList _
  rw [level_eq_sum, level_eq_sum]
  unfold third
  rw [Vector.toList_set, List.sum_set', dif_pos hi, hget]
  omega

theorem volume_third (c : Cell ℝ n) (i : Fin n) (offset k : ℝ) :
    (c.third i offset k).volume = c.volume / 3 := by
  unfold volume
  rw [level_third]
  exact thirds_add_one c.level

theorem box_whole (k : ℝ) : (Cell.whole k : Cell ℝ n).box = Set.Icc 0 1 := by
  ext x
  have hside (i : Fin n) : (Cell.whole k : Cell ℝ n).side i = 1 := by
    unfold side whole
    rw [Point.get_ofFn, Scalar.thirds_real, neg_zero, zpow_zero]
  have hcenter (i : Fin n) : (Cell.whole k : Cell ℝ n).center.get i = 1 / 2 := by
    unfold whole Point.fill
    rw [Point.get_ofFn]
    norm_num
  constructor
  · intro h
    constructor
    · intro i
      have hi := abs_le.mp (h i)
      rw [hside, hcenter] at hi
      show 0 ≤ x i
      linarith [hi.1]
    · intro i
      have hi := abs_le.mp (h i)
      rw [hside, hcenter] at hi
      show x i ≤ 1
      linarith [hi.2]
  · rintro ⟨hlo, hhi⟩ i
    have hlo' : 0 ≤ x i := hlo i
    have hhi' : x i ≤ 1 := hhi i
    rw [hside, hcenter]
    exact abs_le.mpr ⟨by linarith, by linarith⟩

theorem volume_whole (k : ℝ) : (Cell.whole k : Cell ℝ n).volume = 1 := by
  have hlevel : (Cell.whole k : Cell ℝ n).level = 0 := by
    rw [level_eq_sum]
    unfold whole
    rw [Vector.toList_ofFn, List.sum_ofFn, Finset.sum_const_zero]
  unfold volume
  rw [hlevel, Scalar.thirds_real, neg_zero, zpow_zero]

end Cell

/-! ## 2. Tilings -/

/-- The cells fit together to another one. -/
structure Tiles (parent : Cell ℝ n) (cells : List (Cell ℝ n)) : Prop where
  inside : ∀ c ∈ cells, c.box ⊆ parent.box
  apart : cells.Pairwise fun a b => Disjoint (interior a.box) (interior b.box)
  covers : ∀ x ∈ parent.box, ∃ c ∈ cells, x ∈ c.box
  volume : (cells.map Cell.volume).sum = parent.volume

namespace Tiles

variable {parent c : Cell ℝ n} {cells cells' : List (Cell ℝ n)}

theorem self (cuts : Vector ℤ n) (center : Point ℝ n) (k k' : ℝ) :
    Tiles ⟨cuts, center, k⟩ [⟨cuts, center, k'⟩] where
  inside c hc := by
    rw [List.mem_singleton.mp hc]
    exact Set.Subset.rfl
  apart := List.pairwise_singleton _ _
  covers x hx := ⟨_, List.mem_singleton_self _, hx⟩
  volume := by
    rw [List.map_singleton, List.sum_singleton]
    rfl

/-- The order of the cells does not matter. -/
theorem perm (h : Tiles parent cells) (hperm : cells.Perm cells') : Tiles parent cells' where
  inside c hc := h.inside c (hperm.mem_iff.mpr hc)
  apart := h.apart.perm hperm fun hab => hab.symm
  covers x hx := by
    obtain ⟨c, hc, hmem⟩ := h.covers x hx
    exact ⟨c, hperm.mem_iff.mp hc, hmem⟩
  volume := by rw [← (hperm.map Cell.volume).sum_eq, h.volume]

/-- A cell of a tiling is replaced by cells that tile it. -/
theorem replace (h : Tiles parent (c :: cells)) (hc : Tiles c cells') :
    Tiles parent (cells' ++ cells) where
  inside d hd := by
    rcases List.mem_append.mp hd with hnew | hold
    · exact (hc.inside d hnew).trans (h.inside c List.mem_cons_self)
    · exact h.inside d (List.mem_cons_of_mem c hold)
  apart := by
    obtain ⟨hfirst, hrest⟩ := List.pairwise_cons.mp h.apart
    have hacross : ∀ a ∈ cells', ∀ b ∈ cells, Disjoint (interior a.box) (interior b.box) := by
      intro a ha b hb
      -- An inner point of a new cell is one of the replaced cell.
      exact (hfirst b hb).mono_left (interior_mono (hc.inside a ha))
    exact List.pairwise_append.mpr ⟨hc.apart, hrest, hacross⟩
  covers x hx := by
    obtain ⟨d, hd, hmem⟩ := h.covers x hx
    rcases List.mem_cons.mp hd with rfl | hold
    · obtain ⟨e, he, hxe⟩ := hc.covers x hmem
      exact ⟨e, List.mem_append_left _ he, hxe⟩
    · exact ⟨d, List.mem_append_right _ hold, hmem⟩
  volume := by
    have hsum := h.volume
    rw [List.map_cons, List.sum_cons, ← hc.volume] at hsum
    rw [List.map_append, List.sum_append, hsum]

end Tiles

/-! ## 3. One side cut in three -/

/-- Boxes on the two sides of a plane have no inner point in common. -/
theorem disjoint_interior_of_le {s s' : Set (Fin n → ℝ)} {i : Fin n} {b : ℝ}
    (h : ∀ x ∈ s, x i ≤ b) (h' : ∀ x ∈ s', b ≤ x i) : Disjoint (interior s) (interior s') := by
  have hbelow : interior s ⊆ Set.preimage (Function.eval i) (Set.Iio b) := by
    rw [← interior_Iic,
      (isOpenMap_eval i).preimage_interior_eq_interior_preimage (continuous_apply i)]
    exact interior_mono h
  rw [Set.disjoint_left]
  intro x hx hx'
  exact absurd (hbelow hx) (not_lt.mpr (h' x (interior_subset hx')))

theorem tiles_thirds (c : Cell ℝ n) (i : Fin n) (k l r : ℝ) :
    Tiles c [c.third i 0 k, c.third i (-(c.side i / 3)) l, c.third i (c.side i / 3) r] where
  inside d hd x hx j := by
    have hside := c.side_pos i
    simp only [List.mem_cons, List.not_mem_nil, or_false] at hd
    by_cases hj : i = j
    · subst hj
      rcases hd with rfl | rfl | rfl
      all_goals
        have hi := abs_le.mp ((c.mem_box_third i _ _ x).mp hx).1
        exact abs_le.mpr ⟨by linarith [hi.1], by linarith [hi.2]⟩
    · rcases hd with rfl | rfl | rfl
      all_goals exact ((c.mem_box_third i _ _ x).mp hx).2 j hj
  apart := by
    -- The planes a sixth of the side away from the centre separate the thirds.
    have hlow (x : Fin n → ℝ) (hx : x ∈ (c.third i (-(c.side i / 3)) l).box) :
        x i ≤ c.center.get i - c.side i / 3 / 2 := by
      have hi := abs_le.mp ((c.mem_box_third i _ _ x).mp hx).1
      linarith [hi.2]
    have hmid (x : Fin n → ℝ) (hx : x ∈ (c.third i 0 k).box) :
        c.center.get i - c.side i / 3 / 2 ≤ x i ∧ x i ≤ c.center.get i + c.side i / 3 / 2 := by
      have hi := abs_le.mp ((c.mem_box_third i _ _ x).mp hx).1
      exact ⟨by linarith [hi.1], by linarith [hi.2]⟩
    have hhigh (x : Fin n → ℝ) (hx : x ∈ (c.third i (c.side i / 3) r).box) :
        c.center.get i + c.side i / 3 / 2 ≤ x i := by
      have hi := abs_le.mp ((c.mem_box_third i _ _ x).mp hx).1
      linarith [hi.1]
    have hlowmid := disjoint_interior_of_le hlow fun x hx => (hmid x hx).1
    have hmidhigh := disjoint_interior_of_le (fun x hx => (hmid x hx).2) hhigh
    have hlowhigh := disjoint_interior_of_le hlow fun x hx => by
      linarith [hhigh x hx, c.side_pos i]
    simp only [List.pairwise_cons, List.mem_cons, List.not_mem_nil, or_false]
    refine ⟨?_, ?_, fun a ha => ha.elim, List.Pairwise.nil⟩
    · rintro a (rfl | rfl)
      · exact hlowmid.symm
      · exact hmidhigh
    · rintro a rfl
      exact hlowhigh
  covers x hx := by
    -- A point is in the third whose side of the two planes it is on.
    have hi := abs_le.mp (hx i)
    have hother : ∀ j, i ≠ j → |x j - c.center.get j| ≤ 0.5 * c.side j := fun j _ => hx j
    by_cases hlow : x i ≤ c.center.get i - c.side i / 3 / 2
    · have hx' : |x i - (c.center.get i + -(c.side i / 3))| ≤ 0.5 * (c.side i / 3) :=
        abs_le.mpr ⟨by linarith [hi.1], by linarith⟩
      exact ⟨c.third i (-(c.side i / 3)) l, by simp, (c.mem_box_third i _ _ x).mpr ⟨hx', hother⟩⟩
    by_cases hhigh : c.center.get i + c.side i / 3 / 2 ≤ x i
    · have hx' : |x i - (c.center.get i + c.side i / 3)| ≤ 0.5 * (c.side i / 3) :=
        abs_le.mpr ⟨by linarith, by linarith [hi.2]⟩
      exact ⟨c.third i (c.side i / 3) r, by simp, (c.mem_box_third i _ _ x).mpr ⟨hx', hother⟩⟩
    · have hx' : |x i - (c.center.get i + 0)| ≤ 0.5 * (c.side i / 3) :=
        abs_le.mpr ⟨by linarith, by linarith⟩
      exact ⟨c.third i 0 k, by simp, (c.mem_box_third i _ _ x).mpr ⟨hx', hother⟩⟩
  volume := by
    simp only [List.map_cons, List.map_nil, List.sum_cons, List.sum_nil, Cell.volume_third]
    ring

/-! ## 4. Several sides -/

/-- The samples lie a step away from the centre of the cell, on both sides of it. -/
structure Probe.Flanks (s : Probe ℝ n) (c : Cell ℝ n) (step : ℝ) : Prop where
  left : s.left.1 = c.shifted s.dimension (-step)
  right : s.right.1 = c.shifted s.dimension step

theorem Cell.shifted_zero (c : Cell ℝ n) (i : Fin n) : c.shifted i 0 = c.center := by
  unfold shifted
  rw [add_zero]
  exact Vector.set_getElem_self _

/-- Equally long sides of a cell are cut one after the other, in any order.  The middle keeps all the
cuts, and what is cut off keeps those made so far. -/
theorem tiles_cut (c : Cell ℝ n) (k step : ℝ) (probes : List (Probe ℝ n))
    (hdimensions : (probes.map (·.dimension)).Nodup) (hflanks : ∀ s ∈ probes, s.Flanks c step)
    (hsides : ∀ s ∈ probes, c.side s.dimension / 3 = step) :
    Tiles c (⟨(cut probes c.cuts).1, c.center, k⟩ :: (cut probes c.cuts).2) := by
  induction probes generalizing c with
  | nil => exact Tiles.self c.cuts c.center c.cost k
  | cons s rest ih =>
    obtain ⟨hfresh, hrest⟩ := List.nodup_cons.mp hdimensions
    have hstep : c.side s.dimension / 3 = step := hsides s List.mem_cons_self
    have hs : s.Flanks c step := hflanks s List.mem_cons_self
    -- The middle third has the same centre, and the remaining sides are cut from it.
    have hmiddle : (c.third s.dimension 0 k).center = c.center := c.shifted_zero s.dimension
    have hcut : Tiles (c.third s.dimension 0 k)
        (⟨(cut rest (c.third s.dimension 0 k).cuts).1, c.center, k⟩ ::
          (cut rest (c.third s.dimension 0 k).cuts).2) := by
      rw [← hmiddle]
      apply ih _ hrest
      · intro s' hs'
        have hflank := hflanks s' (List.mem_cons_of_mem s hs')
        constructor
        · rw [hflank.left]
          unfold Cell.shifted
          rw [hmiddle]
        · rw [hflank.right]
          unfold Cell.shifted
          rw [hmiddle]
      · intro s' hs'
        have hother : s.dimension ≠ s'.dimension := by
          intro heq
          exact hfresh (List.mem_map.mpr ⟨s', hs', heq.symm⟩)
        rw [Cell.side_third, if_neg hother]
        exact hsides s' (List.mem_cons_of_mem s hs')
    have hthirds := (tiles_thirds c s.dimension k s.left.2 s.right.2).replace hcut
    rw [hstep] at hthirds
    unfold Cell.third at hthirds
    rw [← hs.left, ← hs.right] at hthirds
    exact hthirds.perm (List.Perm.cons _ List.perm_append_comm)

/-! ## 5. A division -/

/-- A cell of a tiling is cut: the middle takes its place, the rest is appended. -/
theorem Tiles.set_append {parent c middle : Cell ℝ n} {cells new : List (Cell ℝ n)} {place : ℕ}
    (h : Tiles parent cells) (hc : cells[place]? = some c) (hnew : Tiles c (middle :: new)) :
    Tiles parent (cells.set place middle ++ new) := by
  obtain ⟨hplace, hget⟩ := List.getElem?_eq_some_iff.mp hc
  have hold : cells.Perm (c :: cells.eraseIdx place) := by
    rw [← hget]
    exact (List.getElem_cons_eraseIdx_perm hplace).symm
  have hset : (cells.set place middle).Perm (middle :: cells.eraseIdx place) :=
    List.set_perm_cons_eraseIdx hplace middle
  have hswap : (middle :: new ++ cells.eraseIdx place).Perm
      (middle :: cells.eraseIdx place ++ new) := List.perm_append_comm.cons middle
  exact ((h.perm hold).replace hnew).perm (hswap.trans (hset.append_right new).symm)

theorem Cell.side_of_longest {c : Cell ℝ n} {i : Fin n} (h : i ∈ c.longestSides) :
    c.side i / 3 = Scalar.thirds (c.fewestCuts + 1) := by
  have hcuts : c.cuts.get i = c.fewestCuts := by
    unfold longestSides at h
    exact eq_of_beq (List.mem_filter.mp h).2
  unfold side
  rw [hcuts, thirds_add_one]

theorem Cell.nodup_longestSides (c : Cell ℝ n) : c.longestSides.Nodup :=
  (List.nodup_finRange n).filter _

end BoxSearch.Partition
