import Mathlib
import BoxSearch.Proofs.Feasible.Projection
import BoxSearch.Rotation

/-!
# The unit cube of a region

The box of a region and the unit cube are mapped to each other coordinate by coordinate.  The map into
the box is monotone and takes zero and one to the bounds, so that clamping to the box is clamping to the
unit interval; where a variable has some width, the map into the cube undoes it.  A variable without
width has one value in the box, and is zero in the cube.
-/

namespace BoxSearch

namespace Region

variable {n : ℕ} (r : Region ℝ n)

/-! ## 1. One coordinate -/

theorem width_nonneg (i : Fin n) : 0 ≤ r.width i := sub_nonneg.mpr (r.ordered i)

theorem lower_add_width (i : Fin n) : r.lower.get i + r.width i = r.upper.get i :=
  add_sub_cancel _ _

theorem toUnitAt_real (i : Fin n) (v : ℝ) :
    r.toUnitAt i v = if 0 < r.width i then (v - r.lower.get i) / r.width i else 0 := by
  unfold toUnitAt
  rw [Scalar.zero_real]

theorem toUnitAt_mem_Icc {i : Fin n} {v : ℝ} (hv : r.lower.get i ≤ v ∧ v ≤ r.upper.get i) :
    0 ≤ r.toUnitAt i v ∧ r.toUnitAt i v ≤ 1 := by
  rw [toUnitAt_real]
  split_ifs with hwidth
  · exact ⟨div_nonneg (sub_nonneg.mpr hv.1) hwidth.le,
      (div_le_one hwidth).mpr (sub_le_sub_right hv.2 _)⟩
  · exact ⟨le_rfl, zero_le_one⟩

theorem atFraction_mono (i : Fin n) : Monotone (r.atFraction i) :=
  fun _ _ h => add_le_add_right (mul_le_mul_of_nonneg_right h (r.width_nonneg i)) _

theorem atFraction_zero (i : Fin n) : r.atFraction i 0 = r.lower.get i := by
  rw [atFraction, zero_mul, add_zero]

theorem atFraction_one (i : Fin n) : r.atFraction i 1 = r.upper.get i := by
  rw [atFraction, one_mul, lower_add_width]

/-- A value of the box is found again at its fraction of the width. -/
theorem atFraction_toUnitAt {i : Fin n} {v : ℝ} (hv : r.lower.get i ≤ v ∧ v ≤ r.upper.get i) :
    r.atFraction i (r.toUnitAt i v) = v := by
  rw [toUnitAt_real]
  split_ifs with hwidth
  · rw [atFraction, div_mul_cancel₀ _ hwidth.ne', add_sub_cancel]
  · -- There is no other value in the box.
    have hsame := r.lower_add_width i
    have hzero := le_antisymm (not_lt.mp hwidth) (r.width_nonneg i)
    rw [atFraction_zero]
    linarith

/-- A fraction is found again from its value, unless there is no width. -/
theorem toUnitAt_atFraction (i : Fin n) (u : ℝ) :
    r.toUnitAt i (r.atFraction i u) = if 0 < r.width i then u else 0 := by
  rw [toUnitAt_real]
  split_ifs with hwidth
  · rw [atFraction, add_sub_cancel_left, mul_div_cancel_right₀ _ hwidth.ne']
  · rfl

/-- Clamping to the box is clamping the fraction to the unit interval. -/
theorem clampAt_atFraction (i : Fin n) (u : ℝ) :
    r.clampAt i (r.atFraction i u) = r.atFraction i (Scalar.clamp 0 1 u) := by
  rw [Scalar.map_clamp (r.atFraction_mono i) zero_le_one, atFraction_zero, atFraction_one]
  rfl

/-! ## 2. Points -/

theorem get_toUnit (x : Point ℝ n) (i : Fin n) : (r.toUnit x).get i = r.toUnitAt i (x.get i) := by
  rw [toUnit, Point.get_ofFn]

theorem get_ofUnit (u : Point ℝ n) (i : Fin n) :
    (r.ofUnit u).get i = r.atFraction i (Scalar.clamp 0 1 (u.get i)) := by
  rw [ofUnit, clamp, Point.get_ofFn, Point.get_ofFn, clampAt_atFraction]

theorem ofUnit_mem_box (u : Point ℝ n) (i : Fin n) :
    r.lower.get i ≤ (r.ofUnit u).get i ∧ (r.ofUnit u).get i ≤ r.upper.get i := by
  rw [ofUnit, clamp, Point.get_ofFn]
  exact r.clampAt_mem_Icc i _

theorem ofUnit_mono {u v : Point ℝ n} {i : Fin n} (h : u.get i ≤ v.get i) :
    (r.ofUnit u).get i ≤ (r.ofUnit v).get i := by
  rw [get_ofUnit, get_ofUnit]
  exact r.atFraction_mono i (Scalar.clamp_mono zero_le_one h)

theorem ofUnit_toUnit {x : Point ℝ n} (hx : ∀ i, r.lower.get i ≤ x.get i ∧ x.get i ≤ r.upper.get i) :
    r.ofUnit (r.toUnit x) = x := by
  apply Point.ext_get
  intro i
  obtain ⟨hzero, hone⟩ := r.toUnitAt_mem_Icc (hx i)
  rw [get_ofUnit, get_toUnit, Scalar.clamp_eq_max_min zero_le_one, min_eq_right hone,
    max_eq_right hzero, r.atFraction_toUnitAt (hx i)]

theorem get_toUnit_ofUnit (u : Point ℝ n) (i : Fin n) : (r.toUnit (r.ofUnit u)).get i =
    if 0 < r.width i then max 0 (min 1 (u.get i)) else 0 := by
  rw [get_toUnit, get_ofUnit, toUnitAt_atFraction, Scalar.clamp_eq_max_min zero_le_one]

/-- A move of no length leads back to the point it starts from. -/
theorem trialPoint_fill_zero {x : Point ℝ n} (hx : r.Feasible x) :
    Rotation.trialPoint r (r.toUnit x) (Point.fill n 0) = x := by
  have hstill : (Vector.ofFn fun i =>
      Scalar.clamp 0.0 1.0 ((r.toUnit x).get i + (Point.fill n 0 : Point ℝ n).get i)) = r.toUnit x := by
    apply Point.ext_get
    intro i
    obtain ⟨hlo, hhi⟩ := r.toUnitAt_mem_Icc (hx.1 i)
    rw [Point.get_ofFn, Point.fill, Point.get_ofFn, add_zero, Scalar.zero_real, Scalar.one_real,
      get_toUnit, Scalar.clamp_eq_max_min zero_le_one, min_eq_right hhi, max_eq_right hlo]
  unfold Rotation.trialPoint
  rw [hstill, r.ofUnit_toUnit hx.1, r.repair_eq_self hx]

/-- A point of the box goes into the unit cube and comes back as it was; any fractions lead into the box,
larger ones not to smaller values, and come back clamped to the unit interval, or as zero where there is
no width.  So a search that moves its best point through the cube does not shift it, and rows of numbers
are mapped like points. -/
theorem unit_maps_inverse (r : Region ℝ n) :
    (∀ x : Point ℝ n, (∀ i, r.lower.get i ≤ x.get i ∧ x.get i ≤ r.upper.get i) →
      (∀ i, 0 ≤ (r.toUnit x).get i ∧ (r.toUnit x).get i ≤ 1) ∧ r.ofUnit (r.toUnit x) = x) ∧
    (∀ (u : Point ℝ n) (i : Fin n),
      r.lower.get i ≤ (r.ofUnit u).get i ∧ (r.ofUnit u).get i ≤ r.upper.get i) ∧
    (∀ (u v : Point ℝ n) (i : Fin n), u.get i ≤ v.get i → (r.ofUnit u).get i ≤ (r.ofUnit v).get i) ∧
    (∀ (u : Point ℝ n) (i : Fin n),
      (r.lower.get i < r.upper.get i →
        (r.toUnit (r.ofUnit u)).get i = max 0 (min 1 (u.get i))) ∧
      (r.lower.get i = r.upper.get i → (r.toUnit (r.ofUnit u)).get i = 0)) ∧
    (∀ x, r.Feasible x → Rotation.trialPoint r (r.toUnit x) (Point.fill n 0) = x) ∧
    ∀ x : Point ℝ n, r.toUnitGrid (.row x.toList) = .ok (.row (r.toUnit x).toList) ∧
      r.ofUnitGrid (.row x.toList) = .ok (.row (r.ofUnit x).toList) := by
  refine ⟨fun x hx => ⟨fun i => ?_, r.ofUnit_toUnit hx⟩, r.ofUnit_mem_box, fun u v i => r.ofUnit_mono,
    fun u i => ⟨fun hlt => ?_, fun heq => ?_⟩, fun x => r.trialPoint_fill_zero,
    fun x => ⟨r.toUnitGrid_row x, r.ofUnitGrid_row x⟩⟩
  · rw [get_toUnit]
    exact r.toUnitAt_mem_Icc (hx i)
  · rw [get_toUnit_ofUnit, if_pos]
    exact sub_pos.mpr hlt
  · rw [get_toUnit_ofUnit, if_neg]
    exact (sub_eq_zero.mpr heq.symm).not_gt

/-- An integer variable beyond its upper bound, a number within its bounds, and a variable without
width. -/
theorem unit_maps_inverse_mixed :
    (∀ i, mixed.lower.get i ≤ (#v[1, 1 / 2, 1] : Point ℝ 3).get i ∧
        (#v[1, 1 / 2, 1] : Point ℝ 3).get i ≤ mixed.upper.get i) ∧
      mixed.ofUnit (mixed.toUnit #v[1, 1 / 2, 1]) = #v[1, 1 / 2, 1] ∧
      (mixed.ofUnit #v[2, 1 / 4, 5]).get 1 ≤ (mixed.ofUnit #v[2, 3 / 4, 5]).get 1 ∧
      (mixed.toUnit (mixed.ofUnit #v[2, 1 / 4, 5])).get 0 = 1 ∧
      (mixed.toUnit (mixed.ofUnit #v[2, 1 / 4, 5])).get 1 = 1 / 4 ∧
      (mixed.toUnit (mixed.ofUnit #v[2, 1 / 4, 5])).get 2 = 0 ∧
      Rotation.trialPoint mixed (mixed.toUnit #v[1, 1 / 2, 1]) (Point.fill 3 0) =
        #v[1, 1 / 2, 1] := by
  obtain ⟨hback, -, hmono, hclamped, hstill, -⟩ := unit_maps_inverse mixed
  have hfeasible := mixed_feasible
  have hquarters : (1 / 4 : ℝ) ≤ 3 / 4 := by norm_num
  refine ⟨hfeasible.1, (hback _ hfeasible.1).2, hmono _ _ 1 hquarters, ?_, ?_,
    (hclamped _ 2).2 rfl, hstill _ hfeasible⟩
  · have hwidth : mixed.lower.get 0 < mixed.upper.get 0 := neg_lt_self zero_lt_one
    rw [(hclamped _ 0).1 hwidth]
    show max 0 (min 1 (2 : ℝ)) = 1
    norm_num
  · have hwidth : mixed.lower.get 1 < mixed.upper.get 1 := zero_lt_one
    rw [(hclamped _ 1).1 hwidth]
    show max 0 (min 1 (1 / 4 : ℝ)) = 1 / 4
    norm_num

end Region

end BoxSearch
