import Mathlib
import BoxSearch.Partition
import BoxSearch.Proofs.Feasible.OnGrid

/-!
# Repair as a projection

To repair a point is to project it onto the region: the repaired point is feasible, and no feasible point
is nearer in any coordinate.  Rounding is monotone and keeps the whole bounds of an integer variable, so
it may come before clamping or after it.
-/

namespace BoxSearch

/-- A nearest integer; of two that are equally near, the even one. -/
def IsNearestWhole (v w : ℝ) : Prop :=
  ∃ k : ℤ, w = k ∧ (∀ m : ℤ, |w - v| ≤ |m - v|) ∧ ((∃ m : ℤ, m ≠ k ∧ |m - v| = |w - v|) → Even k)

theorem isNearestWhole_nearest (v : ℝ) : IsNearestWhole v (Scalar.nearest v) := by
  refine ⟨roundHalfEven v, rfl, roundHalfEven_closest v, ?_⟩
  rintro ⟨m, hm, hequal⟩
  rw [Scalar.nearest_real] at hequal
  -- Two integers are at least one apart, and the rounded one is at most half away.
  have hint : 1 ≤ |m - roundHalfEven v| := Int.one_le_abs (sub_ne_zero.mpr hm)
  have hreal : (1 : ℝ) ≤ |(m : ℝ) - roundHalfEven v| := by exact_mod_cast hint
  have htriangle := abs_sub_le (m : ℝ) v (roundHalfEven v)
  have hhalf := abs_roundHalfEven_sub_le v
  rw [abs_sub_comm v] at htriangle
  exact even_roundHalfEven_of_abs_sub (by linarith)

namespace Region

variable {n : ℕ} (r : Region ℝ n)

/-! ## 1. One coordinate -/

theorem abs_clampAt_sub_le {i : Fin n} {w : ℝ} (hw : r.lower.get i ≤ w ∧ w ≤ r.upper.get i) (v : ℝ) :
    |r.clampAt i v - v| ≤ |w - v| :=
  Scalar.abs_clamp_sub_le hw.1 hw.2 v

/-- No integer of the box is nearer to a number than the one that it is clamped and rounded to. -/
theorem abs_nearest_clampAt_sub_le {i : Fin n} (h : r.integral.get i = true) {w : ℝ}
    (hw : r.lower.get i ≤ w ∧ w ≤ r.upper.get i) (hwhole : IsWhole w) (v : ℝ) :
    |Scalar.nearest (r.clampAt i v) - v| ≤ |w - v| := by
  -- What is outside the box is clamped to a bound, which is whole and is not rounded any more.
  have hbound (hclamped : IsWhole (r.clampAt i v)) :
      |Scalar.nearest (r.clampAt i v) - v| ≤ |w - v| := by
    rw [hclamped.nearest_eq]
    exact r.abs_clampAt_sub_le hw v
  unfold clampAt at hbound ⊢
  rcases Scalar.clamp_eq_or (r.lower.get i) (r.upper.get i) v with hc | hc | hc
  · exact hbound (hc.symm ▸ r.isWhole_lower h)
  · exact hbound (hc.symm ▸ r.isWhole_upper h)
  · obtain ⟨k, rfl⟩ := hwhole
    rw [hc]
    exact roundHalfEven_closest v k

/-! ## 2. Points -/

theorem repair_eq_self {x : Point ℝ n} (hx : r.Feasible x) : r.repair x = x := by
  apply Point.ext_get
  intro i
  rw [get_repair]
  split_ifs with h
  · rw [(hx.2 i h).nearest_eq, r.clampAt_eq_self (hx.1 i)]
  · exact r.clampAt_eq_self (hx.1 i)

theorem abs_repair_sub_le (x : Point ℝ n) {y : Point ℝ n} (hy : r.Feasible y) (i : Fin n) :
    |(r.repair x).get i - x.get i| ≤ |y.get i - x.get i| := by
  rw [get_repair]
  split_ifs with h
  · rw [← r.nearest_clampAt h]
    exact r.abs_nearest_clampAt_sub_le h (hy.1 i) (hy.2 i h) _
  · exact r.abs_clampAt_sub_le (hy.1 i) _

/-- A repaired point is feasible, a feasible point stays as it is, and none is nearer to a point in any
coordinate than the repaired one.  Integer variables are rounded to a nearest integer, a tie to the even
one.  Clamping before rounding, as for the points of a partition, comes to the same point as rounding
before clamping. -/
theorem repair_isProjection (r : Region ℝ n) (x : Point ℝ n) :
    r.Feasible (r.repair x) ∧
    (r.Feasible x → r.repair x = x) ∧
    (∀ y, r.Feasible y → ∀ i, |(r.repair x).get i - x.get i| ≤ |y.get i - x.get i|) ∧
    r.clamp (r.roundIntegers x) = r.repair x ∧
    r.roundIntegers (r.clamp x) = r.repair x ∧
    (∀ u, Partition.inRegion r u =
      r.repair (Vector.ofFn fun i => r.lower.get i + u.get i * r.width i)) ∧
    (∀ i, (r.integral.get i = true → IsNearestWhole (x.get i) ((r.roundIntegers x).get i)) ∧
      (r.integral.get i = false → (r.roundIntegers x).get i = x.get i)) ∧
    r.repairGrid (.row x.toList) = .ok (.row (r.repair x).toList) := by
  refine ⟨r.feasible_repair x, r.repair_eq_self, fun y => r.abs_repair_sub_le x, rfl,
    r.roundIntegers_clamp x, fun u => r.roundIntegers_clamp _, fun i => ⟨?_, ?_⟩, r.repairGrid_row x⟩
  · intro h
    unfold roundIntegers
    rw [Point.get_ofFn, if_pos h]
    exact isNearestWhole_nearest _
  · intro h
    unfold roundIntegers
    rw [Point.get_ofFn, h]
    rfl

/-! ## 3. A region of three kinds of variables -/

/-- An integer from minus one to one, a number between zero and one, and a variable that can only be
one. -/
noncomputable def mixed : Region ℝ 3 where
  lower := #v[-1, 0, 1]
  upper := #v[1, 1, 1]
  integral := #v[true, false, false]
  nonempty := Nat.zero_lt_succ 2
  finite _ := ⟨rfl, rfl⟩
  ordered i := by
    fin_cases i
    · exact neg_le_self zero_le_one
    · exact zero_le_one
    · exact le_rfl
  whole i hi := by
    fin_cases i
    · have hlower : IsWhole (-1) := ⟨-1, by rw [Int.cast_neg, Int.cast_one]⟩
      have hupper : IsWhole 1 := ⟨1, Int.cast_one.symm⟩
      rw [Scalar.same_real, Scalar.same_real]
      exact ⟨hlower.nearest_eq.symm, hupper.nearest_eq.symm⟩
    · exact nomatch hi
    · exact nomatch hi

theorem mixed_feasible : mixed.Feasible #v[1, 1 / 2, 1] := by
  constructor
  · intro i
    fin_cases i
    · exact ⟨neg_le_self zero_le_one, le_rfl⟩
    · exact ⟨one_half_pos.le, one_half_lt_one.le⟩
    · exact ⟨le_rfl, le_rfl⟩
  · intro i hi
    fin_cases i
    · exact ⟨1, Int.cast_one.symm⟩
    · exact nomatch hi
    · exact nomatch hi

/-- One half is rounded to zero, and a feasible point is not nearer than the repaired one. -/
theorem repair_isProjection_mixed :
    mixed.Feasible #v[1, 1 / 2, 1] ∧ mixed.repair #v[1, 1 / 2, 1] = #v[1, 1 / 2, 1] ∧
      (∀ i, |(mixed.repair #v[1 / 2, -4, 7]).get i - (#v[1 / 2, -4, 7] : Point ℝ 3).get i| ≤
        |(#v[1, 1 / 2, 1] : Point ℝ 3).get i - (#v[1 / 2, -4, 7] : Point ℝ 3).get i|) ∧
      (mixed.roundIntegers #v[1 / 2, -4, 7]).get 0 = 0 := by
  have hfeasible := mixed_feasible
  obtain ⟨-, hself, -⟩ := repair_isProjection mixed #v[1, 1 / 2, 1]
  obtain ⟨-, -, hnearest, -, -, -, hround, -⟩ := repair_isProjection mixed #v[1 / 2, -4, 7]
  refine ⟨hfeasible, hself hfeasible, hnearest _ hfeasible, ?_⟩
  obtain ⟨k, hk, hnear, heven⟩ := (hround 0).1 rfl
  rw [hk] at hnear heven ⊢
  change ∀ m : ℤ, |(k : ℝ) - 1 / 2| ≤ |(m : ℝ) - 1 / 2| at hnear
  change (∃ m : ℤ, m ≠ k ∧ |(m : ℝ) - 1 / 2| = |(k : ℝ) - 1 / 2|) → Even k at heven
  have hzero : |((0 : ℤ) : ℝ) - 1 / 2| = 1 / 2 := by norm_num
  have hone : |((1 : ℤ) : ℝ) - 1 / 2| = 1 / 2 := by norm_num
  obtain ⟨hlo, hhi⟩ := abs_le.mp ((hnear 0).trans_eq hzero)
  have hlower : 0 ≤ k := by exact_mod_cast (by linarith : (0 : ℝ) ≤ k)
  have hupper : k ≤ 1 := by exact_mod_cast (by linarith : (k : ℝ) ≤ 1)
  -- One is as near as zero, but odd.
  obtain rfl | rfl : k = 0 ∨ k = 1 := by omega
  · exact Int.cast_zero
  · exact absurd (heven ⟨0, zero_ne_one, hzero.trans hone.symm⟩) Int.not_even_one

end Region

end BoxSearch
