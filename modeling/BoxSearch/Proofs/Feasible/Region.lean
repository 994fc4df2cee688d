import Mathlib
import BoxSearch.Proofs.Exact
import BoxSearch.Search

/-!
# The points of a region

A point is feasible when it lies in the box and is whole in every integer variable.  In exact
arithmetic any point is brought into the region by rounding its integer variables and clamping, in
either order, because the bounds of an integer variable are whole; and a feasible point passes the
check that a debug run makes before every evaluation.
-/

namespace BoxSearch

/-- An integer as a real number. -/
def IsWhole (v : ℝ) : Prop := ∃ k : ℤ, v = k

theorem IsWhole.nearest_eq {v : ℝ} (h : IsWhole v) : Scalar.nearest v = v := by
  obtain ⟨k, rfl⟩ := h
  rw [Scalar.nearest_real, roundHalfEven_intCast]

/-- The integer variables of the region are whole. -/
def Point.IsWholeIn {n : ℕ} (x : Point ℝ n) (r : Region ℝ n) : Prop :=
  ∀ i, r.integral.get i = true → IsWhole (x.get i)

namespace Region

variable {n : ℕ}

/-- In the box, and whole where the region takes integers only. -/
def Feasible (r : Region ℝ n) (x : Point ℝ n) : Prop :=
  (∀ i, r.lower.get i ≤ x.get i ∧ x.get i ≤ r.upper.get i) ∧ x.IsWholeIn r

/-! ## 1. Coordinates -/

section

variable {α : Type} [Scalar α] (r : Region α n)

theorem hasIntegers_of_integral {i : Fin n} (h : r.integral.get i = true) :
    r.hasIntegers = true := by
  unfold hasIntegers
  rw [Vector.any_eq_true]
  exact ⟨i.val, i.isLt, h⟩

theorem roundIntegers_eq_self (h : ¬r.hasIntegers = true) (x : Point α n) :
    r.roundIntegers x = x := by
  have hreal (i : Fin n) : ¬r.integral.get i = true := fun hi => h (r.hasIntegers_of_integral hi)
  unfold roundIntegers
  simp only [hreal]
  exact Point.ofFn_get x

theorem get_repair (x : Point α n) (i : Fin n) : (r.repair x).get i =
    r.clampAt i (if r.integral.get i then Scalar.nearest (x.get i) else x.get i) := by
  unfold repair clamp roundIntegers
  rw [Point.get_ofFn, Point.get_ofFn]

end

/-! ## 2. Bounds -/

variable (r : Region ℝ n)

/-- The bounds of an integer variable are integers. -/
theorem isWhole_lower {i : Fin n} (h : r.integral.get i = true) : IsWhole (r.lower.get i) :=
  ⟨_, (Scalar.same_real _ _).mp (r.whole i h).1⟩

theorem isWhole_upper {i : Fin n} (h : r.integral.get i = true) : IsWhole (r.upper.get i) :=
  ⟨_, (Scalar.same_real _ _).mp (r.whole i h).2⟩

theorem clampAt_mem_Icc (i : Fin n) (v : ℝ) :
    r.lower.get i ≤ r.clampAt i v ∧ r.clampAt i v ≤ r.upper.get i :=
  Scalar.clamp_mem_Icc (r.ordered i) v

/-- Nothing is clamped that lies in the box. -/
theorem clampAt_eq_self {i : Fin n} {v : ℝ} (hv : r.lower.get i ≤ v ∧ v ≤ r.upper.get i) :
    r.clampAt i v = v := by
  unfold clampAt Scalar.clamp
  rw [if_neg hv.1.not_gt, if_neg hv.2.not_gt]

theorem isWhole_clampAt {i : Fin n} (h : r.integral.get i = true) {v : ℝ} (hv : IsWhole v) :
    IsWhole (r.clampAt i v) := by
  -- A clamped number is one of the bounds, which are whole, or the number itself.
  unfold clampAt
  rcases Scalar.clamp_eq_or (r.lower.get i) (r.upper.get i) v with hc | hc | hc
  · rw [hc]
    exact r.isWhole_lower h
  · rw [hc]
    exact r.isWhole_upper h
  · rw [hc]
    exact hv

/-- An integer variable may be rounded before it is clamped or after it. -/
theorem nearest_clampAt {i : Fin n} (h : r.integral.get i = true) (v : ℝ) :
    Scalar.nearest (r.clampAt i v) = r.clampAt i (Scalar.nearest v) := by
  unfold clampAt
  rw [Scalar.map_clamp Scalar.nearest_mono (r.ordered i), (r.isWhole_lower h).nearest_eq,
    (r.isWhole_upper h).nearest_eq]

/-! ## 3. Maps into the region -/

theorem isWholeIn_roundIntegers (x : Point ℝ n) : (r.roundIntegers x).IsWholeIn r := by
  intro i h
  exists roundHalfEven (x.get i)
  unfold roundIntegers
  rw [Point.get_ofFn, if_pos h]
  rfl

/-- A point that is whole where it has to be is clamped into the region. -/
theorem feasible_clamp {x : Point ℝ n} (hx : x.IsWholeIn r) : r.Feasible (r.clamp x) := by
  unfold clamp
  constructor
  · intro i
    rw [Point.get_ofFn]
    exact r.clampAt_mem_Icc i _
  · intro i h
    rw [Point.get_ofFn]
    exact r.isWhole_clampAt h (hx i h)

theorem feasible_repair (x : Point ℝ n) : r.Feasible (r.repair x) :=
  r.feasible_clamp (r.isWholeIn_roundIntegers x)

/-- A point may be rounded after it was clamped as well. -/
theorem roundIntegers_clamp (x : Point ℝ n) : r.roundIntegers (r.clamp x) = r.repair x := by
  apply Point.ext_get
  intro i
  unfold roundIntegers clamp
  rw [get_repair, Point.get_ofFn, Point.get_ofFn]
  split_ifs with h
  · exact r.nearest_clampAt h _
  · rfl

/-! ## 4. The check -/

theorem outsideAt_eq_nil {x : Point ℝ n} (hx : r.Feasible x) : r.outsideAt x = [] := by
  unfold outsideAt
  rw [List.filterMap_eq_nil_iff]
  intro i _
  exact if_pos (hx.1 i)

theorem fractionalAt_eq_nil {x : Point ℝ n} (hx : r.Feasible x) : r.fractionalAt x = [] := by
  unfold fractionalAt
  rw [List.filterMap_eq_nil_iff]
  intro i _
  apply if_neg
  intro h
  rw [Bool.and_eq_true, Bool.not_eq_true'] at h
  have hsame : Scalar.same (x.get i) (Scalar.nearest (x.get i)) = true := by
    rw [Scalar.same_real, (hx.2 i h.1).nearest_eq]
  exact absurd hsame (by rw [h.2]; exact Bool.false_ne_true)

theorem check_eq_ok {x : Point ℝ n} (hx : r.Feasible x) : r.check x = .ok () := by
  unfold check
  rw [r.outsideAt_eq_nil hx, r.fractionalAt_eq_nil hx]

end Region

end BoxSearch
