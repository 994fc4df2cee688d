import Mathlib
import BoxSearch.Proofs.Exact
import BoxSearch.Rotation.Orthonormal

/-!
# A basis is complete

Rows that are made orthonormal one after the other stay orthonormal, whatever the candidates are, and
a candidate that is not accepted lies nearly along the rows that are there.  Every unit vector is a
candidate.  Were there fewer rows than dimensions, the unit vectors would not lie along them by more
than a whole unit together, which is more than all of them may miss: so there are as many rows as
dimensions, in fewer than `10 ^ 24` dimensions.
-/

namespace BoxSearch

variable {n : ℕ}

/-! ## 1. Products -/

namespace Point

theorem dot_eq_sum (x y : Point ℝ n) : dot x y = ∑ i, x.get i * y.get i := by
  unfold dot mul
  rw [Scalar.sum_real, Vector.toList_ofFn, List.sum_ofFn]

theorem dot_comm (x y : Point ℝ n) : dot x y = dot y x := by
  rw [dot_eq_sum, dot_eq_sum]
  exact Finset.sum_congr rfl fun i _ => mul_comm _ _

theorem dot_sub (x y z : Point ℝ n) : dot x (sub y z) = dot x y - dot x z := by
  simp only [dot_eq_sum, sub, get_ofFn, mul_sub, Finset.sum_sub_distrib]

theorem dot_scale (c : ℝ) (x y : Point ℝ n) : dot x (scale c y) = c * dot x y := by
  simp only [dot_eq_sum, scale, get_ofFn, Finset.mul_sum]
  exact Finset.sum_congr rfl fun i _ => mul_left_comm _ _ _

theorem dot_shrink (x y : Point ℝ n) (c : ℝ) : dot x (shrink y c) = dot x y / c := by
  simp only [dot_eq_sum, shrink, get_ofFn, Finset.sum_div]
  exact Finset.sum_congr rfl fun i _ => (mul_div_assoc _ _ _).symm

theorem dot_self_nonneg (x : Point ℝ n) : 0 ≤ dot x x := by
  rw [dot_eq_sum]
  exact Finset.sum_nonneg fun i _ => mul_self_nonneg _

theorem norm_nonneg (x : Point ℝ n) : 0 ≤ norm x := Real.sqrt_nonneg _

theorem norm_mul_self (x : Point ℝ n) : norm x * norm x = dot x x :=
  Real.mul_self_sqrt (dot_self_nonneg x)

theorem dot_axis (x : Point ℝ n) (i : Fin n) : dot x (axis n 1.0 i) = x.get i := by
  have hcoordinate (j : Fin n) : (axis n 1.0 i : Point ℝ n).get j = if j = i then 1 else 0 := by
    unfold axis
    rw [get_ofFn]
    by_cases h : j = i
    · rw [if_pos (congrArg Fin.val h), if_pos h]
      norm_num
    · rw [if_neg (fun hval => h (Fin.ext hval)), if_neg h]
      norm_num
  rw [dot_eq_sum]
  simp only [hcoordinate, mul_ite, mul_one, mul_zero]
  rw [Finset.sum_ite_eq' Finset.univ i, if_pos (Finset.mem_univ i)]

end Point

namespace Orthonormal

open Point

/-! ## 2. What is left of a candidate -/

/-- Rows of length one, orthogonal to each other. -/
structure IsOrthonormal (rows : List (Point ℝ n)) : Prop where
  unit : ∀ q ∈ rows, dot q q = 1
  orthogonal : rows.Pairwise fun p q => dot p q = 0

/-- How much of the squared length of `v` lies along the rows. -/
noncomputable def coverage (rows : List (Point ℝ n)) (v : Point ℝ n) : ℝ :=
  (rows.map fun q => dot q v * dot q v).sum

theorem coverage_append (rows more : List (Point ℝ n)) (v : Point ℝ n) :
    coverage (rows ++ more) v = coverage rows v + coverage more v := by
  unfold coverage
  rw [List.map_append, List.sum_append]

theorem coverage_nonneg (rows : List (Point ℝ n)) (v : Point ℝ n) : 0 ≤ coverage rows v := by
  apply List.sum_nonneg
  intro c hc
  obtain ⟨q, -, rfl⟩ := List.mem_map.mp hc
  exact mul_self_nonneg _

variable {rows : List (Point ℝ n)}

theorem IsOrthonormal.tail {q : Point ℝ n} (h : IsOrthonormal (q :: rows)) : IsOrthonormal rows :=
  ⟨fun p hp => h.unit p (List.mem_cons_of_mem q hp), h.orthogonal.of_cons⟩

theorem IsOrthonormal.dot_head {q p : Point ℝ n} (h : IsOrthonormal (q :: rows)) (hp : p ∈ rows) :
    dot q p = 0 :=
  List.rel_of_pairwise_cons h.orthogonal hp

/-- What is taken out along the rows does not matter to a vector that is orthogonal to them. -/
theorem dot_residual_of_orthogonal {x : Point ℝ n} (hx : ∀ q ∈ rows, dot x q = 0) (v : Point ℝ n) :
    dot x (residual rows v) = dot x v := by
  induction rows generalizing v with
  | nil => rfl
  | cons q rows ih =>
    show dot x (residual rows (sub v (scale (dot v q) q))) = _
    rw [ih (fun p hp => hx p (List.mem_cons_of_mem q hp)), dot_sub, dot_scale,
      hx q List.mem_cons_self, mul_zero, sub_zero]

theorem IsOrthonormal.dot_residual (h : IsOrthonormal rows) (v : Point ℝ n) :
    ∀ q ∈ rows, dot q (residual rows v) = 0 := by
  induction rows generalizing v with
  | nil => exact fun _ hq => nomatch hq
  | cons p rows ih =>
    intro q hq
    show dot q (residual rows (sub v (scale (dot v p) p))) = 0
    rcases List.mem_cons.mp hq with rfl | hq
    · rw [dot_residual_of_orthogonal (fun r hr => h.dot_head hr), dot_sub, dot_scale,
        h.unit q List.mem_cons_self, mul_one, dot_comm, sub_self]
    · exact ih h.tail _ q hq

/-- The squared length of what is left is the squared length that does not lie along the rows. -/
theorem IsOrthonormal.dot_residual_self (h : IsOrthonormal rows) (v : Point ℝ n) :
    dot (residual rows v) (residual rows v) = dot v v - coverage rows v := by
  induction rows generalizing v with
  | nil => exact (sub_zero _).symm
  | cons q rows ih =>
    have hcoverage : coverage rows (sub v (scale (dot v q) q)) = coverage rows v := by
      unfold coverage
      refine congrArg List.sum (List.map_congr_left fun p hp => ?_)
      rw [dot_sub, dot_scale, dot_comm p q, h.dot_head hp, mul_zero, sub_zero]
    have hsquare : dot (sub v (scale (dot v q) q)) (sub v (scale (dot v q) q)) =
        dot v v - dot q v * dot q v := by
      rw [dot_sub, dot_scale, dot_comm (sub _ _) v, dot_comm (sub _ _) q, dot_sub, dot_sub,
        dot_scale, dot_scale, h.unit q List.mem_cons_self, dot_comm v q]
      ring
    show dot (residual rows _) (residual rows _) = _
    rw [ih h.tail, hcoverage, hsquare]
    unfold coverage
    rw [List.map_cons, List.sum_cons]
    ring

/-- No more of a vector lies along the rows than there is of it. -/
theorem IsOrthonormal.coverage_le (h : IsOrthonormal rows) (v : Point ℝ n) :
    coverage rows v ≤ dot v v := by
  have hnonneg := dot_self_nonneg (residual rows v)
  rw [h.dot_residual_self] at hnonneg
  linarith

/-! ## 3. Accepting candidates -/

variable {tolerance : ℝ}

theorem accept_eq (rows : List (Point ℝ n)) (v : Point ℝ n) :
    accept tolerance rows v =
      if tolerance * max 1 (norm v) < norm (residual rows v) then
        rows ++ [shrink (residual rows v) (norm (residual rows v))]
      else rows := by
  have hmost : Scalar.most (1.0 : ℝ) (norm v) = max 1 (norm v) := by
    unfold Scalar.most
    rw [Scalar.one_real]
    split_ifs with hlt
    · exact (max_eq_right hlt.le).symm
    · exact (max_eq_left (not_lt.mp hlt)).symm
  unfold accept
  rw [hmost]

theorem bar_nonneg (htolerance : 0 ≤ tolerance) (v : Point ℝ n) : 0 ≤ tolerance * max 1 (norm v) :=
  mul_nonneg htolerance (le_max_of_le_left zero_le_one)

theorem IsOrthonormal.accept (h : IsOrthonormal rows) (htolerance : 0 ≤ tolerance)
    (v : Point ℝ n) : IsOrthonormal (accept tolerance rows v) := by
  rw [accept_eq]
  split_ifs with hlt
  · have hpos : 0 < norm (residual rows v) := (bar_nonneg htolerance v).trans_lt hlt
    constructor
    · intro q hq
      rcases List.mem_append.mp hq with hq | hq
      · exact h.unit q hq
      · rw [List.mem_singleton.mp hq, dot_shrink, dot_comm, dot_shrink, div_div, norm_mul_self]
        apply div_self
        rw [← norm_mul_self]
        exact (mul_pos hpos hpos).ne'
    · rw [List.pairwise_append]
      refine ⟨h.orthogonal, List.pairwise_singleton _ _, fun q hq w hw => ?_⟩
      rw [List.mem_singleton.mp hw, dot_shrink, h.dot_residual v q hq, zero_div]
  · exact h

/-- Of a candidate that was looked at, nothing is left but what the tolerance allows. -/
theorem IsOrthonormal.sub_coverage_accept (h : IsOrthonormal rows) (htolerance : 0 ≤ tolerance)
    (v : Point ℝ n) :
    dot v v - coverage (Orthonormal.accept tolerance rows v) v ≤
      (tolerance * max 1 (norm v)) * (tolerance * max 1 (norm v)) := by
  have hbar := bar_nonneg htolerance v
  have hleft := h.dot_residual_self v
  rw [accept_eq]
  split_ifs with hlt
  · have hpos : 0 < norm (residual rows v) := hbar.trans_lt hlt
    -- An accepted candidate lies along the rows and the new one altogether.
    have halong : dot (residual rows v) v = norm (residual rows v) * norm (residual rows v) := by
      have horthogonal : ∀ q ∈ rows, dot (residual rows v) q = 0 := fun q hq =>
        (dot_comm _ _).trans (h.dot_residual v q hq)
      rw [norm_mul_self, dot_residual_of_orthogonal horthogonal]
    have hnew : coverage [shrink (residual rows v) (norm (residual rows v))] v =
        norm (residual rows v) * norm (residual rows v) := by
      unfold coverage
      rw [List.map_singleton, List.sum_singleton, dot_comm, dot_shrink, dot_comm, halong,
        mul_div_cancel_right₀ _ hpos.ne']
    rw [coverage_append, hnew, norm_mul_self, hleft]
    have hsquare := mul_nonneg hbar hbar
    linarith
  · have hle := mul_self_le_mul_self (norm_nonneg _) (not_lt.mp hlt)
    rwa [norm_mul_self, hleft] at hle

/-- Accepted rows go on being there. -/
theorem exists_accept_eq (tolerance : ℝ) (rows : List (Point ℝ n)) (v : Point ℝ n) :
    ∃ more, Orthonormal.accept tolerance rows v = rows ++ more := by
  rw [accept_eq]
  split_ifs
  · exact ⟨_, rfl⟩
  · exact ⟨[], (List.append_nil rows).symm⟩

/-- What is left of the candidates when all of them are looked at, if the rows are still too few. -/
theorem IsOrthonormal.collect (htolerance : 0 ≤ tolerance) (candidates : List (Point ℝ n))
    (h : IsOrthonormal rows) :
    IsOrthonormal (collect tolerance candidates rows) ∧
      (∃ more, Orthonormal.collect tolerance candidates rows = rows ++ more) ∧
      ((Orthonormal.collect tolerance candidates rows).length = n ∨ ∀ v ∈ candidates,
        dot v v - coverage (Orthonormal.collect tolerance candidates rows) v ≤
          (tolerance * max 1 (norm v)) * (tolerance * max 1 (norm v))) := by
  induction candidates generalizing rows with
  | nil => exact ⟨h, ⟨[], (List.append_nil rows).symm⟩, .inr fun _ hv => nomatch hv⟩
  | cons v rest ih =>
    obtain ⟨more, hmore⟩ := exists_accept_eq tolerance rows v
    have haccept := h.accept htolerance v
    unfold Orthonormal.collect
    dsimp only
    split_ifs with hn
    · exact ⟨haccept, ⟨more, hmore⟩, .inl hn⟩
    · obtain ⟨hrows, ⟨others, hothers⟩, hrest⟩ := ih haccept
      refine ⟨hrows, ⟨more ++ others, ?_⟩, hrest.imp_right fun hrest w hw => ?_⟩
      · rw [hothers, hmore, List.append_assoc]
      · rcases List.mem_cons.mp hw with rfl | hw
        · have hseen := h.sub_coverage_accept htolerance w
          have hlater := coverage_nonneg others w
          rw [hothers, coverage_append]
          linarith
        · exact hrest w hw

/-! ## 4. Enough rows -/

theorem dot_axis_self (i : Fin n) : dot (axis n 1.0 i : Point ℝ n) (axis n 1.0 i) = 1 := by
  rw [dot_axis]
  unfold axis
  rw [get_ofFn, if_pos rfl]
  norm_num

/-- Of all unit vectors together, as much lies along some rows as the rows are long. -/
theorem IsOrthonormal.sum_coverage_axis (h : IsOrthonormal rows) :
    ∑ i : Fin n, coverage rows (axis n 1.0 i) = rows.length := by
  induction rows with
  | nil => exact Finset.sum_const_zero.trans Nat.cast_zero.symm
  | cons q rows ih =>
    have hunit : ∑ i : Fin n, dot q (axis n 1.0 i) * dot q (axis n 1.0 i) = 1 := by
      simp only [dot_axis]
      rw [← dot_eq_sum]
      exact h.unit q List.mem_cons_self
    have hsplit (i : Fin n) : coverage (q :: rows) (axis n 1.0 i) =
        dot q (axis n 1.0 i) * dot q (axis n 1.0 i) + coverage rows (axis n 1.0 i) := by
      unfold coverage
      rw [List.map_cons, List.sum_cons]
    simp only [hsplit]
    rw [Finset.sum_add_distrib, hunit, ih h.tail, List.length_cons, Nat.cast_add, Nat.cast_one,
      add_comm]

theorem IsOrthonormal.length_le (h : IsOrthonormal rows) : rows.length ≤ n := by
  have hsum : ∑ i : Fin n, coverage rows (axis n 1.0 i) ≤ ∑ _i : Fin n, (1 : ℝ) :=
    Finset.sum_le_sum fun i _ => dot_axis_self i ▸ h.coverage_le _
  rw [h.sum_coverage_axis, Finset.sum_const, Finset.card_univ, Fintype.card_fin, nsmul_one] at hsum
  exact_mod_cast hsum

/-- Rows that miss no unit vector by more than the tolerance are as many as there are dimensions. -/
theorem IsOrthonormal.le_length (h : IsOrthonormal rows) (hsmall : n * (tolerance * tolerance) < 1)
    (hall : ∀ i : Fin n, 1 - coverage rows (axis n 1.0 i) ≤ tolerance * tolerance) :
    n ≤ rows.length := by
  have hsum : ∑ i : Fin n, (1 - coverage rows (axis n 1.0 i)) ≤
      ∑ _i : Fin n, tolerance * tolerance :=
    Finset.sum_le_sum fun i _ => hall i
  rw [Finset.sum_sub_distrib, h.sum_coverage_axis, Finset.sum_const, Finset.sum_const,
    Finset.card_univ, Fintype.card_fin, nsmul_one, nsmul_eq_mul] at hsum
  have hlt : (n : ℝ) < rows.length + 1 := by linarith
  exact Nat.lt_succ_iff.mp (by exact_mod_cast hlt)

/-- A basis that follows a direction is orthonormal and has a row for every dimension, whatever the
direction and the rows before were. -/
theorem along_complete (htolerance : 0 ≤ tolerance) (hsmall : n * (tolerance * tolerance) < 1)
    (direction : Point ℝ n) (basis : List (Point ℝ n)) :
    IsOrthonormal (along tolerance direction basis) ∧
      (along tolerance direction basis).length = n := by
  have hnone : IsOrthonormal ([] : List (Point ℝ n)) := ⟨(fun _ hq => nomatch hq), .nil⟩
  obtain ⟨hrows, -, hlength | hleft⟩ :=
    hnone.collect htolerance (direction :: basis ++ unitVectors n)
  · exact ⟨hrows, hlength⟩
  · refine ⟨hrows, le_antisymm hrows.length_le (hrows.le_length hsmall fun i => ?_)⟩
    have hmem : axis n 1.0 i ∈ direction :: basis ++ unitVectors n :=
      List.mem_append_right _ (List.mem_map.mpr ⟨i, List.mem_range.mpr i.isLt, rfl⟩)
    have hnorm : norm (axis n 1.0 i : Point ℝ n) = 1 := by
      show Real.sqrt _ = 1
      rw [dot_axis_self, Real.sqrt_one]
    have hlast := hleft _ hmem
    rwa [dot_axis_self, hnorm, max_self, mul_one] at hlast

/-- The tolerance that a search turns its axes with is small enough in fewer than `10 ^ 24` dimensions. -/
theorem along_complete_of_lt (hn : n < 10 ^ 24) (direction : Point ℝ n) (basis : List (Point ℝ n)) :
    IsOrthonormal (along 1e-12 direction basis) ∧ (along 1e-12 direction basis).length = n := by
  have hsmall : (n : ℝ) * (1e-12 * 1e-12) < 1 := by
    have hcast : (n : ℝ) < 10 ^ 24 := by exact_mod_cast hn
    have hsquare : (1e-12 * 1e-12 : ℝ) = 1 / 10 ^ 24 := by norm_num
    rwa [hsquare, mul_one_div, div_lt_one (by norm_num)]
  exact along_complete (by norm_num) hsmall direction basis

/-! ## 5. The check of rows -/

theorem norm_scale {c : ℝ} (hc : 0 ≤ c) {q : Point ℝ n} (hq : dot q q = 1) :
    norm (scale c q) = c := by
  show Real.sqrt _ = c
  rw [dot_scale, dot_comm, dot_scale, hq, mul_one, Real.sqrt_mul_self hc]

theorem foldl_strictMost_zero {deviations : List ℝ} (h : ∀ d ∈ deviations, d = 0) :
    deviations.foldl Scalar.strictMost 0 = 0 := by
  induction deviations with
  | nil => rfl
  | cons d rest ih =>
    have hzero : Scalar.strictMost (0 : ℝ) 0 = 0 := by
      unfold Scalar.strictMost
      split_ifs <;> rfl
    rw [List.foldl_cons, h d List.mem_cons_self, hzero]
    exact ih fun e he => h e (List.mem_cons_of_mem d he)

theorem IsOrthonormal.dot_getElem (h : IsOrthonormal rows) {i j : ℕ} (hi : i < rows.length)
    (hj : j < rows.length) : dot rows[i] rows[j] = if i = j then 1 else 0 := by
  rcases lt_trichotomy i j with hlt | rfl | hlt
  · rw [if_neg hlt.ne]
    exact List.pairwise_iff_getElem.mp h.orthogonal i j hi hj hlt
  · rw [if_pos rfl]
    exact h.unit _ (List.getElem_mem hi)
  · rw [if_neg hlt.ne', dot_comm]
    exact List.pairwise_iff_getElem.mp h.orthogonal j i hj hi hlt

theorem IsOrthonormal.deviation_eq_zero (h : IsOrthonormal rows) : deviation rows = 0 := by
  have hall : ∀ d ∈ rows.zipIdx.flatMap (fun (x, i) => rows.zipIdx.map fun (y, j) =>
      Scalar.abs (dot x y - (if i = j then (1.0 : ℝ) else 0.0))), d = 0 := by
    intro d hd
    obtain ⟨⟨x, i⟩, hx, hd⟩ := List.mem_flatMap.mp hd
    obtain ⟨⟨y, j⟩, hy, rfl⟩ := List.mem_map.mp hd
    obtain ⟨hi, rfl⟩ := List.getElem?_eq_some_iff.mp (List.mk_mem_zipIdx_iff_getElem?.mp hx)
    obtain ⟨hj, rfl⟩ := List.getElem?_eq_some_iff.mp (List.mk_mem_zipIdx_iff_getElem?.mp hy)
    dsimp only
    rw [h.dot_getElem hi hj, Scalar.one_real, Scalar.zero_real, sub_self]
    exact abs_zero
  unfold deviation
  dsimp only
  split
  · exact Scalar.zero_real
  · rename_i d ds hproducts
    rw [hproducts] at hall
    rw [hall d List.mem_cons_self]
    exact foldl_strictMost_zero fun e he => hall e (List.mem_cons_of_mem d he)

/-- Rows of any length other than zero that are orthogonal to each other are orthonormal when each is
shrunk by its length. -/
theorem isOrthonormal_shrink (hlong : ∀ x ∈ rows, norm x ≠ 0)
    (horthogonal : rows.Pairwise fun x y => dot x y = 0) :
    IsOrthonormal (rows.map fun x => shrink x (norm x)) := by
  constructor
  · intro q hq
    obtain ⟨x, hx, rfl⟩ := List.mem_map.mp hq
    rw [dot_shrink, dot_comm, dot_shrink, div_div, ← norm_mul_self]
    exact div_self (mul_self_ne_zero.mpr (hlong x hx))
  · refine List.Pairwise.map _ (fun x y hxy => ?_) horthogonal
    rw [dot_shrink, dot_comm, dot_shrink, dot_comm, hxy, zero_div, zero_div]

/-- Such rows pass the check. -/
theorem check_of_orthogonal (hlong : ∀ x ∈ rows, norm x ≠ 0)
    (horthogonal : rows.Pairwise fun x y => dot x y = 0) (htolerance : 0 ≤ tolerance) :
    check tolerance rows = .ok () := by
  have hany : rows.any (fun x => Scalar.same (norm x) 0.0) = false := by
    rw [List.any_eq_false]
    intro x hx
    rw [Scalar.same_real, Scalar.zero_real]
    exact hlong x hx
  have hskewness : skewness rows = .ok 0 := by
    unfold skewness
    rw [hany, if_neg Bool.false_ne_true,
      (isOrthonormal_shrink hlong horthogonal).deviation_eq_zero]
  unfold check
  rw [hskewness]
  exact if_neg htolerance.not_gt

/-- Orthonormal rows that were all stretched by one factor pass the check. -/
theorem IsOrthonormal.check_scale (h : IsOrthonormal rows) {c : ℝ} (hc : 0 < c)
    (htolerance : 0 ≤ tolerance) : check tolerance (rows.map (scale c)) = .ok () := by
  apply check_of_orthogonal _ _ htolerance
  · intro x hx
    obtain ⟨q, hq, rfl⟩ := List.mem_map.mp hx
    rw [norm_scale hc.le (h.unit q hq)]
    exact hc.ne'
  · refine List.Pairwise.map _ (fun p q hpq => ?_) h.orthogonal
    rw [dot_scale, dot_comm, dot_scale, dot_comm, hpq, mul_zero, mul_zero]

end Orthonormal

end BoxSearch
