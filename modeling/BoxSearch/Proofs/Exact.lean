import Mathlib
import BoxSearch.Draw

/-!
# Exact — the real numbers as scalars

In exact arithmetic a search computes with real numbers: nothing is rounded but what is rounded on
purpose, every scalar is finite, and no scalar is undefined.  Rounding to a whole number sends a tie
to the even neighbour, and on quotients it is the rounding by which doubles are rounded
(`roundHalfEven_div`).
-/

namespace BoxSearch

/-- The integer nearest to a real number; a tie goes to the even neighbour. -/
noncomputable def roundHalfEven (x : ℝ) : ℤ :=
  if Int.fract x < 1 / 2 then ⌊x⌋
  else if 1 / 2 < Int.fract x then ⌊x⌋ + 1
  else if Even ⌊x⌋ then ⌊x⌋ else ⌊x⌋ + 1

noncomputable instance : Scalar ℝ where
  decidableLt := inferInstance
  decidableLe := inferInstance
  ofInt k := (k : ℝ)
  abs x := |x|
  sqrt := Real.sqrt
  exp := Real.exp
  powTwo x := (2 : ℝ) ^ x
  thirds k := (3 : ℝ) ^ (-k)
  nearest x := (roundHalfEven x : ℝ)
  floor := Int.floor
  isFinite _ := true

/-! ## 1. Rounding -/

theorem roundHalfEven_eq_floor_or (x : ℝ) :
    roundHalfEven x = ⌊x⌋ ∧ Int.fract x ≤ 1 / 2 ∨
      roundHalfEven x = ⌊x⌋ + 1 ∧ 1 / 2 ≤ Int.fract x := by
  unfold roundHalfEven
  split_ifs with hlo hhi heven
  · exact .inl ⟨rfl, hlo.le⟩
  · exact .inr ⟨rfl, hhi.le⟩
  · exact .inl ⟨rfl, not_lt.mp hhi⟩
  · exact .inr ⟨rfl, not_lt.mp hlo⟩

theorem abs_roundHalfEven_sub_le (x : ℝ) : |(roundHalfEven x : ℝ) - x| ≤ 1 / 2 := by
  have hx := Int.floor_add_fract x
  have hnonneg := Int.fract_nonneg x
  have hlt := Int.fract_lt_one x
  rw [abs_le]
  rcases roundHalfEven_eq_floor_or x with ⟨h, hf⟩ | ⟨h, hf⟩
  · rw [h]
    constructor <;> linarith
  · rw [h, Int.cast_add, Int.cast_one]
    constructor <;> linarith

theorem even_roundHalfEven_of_tie (x : ℝ) (h : Int.fract x = 1 / 2) : Even (roundHalfEven x) := by
  unfold roundHalfEven
  rw [if_neg h.not_lt, if_neg h.not_gt]
  split_ifs with heven
  · exact heven
  · exact (Int.not_even_iff_odd.mp heven).add_one

@[simp] theorem roundHalfEven_intCast (k : ℤ) : roundHalfEven (k : ℝ) = k := by
  unfold roundHalfEven
  rw [if_pos (by norm_num), Int.floor_intCast]

theorem roundHalfEven_mono : Monotone roundHalfEven := by
  intro x y hxy
  rcases (Int.floor_mono hxy).lt_or_eq with hlt | heq
  · -- Different floors: the smaller one rounds up at most to the larger one
    have hx : roundHalfEven x ≤ ⌊x⌋ + 1 := by
      rcases roundHalfEven_eq_floor_or x with ⟨h, -⟩ | ⟨h, -⟩ <;> omega
    have hy : ⌊y⌋ ≤ roundHalfEven y := by
      rcases roundHalfEven_eq_floor_or y with ⟨h, -⟩ | ⟨h, -⟩ <;> omega
    omega
  · have hfract : Int.fract x ≤ Int.fract y := by
      have hx := Int.floor_add_fract x
      have hy := Int.floor_add_fract y
      rw [heq] at hx
      linarith
    unfold roundHalfEven
    rw [heq]
    split_ifs <;> first | omega | linarith

/-- No integer is nearer than the rounded one. -/
theorem roundHalfEven_closest (x : ℝ) (k : ℤ) : |(roundHalfEven x : ℝ) - x| ≤ |k - x| := by
  by_cases hk : roundHalfEven x = k
  · rw [hk]
  · -- Another integer is at least one away from the rounded one, which is at most half away from `x`.
    have hint : 1 ≤ |roundHalfEven x - k| := Int.one_le_abs (sub_ne_zero.mpr hk)
    have hreal : (1 : ℝ) ≤ |(roundHalfEven x : ℝ) - k| := by exact_mod_cast hint
    have hhalf := abs_roundHalfEven_sub_le x
    have htriangle := abs_sub_le (roundHalfEven x : ℝ) x k
    rw [abs_sub_comm x] at htriangle
    linarith

/-- If two integers are nearest, the even one is taken. -/
theorem even_roundHalfEven_of_abs_sub {x : ℝ} (h : |(roundHalfEven x : ℝ) - x| = 1 / 2) :
    Even (roundHalfEven x) := by
  have hx := Int.floor_add_fract x
  have hnonneg := Int.fract_nonneg x
  have hlt := Int.fract_lt_one x
  apply even_roundHalfEven_of_tie
  rcases roundHalfEven_eq_floor_or x with ⟨hround, -⟩ | ⟨hround, -⟩
  · rw [hround, abs_of_nonpos (by linarith)] at h
    linarith
  · rw [hround, Int.cast_add, Int.cast_one, abs_of_nonneg (by linarith)] at h
    linarith

/-- On quotients this is the rounding of printed numbers and of doubles. -/
theorem roundHalfEven_div (num : ℕ) {den : ℕ} (h : 0 < den) :
    roundHalfEven ((num : ℝ) / den) = roundQuot num den := by
  have hden : (0 : ℝ) < den := by exact_mod_cast h
  have hfloor : ⌊(num : ℝ) / den⌋ = ((num / den : ℕ) : ℤ) := by
    rw [← Int.natCast_floor_eq_floor (by positivity), Nat.floor_div_eq_div]
  have hsplit : (num : ℝ) = den * (num / den : ℕ) + (num % den : ℕ) := by
    exact_mod_cast (Nat.div_add_mod num den).symm
  have hfract : Int.fract ((num : ℝ) / den) = ((num % den : ℕ) : ℝ) / den := by
    rw [← Int.self_sub_floor, hfloor, Int.cast_natCast, eq_div_iff hden.ne', sub_mul,
      div_mul_cancel₀ _ hden.ne']
    linarith
  have hlow : ((num % den : ℕ) : ℝ) / den < 1 / 2 ↔ 2 * (num % den) < den := by
    rw [div_lt_div_iff₀ hden two_pos, one_mul, mul_comm]
    exact_mod_cast Iff.rfl
  have hhigh : 1 / 2 < ((num % den : ℕ) : ℝ) / den ↔ den < 2 * (num % den) := by
    rw [div_lt_div_iff₀ two_pos hden, one_mul, mul_comm]
    exact_mod_cast Iff.rfl
  unfold roundHalfEven roundQuot
  simp only [hfract, hfloor, hlow, hhigh, Int.even_coe_nat]
  generalize num / den = q
  rcases Nat.mod_two_eq_zero_or_one q with hq | hq
  · have heven : Even q := Nat.even_iff.mpr hq
    split_ifs <;> simp [hq]
  · have hodd : ¬Even q := by rw [Nat.even_iff]; omega
    split_ifs <;> simp [hq]

/-! ## 2. Real scalars -/

theorem Scalar.zero_real : (0.0 : ℝ) = 0 := by norm_num

theorem Scalar.one_real : (1.0 : ℝ) = 1 := by norm_num

theorem Scalar.sum_real (xs : List ℝ) : Scalar.sum xs = xs.sum := by
  unfold Scalar.sum
  rw [Scalar.zero_real, List.sum_eq_foldl]

@[simp] theorem Scalar.ofNat_real (k : ℕ) : (Scalar.ofNat k : ℝ) = k := Int.cast_natCast k

@[simp] theorem Scalar.nearest_real (x : ℝ) : Scalar.nearest x = (roundHalfEven x : ℝ) := rfl

theorem Scalar.nearest_mono : Monotone (Scalar.nearest : ℝ → ℝ) :=
  fun _ _ h => Int.cast_le.mpr (roundHalfEven_mono h)

@[simp] theorem Scalar.thirds_real (k : ℤ) : (Scalar.thirds k : ℝ) = 3 ^ (-k) := rfl

/-- Equality of real scalars is the equality of numbers. -/
@[simp] theorem Scalar.same_real (x y : ℝ) : Scalar.same x y = true ↔ x = y := by
  unfold Scalar.same
  rw [Bool.and_eq_true, decide_eq_true_iff, decide_eq_true_iff, le_antisymm_iff]

theorem Scalar.least_real (x y : ℝ) : Scalar.least x y = min x y := by
  unfold Scalar.least
  split_ifs with h
  · rw [min_eq_right h.le]
  · rw [min_eq_left (not_lt.mp h)]

theorem Scalar.clamp_mem_Icc {lo hi : ℝ} (h : lo ≤ hi) (x : ℝ) :
    lo ≤ Scalar.clamp lo hi x ∧ Scalar.clamp lo hi x ≤ hi := by
  unfold Scalar.clamp
  split_ifs with hlow hhigh
  · exact ⟨le_rfl, h⟩
  · exact ⟨h, le_rfl⟩
  · exact ⟨not_lt.mp hlow, not_lt.mp hhigh⟩

/-- Clamping changes a number into one of the bounds or not at all. -/
theorem Scalar.clamp_eq_or (lo hi x : ℝ) :
    Scalar.clamp lo hi x = lo ∨ Scalar.clamp lo hi x = hi ∨ Scalar.clamp lo hi x = x := by
  unfold Scalar.clamp
  split_ifs
  · exact .inl rfl
  · exact .inr (.inl rfl)
  · exact .inr (.inr rfl)

theorem Scalar.clamp_eq_max_min {lo hi : ℝ} (h : lo ≤ hi) (x : ℝ) :
    Scalar.clamp lo hi x = max lo (min hi x) := by
  unfold Scalar.clamp
  split_ifs with hlow hhigh
  · rw [min_eq_right (hlow.le.trans h), max_eq_left hlow.le]
  · rw [min_eq_left hhigh.le, max_eq_right h]
  · rw [min_eq_right (not_lt.mp hhigh), max_eq_right (not_lt.mp hlow)]

theorem Scalar.clamp_mono {lo hi : ℝ} (h : lo ≤ hi) : Monotone (Scalar.clamp lo hi) := by
  intro x y hxy
  rw [clamp_eq_max_min h, clamp_eq_max_min h]
  exact max_le_max_left lo (min_le_min_left hi hxy)

/-- A monotone function may be applied before clamping or after it, if it is applied to the bounds as
well. -/
theorem Scalar.map_clamp {f : ℝ → ℝ} (hf : Monotone f) {lo hi : ℝ} (h : lo ≤ hi) (x : ℝ) :
    f (Scalar.clamp lo hi x) = Scalar.clamp (f lo) (f hi) (f x) := by
  rw [clamp_eq_max_min h, clamp_eq_max_min (hf h), hf.map_max, hf.map_min]

/-- No number between the bounds is nearer than the clamped one. -/
theorem Scalar.abs_clamp_sub_le {lo hi y : ℝ} (hlo : lo ≤ y) (hhi : y ≤ hi) (x : ℝ) :
    |Scalar.clamp lo hi x - x| ≤ |y - x| := by
  unfold Scalar.clamp
  split_ifs with hlow hhigh
  · rw [abs_of_pos (sub_pos.mpr hlow), abs_of_pos (sub_pos.mpr (hlow.trans_le hlo))]
    exact sub_le_sub_right hlo x
  · rw [abs_of_neg (sub_neg.mpr hhigh), abs_of_neg (sub_neg.mpr (hhi.trans_lt hhigh))]
    exact neg_le_neg (sub_le_sub_right hhi x)
  · rw [sub_self, abs_zero]
    exact abs_nonneg _

/-! ## 3. Draws -/

/-- All the numbers that will be drawn, one after the other. -/
structure Tape (α : Type) where
  uniforms : ℕ → α
  normals : ℕ → α

instance {α : Type} : DrawSource (Tape α) α where
  uniform s := (s.uniforms 0, { s with uniforms := fun k => s.uniforms (k + 1) })
  normal s := (s.normals 0, { s with normals := fun k => s.normals (k + 1) })
  checksRanges := true

namespace Draw

variable {σ : Type} [DrawSource σ ℝ]

/-- Two real numbers are a finite distance apart. -/
theorem between_real (a b : ℝ) :
    (between a b : ChoiceM σ ℝ ℝ) =
      ChoiceM.draw DrawSource.uniform >>= fun u => pure (a + (b - a) * u) := by
  show checkRange true _ >>= _ = _
  rw [checkRange_true, pure_bind]

end Draw

end BoxSearch
