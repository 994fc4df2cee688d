import BoxSearch.Proofs.Doubles.Wholes

/-!
# Values of doubles

A double that is not undefined stands for a real number or for an infinity, and doubles compare like
what they stand for: the one with the larger exponent is larger, because its leading bit is not hidden,
and both zeros stand for zero.
-/

namespace BoxSearch

/-- What a reading stands for, if it is defined. -/
noncomputable def Reading.value : Reading → Option EReal
  | undefined => none
  | infinite true => some ⊥
  | infinite false => some ⊤
  | finite negative mantissa exponent =>
    let magnitude : ℝ := mantissa * ((2 : ℕ) : ℝ) ^ exponent
    some ((if negative then -magnitude else magnitude : ℝ) : EReal)

namespace Double

open Float.Model Float.Model.UnpackedFloat

/-- What a double stands for, if it is defined. -/
noncomputable def value (x : Float) : Option EReal := (Reading.ofFloat x).value

/-! ## 1. Magnitudes -/

/-- A mantissa has at most 53 bits, and all of them unless its exponent is the least one. -/
def IsCanonical (m : ℕ) (e : ℤ) : Prop :=
  ∃ k : ℕ, e = k - 1074 ∧ m < 2 ^ 53 ∧ (k = 0 ∨ m.log2 = 52)

/-- Magnitudes compare by their exponents first. -/
theorem magnitude_lt {m m' : ℕ} {e e' : ℤ} (h : IsCanonical m e) (h' : IsCanonical m' e') (hm' : 0 < m')
    (hlt : e < e' ∨ e = e' ∧ m < m') : (m : ℝ) * 2 ^ e < m' * 2 ^ e' := by
  have hpos (i : ℤ) : (0 : ℝ) < 2 ^ i := zpow_pos two_pos i
  rcases hlt with hexponent | ⟨rfl, hmantissa⟩
  · obtain ⟨k, rfl, hbits, -⟩ := h
    obtain ⟨k', rfl, -, hnormal⟩ := h'
    have hlow : 2 ^ 52 ≤ m' := by
      rcases hnormal with rfl | hlog
      · omega
      · exact ((Nat.log2_eq_iff hm'.ne').mp hlog).1
    calc (m : ℝ) * 2 ^ ((k : ℤ) - 1074)
        < 2 ^ 53 * 2 ^ ((k : ℤ) - 1074) := by
          have hcast : (m : ℝ) < 2 ^ 53 := by exact_mod_cast hbits
          exact mul_lt_mul_of_pos_right hcast (hpos _)
      _ = 2 ^ 52 * 2 ^ ((k : ℤ) - 1074 + 1) := by
          rw [zpow_add_one₀ two_ne_zero]
          ring
      _ ≤ 2 ^ 52 * 2 ^ ((k' : ℤ) - 1074) := by
          gcongr
          · exact one_le_two
          · omega
      _ ≤ m' * 2 ^ ((k' : ℤ) - 1074) := by
          have hcast : (2 : ℝ) ^ 52 ≤ m' := by exact_mod_cast hlow
          exact mul_le_mul_of_nonneg_right hcast (hpos _).le
  · exact mul_lt_mul_of_pos_right (Nat.cast_lt.mpr hmantissa) (hpos e)

/-! ## 2. Values -/

/-- What an unpacked double stands for. -/
noncomputable def valueOf (u : UnpackedFloat) : Option EReal := (readingOf u).value

theorem value_eq (x : Float) : value x = valueOf x.toModel.unpack := by
  unfold value
  rw [ofFloat_eq]
  rfl

/-- What is unpacked of a double. -/
def IsUnpacked : UnpackedFloat → Prop
  | .finite _ m e _ => IsCanonical m e
  | _ => True

theorem isUnpacked (x : Float) : IsUnpacked x.toModel.unpack := by
  cases h : x.toModel.unpack with
  | finite s m e hm =>
    obtain ⟨k, he, hbits, -, hnormal⟩ := exists_exponent h
    exact ⟨k, he, hbits, hnormal⟩
  | _ => trivial

/-- An unpacked double stands for something if it has a key. -/
theorem exists_valueOf_iff {u : UnpackedFloat} : (∃ a, a ∈ valueOf u) ↔ ∃ k, k ∈ key u := by
  rcases u with (_ | _) | _ | s | ⟨(_ | _), m, e, hm⟩
  case notANumber => exact iff_of_false (fun ⟨_, h⟩ => nomatch h) fun ⟨_, h⟩ => nomatch h
  all_goals exact iff_of_true ⟨_, rfl⟩ ⟨_, rfl⟩

theorem valueOf_infinity (s : Sign) :
    valueOf (.infinity s) = some (if isNegative s then ⊥ else ⊤) := by
  cases s <;> rfl

theorem valueOf_zero (s : Sign) : valueOf (.zero s) = some 0 := by
  unfold valueOf readingOf Reading.value
  simp

theorem valueOf_positive {m : ℕ} {e : ℤ} {hm : 0 < m} :
    valueOf (.finite .positive m e hm) = some ((m * 2 ^ e : ℝ) : EReal) := by
  unfold valueOf readingOf Reading.value isNegative
  simp

theorem valueOf_negative {m : ℕ} {e : ℤ} {hm : 0 < m} :
    valueOf (.finite .negative m e hm) = some ((-(m * 2 ^ e) : ℝ) : EReal) := by
  unfold valueOf readingOf Reading.value isNegative
  simp

/-- What has the smaller key stands for less. -/
theorem valueOf_lt {u w : UnpackedFloat} (hu : IsUnpacked u) (hw : IsUnpacked w)
    {k l : ℤ ×ₗ ℤ ×ₗ ℤ} (hk : k ∈ key u) (hl : l ∈ key w) (hkl : k < l) {a b : EReal}
    (ha : a ∈ valueOf u) (hb : b ∈ valueOf w) : a < b := by
  have hpos {m : ℕ} (hm : 0 < m) (e : ℤ) : (0 : ℝ) < m * 2 ^ e :=
    mul_pos (Nat.cast_pos.mpr hm) (zpow_pos two_pos e)
  rcases u with (_ | _) | _ | s | ⟨(_ | _), m, e, hm⟩ <;>
    rcases w with (_ | _) | _ | t | ⟨(_ | _), m', e', hm'⟩ <;>
    simp only [key, Option.mem_def, Option.some.injEq, reduceCtorEq] at hk hl <;>
    subst hk <;> subst hl <;>
    simp [Prod.Lex.toLex_lt_toLex] at hkl <;>
    simp only [valueOf_infinity, valueOf_zero, valueOf_positive, valueOf_negative, Option.mem_def,
      Option.some.injEq] at ha hb <;>
    subst ha <;> subst hb
  case finite.negative.finite.negative =>
    have hmagnitude := magnitude_lt hw hu hm (by omega)
    exact EReal.coe_lt_coe_iff.mpr (neg_lt_neg hmagnitude)
  case finite.positive.finite.positive =>
    exact EReal.coe_lt_coe_iff.mpr (magnitude_lt hu hw hm' hkl)
  -- Numbers on different sides of zero.
  case finite.negative.finite.positive =>
    exact EReal.coe_lt_coe_iff.mpr ((neg_neg_of_pos (hpos hm e)).trans (hpos hm' e'))
  case finite.negative.zero => exact EReal.coe_neg'.mpr (neg_neg_of_pos (hpos hm e))
  case zero.finite.positive => exact EReal.coe_pos.mpr (hpos hm' e')
  -- Below or above them all are the infinities.
  case infinity.negative.infinity.positive => exact bot_lt_top
  case infinity.negative.zero => exact EReal.bot_lt_zero
  case zero.infinity.positive => exact EReal.zero_lt_top
  case infinity.negative.finite.negative | infinity.negative.finite.positive =>
    exact EReal.bot_lt_coe _
  case finite.negative.infinity.positive | finite.positive.infinity.positive =>
    exact EReal.coe_lt_top _

/-- What has the same key stands for the same: only the zeros share theirs. -/
theorem valueOf_eq {u w : UnpackedFloat} {k : ℤ ×ₗ ℤ ×ₗ ℤ} (hk : k ∈ key u) (hl : k ∈ key w) :
    valueOf u = valueOf w := by
  rcases u with (_ | _) | _ | s | ⟨(_ | _), m, e, hm⟩ <;>
    rcases w with (_ | _) | _ | t | ⟨(_ | _), m', e', hm'⟩ <;>
    simp only [key, Option.mem_def, Option.some.injEq, reduceCtorEq] at hk hl <;>
    subst hk <;>
    simp at hl
  case infinity.negative.infinity.negative | infinity.positive.infinity.positive => rfl
  case zero.zero => rw [valueOf_zero, valueOf_zero]
  case finite.negative.finite.negative | finite.positive.finite.positive =>
    obtain ⟨rfl, rfl⟩ := hl
    rfl

/-! ## 3. Comparisons -/

theorem valueOf_lt_iff {u w : UnpackedFloat} (hu : IsUnpacked u) (hw : IsUnpacked w)
    {k l : ℤ ×ₗ ℤ ×ₗ ℤ} (hk : k ∈ key u) (hl : l ∈ key w) {a b : EReal} (ha : a ∈ valueOf u)
    (hb : b ∈ valueOf w) : a < b ↔ k < l := by
  rcases lt_trichotomy k l with hlt | rfl | hgt
  · exact iff_of_true (valueOf_lt hu hw hk hl hlt ha hb) hlt
  · rw [valueOf_eq hk hl] at ha
    obtain rfl := Option.mem_unique ha hb
    exact iff_of_false (lt_irrefl a) (lt_irrefl k)
  · exact iff_of_false (valueOf_lt hw hu hl hk hgt hb ha).not_gt hgt.not_gt

/-- One double is below another if it stands for less. -/
theorem lt_iff_value (x y : Float) : x < y ↔ ∃ a ∈ value x, ∃ b ∈ value y, a < b := by
  rw [lt_iff, value_eq, value_eq]
  constructor
  · rintro ⟨k, hk, l, hl, hlt⟩
    obtain ⟨a, ha⟩ := exists_valueOf_iff.mpr ⟨k, hk⟩
    obtain ⟨b, hb⟩ := exists_valueOf_iff.mpr ⟨l, hl⟩
    exact ⟨a, ha, b, hb, (valueOf_lt_iff (isUnpacked x) (isUnpacked y) hk hl ha hb).mpr hlt⟩
  · rintro ⟨a, ha, b, hb, hlt⟩
    obtain ⟨k, hk⟩ := exists_valueOf_iff.mp ⟨a, ha⟩
    obtain ⟨l, hl⟩ := exists_valueOf_iff.mp ⟨b, hb⟩
    exact ⟨k, hk, l, hl, (valueOf_lt_iff (isUnpacked x) (isUnpacked y) hk hl ha hb).mp hlt⟩

theorem le_iff_value (x y : Float) : x ≤ y ↔ ∃ a ∈ value x, ∃ b ∈ value y, a ≤ b := by
  rw [le_iff, value_eq, value_eq]
  constructor
  · rintro ⟨k, hk, l, hl, hle⟩
    obtain ⟨a, ha⟩ := exists_valueOf_iff.mpr ⟨k, hk⟩
    obtain ⟨b, hb⟩ := exists_valueOf_iff.mpr ⟨l, hl⟩
    refine ⟨a, ha, b, hb, not_lt.mp fun hlt => hle.not_gt ?_⟩
    exact (valueOf_lt_iff (isUnpacked y) (isUnpacked x) hl hk hb ha).mp hlt
  · rintro ⟨a, ha, b, hb, hle⟩
    obtain ⟨k, hk⟩ := exists_valueOf_iff.mp ⟨a, ha⟩
    obtain ⟨l, hl⟩ := exists_valueOf_iff.mp ⟨b, hb⟩
    refine ⟨k, hk, l, hl, not_lt.mp fun hlt => hle.not_gt ?_⟩
    exact (valueOf_lt_iff (isUnpacked y) (isUnpacked x) hl hk hb ha).mpr hlt

theorem value_zero : value 0.0 = some 0 := by
  have hreading : Reading.ofFloat 0.0 = .finite false 0 (-1074) := by decide +kernel
  unfold value
  rw [hreading]
  simp [Reading.value]

theorem value_one : value 1.0 = some 1 := by
  have hreading : Reading.ofFloat 1.0 = .finite false (2 ^ 52) (-52) := by decide +kernel
  unfold value
  rw [hreading]
  unfold Reading.value
  norm_num

end Double

end BoxSearch
