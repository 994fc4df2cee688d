import BoxSearch.Proofs.Doubles.Magnitudes

/-!
# Whole doubles

A double is read from its bits as the model of doubles unpacks them.  Rounding to a whole number leaves
doubles of `2 ^ 52` or more as they are, and leads from the others to integers of at most that size,
which are doubles: what has been rounded is rounded to itself.
-/

namespace BoxSearch

namespace Double

open Float.Model Float.Model.UnpackedFloat

/-! ## 1. Readings -/

def isNegative : Sign → Bool
  | .positive => false
  | .negative => true

/-- What is read of an unpacked double. -/
def readingOf : UnpackedFloat → Reading
  | .notANumber => .undefined
  | .infinity s => .infinite (isNegative s)
  | .zero s => .finite (isNegative s) 0 Reading.leastExponent
  | .finite s m e _ => .finite (isNegative s) m e

theorem isNegative_unpackSign (b : BitVec 64) :
    isNegative (Sign.ofBitVec (@unpackSign Format.binary64 b)) =
      (b.toNat / 9223372036854775808 % 2 == 1) := by
  have hvalue : (@unpackSign Format.binary64 b).toNat = b.toNat / 9223372036854775808 % 2 := by
    show ((b.toNat >>> 63) % 2 ^ 1) = _
    rw [Nat.shiftRight_eq_div_pow]
  unfold Sign.ofBitVec
  rw [← hvalue]
  generalize @unpackSign Format.binary64 b = s
  revert s
  decide

theorem toNat_unpackExponent (b : BitVec 64) :
    (@unpackExponent Format.binary64 b).toNat = b.toNat / 4503599627370496 % 2048 := by
  show ((b.toNat >>> 52) % 2 ^ 11) = _
  rw [Nat.shiftRight_eq_div_pow]

theorem toNat_unpackMantissa (b : BitVec 64) :
    (@unpackMantissa Format.binary64 b).toNat = b.toNat % 4503599627370496 := by
  show ((b.toNat >>> 0) % 2 ^ 52) = _
  rfl

/-- The fields are those that are unpacked. -/
theorem ofFields_eq (b : BitVec 64) :
    Reading.ofFields (isNegative (Sign.ofBitVec (@unpackSign Format.binary64 b)))
        (@unpackExponent Format.binary64 b).toNat (@unpackMantissa Format.binary64 b).toNat =
      readingOf (UnpackedFloat.unpack Format.binary64 b) := by
  have hlargest : (@unpackExponent Format.binary64 b).toNat = 2047 ↔
      @unpackExponent Format.binary64 b = -1#11 := BitVec.toNat_inj (y := -1#11)
  have hleast : (@unpackExponent Format.binary64 b).toNat = 0 ↔
      @unpackExponent Format.binary64 b = 0#11 := BitVec.toNat_inj (y := 0#11)
  have hnone : (@unpackMantissa Format.binary64 b).toNat = 0 ↔
      @unpackMantissa Format.binary64 b = 0#52 := BitVec.toNat_inj (y := 0#52)
  unfold Reading.ofFields UnpackedFloat.unpack
  dsimp only
  simp only [hlargest, hleast, hnone]
  split_ifs with hinfinite hzero hsmall hzero
  · rfl
  · rfl
  · rw [hnone.mpr hzero]
    rfl
  · rw [hsmall]
    rfl
  · have hpos := hleast.not.mpr hsmall
    generalize (@unpackExponent Format.binary64 b) = field at hpos ⊢
    have hexponent : Reading.leastExponent + ((field.toNat - 1 : ℕ) : ℤ) =
        (field.toNat : ℤ) - (1023 + 52) := by
      unfold Reading.leastExponent
      omega
    rw [hexponent]
    exact congrArg (Reading.finite _ · _) (toNat_leadingOne _).symm

theorem ofFloat_eq (x : Float) : Reading.ofFloat x = readingOf x.toModel.unpack := by
  show Reading.ofFields (x.toModel.toBits.toBitVec.toNat / _ % 2 == 1)
    (x.toModel.toBits.toBitVec.toNat / _ % _) (x.toModel.toBits.toBitVec.toNat % _) = _
  rw [← isNegative_unpackSign, ← toNat_unpackExponent, ← toNat_unpackMantissa]
  exact ofFields_eq _

/-! ## 2. Integers -/

/-- Small integers are doubles. -/
theorem unpack_ofInt {k : ℤ} (hk : k ≠ 0) (hsmall : k.natAbs ≤ 2 ^ 52) :
    ∃ hm, (Float.ofInt k).toModel.unpack =
      .finite (if k < 0 then .negative else .positive) (k.natAbs * 2 ^ (52 - k.natAbs.log2))
        (((k.natAbs.log2 + 1022 : ℕ) : ℤ) - 1074) hm := by
  have hpos := Int.natAbs_pos.mpr hk
  have hlt : k.natAbs < 2 ^ 53 := hsmall.trans_lt (by norm_num)
  obtain ⟨hm, hunpack⟩ := unpack_ofNat hpos hlt
  refine ⟨hm, ?_⟩
  cases k with
  | ofNat n =>
    have hnonneg : ¬Int.ofNat n < 0 := (Int.natCast_nonneg n).not_gt
    rw [if_neg hnonneg]
    exact hunpack
  | negSucc n =>
    rw [if_pos (Int.negSucc_lt_zero n)]
    -- The opposite of a count is packed like the count.
    have hlog : (Int.negSucc n).natAbs.log2 < 53 := (Nat.log2_lt hpos.ne').mpr hlt
    show (Float.Model.pack (Scalar.ofNat (Int.negSucc n).natAbs : Float).toModel.unpack.neg).unpack = _
    rw [hunpack]
    exact unpack_pack_normal (log2_appended hpos hlt) (by omega)

theorem isFinite_ofInt {k : ℤ} (hsmall : k.natAbs ≤ 2 ^ 52) : (Float.ofInt k).isFinite = true := by
  by_cases hk : k = 0
  · subst hk
    rfl
  · obtain ⟨hm, hunpack⟩ := unpack_ofInt hk hsmall
    show (Float.ofInt k).toModel.unpack.isFinite = true
    rw [hunpack]
    rfl

theorem roundQuot_mul (k : ℕ) {den : ℕ} (h : 0 < den) : roundQuot (k * den) den = k := by
  unfold roundQuot
  rw [Nat.mul_mod_left, Nat.mul_div_cancel k h, if_pos h]

theorem roundQuot_le {num den c : ℕ} (h : 0 < den) (hle : num ≤ c * den) : roundQuot num den ≤ c := by
  have hround := two_mul_roundQuot_le num den h
  by_contra hlt
  have hmul : den * (c + 1) ≤ den * roundQuot num den := Nat.mul_le_mul_left _ (not_le.mp hlt)
  rw [mul_add, mul_one, mul_comm den c] at hmul
  omega

theorem nearest_finite (negative : Bool) (m : ℕ) (e : ℤ) :
    (Reading.finite negative m e).nearest =
      if negative then -(roundQuot (Reading.ratio m e).1 (Reading.ratio m e).2 : ℤ)
      else roundQuot (Reading.ratio m e).1 (Reading.ratio m e).2 := rfl

/-- The zeros that are appended to a small count lie behind the point. -/
theorem roundQuot_ratio {k bits : ℕ} (hbits : bits ≤ 52) :
    roundQuot (Reading.ratio (k * 2 ^ (52 - bits)) (((bits + 1022 : ℕ) : ℤ) - 1074)).1
      (Reading.ratio (k * 2 ^ (52 - bits)) (((bits + 1022 : ℕ) : ℤ) - 1074)).2 = k := by
  unfold Reading.ratio
  split_ifs with hexponent
  · obtain rfl : bits = 52 := by omega
    exact (congrArg (roundQuot · 1) (Nat.mul_one _)).trans (roundQuot_mul k Nat.one_pos)
  · have hpower : (-(((bits + 1022 : ℕ) : ℤ) - 1074)).toNat = 52 - bits := by omega
    rw [hpower]
    exact roundQuot_mul k (Nat.two_pow_pos _)

/-- An integer is read back from its double. -/
theorem nearest_ofInt {k : ℤ} (hsmall : k.natAbs ≤ 2 ^ 52) :
    (Reading.ofFloat (Float.ofInt k)).nearest = k := by
  rw [ofFloat_eq]
  by_cases hk : k = 0
  · subst hk
    decide +kernel
  · obtain ⟨hm, hunpack⟩ := unpack_ofInt hk hsmall
    have hlog : k.natAbs.log2 < 53 :=
      (Nat.log2_lt (Int.natAbs_ne_zero.mpr hk)).mpr (hsmall.trans_lt (by norm_num))
    rw [hunpack, readingOf, nearest_finite, roundQuot_ratio (Nat.le_of_lt_succ hlog)]
    by_cases hneg : k < 0
    · rw [if_pos hneg, isNegative, if_pos rfl]
      omega
    · rw [if_neg hneg, isNegative, if_neg Bool.false_ne_true]
      omega

/-! ## 3. Rounding -/

/-- A double that is rounded has bits behind the point. -/
theorem exponent_neg_of_abs_lt {x : Float} (hx : x.abs < 4503599627370496.0) {s : Sign} {m : ℕ} {e : ℤ}
    {hm : 0 < m} (hunpack : x.toModel.unpack = .finite s m e hm) : e < 0 := by
  obtain ⟨k, rfl, hmantissa, hk, hbits⟩ := exists_exponent hunpack
  rcases hbits with rfl | hbits
  · norm_num
  · have habs : x.abs.toModel.unpack = .finite .positive m (k - 1074) hm := by
      show (Float.Model.pack x.toModel.unpack.abs).unpack = _
      rw [hunpack]
      exact unpack_pack_normal hbits hk
    have hlimit : key (4503599627370496.0 : Float).toModel.unpack =
        some (toLex (1, toLex (0, 4503599627370496))) := by decide +kernel
    obtain ⟨a, ha, b, hb, hab⟩ := (lt_iff _ _).mp hx
    rw [habs] at ha
    rw [hlimit] at hb
    obtain rfl := Option.some.inj ha
    obtain rfl := Option.some.inj hb
    rcases Prod.Lex.toLex_lt_toLex.mp hab with h | ⟨-, h⟩
    · exact absurd h (lt_irrefl _)
    · rcases Prod.Lex.toLex_lt_toLex.mp h with h | ⟨-, h⟩
      · exact h
      · have hlow := ((Nat.log2_eq_iff hm.ne').mp hbits).1
        dsimp only at h
        omega

theorem natAbs_nearest_le {x : Float} (hx : x.abs < 4503599627370496.0) :
    (Reading.ofFloat x).nearest.natAbs ≤ 2 ^ 52 := by
  rw [ofFloat_eq]
  cases hunpack : x.toModel.unpack with
  | notANumber => exact Nat.zero_le _
  | infinity s => exact Nat.zero_le _
  | zero s => cases s <;> decide +kernel
  | finite s m e hm =>
    have hneg := exponent_neg_of_abs_lt hx hunpack
    obtain ⟨-, -, hmantissa, -, -⟩ := exists_exponent hunpack
    have hround : roundQuot m (2 ^ (-e).toNat) ≤ 2 ^ 52 := by
      refine roundQuot_le (Nat.two_pow_pos _) ?_
      rw [← pow_add]
      exact hmantissa.le.trans (Nat.pow_le_pow_right Nat.two_pos (by omega))
    rw [readingOf, nearest_finite, Reading.ratio, if_neg hneg.not_ge]
    split_ifs
    · rw [Int.natAbs_neg]
      exact hround
    · exact hround

/-- A finite double is rounded to a small integer, or is large and stays. -/
theorem nearestWhole_cases {x : Float} (hx : x.isFinite = true) :
    (∃ k : ℤ, k.natAbs ≤ 2 ^ 52 ∧ Float.nearestWhole x = Float.ofInt k) ∨
      ¬x.abs < 4503599627370496.0 ∧ Float.nearestWhole x = x := by
  by_cases hlt : x.abs < 4503599627370496.0
  · refine .inl ⟨_, natAbs_nearest_le hlt, ?_⟩
    unfold Float.nearestWhole
    rw [hx, decide_eq_true hlt, Bool.and_true, if_pos rfl]
  · refine .inr ⟨hlt, ?_⟩
    unfold Float.nearestWhole
    rw [decide_eq_false hlt, Bool.and_false, if_neg Bool.false_ne_true]

theorem nearestWhole_ofInt {k : ℤ} (hsmall : k.natAbs ≤ 2 ^ 52) :
    Float.nearestWhole (Float.ofInt k) = Float.ofInt k := by
  unfold Float.nearestWhole
  split_ifs
  · rw [nearest_ofInt hsmall]
  · rfl

end Double

/-- What has been rounded to a whole number is finite and is rounded to itself. -/
class Scalar.Rounds (α : Type) [Scalar α] : Prop extends Scalar.Total α where
  isFinite_nearest : ∀ {a : α}, Scalar.isFinite a = true → Scalar.isFinite (Scalar.nearest a) = true
  nearest_nearest : ∀ {a : α}, Scalar.isFinite a = true →
    Scalar.nearest (Scalar.nearest a) = Scalar.nearest a

instance : Scalar.Rounds ℝ where
  isFinite_nearest _ := rfl
  nearest_nearest {a} _ := congrArg Int.cast (roundHalfEven_intCast (roundHalfEven a))

instance : Scalar.Rounds Float where
  isFinite_nearest {a} ha := by
    show (Float.nearestWhole a).isFinite = true
    rcases Double.nearestWhole_cases ha with ⟨k, hk, h⟩ | ⟨-, h⟩
    · exact h ▸ Double.isFinite_ofInt hk
    · rwa [h]
  nearest_nearest {a} ha := by
    show Float.nearestWhole (Float.nearestWhole a) = Float.nearestWhole a
    rcases Double.nearestWhole_cases ha with ⟨k, hk, h⟩ | ⟨-, h⟩
    · rw [h]
      exact Double.nearestWhole_ofInt hk
    · rw [h, h]

end BoxSearch
