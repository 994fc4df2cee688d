import BoxSearch.Proofs.Doubles.Signs

/-!
# Magnitudes of doubles

Infinities come from overflow.  Magnitudes are counted in units of the least positive double, and since
rounding does not go beyond what can be represented, the magnitude of a sum is at most that of its terms
together: sums whose terms are small enough do not overflow, in whichever order they are taken.
-/

namespace BoxSearch.Double

open Float.Model Float.Model.UnpackedFloat

/-! ## 1. Rounding -/

theorem mantissa_shiftRight (em : ExtendedMantissa) (k : ℕ) :
    (em >>> k).mantissa = em.mantissa / 2 ^ k := by
  induction k with
  | zero => exact (Nat.div_one _).symm
  | succ k ih =>
    show (em >>> k).mantissa / 2 = _
    rw [ih, Nat.div_div_eq_div_mul, pow_succ]

/-- Nothing is lost where only zeros are shifted out. -/
theorem shiftRight_exact (m k : ℕ) :
    (⟨m * 2 ^ k, false, false⟩ : ExtendedMantissa) >>> k = ⟨m, false, false⟩ := by
  induction k generalizing m with
  | zero => rw [pow_zero, mul_one]; rfl
  | succ k ih =>
    have hbefore := ih (m * 2)
    rw [mul_assoc, ← pow_succ'] at hbefore
    show ((⟨m * 2 ^ (k + 1), false, false⟩ : ExtendedMantissa) >>> k).shiftRightOne = _
    rw [hbefore]
    simp [ExtendedMantissa.shiftRightOne]

theorem roundedMantissa_le (em : ExtendedMantissa) : em.roundedMantissa ≤ em.mantissa + 1 := by
  obtain ⟨m, round, sticky⟩ := em
  cases round <;> cases sticky <;>
    simp only [ExtendedMantissa.roundedMantissa, ExtendedMantissa.accuracy,
      Accuracy.roundToNearestEven] <;> omega

/-- Rounding does not go beyond what can be represented. -/
theorem roundedMantissa_shiftRight_le {m c k : ℕ} (h : m ≤ c * 2 ^ k) :
    ((⟨m, false, false⟩ : ExtendedMantissa) >>> k).roundedMantissa ≤ c := by
  rcases h.eq_or_lt with rfl | hlt
  · rw [shiftRight_exact]
    exact le_rfl
  · have hround := roundedMantissa_le ((⟨m, false, false⟩ : ExtendedMantissa) >>> k)
    rw [mantissa_shiftRight] at hround
    exact hround.trans (Nat.div_lt_of_lt_mul (mul_comm c _ ▸ hlt))

theorem shiftToTargetExponent_eq (m k : ℕ) :
    shiftToTargetExponent Format.binary64 m (k - 1074) .exact =
      ((⟨m, false, false⟩ : ExtendedMantissa) >>> (m.log2 - 52),
        ((k + (m.log2 - 52) : ℕ) : ℤ) - 1074) := by
  have hshift : (Format.binary64.targetExponent (totalExponent m (k - 1074)) - (k - 1074 : ℤ)).toNat =
      m.log2 - 52 := by
    simp only [Format.targetExponent, totalExponent, Format.mantissaBits, Format.minExponent]
    norm_num
    omega
  unfold shiftToTargetExponent shiftToExponent
  dsimp only
  rw [hshift]
  refine Prod.ext rfl ?_
  show (k - 1074 : ℤ) + ((m.log2 - 52 : ℕ) : ℤ) = _
  push_cast
  ring

/-- A double with exponent `k - 1074` is rounded to 53 bits. -/
theorem roundWithAccuracy_eq (s : Sign) (m k : ℕ) :
    roundWithAccuracy Format.binary64 s m (k - 1074) .exact =
      let r := ((⟨m, false, false⟩ : ExtendedMantissa) >>> (m.log2 - 52)).roundedMantissa
      let t := k + (m.log2 - 52)
      if h : r / 2 ^ (r.log2 - 52) = 0 then .zero s
      else .finite s (r / 2 ^ (r.log2 - 52)) (((t + (r.log2 - 52) : ℕ) : ℤ) - 1074)
        (Nat.pos_of_ne_zero h) := by
  unfold roundWithAccuracy
  rw [shiftToTargetExponent_eq]
  dsimp only
  simp only [shiftToTargetExponent_eq, mantissa_shiftRight]

/-- Bits are added to a mantissa that has less than 53, as far as the exponent allows it. -/
theorem round_eq (s : Sign) (m k : ℕ) :
    UnpackedFloat.round Format.binary64 s m (k - 1074) =
      roundWithAccuracy Format.binary64 s (m * 2 ^ (k - (m.log2 + k - 52)))
        (((k - (k - (m.log2 + k - 52)) : ℕ) : ℤ) - 1074) .exact := by
  have hshift : ((k - 1074 : ℤ) - Format.binary64.targetExponent (totalExponent m (k - 1074))).toNat =
      k - (m.log2 + k - 52) := by
    simp only [Format.targetExponent, totalExponent, Format.mantissaBits, Format.minExponent]
    norm_num
    omega
  have hexponent : (k - 1074 : ℤ) - ((k - (m.log2 + k - 52) : ℕ) : ℤ) =
      ((k - (k - (m.log2 + k - 52)) : ℕ) : ℤ) - 1074 := by
    omega
  unfold UnpackedFloat.round decreaseExponent
  dsimp only
  rw [hshift, hexponent, Nat.shiftLeft_eq]

/-! ## 2. Whole numbers -/

theorem log2_mul_pow {m : ℕ} (hm : m ≠ 0) (j : ℕ) : (m * 2 ^ j).log2 = m.log2 + j := by
  refine (Nat.log2_eq_iff (Nat.mul_ne_zero hm (Nat.two_pow_pos j).ne')).mpr ⟨?_, ?_⟩
  · rw [pow_add]
    exact Nat.mul_le_mul_right _ (Nat.log2_self_le hm)
  · rw [add_right_comm, pow_add]
    exact Nat.mul_lt_mul_of_pos_right Nat.lt_log2_self (Nat.two_pow_pos j)

/-- A mantissa that is 53 bits and zeros behind them is rounded to these bits. -/
theorem roundWithAccuracy_exact (s : Sign) {m : ℕ} (hm : 0 < m) (hlog : m.log2 = 52) (j k : ℕ) :
    roundWithAccuracy Format.binary64 s (m * 2 ^ j) (k - 1074) .exact =
      .finite s m (((k + j : ℕ) : ℤ) - 1074) hm := by
  have hshift : (m * 2 ^ j).log2 - 52 = j := by
    rw [log2_mul_pow hm.ne', hlog, Nat.add_sub_cancel_left]
  have hround : (⟨m, false, false⟩ : ExtendedMantissa).roundedMantissa = m := rfl
  have hrest : m.log2 - 52 = 0 := by rw [hlog]
  rw [roundWithAccuracy_eq]
  simp only [hshift, shiftRight_exact, hround, hrest, pow_zero, Nat.div_one, add_zero]
  rw [dif_neg hm.ne']

theorem pack_eq {s : Sign} {m k : ℕ} {hm : 0 < m} (hk : k ≤ 2045) :
    UnpackedFloat.pack Format.binary64 (.finite s m (k - 1074) hm) =
      packComponents Format.binary64 s (if m.log2 = 52 then BitVec.ofNat 11 (k + 1) else 0#11)
        (BitVec.ofNat 52 m) := by
  have hbiased : ((k : ℤ) - 1074 + Format.binary64.exponentBias +
      Format.binary64.mantissaBitsWithoutImplicit).toNat = k + 1 := by
    show ((k : ℤ) - 1074 + 1023 + 52).toNat = k + 1
    omega
  have hfits : ¬2 ^ Format.binary64.exponentBits ≤ k + 1 + 1 := by
    show ¬2 ^ 11 ≤ k + 1 + 1
    omega
  unfold UnpackedFloat.pack
  dsimp only
  rw [hbiased, if_neg hfits, apply_ite (packComponents Format.binary64 s · (BitVec.ofNat 52 m))]
  exact if_congr Nat.succ_inj rfl rfl

/-- The leading bit of a normal number is not among its bits. -/
theorem toNat_leadingOne (m : BitVec 52) : (1#1 ++ m).toNat = 2 ^ 52 + m.toNat := by
  have hor := Nat.two_pow_add_eq_or_of_lt m.isLt 1
  rw [BitVec.toNat_append, Nat.shiftLeft_eq]
  show 2 ^ 52 * 1 ||| m.toNat = _
  rw [← hor]
  rfl

/-- Numbers in the normal range are packed as they are. -/
theorem unpack_pack_normal {s : Sign} {m k : ℕ} {hm : 0 < m} (hlog : m.log2 = 52) (hk : k ≤ 2045) :
    (Float.Model.pack (.finite s m (k - 1074) hm)).unpack = .finite s m (k - 1074) hm := by
  obtain ⟨hlo, hhi⟩ := (Nat.log2_eq_iff hm.ne').mp hlog
  have hexponent : (BitVec.ofNat 11 (k + 1)).toNat = k + 1 := by
    rw [BitVec.toNat_ofNat, Nat.mod_eq_of_lt (by omega)]
  have hmantissa : (1#1 ++ BitVec.ofNat 52 m).toNat = m := by
    rw [toNat_leadingOne, BitVec.toNat_ofNat]
    omega
  have hone : BitVec.ofNat 11 (k + 1) ≠ -1#11 := fun h => by
    have : k + 1 = 2047 := hexponent.symm.trans (congrArg BitVec.toNat h)
    omega
  have hzero : BitVec.ofNat 11 (k + 1) ≠ 0#11 := fun h => by
    have : k + 1 = 0 := hexponent.symm.trans (congrArg BitVec.toNat h)
    omega
  show UnpackedFloat.unpack Format.binary64 (UnpackedFloat.pack Format.binary64 _) = _
  rw [pack_eq hk, if_pos hlog]
  unfold UnpackedFloat.unpack
  simp only [unpackExponent_packComponents, unpackMantissa_packComponents,
    unpackSign_packComponents, Sign.ofBitVec_toBitVec]
  rw [if_neg hone, if_neg hzero]
  simp only [hmantissa, hexponent]
  congr 1
  show ((k + 1 : ℕ) : ℤ) - (1023 + 52) = k - 1074
  omega

/-- The zeros that are appended to a small count make it 53 bits long. -/
theorem log2_appended {k : ℕ} (hpos : 0 < k) (hk : k < 2 ^ 53) :
    (k * 2 ^ (52 - k.log2)).log2 = 52 := by
  have hlog : k.log2 < 53 := (Nat.log2_lt hpos.ne').mpr hk
  rw [log2_mul_pow hpos.ne']
  omega

theorem ofNat_eq {k : ℕ} (hpos : 0 < k) (hk : k < 2 ^ 53) :
    ∃ hm, UnpackedFloat.ofNat Format.binary64 k =
      .finite .positive (k * 2 ^ (52 - k.log2)) (((k.log2 + 1022 : ℕ) : ℤ) - 1074) hm := by
  have hlog : k.log2 < 53 := (Nat.log2_lt hpos.ne').mpr hk
  have hm : 0 < k * 2 ^ (52 - k.log2) := Nat.mul_pos hpos (Nat.two_pow_pos _)
  have hzeros : 1074 - (k.log2 + 1074 - 52) = 52 - k.log2 := by omega
  have hexponent : 1074 - (52 - k.log2) = k.log2 + 1022 := by omega
  have hround := round_eq .positive k 1074
  have hexact := roundWithAccuracy_exact .positive hm (log2_appended hpos hk) 0 (k.log2 + 1022)
  rw [pow_zero, mul_one] at hexact
  rw [hzeros, hexponent, hexact] at hround
  refine ⟨hm, ?_⟩
  unfold UnpackedFloat.ofNat UnpackedFloat.ofInt UnpackedFloat.normalize
  rw [compare_gt_iff_gt.mpr (Nat.cast_pos.mpr hpos)]
  exact hround

/-- One is the double with which a product is what the other factor is. -/
theorem mul_one_eq {m k : ℕ} (hm : 0 < m) (hbits : m.log2 = 52) (hk : 52 ≤ k) :
    UnpackedFloat.mul Format.binary64 (.finite .positive m (k - 1074) hm)
        (Float.ofBits 0x3FF0000000000000).toModel.unpack =
      .finite .positive m (k - 1074) hm := by
  have hone : (Float.ofBits 0x3FF0000000000000).toModel.unpack =
      .finite .positive (2 ^ 52) (-52) (by norm_num) := by rfl
  have hexact := roundWithAccuracy_exact .positive hm hbits 52 (k - 52)
  have hexponent : (k - 1074 : ℤ) + (-52) = ((k - 52 : ℕ) : ℤ) - 1074 := by omega
  rw [Nat.sub_add_cancel hk] at hexact
  rw [hone]
  unfold UnpackedFloat.mul
  dsimp only
  rw [hexponent]
  exact hexact

/-- Small counts are doubles. -/
theorem unpack_ofNat {k : ℕ} (hpos : 0 < k) (hk : k < 2 ^ 53) :
    ∃ hm, (Scalar.ofNat k : Float).toModel.unpack =
      .finite .positive (k * 2 ^ (52 - k.log2)) (((k.log2 + 1022 : ℕ) : ℤ) - 1074) hm := by
  have hlog : k.log2 < 53 := (Nat.log2_lt hpos.ne').mpr hk
  have hbits := log2_appended hpos hk
  obtain ⟨hm, hcount⟩ := ofNat_eq hpos hk
  -- The number is read like a decimal, which multiplies it with a power of ten.
  have hliteral : (Scalar.ofNat k : Float) = k.toUInt64.toFloat * Float.ofBits 0x3FF0000000000000 := by
    show Float.ofScientific k false 0 = _
    unfold Float.ofScientific
    rw [dif_pos ⟨hk, Nat.zero_le _⟩]
    rfl
  have hword : k.toUInt64.toNat = k := UInt64.toNat_ofNat_of_lt (hk.trans (by norm_num))
  have hleft : k.toUInt64.toFloat.toModel.unpack =
      .finite .positive (k * 2 ^ (52 - k.log2)) (((k.log2 + 1022 : ℕ) : ℤ) - 1074) hm := by
    show (Float.Model.pack (UnpackedFloat.ofNat Format.binary64 k.toUInt64.toNat)).unpack = _
    rw [hword, hcount, unpack_pack_normal hbits (by omega)]
  refine ⟨hm, ?_⟩
  rw [hliteral]
  show (Float.Model.pack (UnpackedFloat.mul Format.binary64 _ _)).unpack = _
  rw [hleft, mul_one_eq hm hbits (by omega), unpack_pack_normal hbits (by omega)]

/-! ## 3. Magnitudes -/

/-- A finite double is at most so many units of `2 ^ -1074` away from zero.  If its exponent is not the
least one, the bound leaves room for 53 bits. -/
def Within (bound : ℕ) : UnpackedFloat → Prop
  | .zero _ => True
  | .finite _ m e _ => ∃ k : ℕ, e = k - 1074 ∧ m * 2 ^ k ≤ bound ∧ (k = 0 ∨ 2 ^ (k + 52) ≤ bound)
  | _ => False

theorem Within.mono {b b' : ℕ} {u : UnpackedFloat} (h : Within b u) (hle : b ≤ b') : Within b' u := by
  cases u with
  | notANumber => exact h
  | infinity s => exact h
  | zero s => trivial
  | finite s m e hm =>
    obtain ⟨k, hk, hbound, hroom⟩ := h
    exact ⟨k, hk, hbound.trans hle, hroom.imp_right hle.trans'⟩

theorem two_pow_le {m b k : ℕ} (hlog : 52 ≤ m.log2) (hm : m * 2 ^ k ≤ b) :
    2 ^ (k + (m.log2 - 52) + 52) ≤ b := by
  have hexponent : k + (m.log2 - 52) + 52 = m.log2 + k := by omega
  have hpos : m ≠ 0 := by
    rintro rfl
    exact absurd hlog (by decide)
  rw [hexponent, pow_add]
  exact (Nat.mul_le_mul_right _ (Nat.log2_self_le hpos)).trans hm

/-- A small number of units of a power of two bounds what is rounded if it bounds what is given. -/
theorem roundedMantissa_mul_le {m k c j : ℕ} (hc : c ≤ 2 ^ 52) (hm : m * 2 ^ k ≤ c * 2 ^ j) :
    ((⟨m, false, false⟩ : ExtendedMantissa) >>> (m.log2 - 52)).roundedMantissa *
      2 ^ (k + (m.log2 - 52)) ≤ c * 2 ^ j := by
  rcases Nat.eq_zero_or_pos (m.log2 - 52) with hshift | hshift
  · rw [hshift]
    exact hm
  · -- The last bit that is kept is not worth more than the unit of the bound.
    have hpower : 2 ^ (k + (m.log2 - 52) + 52) ≤ 2 ^ (52 + j) :=
      (two_pow_le (by omega) hm).trans ((Nat.mul_le_mul_right _ hc).trans_eq (pow_add 2 52 j).symm)
    have hexponent := (Nat.pow_le_pow_iff_right Nat.one_lt_two).mp hpower
    obtain ⟨d, rfl⟩ := Nat.exists_eq_add_of_le (by omega : k + (m.log2 - 52) ≤ j)
    have hmantissa : m ≤ c * 2 ^ d * 2 ^ (m.log2 - 52) := by
      refine Nat.le_of_mul_le_mul_right (hm.trans_eq ?_) (Nat.two_pow_pos k)
      ring
    calc _ ≤ c * 2 ^ d * 2 ^ (k + (m.log2 - 52)) :=
          Nat.mul_le_mul_right _ (roundedMantissa_shiftRight_le hmantissa)
      _ = c * 2 ^ (k + (m.log2 - 52) + d) := by ring

theorem within_roundWithAccuracy {s : Sign} {m k c j : ℕ} (hc : c ≤ 2 ^ 52)
    (hm : m * 2 ^ k ≤ c * 2 ^ j) (hk : k = 0 ∨ 52 ≤ m.log2) :
    Within (c * 2 ^ j) (roundWithAccuracy Format.binary64 s m (k - 1074) .exact) := by
  have hround := roundedMantissa_mul_le hc hm
  rw [roundWithAccuracy_eq]
  dsimp only
  generalize ((⟨m, false, false⟩ : ExtendedMantissa) >>> (m.log2 - 52)).roundedMantissa = r at hround ⊢
  split
  · trivial
  · refine ⟨_, rfl, ?_, ?_⟩
    · rw [pow_add, mul_left_comm, mul_comm]
      exact (Nat.mul_le_mul_right _ (Nat.div_mul_le_self _ _)).trans hround
    · rcases lt_or_ge r.log2 52 with hsmall | hlarge
      · rw [Nat.sub_eq_zero_of_le hsmall.le, add_zero]
        rcases lt_or_ge m.log2 52 with hshort | hlong
        · rw [Nat.sub_eq_zero_of_le hshort.le]
          exact .inl (hk.resolve_right hshort.not_ge)
        · exact .inr (two_pow_le hlong hm)
      · exact .inr (two_pow_le hlarge hround)

theorem within_round {s : Sign} {m k c j : ℕ} (hpos : m ≠ 0) (hc : c ≤ 2 ^ 52)
    (hm : m * 2 ^ k ≤ c * 2 ^ j) :
    Within (c * 2 ^ j) (UnpackedFloat.round Format.binary64 s m (k - 1074)) := by
  rw [round_eq]
  refine within_roundWithAccuracy hc ?_ ?_
  · rw [mul_assoc, ← pow_add]
    exact hm.trans' (Nat.mul_le_mul_left _ (Nat.pow_le_pow_right Nat.two_pos (by omega)))
  · rw [log2_mul_pow hpos]
    omega

theorem within_normalize {m : ℤ} {k c j : ℕ} (hc : c ≤ 2 ^ 52) (hm : m.natAbs * 2 ^ k ≤ c * 2 ^ j) :
    Within (c * 2 ^ j) (UnpackedFloat.normalize Format.binary64 m (k - 1074) .positive) := by
  unfold UnpackedFloat.normalize
  split <;> rename_i h
  · have hneg := compare_lt_iff_lt.mp h
    have habs : (-m).toNat = m.natAbs := by omega
    rw [habs]
    exact within_round (Int.natAbs_ne_zero.mpr hneg.ne) hc hm
  · trivial
  · have hpos := compare_gt_iff_gt.mp h
    have habs : m.toNat = m.natAbs := by omega
    rw [habs]
    exact within_round (Int.natAbs_ne_zero.mpr hpos.ne') hc hm

theorem decreaseExponent_fst (m i j : ℕ) :
    (decreaseExponent m (i - 1074) (j - 1074)).1 = m * 2 ^ (i - j) := by
  have hshift : ((i - 1074 : ℤ) - (j - 1074)).toNat = i - j := by omega
  unfold decreaseExponent
  dsimp only
  rw [hshift, Nat.shiftLeft_eq]

theorem natAbs_apply_mul (s : Sign) (m : ℕ) {i j : ℕ} (h : j ≤ i) :
    (s.apply ((m * 2 ^ (i - j) : ℕ) : ℤ)).natAbs * 2 ^ j = m * 2 ^ i := by
  have habs (k : ℤ) : (s.apply k).natAbs = k.natAbs := by
    cases s
    · exact Int.natAbs_neg k
    · rfl
  rw [habs, Int.natAbs_natCast, mul_assoc, ← pow_add, Nat.sub_add_cancel h]

/-- Magnitudes add up. -/
theorem Within.add {a b j : ℕ} {u w : UnpackedFloat} (hsmall : a + b ≤ 2 ^ 52)
    (hu : Within (a * 2 ^ j) u) (hw : Within (b * 2 ^ j) w) :
    Within ((a + b) * 2 ^ j) (UnpackedFloat.add Format.binary64 u w) := by
  have hleft : a * 2 ^ j ≤ (a + b) * 2 ^ j := Nat.mul_le_mul_right _ (Nat.le_add_right a b)
  have hright : b * 2 ^ j ≤ (a + b) * 2 ^ j := Nat.mul_le_mul_right _ (Nat.le_add_left b a)
  cases u with
  | notANumber => exact hu.elim
  | infinity s => exact hu.elim
  | zero s =>
    cases w with
    | notANumber => exact hw.elim
    | infinity t => exact hw.elim
    | zero t => cases s <;> cases t <;> trivial
    | finite t m' e' hm' => exact hw.mono hright
  | finite s m e hm =>
    cases w with
    | notANumber => exact hw.elim
    | infinity t => exact hw.elim
    | zero t => exact hu.mono hleft
    | finite t m' e' hm' =>
      obtain ⟨k, rfl, hk, -⟩ := hu
      obtain ⟨k', rfl, hk', -⟩ := hw
      have hexponent : min (k - 1074 : ℤ) (k' - 1074) = ((min k k' : ℕ) : ℤ) - 1074 := by omega
      unfold UnpackedFloat.add
      dsimp only
      rw [hexponent, decreaseExponent_fst, decreaseExponent_fst]
      refine within_normalize hsmall ((Nat.mul_le_mul_right _ (Int.natAbs_add_le _ _)).trans ?_)
      rw [add_mul, natAbs_apply_mul s m (min_le_left k k'), natAbs_apply_mul t m' (min_le_right k k'),
        add_mul]
      exact Nat.add_le_add hk hk'

/-- What stays below the largest double is packed as it is, or with a smaller mantissa. -/
theorem Within.unpack_pack {b : ℕ} {u : UnpackedFloat} (hu : Within b u) (hb : b < 2 ^ 2098) :
    Within b (Float.Model.pack u).unpack := by
  cases u with
  | notANumber => exact hu.elim
  | infinity s => exact hu.elim
  | zero s =>
    show Within b (UnpackedFloat.unpack Format.binary64 (packedZero Format.binary64 s))
    rw [unpack_packedZero]
    trivial
  | finite s m e hm =>
    obtain ⟨k, rfl, hk, hroom⟩ := hu
    have hsmall : k ≤ 2045 := by
      rcases hroom with rfl | hroom
      · exact Nat.zero_le _
      · have := (Nat.pow_lt_pow_iff_right Nat.one_lt_two).mp (hroom.trans_lt hb)
        omega
    by_cases hlog : m.log2 = 52
    · rw [unpack_pack_normal hlog hsmall]
      exact ⟨k, rfl, hk, hroom⟩
    · show Within b (UnpackedFloat.unpack Format.binary64 (UnpackedFloat.pack Format.binary64 _))
      rw [pack_eq hsmall, if_neg hlog]
      unfold UnpackedFloat.unpack
      simp only [unpackExponent_packComponents, unpackMantissa_packComponents]
      rw [if_neg (by decide), if_pos trivial]
      split
      · trivial
      · refine ⟨0, rfl, ?_, .inl rfl⟩
        rw [pow_zero, mul_one, BitVec.toNat_ofNat]
        exact (Nat.mod_le _ _).trans (hk.trans' (Nat.le_mul_of_pos_right m (Nat.two_pow_pos k)))

/-- What a double unpacks to has 53 bits, or the least exponent. -/
theorem exists_exponent {x : Float} {s : Sign} {m : ℕ} {e : ℤ} {hm : 0 < m}
    (h : x.toModel.unpack = .finite s m e hm) :
    ∃ k : ℕ, e = k - 1074 ∧ m < 2 ^ 53 ∧ k ≤ 2045 ∧ (k = 0 ∨ m.log2 = 52) := by
  have hunpack : UnpackedFloat.unpack Format.binary64 x.toModel.toBits.toBitVec = .finite s m e hm := h
  unfold UnpackedFloat.unpack at hunpack
  dsimp only at hunpack
  split_ifs at hunpack with hlargest hzero hleast hzero
  · obtain ⟨-, rfl, rfl⟩ := UnpackedFloat.finite.inj hunpack
    refine ⟨0, ?_, ?_, Nat.zero_le _, .inl rfl⟩
    · rw [hleast]
      rfl
    · exact (BitVec.isLt _).trans (by decide)
  · obtain ⟨-, rfl, rfl⟩ := UnpackedFloat.finite.inj hunpack
    generalize hfield : @unpackExponent Format.binary64 x.toModel.toBits.toBitVec = field
      at hlargest hleast ⊢
    have hpos : field.toNat ≠ 0 := fun hzero => hleast (BitVec.eq_of_toNat_eq hzero)
    have hlarge : field.toNat ≠ 2047 := fun h => hlargest (BitVec.eq_of_toNat_eq h)
    have hlt : field.toNat < 2 ^ 11 := field.isLt
    refine ⟨field.toNat - 1, ?_, BitVec.isLt _, by omega, .inr ?_⟩
    · show (field.toNat : ℤ) - (1023 + 52) = _
      omega
    · refine (Nat.log2_eq_iff hm.ne').mpr ⟨?_, BitVec.isLt _⟩
      exact (toNat_leadingOne _).symm ▸ Nat.le_add_right _ _

theorem key_limit : key (1e290 : Float).toModel.unpack =
    some (toLex (1, toLex (911, 5776622002767455))) := by
  decide +kernel

theorem key_neg_limit : key (-1e290 : Float).toModel.unpack =
    some (toLex (-1, toLex (-911, -5776622002767455))) := by
  decide +kernel

theorem exponent_le {c a a' b b' : ℤ} (h : toLex (c, toLex (a, b)) ≤ toLex (c, toLex (a', b'))) :
    a ≤ a' := by
  rcases Prod.Lex.toLex_le_toLex.mp h with h | ⟨-, h⟩
  · exact absurd h (lt_irrefl c)
  · exact (Prod.Lex.toLex_le_toLex.mp h).elim le_of_lt fun h => h.1.le

/-- The magnitude of a double between two others. -/
theorem within_of_le {x : Float} (hlo : -1e290 ≤ x) (hhi : x ≤ 1e290) :
    Within (2 ^ 2038) x.toModel.unpack := by
  obtain ⟨k, hk, l, hl, hkl⟩ := (le_iff _ _).mp hlo
  obtain ⟨l', hl', k', hk', hlk⟩ := (le_iff _ _).mp hhi
  rw [key_neg_limit, Option.mem_some_iff] at hk
  rw [key_limit, Option.mem_some_iff] at hk'
  obtain rfl := Option.mem_unique hl hl'
  subst hk hk'
  have hexponent {s : Sign} {m : ℕ} {e : ℤ} {hm : 0 < m} (h : x.toModel.unpack = .finite s m e hm)
      (he : e ≤ 911) : Within (2 ^ 2038) (.finite s m e hm) := by
    obtain ⟨k, rfl, hmantissa, -, -⟩ := exists_exponent h
    have hpower {i j : ℕ} (h : i ≤ j) : 2 ^ i ≤ 2 ^ j := Nat.pow_le_pow_right Nat.two_pos h
    refine ⟨k, rfl, ?_, .inr (hpower (by omega))⟩
    exact (Nat.mul_le_mul_right _ hmantissa.le).trans (pow_add 2 53 k ▸ hpower (by omega))
  cases hx : x.toModel.unpack with
  | notANumber => exact nomatch hx ▸ hl
  | infinity s =>
    rw [hx] at hl
    cases s with
    | negative =>
      obtain rfl := Option.some.inj hl
      exact absurd hkl (by decide)
    | positive =>
      obtain rfl := Option.some.inj hl
      exact absurd hlk (by decide)
  | zero s => trivial
  | finite s m e hm =>
    refine hexponent hx ?_
    rw [hx] at hl
    cases s with
    | negative =>
      obtain rfl := Option.some.inj hl
      exact neg_le_neg_iff.mp (exponent_le hkl)
    | positive =>
      obtain rfl := Option.some.inj hl
      exact exponent_le hlk

/-- A finite double whose magnitude is that of a sum of so many doubles of at most `1e290`. -/
def IsModerate (count : ℕ) (x : Float) : Prop := Within (count * 2 ^ 2038) x.toModel.unpack

theorem isModerate_zero : IsModerate 0 0.0 := trivial

theorem isModerate_of_le {x : Float} (hlo : -1e290 ≤ x) (hhi : x ≤ 1e290) : IsModerate 1 x := by
  unfold IsModerate
  rw [one_mul]
  exact within_of_le hlo hhi

/-- Sums of small numbers of moderate doubles do not overflow. -/
theorem IsModerate.add {i j : ℕ} {x y : Float} (hsmall : i + j ≤ 2 ^ 52) (hx : IsModerate i x)
    (hy : IsModerate j y) : IsModerate (i + j) (x + y) := by
  have hpower {i j : ℕ} (h : i < j) : 2 ^ i < 2 ^ j := Nat.pow_lt_pow_right Nat.one_lt_two h
  refine (Within.add hsmall hx hy).unpack_pack ((Nat.mul_le_mul_right _ hsmall).trans_lt ?_)
  exact pow_add 2 52 2038 ▸ hpower (by norm_num)

theorem IsModerate.sign_ne_none {i : ℕ} {x : Float} (hx : IsModerate i x) : sign x ≠ none := by
  have hu : Within (i * 2 ^ 2038) x.toModel.unpack := hx
  unfold sign
  generalize x.toModel.unpack = u at hu ⊢
  cases u with
  | notANumber => exact hu.elim
  | _ => exact Option.some_ne_none _

end BoxSearch.Double
