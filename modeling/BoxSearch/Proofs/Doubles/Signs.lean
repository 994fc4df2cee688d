import Mathlib
import BoxSearch.Proofs.Compare

/-!
# Signs of doubles

A double that is not undefined has a sign.  The signs say where sums, products, quotients and roots stay
defined: only infinities of different signs add up to nothing.
-/

namespace BoxSearch.Double

open Float.Model Float.Model.UnpackedFloat

def signOf : UnpackedFloat → Option Sign
  | .notANumber => none
  | .infinity s => some s
  | .zero s => some s
  | .finite s _ _ _ => some s

/-- The sign of a double; an undefined one has none. -/
def sign (x : Float) : Option Sign := signOf x.toModel.unpack

theorem isUndefined_iff {x : Float} : Scalar.isUndefined x = true ↔ sign x = none := by
  have hkey (u : UnpackedFloat) : (∃ k ∈ key u, ∃ l ∈ key u, k ≤ l) ↔ signOf u ≠ none := by
    rcases u with (_ | _) | _ | _ | ⟨(_ | _), m, e, hm⟩ <;> simp [key, signOf]
  unfold Scalar.isUndefined sign
  rw [Bool.not_eq_true', decide_eq_false_iff_not, le_iff, hkey, not_not]

theorem sign_of_isFinite {x : Float} (h : Scalar.isFinite x = true) : sign x ≠ none := by
  have hfinite : x.toModel.unpack.isFinite = true := h
  unfold sign
  cases hx : x.toModel.unpack with
  | notANumber => exact nomatch hx ▸ hfinite
  | _ => exact Option.some_ne_none _

theorem signOf_unpack_packComponents (s : Sign) {e : BitVec 11} {m : BitVec 52}
    (h : e = -1#11 → m = 0#52) :
    signOf (UnpackedFloat.unpack Format.binary64 (packComponents Format.binary64 s e m)) = some s := by
  unfold UnpackedFloat.unpack
  simp only [unpackExponent_packComponents, unpackMantissa_packComponents,
    unpackSign_packComponents, Sign.ofBitVec_toBitVec]
  split_ifs with hlargest hzero
  · rfl
  · exact absurd (h hlargest) hzero
  all_goals rfl

/-- Packing may lead to infinity or to zero, but keeps the sign. -/
theorem signOf_unpack_pack (u : UnpackedFloat) : signOf (Float.Model.pack u).unpack = signOf u := by
  show signOf (UnpackedFloat.unpack Format.binary64 (UnpackedFloat.pack Format.binary64 u)) = signOf u
  fun_cases UnpackedFloat.pack Format.binary64 u with
  | case1 => rw [unpack_packedNaN]
  | case2 s => exact signOf_unpack_packComponents s fun _ => rfl
  | case3 s => exact signOf_unpack_packComponents s fun _ => rfl
  | case4 s m e hm biased hbiased => exact signOf_unpack_packComponents s fun _ => rfl
  | case5 s m e hm bits biased hbiased hbits =>
    refine signOf_unpack_packComponents s fun h => ?_
    have hvalue := congrArg BitVec.toNat h
    rw [BitVec.toNat_ofNat] at hvalue
    have hsmall : biased < 2047 := by
      have : ¬2 ^ 11 ≤ biased + 1 := hbiased
      omega
    have hmod : biased % 2 ^ 11 = 2047 := hvalue
    omega
  | case6 s m e hm bits biased hbiased hbits =>
    exact signOf_unpack_packComponents s fun h => absurd h (by decide)

theorem sign_add (x y : Float) :
    sign (x + y) = signOf (UnpackedFloat.add Format.binary64 x.toModel.unpack y.toModel.unpack) :=
  signOf_unpack_pack _

theorem sign_sub (x y : Float) :
    sign (x - y) = signOf (UnpackedFloat.sub Format.binary64 x.toModel.unpack y.toModel.unpack) :=
  signOf_unpack_pack _

theorem sign_mul (x y : Float) :
    sign (x * y) = signOf (UnpackedFloat.mul Format.binary64 x.toModel.unpack y.toModel.unpack) :=
  signOf_unpack_pack _

theorem sign_div (x y : Float) :
    sign (x / y) = signOf (UnpackedFloat.div Format.binary64 x.toModel.unpack y.toModel.unpack) :=
  signOf_unpack_pack _

theorem sign_sqrt (x : Float) :
    sign (Float.sqrt x) = signOf (UnpackedFloat.sqrt Format.binary64 x.toModel.unpack) :=
  signOf_unpack_pack _

theorem signOf_roundWithAccuracy (spec : Format) (s : Sign) (m : ℕ) (e : ℤ) (a : Accuracy) :
    signOf (roundWithAccuracy spec s m e a) = some s := by
  unfold roundWithAccuracy
  dsimp only
  split <;> rfl

theorem signOf_normalize (spec : Format) (m e : ℤ) :
    signOf (UnpackedFloat.normalize spec m e .positive) =
      some (if m < 0 then .negative else .positive) := by
  unfold UnpackedFloat.normalize UnpackedFloat.round
  split <;> rename_i h
  · rw [if_pos (compare_lt_iff_lt.mp h)]
    exact signOf_roundWithAccuracy ..
  · rw [if_neg (compare_eq_iff_eq.mp h).not_lt]
    rfl
  · rw [if_neg (compare_gt_iff_gt.mp h).not_gt]
    exact signOf_roundWithAccuracy ..

/-- A finite double can be added to any that is not undefined. -/
theorem sign_add_ne_none {x y : Float} (hx : sign x ≠ none) (hy : Scalar.isFinite y = true) :
    sign (x + y) ≠ none := by
  have hu : signOf x.toModel.unpack ≠ none := hx
  have hw : y.toModel.unpack.isFinite = true := hy
  rw [sign_add]
  generalize x.toModel.unpack = u at hu ⊢
  generalize y.toModel.unpack = w at hw ⊢
  cases w with
  | notANumber => exact nomatch hw
  | infinity t => exact nomatch hw
  | zero t =>
    cases u with
    | notANumber => exact absurd rfl hu
    | zero s => cases s <;> cases t <;> exact Option.some_ne_none _
    | _ => exact Option.some_ne_none _
  | finite t m' e' hm' =>
    cases u with
    | notANumber => exact absurd rfl hu
    | finite s m e hm => exact (signOf_normalize ..).trans_ne (Option.some_ne_none _)
    | _ => exact Option.some_ne_none _

/-- Any double that is not undefined can be taken from a finite one. -/
theorem sign_sub_ne_none {x y : Float} (hx : Scalar.isFinite x = true) (hy : sign y ≠ none) :
    sign (x - y) ≠ none := by
  have hu : x.toModel.unpack.isFinite = true := hx
  have hw : signOf y.toModel.unpack ≠ none := hy
  rw [sign_sub]
  generalize x.toModel.unpack = u at hu ⊢
  generalize y.toModel.unpack = w at hw ⊢
  cases u with
  | notANumber => exact nomatch hu
  | infinity s => exact nomatch hu
  | zero s =>
    cases w with
    | notANumber => exact absurd rfl hw
    | zero t => cases s <;> cases t <;> exact Option.some_ne_none _
    | _ => exact Option.some_ne_none _
  | finite s m e hm =>
    cases w with
    | notANumber => exact absurd rfl hw
    | finite t m' e' hm' => exact (signOf_normalize ..).trans_ne (Option.some_ne_none _)
    | _ => exact Option.some_ne_none _

/-- Undefined doubles spoil every sum. -/
theorem sign_add_eq_none {x y : Float} (h : sign x = none ∨ sign y = none) : sign (x + y) = none := by
  have hu : signOf x.toModel.unpack = none ∨ signOf y.toModel.unpack = none := h
  rw [sign_add]
  generalize x.toModel.unpack = u at hu ⊢
  generalize y.toModel.unpack = w at hu ⊢
  cases u with
  | notANumber => rfl
  | _ =>
    cases w with
    | notANumber => rfl
    | _ => exact nomatch hu.resolve_left (Option.some_ne_none _)

theorem sign_sub_eq_none {x y : Float} (h : sign y = none) : sign (x - y) = none := by
  have hw : signOf y.toModel.unpack = none := h
  rw [sign_sub]
  generalize x.toModel.unpack = u
  generalize y.toModel.unpack = w at hw ⊢
  cases w with
  | notANumber => cases u <;> rfl
  | _ => exact nomatch hw

theorem sign_square (x : Float) : sign (x * x) = (sign x).map fun _ => .positive := by
  have hsquare (s : Sign) : s * s = .positive := by cases s <;> rfl
  rw [sign_mul]
  unfold sign
  generalize x.toModel.unpack = u
  cases u with
  | notANumber => rfl
  | infinity s => exact congrArg some (hsquare s)
  | zero s => exact congrArg some (hsquare s)
  | finite s m e hm => exact (signOf_roundWithAccuracy ..).trans (congrArg some (hsquare s))

theorem sign_add_positive {x y : Float} (hx : sign x = some .positive) (hy : sign y = some .positive) :
    sign (x + y) = some .positive := by
  have hu : signOf x.toModel.unpack = some .positive := hx
  have hw : signOf y.toModel.unpack = some .positive := hy
  rw [sign_add]
  generalize x.toModel.unpack = u at hu ⊢
  generalize y.toModel.unpack = w at hw ⊢
  cases u with
  | notANumber => exact nomatch hu
  | infinity s =>
    obtain rfl := Option.some.inj hu
    cases w with
    | notANumber => exact nomatch hw
    | infinity t => obtain rfl := Option.some.inj hw; rfl
    | _ => rfl
  | zero s =>
    obtain rfl := Option.some.inj hu
    cases w with
    | notANumber => exact nomatch hw
    | zero t => obtain rfl := Option.some.inj hw; rfl
    | _ => exact hw
  | finite s m e hm =>
    obtain rfl := Option.some.inj hu
    cases w with
    | notANumber => exact nomatch hw
    | infinity t => exact hw
    | zero t => rfl
    | finite t m' e' hm' =>
      obtain rfl := Option.some.inj hw
      refine (signOf_normalize ..).trans (congrArg some (if_neg ?_))
      exact not_lt.mpr (add_nonneg (Nat.cast_nonneg _) (Nat.cast_nonneg _))

theorem sign_sqrt_eq {x : Float} (hx : sign x ≠ some .negative) : sign (Float.sqrt x) = sign x := by
  have hu : signOf x.toModel.unpack ≠ some .negative := hx
  rw [sign_sqrt]
  unfold sign
  generalize x.toModel.unpack = u at hu ⊢
  cases u with
  | notANumber => rfl
  | infinity s =>
    cases s with
    | negative => exact absurd rfl hu
    | positive => rfl
  | zero s => rfl
  | finite s m e hm =>
    cases s with
    | negative => exact absurd rfl hu
    | positive => exact signOf_roundWithAccuracy ..

/-- A divisor that is neither zero nor infinite matters by its sign only. -/
theorem sign_div_positive {x y : Float} {m : ℕ} {e : ℤ} {hm : 0 < m}
    (hy : y.toModel.unpack = .finite .positive m e hm) : sign (x / y) = sign x := by
  have hsign (s : Sign) : s / .positive = s := by cases s <;> rfl
  rw [sign_div, hy]
  unfold sign
  generalize x.toModel.unpack = u
  cases u with
  | notANumber => rfl
  | infinity s => exact congrArg some (hsign s)
  | zero s => exact congrArg some (hsign s)
  | finite s m' e' hm' => exact (signOf_roundWithAccuracy ..).trans (congrArg some (hsign s))

end BoxSearch.Double
