import Mathlib
import BoxSearch.Proofs.Kept.Crossing
import BoxSearch.Query

/-!
# Codes of integers

A row of bits codes the number that it has as its value, and on a given length every number below the
power of two has exactly one row (`encode_eq_ok_iff`).  So coding and decoding are inverse to each
other, a number is refused exactly if it does not fit, rows compare like their numbers, and the length
that is made for a span is the least on which all of its integers have rows.
-/

namespace BoxSearch.BitCode

/-! ## 1. Rows -/

/-- A row as it is written and read: zeros and ones. -/
def digits (bs : List Bool) : List ℤ := bs.map fun b => (b.toNat : ℤ)

theorem length_digits (bs : List Bool) : (digits bs).length = bs.length := List.length_map _

theorem mem_digits {bs : List Bool} {d : ℤ} (h : d ∈ digits bs) : d = 0 ∨ d = 1 := by
  obtain ⟨b, -, rfl⟩ := List.mem_map.mp h
  cases b
  · exact .inl rfl
  · exact .inr rfl

/-- Zeros and ones are the digits of a row. -/
theorem exists_digits {ds : List ℤ} (h : ∀ d ∈ ds, d = 0 ∨ d = 1) : ∃ bs, digits bs = ds := by
  induction ds with
  | nil => exact ⟨[], rfl⟩
  | cons d ds ih =>
    obtain ⟨bs, rfl⟩ := ih fun d' hd' => h d' (List.mem_cons_of_mem d hd')
    rcases h d List.mem_cons_self with rfl | rfl
    · exact ⟨false :: bs, rfl⟩
    · exact ⟨true :: bs, rfl⟩

theorem two_mul_or_toNat (v : ℕ) (b : Bool) : 2 * v ||| b.toNat = 2 * v + b.toNat := by
  have h := Nat.two_pow_add_eq_or_of_lt (i := 1) b.toNat_lt v
  rw [pow_one] at h
  exact h.symm

/-- Merged digit by digit, the digits of a row make its value. -/
theorem merge_digits (bs : List Bool) : merge (digits bs) = value bs := by
  have hstep (v : ℕ) (b : Bool) : disjunction (2 * (v : ℤ)) b.toNat = ((2 * v + b.toNat : ℕ) : ℤ) := by
    rw [← two_mul_or_toNat]
    rfl
  have hfold (bs : List Bool) (v : ℕ) : (digits bs).foldl (fun v d => disjunction (2 * v) d) v =
      ((bs.foldl (fun v b => 2 * v + b.toNat) v : ℕ) : ℤ) := by
    induction bs generalizing v with
    | nil => rfl
    | cons b bs ih =>
      show (digits bs).foldl _ (disjunction (2 * (v : ℤ)) b.toNat) = _
      rw [hstep, ih, List.foldl_cons]
  exact hfold bs 0

theorem value_lt (bs : List Bool) : value bs < 2 ^ bs.length := by
  induction bs with
  | nil => exact Nat.one_pos
  | cons b bs ih =>
    have hbit := Nat.mul_le_mul_right (2 ^ bs.length) (Nat.le_of_lt_succ b.toNat_lt)
    rw [value_cons, List.length_cons, pow_succ]
    omega

/-- The first bit that differs decides, because it counts more than all that follow it. -/
theorem digits_lt_iff {a b : List Bool} (h : a.length = b.length) :
    digits a < digits b ↔ value a < value b := by
  induction a generalizing b with
  | nil =>
    rw [List.length_eq_zero_iff.mp h.symm]
    exact iff_of_false (lt_irrefl _) (lt_irrefl _)
  | cons bitA a ih =>
    obtain ⟨bitB, b, rfl⟩ := List.exists_cons_of_length_eq_add_one h.symm
    have hlength : a.length = b.length := Nat.succ.inj h
    have hrest := ih hlength
    have hA := value_lt a
    have hB := value_lt b
    rw [value_cons, value_cons]
    show (bitA.toNat : ℤ) :: digits a < (bitB.toNat : ℤ) :: digits b ↔ _
    rw [List.cons_lt_cons_iff, hrest, hlength]
    rw [hlength] at hA
    cases bitA <;> cases bitB <;> simp <;> omega

/-- Rows of one length have different values. -/
theorem eq_of_value_eq {a b : List Bool} (h : a.length = b.length) (hvalue : value a = value b) :
    a = b := by
  have hdigits : digits a = digits b := by
    apply le_antisymm
    · exact not_lt.mp fun hlt => ((digits_lt_iff h.symm).mp hlt).ne' hvalue
    · exact not_lt.mp fun hlt => ((digits_lt_iff h).mp hlt).ne hvalue
  have hinjective : Function.Injective fun b : Bool => (b.toNat : ℤ) := by decide
  exact hinjective.list_map hdigits

theorem bits_value (bs : List Bool) : bits bs.length (value bs) = bs := by
  apply eq_of_value_eq (length_bits _ _)
  rw [value_bits, Nat.mod_eq_of_lt (value_lt bs)]

/-! ## 2. Codes -/

section

variable {α : Type} {v w : ℤ} {length : ℕ} {bs : List Bool}

/-- A number has the code whose value it is. -/
theorem encode_eq_ok_iff :
    (encode v length : Except (Fault α) (List Bool)) = .ok bs ↔ bs.length = length ∧ value bs = v := by
  unfold encode
  rw [Nat.pow_eq]
  split_ifs with hout
  · refine iff_of_false (nomatch ·) ?_
    rintro ⟨rfl, rfl⟩
    have hfits : (value bs : ℤ) < (2 ^ bs.length : ℕ) := by exact_mod_cast value_lt bs
    omega
  · obtain ⟨hnonneg, hlt⟩ := not_or.mp hout
    obtain ⟨k, rfl⟩ := Int.eq_ofNat_of_zero_le (not_lt.mp hnonneg)
    have hfits : k < 2 ^ length := by exact_mod_cast not_le.mp hlt
    rw [Int.toNat_natCast]
    constructor
    · intro h
      rw [← Except.ok.inj h]
      refine ⟨length_bits _ _, ?_⟩
      rw [value_bits, Nat.mod_eq_of_lt hfits]
    · rintro ⟨rfl, hvalue⟩
      obtain rfl : value bs = k := Int.ofNat.inj hvalue
      rw [bits_value]

theorem encode_eq_error_iff {f : Fault α} :
    (encode v length : Except (Fault α) (List Bool)) = .error f ↔
      (v < 0 ∨ (2 : ℤ) ^ length ≤ v) ∧ f = .uncodable v length := by
  have hpow : ((Nat.pow 2 length : ℕ) : ℤ) = 2 ^ length := by exact_mod_cast rfl
  unfold encode
  rw [hpow]
  split_ifs with hout
  · refine ⟨fun h => ⟨hout, (Except.error.inj h).symm⟩, fun h => congrArg Except.error h.2.symm⟩
  · exact iff_of_false (nomatch ·) fun h => hout h.1

theorem exists_encode (hv : 0 ≤ v) (hfits : v < (2 : ℤ) ^ length) :
    ∃ bs, (encode v length : Except (Fault α) (List Bool)) = .ok bs := by
  cases h : (encode v length : Except (Fault α) (List Bool)) with
  | ok bs => exact ⟨bs, rfl⟩
  | error f =>
    rcases (encode_eq_error_iff.mp h).1 with hneg | hlarge
    · exact absurd hv hneg.not_ge
    · exact absurd hfits hlarge.not_gt

/-- Codes of one length compare like the numbers. -/
theorem lt_iff_digits_lt {a b : List Bool}
    (ha : (encode v length : Except (Fault α) (List Bool)) = .ok a)
    (hb : (encode w length : Except (Fault α) (List Bool)) = .ok b) : v < w ↔ digits a < digits b := by
  obtain ⟨hlengthA, rfl⟩ := encode_eq_ok_iff.mp ha
  obtain ⟨hlengthB, rfl⟩ := encode_eq_ok_iff.mp hb
  rw [digits_lt_iff (hlengthA.trans hlengthB.symm), Nat.cast_lt]

/-- All integers up to `span` have a row of this length. -/
def Covers (α : Type) (span length : ℕ) : Prop :=
  ∀ v : ℤ, 0 ≤ v → v ≤ span → ∃ bs, (encode v length : Except (Fault α) (List Bool)) = .ok bs

theorem covers_iff {span : ℕ} : Covers α span length ↔ span < 2 ^ length := by
  constructor
  · -- The largest of them has the value of its row, which is below the power of two.
    intro h
    obtain ⟨bs, hbs⟩ := h span (Int.natCast_nonneg span) le_rfl
    obtain ⟨rfl, hvalue⟩ := encode_eq_ok_iff.mp hbs
    rw [← Int.ofNat.inj hvalue]
    exact value_lt bs
  · intro h v hv hspan
    have hpow : (span : ℤ) < 2 ^ length := by exact_mod_cast h
    exact exists_encode hv (hspan.trans_lt hpow)

theorem lengthFor_isLeast (α : Type) (span : ℕ) :
    IsLeast {length | 1 ≤ length ∧ Covers α span length} (lengthFor span) := by
  refine ⟨⟨le_max_right _ _, covers_iff.mpr (lt_two_pow_lengthFor span)⟩, ?_⟩
  rintro length ⟨hone, hcovers⟩
  unfold lengthFor
  split_ifs with hzero
  · exact hone
  · have hlog : span.log2 < length := (Nat.log2_lt hzero).mpr (covers_iff.mp hcovers)
    omega

end

/-- Numbers below a power of two are coded on so many bits, and back: digits and numbers determine each
other, in the same order, and nothing else is coded or decoded to.  A span of integers gets the least
length on which all of them are coded. -/
theorem rows_code_integers (α : Type) :
    (∀ (length : ℕ) (v : ℤ), 0 ≤ v → v < (2 : ℤ) ^ length →
      ∃ bs, (encode v length : Except (Fault α) (List Bool)) = .ok bs ∧
        (digits bs).length = length ∧ (∀ d ∈ digits bs, d = 0 ∨ d = 1) ∧ merge (digits bs) = v) ∧
    (∀ ds : List ℤ, (∀ d ∈ ds, d = 0 ∨ d = 1) →
      ∃ bs, (encode (merge ds) ds.length : Except (Fault α) (List Bool)) = .ok bs ∧ digits bs = ds) ∧
    (∀ (length : ℕ) (v : ℤ) (f : Fault α),
      (encode v length : Except (Fault α) (List Bool)) = .error f ↔
        (v < 0 ∨ (2 : ℤ) ^ length ≤ v) ∧ f = .uncodable v length) ∧
    (∀ (length : ℕ) (v w : ℤ) (a b : List Bool),
      (encode v length : Except (Fault α) (List Bool)) = .ok a →
      (encode w length : Except (Fault α) (List Bool)) = .ok b → (v < w ↔ digits a < digits b)) ∧
    ∀ span : ℕ, ∃ length, Query.bitsFor (.whole span) = .ok length ∧
      (lengthForWidth (span : ℝ) : Except (Fault ℝ) ℕ) = .ok length ∧
      IsLeast {length | 1 ≤ length ∧ Covers α span length} length := by
  refine ⟨?_, ?_, fun _ _ _ => encode_eq_error_iff, fun _ _ _ _ _ => lt_iff_digits_lt, ?_⟩
  · intro length v hv hfits
    obtain ⟨bs, hbs⟩ := exists_encode (α := α) hv hfits
    obtain ⟨hlength, hvalue⟩ := encode_eq_ok_iff.mp hbs
    exact ⟨bs, hbs, (length_digits bs).trans hlength, fun _ => mem_digits,
      (merge_digits bs).trans hvalue⟩
  · intro ds hds
    obtain ⟨bs, rfl⟩ := exists_digits hds
    exact ⟨bs, encode_eq_ok_iff.mpr ⟨(length_digits bs).symm, (merge_digits bs).symm⟩, rfl⟩
  · intro span
    have hnonneg : (0 : ℤ) ≤ span := Int.natCast_nonneg span
    refine ⟨lengthFor span, ?_, ?_, lengthFor_isLeast α span⟩
    · show (if (span : ℤ) < 0 then throw (.fault none (.negativeSpan span))
        else pure (lengthFor (span : ℤ).toNat) : Query.Answer ℕ) = _
      rw [if_neg hnonneg.not_gt]
      rfl
    · exact_mod_cast lengthForWidth_intCast hnonneg

/-- On four bits six is coded and sixteen is not, which needs five. -/
theorem rows_code_integers_six :
    (0 : ℤ) ≤ 6 ∧ (6 : ℤ) < 2 ^ 4 ∧
      (∃ bs, (encode 6 4 : Except (Fault ℝ) (List Bool)) = .ok bs ∧ digits bs = [0, 1, 1, 0] ∧
        merge (digits bs) = 6) ∧
      (encode 16 4 : Except (Fault ℝ) (List Bool)) = .error (.uncodable 16 4) ∧
      digits (bits 4 6) < digits (bits 4 7) ∧ Query.bitsFor (.whole 16) = .ok 5 ∧
      IsLeast {length | 1 ≤ length ∧ Covers ℝ 16 length} 5 := by
  obtain ⟨hcoded, hdecoded, hrefused, horder, hleast⟩ := rows_code_integers ℝ
  have hsix : (encode 6 4 : Except (Fault ℝ) (List Bool)) = .ok (bits 4 6) := rfl
  have hseven : (encode 7 4 : Except (Fault ℝ) (List Bool)) = .ok (bits 4 7) := rfl
  obtain ⟨row, hrow, hdigits⟩ := hdecoded [0, 1, 1, 0] (by decide)
  obtain ⟨length, hlength, -, hfive⟩ := hleast 16
  obtain rfl : 5 = length := Except.ok.inj hlength
  refine ⟨by decide, by decide, ?_, (hrefused 4 16 _).mpr ⟨.inr (by decide), rfl⟩,
    (horder 4 6 7 _ _ hsix hseven).mp (by decide), hlength, hfive⟩
  obtain ⟨bs, hbs, -, -, hvalue⟩ := hcoded 4 6 (by decide) (by decide)
  obtain rfl : row = bs := Except.ok.inj (hrow.symm.trans hbs)
  exact ⟨row, hrow, hdigits, hvalue⟩

end BoxSearch.BitCode
