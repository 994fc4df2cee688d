import Mathlib
import BoxSearch.Objective.Family
import BoxSearch.Proofs.Exact
import BoxSearch.Proofs.Order.Rescale

/-!
# Comparing costs

What a search relies on when it compares costs: as far as they are finite, scalars compare like
numbers.  Real numbers do, and so do doubles, whose undefined scalars compare with nothing and whose
two zeros are neither below the other.  Nothing else is asked of the scalars here, so that what
follows from it holds of the doubles that a search runs on.
-/

namespace BoxSearch

/-- Finite scalars compare like numbers. -/
class Scalar.Ordered (α : Type) [Scalar α] : Prop where
  lt_irrefl : ∀ a : α, ¬a < a
  lt_trans : ∀ {a b c : α}, a < b → b < c → a < c
  lt_or_lt : ∀ {a b c : α}, Scalar.isFinite c = true → a < b → a < c ∨ c < b

/-! ## 1. Real numbers and doubles -/

instance : Scalar.Ordered ℝ where
  lt_irrefl := lt_irrefl
  lt_trans := lt_trans
  lt_or_lt {a _ c} _ h := (lt_or_ge a c).imp_right h.trans_le'

namespace Double

open Float.Model

/-- What a double is compared by: whether it is an infinity, its sign, exponent and mantissa. -/
def key : UnpackedFloat → Option (ℤ ×ₗ ℤ ×ₗ ℤ)
  | .notANumber => none
  | .infinity .negative => some (toLex (-2, toLex (0, 0)))
  | .finite .negative m e _ => some (toLex (-1, toLex (-e, -(m : ℤ))))
  | .zero _ => some (toLex (0, toLex (0, 0)))
  | .finite .positive m e _ => some (toLex (1, toLex (e, (m : ℤ))))
  | .infinity .positive => some (toLex (2, toLex (0, 0)))

theorem unpacked_lt_iff (u w : UnpackedFloat) :
    u.lt w = true ↔ ∃ k ∈ key u, ∃ l ∈ key w, k < l := by
  rcases u with (_ | _) | _ | _ | ⟨(_ | _), m, e, hm⟩ <;>
    rcases w with (_ | _) | _ | _ | ⟨(_ | _), m', e', hm'⟩ <;>
    simp [key, UnpackedFloat.lt, UnpackedFloat.compare, Prod.Lex.lt_iff, Ordering.then_eq_lt,
      compare_lt_iff_lt]
  -- What is left are the two infinities and two numbers below zero, of which the larger is below.
  · rfl
  · rw [Ordering.then_eq_gt, compare_gt_iff_gt, compare_eq_iff_eq, compare_gt_iff_gt]

theorem unpacked_le_iff (u w : UnpackedFloat) :
    u.le w = true ↔ ∃ k ∈ key u, ∃ l ∈ key w, k ≤ l := by
  rcases u with (_ | _) | _ | _ | ⟨(_ | _), m, e, hm⟩ <;>
    rcases w with (_ | _) | _ | _ | ⟨(_ | _), m', e', hm'⟩ <;>
    simp [key, UnpackedFloat.le, UnpackedFloat.compare, Prod.Lex.le_iff]
  -- What is left are infinities, and two numbers on one side of zero.
  · rfl
  · rfl
  · rfl
  · rfl
  · rw [Ordering.isGE_iff_ne_lt, Ordering.then_eq_lt, compare_lt_iff_lt, compare_eq_iff_eq,
      compare_lt_iff_lt]
    omega
  · rw [Ordering.isLE_iff_ne_gt, Ordering.then_eq_gt, compare_gt_iff_gt, compare_eq_iff_eq,
      compare_gt_iff_gt]
    omega

theorem exists_key {u : UnpackedFloat} (h : u.isFinite = true) : ∃ k, key u = some k := by
  rcases u with s | _ | s | ⟨(_ | _), m, e, hm⟩
  · exact nomatch h
  · exact nomatch h
  · exact ⟨_, rfl⟩
  · exact ⟨_, rfl⟩
  · exact ⟨_, rfl⟩

theorem lt_iff (a b : Float) :
    a < b ↔ ∃ k ∈ key a.toModel.unpack, ∃ l ∈ key b.toModel.unpack, k < l := by
  rw [← unpacked_lt_iff]
  show decide (a.toModel < b.toModel) = true ↔ _
  rw [decide_eq_true_iff]
  rfl

theorem le_iff (a b : Float) :
    a ≤ b ↔ ∃ k ∈ key a.toModel.unpack, ∃ l ∈ key b.toModel.unpack, k ≤ l := by
  rw [← unpacked_le_iff]
  show decide (a.toModel ≤ b.toModel) = true ↔ _
  rw [decide_eq_true_iff]
  rfl

end Double

instance : Scalar.Ordered Float where
  lt_irrefl a h := by
    obtain ⟨k, hk, l, hl, hlt⟩ := (Double.lt_iff a a).mp h
    rw [Option.mem_unique hk hl] at hlt
    exact lt_irrefl l hlt
  lt_trans {a b c} hab hbc := by
    obtain ⟨k, hk, l, hl, hkl⟩ := (Double.lt_iff a b).mp hab
    obtain ⟨l', hl', m, hm, hlm⟩ := (Double.lt_iff b c).mp hbc
    rw [Option.mem_unique hl hl'] at hkl
    exact (Double.lt_iff a c).mpr ⟨k, hk, m, hm, hkl.trans hlm⟩
  lt_or_lt {a b c} hc hab := by
    obtain ⟨k, hk, m, hm, hkm⟩ := (Double.lt_iff a b).mp hab
    obtain ⟨l, hl⟩ := Double.exists_key hc
    rcases lt_or_ge k l with h | h
    · exact .inl ((Double.lt_iff a c).mpr ⟨k, hk, l, hl, h⟩)
    · exact .inr ((Double.lt_iff c b).mpr ⟨l, hl, m, hm, h.trans_lt hkm⟩)

/-- Moreover, of two finite scalars one is at most the other. -/
class Scalar.Total (α : Type) [Scalar α] : Prop extends Scalar.Ordered α where
  le_of_not_lt : ∀ {a b : α}, Scalar.isFinite a = true → Scalar.isFinite b = true → ¬b < a → a ≤ b

instance : Scalar.Total ℝ where
  le_of_not_lt _ _ := not_lt.mp

instance : Scalar.Total Float where
  le_of_not_lt {a b} ha hb h := by
    obtain ⟨k, hk⟩ := Double.exists_key ha
    obtain ⟨l, hl⟩ := Double.exists_key hb
    rw [Double.lt_iff] at h
    exact (Double.le_iff a b).mpr ⟨k, hk, l, hl, not_lt.mp fun hlt => h ⟨l, hl, k, hk, hlt⟩⟩

/-- Moreover, what is at most another scalar is not above it. -/
class Scalar.Linear (α : Type) [Scalar α] : Prop extends Scalar.Total α where
  not_lt_of_le : ∀ {a b : α}, a ≤ b → ¬b < a

instance : Scalar.Linear ℝ where
  not_lt_of_le := not_lt.mpr

instance : Scalar.Linear Float where
  not_lt_of_le {a b} hab hba := by
    obtain ⟨k, hk, l, hl, hkl⟩ := (Double.le_iff a b).mp hab
    obtain ⟨l', hl', k', hk', hlk⟩ := (Double.lt_iff b a).mp hba
    rw [Option.mem_unique hk' hk, Option.mem_unique hl' hl] at hlk
    exact hlk.not_ge hkl

/-- Two finite scalars of which neither is below the other are the same. -/
theorem Scalar.same_of_not_lt {α : Type} [Scalar α] [Scalar.Total α] {a b : α}
    (ha : Scalar.isFinite a = true) (hb : Scalar.isFinite b = true) (hab : ¬a < b) (hba : ¬b < a) :
    Scalar.same a b = true := by
  unfold Scalar.same
  rw [decide_eq_true (Scalar.Total.le_of_not_lt ha hb hba),
    decide_eq_true (Scalar.Total.le_of_not_lt hb ha hab), Bool.and_self]

theorem Scalar.lt_of_lt_of_le {α : Type} [Scalar α] [Scalar.Linear α] {a b c : α}
    (hc : Scalar.isFinite c = true) (hab : a < b) (hbc : b ≤ c) : a < c :=
  (Scalar.Ordered.lt_or_lt hc hab).resolve_right (Scalar.Linear.not_lt_of_le hbc)

theorem Scalar.lt_of_le_of_lt {α : Type} [Scalar α] [Scalar.Linear α] {a b c : α}
    (ha : Scalar.isFinite a = true) (hab : a ≤ b) (hbc : b < c) : a < c :=
  (Scalar.Ordered.lt_or_lt ha hbc).resolve_left (Scalar.Linear.not_lt_of_le hab)

/-- Two scalars of which one is below the other are not the same. -/
theorem Scalar.not_same_of_lt {α : Type} [Scalar α] [Scalar.Linear α] {a b : α} (h : a < b) :
    ¬Scalar.same a b = true ∧ ¬Scalar.same b a = true := by
  have hle : ¬b ≤ a := fun hba => Scalar.Linear.not_lt_of_le hba h
  constructor <;> simp [Scalar.same, hle]

/-! ## 2. Costs -/

namespace Cost

variable {α : Type} [Scalar α]

/-- The value of a finite cost is a finite scalar. -/
def IsProper (c : Cost α) : Prop := ∀ v, c = .finite v → Scalar.isFinite v = true

theorem isProper_ofScalar (v : α) : (ofScalar v).IsProper := by
  intro w hw
  unfold ofScalar at hw
  split_ifs at hw with hfinite
  obtain rfl := Cost.finite.inj hw
  exact hfinite

theorem isProper_real (c : Cost ℝ) : c.IsProper := fun _ _ => rfl

/-- The cost, with a finite cost of another value taken for undefined. -/
def proper : Cost α → Cost α
  | finite v => if Scalar.isFinite v then finite v else undefined
  | c => c

theorem IsProper.proper_eq {c : Cost α} (h : c.IsProper) : c.proper = c := by
  cases c with
  | finite v => exact if_pos (h v rfl)
  | _ => rfl

theorem isProper_proper (c : Cost α) : c.proper.IsProper := by
  intro w hw
  cases c with
  | finite v =>
    simp only [proper] at hw
    split_ifs at hw with hfinite
    obtain rfl := Cost.finite.inj hw
    exact hfinite
  | _ => exact nomatch hw

variable [Scalar.Ordered α]

theorem before_asymm {a b : Cost α} (h : a.before b = true) : b.before a = false := by
  cases a <;> cases b <;> simp_all [before, below]
  -- two finite costs
  exact fun h' => Scalar.Ordered.lt_irrefl _ (Scalar.Ordered.lt_trans h h')

theorem below_asymm {a b : Cost α} (h : a.below b = true) : b.below a = false := by
  cases a <;> cases b <;> simp_all [below]
  -- two finite costs
  exact fun h' => Scalar.Ordered.lt_irrefl _ (Scalar.Ordered.lt_trans h h')

/-- What comes before another cost comes before any third one, or that one before the other. -/
theorem before_or_before {a b c : Cost α} (hb : b.IsProper) (h : a.before c = true) :
    a.before b = true ∨ b.before c = true := by
  cases a <;> cases b <;> cases c <;> simp_all [before, below]
  -- three finite costs
  exact Scalar.Ordered.lt_or_lt (hb _ rfl) h

theorem notAfter_total (a b : Cost α) : (a.notAfter b || b.notAfter a) = true := by
  unfold notAfter
  cases h : b.before a with
  | false => rfl
  | true => rw [before_asymm h]; rfl

theorem notAfter_trans {a b c : Cost α} (hb : b.IsProper) (hab : a.notAfter b = true)
    (hbc : b.notAfter c = true) : a.notAfter c = true := by
  unfold notAfter at *
  cases h : c.before a with
  | false => rfl
  | true => rcases before_or_before hb h with h' | h' <;> simp_all

end Cost

/-! ## 3. Costs that are not undefined -/

namespace Cost

section

variable {α : Type} [Scalar α]

/-- Neither undefined nor a finite cost of a value that is not finite. -/
def isDefined : Cost α → Bool
  | finite v => Scalar.isFinite v
  | undefined => false
  | _ => true

/-- Costs that are equal as extended numbers. -/
def same : Cost α → Cost α → Bool
  | finite a, finite b => Scalar.same a b
  | posInf, posInf => true
  | negInf, negInf => true
  | _, _ => false

theorem isProper_of_isDefined {c : Cost α} (h : c.isDefined = true) : c.IsProper := by
  rintro v rfl
  exact h

theorem before_eq_below {a b : Cost α} (ha : a.isDefined = true) (hb : b.isDefined = true) :
    a.before b = a.below b := by
  cases a with
  | undefined => exact nomatch ha
  | _ => cases b <;> first | rfl | exact nomatch hb

theorem same_comm (a b : Cost α) : a.same b = b.same a := by
  cases a <;> cases b <;> first | rfl | exact Bool.and_comm _ _

end

variable {α : Type} [Scalar α] [Scalar.Linear α] {a b : Cost α}

theorem below_or_same_or_below (ha : a.isDefined = true) (hb : b.isDefined = true) :
    a.below b = true ∨ a.same b = true ∨ b.below a = true := by
  cases a <;> cases b <;> simp_all [isDefined, below, same]
  -- two finite costs
  rename_i v w
  by_cases hlt : v < w
  · exact .inl hlt
  · by_cases hgt : w < v
    · exact .inr (.inr hgt)
    · exact .inr (.inl (Scalar.same_of_not_lt ha hb hlt hgt))

theorem below_eq_false_of_same (h : a.same b = true) : a.below b = false := by
  cases a <;> cases b <;> simp_all [below, same]
  -- two finite costs
  exact fun hlt => (Scalar.not_same_of_lt hlt).1 h

end Cost

/-! ## 4. Objectives -/

/-- A finite answer of the objective has a finite value. -/
def Objective.IsProper {α : Type} [Scalar α] {n : ℕ} (f : Objective α n) : Prop :=
  ∀ x k c, f x k = .ok c → c.IsProper

namespace Family

theorem isProper_of_cost? {f : Family} {xs : List Float} {call : ℕ} {c : Cost Float}
    (h : f.cost? xs call = some c) : c.IsProper := by
  obtain ⟨v, -, h⟩ := Option.bind_eq_some_iff.mp h
  cases v with
  | some v =>
    rw [← Option.some.inj h]
    exact Cost.isProper_ofScalar v
  | none =>
    obtain ⟨v, -, rfl⟩ := Option.map_eq_some_iff.mp h
    exact Cost.isProper_ofScalar v

/-- The objectives of a family are proper. -/
theorem objective_isProper (f : Family) (n : ℕ) : (f.objective n).IsProper := by
  intro x call c h
  change f.answer x.toList call = .ok c at h
  unfold answer at h
  split at h
  · exact nomatch h
  · rename_i hcost
    rw [← Except.ok.inj h]
    exact isProper_of_cost? hcost
  · exact nomatch h

end Family

end BoxSearch
