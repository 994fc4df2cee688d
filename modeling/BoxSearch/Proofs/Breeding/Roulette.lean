import Mathlib
import BoxSearch.Proofs.Faultless.Choices
import BoxSearch.Proofs.Breeding.Ranks

/-!
# Selection in proportion to rank

A wheel is spun to a point between zero and the sum of all weights, and the place is selected in whose
part of the wheel the point lies: above the sum of the weights before it, and up to its own.  The draws
that select a place are an interval of the unit interval, as long as the weight of the place is a
fraction of the sum.
-/

namespace BoxSearch.Wheel

open MeasureTheory

/-! ## 1. Running sums -/

/-- Where the part of a place begins: at the running sum before it. -/
def lower (wheel : List ℕ) : ℕ → ℕ
  | 0 => 0
  | i + 1 => wheel.getD i 0

theorem getElem?_ofWeights (sum : ℕ) (weights : List ℕ) {i : ℕ} (hi : i < weights.length) :
    (ofWeights sum weights)[i]? = some (sum + (weights.take (i + 1)).sum) := by
  induction weights generalizing sum i with
  | nil => exact nomatch hi
  | cons w rest ih =>
    cases i with
    | zero => simp [ofWeights]
    | succ i =>
      rw [ofWeights, List.getElem?_cons_succ, ih _ (Nat.lt_of_succ_lt_succ hi), List.take_succ_cons,
        List.sum_cons, ← Nat.add_assoc]

theorem lower_ofWeights (weights : List ℕ) {i : ℕ} (hi : i ≤ weights.length) :
    lower (ofWeights 0 weights) i = (weights.take i).sum := by
  cases i with
  | zero => rfl
  | succ i =>
    rw [lower, List.getD_eq_getElem?_getD, getElem?_ofWeights 0 weights hi, Nat.zero_add]
    rfl

theorem getLast?_ofWeights {weights : List ℕ} (h : weights ≠ []) :
    (ofWeights 0 weights).getLast? = some weights.sum := by
  have hpos := List.length_pos_of_ne_nil h
  rw [List.getLast?_eq_getElem?, length_ofWeights, getElem?_ofWeights 0 weights (by omega),
    Nat.sub_add_cancel hpos, List.take_length, Nat.zero_add]

/-! ## 2. Places -/

/-- Which running sums lie before a point of the wheel. -/
theorem length_takeWhile_eq_iff (sum : ℕ) (weights : List ℕ) (x : ℝ) {i : ℕ}
    (hi : i < weights.length) :
    ((ofWeights sum weights).takeWhile fun w => !decide (x ≤ Scalar.ofNat w)).length = i ↔
      (i ≠ 0 → ((sum + (weights.take i).sum : ℕ) : ℝ) < x) ∧
        x ≤ ((sum + (weights.take (i + 1)).sum : ℕ) : ℝ) := by
  induction weights generalizing sum i with
  | nil => exact nomatch hi
  | cons w rest ih =>
    rw [ofWeights, List.takeWhile_cons]
    by_cases hx : x ≤ Scalar.ofNat (sum + w)
    · -- The point lies in the first part.
      rw [decide_eq_true hx, Bool.not_true, if_neg Bool.false_ne_true, List.length_nil]
      rw [Scalar.ofNat_real] at hx
      cases i with
      | zero => simpa using hx
      | succ i =>
        refine iff_of_false (Nat.succ_ne_zero i).symm fun h => (h.1 (Nat.succ_ne_zero i)).not_ge ?_
        refine hx.trans (Nat.cast_le.mpr ?_)
        rw [List.take_succ_cons, List.sum_cons]
        omega
    · rw [decide_eq_false hx, Bool.not_false, if_pos rfl, List.length_cons]
      rw [Scalar.ofNat_real] at hx
      cases i with
      | zero =>
        refine iff_of_false (Nat.succ_ne_zero _) fun h => hx ?_
        simpa using h.2
      | succ i =>
        rw [Nat.succ_inj, ih (sum + w) (Nat.lt_of_succ_lt_succ hi), List.take_succ_cons,
          List.take_succ_cons, List.sum_cons, List.sum_cons, ← Nat.add_assoc, ← Nat.add_assoc]
        refine and_congr_left fun _ => ?_
        cases i with
        | zero => simpa using hx
        | succ i => simp

/-- Some running sum is not before a point that is at most the last one. -/
theorem length_takeWhile_lt {weights : List ℕ} (h : weights ≠ []) {x : ℝ} (hx : x ≤ weights.sum) :
    ((ofWeights 0 weights).takeWhile fun w => !decide (x ≤ Scalar.ofNat w)).length <
      weights.length := by
  by_contra hge
  rw [not_lt, ← length_ofWeights 0] at hge
  have hall := List.IsPrefix.eq_of_length_le (List.takeWhile_prefix _) hge
  have hlast := List.takeWhile_eq_self_iff.mp hall _ (List.mem_of_getLast? (getLast?_ofWeights h))
  rw [Scalar.ofNat_real, decide_eq_true hx] at hlast
  exact nomatch hlast

/-! ## 3. Spins -/

/-- The sum of all weights. -/
def total (costs : List (Cost ℝ)) : ℕ := costs.length * (costs.length + 1) / 2

/-- The draws of the unit interval with which a wheel selects a place. -/
def draws (wheel : List ℕ) (i : ℕ) : Set ℝ := {u | 0 ≤ u ∧ u < 1 ∧ selectAt wheel u = i}

variable {costs : List (Cost ℝ)}

theorem getLast?_ofCosts (h : costs ≠ []) : (ofCosts costs).getLast? = some (total costs) := by
  have hweights : rankWeights costs ≠ [] := by
    rw [← List.length_pos_iff, length_rankWeights]
    exact List.length_pos_of_ne_nil h
  rw [ofCosts, getLast?_ofWeights hweights, sum_rankWeights]
  rfl

theorem total_pos (h : costs ≠ []) : 0 < total costs := by
  have hpos := List.length_pos_of_ne_nil h
  exact Nat.div_pos (by nlinarith) Nat.two_pos

/-- A draw of the unit interval stays on the wheel. -/
theorem mul_total_le {u : ℝ} (hu : u < 1) : u * total costs ≤ (rankWeights costs).sum := by
  rw [sum_rankWeights]
  exact mul_le_of_le_one_left (Nat.cast_nonneg _) hu.le

/-- The last place stands in for no other one. -/
theorem selectAt_eq_length (h : costs ≠ []) {u : ℝ} (hu : u < 1) :
    selectAt (ofCosts costs) u =
      ((ofCosts costs).takeWhile fun w => !decide (u * total costs ≤ Scalar.ofNat w)).length := by
  have hweights : rankWeights costs ≠ [] := by
    rwa [← List.length_pos_iff, length_rankWeights, List.length_pos_iff]
  have hlt := length_takeWhile_lt hweights (mul_total_le hu)
  rw [length_rankWeights] at hlt
  unfold selectAt select
  rw [getLast?_ofCosts h, length_ofCosts, Option.getD_some, Scalar.ofNat_real]
  exact min_eq_left (Nat.le_sub_one_of_lt hlt)

theorem selectAt_eq_iff (h : costs ≠ []) {u : ℝ} (hu : u < 1) {i : ℕ} (hi : i < costs.length) :
    selectAt (ofCosts costs) u = i ↔
      (i ≠ 0 → (((rankWeights costs).take i).sum : ℝ) < u * total costs) ∧
        u * total costs ≤ ((rankWeights costs).take (i + 1)).sum := by
  rw [selectAt_eq_length h hu, ofCosts, length_takeWhile_eq_iff 0 _ _ (by rwa [length_rankWeights]),
    Nat.zero_add, Nat.zero_add]

/-- The draws that select a place are those of an interval, whose ends may belong to it or not. -/
theorem mem_draws_iff (h : costs ≠ []) {i w : ℕ} (hw : (rankWeights costs)[i]? = some w) {u : ℝ} :
    u ∈ draws (ofCosts costs) i ↔ 0 ≤ u ∧ u < 1 ∧
      (i ≠ 0 → (((rankWeights costs).take i).sum : ℝ) < u * total costs) ∧
        u * total costs ≤ ((rankWeights costs).take i).sum + w := by
  obtain ⟨hi, rfl⟩ := List.getElem?_eq_some_iff.mp hw
  rw [length_rankWeights] at hi
  refine and_congr_right fun _ => and_congr_right fun hu => ?_
  rw [selectAt_eq_iff h hu hi, List.sum_take_succ, Nat.cast_add]

theorem ordConnected_draws (h : costs ≠ []) {i w : ℕ} (hw : (rankWeights costs)[i]? = some w) :
    (draws (ofCosts costs) i).OrdConnected := by
  refine ⟨fun u hu v hv z ⟨huz, hzv⟩ => ?_⟩
  obtain ⟨hnonneg, -, hlower, -⟩ := (mem_draws_iff h hw).mp hu
  obtain ⟨-, hone, -, hupper⟩ := (mem_draws_iff h hw).mp hv
  have hmono {x y : ℝ} (hxy : x ≤ y) : x * total costs ≤ y * total costs :=
    mul_le_mul_of_nonneg_right hxy (Nat.cast_nonneg _)
  exact (mem_draws_iff h hw).mpr ⟨hnonneg.trans huz, hzv.trans_lt hone,
    fun hi => (hlower hi).trans_le (hmono huz), (hmono hzv).trans hupper⟩

theorem volume_draws (h : costs ≠ []) {i w : ℕ} (hw : (rankWeights costs)[i]? = some w) :
    volume (draws (ofCosts costs) i) = ENNReal.ofReal (w / total costs) := by
  have hpos : (0 : ℝ) < total costs := Nat.cast_pos.mpr (total_pos h)
  have hfits : (((rankWeights costs).take i).sum : ℝ) + w ≤ total costs := by
    obtain ⟨hi, rfl⟩ := List.getElem?_eq_some_iff.mp hw
    rw [← Nat.cast_add, ← List.sum_take_succ, total, ← sum_rankWeights]
    exact Nat.cast_le.mpr ((List.take_sublist _ _).sum_le_sum fun _ _ => Nat.zero_le _)
  set before := (((rankWeights costs).take i).sum : ℝ) with hbefore
  have hnonneg : 0 ≤ before := Nat.cast_nonneg _
  have hlength : (before + w) / total costs - before / total costs = w / total costs := by ring
  -- The draws lie between two intervals that differ by their ends.
  have hinner : Set.Ioo (before / total costs) ((before + w) / total costs) ⊆
      draws (ofCosts costs) i := by
    rintro u ⟨hlo, hhi⟩
    have hunit : (before + w) / total costs ≤ 1 := (div_le_one hpos).mpr hfits
    rw [mem_draws_iff h hw]
    exact ⟨(div_nonneg hnonneg hpos.le).trans hlo.le, hhi.trans_le hunit,
      fun _ => (div_lt_iff₀ hpos).mp hlo, ((lt_div_iff₀ hpos).mp hhi).le⟩
  have houter : draws (ofCosts costs) i ⊆
      Set.Icc (before / total costs) ((before + w) / total costs) := by
    intro u hu
    obtain ⟨hu0, -, hlower, hupper⟩ := (mem_draws_iff h hw).mp hu
    refine ⟨(div_le_iff₀ hpos).mpr ?_, (le_div_iff₀ hpos).mpr hupper⟩
    by_cases hi : i = 0
    · rw [hbefore, hi, List.take_zero, List.sum_nil, Nat.cast_zero]
      exact mul_nonneg hu0 hpos.le
    · exact (hlower hi).le
  apply le_antisymm
  · calc volume (draws (ofCosts costs) i)
        ≤ volume (Set.Icc (before / total costs) ((before + w) / total costs)) :=
          measure_mono houter
      _ = ENNReal.ofReal (w / total costs) := by rw [Real.volume_Icc, hlength]
  · calc ENNReal.ofReal (w / total costs)
        = volume (Set.Ioo (before / total costs) ((before + w) / total costs)) := by
          rw [Real.volume_Ioo, hlength]
      _ ≤ volume (draws (ofCosts costs) i) := measure_mono hinner

theorem selectAt_zero (h : costs ≠ []) : selectAt (ofCosts costs) (0 : ℝ) = 0 := by
  rw [selectAt_eq_iff h zero_lt_one (List.length_pos_of_ne_nil h), zero_mul]
  exact ⟨fun hne => absurd rfl hne, Nat.cast_nonneg _⟩

theorem selectAt_lt (h : costs ≠ []) (u : ℝ) : selectAt (ofCosts costs) u < costs.length := by
  have hpos := List.length_pos_of_ne_nil h
  unfold selectAt select
  rw [length_ofCosts]
  omega

/-- The place is selected in whose part of the wheel the point lies. -/
theorem selectAt_eq_iff_of_pos (h : costs ≠ []) {u : ℝ} (hpos : 0 < u) (hu : u < 1) (i : ℕ) :
    selectAt (ofCosts costs) u = i ↔ ∃ w, (ofCosts costs)[i]? = some w ∧
      lower (ofCosts costs) i < u * total costs ∧ u * total costs ≤ w := by
  have hwheel {i : ℕ} (hi : i < costs.length) :
      (ofCosts costs)[i]? = some ((rankWeights costs).take (i + 1)).sum := by
    rw [ofCosts, getElem?_ofWeights 0 _ (by rwa [length_rankWeights]), Nat.zero_add]
  have hlower {i : ℕ} (hi : i < costs.length) :
      lower (ofCosts costs) i = ((rankWeights costs).take i).sum :=
    lower_ofWeights _ (by rw [length_rankWeights]; exact hi.le)
  have hspin : 0 < u * total costs := mul_pos hpos (Nat.cast_pos.mpr (total_pos h))
  constructor
  · rintro rfl
    have hi := selectAt_lt h u
    obtain ⟨habove, hupTo⟩ := (selectAt_eq_iff h hu hi).mp rfl
    refine ⟨_, hwheel hi, ?_, hupTo⟩
    by_cases hzero : selectAt (ofCosts costs) u = 0
    · rwa [hzero, lower, Nat.cast_zero]
    · rw [hlower hi]
      exact habove hzero
  · rintro ⟨w, hw, habove, hupTo⟩
    have hi : i < costs.length := by
      rw [← length_ofCosts costs]
      exact (List.getElem?_eq_some_iff.mp hw).1
    rw [hlower hi] at habove
    rw [hwheel hi] at hw
    rw [← Option.some.inj hw] at hupTo
    exact (selectAt_eq_iff h hu hi).mpr ⟨fun _ => habove, hupTo⟩

/-- Among ranked costs a draw selects the one place in whose part of the wheel it falls, the first place
if it is zero, without a need for the cap.  The draws that select a place are an interval of the length
of its weight as a fraction of all, so that a strictly cheaper one has a strictly larger chance. -/
theorem selects_in_proportion (σ : Type) [DrawSource σ ℝ] (costs : List (Cost ℝ)) (h : costs ≠ []) :
    (ofCosts costs).getLast? = some (total costs) ∧
    (∀ s : σ, (spin (α := ℝ) (ofCosts costs) s).1 =
      selectAt (ofCosts costs) (DrawSource.uniform s).1) ∧
    (∀ u : ℝ, 0 ≤ u → u < 1 →
      selectAt (ofCosts costs) u =
        ((ofCosts costs).takeWhile fun w => !decide (u * total costs ≤ Scalar.ofNat w)).length ∧
      (u = 0 → selectAt (ofCosts costs) u = 0) ∧
      (0 < u → ∀ i, selectAt (ofCosts costs) u = i ↔ ∃ w, (ofCosts costs)[i]? = some w ∧
        lower (ofCosts costs) i < u * total costs ∧ u * total costs ≤ w)) ∧
    (∀ i w : ℕ, (rankWeights costs)[i]? = some w → (draws (ofCosts costs) i).OrdConnected ∧
      volume (draws (ofCosts costs) i) = ENNReal.ofReal (w / total costs)) ∧
    ∀ i j a b, costs[i]? = some a → costs[j]? = some b → a.below b = true →
      volume (draws (ofCosts costs) j) < volume (draws (ofCosts costs) i) := by
  refine ⟨getLast?_ofCosts h, fun s => rfl, fun u hnonneg hu => ⟨selectAt_eq_length h hu, ?_, ?_⟩,
    fun i w hw => ⟨ordConnected_draws h hw, volume_draws h hw⟩, ?_⟩
  · rintro rfl
    exact selectAt_zero h
  · exact fun hpos i => selectAt_eq_iff_of_pos h hpos hu i
  · intro i j a b hi hj hbelow
    obtain ⟨v, w, hv, hw, hlt⟩ :=
      rankWeights_lt_of_below (fun c _ => Cost.isProper_real c) hi hj hbelow
    have hpos : (0 : ℝ) < total costs := Nat.cast_pos.mpr (total_pos h)
    have hgreater := rankWeights_pos costs (List.mem_of_getElem? hv)
    rw [volume_draws h hv, volume_draws h hw,
      ENNReal.ofReal_lt_ofReal_iff (div_pos (Nat.cast_pos.mpr hgreater) hpos)]
    exact div_lt_div_of_pos_right (Nat.cast_lt.mpr hlt) hpos

/-- Three costs, of which the last is the least and the second is infinite. -/
noncomputable def threeCosts : List (Cost ℝ) := [.finite 1, .posInf, .finite 0]

theorem selects_in_proportion_three :
    threeCosts ≠ [] ∧ selectAt (ofCosts threeCosts) (0 : ℝ) = 0 ∧
      volume (draws (ofCosts threeCosts) 1) < volume (draws (ofCosts threeCosts) 0) ∧
      volume (draws (ofCosts threeCosts) 0) < volume (draws (ofCosts threeCosts) 2) := by
  have hsome : threeCosts ≠ [] := List.cons_ne_nil _ _
  obtain ⟨-, -, hplaces, -, hcheaper⟩ := selects_in_proportion UnitTape threeCosts hsome
  exact ⟨hsome, (hplaces 0 le_rfl zero_lt_one).2.1 rfl, hcheaper 0 1 _ _ rfl rfl rfl,
    hcheaper 2 0 _ _ rfl rfl (decide_eq_true zero_lt_one)⟩

end BoxSearch.Wheel
