import BoxSearch.Repeat
import BoxSearch.Proofs.Doubles.Magnitudes

/-!
# Statistics

Statistics are taken of the scalars that there are.  In exact arithmetic they do not depend on their
order: sums that are taken in parts are sums like any other.  Doubles overflow, and a sum in which
infinities of both signs meet is undefined; this takes eight of them at least, and large ones.
-/

namespace BoxSearch.Repeat

/-! ## 1. Sums in parts -/

section

variable {α : Type} [Scalar α] {P : Multiset α → α → Prop}

/-- A fact about sums carries over from the first summand to all of them. -/
theorem foldl_add_of (hadd : ∀ {s t a b}, P s a → P t b → P (s + t) (a + b)) {s : Multiset α} {a : α}
    (ha : P s a) {xs : List α} (hxs : ∀ x ∈ xs, P {x} x) : P (s + xs) (xs.foldl (· + ·) a) := by
  induction xs generalizing s a with
  | nil => rwa [Multiset.coe_nil, add_zero]
  | cons x rest ih =>
    obtain ⟨hx, hrest⟩ := List.forall_mem_cons.mp hxs
    rw [← Multiset.cons_coe, ← Multiset.singleton_add, ← add_assoc]
    exact ih (hadd ha hx) hrest

theorem sumLanes_of (hadd : ∀ {s t a b}, P s a → P t b → P (s + t) (a + b))
    {A B C D E F G H : Multiset α} {a b c d e f g h : α} (ha : P A a) (hb : P B b) (hc : P C c)
    (hd : P D d) (he : P E e) (hf : P F f) (hg : P G g) (hh : P H h) {xs : List α}
    (hxs : ∀ x ∈ xs, P {x} x) :
    P (A + B + C + D + E + F + G + H + xs) (sumLanes a b c d e f g h xs) := by
  induction a, b, c, d, e, f, g, h, xs using sumLanes.induct generalizing A B C D E F G H with
  | case1 a b c d e f g h a' b' c' d' e' f' g' h' rest ih =>
    simp only [List.forall_mem_cons] at hxs
    obtain ⟨ha', hb', hc', hd', he', hf', hg', hh', hrest⟩ := hxs
    have hsum := ih (hadd ha ha') (hadd hb hb') (hadd hc hc') (hadd hd hd') (hadd he he')
      (hadd hf hf') (hadd hg hg') (hadd hh hh') hrest
    simp only [← Multiset.cons_coe, ← Multiset.singleton_add]
    rw [sumLanes]
    convert hsum using 1
    abel
  | case2 a b c d e f g h rest hshort =>
    have hpairs := hadd (hadd (hadd ha hb) (hadd hc hd)) (hadd (hadd he hf) (hadd hg hh))
    have hsum := foldl_add_of hadd hpairs hxs
    rw [sumLanes]
    · convert hsum using 1
      abel
    · exact hshort

theorem sumBlock_of (hzero : P 0 0.0) (hadd : ∀ {s t a b}, P s a → P t b → P (s + t) (a + b))
    {xs : List α} (hxs : ∀ x ∈ xs, P {x} x) : P xs (sumBlock xs) := by
  unfold sumBlock
  split
  · simp only [List.forall_mem_cons] at hxs
    obtain ⟨ha, hb, hc, hd, he, hf, hg, hh, hrest⟩ := hxs
    simp only [← Multiset.cons_coe, ← Multiset.singleton_add]
    convert sumLanes_of hadd ha hb hc hd he hf hg hh hrest using 1
    abel
  · have hsum := foldl_add_of hadd hzero hxs
    rwa [zero_add] at hsum

/-- Whatever holds of the empty sum and of single summands, and of a sum if it holds of two parts of it,
holds of a sum that is taken in parts. -/
theorem pairwiseSum_of (hzero : P 0 0.0) (hadd : ∀ {s t a b}, P s a → P t b → P (s + t) (a + b))
    {xs : List α} (hxs : ∀ x ∈ xs, P {x} x) : P xs (pairwiseSum xs) := by
  fun_induction pairwiseSum xs with
  | case1 xs hshort => exact sumBlock_of hzero hadd hxs
  | case2 xs hlong half ihleft ihright =>
    have hsum := hadd (ihleft fun x hx => hxs x (List.mem_of_mem_take hx))
      (ihright fun x hx => hxs x (List.mem_of_mem_drop hx))
    rwa [Multiset.coe_add, List.take_append_drop] at hsum

end

/-- In exact arithmetic it does not matter in which parts a sum is taken. -/
theorem pairwiseSum_eq (xs : List ℝ) : pairwiseSum xs = xs.sum := by
  have hsum : pairwiseSum xs = (xs : Multiset ℝ).sum :=
    pairwiseSum_of (P := fun s a => a = s.sum) (by norm_num)
      (fun ha hb => by rw [ha, hb, Multiset.sum_add]) fun x _ => (Multiset.sum_singleton x).symm
  rw [hsum, Multiset.sum_coe]

/-! ## 2. Statistics -/

section

variable {α : Type} [Scalar α]

theorem mean_eq_none_iff {xs : List α} : mean xs = none ↔ xs = [] := by
  cases xs with
  | nil => exact iff_of_true rfl rfl
  | cons x rest => exact iff_of_false nofun (List.cons_ne_nil x rest)

/-- In the middle of some scalars there is one, or there are two. -/
theorem median_eq_none_iff {xs : List α} : median xs = none ↔ xs = [] := by
  constructor
  · intro hnone
    by_contra hsome
    have hlength : (sorted xs).length = xs.length := List.length_mergeSort _
    have hpos : 0 < xs.length := List.length_pos_iff.mpr hsome
    have hget (i : ℕ) (hi : i < xs.length) : ∃ y, (sorted xs)[i]? = some y :=
      ⟨_, List.getElem?_eq_getElem (hlength.symm ▸ hi)⟩
    obtain ⟨a, ha⟩ := hget (xs.length / 2 - 1) (by omega)
    obtain ⟨b, hb⟩ := hget (xs.length / 2) (by omega)
    unfold median at hnone
    simp only [hlength, ha, hb] at hnone
    split at hnone <;> exact nomatch hnone
  · rintro rfl
    unfold median sorted
    rw [List.mergeSort_nil]
    rfl

theorem deviation_eq_none_iff {xs : List α} : deviation xs = none ↔ xs = [] := by
  cases xs with
  | nil => exact iff_of_true rfl rfl
  | cons x rest => exact iff_of_false nofun (List.cons_ne_nil x rest)

end

theorem mean_perm {xs ys : List ℝ} (h : xs.Perm ys) : mean xs = mean ys := by
  cases xs with
  | nil => rw [h.nil_eq]
  | cons x rest =>
    cases ys with
    | nil => exact absurd h.eq_nil (List.cons_ne_nil x rest)
    | cons y others =>
      show some (pairwiseSum (x :: rest) / Scalar.ofNat (x :: rest).length) =
        some (pairwiseSum (y :: others) / Scalar.ofNat (y :: others).length)
      rw [pairwiseSum_eq, pairwiseSum_eq, h.sum_eq, h.length_eq]

theorem sorted_perm {xs ys : List ℝ} (h : xs.Perm ys) : sorted xs = sorted ys := by
  have hpairwise (zs : List ℝ) : (sorted zs).Pairwise (· ≤ ·) := by
    have hsorted := @List.pairwise_mergeSort ℝ (fun a b => !decide (b < a))
      (by simpa using fun a b c hab hbc => hab.trans hbc) (by simpa using fun a b => le_total a b) zs
    exact hsorted.imp fun hab => by simpa using hab
  refine List.Perm.eq_of_pairwise (fun _ _ _ _ => le_antisymm) (hpairwise xs) (hpairwise ys) ?_
  exact (List.mergeSort_perm xs _).trans (h.trans (List.mergeSort_perm ys _).symm)

theorem median_perm {xs ys : List ℝ} (h : xs.Perm ys) : median xs = median ys := by
  unfold median
  rw [sorted_perm h]

theorem deviation_perm {xs ys : List ℝ} (h : xs.Perm ys) : deviation xs = deviation ys := by
  unfold deviation
  rw [mean_perm h]
  refine congrArg (Option.bind (mean ys)) (funext fun m => ?_)
  rw [mean_perm (h.map _)]

/-! ## 3. Statistics of doubles -/

open Double

variable {xs : List Float}

/-- A sum of doubles that are not negative is defined. -/
theorem sign_pairwiseSum (hxs : ∀ x ∈ xs, sign x = some .positive) :
    sign (pairwiseSum xs) = some .positive :=
  pairwiseSum_of (P := fun _ a => sign a = some .positive) rfl sign_add_positive hxs

/-- A sum of moderate doubles is finite. -/
theorem sign_pairwiseSum_of_moderate (hxs : ∀ x ∈ xs, -1e290 ≤ x ∧ x ≤ 1e290)
    (hcount : xs.length ≤ 2 ^ 52) : sign (pairwiseSum xs) ≠ none := by
  have hsum : xs.length ≤ 2 ^ 52 → IsModerate xs.length (pairwiseSum xs) :=
    pairwiseSum_of (P := fun s a => s.card ≤ 2 ^ 52 → IsModerate s.card a) (fun _ => isModerate_zero)
      (fun {s t a b} ha hb hcard => by
        rw [Multiset.card_add] at hcard ⊢
        exact (ha (by omega)).add hcard (hb (by omega)))
      fun x hx _ => isModerate_of_le (hxs x hx).1 (hxs x hx).2
  exact (hsum hcount).sign_ne_none

/-- A sum of few finite doubles may be infinite, but it is defined. -/
theorem sign_pairwiseSum_of_few (hfinite : ∀ x ∈ xs, Scalar.isFinite x = true)
    (hfew : xs.length < 8) : sign (pairwiseSum xs) ≠ none := by
  have hfold (a : Float) (ha : sign a ≠ none) (ys : List Float)
      (hys : ∀ y ∈ ys, Scalar.isFinite y = true) : sign (ys.foldl (· + ·) a) ≠ none := by
    induction ys generalizing a with
    | nil => exact ha
    | cons y rest ih =>
      obtain ⟨hy, hrest⟩ := List.forall_mem_cons.mp hys
      exact ih _ (sign_add_ne_none ha hy) hrest
  rw [pairwiseSum, if_pos (by omega)]
  unfold sumBlock
  split
  · simp only [List.length_cons] at hfew
    omega
  · exact hfold 0.0 (Option.some_ne_none _) xs hfinite

-- With eight, two parts of the sum may be infinities of different signs.
example : Scalar.isUndefined (pairwiseSum
    ([1e308, 1e308, 0, 0, -1e308, -1e308, 0, 0] : List Float)) = true := by
  decide +kernel

theorem isUndefined_statistic_none : Scalar.isUndefined (statistic none) = true := by decide +kernel

theorem sign_mean {x : Float} {rest : List Float} (hcount : (x :: rest).length ≤ 2 ^ 52) :
    sign (statistic (mean (x :: rest))) = sign (pairwiseSum (x :: rest)) := by
  obtain ⟨hm, hlength⟩ := unpack_ofNat (List.length_pos_of_mem List.mem_cons_self)
    (hcount.trans_lt (by norm_num))
  exact sign_div_positive hlength

/-- A sum of undefined doubles. -/
theorem sign_pairwiseSum_eq_none (hxs : ∀ x ∈ xs, sign x = none) (hne : xs ≠ []) :
    sign (pairwiseSum xs) = none := by
  have hsum : (xs : Multiset Float) ≠ 0 → sign (pairwiseSum xs) = none :=
    pairwiseSum_of (P := fun s a => s ≠ 0 → sign a = none) (fun h => absurd rfl h)
      (fun {s t a b} ha hb hne => by
        refine sign_add_eq_none ?_
        by_cases hs : s = 0
        · subst hs
          exact .inr (hb (zero_add t ▸ hne))
        · exact .inl (ha hs))
      fun x hx _ => hxs x hx
  exact hsum (Multiset.coe_eq_zero _ |>.not.mpr hne)

/-- The mean of doubles is undefined if their sum is. -/
theorem isUndefined_mean_iff (hcount : xs.length ≤ 2 ^ 52) :
    Scalar.isUndefined (statistic (mean xs)) = true ↔
      xs = [] ∨ Scalar.isUndefined (pairwiseSum xs) = true := by
  cases xs with
  | nil => exact iff_of_true isUndefined_statistic_none (.inl rfl)
  | cons x rest =>
    rw [isUndefined_iff, isUndefined_iff, sign_mean hcount]
    exact (or_iff_right (List.cons_ne_nil x rest)).symm

/-- The median of finite doubles is defined, although it may be infinite. -/
theorem isUndefined_median_iff (hfinite : ∀ x ∈ xs, Scalar.isFinite x = true) :
    Scalar.isUndefined (statistic (median xs)) = true ↔ xs = [] := by
  have hsorted {i : ℕ} {a : Float} (ha : (sorted xs)[i]? = some a) : Scalar.isFinite a = true :=
    hfinite a (List.mem_mergeSort.mp (List.mem_of_getElem? ha))
  have htwo : ∃ m e hm, (2.0 : Float).toModel.unpack = .finite .positive m e hm := ⟨_, _, _, rfl⟩
  rw [isUndefined_iff, ← median_eq_none_iff]
  constructor
  · intro hundefined
    by_contra hsome
    obtain ⟨v, hv⟩ := Option.ne_none_iff_exists'.mp hsome
    have hsign : sign v ≠ none := by
      unfold median at hv
      dsimp only at hv
      split_ifs at hv with hodd
      · exact sign_of_isFinite (hsorted hv)
      · obtain ⟨a, ha, hv⟩ := Option.bind_eq_some_iff.mp hv
        obtain ⟨b, hb, hv⟩ := Option.bind_eq_some_iff.mp hv
        obtain ⟨m, e, hm, htwo⟩ := htwo
        rw [← Option.some.inj hv, sign_div_positive htwo]
        exact sign_add_ne_none (sign_of_isFinite (hsorted ha)) (hsorted hb)
    rw [hv] at hundefined
    exact hsign hundefined
  · intro hnone
    rw [hnone]
    exact isUndefined_iff.mp isUndefined_statistic_none

/-- The deviation of finite doubles is undefined where their mean is. -/
theorem isUndefined_deviation_iff (hfinite : ∀ x ∈ xs, Scalar.isFinite x = true)
    (hcount : xs.length ≤ 2 ^ 52) :
    Scalar.isUndefined (statistic (deviation xs)) = true ↔
      Scalar.isUndefined (statistic (mean xs)) = true := by
  cases xs with
  | nil => exact Iff.rfl
  | cons x rest =>
    generalize hmean : statistic (mean (x :: rest)) = m
    have hdeviation : statistic (deviation (x :: rest)) =
        Float.sqrt (statistic (mean ((x :: rest).map fun y => (y - m) * (y - m)))) := by
      rw [← hmean]
      rfl
    have hsquares : sign (statistic (mean ((x :: rest).map fun y => (y - m) * (y - m)))) =
        sign (pairwiseSum ((x :: rest).map fun y => (y - m) * (y - m))) := by
      refine sign_mean ?_
      rwa [List.length_cons, List.length_map]
    rw [isUndefined_iff, isUndefined_iff, hdeviation]
    cases hm : sign m with
    | none =>
      have hsum : sign (pairwiseSum ((x :: rest).map fun y => (y - m) * (y - m))) = none := by
        refine sign_pairwiseSum_eq_none (List.forall_mem_map.mpr fun y _ => ?_) nofun
        rw [sign_square, sign_sub_eq_none hm, Option.map_none]
      rw [hsum] at hsquares
      refine iff_of_true ((sign_sqrt_eq ?_).trans hsquares) rfl
      rw [hsquares]
      nofun
    | some s =>
      have hsum : sign (pairwiseSum ((x :: rest).map fun y => (y - m) * (y - m))) =
          some .positive := by
        refine sign_pairwiseSum (List.forall_mem_map.mpr fun y hy => ?_)
        obtain ⟨t, ht⟩ := Option.ne_none_iff_exists'.mp
          (sign_sub_ne_none (hfinite y hy) (hm.trans_ne (Option.some_ne_none s)))
        rw [sign_square, ht, Option.map_some]
      rw [hsum] at hsquares
      refine iff_of_false ?_ nofun
      rw [sign_sqrt_eq (hsquares ▸ nofun), hsquares]
      nofun

end BoxSearch.Repeat
