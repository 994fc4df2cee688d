import BoxSearch.Proofs.Account.Best
import BoxSearch.Proofs.Repeat.Statistics

/-!
# Summaries

The best of several runs is that of the first run with the least cost.  Statistics are given exactly if
a run found a finite cost, and in exact arithmetic they do not depend on the order of the runs.  Those of
doubles may be undefined where the sum of the costs overflows.
-/

namespace BoxSearch.Repeat

/-! ## 1. The first of the best -/

section

variable {α P : Type} [Scalar α]

/-- What the runs found that found a finite cost. -/
def found (bests : List (Option (Best α P))) : List (P × Cost α) :=
  bests.filterMap fun b => b.map fun b => (b.point, .finite b.cost)

omit [Scalar α] in
theorem mem_found {bests : List (Option (Best α P))} {a : P × Cost α} :
    a ∈ found bests ↔ ∃ b, some b ∈ bests ∧ a = (b.point, .finite b.cost) := by
  unfold found
  rw [List.mem_filterMap]
  constructor
  · rintro ⟨_ | b, hb, ha⟩
    · exact nomatch ha
    · exact ⟨b, hb, (Option.some.inj ha).symm⟩
  · rintro ⟨b, hb, rfl⟩
    exact ⟨some b, hb, rfl⟩

/-- Another run is made. -/
theorem firstBest_concat (bests : List (Option (Best α P))) (b : Option (Best α P)) :
    firstBest (bests ++ [b]) = match b with
      | some b => Account.improve (firstBest bests) b.point (.finite b.cost)
      | none => firstBest bests := by
  unfold firstBest
  rw [List.foldl_append]
  cases b with
  | none => cases bests.foldl _ none <;> rfl
  | some b => cases bests.foldl _ none <;> rfl

theorem firstBest_isBest [Scalar.Ordered α] {bests : List (Option (Best α P))}
    (hproper : ∀ a ∈ found bests, a.2.IsProper) :
    Account.IsBest (found bests) (firstBest bests) := by
  induction bests using List.reverseRecOn with
  | nil => exact .nil
  | append_singleton bests b ih =>
    have hsplit : found (bests ++ [b]) = found bests ++ found [b] := List.filterMap_append
    rw [hsplit] at hproper ⊢
    have hbefore : ∀ a ∈ found bests, a.2.IsProper := fun a ha =>
      hproper a (List.mem_append_left _ ha)
    rw [firstBest_concat]
    cases b with
    | none =>
      show Account.IsBest (found bests ++ []) (firstBest bests)
      rw [List.append_nil]
      exact ih hbefore
    | some b => exact (ih hbefore).improve hbefore b.point (.finite b.cost)

end

/-! ## 2. Runs with several seeds -/

namespace Summary

variable {α P : Type} [Scalar α]

/-- The best costs of runs with several seeds are summarized, `best` being what each seed leads to. -/
structure Tells (best : ℕ → Option (Best α P)) (seeds : List ℕ) (s : Summary α P) : Prop where
  costs : s.costs = seeds.map fun k => (best k).map (·.cost)
  finite : ∀ v, some v ∈ s.costs → Scalar.isFinite v = true
  -- The best is that of the first seed whose run has the least cost.
  first : ∀ b ∈ s.best, ∃ before k after, seeds = before ++ k :: after ∧ best k = some b ∧
    (∀ k' ∈ before, ∀ b' ∈ best k', b.cost < b'.cost) ∧
    ∀ k' ∈ after, ∀ b' ∈ best k', ¬b'.cost < b.cost
  best_eq_none_iff : s.best = none ↔ ∀ c ∈ s.costs, c = none
  mean_eq_none_iff : s.mean = none ↔ ∀ c ∈ s.costs, c = none
  median_eq_none_iff : s.median = none ↔ ∀ c ∈ s.costs, c = none
  deviation_eq_none_iff : s.deviation = none ↔ ∀ c ∈ s.costs, c = none

variable {best : ℕ → Option (Best α P)} {seeds : List ℕ}

omit [Scalar α] in
theorem mem_found_map {a : P × Cost α} :
    a ∈ found (seeds.map best) ↔ ∃ k ∈ seeds, ∃ b, best k = some b ∧ a = (b.point, .finite b.cost) := by
  rw [mem_found]
  constructor
  · rintro ⟨b, hb, rfl⟩
    obtain ⟨k, hk, hkb⟩ := List.mem_map.mp hb
    exact ⟨k, hk, b, hkb, rfl⟩
  · rintro ⟨k, hk, b, hkb, rfl⟩
    exact ⟨b, List.mem_map.mpr ⟨k, hk, hkb⟩, rfl⟩

/-- The first of the least costs has its place among the seeds. -/
theorem exists_first {b : Best α P} (h : Account.IsBest (found (seeds.map best)) (some b)) :
    ∃ before k after, seeds = before ++ k :: after ∧ best k = some b ∧
      (∀ k' ∈ before, ∀ b' ∈ best k', b.cost < b'.cost) ∧
      ∀ k' ∈ after, ∀ b' ∈ best k', ¬b'.cost < b.cost := by
  obtain ⟨first, rest, hsplit, hfirst, hrest⟩ := h
  unfold found at hsplit
  rw [List.filterMap_map, List.filterMap_eq_append_iff] at hsplit
  obtain ⟨before, others, rfl, rfl, hothers⟩ := hsplit
  obtain ⟨passed, k, after, rfl, hpassed, hk, rfl⟩ := List.filterMap_eq_cons_iff.mp hothers
  obtain ⟨⟨x, v⟩, hkb, hb⟩ := Option.map_eq_some_iff.mp hk
  obtain ⟨rfl, hv⟩ := Prod.mk.inj hb
  obtain rfl := Cost.finite.inj hv
  have hfound (k' : ℕ) (b' : Best α P) (hk' : best k' = some b') :
      ((fun b : Option (Best α P) => b.map fun b => (b.point, Cost.finite b.cost)) ∘ best) k' =
        some (b'.point, .finite b'.cost) := by
    rw [Function.comp_apply, hk']
    rfl
  refine ⟨before ++ passed, k, after, (List.append_assoc _ _ _).symm, hkb, ?_, ?_⟩
  · intro k' hmem b' hk'
    rcases List.mem_append.mp hmem with hmem | hmem
    · exact hfirst _ (List.mem_filterMap.mpr ⟨k', hmem, hfound k' b' hk'⟩) _ rfl
    · exact nomatch (hpassed k' hmem).symm.trans (hfound k' b' hk')
  · intro k' hmem b' hk'
    exact hrest _ (List.mem_filterMap.mpr ⟨k', hmem, hfound k' b' hk'⟩) _ rfl

theorem ofBests_tells [Scalar.Ordered α]
    (hfinite : ∀ k, ∀ b ∈ best k, Scalar.isFinite b.cost = true) :
    Tells best seeds (ofBests (seeds.map best)) := by
  have hproper : ∀ a ∈ found (seeds.map best), a.2.IsProper := by
    intro a ha v hv
    obtain ⟨k, -, b, hkb, rfl⟩ := mem_found_map.mp ha
    obtain rfl := Cost.finite.inj hv
    exact hfinite k b hkb
  have hbest := firstBest_isBest hproper
  have hcosts : (ofBests (seeds.map best)).costs = seeds.map fun k => (best k).map (·.cost) :=
    List.map_map
  have hnone : ((ofBests (seeds.map best)).costs.filterMap id = []) ↔
      ∀ c ∈ (ofBests (seeds.map best)).costs, c = none := List.filterMap_eq_nil_iff
  refine ⟨hcosts, ?_, ?_, ?_, Repeat.mean_eq_none_iff.trans hnone,
    Repeat.median_eq_none_iff.trans hnone, Repeat.deviation_eq_none_iff.trans hnone⟩
  · intro v hv
    rw [hcosts] at hv
    obtain ⟨k, -, hk⟩ := List.mem_map.mp hv
    obtain ⟨b, hb, rfl⟩ := Option.map_eq_some_iff.mp hk
    exact hfinite k b hb
  · intro b hb
    have hb : firstBest (seeds.map best) = some b := hb
    rw [hb] at hbest
    exact exists_first hbest
  · rw [hcosts]
    show firstBest (seeds.map best) = none ↔ _
    constructor
    · intro hnothing c hc
      obtain ⟨k, hk, rfl⟩ := List.mem_map.mp hc
      rw [hnothing] at hbest
      refine Option.map_eq_none_iff.mpr (Option.eq_none_iff_forall_ne_some.mpr fun b hb => ?_)
      exact hbest _ (mem_found_map.mpr ⟨k, hk, b, hb, rfl⟩) ⟨b.cost, rfl⟩
    · intro hall
      refine Option.eq_none_iff_forall_ne_some.mpr fun b hb => ?_
      rw [hb] at hbest
      obtain ⟨k, hk, b', hkb, -⟩ := mem_found_map.mp hbest.mem
      have hcost := hall _ (List.mem_map_of_mem hk)
      rw [hkb] at hcost
      exact nomatch hcost

section

variable {seeds' : List ℕ} {s s' : Summary α P}

theorem Tells.mem_costs (h : Tells best seeds s) {k : ℕ} (hk : k ∈ seeds) {b : Best α P}
    (hb : best k = some b) : some b.cost ∈ s.costs := by
  rw [h.costs]
  exact List.mem_map.mpr ⟨k, hk, congrArg (Option.map Best.cost) hb⟩

/-- No run has a cost below the best one. -/
theorem Tells.not_lt [Scalar.Ordered α] (h : Tells best seeds s) {b : Best α P} (hb : s.best = some b)
    {k' : ℕ} (hk' : k' ∈ seeds) {b' : Best α P} (hb' : best k' = some b') : ¬b'.cost < b.cost := by
  obtain ⟨before, k, after, rfl, hk, hbefore, hafter⟩ := h.first b hb
  rcases List.mem_append.mp hk' with hmem | hmem
  · exact fun hlt => Scalar.Ordered.lt_irrefl _
      (Scalar.Ordered.lt_trans hlt (hbefore k' hmem b' hb'))
  · rcases List.mem_cons.mp hmem with rfl | hmem
    · rw [Option.some.inj (hb'.symm.trans hk)]
      exact Scalar.Ordered.lt_irrefl _
    · exact hafter k' hmem b' hb'

/-- The same seeds in another order lead to the same best cost. -/
theorem Tells.best_perm [Scalar.Total α] (h : Tells best seeds s) (h' : Tells best seeds' s')
    (hperm : seeds.Perm seeds') :
    ∀ b ∈ s.best, ∃ b' ∈ s'.best, Scalar.same b.cost b'.cost = true := by
  intro b hb
  have hfrom {seeds : List ℕ} {s : Summary α P} (h : Tells best seeds s) {b : Best α P}
      (hb : s.best = some b) : ∃ k ∈ seeds, best k = some b := by
    obtain ⟨before, k, after, rfl, hk, -, -⟩ := h.first b hb
    exact ⟨k, List.mem_append_right before List.mem_cons_self, hk⟩
  obtain ⟨k, hk, hkb⟩ := hfrom h hb
  have hcost : some b.cost ∈ s'.costs := h'.mem_costs (hperm.mem_iff.mp hk) hkb
  cases hb' : s'.best with
  | none => exact nomatch (h'.best_eq_none_iff.mp hb' _ hcost)
  | some b' =>
    obtain ⟨k', hk', hkb'⟩ := hfrom h' hb'
    refine ⟨b', rfl, Scalar.same_of_not_lt (h'.finite _ hcost) (h'.finite _ (h'.mem_costs hk' hkb'))
      ?_ ?_⟩
    · exact h'.not_lt hb' (hperm.mem_iff.mp hk) hkb
    · exact h.not_lt hb (hperm.mem_iff.mpr hk') hkb'

end

/-- In exact arithmetic the statistics do not depend on the order of the runs. -/
theorem ofBests_perm {bests bests' : List (Option (Best ℝ P))} (h : bests.Perm bests') :
    (ofBests bests).mean = (ofBests bests').mean ∧
      (ofBests bests).median = (ofBests bests').median ∧
      (ofBests bests).deviation = (ofBests bests').deviation := by
  have hcosts := (h.map fun b => b.map (·.cost)).filterMap id
  exact ⟨mean_perm hcosts, median_perm hcosts, deviation_perm hcosts⟩

/-- What is shown of the statistics of doubles is undefined if there is no finite cost.  Mean and
deviation are undefined as well if the sum of the finite costs is. -/
structure IsShown (s : Summary Float P) : Prop where
  median : Scalar.isUndefined (statistic s.median) = true ↔ ∀ c ∈ s.costs, c = none
  mean : Scalar.isUndefined (statistic s.mean) = true ↔
    (∀ c ∈ s.costs, c = none) ∨ Scalar.isUndefined (pairwiseSum (s.costs.filterMap id)) = true
  deviation : Scalar.isUndefined (statistic s.deviation) = true ↔
    Scalar.isUndefined (statistic s.mean) = true
  -- The sum of few costs is defined, and so is that of costs that are not large.
  sum : (s.costs.filterMap id).length < 8 ∨ (∀ v, some v ∈ s.costs → -1e290 ≤ v ∧ v ≤ 1e290) →
    Scalar.isUndefined (pairwiseSum (s.costs.filterMap id)) = false

/-- Where the sum of the costs is defined, statistics are undefined exactly if no cost is finite. -/
theorem IsShown.undefined_iff {s : Summary Float P} (h : s.IsShown)
    (hcosts : (s.costs.filterMap id).length < 8 ∨
      ∀ v, some v ∈ s.costs → -1e290 ≤ v ∧ v ≤ 1e290) :
    (Scalar.isUndefined (statistic s.mean) = true ↔ ∀ c ∈ s.costs, c = none) ∧
      (Scalar.isUndefined (statistic s.deviation) = true ↔ ∀ c ∈ s.costs, c = none) := by
  have hmean : Scalar.isUndefined (statistic s.mean) = true ↔ ∀ c ∈ s.costs, c = none := by
    rw [h.mean, h.sum hcosts]
    exact or_iff_left Bool.false_ne_true
  exact ⟨hmean, h.deviation.trans hmean⟩

theorem ofBests_isShown {bests : List (Option (Best Float P))}
    (hfinite : ∀ v, some v ∈ (ofBests bests).costs → Scalar.isFinite v = true)
    (hcount : bests.length ≤ 2 ^ 52) : (ofBests bests).IsShown := by
  have hmem {v : Float} (hv : v ∈ (ofBests bests).costs.filterMap id) :
      some v ∈ (ofBests bests).costs := by
    obtain ⟨c, hc, hcv⟩ := List.mem_filterMap.mp hv
    exact hcv ▸ hc
  have hfound : ∀ v ∈ (ofBests bests).costs.filterMap id, Scalar.isFinite v = true :=
    fun v hv => hfinite v (hmem hv)
  have hlength : ((ofBests bests).costs.filterMap id).length ≤ 2 ^ 52 := by
    refine (List.length_filterMap_le _ _).trans (le_of_eq_of_le ?_ hcount)
    exact List.length_map _
  have hnone : ((ofBests bests).costs.filterMap id = []) ↔ ∀ c ∈ (ofBests bests).costs, c = none :=
    List.filterMap_eq_nil_iff
  refine ⟨(isUndefined_median_iff hfound).trans hnone, ?_,
    isUndefined_deviation_iff hfound hlength, ?_⟩
  · rw [← hnone]
    exact isUndefined_mean_iff hlength
  · intro hcosts
    rw [← Bool.not_eq_true, Double.isUndefined_iff]
    rcases hcosts with hfew | hmoderate
    · exact sign_pairwiseSum_of_few hfound hfew
    · exact sign_pairwiseSum_of_moderate (fun v hv => hmoderate v (hmem hv)) hlength

end Summary

end BoxSearch.Repeat
