import Mathlib
import BoxSearch.Genetic.Ranks
import BoxSearch.Proofs.Ranking

/-!
# Weights by rank

Costs that are ranked weigh from one up to their number, each weight once.  The place of a cost in the
ranking is the number of those that precede it (`card_idxOf_lt`, `idxOf_lt_idxOf_iff`): the cheaper ones,
and the equal ones in front of it.  So the weights can be told without ranking anything, and costs whose
order is the same weigh the same.
-/

namespace BoxSearch

variable {α : Type} [Scalar α]

/-! ## 1. Places by rank -/

namespace Cost

theorem before_of_below {a b : Cost α} (h : a.below b = true) : a.before b = true := by
  cases a <;> cases b <;> simp_all [before, below]

variable (costs : List (Cost α))

theorem rankedPlaces_perm : (rankedPlaces costs).Perm (List.range costs.length) := by
  have hplaces := (rank_perm (fun item : Cost α × ℕ => item.1) costs.zipIdx).map (·.2)
  rwa [List.zipIdx_map_snd, ← List.range_eq_range'] at hplaces

@[simp] theorem length_rankedPlaces : (rankedPlaces costs).length = costs.length := by
  rw [(rankedPlaces_perm costs).length_eq, List.length_range]

theorem mem_rankedPlaces {i : ℕ} : i ∈ rankedPlaces costs ↔ i < costs.length :=
  (rankedPlaces_perm costs).mem_iff.trans List.mem_range

theorem nodup_rankedPlaces : (rankedPlaces costs).Nodup :=
  (rankedPlaces_perm costs).nodup_iff.mpr List.nodup_range

theorem idxOf_rankedPlaces_lt {i : ℕ} (hi : i < costs.length) :
    (rankedPlaces costs).idxOf i < costs.length := by
  rw [← length_rankedPlaces costs, List.idxOf_lt_length_iff]
  exact (mem_rankedPlaces costs).mpr hi

/-- As many places come before the `k`-th one in the ranking. -/
theorem card_idxOf_lt {k : ℕ} (hk : k ≤ costs.length) :
    (Finset.univ.filter fun j : Fin costs.length =>
      (rankedPlaces costs).idxOf j.val < k).card = k := by
  have hfirst : (Finset.univ.filter fun j : Fin costs.length =>
      (rankedPlaces costs).idxOf j.val < k).map Fin.valEmbedding =
        ((rankedPlaces costs).take k).toFinset := by
    ext m
    rw [Finset.mem_map, List.mem_toFinset]
    constructor
    · rintro ⟨j, hj, rfl⟩
      exact (List.mem_take_iff_idxOf_lt ((mem_rankedPlaces costs).mpr j.isLt)).mpr
        (Finset.mem_filter.mp hj).2
    · intro hm
      have hmem := List.mem_of_mem_take hm
      exact ⟨⟨m, (mem_rankedPlaces costs).mp hmem⟩,
        Finset.mem_filter.mpr ⟨Finset.mem_univ _, (List.mem_take_iff_idxOf_lt hmem).mp hm⟩, rfl⟩
  rw [← Finset.card_map Fin.valEmbedding, hfirst,
    List.toFinset_card_of_nodup ((nodup_rankedPlaces costs).sublist (List.take_sublist k _)),
    List.length_take, length_rankedPlaces, min_eq_left hk]

/-- At its place in the ranking stands the cost of an item. -/
theorem getElem?_rank_idxOf {i : ℕ} (hi : i < costs.length) :
    (rank (fun item => item.1) costs.zipIdx)[(rankedPlaces costs).idxOf i]? = some (costs[i], i) := by
  have hlt : (rankedPlaces costs).idxOf i < (rankedPlaces costs).length := by
    rw [length_rankedPlaces]
    exact idxOf_rankedPlaces_lt costs hi
  have hplace : (rankedPlaces costs)[(rankedPlaces costs).idxOf i]? = some i :=
    List.getElem?_eq_some_iff.mpr ⟨hlt, List.getElem_idxOf hlt⟩
  rw [show rankedPlaces costs = (rank (fun item => item.1) costs.zipIdx).map (·.2) from rfl,
    List.getElem?_map] at hplace
  obtain ⟨⟨c, k⟩, hitem, rfl⟩ := Option.map_eq_some_iff.mp hplace
  have hmem := (rank_perm _ _).mem_iff.mp (List.mem_of_getElem? hitem)
  rw [List.mk_mem_zipIdx_iff_getElem?, List.getElem?_eq_getElem hi] at hmem
  rw [Option.some.inj hmem]
  exact hitem

variable [Scalar.Ordered α] {costs}

/-- Numbered costs are ranked by cost and then by number. -/
theorem pairwise_rank_zipIdx (h : ∀ c ∈ costs, c.IsProper) :
    (rank (fun item => item.1) costs.zipIdx).Pairwise (Precedes id) := by
  have hproper : ∀ item ∈ costs.zipIdx, (item.1 : Cost α).IsProper :=
    fun item hitem => h item.1 (List.fst_mem_of_mem_zipIdx hitem)
  obtain ⟨order, hperm, hsorted, hrank⟩ := rank_eq_map_order hproper
  -- The ranking numbers the items once more, with the numbers that they have.
  have hnumber : ∀ e ∈ order, e.2 = e.1.2 := by
    rintro ⟨⟨c, i⟩, j⟩ he
    have hitem := List.mk_mem_zipIdx_iff_getElem?.mp (hperm.mem_iff.mp he)
    rw [List.getElem?_zipIdx] at hitem
    obtain ⟨c', -, heq⟩ := Option.map_eq_some_iff.mp hitem
    rw [← (Prod.mk.inj heq).2, Nat.zero_add]
  rw [hrank, List.pairwise_map]
  apply hsorted.imp_of_mem
  intro a b ha hb hab
  unfold Precedes at hab ⊢
  rwa [hnumber a ha, hnumber b hb] at hab

/-- Of two places the one comes earlier in the ranking whose numbered cost precedes the other. -/
theorem idxOf_lt_idxOf_iff (h : ∀ c ∈ costs, c.IsProper) {i j : ℕ} (hi : i < costs.length)
    (hj : j < costs.length) :
    (rankedPlaces costs).idxOf i < (rankedPlaces costs).idxOf j ↔
      Precedes id (costs[i], i) (costs[j], j) := by
  have hforward {i j : ℕ} (hi : i < costs.length) (hj : j < costs.length)
      (hlt : (rankedPlaces costs).idxOf i < (rankedPlaces costs).idxOf j) :
      Precedes id (costs[i], i) (costs[j], j) := by
    obtain ⟨hi', hitem⟩ := List.getElem?_eq_some_iff.mp (getElem?_rank_idxOf costs hi)
    obtain ⟨hj', hother⟩ := List.getElem?_eq_some_iff.mp (getElem?_rank_idxOf costs hj)
    have hpair := List.pairwise_iff_getElem.mp (pairwise_rank_zipIdx h) _ _ hi' hj' hlt
    rwa [hitem, hother] at hpair
  refine ⟨hforward hi hj, fun hprecedes => ?_⟩
  rcases lt_trichotomy ((rankedPlaces costs).idxOf i) ((rankedPlaces costs).idxOf j) with
    hlt | heq | hgt
  · exact hlt
  · obtain rfl : i = j := (List.idxOf_inj ((mem_rankedPlaces costs).mpr hi)).mp heq
    exact absurd hprecedes hprecedes.asymm
  · exact absurd (hforward hj hi hgt) hprecedes.asymm

end Cost

/-! ## 2. Weights -/

section

variable (costs : List (Cost α))

@[simp] theorem length_rankWeights : (rankWeights costs).length = costs.length := by
  rw [rankWeights, List.length_map, List.length_range]

theorem getElem_rankWeights {i : ℕ} (hi : i < (rankWeights costs).length) :
    (rankWeights costs)[i] = costs.length - (Cost.rankedPlaces costs).idxOf i := by
  simp only [rankWeights, List.getElem_map, List.getElem_range]

theorem getElem?_rankWeights {i : ℕ} (hi : i < costs.length) :
    (rankWeights costs)[i]? = some (costs.length - (Cost.rankedPlaces costs).idxOf i) := by
  have hi' : i < (rankWeights costs).length := by rwa [length_rankWeights]
  rw [List.getElem?_eq_getElem hi', getElem_rankWeights]

/-- Every weight from one up to the number of costs is given once. -/
theorem rankWeights_perm : (rankWeights costs).Perm (List.range' 1 costs.length) := by
  let weight (i : ℕ) : ℕ := costs.length - (Cost.rankedPlaces costs).idxOf i
  have hfalling : (Cost.rankedPlaces costs).map weight = (List.range' 1 costs.length).reverse := by
    rw [List.reverse_range']
    apply List.ext_getElem
    · simp
    · intro k hk _
      rw [List.length_map] at hk
      have hplace : (Cost.rankedPlaces costs).idxOf (Cost.rankedPlaces costs)[k] = k :=
        (Cost.nodup_rankedPlaces costs).idxOf_getElem k hk
      simp only [List.getElem_map, List.getElem_range, weight, hplace]
      omega
  have hperm := ((Cost.rankedPlaces_perm costs).map weight).symm
  rw [hfalling] at hperm
  exact hperm.trans (List.reverse_perm _)

theorem sum_rankWeights : (rankWeights costs).sum = costs.length * (costs.length + 1) / 2 := by
  rw [(rankWeights_perm costs).sum_eq, List.sum_range']
  cases costs.length with
  | zero => rfl
  | succ m =>
    have hsplit : (m + 1) * (m + 1 + 1) = (m + 1) * m + (m + 1) * 2 := by ring
    rw [hsplit, Nat.add_mul_div_right _ _ Nat.two_pos]
    simp only [Nat.add_sub_cancel, mul_one]
    exact Nat.add_comm _ _

theorem rankWeights_pos {w : ℕ} (hw : w ∈ rankWeights costs) : 0 < w := by
  have hrange := (rankWeights_perm costs).mem_iff.mp hw
  rw [List.mem_range'_1] at hrange
  exact hrange.1

/-- A row of costs is weighed like a list. -/
theorem rankWeightsOfGrid_row :
    (rankWeightsOfGrid (.row costs) : Usable α (List ℕ)) = .ok (rankWeights costs) := by
  simp [rankWeightsOfGrid, Grid.row]

end

/-- The first of two places has the greater weight. -/
def Outweighs (weights : List ℕ) (i j : ℕ) : Prop :=
  ∃ v w, weights[i]? = some v ∧ weights[j]? = some w ∧ w < v

theorem outweighs_of_precedes [Scalar.Ordered α] {costs : List (Cost α)}
    (h : ∀ c ∈ costs, c.IsProper) {i j : ℕ} (hi : i < costs.length) (hj : j < costs.length)
    (hprecedes : Cost.Precedes id (costs[i], i) (costs[j], j)) :
    Outweighs (rankWeights costs) i j := by
  have hlt := (Cost.idxOf_lt_idxOf_iff h hi hj).mpr hprecedes
  have hplace := Cost.idxOf_rankedPlaces_lt costs hj
  refine ⟨_, _, getElem?_rankWeights costs hi, getElem?_rankWeights costs hj, ?_⟩
  omega

/-- A strictly cheaper cost weighs more. -/
theorem rankWeights_lt_of_below [Scalar.Ordered α] {costs : List (Cost α)}
    (h : ∀ c ∈ costs, c.IsProper) {i j : ℕ} {a b : Cost α} (hi : costs[i]? = some a)
    (hj : costs[j]? = some b) (hbelow : a.below b = true) : Outweighs (rankWeights costs) i j := by
  obtain ⟨hi', rfl⟩ := List.getElem?_eq_some_iff.mp hi
  obtain ⟨hj', rfl⟩ := List.getElem?_eq_some_iff.mp hj
  exact outweighs_of_precedes h hi' hj' (.inl (Cost.before_of_below hbelow))

/-! ## 3. Weights without a ranking -/

namespace Cost

variable {β : Type} [Scalar β]

/-- The function is strictly increasing on these costs, which it does not make undefined, and takes
equal ones to equal ones. -/
structure IncreasesOn (g : Cost α → Cost β) (costs : List (Cost α)) : Prop where
  defined : ∀ a ∈ costs, (g a).isDefined = true
  below : ∀ a ∈ costs, ∀ b ∈ costs, a.below b = true → (g a).below (g b) = true
  same : ∀ a ∈ costs, ∀ b ∈ costs, a.same b = true → (g a).same (g b) = true

variable [Scalar.Linear α] [Scalar.Linear β] {costs : List (Cost α)}

theorem precedes_iff {a b : Cost α} (ha : a.isDefined = true) (hb : b.isDefined = true) {i j : ℕ} :
    Precedes id (a, i) (b, j) ↔ a.below b = true ∨ a.same b = true ∧ i < j := by
  unfold Precedes notAfter
  simp only [id_eq, before_eq_below ha hb, before_eq_below hb ha, Bool.not_eq_true']
  constructor
  · rintro (hbelow | ⟨hnot, hlt⟩)
    · exact .inl hbelow
    · rcases below_or_same_or_below ha hb with hbelow | hsame | hbelow
      · exact .inl hbelow
      · exact .inr ⟨hsame, hlt⟩
      · rw [hbelow] at hnot
        exact nomatch hnot
  · rintro (hbelow | ⟨hsame, hlt⟩)
    · exact .inl hbelow
    · rw [same_comm] at hsame
      exact .inr ⟨below_eq_false_of_same hsame, hlt⟩

theorem IncreasesOn.below_eq {g : Cost α → Cost β} (hg : IncreasesOn g costs)
    (h : ∀ c ∈ costs, c.isDefined = true) {a b : Cost α} (ha : a ∈ costs) (hb : b ∈ costs) :
    (g a).below (g b) = a.below b := by
  rcases below_or_same_or_below (h a ha) (h b hb) with hbelow | hsame | hbelow
  · rw [hbelow, hg.below a ha b hb hbelow]
  · rw [below_eq_false_of_same hsame, below_eq_false_of_same (hg.same a ha b hb hsame)]
  · rw [below_asymm hbelow, below_asymm (hg.below b hb a ha hbelow)]

theorem IncreasesOn.notAfter_eq {g : Cost α → Cost β} (hg : IncreasesOn g costs)
    (h : ∀ c ∈ costs, c.isDefined = true) {a b : Cost α} (ha : a ∈ costs) (hb : b ∈ costs) :
    (g a).notAfter (g b) = a.notAfter b := by
  rw [notAfter, notAfter, before_eq_below (hg.defined b hb) (hg.defined a ha),
    before_eq_below (h b hb) (h a ha), hg.below_eq h hb ha]

/-- Costs weigh the same after a strictly increasing function was applied to them. -/
theorem IncreasesOn.rankWeights_map {g : Cost α → Cost β} (hg : IncreasesOn g costs)
    (h : ∀ c ∈ costs, c.isDefined = true) : rankWeights (costs.map g) = rankWeights costs := by
  unfold rankWeights
  rw [rankedPlaces_map_of_notAfter fun a ha b hb => hg.notAfter_eq h ha hb, List.length_map]

/-- The place of a cost in the ranking is the number of those that are cheaper, or equal and in front of
it. -/
theorem idxOf_rankedPlaces_eq_card (h : ∀ c ∈ costs, c.isDefined = true) (i : Fin costs.length) :
    (rankedPlaces costs).idxOf i.val = (Finset.univ.filter fun j : Fin costs.length =>
      costs[j].below costs[i] = true ∨ costs[j].same costs[i] = true ∧ j < i).card := by
  have hproper : ∀ c ∈ costs, c.IsProper := fun c hc => isProper_of_isDefined (h c hc)
  rw [← card_idxOf_lt costs (idxOf_rankedPlaces_lt costs i.isLt).le]
  congr 1
  apply Finset.filter_congr
  intro j _
  rw [idxOf_lt_idxOf_iff hproper j.isLt i.isLt,
    precedes_iff (h _ (List.getElem_mem j.isLt)) (h _ (List.getElem_mem i.isLt))]
  rfl

end Cost

/-- Among costs that are not undefined the weight of each is their number less the number of those that
are cheaper, or equal and in front of it.  So every weight from one up to their number is given once, a
strictly cheaper cost weighs more, and so does the first of two equal ones; and a strictly increasing
function of all costs changes no weight. -/
theorem rankWeights_count_cheaper {α : Type} [Scalar α] [Scalar.Linear α] (costs : List (Cost α))
    (h : ∀ c ∈ costs, c.isDefined = true) :
    (rankWeights costs).Perm (List.range' 1 costs.length) ∧
    (∀ i : Fin costs.length, (rankWeights costs)[i.val]? = some (costs.length -
      (Finset.univ.filter fun j : Fin costs.length =>
        costs[j].below costs[i] = true ∨ costs[j].same costs[i] = true ∧ j < i).card)) ∧
    (∀ i j : Fin costs.length, costs[i].below costs[j] = true →
      Outweighs (rankWeights costs) i j) ∧
    (∀ i j : Fin costs.length, costs[i].same costs[j] = true → i < j →
      Outweighs (rankWeights costs) i j) ∧
    (∀ (β : Type) [Scalar β] [Scalar.Linear β] (g : Cost α → Cost β), Cost.IncreasesOn g costs →
      rankWeights (costs.map g) = rankWeights costs) ∧
    (rankWeightsOfGrid (.row costs) : Usable α (List ℕ)) = .ok (rankWeights costs) := by
  have hdefined (i : Fin costs.length) : costs[i].isDefined = true := h _ (List.getElem_mem i.isLt)
  have hproper : ∀ c ∈ costs, c.IsProper := fun c hc => Cost.isProper_of_isDefined (h c hc)
  have houtweighs (i j : Fin costs.length)
      (hij : costs[i].below costs[j] = true ∨ costs[i].same costs[j] = true ∧ i < j) :
      Outweighs (rankWeights costs) i j :=
    outweighs_of_precedes hproper i.isLt j.isLt
      ((Cost.precedes_iff (hdefined i) (hdefined j)).mpr hij)
  refine ⟨rankWeights_perm costs, fun i => ?_, fun i j hbelow => houtweighs i j (.inl hbelow),
    fun i j hsame hlt => houtweighs i j (.inr ⟨hsame, hlt⟩), fun β _ _ g hg => hg.rankWeights_map h,
    rankWeightsOfGrid_row costs⟩
  rw [getElem?_rankWeights costs i.isLt, Cost.idxOf_rankedPlaces_eq_card h]

/-- Two equal doubles, an infinity and a smaller double. -/
def fourDoubles : List (Cost Float) := [.finite 2.0, .posInf, .finite 1.0, .finite 2.0]

/-- The negated reciprocal, which is zero for an infinity. -/
def negatedReciprocal : Cost Float → Cost Float
  | .finite v => .finite (-1.0 / v)
  | _ => .finite 0.0

theorem rankWeights_count_cheaper_fourDoubles :
    (∀ c ∈ fourDoubles, c.isDefined = true) ∧ Cost.IncreasesOn negatedReciprocal fourDoubles ∧
      (rankWeights fourDoubles)[3]? = some 2 ∧ Outweighs (rankWeights fourDoubles) 2 0 ∧
      Outweighs (rankWeights fourDoubles) 0 3 ∧
      rankWeights (fourDoubles.map negatedReciprocal) = rankWeights fourDoubles := by
  have hdefined : ∀ c ∈ fourDoubles, c.isDefined = true := by decide
  have hincreases : Cost.IncreasesOn negatedReciprocal fourDoubles := by
    constructor <;> decide
  obtain ⟨-, hcount, hcheaper, hequal, hmap, -⟩ := rankWeights_count_cheaper fourDoubles hdefined
  let place (k : Fin 4) : Fin fourDoubles.length := k
  exact ⟨hdefined, hincreases, (hcount (place 3)).trans (by decide),
    hcheaper (place 2) (place 0) (by decide), hequal (place 0) (place 3) (by decide) (by decide),
    hmap Float negatedReciprocal hincreases⟩

end BoxSearch
