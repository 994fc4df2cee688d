import Mathlib
import BoxSearch.Proofs.Partition.Levels

/-!
# Potential optimality

A cell is potentially optimal if some rate of change of the objective makes it the best of all: at
that rate no cell of another level could hold less, and the cell could hold less than the least cost
by a given fraction.  The selection looks for such a rate among the candidates only, and not at
rates: it compares the extreme slopes to smaller and to larger cells.  In exact arithmetic that is the
same.  Every cell is dominated by a candidate of its level, the rates that suit a cell are those
between its extreme slopes, and the largest of them promises most.
-/

namespace BoxSearch.Hull

/-! ## 1. The cheapest cell -/

section

variable {members rest : List (ℕ × Sighting ℝ)} {b best : ℕ × Sighting ℝ}

/-- What the cheapest cell is first in: the costs, and the places where costs are equal. -/
def rankOf (c : ℕ × Sighting ℝ) : ℝ ×ₗ ℕ := toLex (c.2.cost, c.1)

theorem rankOf_foldl_le (h : (b :: rest).Pairwise fun c d => c.1 < d.1) :
    ∀ c ∈ b :: rest, rankOf (rest.foldl (fun best c =>
      if Scalar.isUndefined best.2.cost then best
      else if best.2.cost ≤ c.2.cost then best else c) b) ≤ rankOf c := by
  induction rest generalizing b with
  | nil =>
    intro c hc
    rw [List.mem_singleton.mp hc]
    exact le_rfl
  | cons d rest ih =>
    obtain ⟨hb, hrest⟩ := List.pairwise_cons.mp h
    have hdefined : Scalar.isUndefined b.2.cost = false := by
      unfold Scalar.isUndefined
      rw [decide_eq_true le_rfl, Bool.not_true]
    rw [List.foldl_cons, hdefined, if_neg Bool.false_ne_true]
    split_ifs with hle
    · -- The next cell comes after the best so far, which goes on.
      have hbest := ih (b := b) (List.pairwise_cons.mpr
        ⟨fun c hc => hb c (List.mem_cons_of_mem d hc), hrest.of_cons⟩)
      have hd : rankOf b ≤ rankOf d :=
        Prod.Lex.toLex_le_toLex.mpr
          (hle.lt_or_eq.imp_right fun heq => ⟨heq, (hb d List.mem_cons_self).le⟩)
      intro c hc
      rcases List.mem_cons.mp hc with rfl | hc
      · exact hbest c List.mem_cons_self
      rcases List.mem_cons.mp hc with rfl | hc
      · exact (hbest b List.mem_cons_self).trans hd
      · exact hbest c (List.mem_cons_of_mem b hc)
    · have hbest := ih hrest
      have hd : rankOf d ≤ rankOf b := Prod.Lex.toLex_le_toLex.mpr (.inl (not_le.mp hle))
      intro c hc
      rcases List.mem_cons.mp hc with rfl | hc
      · exact (hbest d List.mem_cons_self).trans hd
      · exact hbest c hc

theorem rankOf_cheapest_le (hplaces : members.Pairwise fun c d => c.1 < d.1)
    (h : cheapest members = some best) : ∀ c ∈ members, rankOf best ≤ rankOf c := by
  cases members with
  | nil => exact nomatch h
  | cons first rest =>
    rw [← Option.some.inj h]
    exact rankOf_foldl_le hplaces

theorem cost_le_of_rankOf_le {c d : ℕ × Sighting ℝ} (h : rankOf c ≤ rankOf d) :
    c.2.cost ≤ d.2.cost :=
  (Prod.Lex.toLex_le_toLex.mp h).elim le_of_lt fun heq => heq.1.le

end

/-! ## 2. Candidates -/

/-- Equal neighbours are the only duplicates of a sorted list. -/
theorem pairwise_lt_eraseDups (xs : List ℤ) (h : xs.Pairwise (· ≤ ·)) :
    xs.eraseDups.Pairwise (· < ·) := by
  match xs with
  | [] => exact .nil
  | x :: xs =>
    obtain ⟨hx, hxs⟩ := List.pairwise_cons.mp h
    rw [List.eraseDups_cons, List.pairwise_cons]
    refine ⟨fun y hy => ?_, pairwise_lt_eraseDups _ (hxs.sublist List.filter_sublist)⟩
    obtain ⟨hmem, hne⟩ := List.mem_filter.mp (List.mem_eraseDups.mp hy)
    exact (hx y hmem).lt_of_ne fun heq => by simp [heq] at hne
termination_by xs.length
decreasing_by exact Nat.lt_succ_of_le (List.length_filter_le _ _)

/-- The levels are listed once each, the smallest first. -/
theorem levels_pairwise (cells : List (Sighting ℝ)) : (levels cells).Pairwise (· < ·) := by
  have hsorted := @List.pairwise_mergeSort ℤ (fun a b => decide (a ≤ b))
    (by simpa using fun a b c => Int.le_trans) (by simpa using Int.le_total)
    (cells.map (·.level))
  exact pairwise_lt_eraseDups _ (hsorted.imp of_decide_eq_true)

theorem mem_levels {cells : List (Sighting ℝ)} {level : ℤ} :
    level ∈ levels cells ↔ ∃ c ∈ cells, c.level = level := by
  unfold levels
  rw [List.mem_eraseDups, List.mem_mergeSort, List.mem_map]

/-- The cells of one level, with their places. -/
def members (cells : List (Sighting ℝ)) (level : ℤ) : List (ℕ × Sighting ℝ) :=
  (cells.zipIdx.map fun (c, i) => (i, c)).filter fun c => c.2.level == level

theorem mem_members {cells : List (Sighting ℝ)} {level : ℤ} {c : ℕ × Sighting ℝ} :
    c ∈ members cells level ↔ cells[c.1]? = some c.2 ∧ c.2.level = level := by
  unfold members
  rw [List.mem_filter, List.mem_map, beq_iff_eq]
  refine and_congr_left fun _ => ⟨?_, fun h => ?_⟩
  · rintro ⟨numbered, hmem, rfl⟩
    exact List.mem_zipIdx_iff_getElem?.mp hmem
  · exact ⟨(c.2, c.1), List.mem_zipIdx_iff_getElem?.mpr h, rfl⟩

theorem members_pairwise (cells : List (Sighting ℝ)) (level : ℤ) :
    (members cells level).Pairwise fun c d => c.1 < d.1 := by
  apply List.Pairwise.filter
  rw [List.pairwise_map]
  have hplaces : (cells.zipIdx.map Prod.snd).Pairwise (· < ·) := by
    rw [List.zipIdx_map_snd]
    exact List.pairwise_lt_range'
  exact List.pairwise_map.mp hplaces

/-- The cheapest cell of a level, the first among equals. -/
structure IsBestOf (cells : List (Sighting ℝ)) (level : ℤ) (best : ℕ × Sighting ℝ) : Prop where
  mem : best ∈ members cells level
  le : ∀ c ∈ members cells level, rankOf best ≤ rankOf c

/-- The candidates of a level that has cells: the best of them, then those that tie it. -/
theorem candidatesOf_spec {cells : List (Sighting ℝ)} {level : ℤ} (h : level ∈ levels cells) :
    ∃ best, IsBestOf cells level best ∧
      candidatesOf (cells.zipIdx.map fun (c, i) => (i, c)) level =
        best :: (members cells level).filter fun c =>
          c.1 != best.1 && decide (|c.2.cost - best.2.cost| ≤ 1e-13) := by
  obtain ⟨c, hc, hlevel⟩ := mem_levels.mp h
  obtain ⟨i, hi⟩ := List.mem_iff_getElem?.mp hc
  have hmem : (i, c) ∈ members cells level := mem_members.mpr ⟨hi, hlevel⟩
  cases hbest : cheapest (members cells level) with
  | none =>
    cases hmembers : members cells level with
    | nil =>
      rw [hmembers] at hmem
      exact nomatch hmem
    | cons d rest =>
      rw [hmembers] at hbest
      exact nomatch hbest
  | some best =>
    refine ⟨best, ⟨mem_of_cheapest hbest, rankOf_cheapest_le (members_pairwise cells level) hbest⟩, ?_⟩
    unfold candidatesOf
    dsimp only
    split
    · rename_i hnone
      exact nomatch hbest.symm.trans hnone
    · rename_i best' hbest'
      obtain rfl := Option.some.inj (hbest.symm.trans hbest')
      rfl

theorem mem_candidatesOf_iff {cells : List (Sighting ℝ)} {level : ℤ} (h : level ∈ levels cells)
    {c : ℕ × Sighting ℝ} :
    c ∈ candidatesOf (cells.zipIdx.map fun (c, i) => (i, c)) level ↔
      c ∈ members cells level ∧ ∀ d ∈ members cells level, c.2.cost ≤ d.2.cost + 1e-13 := by
  obtain ⟨best, hbest, heq⟩ := candidatesOf_spec h
  have htolerance : (0 : ℝ) ≤ 1e-13 := by norm_num
  rw [heq, List.mem_cons, List.mem_filter, Bool.and_eq_true, bne_iff_ne, decide_eq_true_iff]
  constructor
  · rintro (rfl | ⟨hmem, -, htie⟩)
    · refine ⟨hbest.mem, fun d hd => ?_⟩
      linarith [cost_le_of_rankOf_le (hbest.le d hd)]
    · refine ⟨hmem, fun d hd => ?_⟩
      linarith [cost_le_of_rankOf_le (hbest.le d hd), le_of_abs_le htie]
  · rintro ⟨hmem, htie⟩
    have hle := cost_le_of_rankOf_le (hbest.le c hmem)
    by_cases hplace : c.1 = best.1
    · -- One place holds one cell.
      left
      have hcell := (mem_members.mp hmem).1
      rw [hplace, (mem_members.mp hbest.mem).1] at hcell
      exact Prod.ext hplace (Option.some.inj hcell).symm
    · refine .inr ⟨hmem, hplace, ?_⟩
      rw [abs_of_nonneg (sub_nonneg.mpr hle)]
      linarith [htie best hbest.mem]

/-- A candidate exceeds no cell of its level by more than the tolerance. -/
theorem mem_candidates_iff {cells : List (Sighting ℝ)} {c : ℕ × Sighting ℝ} :
    c ∈ candidates cells ↔
      cells[c.1]? = some c.2 ∧ ∀ d ∈ cells, d.level = c.2.level → c.2.cost ≤ d.cost + 1e-13 := by
  unfold candidates
  rw [List.mem_flatMap]
  constructor
  · rintro ⟨level, hlevel, hc⟩
    obtain ⟨hmem, htie⟩ := (mem_candidatesOf_iff hlevel).mp hc
    obtain ⟨hcell, rfl⟩ := mem_members.mp hmem
    refine ⟨hcell, fun d hd hsame => ?_⟩
    obtain ⟨j, hj⟩ := List.mem_iff_getElem?.mp hd
    exact htie (j, d) (mem_members.mpr ⟨hj, hsame⟩)
  · rintro ⟨hcell, htie⟩
    have hlevel : c.2.level ∈ levels cells := mem_levels.mpr ⟨c.2, List.mem_of_getElem? hcell, rfl⟩
    refine ⟨c.2.level, hlevel, (mem_candidatesOf_iff hlevel).mpr
      ⟨mem_members.mpr ⟨hcell, rfl⟩, fun d hd => ?_⟩⟩
    obtain ⟨hd, hsame⟩ := mem_members.mp hd
    exact htie d.2 (List.mem_of_getElem? hd) hsame

/-- Every cell is dominated by a candidate of its level. -/
theorem exists_candidate_le {cells : List (Sighting ℝ)} {d : Sighting ℝ} (hd : d ∈ cells) :
    ∃ e ∈ candidates cells, e.2.level = d.level ∧ e.2.cost ≤ d.cost := by
  have hlevel : d.level ∈ levels cells := mem_levels.mpr ⟨d, hd, rfl⟩
  obtain ⟨best, hbest, heq⟩ := candidatesOf_spec hlevel
  obtain ⟨j, hj⟩ := List.mem_iff_getElem?.mp hd
  refine ⟨best, ?_, (mem_members.mp hbest.mem).2,
    cost_le_of_rankOf_le (hbest.le (j, d) (mem_members.mpr ⟨hj, rfl⟩))⟩
  unfold candidates
  rw [List.mem_flatMap]
  exact ⟨d.level, hlevel, heq ▸ List.mem_cons_self⟩

/-- Candidates are listed by level, each of them once. -/
theorem candidates_pairwise (cells : List (Sighting ℝ)) :
    (candidates cells).Pairwise fun c d => c.1 ≠ d.1 ∧ c.2.level ≤ d.2.level := by
  unfold candidates
  rw [List.pairwise_flatMap]
  refine ⟨fun level hlevel => ?_, (levels_pairwise cells).imp_of_mem ?_⟩
  · obtain ⟨best, hbest, heq⟩ := candidatesOf_spec hlevel
    have hsame {c d : ℕ × Sighting ℝ} (hc : c ∈ members cells level) (hd : d ∈ members cells level) :
        c.2.level ≤ d.2.level := by
      rw [(mem_members.mp hc).2, (mem_members.mp hd).2]
    rw [heq, List.pairwise_cons]
    refine ⟨fun c hc => ?_, ?_⟩
    · obtain ⟨hmem, hplace⟩ := List.mem_filter.mp hc
      rw [Bool.and_eq_true, bne_iff_ne] at hplace
      exact ⟨hplace.1.symm, hsame hbest.mem hmem⟩
    · apply List.Pairwise.filter
      exact (members_pairwise cells level).imp_of_mem fun hc hd hlt => ⟨hlt.ne, hsame hc hd⟩
  · intro level level' hlevel hlevel' hlt c hc d hd
    obtain ⟨hcell, rfl⟩ := mem_members.mp ((mem_candidatesOf_iff hlevel).mp hc).1
    obtain ⟨hcell', rfl⟩ := mem_members.mp ((mem_candidatesOf_iff hlevel').mp hd).1
    refine ⟨fun hplace => hlt.ne ?_, hlt.le⟩
    rw [hplace, hcell'] at hcell
    rw [Option.some.inj hcell]

/-- The first candidate is the best of the smallest level. -/
theorem isBestOf_of_candidates_eq_cons {cells : List (Sighting ℝ)} {first : ℕ × Sighting ℝ}
    {rest : List (ℕ × Sighting ℝ)} (h : candidates cells = first :: rest) :
    IsBestOf cells first.2.level first ∧ ∀ d ∈ cells, first.2.level ≤ d.level := by
  have hsorted := levels_pairwise cells
  unfold candidates at h
  cases hlevels : levels cells with
  | nil =>
    rw [hlevels] at h
    exact nomatch h
  | cons level others =>
    rw [hlevels] at h hsorted
    obtain ⟨best, hbest, heq⟩ := candidatesOf_spec (hlevels ▸ List.mem_cons_self : level ∈ levels cells)
    rw [List.flatMap_cons, heq, List.cons_append] at h
    obtain rfl := (List.cons.inj h).1
    have hlevel := (mem_members.mp hbest.mem).2
    rw [hlevel]
    refine ⟨hbest, fun d hd => ?_⟩
    have hmem : d.level ∈ level :: others := hlevels ▸ mem_levels.mpr ⟨d, hd, rfl⟩
    rcases List.mem_cons.mp hmem with heq | hmem
    · exact heq.ge
    · exact (List.rel_of_pairwise_cons hsorted hmem).le

/-! ## 3. Extreme slopes -/

theorem strictMost_real (x y : ℝ) : Scalar.strictMost x y = max x y := by
  unfold Scalar.strictMost Scalar.isUndefined
  rw [decide_eq_true le_rfl, Bool.not_true, if_neg Bool.false_ne_true]
  split_ifs with h
  · rw [max_eq_left h]
  · rw [max_eq_right (not_le.mp h).le]

theorem strictLeast_real (x y : ℝ) : Scalar.strictLeast x y = min x y := by
  unfold Scalar.strictLeast Scalar.isUndefined
  rw [decide_eq_true le_rfl, Bool.not_true, if_neg Bool.false_ne_true]
  split_ifs with h
  · rw [min_eq_left h]
  · rw [min_eq_right (not_le.mp h).le]

theorem extreme_strictMost_le_iff {bound rate : ℝ} {slopes : List ℝ} :
    extreme Scalar.strictMost bound slopes ≤ rate ↔
      (∀ s ∈ slopes, s ≤ rate) ∧ (slopes = [] → bound ≤ rate) := by
  cases slopes with
  | nil => simp [extreme]
  | cons s rest =>
    have hfold : rest.foldl Scalar.strictMost s ≤ rate ↔ s ≤ rate ∧ ∀ s ∈ rest, s ≤ rate := by
      induction rest generalizing s with
      | nil => simp
      | cons s' rest ih =>
        rw [List.foldl_cons, ih, strictMost_real, max_le_iff, List.forall_mem_cons, and_assoc]
    simpa [extreme] using hfold

theorem le_extreme_strictLeast_iff {bound rate : ℝ} {slopes : List ℝ} :
    rate ≤ extreme Scalar.strictLeast bound slopes ↔
      (∀ s ∈ slopes, rate ≤ s) ∧ (slopes = [] → rate ≤ bound) := by
  cases slopes with
  | nil => simp [extreme]
  | cons s rest =>
    have hfold : rate ≤ rest.foldl Scalar.strictLeast s ↔ rate ≤ s ∧ ∀ s ∈ rest, rate ≤ s := by
      induction rest generalizing s with
      | nil => simp
      | cons s' rest ih =>
        rw [List.foldl_cons, ih, strictLeast_real, le_min_iff, List.forall_mem_cons, and_assoc]
    simpa [extreme] using hfold

/-- The least cost is the only cost that no other one is below. -/
theorem leastCost_eq {cells : List (Sighting ℝ)} {least : ℝ}
    (h : IsLeast {v | ∃ c ∈ cells, c.cost = v} least) : leastCost cells = least := by
  obtain ⟨⟨c, hc, rfl⟩, hlower⟩ := h
  have hextreme : leastCost cells = extreme Scalar.strictLeast 0.0 (cells.map (·.cost)) := by
    cases cells with
    | nil => rfl
    | cons first rest => rfl
  have hne : cells.map (·.cost) ≠ [] := List.ne_nil_of_mem (List.mem_map_of_mem hc)
  rw [hextreme]
  apply le_antisymm
  · exact (le_extreme_strictLeast_iff.mp le_rfl).1 _ (List.mem_map_of_mem hc)
  · refine le_extreme_strictLeast_iff.mpr ⟨fun v hv => ?_, fun hnil => absurd hnil hne⟩
    obtain ⟨d, hd, rfl⟩ := List.mem_map.mp hv
    exact hlower ⟨d, hd, rfl⟩

/-! ## 4. Rates -/

/-- The size of a cell is positive, depends on the level alone and falls with it. -/
structure Graded (cells : List (Sighting ℝ)) : Prop where
  size_pos : ∀ c ∈ cells, 0 < c.size
  size_eq : ∀ c ∈ cells, ∀ d ∈ cells, c.level = d.level → c.size = d.size
  size_lt : ∀ c ∈ cells, ∀ d ∈ cells, c.level < d.level → d.size < c.size

/-- If the objective changes at this rate, no cell of another level can hold less than `c`.  Where
there are no larger or no smaller cells, the rate is bounded. -/
structure Favours (cells : List (Sighting ℝ)) (c : Sighting ℝ) (rate : ℝ) : Prop where
  le_others : ∀ d ∈ cells, d.level ≠ c.level → c.cost - rate * c.size ≤ d.cost - rate * d.size
  le_above : (∀ d ∈ cells, c.level ≤ d.level) → rate ≤ 1.976e14
  below_le : (∀ d ∈ cells, d.level ≤ c.level) → -1.976e14 ≤ rate

/-- A cell that ties the cheapest of its level, and that is favoured by a rate at which it improves
on the least cost by the fraction `ep`. -/
structure IsPotentiallyOptimal (ep least : ℝ) (cells : List (Sighting ℝ)) (c : Sighting ℝ) : Prop where
  tie : ∀ d ∈ cells, d.level = c.level → c.cost ≤ d.cost + 1e-13
  favoured : ∃ rate, Favours cells c rate ∧ c.cost - rate * c.size ≤ least - ep * |least|

section

variable {cells : List (Sighting ℝ)} {c : Sighting ℝ} {rate : ℝ}

/-- What the cheapest cells of every level have is had by the costlier ones. -/
theorem forall_candidate_iff {P : Sighting ℝ → Prop}
    (hP : ∀ d ∈ cells, ∀ e ∈ cells, e.level = d.level → e.cost ≤ d.cost → P e → P d) :
    (∀ e ∈ (candidates cells).map (·.2), P e) ↔ ∀ d ∈ cells, P d := by
  rw [List.forall_mem_map]
  constructor
  · intro h d hd
    obtain ⟨e, he, hlevel, hcost⟩ := exists_candidate_le hd
    exact hP d hd e.2 (List.mem_of_getElem? (getElem?_of_mem_candidates he)) hlevel hcost (h e he)
  · intro h e he
    exact h e.2 (List.mem_of_getElem? (getElem?_of_mem_candidates he))

theorem slope_le_iff {d : Sighting ℝ} (h : d.size < c.size) :
    (c.cost - d.cost) / (c.size - d.size) ≤ rate ↔
      c.cost - rate * c.size ≤ d.cost - rate * d.size := by
  rw [div_le_iff₀ (sub_pos.mpr h)]
  constructor <;> intro <;> linarith

theorem le_slope_iff {d : Sighting ℝ} (h : c.size < d.size) :
    rate ≤ (d.cost - c.cost) / (d.size - c.size) ↔
      c.cost - rate * c.size ≤ d.cost - rate * d.size := by
  rw [le_div_iff₀ (sub_pos.mpr h)]
  constructor <;> intro <;> linarith

theorem steepestBelow_le_iff (hgraded : Graded cells) (hc : c ∈ cells) :
    steepestBelow ((candidates cells).map (·.2)) c ≤ rate ↔
      (∀ d ∈ cells, c.level < d.level → c.cost - rate * c.size ≤ d.cost - rate * d.size) ∧
        ((∀ d ∈ cells, d.level ≤ c.level) → -1.976e14 ≤ rate) := by
  unfold steepestBelow
  rw [extreme_strictMost_le_iff, List.forall_mem_map, List.map_eq_nil_iff, List.filter_eq_nil_iff]
  simp only [List.mem_filter, decide_eq_true_eq, not_lt, and_imp]
  rw [forall_candidate_iff (P := fun d => d.level ≤ c.level) fun d _ e _ hlevel _ he => hlevel ▸ he,
    forall_candidate_iff (P := fun d => c.level < d.level → (c.cost - d.cost) / (c.size - d.size) ≤ rate)]
  · refine and_congr_left fun _ => forall₂_congr fun d hd => forall_congr' fun hlt => ?_
    exact slope_le_iff (hgraded.size_lt c hc d hd hlt)
  · intro d hd e he hlevel hcost hle hlt
    rw [slope_le_iff (hgraded.size_lt c hc d hd hlt)]
    have hle := (slope_le_iff (hgraded.size_lt c hc e he (hlevel ▸ hlt))).mp (hle (hlevel ▸ hlt))
    rw [hgraded.size_eq e he d hd hlevel] at hle
    linarith

theorem le_flattestAbove_iff (hgraded : Graded cells) (hc : c ∈ cells) :
    rate ≤ flattestAbove ((candidates cells).map (·.2)) c ↔
      (∀ d ∈ cells, d.level < c.level → c.cost - rate * c.size ≤ d.cost - rate * d.size) ∧
        ((∀ d ∈ cells, c.level ≤ d.level) → rate ≤ 1.976e14) := by
  unfold flattestAbove
  rw [le_extreme_strictLeast_iff, List.forall_mem_map, List.map_eq_nil_iff, List.filter_eq_nil_iff]
  simp only [List.mem_filter, decide_eq_true_eq, not_lt, and_imp]
  rw [forall_candidate_iff (P := fun d => c.level ≤ d.level) fun d _ e _ hlevel _ he => hlevel ▸ he,
    forall_candidate_iff (P := fun d => d.level < c.level → rate ≤ (d.cost - c.cost) / (d.size - c.size))]
  · refine and_congr_left fun _ => forall₂_congr fun d hd => forall_congr' fun hlt => ?_
    exact le_slope_iff (hgraded.size_lt d hd c hc hlt)
  · intro d hd e he hlevel hcost hle hlt
    rw [le_slope_iff (hgraded.size_lt d hd c hc hlt)]
    have hle := (le_slope_iff (hgraded.size_lt e he c hc (hlevel ▸ hlt))).mp (hle (hlevel ▸ hlt))
    rw [hgraded.size_eq e he d hd hlevel] at hle
    linarith

/-- A rate favours a cell if it lies between the slopes to smaller and to larger candidates. -/
theorem favours_iff (hgraded : Graded cells) (hc : c ∈ cells) :
    Favours cells c rate ↔
      steepestBelow ((candidates cells).map (·.2)) c ≤ rate ∧
        rate ≤ flattestAbove ((candidates cells).map (·.2)) c := by
  rw [steepestBelow_le_iff hgraded hc, le_flattestAbove_iff hgraded hc]
  constructor
  · intro h
    exact ⟨⟨fun d hd hlt => h.le_others d hd hlt.ne', h.below_le⟩,
      ⟨fun d hd hlt => h.le_others d hd hlt.ne, h.le_above⟩⟩
  · rintro ⟨⟨hbelow, hbelow_le⟩, habove, hle_above⟩
    exact ⟨fun d hd hne => hne.lt_or_gt.elim (habove d hd) (hbelow d hd), hle_above, hbelow_le⟩

theorem improves_iff {ep least : ℝ} :
    improves ep least rate c = true ↔ c.cost - rate * c.size ≤ least - ep * |least| := by
  unfold improves
  rw [Scalar.zero_real]
  by_cases hleast : least = 0
  · rw [if_pos (Scalar.same_real least 0 |>.mpr hleast), decide_eq_true_iff, hleast, abs_zero, mul_zero,
      sub_zero, mul_comm]
  · rw [if_neg (mt (Scalar.same_real least 0).mp hleast), decide_eq_true_iff]
    change ep ≤ (least - c.cost) / |least| + c.size * rate / |least| ↔ _
    rw [← add_div, le_div_iff₀ (abs_pos.mpr hleast)]
    constructor <;> intro <;> linarith

/-- Of the rates that favour a cell the largest promises most. -/
theorem isPromising_iff (hgraded : Graded cells) (hc : c ∈ cells) {ep least : ℝ} :
    isPromising ep least ((candidates cells).map (·.2)) c = true ↔
      ∃ rate, Favours cells c rate ∧ c.cost - rate * c.size ≤ least - ep * |least| := by
  unfold isPromising isExtreme
  rw [Bool.and_eq_true, decide_eq_true_iff, Scalar.zero_real, sub_nonpos, improves_iff]
  constructor
  · rintro ⟨hextreme, himproves⟩
    exact ⟨_, (favours_iff hgraded hc).mpr ⟨hextreme, le_rfl⟩, himproves⟩
  · rintro ⟨rate, hfavours, himproves⟩
    obtain ⟨hbelow, habove⟩ := (favours_iff hgraded hc).mp hfavours
    have hsize := mul_le_mul_of_nonneg_right habove (hgraded.size_pos c hc).le
    exact ⟨hbelow.trans habove, by linarith⟩

end

/-! ## 5. The selection -/

section

variable {cells : List (Sighting ℝ)} {ep least : ℝ}

theorem mem_promising_iff (hgraded : Graded cells)
    (hleast : IsLeast {v | ∃ c ∈ cells, c.cost = v} least) {i : ℕ} :
    i ∈ promising ep cells ↔ ∃ c, cells[i]? = some c ∧ IsPotentiallyOptimal ep least cells c := by
  unfold promising
  dsimp only
  rw [leastCost_eq hleast, List.mem_map]
  constructor
  · rintro ⟨⟨_, c⟩, hmem, rfl⟩
    obtain ⟨hcandidate, hpromising⟩ := List.mem_filter.mp hmem
    obtain ⟨hcell, htie⟩ := mem_candidates_iff.mp hcandidate
    exact ⟨c, hcell, htie, (isPromising_iff hgraded (List.mem_of_getElem? hcell)).mp hpromising⟩
  · rintro ⟨c, hcell, htie, hfavoured⟩
    exact ⟨(i, c), List.mem_filter.mpr ⟨mem_candidates_iff.mpr ⟨hcell, htie⟩,
      (isPromising_iff hgraded (List.mem_of_getElem? hcell)).mpr hfavoured⟩, rfl⟩

/-- The promising cells are listed by level, each of them once. -/
theorem promising_pairwise (ep : ℝ) (cells : List (Sighting ℝ)) :
    (promising ep cells).Pairwise fun i j =>
      i ≠ j ∧ ∀ c d, cells[i]? = some c → cells[j]? = some d → c.level ≤ d.level := by
  unfold promising
  dsimp only
  rw [List.pairwise_map]
  apply List.Pairwise.filter
  refine (candidates_pairwise cells).imp_of_mem fun {a b} ha hb hab => ⟨hab.1, fun c d hc hd => ?_⟩
  rw [getElem?_of_mem_candidates ha] at hc
  rw [getElem?_of_mem_candidates hb] at hd
  rw [← Option.some.inj hc, ← Option.some.inj hd]
  exact hab.2

/-- The selection answers the potentially optimal cells, the larger ones first.  If there are none,
it answers the first of the cheapest among the largest cells. -/
theorem selectFor_potentiallyOptimal (hgraded : Graded cells)
    (hleast : IsLeast {v | ∃ c ∈ cells, c.cost = v} least) :
    ∃ places fallback, selectFor (.ok ep) cells = .ok (places, fallback) ∧
      places.Nodup ∧
      (places.Pairwise fun i j =>
        ∀ c d, cells[i]? = some c → cells[j]? = some d → c.level ≤ d.level) ∧
      (fallback = true ↔ ∀ c ∈ cells, ¬IsPotentiallyOptimal ep least cells c) ∧
      (fallback = false → ∀ i, i ∈ places ↔
        ∃ c, cells[i]? = some c ∧ IsPotentiallyOptimal ep least cells c) ∧
      (fallback = true → ∃ i c, places = [i] ∧ cells[i]? = some c ∧
        (∀ d ∈ cells, c.level ≤ d.level) ∧
        ∀ j d, cells[j]? = some d → d.level = c.level →
          c.cost ≤ d.cost ∧ (d.cost = c.cost → i ≤ j)) := by
  have hmem (i : ℕ) : i ∈ promising ep cells ↔
      ∃ c, cells[i]? = some c ∧ IsPotentiallyOptimal ep least cells c :=
    mem_promising_iff hgraded hleast
  have hpairwise := promising_pairwise ep cells
  obtain ⟨lowest, hlowest, -⟩ := hleast.1
  cases hcandidates : candidates cells with
  | nil =>
    obtain ⟨e, he, -⟩ := exists_candidate_le hlowest
    rw [hcandidates] at he
    exact nomatch he
  | cons first others =>
    cases hplaces : promising ep cells with
    | nil =>
      rw [hplaces] at hmem
      obtain ⟨hbest, hlevel⟩ := isBestOf_of_candidates_eq_cons hcandidates
      refine ⟨[first.1], true, ?_, List.nodup_singleton _, List.pairwise_singleton _ _,
        iff_of_true rfl fun c hc hoptimal => ?_, (nomatch ·), fun _ => ?_⟩
      · unfold selectFor select
        simp only [hcandidates, hplaces, Usable.ofOption]
      · obtain ⟨i, hi⟩ := List.mem_iff_getElem?.mp hc
        exact nomatch (hmem i).mpr ⟨c, hi, hoptimal⟩
      · refine ⟨first.1, first.2, rfl, (mem_members.mp hbest.mem).1, hlevel, fun j d hd hsame => ?_⟩
        have hle := hbest.le (j, d) (mem_members.mpr ⟨hd, hsame⟩)
        refine ⟨cost_le_of_rankOf_le hle, fun hcost => ?_⟩
        rcases Prod.Lex.toLex_le_toLex.mp hle with hlt | ⟨-, hplace⟩
        · exact absurd hcost hlt.ne'
        · exact hplace
    | cons i rest =>
      rw [hplaces] at hmem hpairwise
      obtain ⟨c, hc, hoptimal⟩ := (hmem i).mp List.mem_cons_self
      refine ⟨i :: rest, false, ?_, hpairwise.imp fun h => h.1, hpairwise.imp fun h => h.2,
        iff_of_false Bool.false_ne_true fun h => h c (List.mem_of_getElem? hc) hoptimal,
        fun _ => hmem, (nomatch ·)⟩
      unfold selectFor select
      simp only [hcandidates, hplaces, Usable.ofOption]

/-- A large cell and two of its smaller neighbours, one of them better than both others. -/
noncomputable def largeAndSmall : List (Sighting ℝ) := [⟨0, 1, 3.0⟩, ⟨1, 0.5, 1⟩, ⟨1, 0.5, 2.0⟩]

theorem selectFor_largeAndSmall :
    Graded largeAndSmall ∧ IsLeast {v | ∃ c ∈ largeAndSmall, c.cost = v} 1 ∧
    ∃ places fallback, selectFor (.ok 1e-4) largeAndSmall = .ok (places, fallback) ∧
      places.Nodup ∧
      (places.Pairwise fun i j =>
        ∀ c d, largeAndSmall[i]? = some c → largeAndSmall[j]? = some d → c.level ≤ d.level) ∧
      (fallback = true ↔ ∀ c ∈ largeAndSmall, ¬IsPotentiallyOptimal 1e-4 1 largeAndSmall c) ∧
      (fallback = false → ∀ i, i ∈ places ↔
        ∃ c, largeAndSmall[i]? = some c ∧ IsPotentiallyOptimal 1e-4 1 largeAndSmall c) ∧
      (fallback = true → ∃ i c, places = [i] ∧ largeAndSmall[i]? = some c ∧
        (∀ d ∈ largeAndSmall, c.level ≤ d.level) ∧
        ∀ j d, largeAndSmall[j]? = some d → d.level = c.level →
          c.cost ≤ d.cost ∧ (d.cost = c.cost → i ≤ j)) := by
  have hgraded : Graded largeAndSmall := by
    constructor <;> simp [largeAndSmall] <;> norm_num
  have hleast : IsLeast {v | ∃ c ∈ largeAndSmall, c.cost = v} 1 := by
    constructor
    · simp [largeAndSmall]
    · rintro v ⟨c, hc, rfl⟩
      simp only [largeAndSmall, List.mem_cons, List.not_mem_nil, or_false] at hc
      rcases hc with rfl | rfl | rfl <;> norm_num
  exact ⟨hgraded, hleast, selectFor_potentiallyOptimal hgraded hleast⟩

end

end BoxSearch.Hull

/-! ## 6. Cells of a search -/

namespace BoxSearch.Partition

variable {σ : Type} {n : ℕ} {t : Task ℝ n} {p : Params ℝ}

theorem Cell.size_pos (c : Cell ℝ n) (hn : 0 < n) : 0 < c.size := by
  have : Nonempty (Fin n) := ⟨⟨0, hn⟩⟩
  have hspread : 0 < c.spread := by
    unfold spread
    positivity
  rw [size_eq_sqrt_spread]
  positivity

/-- What the selection sees of a search is graded. -/
theorem Reached.graded [DrawSource σ ℝ] (hn : 0 < n) {r : Run σ ℝ n} (hr : Reached t p r) :
    Hull.Graded (r.cells.map Cell.sighting) := by
  have heven := hr.isEven
  constructor
  · rw [List.forall_mem_map]
    exact fun c _ => c.size_pos hn
  · simp only [List.forall_mem_map]
    exact fun a ha b hb hlevel => (heven a ha).size_eq (heven b hb) hlevel
  · simp only [List.forall_mem_map]
    exact fun a ha b hb hlevel => (heven b hb).size_lt hlevel

end BoxSearch.Partition
