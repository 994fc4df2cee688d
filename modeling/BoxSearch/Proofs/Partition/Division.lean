import Mathlib
import BoxSearch.Proofs.Partition.Levels
import BoxSearch.Proofs.Search.Replies

/-!
# One division

A division samples both sides of the centre along each of the longest sides, in the order of the
dimensions, and then cuts these sides in the order of their better samples.  What is cut off at a side
keeps the cuts made up to this side, so that a side with a better sample leaves larger cells.  The
middle keeps its place, its centre and its cost, and no other cell is touched.
-/

namespace BoxSearch.Partition

variable {σ α : Type} {n : ℕ}

/-! ## 1. Sides cut in a given order -/

namespace Cell

/-- The cuts of a cell, with one more along each of the given sides. -/
def cutsAlong (c : Cell α n) (sides : List (Fin n)) : Vector ℤ n :=
  Vector.ofFn fun i => c.cuts.get i + if i ∈ sides then 1 else 0

/-- What is cut off at a side when the sides are cut in the given order. -/
def cutOff (c : Cell α n) (order : List (Fin n)) (i : Fin n) (center : Point α n) (cost : α) :
    Cell α n :=
  ⟨c.cutsAlong (order.take (order.idxOf i + 1)), center, cost⟩

theorem cutsAlong_nil (c : Cell α n) : c.cutsAlong [] = c.cuts := by
  unfold cutsAlong
  simp only [List.not_mem_nil, if_false, add_zero]
  exact Vector.ofFn_getElem

/-- The order of the sides does not matter for what is left in the middle. -/
theorem cutsAlong_perm (c : Cell α n) {sides sides' : List (Fin n)} (h : sides.Perm sides') :
    c.cutsAlong sides = c.cutsAlong sides' := by
  unfold cutsAlong
  simp only [h.mem_iff]

/-- One more side is cut. -/
theorem cutsAlong_set (c : Cell α n) {sides : List (Fin n)} {i : Fin n} (hi : i ∉ sides) :
    (c.cutsAlong sides).set i.val ((c.cutsAlong sides).get i + 1) i.isLt =
      c.cutsAlong (sides ++ [i]) := by
  apply Point.ext_get
  intro k
  unfold cutsAlong
  rw [Point.get_set, Point.get_ofFn, Point.get_ofFn, Point.get_ofFn]
  by_cases hki : i = k
  · subst hki
    rw [if_pos rfl, if_neg hi, if_pos (by simp), add_zero]
  · rw [if_neg hki]
    simp [Ne.symm hki]

end Cell

/-- Cutting the sides of some samples one after the other. -/
theorem cut_eq (c : Cell α n) {order done : List (Fin n)} {probes : List (Probe α n)}
    (horder : order = done ++ probes.map (·.dimension)) (hnodup : order.Nodup) :
    cut probes (c.cutsAlong done) = (c.cutsAlong order, probes.flatMap fun q =>
      [c.cutOff order q.dimension q.left.1 q.left.2,
        c.cutOff order q.dimension q.right.1 q.right.2]) := by
  induction probes generalizing done with
  | nil =>
    rw [horder, List.map_nil, List.append_nil]
    rfl
  | cons q rest ih =>
    have hsplit : order = done ++ q.dimension :: rest.map (·.dimension) := horder
    have hfresh : q.dimension ∉ done := by
      rw [hsplit] at hnodup
      exact fun hmem => (List.nodup_append.mp hnodup).2.2 _ hmem _ List.mem_cons_self rfl
    have htake : order.take (order.idxOf q.dimension + 1) = done ++ [q.dimension] := by
      have hplace : order.idxOf q.dimension = done.length := by
        rw [hsplit, List.idxOf_append_of_notMem hfresh, List.idxOf_cons_self, Nat.add_zero]
      rw [hplace, hsplit, List.take_length_add_append]
      rfl
    have hnext : order = (done ++ [q.dimension]) ++ rest.map (·.dimension) := by
      rw [List.append_assoc]
      exact hsplit
    have hrest := ih hnext
    unfold cut
    rw [c.cutsAlong_set hfresh]
    dsimp only
    rw [hrest, List.flatMap_cons]
    unfold Cell.cutOff
    rw [htake]
    rfl

/-! ## 2. Samples -/

/-- The two samples along a side, when their costs are known. -/
def Cell.probeAt [Scalar α] (c : Cell α n) (delta : α) (left right : Fin n → α) (i : Fin n) :
    Probe α n :=
  ⟨i, (c.shifted i (-delta), left i), (c.shifted i delta, right i)⟩

/-- The answers that are entered for the samples along some sides. -/
def Cell.sampled [Scalar α] (t : Task α n) (c : Cell α n) (delta : α) (left right : Fin n → α)
    (sides : List (Fin n)) : List (Point α n × Cost α) :=
  sides.flatMap fun i =>
    [(inRegion t.region (c.shifted i (-delta)), .finite (left i)),
      (inRegion t.region (c.shifted i delta), .finite (right i))]

section

variable [Scalar α] {t : Task α n}

theorem run_probe (c : Cell α n) (delta : α) (left right : Fin n → α) (sides : List (Fin n))
    (d : Course σ α n (State α n))
    (hreplies : ∀ k i, sides[k]? = some i →
      t.Replies (inRegion t.region (c.shifted i (-delta))) (d.ledger.calls + 2 * k + 1)
          (.ok (.finite (left i))) ∧
        t.Replies (inRegion t.region (c.shifted i delta)) (d.ledger.calls + 2 * k + 2)
          (.ok (.finite (right i)))) :
    (probe t c delta sides : SearchM σ α n (State α n) (List (Probe α n))).run d =
      (.ok (sides.map (c.probeAt delta left right)),
        { d with ledger := d.ledger.enterAll (c.sampled t delta left right sides) }) := by
  induction sides generalizing d with
  | nil => rfl
  | cons i rest ih =>
    obtain ⟨hl, hr⟩ := hreplies 0 i rfl
    unfold probe
    rw [SearchM.run_trial_bind_of_finite hl, SearchM.run_trial_bind_of_finite hr]
    refine (run_bind_of_ok (ih _ fun k j hj => ?_)).trans rfl
    have hlater := hreplies (k + 1) j hj
    show t.Replies _ (d.ledger.calls + 1 + 1 + 2 * k + 1) _ ∧
      t.Replies _ (d.ledger.calls + 1 + 1 + 2 * k + 2) _
    rwa [show d.ledger.calls + 1 + 1 + 2 * k = d.ledger.calls + 2 * (k + 1) by omega]

/-- A division of which all samples have finite costs. -/
theorem run_divide {d : Course σ α n (State α n)} {place : ℕ} {c : Cell α n}
    (hc : d.own.cells[place]? = some c) {delta : α} (hdelta : thirdOf c.fewestCuts = .ok delta)
    {left right : Fin n → α}
    (hreplies : ∀ k i, c.longestSides[k]? = some i →
      t.Replies (inRegion t.region (c.shifted i (-delta))) (d.ledger.calls + 2 * k + 1)
          (.ok (.finite (left i))) ∧
        t.Replies (inRegion t.region (c.shifted i delta)) (d.ledger.calls + 2 * k + 2)
          (.ok (.finite (right i)))) :
    let probes := (c.longestSides.map (c.probeAt delta left right)).mergeSort Probe.notAfter
    let pieces := cut probes c.cuts
    (divide t place : SearchM σ α n (State α n) Unit).run d =
      (.ok (), { d with
        ledger := d.ledger.enterAll (c.sampled t delta left right c.longestSides)
        own := { d.own with
          cells := d.own.cells.set place { c with cuts := pieces.1 } ++ pieces.2 } }) := by
  intro probes pieces
  unfold divide
  rw [SearchM.run_own_bind, hc]
  exact (SearchM.run_use_bind d hdelta _).trans
    ((run_bind_of_ok (run_probe c delta left right c.longestSides d hreplies)).trans rfl)

end

/-! ## 3. The order of the sides -/

/-- What a side is cut by: its better sample, and its number where these are equal. -/
def sideRank (left right : Fin n → ℝ) (i : Fin n) : ℝ ×ₗ Fin n := toLex (min (left i) (right i), i)

theorem notAfter_probeAt_iff {c : Cell ℝ n} {delta : ℝ} {left right : Fin n → ℝ} {i j : Fin n} :
    (c.probeAt delta left right i).notAfter (c.probeAt delta left right j) = true ↔
      sideRank left right i ≤ sideRank left right j := by
  have hbest (i : Fin n) : (c.probeAt delta left right i).best = min (left i) (right i) :=
    Scalar.least_real _ _
  unfold Probe.notAfter sideRank
  rw [hbest, hbest, Prod.Lex.toLex_le_toLex]
  split_ifs with hlt hgt
  · exact iff_of_true rfl (.inl hlt)
  · exact iff_of_false id fun h => h.elim hgt.not_gt fun heq => hgt.ne' heq.1
  · have heq : min (left i) (right i) = min (left j) (right j) :=
      le_antisymm (not_lt.mp hgt) (not_lt.mp hlt)
    rw [decide_eq_true_iff]
    exact ⟨fun h => .inr ⟨heq, h⟩, fun h => h.elim (fun h => absurd h hlt) fun h => h.2⟩

/-- Sorting the samples orders the sides. -/
theorem exists_order (c : Cell ℝ n) (delta : ℝ) (left right : Fin n → ℝ) {sides : List (Fin n)}
    (hsides : sides.Nodup) :
    ∃ order : List (Fin n), (sides.map (c.probeAt delta left right)).mergeSort Probe.notAfter =
        order.map (c.probeAt delta left right) ∧
      order.Perm sides ∧
      order.Pairwise fun i j => sideRank left right i < sideRank left right j := by
  let key (i j : Fin n) : Bool := decide (sideRank left right i ≤ sideRank left right j)
  have hperm : (sides.mergeSort key).Perm sides := List.mergeSort_perm sides key
  refine ⟨sides.mergeSort key, ?_, hperm, ?_⟩
  · rw [List.map_mergeSort]
    intro i _ j _
    rw [Bool.eq_iff_iff, notAfter_probeAt_iff]
    exact decide_eq_true_iff
  · have hsorted : (sides.mergeSort key).Pairwise fun i j => key i j = true :=
      List.pairwise_mergeSort
        (fun i j k hij hjk => decide_eq_true ((of_decide_eq_true hij).trans (of_decide_eq_true hjk)))
        (fun i j => by simpa [key] using le_total (sideRank left right i) (sideRank left right j)) sides
    have hne : (sides.mergeSort key).Pairwise (· ≠ ·) := hperm.nodup_iff.mpr hsides
    refine (hsorted.and hne).imp fun {i j} h => ?_
    refine (of_decide_eq_true h.1).lt_of_ne fun heq => h.2 ?_
    exact congrArg (fun k : ℝ ×ₗ Fin n => (ofLex k).2) heq

/-- The samples along some sides are sorted, and the sides cut in the order of the samples. -/
theorem exists_cut (c : Cell ℝ n) (delta : ℝ) (left right : Fin n → ℝ) {sides : List (Fin n)}
    (hsides : sides.Nodup) :
    ∃ order : List (Fin n), order.Perm sides ∧
      order.Pairwise (fun i j => sideRank left right i < sideRank left right j) ∧
      cut ((sides.map (c.probeAt delta left right)).mergeSort Probe.notAfter) c.cuts =
        (c.cutsAlong sides, order.flatMap fun i =>
          [c.cutOff order i (c.shifted i (-delta)) (left i),
            c.cutOff order i (c.shifted i delta) (right i)]) := by
  obtain ⟨order, hmerge, hperm, horder⟩ := exists_order c delta left right hsides
  have hdimensions : order = [] ++ (order.map (c.probeAt delta left right)).map (·.dimension) := by
    rw [List.map_map]
    exact (List.map_id order).symm
  have hcut := cut_eq c hdimensions (hperm.nodup_iff.mpr hsides)
  rw [c.cutsAlong_nil, List.flatMap_map] at hcut
  refine ⟨order, hperm, horder, ?_⟩
  rw [hmerge, hcut, c.cutsAlong_perm hperm]
  rfl

/-- A side with a strictly better sample comes earlier in the order. -/
theorem idxOf_lt_of_best_lt {left right : Fin n → ℝ} {order : List (Fin n)}
    (horder : order.Pairwise fun i j => sideRank left right i < sideRank left right j)
    {i j : Fin n} (hi : i ∈ order) (hj : j ∈ order)
    (hlt : min (left i) (right i) < min (left j) (right j)) : order.idxOf i < order.idxOf j := by
  have hrank : sideRank left right i < sideRank left right j := Prod.Lex.toLex_lt_toLex.mpr (.inl hlt)
  have hplace : order.idxOf j < order.length := List.idxOf_lt_length_of_mem hj
  have hplace' : order.idxOf i < order.length := List.idxOf_lt_length_of_mem hi
  rcases lt_trichotomy (order.idxOf i) (order.idxOf j) with hbefore | hsame | hafter
  · exact hbefore
  · exact absurd ((List.idxOf_inj hi).mp hsame ▸ hlt) (lt_irrefl _)
  · have hback := List.pairwise_iff_getElem.mp horder _ _ hplace hplace' hafter
    rw [List.getElem_idxOf, List.getElem_idxOf] at hback
    exact absurd hback hrank.not_gt

/-! ## 4. Longest sides and sizes -/

namespace Cell

theorem mem_longestSides {c : Cell α n} {i : Fin n} :
    i ∈ c.longestSides ↔ ∀ j, c.cuts.get i ≤ c.cuts.get j := by
  obtain ⟨-, j, hj⟩ := c.fewestCuts_spec i
  unfold longestSides
  rw [List.mem_filter, beq_iff_eq]
  constructor
  · rintro ⟨-, h⟩ k
    exact h ▸ (c.fewestCuts_spec k).1
  · intro h
    exact ⟨List.mem_finRange i, le_antisymm (hj ▸ h j) (c.fewestCuts_spec i).1⟩

theorem pairwise_longestSides (c : Cell α n) : c.longestSides.Pairwise (· < ·) :=
  (List.pairwise_lt_finRange n).filter _

/-- The longest sides are those that were cut least often, in the order of the dimensions. -/
theorem eq_longestSides {c : Cell α n} {sides : List (Fin n)} (hsorted : sides.Pairwise (· < ·))
    (hsides : ∀ i, i ∈ sides ↔ ∀ j, c.cuts.get i ≤ c.cuts.get j) : sides = c.longestSides := by
  refine List.Perm.eq_of_pairwise (fun a b _ _ hab hba => absurd hab hba.not_gt) hsorted
    c.pairwise_longestSides ?_
  refine (List.perm_ext_iff_of_nodup (hsorted.imp ne_of_lt)
    (c.pairwise_longestSides.imp ne_of_lt)).mpr fun i => ?_
  rw [hsides, mem_longestSides]

/-- A cell with more cuts is smaller. -/
theorem size_lt_of_cuts {a b : Cell ℝ n} (h : ∀ i, a.cuts.get i ≤ b.cuts.get i) {j : Fin n}
    (hj : a.cuts.get j < b.cuts.get j) : b.size < a.size := by
  have hnine : (1 : ℝ) < 9 := by norm_num
  have hspread : b.spread < a.spread := by
    apply Finset.sum_lt_sum
    · exact fun i _ => zpow_le_zpow_right₀ hnine.le (neg_le_neg (h i))
    · exact ⟨j, Finset.mem_univ j, zpow_lt_zpow_right₀ hnine (neg_lt_neg hj)⟩
  rw [size_eq_sqrt_spread, size_eq_sqrt_spread]
  exact mul_lt_mul_of_pos_left (Real.sqrt_lt_sqrt b.spread_nonneg hspread) (by norm_num)

/-- What is cut off at an earlier side is larger. -/
theorem size_cutOff_lt (c : Cell ℝ n) {order : List (Fin n)} {i j : Fin n} (hj : j ∈ order)
    (hlt : order.idxOf i < order.idxOf j) (x y : Point ℝ n) (k l : ℝ) :
    (c.cutOff order j y l).size < (c.cutOff order i x k).size := by
  have hplace : order.idxOf j < order.length := List.idxOf_lt_length_of_mem hj
  have hget (m : Fin n) (q : ℕ) (z : Point ℝ n) (v : ℝ) :
      (⟨c.cutsAlong (order.take q), z, v⟩ : Cell ℝ n).cuts.get m =
        c.cuts.get m + if m ∈ order.take q then 1 else 0 := Point.get_ofFn _ m
  unfold cutOff
  apply size_lt_of_cuts (j := j)
  · intro m
    rw [hget, hget]
    by_cases hm : m ∈ order.take (order.idxOf i + 1)
    · rw [if_pos hm, if_pos (List.take_subset_take_left _ (by omega) hm)]
    · rw [if_neg hm]
      split <;> omega
  · have hlater : j ∈ order.take (order.idxOf j + 1) := by
      rw [List.mem_take_iff_idxOf_lt hj]
      exact Nat.lt_succ_self _
    have hnot : j ∉ order.take (order.idxOf i + 1) := by
      rw [List.mem_take_iff_idxOf_lt hj]
      omega
    rw [hget, hget, if_pos hlater, if_neg hnot]
    omega

end Cell

/-! ## 5. A search driven by hand -/

section

variable [Scalar α] {t : Task α n} {p : Params α}

omit [Scalar α] in
/-- Only a search by partition has cells. -/
theorem exists_engine_of_cell {r : Run σ α n} {place : ℕ} {c : Cell α n}
    (h : r.cells[place]? = some c) :
    ∃ p s, r.engine = .partition p s ∧ s.cells[place]? = some c := by
  obtain ⟨L, draws, engine⟩ := r
  cases engine with
  | partition p s => exact ⟨p, s, rfl, h⟩
  | _ => exact nomatch h

theorem divide_of_run {r : Run σ α n} {s : State α n} (hengine : r.engine = .partition p s)
    {place : ℕ} {result : Except (Halt α) Unit} {d : Course σ α n (State α n)}
    (h : (divide t place).run ⟨r.ledger, r.draws, s⟩ = (result, d)) :
    r.divide t place = some (answerOf result, ofCourse p d) := by
  unfold Run.divide
  rw [hengine]
  exact congrArg some (Run.goesOn_carry h)

end

/-- The dimensions with the fewest cuts of a cell are sampled one after the other, first below and then
above the centre.  They are cut in the order of their better samples, and of their numbers where these
are equal: each of them leaves two cells that were cut along the dimensions up to it.  A dimension
with a better sample leaves larger cells.  The cell itself is cut along all of them, and the other
cells stay as they are. -/
theorem divide_cuts_in_order {t : Task ℝ n} {r : Run σ ℝ n} {place : ℕ} {c : Cell ℝ n}
    (hc : r.cells[place]? = some c) {sides : List (Fin n)} {s : ℤ}
    (hsorted : sides.Pairwise (· < ·)) (hsides : ∀ i, i ∈ sides ↔ ∀ j, c.cuts.get i ≤ c.cuts.get j)
    (hs : ∀ i ∈ sides, c.cuts.get i = s) {delta : ℝ} (hdelta : delta = 3 ^ (-(s + 1)))
    {left right : Fin n → ℝ}
    (hanswers : ∀ k i, sides[k]? = some i →
      t.objective (inRegion t.region (c.shifted i (-delta))) (r.ledger.calls + 2 * k + 1) =
          .ok (.finite (left i)) ∧
        t.objective (inRegion t.region (c.shifted i delta)) (r.ledger.calls + 2 * k + 2) =
          .ok (.finite (right i))) :
    ∃ order r', r.divide t place = some (.ok true, r') ∧
      order.Perm sides ∧
      order.Pairwise (fun i j => min (left i) (right i) < min (left j) (right j) ∨
        min (left i) (right i) = min (left j) (right j) ∧ i < j) ∧
      r'.ledger.trace = r.ledger.trace ++ sides.flatMap (fun i =>
        [(inRegion t.region (c.shifted i (-delta)), some (.finite (left i))),
          (inRegion t.region (c.shifted i delta), some (.finite (right i)))]) ∧
      r'.cells = r.cells.set place { c with cuts := c.cutsAlong sides } ++ order.flatMap (fun i =>
        [c.cutOff order i (c.shifted i (-delta)) (left i),
          c.cutOff order i (c.shifted i delta) (right i)]) ∧
      ∀ i ∈ sides, ∀ j ∈ sides, min (left i) (right i) < min (left j) (right j) →
        ∀ x y k l, (c.cutOff order j y l).size < (c.cutOff order i x k).size := by
  obtain ⟨p, own, hengine, hcell⟩ := exists_engine_of_cell hc
  have hcells : r.cells = own.cells := by
    unfold Run.cells
    rw [hengine]
  obtain rfl := Cell.eq_longestSides hsorted hsides
  have hnodup : c.longestSides.Nodup := hsorted.imp ne_of_lt
  have hdelta : thirdOf c.fewestCuts = .ok delta := by
    obtain ⟨i, hi⟩ := List.exists_mem_of_ne_nil _ (c.longestSides_ne_nil ⟨0, t.region.nonempty⟩)
    rw [hdelta, ← hs i hi, Cell.cuts_of_longest hi]
    rfl
  have hreplies (i : Fin n) (step : ℝ) (k : ℕ) (v : ℝ)
      (h : t.objective (inRegion t.region (c.shifted i step)) k = .ok (.finite v)) :
      t.Replies (inRegion t.region (c.shifted i step)) k (.ok (.finite v)) :=
    ⟨fun _ => t.region.check_eq_ok (feasible_inRegion _ _), h⟩
  have hrun := run_divide (t := t) (d := ⟨r.ledger, r.draws, own⟩) hcell hdelta fun k i hi =>
    ⟨hreplies i _ _ _ (hanswers k i hi).1, hreplies i _ _ _ (hanswers k i hi).2⟩
  obtain ⟨order, hperm, horder, hcut⟩ := exists_cut c delta left right hnodup
  dsimp only at hrun
  rw [hcut] at hrun
  refine ⟨order, _, divide_of_run hengine hrun, hperm, ?_, ?_, ?_, ?_⟩
  · exact horder.imp Prod.Lex.toLex_lt_toLex.mp
  · refine (Account.trace_enterAll _ _).trans (congrArg (r.ledger.trace ++ ·) ?_)
    unfold Cell.sampled
    rw [List.map_flatMap]
    rfl
  · rw [hcells]
    rfl
  · intro i hi j hj hlt x y k l
    exact c.size_cutOff_lt (hperm.mem_iff.mpr hj)
      (idxOf_lt_of_best_lt horder (hperm.mem_iff.mpr hi) (hperm.mem_iff.mpr hj) hlt) x y k l

/-- Every answer is below those before it. -/
noncomputable def falling : Task ℝ 2 :=
  { Run.leastOnSquare with objective := fun _ call => .ok (.finite (-call)) }

/-- The second side of the square has the better sample and is cut first. -/
theorem divide_cuts_in_order_falling :
    let r : Run (Tape ℝ) ℝ 2 :=
      ⟨{}, Run.climb.draws, .partition openEnded { initialized := true, cells := [Cell.whole 0] }⟩
    ∃ r', r.divide falling 0 = some (.ok true, r') ∧ r'.ledger.trace.length = 4 ∧
      r'.cells.map (·.cuts) = [#v[1, 1], #v[0, 1], #v[0, 1], #v[1, 1], #v[1, 1]] := by
  intro r
  let left : Fin 2 → ℝ := ![-1, -3]
  let right : Fin 2 → ℝ := ![-2, -4]
  have hanswers : ∀ k i, [(0 : Fin 2), 1][k]? = some i →
      (.ok (.finite (-((0 + 2 * k + 1 : ℕ) : ℝ))) : Except Failure (Cost ℝ)) = .ok (.finite (left i)) ∧
        (.ok (.finite (-((0 + 2 * k + 2 : ℕ) : ℝ))) : Except Failure (Cost ℝ)) =
          .ok (.finite (right i)) := by
    rintro (_ | _ | k) i hi <;> cases hi <;> norm_num [left, right]
  have hcell : r.cells[0]? = some (Cell.whole 0) := rfl
  have hs : ∀ i ∈ [(0 : Fin 2), 1], (Cell.whole (0 : ℝ) : Cell ℝ 2).cuts.get i = 0 :=
    fun i _ => Point.get_ofFn _ i
  obtain ⟨order, r', hdivide, hperm, horder, htrace, hcells, -⟩ :=
    divide_cuts_in_order (t := falling) hcell (by decide) (by decide) hs rfl hanswers
  have hfirst : order = [1, 0] := by
    rcases List.perm_pair.mp hperm with rfl | rfl
    · have hbest := List.rel_of_pairwise_cons horder List.mem_cons_self
      norm_num [left, right] at hbest
    · rfl
  subst hfirst
  refine ⟨r', hdivide, ?_, ?_⟩
  · rw [htrace]
    rfl
  · rw [hcells]
    rfl

end BoxSearch.Partition
