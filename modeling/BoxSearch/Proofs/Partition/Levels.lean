import Mathlib
import BoxSearch.Proofs.Partition.Reach

/-!
# Cells of one level have one size

Cells are grouped by their level, the number of cuts of all their sides together, while slopes are
taken over sizes.  The level decides the size because a division cuts the longest sides of a cell
and no other: every cell that it makes on the way has sides cut `m` or `m + 1` times, for some `m`.
The squares of such sides lie on a line, below which the squares of other sides never fall.
-/

namespace BoxSearch.Partition

variable {n : ℕ}

/-! ## 1. Even cells -/

/-- Every side was cut `m` or `m + 1` times. -/
def StepsAt (m : ℤ) (cuts : Vector ℤ n) : Prop := ∀ i, m ≤ cuts.get i ∧ cuts.get i ≤ m + 1

/-- No side was cut two times more often than another one. -/
def Cell.IsEven (c : Cell ℝ n) : Prop := ∀ i j, c.cuts.get i ≤ c.cuts.get j + 1

theorem StepsAt.set {m : ℤ} {cuts : Vector ℤ n} (h : StepsAt m cuts) {i : Fin n}
    (hi : cuts.get i = m) : StepsAt m (cuts.set i.val (cuts.get i + 1) i.isLt) := by
  intro j
  rw [Point.get_set]
  split_ifs
  · omega
  · exact h j

namespace Cell

section

variable {α : Type}

theorem toList_cuts (c : Cell α n) : c.cuts.toList = List.ofFn fun i => c.cuts.get i := by
  have hcuts : Vector.ofFn (fun i : Fin n => c.cuts.get i) = c.cuts := Vector.ofFn_getElem
  conv_lhs => rw [← hcuts, Vector.toList_ofFn]

theorem cuts_mem_toList (c : Cell α n) (i : Fin n) : c.cuts.get i ∈ c.cuts.toList := by
  rw [c.toList_cuts, List.mem_ofFn]
  exact ⟨i, rfl⟩

/-- The fewest cuts are those of some side, and no side has fewer. -/
theorem fewestCuts_spec (c : Cell α n) (i : Fin n) :
    c.fewestCuts ≤ c.cuts.get i ∧ ∃ j, c.cuts.get j = c.fewestCuts := by
  have hmem : c.cuts.get i ∈ c.cuts.toList := c.cuts_mem_toList i
  cases hmin : c.cuts.toList.min? with
  | none =>
    rw [List.min?_eq_none_iff.mp hmin] at hmem
    exact nomatch hmem
  | some m =>
    obtain ⟨hm, hle⟩ := List.min?_eq_some_iff.mp hmin
    have hfewest : c.fewestCuts = m := by
      unfold fewestCuts
      rw [hmin, Option.getD_some]
    rw [c.toList_cuts, List.mem_ofFn] at hm
    rw [hfewest]
    exact ⟨hle _ hmem, hm⟩

/-- A cell has a longest side. -/
theorem longestSides_ne_nil (c : Cell α n) (i : Fin n) : c.longestSides ≠ [] := by
  obtain ⟨-, j, hj⟩ := c.fewestCuts_spec i
  have hmem : j ∈ c.longestSides := by
    unfold longestSides
    exact List.mem_filter.mpr ⟨List.mem_finRange j, beq_of_eq hj⟩
  exact List.ne_nil_of_mem hmem

end

theorem IsEven.stepsAt {c : Cell ℝ n} (h : c.IsEven) : StepsAt c.fewestCuts c.cuts := by
  intro i
  obtain ⟨hle, j, hj⟩ := c.fewestCuts_spec i
  exact ⟨hle, hj ▸ h i j⟩

theorem IsEven.of_stepsAt {c : Cell ℝ n} {m : ℤ} (h : StepsAt m c.cuts) : c.IsEven := by
  intro i j
  have hi := h i
  have hj := h j
  omega

theorem isEven_whole (k : ℝ) : (Cell.whole k : Cell ℝ n).IsEven := by
  intro i j
  unfold whole
  rw [Point.get_ofFn, Point.get_ofFn]
  decide

theorem cuts_of_longest {c : Cell ℝ n} {i : Fin n} (h : i ∈ c.longestSides) :
    c.cuts.get i = c.fewestCuts := by
  unfold longestSides at h
  exact eq_of_beq (List.mem_filter.mp h).2

end Cell

/-- Sides that were cut `m` times are cut once more, one after the other: on the way every side has
`m` or `m + 1` cuts. -/
theorem cut_stepsAt {m : ℤ} {probes : List (Probe ℝ n)} {cuts : Vector ℤ n} (h : StepsAt m cuts)
    (hdimensions : (probes.map (·.dimension)).Nodup)
    (hsides : ∀ q ∈ probes, cuts.get q.dimension = m) :
    StepsAt m (cut probes cuts).1 ∧ ∀ c ∈ (cut probes cuts).2, StepsAt m c.cuts := by
  induction probes generalizing cuts with
  | nil => exact ⟨h, fun c hc => nomatch hc⟩
  | cons q rest ih =>
    obtain ⟨hfresh, hrest⟩ := List.nodup_cons.mp hdimensions
    have hset := h.set (hsides q List.mem_cons_self)
    obtain ⟨hmiddle, hcells⟩ := ih hset hrest fun q' hq' => by
      -- The sides that are still to be cut are not the one just cut.
      have hother : q.dimension ≠ q'.dimension :=
        fun heq => hfresh (List.mem_map.mpr ⟨q', hq', heq.symm⟩)
      rw [Point.get_set, if_neg hother]
      exact hsides q' (List.mem_cons_of_mem q hq')
    refine ⟨hmiddle, fun c hc => ?_⟩
    rcases List.mem_cons.mp hc with rfl | hc
    · exact hset
    rcases List.mem_cons.mp hc with rfl | hc
    · exact hset
    · exact hcells c hc

/-- Even cells are divided into even cells. -/
theorem Divides.isEven {cells cells' : List (Cell ℝ n)} (h : Divides cells cells')
    (heven : ∀ c ∈ cells, c.IsEven) : ∀ c ∈ cells', c.IsEven := by
  obtain @⟨c, place, probes, hc, hdimensions, -⟩ := h
  have hcut := cut_stepsAt (heven c (List.mem_of_getElem? hc)).stepsAt
    (hdimensions.nodup_iff.mpr c.nodup_longestSides) fun q hq =>
      Cell.cuts_of_longest (hdimensions.mem_iff.mp (List.mem_map_of_mem hq))
  intro d hd
  rcases List.mem_append.mp hd with hold | hnew
  · rcases List.mem_or_eq_of_mem_set hold with hmem | rfl
    · exact heven d hmem
    · exact .of_stepsAt hcut.1
  · exact .of_stepsAt (hcut.2 d hnew)

/-! ## 2. Sizes -/

/-- The squares of sides cut `m` and `m + 1` times lie on a line, and no other square lies below. -/
theorem line_le_square (m k : ℤ) : (9 : ℝ) ^ (-m) * (1 - 8 / 9 * (k - m)) ≤ 9 ^ (-k) := by
  have hline : 1 - 8 / 9 * ((k : ℝ) - m) ≤ 9 ^ (m - k) := by
    rcases le_total k m with hle | hle
    · -- A longer side: the power grows faster than any line through its first values.
      obtain ⟨d, rfl⟩ := Int.le.dest hle
      have hbernoulli : 1 + (d : ℝ) * 8 ≤ (1 + 8) ^ d := one_add_mul_le_pow (by norm_num) d
      rw [add_sub_cancel_left, zpow_natCast]
      push_cast
      norm_num at hbernoulli
      linarith [(Nat.cast_nonneg d : (0 : ℝ) ≤ d)]
    · rcases hle.lt_or_eq with hlt | rfl
      · rcases (Int.add_one_le_of_lt hlt).lt_or_eq with hlt | rfl
        · -- Two cuts more: the line is below zero.
          have hfar : (m : ℝ) + 2 ≤ k := by exact_mod_cast (by omega : m + 2 ≤ k)
          have hpos : (0 : ℝ) < 9 ^ (m - k) := by positivity
          linarith
        · rw [sub_add_cancel_left, zpow_neg_one]
          push_cast
          linarith
      · rw [sub_self, sub_self, zpow_zero]
        linarith
  calc (9 : ℝ) ^ (-m) * (1 - 8 / 9 * (k - m)) ≤ 9 ^ (-m) * 9 ^ (m - k) :=
        mul_le_mul_of_nonneg_left hline (by positivity)
    _ = 9 ^ (-k) := by
        rw [← zpow_add₀ (by norm_num)]
        congr 1
        omega

theorem line_eq_square {m k : ℤ} (h : m ≤ k ∧ k ≤ m + 1) :
    (9 : ℝ) ^ (-m) * (1 - 8 / 9 * (k - m)) = 9 ^ (-k) := by
  obtain rfl | rfl : k = m ∨ k = m + 1 := by omega
  · rw [sub_self, mul_zero, sub_zero, mul_one]
  · have hsplit : -(m + 1) = -m + -1 := by omega
    rw [hsplit, zpow_add₀ (by norm_num), zpow_neg_one]
    push_cast
    ring

namespace Cell

theorem level_eq_sum_cuts (c : Cell ℝ n) : c.level = ∑ i, c.cuts.get i := by
  rw [level_eq_sum, toList_cuts, List.sum_ofFn]

/-- The squared lengths of all the sides, taken together. -/
noncomputable def spread (c : Cell ℝ n) : ℝ := ∑ i, (9 : ℝ) ^ (-c.cuts.get i)

theorem spread_nonneg (c : Cell ℝ n) : 0 ≤ c.spread := by
  unfold spread
  positivity

theorem size_eq_sqrt_spread (c : Cell ℝ n) : c.size = 0.5 * √c.spread := by
  have hsquare (k : ℤ) : (Scalar.thirds k * Scalar.thirds k : ℝ) = 9 ^ (-k) := by
    rw [Scalar.thirds_real, ← mul_zpow]
    norm_num
  unfold size halfDiagonal spread
  rw [Scalar.sum_real, toList_cuts, List.map_ofFn, List.map_ofFn, List.sum_ofFn]
  simp only [Function.comp_apply, hsquare]
  rfl

theorem sum_line (c : Cell ℝ n) (m : ℤ) :
    ∑ i, (9 : ℝ) ^ (-m) * (1 - 8 / 9 * (c.cuts.get i - m)) =
      9 ^ (-m) * (n - 8 / 9 * (c.level - n * m)) := by
  rw [← Finset.mul_sum, Finset.sum_sub_distrib, ← Finset.mul_sum, Finset.sum_sub_distrib,
    level_eq_sum_cuts]
  simp

/-- An even cell of a higher level has less spread than any other cell, and of the same level no
more. -/
theorem IsEven.spread_add_le (a : Cell ℝ n) {b : Cell ℝ n} (hb : b.IsEven) :
    b.spread + 9 ^ (-b.fewestCuts) * (8 / 9 * (b.level - a.level)) ≤ a.spread := by
  have hspread : b.spread = 9 ^ (-b.fewestCuts) * (n - 8 / 9 * (b.level - n * b.fewestCuts)) := by
    rw [← b.sum_line b.fewestCuts]
    exact Finset.sum_congr rfl fun i _ => (line_eq_square (hb.stepsAt i)).symm
  calc b.spread + 9 ^ (-b.fewestCuts) * (8 / 9 * (b.level - a.level))
      = 9 ^ (-b.fewestCuts) * (n - 8 / 9 * (a.level - n * b.fewestCuts)) := by
        rw [hspread]
        ring
    _ ≤ a.spread := by
        rw [← a.sum_line b.fewestCuts]
        exact Finset.sum_le_sum fun i _ => line_le_square _ _

theorem IsEven.size_lt {a b : Cell ℝ n} (hb : b.IsEven) (h : a.level < b.level) :
    b.size < a.size := by
  have hlevel : (0 : ℝ) < b.level - a.level := sub_pos.mpr (by exact_mod_cast h)
  have hgap : (0 : ℝ) < 9 ^ (-b.fewestCuts) * (8 / 9 * (b.level - a.level)) := by positivity
  have hspread : b.spread < a.spread := by linarith [hb.spread_add_le a]
  rw [size_eq_sqrt_spread, size_eq_sqrt_spread]
  exact mul_lt_mul_of_pos_left (Real.sqrt_lt_sqrt b.spread_nonneg hspread) (by norm_num)

theorem IsEven.size_eq {a b : Cell ℝ n} (ha : a.IsEven) (hb : b.IsEven) (h : a.level = b.level) :
    a.size = b.size := by
  have hab := ha.spread_add_le b
  have hba := hb.spread_add_le a
  rw [h, sub_self, mul_zero, mul_zero, add_zero] at hab hba
  rw [size_eq_sqrt_spread, size_eq_sqrt_spread, le_antisymm hab hba]

/-- Among even cells the level decides the size. -/
theorem IsEven.size_eq_iff {a b : Cell ℝ n} (ha : a.IsEven) (hb : b.IsEven) :
    a.size = b.size ↔ a.level = b.level := by
  constructor
  · intro h
    rcases lt_trichotomy a.level b.level with hlt | heq | hgt
    · exact absurd h (hb.size_lt hlt).ne'
    · exact heq
    · exact absurd h (ha.size_lt hgt).ne
  · exact ha.size_eq hb

end Cell

end BoxSearch.Partition

/-! ## 3. Candidates -/

namespace BoxSearch.Hull

variable {α : Type} [Scalar α]

theorem mem_of_cheapest {members : List (ℕ × Sighting α)} {best : ℕ × Sighting α}
    (h : cheapest members = some best) : best ∈ members := by
  cases members with
  | nil => exact nomatch h
  | cons first rest =>
    obtain rfl := Option.some.inj h
    -- The choice is always between the best so far and the next one.
    have hfold (rest : List (ℕ × Sighting α)) (c : ℕ × Sighting α) :
        rest.foldl (fun best c =>
          if Scalar.isUndefined best.2.cost then best
          else if best.2.cost ≤ c.2.cost then best else c) c ∈ c :: rest := by
      induction rest generalizing c with
      | nil => exact List.mem_singleton_self c
      | cons d rest ih =>
        rw [List.foldl_cons]
        split_ifs
        · exact List.cons_subset_cons c (List.subset_cons_self d rest) (ih c)
        · exact List.cons_subset_cons c (List.subset_cons_self d rest) (ih c)
        · exact List.mem_cons_of_mem c (ih d)
    exact hfold rest first

theorem mem_of_mem_candidatesOf {cells : List (ℕ × Sighting α)} {level : ℤ} {c : ℕ × Sighting α}
    (h : c ∈ candidatesOf cells level) : c ∈ cells := by
  unfold candidatesOf at h
  dsimp only at h
  split at h
  · exact nomatch h
  · rename_i best hbest
    rcases List.mem_cons.mp h with rfl | htied
    · exact List.mem_of_mem_filter (mem_of_cheapest hbest)
    · exact List.mem_of_mem_filter (List.mem_of_mem_filter htied)

/-- A candidate is one of the cells, at its place. -/
theorem getElem?_of_mem_candidates {cells : List (Sighting α)} {c : ℕ × Sighting α}
    (h : c ∈ candidates cells) : cells[c.1]? = some c.2 := by
  obtain ⟨level, -, hc⟩ := List.mem_flatMap.mp h
  obtain ⟨numbered, hd, rfl⟩ := List.mem_map.mp (mem_of_mem_candidatesOf hc)
  exact List.mem_zipIdx_iff_getElem?.mp hd

end BoxSearch.Hull

/-! ## 4. A search driven by hand -/

namespace BoxSearch.Partition

variable {σ : Type} {n : ℕ} {t : Task ℝ n} {p : Params ℝ}

/-- Every cell that a search starts from is even. -/
theorem setUp_isEven :
    SearchM.Triple (fun d => d.own = {} ∧ d.ledger.calls = 0)
      (setUp t p : SearchM σ ℝ n (State ℝ n) Bool)
      (fun _ d => ∀ c ∈ d.own.cells, c.IsEven) fun _ d => ∀ c ∈ d.own.cells, c.IsEven := by
  have hkeeps : SearchM.Keeps (fun d : Course σ ℝ n (State ℝ n) => ∀ c ∈ d.own.cells, c.IsEven)
      (setUp t p) := by
    apply SearchM.Keeps.bind .own
    intro s
    apply SearchM.Keeps.bind .require
    intro _
    apply SearchM.Keeps.bind (.modifyLedger fun _ hd => hd)
    intro _
    apply SearchM.Keeps.bind (.modifyOwn fun _ hd => hd)
    intro _
    apply SearchM.Keeps.bind
    · exact .bind (.evaluate (fun _ hd => hd) fun _ _ hd => hd) fun _ => .requireFinite fun _ hd => hd
    intro v
    apply SearchM.Keeps.bind
    · apply SearchM.Keeps.modifyOwn
      intro d hd c hc
      rcases List.mem_append.mp hc with hold | hnew
      · exact hd c hold
      · rw [List.mem_singleton.mp hnew]
        exact Cell.isEven_whole v
    intro _
    exact .bind (enterRecord_keeps (I := fun cells => ∀ c ∈ cells, c.IsEven)) fun _ =>
      .bind (checkTarget_keeps (I := fun cells => ∀ c ∈ cells, c.IsEven) fun _ _ hd => hd) fun _ => .pure
  rintro d ⟨hown, -⟩
  apply hkeeps
  rw [hown]
  exact fun c hc => nomatch hc

variable [DrawSource σ ℝ]

theorem Reached.isEven {r : Run σ ℝ n} (hr : Reached t p r) : ∀ c ∈ r.cells, c.IsEven := by
  obtain ⟨s, hengine, hs⟩ := hr.keeps (fun _ _ h => h.isEven) setUp_isEven
  have hcells : r.cells = s.cells := by
    unfold Run.cells
    rw [hengine]
  rw [hcells]
  exact hs

/-- In every cell the sides differ by one cut at most, so that two cells have one size exactly if they
have one level, a cell of a higher level is smaller, and slopes between candidates of different
levels are quotients by numbers that are not zero. -/
theorem level_decides_size {r : Run σ ℝ n} (hr : Reached t p r) :
    (∀ c ∈ r.cells, ∀ i j, c.cuts.get i ≤ c.cuts.get j + 1) ∧
      (∀ a ∈ r.cells, ∀ b ∈ r.cells,
        (a.size = b.size ↔ a.level = b.level) ∧ (a.level < b.level → b.size < a.size)) ∧
      let hull := (Hull.candidates (r.cells.map Cell.sighting)).map (·.2)
      ∀ c ∈ hull,
        (∀ d ∈ hull.filter fun d => decide (c.level < d.level), c.size - d.size ≠ 0) ∧
          ∀ d ∈ hull.filter fun d => decide (d.level < c.level), d.size - c.size ≠ 0 := by
  have heven := hr.isEven
  refine ⟨heven, fun a ha b hb => ⟨(heven a ha).size_eq_iff (heven b hb), (heven b hb).size_lt⟩, ?_⟩
  intro hull c hc
  -- A candidate shows the level and the size of a cell.
  have hseen (d : Sighting ℝ) (hd : d ∈ hull) : ∃ e ∈ r.cells, e.sighting = d := by
    obtain ⟨d', hd', rfl⟩ := List.mem_map.mp hd
    exact List.mem_map.mp (List.mem_of_getElem? (Hull.getElem?_of_mem_candidates hd'))
  obtain ⟨a, ha, rfl⟩ := hseen c hc
  constructor
  · intro d hd
    obtain ⟨hmem, hlevel⟩ := List.mem_filter.mp hd
    obtain ⟨b, hb, rfl⟩ := hseen d hmem
    exact sub_ne_zero.mpr ((heven b hb).size_lt (of_decide_eq_true hlevel)).ne'
  · intro d hd
    obtain ⟨hmem, hlevel⟩ := List.mem_filter.mp hd
    obtain ⟨b, hb, rfl⟩ := hseen d hmem
    exact sub_ne_zero.mpr ((heven a ha).size_lt (of_decide_eq_true hlevel)).ne'

/-- The square is set up, divided along both sides, and iterated once. -/
theorem level_decides_size_leastOnSquare :
    ∃ r : Run (Tape ℝ) ℝ 2, Reached Run.leastOnSquare openEnded r ∧
      (∀ c ∈ r.cells, ∀ i j, c.cuts.get i ≤ c.cuts.get j + 1) ∧
      (∀ a ∈ r.cells, ∀ b ∈ r.cells,
        (a.size = b.size ↔ a.level = b.level) ∧ (a.level < b.level → b.size < a.size)) ∧
      let hull := (Hull.candidates (r.cells.map Cell.sighting)).map (·.2)
      ∀ c ∈ hull,
        (∀ d ∈ hull.filter fun d => decide (c.level < d.level), c.size - d.size ≠ 0) ∧
          ∀ d ∈ hull.filter fun d => decide (d.level < c.level), d.size - c.size ≠ 0 := by
  let fresh : Run (Tape ℝ) ℝ 2 := ⟨{}, ⟨fun _ => 0, fun _ => 0⟩, .partition openEnded {}⟩
  have hsetUp : ∃ answer r, fresh.setUp Run.leastOnSquare = some (answer, r) := ⟨_, _, rfl⟩
  obtain ⟨_, r, hr⟩ := hsetUp
  have hreached : Reached Run.leastOnSquare openEnded r := .setUp hr
  have hdivide : ∃ answer r', r.divide Run.leastOnSquare 0 = some (answer, r') := by
    obtain ⟨s, hs, -⟩ := hreached.keeps (fun _ _ h => h.isEven) setUp_isEven
    unfold Run.divide
    rw [hs]
    exact ⟨_, _, rfl⟩
  obtain ⟨_, r', hr'⟩ := hdivide
  have hdivided : Reached Run.leastOnSquare openEnded r' := hreached.divide hr'
  have hadvance : ∃ answer r'', r'.advance Run.leastOnSquare = some (answer, r'') := by
    obtain ⟨s, hs, -⟩ := hdivided.keeps (fun _ _ h => h.isEven) setUp_isEven
    unfold Run.advance
    rw [hs]
    exact ⟨_, _, rfl⟩
  obtain ⟨_, r'', hr''⟩ := hadvance
  exact ⟨r'', hdivided.advance hr'', level_decides_size (hdivided.advance hr'')⟩

end BoxSearch.Partition
