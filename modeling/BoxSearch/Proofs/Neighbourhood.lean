import Mathlib
import BoxSearch.Proofs.Faultless.Choices

/-!
# The neighbourhood on a torus

A step on a torus goes some rows down and some columns to the right, around the grid where it leaves it.
Steps add up, and a step all around the grid leads nowhere: so there is a way back for every step, which
makes the neighbourhood symmetric, and every place is reached by enough single steps.
-/

namespace BoxSearch.Torus

variable {g : Torus} {a b c d i j : ℕ}

/-! ## 1. Places -/

theorem place_div (hcols : 0 < g.cols) (r c : ℕ) : g.place r c / g.cols = r % g.rows := by
  unfold place
  rw [Nat.mul_comm, Nat.mul_add_div hcols, Nat.div_eq_of_lt (Nat.mod_lt c hcols), Nat.add_zero]

theorem place_mod (g : Torus) (r c : ℕ) : g.place r c % g.cols = c % g.cols := by
  unfold place
  rw [Nat.mul_comm, Nat.mul_add_mod, Nat.mod_mod]

theorem div_lt_rows (hi : i < g.size) : i / g.cols < g.rows :=
  Nat.div_lt_of_lt_mul (Nat.mul_comm g.rows g.cols ▸ hi)

/-! ## 2. Steps -/

/-- The place so many rows below and columns to the right of another one. -/
def moved (g : Torus) (a b i : ℕ) : ℕ := g.place (i / g.cols + a) (i % g.cols + b)

theorem informants_eq (g : Torus) (i : ℕ) :
    g.informants i =
      [g.moved (g.rows - 1) 0 i, g.moved 0 (g.cols - 1) i, g.moved 0 1 i, g.moved 1 0 i] :=
  rfl

theorem moved_moved (hcols : 0 < g.cols) (a b c d i : ℕ) :
    g.moved a b (g.moved c d i) = g.moved (c + a) (d + b) i := by
  unfold moved
  rw [place_div hcols, place_mod]
  unfold place
  rw [Nat.mod_add_mod, Nat.mod_add_mod, Nat.add_assoc, Nat.add_assoc]

theorem moved_congr (ha : a ≡ c [MOD g.rows]) (hb : b ≡ d [MOD g.cols]) (i : ℕ) :
    g.moved a b i = g.moved c d i := by
  unfold moved place
  rw [ha.add_left (i / g.cols), hb.add_left (i % g.cols)]

theorem moved_zero (hi : i < g.size) : g.moved 0 0 i = i := by
  unfold moved place
  rw [Nat.add_zero, Nat.add_zero, Nat.mod_eq_of_lt (div_lt_rows hi), Nat.mod_mod]
  exact Nat.div_add_mod' i g.cols

/-- Steps that lead around the grid together lead back. -/
theorem moved_back (hcols : 0 < g.cols) (ha : a + c ≡ 0 [MOD g.rows])
    (hb : b + d ≡ 0 [MOD g.cols]) (hi : i < g.size) : g.moved c d (g.moved a b i) = i := by
  rw [moved_moved hcols, moved_congr ha hb, moved_zero hi]

theorem moved_eq_iff (hcols : 0 < g.cols) (ha : a + c ≡ 0 [MOD g.rows])
    (hb : b + d ≡ 0 [MOD g.cols]) (hi : i < g.size) (hj : j < g.size) :
    g.moved a b i = j ↔ g.moved c d j = i := by
  constructor
  · rintro rfl
    exact moved_back hcols ha hb hi
  · rintro rfl
    exact moved_back hcols (Nat.add_comm a c ▸ ha) (Nat.add_comm b d ▸ hb) hj

/-- Only a step around the grid leads nowhere. -/
theorem modEq_zero_of_moved_eq (hcols : 0 < g.cols) (h : g.moved a b i = i) :
    a ≡ 0 [MOD g.rows] ∧ b ≡ 0 [MOD g.cols] := by
  have hrow : i / g.cols + a ≡ i / g.cols + 0 [MOD g.rows] := by
    have hdiv : g.moved a b i / g.cols = (i / g.cols + a) % g.rows := place_div hcols _ _
    rw [h] at hdiv
    rw [Nat.add_zero]
    nth_rewrite 2 [hdiv]
    exact (Nat.mod_modEq _ _).symm
  have hcol : i % g.cols + b ≡ i % g.cols + 0 [MOD g.cols] := by
    have hmod : g.moved a b i % g.cols = (i % g.cols + b) % g.cols := place_mod g _ _
    rw [h] at hmod
    rw [Nat.add_zero]
    exact hmod.symm.trans (Nat.mod_mod i g.cols).symm
  exact ⟨Nat.ModEq.add_left_cancel' _ hrow, Nat.ModEq.add_left_cancel' _ hcol⟩

/-! ## 3. Informants -/

section

variable (hrows : 2 ≤ g.rows) (hcols : 2 ≤ g.cols)

include hrows in
theorem pred_rows_add_one : g.rows - 1 + 1 ≡ 0 [MOD g.rows] := by
  rw [Nat.sub_add_cancel (by omega)]
  exact Nat.modEq_zero_iff_dvd.mpr dvd_rfl

include hcols in
theorem pred_cols_add_one : g.cols - 1 + 1 ≡ 0 [MOD g.cols] := by
  rw [Nat.sub_add_cancel (by omega)]
  exact Nat.modEq_zero_iff_dvd.mpr dvd_rfl

include hcols in
theorem right_left (hi : i < g.size) : g.right (g.left i) = i :=
  moved_back (a := 0) (c := 0) (by omega) .rfl (pred_cols_add_one hcols) hi

include hcols in
theorem left_right (hi : i < g.size) : g.left (g.right i) = i :=
  moved_back (a := 0) (c := 0) (by omega) .rfl
    (Nat.add_comm 1 (g.cols - 1) ▸ pred_cols_add_one hcols) hi

include hrows hcols

theorem down_up (hi : i < g.size) : g.down (g.up i) = i :=
  moved_back (b := 0) (d := 0) (by omega) (pred_rows_add_one hrows) .rfl hi

theorem up_down (hi : i < g.size) : g.up (g.down i) = i :=
  moved_back (b := 0) (d := 0) (by omega)
    (Nat.add_comm 1 (g.rows - 1) ▸ pred_rows_add_one hrows) .rfl hi

/-- On a grid of two rows and columns at least, no single step leads nowhere. -/
theorem ne_of_mem_informants (hj : j ∈ g.informants i) : j ≠ i := by
  have hpos : 0 < g.cols := by omega
  have hone {m : ℕ} (hm : 2 ≤ m) : ¬1 ≡ 0 [MOD m] := by
    rw [Nat.modEq_zero_iff_dvd, Nat.dvd_one]
    omega
  have hpred {m : ℕ} (hm : 2 ≤ m) : ¬m - 1 ≡ 0 [MOD m] := by
    rw [Nat.modEq_zero_iff_dvd]
    exact Nat.not_dvd_of_pos_of_lt (by omega) (by omega)
  rw [informants_eq] at hj
  simp only [List.mem_cons, List.not_mem_nil, or_false] at hj
  rintro rfl
  rcases hj with h | h | h | h
  · exact hpred hrows (modEq_zero_of_moved_eq hpos h.symm).1
  · exact hpred hcols (modEq_zero_of_moved_eq hpos h.symm).2
  · exact hone hcols (modEq_zero_of_moved_eq hpos h.symm).2
  · exact hone hrows (modEq_zero_of_moved_eq hpos h.symm).1

/-- A member informs another one as often as it is informed by it. -/
theorem count_informants_comm (hi : i < g.size) (hj : j < g.size) :
    (g.informants i).count j = (g.informants j).count i := by
  have hpos : 0 < g.cols := by omega
  have hcount (i j : ℕ) : (g.informants i).count j =
      (if g.up i = j then 1 else 0) + (if g.left i = j then 1 else 0) +
        (if g.right i = j then 1 else 0) + if g.down i = j then 1 else 0 := by
    unfold informants
    simp only [List.count_cons, List.count_nil, beq_iff_eq]
    omega
  have hup : g.up i = j ↔ g.down j = i :=
    moved_eq_iff (b := 0) (d := 0) hpos (pred_rows_add_one hrows) .rfl hi hj
  have hdown : g.down i = j ↔ g.up j = i :=
    (moved_eq_iff (b := 0) (d := 0) hpos (pred_rows_add_one hrows) .rfl hj hi).symm
  have hleft : g.left i = j ↔ g.right j = i :=
    moved_eq_iff (a := 0) (c := 0) hpos .rfl (pred_cols_add_one hcols) hi hj
  have hright : g.right i = j ↔ g.left j = i :=
    (moved_eq_iff (a := 0) (c := 0) hpos .rfl (pred_cols_add_one hcols) hj hi).symm
  rw [hcount i j, hcount j i, if_congr hup rfl rfl, if_congr hdown rfl rfl, if_congr hleft rfl rfl,
    if_congr hright rfl rfl]
  omega

/-- A member is listed four times as an informant. -/
theorem sum_count_informants (hj : j < g.size) :
    ∑ i ∈ Finset.range g.size, (g.informants i).count j = 4 := by
  have hswap : ∑ i ∈ Finset.range g.size, (g.informants i).count j =
      ∑ i ∈ Finset.range g.size, (g.informants j).count i :=
    Finset.sum_congr rfl fun i hi =>
      count_informants_comm hrows hcols (Finset.mem_range.mp hi) hj
  have hall : ∑ i ∈ Finset.range g.size, (g.informants j : Multiset ℕ).count i =
      Multiset.card (g.informants j : Multiset ℕ) :=
    Multiset.sum_count_eq_card fun i hi =>
      Finset.mem_range.mpr (lt_size_of_mem_informants (by omega) (by omega) (Multiset.mem_coe.mp hi))
  have hlength : Multiset.card (g.informants j : Multiset ℕ) = 4 := rfl
  rw [hswap, ← hlength, ← hall]
  simp only [Multiset.coe_count]

omit hrows in
/-- Every place is reached by steps down and then to the right. -/
theorem reaches (hi : i < g.size) (hj : j < g.size) :
    Relation.ReflTransGen (fun k l => l ∈ g.informants k) i j := by
  have hpos : 0 < g.cols := by omega
  have hdown (a : ℕ) : Relation.ReflTransGen (fun k l => l ∈ g.informants k) i (g.moved a 0 i) := by
    induction a with
    | zero =>
      rw [moved_zero hi]
    | succ a ih =>
      refine ih.tail ?_
      rw [informants_eq, moved_moved hpos 1 0 a 0]
      simp
  have hright (a b : ℕ) :
      Relation.ReflTransGen (fun k l => l ∈ g.informants k) i (g.moved a b i) := by
    induction b with
    | zero => exact hdown a
    | succ b ih =>
      refine ih.tail ?_
      rw [informants_eq, moved_moved hpos 0 1 a b]
      simp
  -- The rows left on the grid and those from its top, and likewise the columns.
  have hway : g.moved (g.rows - i / g.cols + j / g.cols) (g.cols - i % g.cols + j % g.cols) i = j := by
    have hrow := div_lt_rows hi
    have hcol := Nat.mod_lt i hpos
    unfold moved place
    rw [← Nat.add_assoc, ← Nat.add_assoc, Nat.add_sub_cancel' hrow.le, Nat.add_sub_cancel' hcol.le,
      Nat.add_mod_left, Nat.add_mod_left, Nat.mod_eq_of_lt (div_lt_rows hj), Nat.mod_mod]
    exact Nat.div_add_mod' j g.cols
  exact hway ▸ hright _ _

end

/-! ## 4. The grid for a number of members -/

theorem cols_ofCount (count : ℕ) : (ofCount count).cols = Nat.sqrt count :=
  congrArg Nat.sqrt (Nat.div_one count)

theorem rows_ofCount (count : ℕ) :
    (ofCount count).rows = roundQuot count (ofCount count).cols :=
  congrArg (roundQuot count) (Nat.one_mul _)

theorem div_le_roundQuot (num den : ℕ) : num / den ≤ roundQuot num den := by
  unfold roundQuot
  dsimp only
  split_ifs <;> omega

/-- The grid has at least as many rows as columns, and misses the count by at most half a row. -/
theorem ofCount_shape {count : ℕ} (h : 4 ≤ count) :
    2 ≤ (ofCount count).cols ∧ (ofCount count).cols ≤ (ofCount count).rows ∧
      2 * |((ofCount count).size : ℤ) - count| ≤ (ofCount count).cols := by
  have htwo : 2 ≤ (ofCount count).cols := by
    rw [cols_ofCount]
    exact Nat.le_sqrt.mpr h
  have hpos : 0 < (ofCount count).cols := by omega
  refine ⟨htwo, ?_, ?_⟩
  · have hsquare : (ofCount count).cols * (ofCount count).cols ≤ count := by
      rw [cols_ofCount]
      exact Nat.sqrt_le count
    rw [rows_ofCount]
    exact ((Nat.le_div_iff_mul_le hpos).mpr hsquare).trans (div_le_roundQuot _ _)
  · have hupper := two_mul_roundQuot_le count _ hpos
    have hlower := le_two_mul_roundQuot count _ hpos
    have hsize : (ofCount count).size =
        (ofCount count).cols * roundQuot count (ofCount count).cols := by
      rw [← rows_ofCount]
      exact Nat.mul_comm _ _
    rw [← hsize] at hupper hlower
    rcases abs_cases (((ofCount count).size : ℤ) - count) with ⟨habs, -⟩ | ⟨habs, -⟩
    all_goals rw [habs]; omega

/-- The grid for a count of at least four has the integer root of it as columns and as many rows as come
nearest.  The informants of a member are other members, and left and right as well as up and down undo
each other.  Members inform each other equally often, each of them fills four places, and all of them can
be reached from each of them. -/
theorem ofCount_neighbourhood {count : ℕ} (h : 4 ≤ count) {g : Torus} (hg : ofCount count = g) :
    (g.cols = Nat.sqrt count ∧ (g.rows : ℤ) = roundHalfEven ((count : ℝ) / g.cols)) ∧
      (2 ≤ g.cols ∧ g.cols ≤ g.rows ∧ 2 * |(g.size : ℤ) - count| ≤ g.cols) ∧
      (∀ i < g.size, (∀ j ∈ g.informants i, j < g.size ∧ j ≠ i) ∧
        (g.right (g.left i) = i ∧ g.left (g.right i) = i) ∧
        g.down (g.up i) = i ∧ g.up (g.down i) = i) ∧
      (∀ i < g.size, ∀ j < g.size, (g.informants i).count j = (g.informants j).count i) ∧
      (∀ j < g.size, ∑ i ∈ Finset.range g.size, (g.informants i).count j = 4) ∧
      ∀ i < g.size, ∀ j < g.size,
        Relation.ReflTransGen (fun k l => l ∈ g.informants k) i j := by
  obtain ⟨hcols, hwide, hmiss⟩ := ofCount_shape h
  have hroot := cols_ofCount count
  have hnearest := rows_ofCount count
  rw [hg] at hcols hwide hmiss hroot hnearest
  have hrows : 2 ≤ g.rows := hcols.trans hwide
  have hpos : 0 < g.cols := by omega
  refine ⟨⟨hroot, ?_⟩, ⟨hcols, hwide, hmiss⟩, ?_, ?_, ?_, ?_⟩
  · rw [roundHalfEven_div count hpos, hnearest]
  · intro i hi
    refine ⟨fun j hj => ⟨lt_size_of_mem_informants (by omega) (by omega) hj, ?_⟩, ?_, ?_⟩
    · exact ne_of_mem_informants hrows hcols hj
    · exact ⟨right_left hcols hi, left_right hcols hi⟩
    · exact ⟨down_up hrows hcols hi, up_down hrows hcols hi⟩
  · exact fun i hi j hj => count_informants_comm hrows hcols hi hj
  · exact fun j hj => sum_count_informants hrows hcols hj
  · exact fun i hi j hj => reaches hcols hi hj

/-- Five members would need two rows and a half: there are two, and the two members beside a member
inform it twice. -/
theorem ofCount_neighbourhood_five :
    4 ≤ 5 ∧ ofCount 5 = ⟨2, 2⟩ ∧ informants ⟨2, 2⟩ 0 = [2, 1, 1, 2] ∧
      (∑ i ∈ Finset.range 4, (informants ⟨2, 2⟩ i).count 3 = 4) ∧
      Relation.ReflTransGen (fun k l => l ∈ informants ⟨2, 2⟩ k) 0 3 := by
  have hfour : 4 ≤ 5 := by decide
  have hgrid : ofCount 5 = ⟨2, 2⟩ := by decide +kernel
  obtain ⟨-, -, -, -, hslots, hreach⟩ := ofCount_neighbourhood hfour hgrid
  exact ⟨hfour, hgrid, rfl, hslots 3 (by decide), hreach 0 (by decide) 3 (by decide)⟩

end BoxSearch.Torus
