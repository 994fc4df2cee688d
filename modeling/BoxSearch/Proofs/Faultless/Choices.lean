import Mathlib
import BoxSearch.Proofs.Feasible.Populations
import BoxSearch.Swarm.Config

/-!
# Choices that are never at a loss

A choice looks something up at a place that is drawn: a member of a pool, a parent, an informant, a
row of bits.  With uniform numbers of the unit interval, and with counts as the settings are accepted,
every such place exists, and what is looked up there can be used.  So the choices of every method meet
no fault.
-/

namespace BoxSearch

/-- The uniform numbers of a source lie in the unit interval, its right end excluded. -/
def UnitDraws (σ : Type) [DrawSource σ ℝ] : Prop :=
  Gives (fun u : ℝ => 0 ≤ u ∧ u < 1) (DrawSource.uniform : StateM σ ℝ)

/-- A tape whose uniform numbers lie in the unit interval. -/
structure UnitTape extends Tape ℝ where
  unit : ∀ k, 0 ≤ uniforms k ∧ uniforms k < 1

instance : DrawSource UnitTape ℝ where
  uniform s := (s.uniforms 0, ⟨(DrawSource.uniform s.toTape).2, fun k => s.unit (k + 1)⟩)
  normal s := (s.normals 0, ⟨(DrawSource.normal s.toTape).2, s.unit⟩)
  checksRanges := true

theorem unitDraws_unitTape : UnitDraws UnitTape := fun s => s.unit 0

/-- Every value that is chosen has `φ`, and no fault is met. -/
abbrev Chooses {σ β : Type} (φ : β → Prop) (m : ChoiceM σ ℝ β) : Prop := Meets φ (fun _ => False) m

/-- What can be looked up for every item of a list can be looked up for all of them. -/
theorem exists_mapM_eq_some {β γ : Type} {f : β → Option γ} {items : List β}
    (h : ∀ b ∈ items, ∃ c, f b = some c) :
    ∃ found, items.mapM f = some found ∧ found.length = items.length := by
  induction items with
  | nil => exact ⟨[], rfl, rfl⟩
  | cons b items ih =>
    obtain ⟨c, hc⟩ := h b List.mem_cons_self
    obtain ⟨others, hothers, hlength⟩ := ih fun b' hb' => h b' (List.mem_cons_of_mem b hb')
    refine ⟨c :: others, ?_, congrArg (· + 1) hlength⟩
    rw [List.mapM_cons, hc, hothers]
    rfl

variable {σ : Type} [DrawSource σ ℝ] {n : ℕ}

/-! ## 1. Integers and selections -/

namespace Draw

theorem below_chooses (hunit : UnitDraws σ) {m : ℤ} (hm : 0 < m) :
    Chooses (fun k => 0 ≤ k ∧ k < m) (below m : ChoiceM σ ℝ ℤ) := by
  apply Meets.bind (checkRange_meets fun hnone => of_decide_eq_false hnone hm)
  intro _ _
  apply Meets.bind (.draw hunit)
  intro u hu
  rw [Usable.finite_real]
  apply Meets.bind (.useOk rfl)
  rintro x rfl
  apply Meets.pure
  have hpos : (0 : ℝ) ≤ u * Scalar.ofInt m := mul_nonneg hu.1 (Int.cast_nonneg hm.le)
  have hfloor : 0 ≤ Scalar.floor (u * Scalar.ofInt m : ℝ) := Int.floor_nonneg.mpr hpos
  omega

theorem mem_swapIfInBounds {pool : Array ℕ} {i j k : ℕ} (h : k ∈ pool.swapIfInBounds i j) :
    k ∈ pool := by
  unfold Array.swapIfInBounds at h
  split at h
  · split at h
    · exact (Array.swap_perm _ _).mem_iff.mp h
    · exact h
  · exact h

theorem exchangeAt_chooses (hunit : UnitDraws σ) {pool : Array ℕ} {i : ℕ} (hi : i < pool.size) :
    Chooses (fun pool' => pool'.size = pool.size ∧ ∀ k ∈ pool', k ∈ pool)
      (exchangeAt pool i : ChoiceM σ ℝ (Array ℕ)) := by
  apply Meets.bind (below_chooses hunit (by omega))
  intro k hk
  have hplace : (i + k : ℤ) = (i + k.toNat : ℕ) := by omega
  have hrow : Place.inRow pool.size (i + k) = some (i + k.toNat) := by
    rw [hplace]
    exact Place.inRow_natCast (by omega)
  apply Meets.bind (.useOk (congrArg (Usable.ofOption _) hrow))
  rintro j rfl
  exact .pure ⟨Array.size_swapIfInBounds, fun _ => mem_swapIfInBounds⟩

/-- There are as many members as are asked for, if there are that many. -/
theorem choose_chooses (hunit : UnitDraws σ) {k : ℕ} {pool : List ℕ} (hk : k ≤ pool.length) :
    Chooses (fun chosen => chosen.length = k ∧ ∀ i ∈ chosen, i ∈ pool)
      (choose k pool : ChoiceM σ ℝ (List ℕ)) := by
  -- The pool keeps its size and gets no new members.
  apply Meets.bind (.foldlM
    (φ := fun (p : Array ℕ) => p.size = pool.length ∧ ∀ i ∈ p, i ∈ pool) _ ?_ ?_)
  · rintro p ⟨hsize, hmem⟩
    apply Meets.pure
    constructor
    · rw [List.length_take, Array.length_toList, hsize]
      exact min_eq_left hk
    · exact fun i hi => hmem i (Array.mem_toList_iff.mp (List.mem_of_mem_take hi))
  · rintro p i hi ⟨hsize, hmem⟩
    have hlt : i < p.size := by
      rw [hsize]
      exact (List.mem_range.mp hi).trans_le hk
    exact .mono (exchangeAt_chooses hunit hlt) fun p' h =>
      ⟨h.1.trans hsize, fun j hj => hmem j (h.2 j hj)⟩
  · exact ⟨List.size_toArray, fun i hi => List.mem_toArray.mp hi⟩

theorem hit_lt (t : ℝ) {weights : List ℝ} (h : weights ≠ []) (s : ℝ) :
    hit t s weights < weights.length := by
  induction weights generalizing s with
  | nil => exact absurd rfl h
  | cons w rest ih =>
    cases rest with
    | nil => exact Nat.one_pos
    | cons w' rest =>
      unfold hit
      split
      · exact Nat.succ_pos _
      · rw [List.length_cons, Nat.add_comm]
        exact Nat.succ_lt_succ (ih (List.cons_ne_nil _ _) _)

theorem chooseWeighted_gives (k : ℕ) (pool : List (ℕ × ℝ)) :
    Gives (fun chosen => chosen.length = min k pool.length ∧ ∀ i ∈ chosen, i ∈ pool.map (·.1))
      (chooseWeighted k pool : StateM σ (List ℕ)) := by
  induction k generalizing pool with
  | zero => exact .pure ⟨(Nat.zero_min _).symm, fun _ hi => nomatch hi⟩
  | succ k ih =>
    unfold chooseWeighted
    refine .bind (.trivial _) fun u _ => ?_
    dsimp only
    cases hpool : pool[hit (u * Scalar.sum (pool.map (·.2))) 0.0 (pool.map (·.2))]? with
    | none =>
      -- Only an empty pool has no member to choose.
      have hnil : pool = [] := by
        by_contra hne
        have hlt := hit_lt (u * Scalar.sum (pool.map (·.2)))
          (List.map_eq_nil_iff.not.mpr hne : pool.map (·.2) ≠ []) 0.0
        rw [List.length_map] at hlt
        rw [List.getElem?_eq_getElem hlt] at hpool
        exact nomatch hpool
      subst hnil
      exact .pure ⟨rfl, fun _ hi => nomatch hi⟩
    | some member =>
      obtain ⟨hlt, rfl⟩ := List.getElem?_eq_some_iff.mp hpool
      refine .bind (ih _) fun others ⟨hlength, hmem⟩ => .pure ?_
      constructor
      · rw [List.length_cons, hlength, List.length_eraseIdx_of_lt hlt]
        omega
      · intro i hi
        rcases List.mem_cons.mp hi with rfl | hi
        · exact List.mem_map.mpr ⟨_, List.getElem_mem hlt, rfl⟩
        · obtain ⟨m, hm, rfl⟩ := List.mem_map.mp (hmem i hi)
          exact List.mem_map.mpr ⟨m, List.mem_of_mem_eraseIdx hm, rfl⟩

end Draw

/-! ## 2. Families -/

namespace Evolution

variable {p : Params ℝ}

/-- A family has as many places as a child has parents, and they are places of the population. -/
theorem marry_chooses (hunit : UnitDraws σ) (hp : p.parents ≤ p.size) :
    Chooses (fun places => places.length = p.parents ∧ ∀ i ∈ places, i < p.size)
      (marry p : ChoiceM σ ℝ (List ℕ)) := by
  unfold marry
  cases p.marriage with
  | random =>
    have hrange : p.parents ≤ (List.range p.size).length := by rwa [List.length_range]
    exact .mono (Draw.choose_chooses hunit hrange) fun places h =>
      ⟨h.1, fun i hi => List.mem_range.mp (h.2 i hi)⟩
  | roulette =>
    have hplaces : (marriageWeights p.size : List (ℕ × ℝ)).map (·.1) = List.range p.size := by
      unfold marriageWeights
      apply List.map_fst_zip
      simp
    have hlength : (marriageWeights p.size : List (ℕ × ℝ)).length = p.size := by
      rw [← List.length_map (f := (·.1)), hplaces, List.length_range]
    refine .mono (.draw (Draw.chooseWeighted_gives _ _)) fun places h => ?_
    rw [hplaces, hlength, min_eq_left hp] at h
    exact ⟨h.1, fun i hi => List.mem_range.mp (h.2 i hi)⟩

theorem membersAt_eq_some (population : List (Member ℝ n)) {places : List ℕ}
    (h : ∀ i ∈ places, i < population.length) :
    ∃ parents, membersAt population places = some parents ∧ parents.length = places.length :=
  exists_mapM_eq_some fun i hi => ⟨_, List.getElem?_eq_getElem (h i hi)⟩

theorem donors_chooses (hunit : UnitDraws σ) {parents : List (Point ℝ n)} (h : parents ≠ []) :
    Chooses (fun chosen => ∀ i, chosen.get i ∈ parents)
      (donors parents : ChoiceM σ ℝ (Vector (Point ℝ n) n)) := by
  have hpos : (0 : ℤ) < parents.length := by exact_mod_cast List.length_pos_iff.mpr h
  apply Meets.bind (.ofFnM fun _ => Draw.below_chooses hunit hpos)
  intro picks hpicks
  apply Meets.ofFnM (φ := fun _ x => x ∈ parents)
  intro i
  obtain ⟨hnonneg, hlt⟩ := hpicks i
  obtain ⟨k, hk⟩ := Int.eq_ofNat_of_zero_le hnonneg
  rw [hk] at hlt ⊢
  have hkl : k < parents.length := by exact_mod_cast hlt
  have hplace : (Place.inRow parents.length (k : ℕ)).bind (parents[·]?) = some parents[k] := by
    rw [Place.inRow_natCast hkl, Option.bind_some, List.getElem?_eq_getElem hkl]
  refine .mono (.useOk (congrArg (Usable.ofOption _) hplace)) fun x hx => ?_
  rw [← hx]
  exact List.getElem_mem hkl

end Evolution

/-! ## 3. Couples -/

namespace Wheel

theorem length_ofWeights (sum : ℕ) (weights : List ℕ) :
    (ofWeights sum weights).length = weights.length := by
  induction weights generalizing sum with
  | nil => rfl
  | cons w rest ih => exact congrArg (· + 1) (ih _)

theorem length_ofCosts {α : Type} [Scalar α] (costs : List (Cost α)) :
    (ofCosts costs).length = costs.length := by
  rw [ofCosts, length_ofWeights, rankWeights, List.length_map, List.length_range]

/-- A wheel with places selects one of them, whatever is drawn. -/
theorem spin_gives {wheel : List ℕ} (h : wheel ≠ []) :
    Gives (fun i => i < wheel.length) (spin (α := ℝ) wheel : StateM σ ℕ) := by
  refine .bind (.trivial _) fun u _ => .pure ?_
  have hpos : 0 < wheel.length := List.length_pos_iff.mpr h
  unfold selectAt select
  omega

end Wheel

namespace BitCode

theorem lt_two_pow_lengthFor (span : ℕ) : span < 2 ^ lengthFor span := by
  unfold lengthFor
  by_cases h : span = 0
  · subst h
    exact Nat.two_pow_pos _
  · rw [if_neg h, max_eq_left (Nat.le_add_left 1 _)]
    exact Nat.lt_log2_self

theorem lengthFor_pos (span : ℕ) : 0 < lengthFor span := lt_max_of_lt_right Nat.one_pos

theorem toInteger_intCast (k : ℤ) : (toInteger (k : ℝ) : Usable ℝ ℤ) = .ok k := by
  have hk : Scalar.floor (Scalar.nearest (k : ℝ)) = k := by
    rw [Scalar.nearest_real, roundHalfEven_intCast]
    exact Int.floor_intCast k
  exact congrArg Except.ok hk

theorem lengthForWidth_intCast {k : ℤ} (h : 0 ≤ k) :
    (lengthForWidth (k : ℝ) : Except (Fault ℝ) ℕ) = .ok (lengthFor k.toNat) := by
  unfold lengthForWidth
  rw [toInteger_intCast]
  exact if_neg h.not_gt

end BitCode

/-- What is made coordinate by coordinate, without an error, is made of every coordinate. -/
theorem ofFnM_eq_ok {ε β : Type} {n : ℕ} {f : Fin n → Except ε β} {v : Vector β n}
    (h : Vector.ofFnM f = .ok v) (i : Fin n) : f i = .ok (v.get i) := by
  induction n with
  | zero => exact i.elim0
  | succ n ih =>
    rw [Vector.ofFnM_succ] at h
    cases hinit : Vector.ofFnM fun i : Fin n => f i.castSucc with
    | error e =>
      rw [hinit] at h
      exact nomatch h
    | ok init =>
      rw [hinit] at h
      cases hlast : f (Fin.last n) with
      | error e =>
        change (f (Fin.last n) >>= _) = _ at h
        rw [hlast] at h
        exact nomatch h
      | ok b =>
        change (f (Fin.last n) >>= _) = _ at h
        rw [hlast] at h
        have hv : init.push b = v := Except.ok.inj h
        subst hv
        cases i using Fin.lastCases with
        | last => rw [hlast, Point.get_push_last]
        | cast i => rw [ih hinit i, Point.get_push_castSucc]

namespace Genetic

variable {r : Region ℝ n}

theorem codeLengths_eq_ok {f : Fin n → ℕ}
    (h : ∀ i, (if r.integral.get i then BitCode.lengthForWidth (r.width i) else pure 0) = .ok (f i)) :
    codeLengths r = .ok (.ofFn f) := by
  unfold codeLengths
  rw [funext h]
  exact Vector.ofFnM_pure

/-- Real variables are coded on no bits. -/
theorem codeLengths_of_real (h : ∀ i, r.integral.get i = false) :
    codeLengths r = .ok (.ofFn fun _ => 0) :=
  codeLengths_eq_ok fun i => if_neg (Bool.eq_false_iff.mp (h i))

/-- An integer between the bounds of a variable. -/
structure IsGene (r : Region ℝ n) (i : Fin n) (v : ℝ) : Prop where
  whole : IsWhole v
  lower : r.lower.get i ≤ v
  upper : v ≤ r.upper.get i

theorem isGene_of_feasible {x : Point ℝ n} (hx : r.Feasible x) {i : Fin n}
    (h : r.integral.get i = true) : IsGene r i (x.get i) :=
  ⟨hx.2 i h, (hx.1 i).1, (hx.1 i).2⟩

/-- A coordinate is `k` above the lower bound, and that fits into a row of bits of the given length, on
which it is coded unless the length is beyond the longest code. -/
structure CodedAs (r : Region ℝ n) (i : Fin n) (length : ℕ) (v : ℝ) (k : ℕ) : Prop where
  eq : v = k + r.lower.get i
  offset : BitCode.toInteger (v - r.lower.get i) = .ok (k : ℤ)
  fits : k < 2 ^ length
  encode : encodeCoordinate r i length v =
    if length ≤ longestCode then .ok (BitCode.bits length k) else .error (.uncodable k length)

/-- The length for an integer variable is made for its width. -/
theorem get_codeLengths {lengths : Vector ℕ n} (h : codeLengths r = .ok lengths) {i : Fin n}
    (hi : r.integral.get i = true) {a b : ℤ} (ha : r.lower.get i = a) (hb : r.upper.get i = b) :
    lengths.get i = BitCode.lengthFor (b - a).toNat := by
  have hab : a ≤ b := by
    have hordered := r.ordered i
    rw [ha, hb] at hordered
    exact_mod_cast hordered
  have hwidth : r.width i = ((b - a : ℤ) : ℝ) := by
    rw [Region.width, ha, hb, Int.cast_sub]
  have hmade := ofFnM_eq_ok h i
  rw [if_pos hi, hwidth, BitCode.lengthForWidth_intCast (by omega)] at hmade
  exact (Except.ok.inj hmade).symm

theorem codeLengths_pos {lengths : Vector ℕ n} (h : codeLengths r = .ok lengths) {i : Fin n}
    (hi : r.integral.get i = true) : 0 < lengths.get i := by
  obtain ⟨a, ha⟩ := r.isWhole_lower hi
  obtain ⟨b, hb⟩ := r.isWhole_upper hi
  rw [get_codeLengths h hi ha hb]
  exact BitCode.lengthFor_pos _

/-- The lengths that are made for a region fit the integers between its bounds. -/
theorem exists_codedAs {lengths : Vector ℕ n} (h : codeLengths r = .ok lengths) {i : Fin n}
    (hi : r.integral.get i = true) {v : ℝ} (hv : IsGene r i v) :
    ∃ k, CodedAs r i (lengths.get i) v k := by
  obtain ⟨a, ha⟩ := r.isWhole_lower hi
  obtain ⟨b, hb⟩ := r.isWhole_upper hi
  obtain ⟨j, hj⟩ := hv.whole
  have hlo := hv.lower
  have hhi := hv.upper
  rw [ha, hj] at hlo
  rw [hb, hj] at hhi
  have haj : a ≤ j := by exact_mod_cast hlo
  have hjb : j ≤ b := by exact_mod_cast hhi
  -- The coordinate is at most as far from the lower bound as the variable is wide.
  have hspan := BitCode.lt_two_pow_lengthFor (b - a).toNat
  rw [← get_codeLengths h hi ha hb] at hspan
  obtain ⟨k, hk⟩ := Int.eq_ofNat_of_zero_le (sub_nonneg.mpr haj)
  have hfits : k < 2 ^ lengths.get i := by omega
  have hoffset : BitCode.toInteger (v - r.lower.get i) = .ok (k : ℤ) := by
    rw [hj, ha, ← Int.cast_sub, hk]
    exact BitCode.toInteger_intCast k
  refine ⟨k, ?_, hoffset, hfits, ?_⟩
  · rw [hj, ha, ← Int.cast_natCast, ← hk]
    push_cast
    ring
  · have hencode : encodeCoordinate r i (lengths.get i) v =
        if lengths.get i ≤ longestCode then BitCode.encode k (lengths.get i)
        else .error (.uncodable k (lengths.get i)) := by
      unfold encodeCoordinate
      rw [hoffset]
      rfl
    have hcode : (BitCode.encode k (lengths.get i) : Except (Fault ℝ) (List Bool)) =
        .ok (BitCode.bits (lengths.get i) k) := by
      have hpow : (k : ℤ) < (2 ^ lengths.get i : ℕ) := by exact_mod_cast hfits
      rw [BitCode.encode, if_neg, Int.toNat_natCast]
      rw [Nat.pow_eq]
      omega
    rw [hencode, hcode]

/-- The integer variables of a feasible point are coded on the lengths that are made for its region,
unless such a length is beyond the longest code. -/
theorem inherits_of_feasible {lengths : Vector ℕ n} (h : codeLengths r = .ok lengths)
    (hshort : ∀ i, lengths.get i ≤ longestCode) {x : Point ℝ n} (hx : r.Feasible x) (i : Fin n) :
    Inherits r (fun _ => False) i (lengths.get i) (x.get i) := by
  refine ⟨hx.2 i, fun hi e he => ?_⟩
  obtain ⟨k, hk⟩ := exists_codedAs h hi (isGene_of_feasible hx hi)
  rw [hk.encode, if_pos (hshort i)] at he
  exact nomatch he

end Genetic

/-! ## 4. Neighbours -/

theorem Torus.roundQuot_pos {num den : ℕ} (hden : 0 < den) (h : den ≤ num) :
    0 < roundQuot num den := by
  have hquot : 0 < num / den := Nat.div_pos h hden
  unfold roundQuot
  dsimp only
  split_ifs <;> omega

namespace Torus

/-- The grid for at least four members has rows and columns. -/
theorem ofCount_pos {count : ℕ} (h : 4 ≤ count) :
    0 < (ofCount count).rows ∧ 0 < (ofCount count).cols := by
  have hcols : 0 < Nat.sqrt (count / 1) := by
    rw [Nat.div_one]
    exact Nat.sqrt_pos.mpr (by omega)
  have hle : 1 * Nat.sqrt (count / 1) ≤ count := by
    rw [Nat.div_one, one_mul]
    exact Nat.sqrt_le_self count
  exact ⟨roundQuot_pos (by omega) hle, hcols⟩

theorem place_lt {g : Torus} (hrows : 0 < g.rows) (hcols : 0 < g.cols) (r c : ℕ) :
    g.place r c < g.size := by
  have hr : r % g.rows + 1 ≤ g.rows := Nat.mod_lt r hrows
  have hc : c % g.cols < g.cols := Nat.mod_lt c hcols
  calc g.place r c < r % g.rows * g.cols + g.cols := Nat.add_lt_add_left hc _
    _ = (r % g.rows + 1) * g.cols := (Nat.succ_mul _ _).symm
    _ ≤ g.size := Nat.mul_le_mul_right _ hr

theorem lt_size_of_mem_informants {g : Torus} (hrows : 0 < g.rows) (hcols : 0 < g.cols) {i j : ℕ}
    (hj : j ∈ g.informants i) : j < g.size := by
  simp only [informants, List.mem_cons, List.not_mem_nil, or_false] at hj
  rcases hj with rfl | rfl | rfl | rfl
  all_goals exact place_lt hrows hcols _ _

end Torus

namespace Swarm

/-- There are as many particles asked for as the rule of the swarm needs. -/
def Params.CountFits {α : Type} (p : Params α) : Prop := Config.leastCount p.rule ≤ p.count

theorem Params.CountFits.size_pos {α : Type} {p : Params α} (h : p.CountFits) : 0 < p.size := by
  unfold CountFits at h
  unfold size
  cases hrule : p.rule with
  | informed =>
    rw [hrule] at h
    have hcount : 4 ≤ p.count := Int.ofNat_le.mp h
    obtain ⟨hrows, hcols⟩ := Torus.ofCount_pos hcount
    exact Nat.mul_pos hrows hcols
  | inertia =>
    rw [hrule] at h
    exact Int.ofNat_le.mp h
  | constriction =>
    rw [hrule] at h
    exact Int.ofNat_le.mp h

/-- Every informant of a particle exists, and there are four of them if there are any. -/
theorem situation_eq_ok {p : Params ℝ} (hcount : p.CountFits) {swarm : List (Particle ℝ n)}
    (hswarm : swarm.length = p.size) (i : ℕ) (q : Particle ℝ n) (best : Point ℝ n) :
    ∃ s, situation p swarm i q best = .ok s ∧
      ∀ F, p.FactorsMeet F 4 n → p.FactorsMeet F s.informants.length n := by
  unfold Params.CountFits at hcount
  unfold Params.size at hswarm
  unfold situation informantPoints Params.FactorsMeet
  cases hrule : p.rule with
  | informed =>
    rw [hrule] at hcount hswarm
    have hfour : 4 ≤ p.count := Int.ofNat_le.mp hcount
    obtain ⟨hrows, hcols⟩ := Torus.ofCount_pos hfour
    have hfound : ∃ points, (((Torus.ofCount p.count).informants i).mapM fun j =>
        swarm[j]?.map (·.bestPoint)) = some points ∧ points.length = 4 := by
      apply exists_mapM_eq_some
      intro j hj
      have hlt : j < swarm.length := hswarm ▸ Torus.lt_size_of_mem_informants hrows hcols hj
      exact ⟨_, congrArg (Option.map _) (List.getElem?_eq_getElem hlt)⟩
    obtain ⟨points, hpoints, hlength⟩ := hfound
    refine ⟨⟨q.point, q.velocity, points, q.bestPoint, best⟩, ?_, fun F h => ?_⟩
    · dsimp only
      rw [hpoints]
      rfl
    · dsimp only at h ⊢
      rw [hlength]
      exact h
  | inertia => exact ⟨_, rfl, fun _ h => h⟩
  | constriction => exact ⟨_, rfl, fun _ h => h⟩

end Swarm

end BoxSearch
