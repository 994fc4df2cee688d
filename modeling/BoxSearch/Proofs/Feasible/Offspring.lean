import Mathlib
import BoxSearch.Proofs.Feasible.Choices

/-!
# Moves and children stay in the region

A particle is moved and then clamped, and before that its integer variables are rounded, so that any
move ends in the region.  The children of two feasible parents are feasible: an integer variable is
inherited, exchanged or decoded from bits and capped.  A child of a whole family takes its integer
variables from members of the family or from between the bounds.
-/

namespace BoxSearch

variable {σ : Type} {n : ℕ}

/-! ## 1. Factors -/

theorem Usable.eq_of_ofOption_eq_error {α β : Type} {f e : Fault α} {o : Option β}
    (h : Usable.ofOption f o = .error e) : e = f := by
  cases o with
  | none => exact (Except.error.inj h).symm
  | some b => exact nomatch h

/-- A value that is missing, or missing after another one was found, is missing for one reason. -/
theorem Usable.eq_of_ofOption_bind_eq_error {α β γ : Type} {f e : Fault α} {o : Option β}
    {g : β → Option γ} (h : ((Usable.ofOption f o).bind fun b => Usable.ofOption f (g b)) = .error e) :
    e = f := by
  cases o with
  | none => exact (Except.error.inj h).symm
  | some b => exact Usable.eq_of_ofOption_eq_error h

namespace Factor

theorem point_isOrdinary {f : Factor ℝ} (h : f.IsNumber) (e : Fault ℝ)
    (he : f.point n = .error e) : e.IsOrdinary := by
  obtain ⟨g, rfl⟩ := h
  rw [Usable.eq_of_ofOption_bind_eq_error (f := .misshapen) (o := g.stretchTo? [n])
    (g := fun row => Point.ofList? n row.values) he]
  trivial

theorem points_isOrdinary {f : Factor ℝ} (h : f.IsNumber) (k : ℕ) (e : Fault ℝ)
    (he : f.points k n = .error e) : e.IsOrdinary := by
  obtain ⟨g, rfl⟩ := h
  rw [Usable.eq_of_ofOption_bind_eq_error (f := .misshapen) (o := g.stretchTo? [k, n])
    (g := fun rows => (Grid.splitRows n k rows.values).mapM (Point.ofList? n)) he]
  trivial

end Factor

variable [DrawSource σ ℝ] {F : Fault ℝ → Prop}

/-! ## 2. Moves of a particle -/

namespace Swarm

/-- Every setting of the swarm is a number. -/
structure Params.IsNumeric {α : Type} (p : Params α) : Prop where
  damping : p.damping.IsNumber
  pull : p.pull.IsNumber
  ownPull : p.ownPull.IsNumber
  bestPull : p.bestPull.IsNumber
  launch : p.launch.IsNumber
  spread : p.spread.IsNumber
  mutationSpread : p.mutationSpread.IsNumber

variable {p : Params ℝ}

/-- Where the multipliers of the rule do not fit `k` informants or `n` coordinates, that is a fault with
`F`. -/
def Params.FactorsMeet (p : Params ℝ) (F : Fault ℝ → Prop) (k n : ℕ) : Prop :=
  match p.rule with
  | .informed => ∀ e, p.pull.points k n = .error e → F e
  | _ => ∀ f ∈ [p.ownPull, p.bestPull], ∀ e, f.point n = .error e → F e

theorem Params.IsNumeric.factorsMeet (hp : p.IsNumeric) (k n : ℕ) :
    p.FactorsMeet Fault.IsOrdinary k n := by
  have htwo : ∀ f ∈ [p.ownPull, p.bestPull], ∀ e, f.point n = .error e → e.IsOrdinary := by
    intro f hf
    rcases List.mem_pair.mp hf with rfl | rfl
    · exact Factor.point_isOrdinary hp.ownPull
    · exact Factor.point_isOrdinary hp.bestPull
  unfold Params.FactorsMeet
  cases p.rule with
  | informed => exact Factor.points_isOrdinary hp.pull k
  | inertia => exact htwo
  | constriction => exact htwo

theorem pullTo_meets {factor : Factor ℝ} (h : ∀ e, factor.point n = .error e → F e)
    (x y : Point ℝ n) :
    Meets (fun _ => True) F (pullTo factor x y : ChoiceM σ ℝ (Point ℝ n)) := by
  apply Meets.bind (.draw (.trivial _))
  intro u _
  exact .bind (.use (fun _ _ => trivial) h) fun f _ => .pure trivial

theorem twoPointPull_meets
    (h : ∀ f ∈ [p.ownPull, p.bestPull], ∀ e, f.point n = .error e → F e) (s : Situation ℝ n) :
    Meets (fun _ => True) F (twoPointPull p s : ChoiceM σ ℝ (Point ℝ n)) :=
  .bind (pullTo_meets (h _ (List.mem_cons_self ..)) _ _) fun _ _ =>
    .bind (pullTo_meets (h _ (List.mem_cons_of_mem _ (List.mem_cons_self ..))) _ _) fun _ _ =>
      .pure trivial

theorem informedVelocity_meets (hp : p.IsNumeric) (s : Situation ℝ n)
    (h : ∀ e, p.pull.points s.informants.length n = .error e → F e) :
    Meets (fun _ => True) F (informedVelocity p s : ChoiceM σ ℝ (Point ℝ n)) := by
  apply Meets.bind (.draw (.trivial _))
  intro us _
  apply Meets.bind (.use (fun _ _ => trivial) h)
  intro fs _
  exact .bind (.useNumber hp.damping) fun d _ => .pure trivial

theorem ruleVelocity_meets (hp : p.IsNumeric) {s : Situation ℝ n}
    (h : p.FactorsMeet F s.informants.length n) :
    Meets (fun _ => True) F (ruleVelocity p s : ChoiceM σ ℝ (Point ℝ n)) := by
  unfold Params.FactorsMeet at h
  unfold ruleVelocity
  cases hrule : p.rule with
  | informed =>
    rw [hrule] at h
    exact informedVelocity_meets hp s h
  | inertia =>
    rw [hrule] at h
    exact .bind (twoPointPull_meets h s) fun _ _ =>
      .bind (.useNumber hp.damping) fun _ _ => .pure trivial
  | constriction =>
    rw [hrule] at h
    exact .bind (twoPointPull_meets h s) fun _ _ =>
      .bind (.useNumber hp.damping) fun _ _ => .pure trivial

theorem stir_meets (t : Task ℝ n) (hp : p.IsNumeric) (v : Point ℝ n) :
    Meets (fun _ => True) F (stir t p v : ChoiceM σ ℝ (Point ℝ n)) :=
  .bind (.useNumber hp.damping) fun _ _ => .draw (.trivial _)

theorem mutateChosen_meets (t : Task ℝ n) (hp : p.IsNumeric) (chosen : Vector Bool n)
    {x : Point ℝ n} (hx : x.IsWholeIn t.region) :
    Meets (fun y => y.IsWholeIn t.region) F
      (mutateChosen t p chosen x : ChoiceM σ ℝ (Point ℝ n)) := by
  -- Chosen variables are rounded again, the others are whole because they were.
  apply Meets.bind (.draw (.trivial _))
  intro z _
  apply Meets.ite
  · intro _
    apply Meets.bind (.useNumber hp.mutationSpread)
    intro spread _
    apply Meets.pure
    intro i hi
    rw [Point.get_ofFn]
    split_ifs
    · exact ⟨_, rfl⟩
    · exact hx i hi
  · intro _
    exact .pure hx

theorem mutateIntegers_meets (t : Task ℝ n) (hp : p.IsNumeric) (x : Point ℝ n) :
    Meets (fun y => y.IsWholeIn t.region) F
      (mutateIntegers t p x : ChoiceM σ ℝ (Point ℝ n)) := by
  apply Meets.ite
  · intro _
    apply Meets.bind (.draw (.trivial _))
    intro u _
    exact mutateChosen_meets t hp _ (t.region.isWholeIn_roundIntegers x)
  · intro hnone
    apply Meets.pure
    intro i hi
    exact absurd (t.region.hasIntegers_of_integral hi) hnone

theorem move_meets (t : Task ℝ n) (hp : p.IsNumeric) {s : Situation ℝ n}
    (h : p.FactorsMeet F s.informants.length n) :
    Meets (fun q => t.region.Feasible q.2) F
      (move t p s : ChoiceM σ ℝ (Point ℝ n × Point ℝ n)) := by
  -- The position is clamped last, so that until then only whole variables have to be kept.
  apply Meets.bind (ruleVelocity_meets hp h)
  intro v _
  apply Meets.bind (stir_meets t hp v)
  intro v _
  exact .bind (mutateIntegers_meets t hp _) fun x hx => .pure (t.region.feasible_clamp hx)

theorem launchVelocities_meets (t : Task ℝ n) (hp : p.IsNumeric) (count : ℕ) :
    Meets (fun _ => True) F
      (launchVelocities t p count : ChoiceM σ ℝ (List (Point ℝ n))) :=
  .bind (.draw (.trivial _)) fun _ _ => .bind (.useNumber hp.launch) fun _ _ => .pure trivial

end Swarm

/-! ## 3. Children of two parents -/

namespace Genetic

/-- Every setting of the search that may be no number is one. -/
structure Params.IsNumeric {α : Type} (p : Params α) : Prop where
  reach : p.reach.IsNumber
  mutationRange : p.mutationRange.IsNumber
  precision : p.precision.IsNumber

variable {p : Params ℝ}

theorem mutationStep_meets (hp : p.IsNumeric) (scale : ℝ) :
    Meets (fun _ => True) F (mutationStep p scale : ChoiceM σ ℝ ℝ) :=
  .bind (.draw (.trivial _)) fun _ _ => .bind (.draw (.trivial _)) fun _ _ =>
    .bind (.useNumber hp.precision) fun _ _ => .pure trivial

/-- Decoded bits stand for an integer above the lower bound, and so does the cap. -/
theorem isWhole_decodeCoordinate {r : Region ℝ n} {i : Fin n} (h : r.integral.get i = true)
    (bits : List Bool) : IsWhole (decodeCoordinate r i bits) := by
  unfold decodeCoordinate
  obtain ⟨a, ha⟩ := r.isWhole_lower h
  rw [Scalar.least_real]
  rcases min_choice (Scalar.ofNat (BitCode.value bits) + r.lower.get i) (r.upper.get i) with hm | hm
  · rw [hm, ha, Scalar.ofNat_real]
    exact ⟨BitCode.value bits + a, by push_cast; rfl⟩
  · rw [hm]
    exact r.isWhole_upper h

theorem encodeCoordinate_isOrdinary {r : Region ℝ n} {i : Fin n} {length : ℕ} {x : ℝ} (e : Fault ℝ)
    (he : encodeCoordinate r i length x = .error e) : e.IsOrdinary := by
  have hencode : encodeCoordinate r i length x =
      if length ≤ longestCode then
        BitCode.encode (Scalar.floor (Scalar.nearest (x - r.lower.get i))) length
      else .error (.uncodable (Scalar.floor (Scalar.nearest (x - r.lower.get i))) length) := rfl
  rw [hencode] at he
  unfold BitCode.encode at he
  split_ifs at he
  all_goals
    cases he
    trivial

theorem crossBits_meets {r : Region ℝ n} {i : Fin n} (h : r.integral.get i = true) {length : ℕ}
    (hlength : 1 < length) {a b : ℝ} (ha : ∀ e, encodeCoordinate r i length a = .error e → F e)
    (hb : ∀ e, encodeCoordinate r i length b = .error e → F e) :
    Meets (fun q => IsWhole q.1 ∧ IsWhole q.2) F
      (crossBits r p i length (.ok a) (.ok b) : ChoiceM σ ℝ (ℝ × ℝ)) := by
  apply Meets.bind (Draw.below_meets fun hnone => absurd hnone (by omega))
  intro cut _
  apply Meets.bind (.useOk rfl)
  rintro x rfl
  apply Meets.bind (.use (fun _ _ => trivial) ha)
  intro bitsA _
  apply Meets.bind (.useOk rfl)
  rintro y rfl
  apply Meets.bind (.use (fun _ _ => trivial) hb)
  intro bitsB _
  apply Meets.bind (.draw (.trivial _))
  intro codeA _
  apply Meets.bind (.draw (.trivial _))
  intro codeB _
  exact .pure ⟨isWhole_decodeCoordinate h codeA, isWhole_decodeCoordinate h codeB⟩

theorem crossReal_meets (r : Region ℝ n) (hp : p.IsNumeric) (i : Fin n) (a b : ℝ) :
    Meets (fun _ => True) F
      (crossReal r p i (.ok a) (.ok b) : ChoiceM σ ℝ (ℝ × ℝ)) := by
  apply Meets.bind (.useNumber hp.reach)
  intro reach _
  apply Meets.bind (Draw.between_meets _ _)
  intro mix _
  apply Meets.bind (.useNumber ⟨a, rfl⟩)
  intro x _
  apply Meets.bind (.useNumber ⟨b, rfl⟩)
  intro y _
  apply Meets.bind (.draw (.trivial _))
  intro w _
  apply Meets.ite
  · intro _
    apply Meets.bind (.useNumber hp.mutationRange)
    intro range _
    exact .bind (mutationStep_meets hp _) fun _ _ =>
      .bind (mutationStep_meets hp _) fun _ _ => .pure trivial
  · intro _
    exact .pure trivial

/-- A coordinate that can be inherited: if it is that of an integer variable it is whole, and where it
is not coded, that is a fault with `F`. -/
structure Inherits (r : Region ℝ n) (F : Fault ℝ → Prop) (i : Fin n) (length : ℕ) (v : ℝ) : Prop where
  whole : r.integral.get i = true → IsWhole v
  coded : r.integral.get i = true → ∀ e, encodeCoordinate r i length v = .error e → F e

theorem inherits_isOrdinary {r : Region ℝ n} {lengths : Vector ℕ n} {x : Point ℝ n}
    (hx : x.IsWholeIn r) (i : Fin n) :
    Inherits r Fault.IsOrdinary i (lengths.get i) (x.get i) :=
  ⟨hx i, fun _ => encodeCoordinate_isOrdinary⟩

theorem crossVariable_meets {r : Region ℝ n} (hp : p.IsNumeric) {length : ℕ} {i : Fin n} {a b : ℝ}
    (ha : Inherits r F i length a) (hb : Inherits r F i length b) :
    Meets (fun o => ∀ q ∈ o, r.integral.get i = true → IsWhole q.1 ∧ IsWhole q.2) F
      (crossVariable r p length i (.ok a) (.ok b) : ChoiceM σ ℝ (Option (ℝ × ℝ))) := by
  -- Split as the variable is crossed: not at all, by its bits, by an exchange, or by mixing.
  apply Meets.bind (.draw (.trivial _))
  intro u _
  apply Meets.ite
  · intro _
    exact .pure fun q hq => nomatch hq
  · intro _
    apply Meets.ite
    · intro h
      apply Meets.ite
      · -- Coded on several bits, and decoded to integers.
        intro hlength
        rw [map_eq_pure_bind]
        apply Meets.bind (crossBits_meets h hlength (ha.coded h) (hb.coded h))
        intro q hq
        apply Meets.pure
        intro q' hq' _
        rw [← Option.some.inj hq']
        exact hq
      · -- Coded on one bit at most: the parents' own values change places.
        intro _
        apply Meets.bind (.useOk rfl)
        rintro y rfl
        apply Meets.bind (.useOk rfl)
        rintro x rfl
        apply Meets.pure
        intro q hq hi
        rw [← Option.some.inj hq]
        exact ⟨hb.whole hi, ha.whole hi⟩
    · intro h
      rw [map_eq_pure_bind]
      exact .bind (crossReal_meets r hp i a b) fun q _ => .pure fun q' _ hi => absurd hi h

theorem breed_meets {r : Region ℝ n} (hp : p.IsNumeric) {lengths : Vector ℕ n} {a b : Point ℝ n}
    (ha : ∀ i, Inherits r F i (lengths.get i) (a.get i))
    (hb : ∀ i, Inherits r F i (lengths.get i) (b.get i)) :
    Meets (fun q => r.Feasible q.1 ∧ r.Feasible q.2) F
      (breed r p lengths a b : ChoiceM σ ℝ (Point ℝ n × Point ℝ n)) := by
  -- Variable by variable: a crossed pair is whole, and so is one that is inherited.
  have hpair (i : Fin n) : Meets
      (fun q => r.integral.get i = true → IsWhole q.1 ∧ IsWhole q.2) F
      (do
        let crossed ← crossVariable r p (lengths.get i) i (.ok (a.get i)) (.ok (b.get i))
        pure (crossed.getD (a.get i, b.get i)) : ChoiceM σ ℝ (ℝ × ℝ)) := by
    apply Meets.bind (crossVariable_meets hp (ha i) (hb i))
    intro o ho
    apply Meets.pure
    intro hi
    cases o with
    | none => exact ⟨(ha i).whole hi, (hb i).whole hi⟩
    | some q => exact ho q rfl hi
  apply Meets.bind (.ofFnM hpair)
  intro pairs hpairs
  apply Meets.pure
  constructor
  · apply r.feasible_clamp
    intro i hi
    rw [Point.get_map]
    exact (hpairs i hi).1
  · apply r.feasible_clamp
    intro i hi
    rw [Point.get_map]
    exact (hpairs i hi).2

end Genetic

/-! ## 4. Words between bounds -/

namespace Evolution

theorem truncate_intCast (k : ℤ) : Scalar.truncate (k : ℝ) = k := by
  unfold Scalar.truncate
  rw [Scalar.zero_real]
  split_ifs
  · show -⌊-(k : ℝ)⌋ = k
    rw [← Int.cast_neg, Int.floor_intCast, neg_neg]
  · exact Int.floor_intCast k

/-- The words between two bounds: none where the upper bound is beyond the last word, or just that, and
the lower one is a word but not the first. -/
theorem wordCount_pos_iff {r : Region ℝ n} {i : Fin n} {a b : ℤ} (ha : r.lower.get i = a)
    (hb : r.upper.get i = b) :
    0 < wordCount r i ↔
      b < 2 ^ 63 - 1 ∨ b ≠ 2 ^ 63 - 1 ∧ (a ≤ -2 ^ 63 ∨ 2 ^ 63 ≤ a) := by
  have hab : a ≤ b := by
    have hordered := r.ordered i
    rw [ha, hb] at hordered
    exact_mod_cast hordered
  unfold wordCount lowWord
  rw [ha, hb, truncate_intCast, truncate_intCast]
  unfold asWord
  split_ifs <;> omega

/-- There are words between the bounds of every integer variable. -/
def HasWords {α : Type} [Scalar α] (r : Region α n) : Prop :=
  ∀ i, r.integral.get i = true → 0 < wordCount r i

/-- Upper bounds before the last word leave words below them. -/
theorem hasWords_of_lt {r : Region ℝ n} (h : ∀ i, r.integral.get i = true → r.upper.get i < 2 ^ 63 - 1) :
    HasWords r := by
  intro i hi
  obtain ⟨a, ha⟩ := r.isWhole_lower hi
  obtain ⟨b, hb⟩ := r.isWhole_upper hi
  have hlt := h i hi
  rw [hb] at hlt
  exact (wordCount_pos_iff ha hb).mpr (.inl (by exact_mod_cast hlt))

end Evolution

/-! ## 5. Children of a family -/

namespace Evolution

/-- Every setting of the evolution that may be no number is one. -/
structure Params.IsNumeric {α : Type} (p : Params α) : Prop where
  stepSize : p.stepSize.IsNumber
  spread : p.spread.IsNumber
  learning : p.learning.IsNumber

variable {r : Region ℝ n}

theorem marry_meets (p : Params ℝ) :
    Meets (fun _ => True) Fault.IsOrdinary (marry p : ChoiceM σ ℝ (List ℕ)) := by
  unfold marry
  cases p.marriage with
  | random => exact Draw.choose_meets _ _
  | roulette => exact .draw (.trivial _)

theorem donors_meets (parents : List (Point ℝ n)) :
    Meets (fun chosen => ∀ i, chosen.get i ∈ parents) Fault.IsOrdinary
      (donors parents : ChoiceM σ ℝ (Vector (Point ℝ n) n)) := by
  -- A pick may miss the row of parents, but what it finds there is a parent.
  apply Meets.bind (.ofFnM fun _ => Draw.below_meets fun _ => trivial)
  intro picks _
  apply Meets.ofFnM (φ := fun _ x => x ∈ parents)
  intro i
  apply Meets.mono (.useOption trivial)
  intro x hx
  obtain ⟨place, -, hplace⟩ := Option.bind_eq_some_iff.mp hx
  exact List.mem_of_getElem? hplace

theorem recombine_meets {parents : List (Point ℝ n)} (h : ∀ x ∈ parents, x.IsWholeIn r)
    (hdonors : Meets (fun chosen => ∀ i, chosen.get i ∈ parents) F
      (donors parents : ChoiceM σ ℝ (Vector (Point ℝ n) n))) :
    Meets (fun x => x.IsWholeIn r) F (recombine r parents : ChoiceM σ ℝ (Point ℝ n)) := by
  -- The mean of whole variables need not be whole, but integer variables are not averaged.
  apply Meets.ite
  · intro _
    apply Meets.bind hdonors
    intro chosen hchosen
    apply Meets.pure
    intro i hi
    rw [Point.get_ofFn, if_pos hi]
    exact h _ (hchosen i) i hi
  · intro hnone
    apply Meets.pure
    intro i hi
    exact absurd (r.hasIntegers_of_integral hi) hnone

/-- Every exponential is finite, so that the shared factor is never refused. -/
theorem stepFactors_meets (rates : Rates ℝ) :
    Meets (fun _ => True) F
      (stepFactors rates : ChoiceM σ ℝ (ℝ × Point ℝ n)) := by
  apply Meets.bind (.draw (.trivial _))
  intro z _
  have hshared : Usable.IsNumber (sharedFactor rates z) := ⟨_, rfl⟩
  exact .bind (.useNumber hshared) fun _ _ => .bind (.draw (.trivial _)) fun _ _ => .pure trivial

theorem childSteps_meets (rates : Rates ℝ) (steps : List (Point ℝ n)) :
    Meets (fun _ => True) F (childSteps rates steps : ChoiceM σ ℝ (Point ℝ n)) :=
  .bind (stepFactors_meets rates) fun _ _ => .pure trivial

theorem requireWords_meets {chosen : Fin n → Bool}
    (hchosen : ∀ i, chosen i = true → r.integral.get i = true) (h : ¬HasWords r → F .emptyRange) :
    Meets (fun _ => True) F (requireWords r chosen : ChoiceM σ ℝ Unit) :=
  Draw.checkRange_meets fun hnone =>
    h fun hwords => of_decide_eq_false hnone fun i hi => hwords i (hchosen i hi)

theorem resample_meets {i : Fin n} (hi : r.integral.get i = true) (h : ¬HasWords r → F .emptyRange) :
    Meets IsWhole F (resample r i : ChoiceM σ ℝ ℝ) :=
  .bind (Draw.below_meets fun hnone => h fun hwords => hnone.not_gt (hwords i hi)) fun _ _ =>
    .pure ⟨_, rfl⟩

theorem mutateIntegers_meets (p : Params ℝ) (h : ¬HasWords r → F .emptyRange) {x : Point ℝ n}
    (hx : x.IsWholeIn r) :
    Meets (fun y => y.IsWholeIn r) F
      (mutateIntegers r p x : ChoiceM σ ℝ (Point ℝ n)) := by
  apply Meets.ite
  · intro _
    apply Meets.bind (.draw (.trivial _))
    intro u _
    apply Meets.bind (requireWords_meets (fun i hi => (Bool.and_eq_true_iff.mp hi).1) h)
    intro _ _
    apply Meets.ofFnM (φ := fun i v => r.integral.get i = true → IsWhole v)
    intro i
    apply Meets.ite
    · intro hi
      exact .mono (resample_meets (Bool.and_eq_true_iff.mp hi).1 h) fun v hv _ => hv
    · intro _
      exact .pure (hx i)
  · intro _
    exact .pure hx

theorem mutate_meets (p : Params ℝ) (h : ¬HasWords r → F .emptyRange) {x : Point ℝ n}
    (hx : x.IsWholeIn r) (steps : Point ℝ n) :
    Meets r.Feasible F (mutate r p x steps : ChoiceM σ ℝ (Point ℝ n)) := by
  -- Normal steps go to real variables only, so that integer variables are still whole after them.
  apply Meets.bind (.draw (Draw.normalsWhere_gives _ _ _))
  intro y hy
  have hwhole : y.IsWholeIn r := by
    intro i hi
    rw [hy i (by rw [Point.get_map, hi]; rfl)]
    exact hx i hi
  exact .bind (mutateIntegers_meets p h hwhole) fun z hz => .pure (r.feasible_clamp hz)

/-- The child of a family in which integer variables are whole is feasible. -/
theorem conceive_meets (p : Params ℝ) (rates : Rates ℝ) {parents : List (Member ℝ n)}
    (h : ∀ m ∈ parents, m.point.IsWholeIn r) (hwords : ¬HasWords r → F .emptyRange)
    (hdonors : Meets (fun chosen => ∀ i, chosen.get i ∈ parents.map (·.point)) F
      (donors (parents.map (·.point)) : ChoiceM σ ℝ (Vector (Point ℝ n) n))) :
    Meets (fun q => r.Feasible q.2) F
      (conceive r p rates parents : ChoiceM σ ℝ (Point ℝ n × Point ℝ n)) := by
  have hpoints : ∀ y ∈ parents.map (·.point), y.IsWholeIn r := by
    intro y hy
    obtain ⟨m, hm, rfl⟩ := List.mem_map.mp hy
    exact h m hm
  apply Meets.bind (childSteps_meets rates _)
  intro steps _
  apply Meets.bind (recombine_meets hpoints hdonors)
  intro x hx
  exact .bind (mutate_meets p hwords hx steps) fun z hz => .pure hz

end Evolution

end BoxSearch
