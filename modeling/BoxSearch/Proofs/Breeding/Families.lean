import Mathlib
import BoxSearch.Proofs.Counts.Solve
import BoxSearch.Proofs.Kept.Evolution
import BoxSearch.Proofs.Search.Sustained

/-!
# Families

A child lies between the members of its family, its integer variables are those of some of them, and
then it is varied: by a normal step in every real variable, and by another integer between the bounds
now and then.
-/

namespace BoxSearch

/-! ## 1. Means -/

/-- What a map makes of coordinates that are made one after the other, it can make of them when all are
made. -/
theorem ofFnM_map {m : Type → Type} [Monad m] [LawfulMonad m] {β γ : Type} {n : ℕ} (f : Fin n → m β)
    (g : Fin n → β → γ) :
    Vector.ofFnM (fun i => g i <$> f i) =
      (fun v : Vector β n => Vector.ofFn fun i => g i (v.get i)) <$> Vector.ofFnM f := by
  induction n with
  | zero =>
    rw [Vector.ofFnM_zero, Vector.ofFnM_zero, map_pure]
    rfl
  | succ n ih =>
    rw [Vector.ofFnM_succ, Vector.ofFnM_succ, ih fun i => f i.castSucc]
    simp only [map_eq_pure_bind, bind_assoc, pure_bind]
    refine bind_congr fun v => bind_congr fun b => congrArg pure ?_
    have hlast : g (Fin.last n) ((v.push b).get (Fin.last n)) = g (Fin.last n) b :=
      congrArg (g (Fin.last n)) (Point.get_push_last v b)
    rw [Vector.ofFn_succ]
    simp only [Point.get_push_castSucc]
    exact congrArg _ hlast.symm

/-- Of two coordinates, the first is made before the second. -/
theorem ofFnM_two {m : Type → Type} [Monad m] [LawfulMonad m] {β : Type} (f : Fin 2 → m β) :
    Vector.ofFnM f = f 0 >>= fun a => f 1 >>= fun b => pure #v[a, b] := by
  rw [Vector.ofFnM_succ, Vector.ofFnM_succ, Vector.ofFnM_zero, pure_bind, bind_assoc]
  refine bind_congr fun a => ?_
  rw [pure_bind]
  rfl

namespace Point

variable {n : ℕ}

theorem get_mean (points : List (Point ℝ n)) (i : Fin n) :
    (mean points).get i = (points.map (·.get i)).sum / points.length := by
  unfold mean
  rw [get_ofFn, Scalar.sum_real, Scalar.ofNat_real]

theorem mean_between {points : List (Point ℝ n)} (h : points ≠ []) (i : Fin n) :
    (∃ a ∈ points, a.get i ≤ (mean points).get i) ∧ ∃ b ∈ points, (mean points).get i ≤ b.get i := by
  have hpos : (0 : ℝ) < points.length := Nat.cast_pos.mpr (List.length_pos_of_ne_nil h)
  have hsum : (points.map fun _ => (mean points).get i).sum = (points.map (·.get i)).sum := by
    rw [List.map_const', List.sum_replicate, nsmul_eq_mul, get_mean, mul_div_cancel₀ _ hpos.ne']
  exact ⟨List.exists_le_of_sum_le h _ _ hsum.ge, List.exists_le_of_sum_le h _ _ hsum.le⟩

theorem mean_pos {points : List (Point ℝ n)} (h : points ≠ []) (i : Fin n)
    (hpos : ∀ x ∈ points, 0 < x.get i) : 0 < (mean points).get i := by
  obtain ⟨⟨a, ha, hle⟩, -⟩ := mean_between h i
  exact (hpos a ha).trans_le hle

end Point

/-! ## 2. Variations -/

namespace Evolution

/-- What is drawn to vary a child: a normal number for every real variable, and an integer for every
integer variable that is drawn anew. -/
structure Variation (α : Type) (n : ℕ) where
  moves : Vector (Option α) n
  anew : Vector (Option α) n

section

variable {σ α : Type} [Scalar α] [DrawSource σ α] {n : ℕ}

/-- A normal number for each real variable. -/
def drawMoves (r : Region α n) : StateM σ (Vector (Option α) n) :=
  Vector.ofFnM fun i => if (r.integral.map (!·)).get i then some <$> DrawSource.normal else pure none

/-- An integer for each integer variable that is drawn anew. -/
def drawAnew (r : Region α n) (p : Params α) : ChoiceM σ α (Vector (Option α) n) := do
  if r.hasIntegers then
    let u : Point α n ← .draw (Draw.uniforms n)
    let chosen := fun i => r.integral.get i && decide (u.get i < p.mutation)
    requireWords r chosen
    Vector.ofFnM fun i => if chosen i then some <$> resample r i else pure none
  else pure (Vector.ofFn fun _ => none)

namespace Variation

def draw (r : Region α n) (p : Params α) : ChoiceM σ α (Variation α n) := do
  let moves ← .draw (drawMoves r)
  let anew ← drawAnew r p
  pure ⟨moves, anew⟩

/-- A point that is moved by steps of some sizes. -/
def moved (v : Variation α n) (x steps : Point α n) : Point α n :=
  Vector.ofFn fun i => (v.moves.get i).elim (x.get i) fun z => x.get i + steps.get i * z

/-- The point that a point is varied to, not clamped yet. -/
def apply (v : Variation α n) (x steps : Point α n) : Point α n :=
  Vector.ofFn fun i => (v.anew.get i).getD ((v.moved x steps).get i)

end Variation

theorem mutateReals_eq (r : Region α n) (x steps : Point α n) :
    (mutateReals r x steps : StateM σ (Point α n)) =
      (fun moves : Vector (Option α) n => Vector.ofFn fun i =>
        (moves.get i).elim (x.get i) fun z => x.get i + steps.get i * z) <$> drawMoves r := by
  have hmap := ofFnM_map (m := StateM σ)
    (fun i => if (r.integral.map (!·)).get i then some <$> DrawSource.normal else pure none)
    fun i o => o.elim (x.get i) fun z => x.get i + steps.get i * z
  refine Eq.trans (congrArg Vector.ofFnM (funext fun i => ?_)) hmap
  split_ifs
  · rfl
  · rfl

theorem mutateIntegers_eq (r : Region α n) (p : Params α) (x : Point α n) :
    (mutateIntegers r p x : ChoiceM σ α (Point α n)) =
      (fun anew : Vector (Option α) n => Vector.ofFn fun i => (anew.get i).getD (x.get i)) <$>
        drawAnew r p := by
  unfold mutateIntegers drawAnew
  split_ifs
  · rw [map_bind]
    refine bind_congr fun u => ?_
    dsimp only
    rw [map_bind]
    refine bind_congr fun _ => ?_
    refine Eq.trans (congrArg Vector.ofFnM (funext fun i => ?_))
      (ofFnM_map _ fun i (o : Option α) => o.getD (x.get i))
    split_ifs
    · rw [Functor.map_map]
      exact (id_map _).symm
    · rfl
  · rw [map_pure]
    refine congrArg pure (Vector.ext fun i hi => ?_)
    rw [Vector.getElem_ofFn, Point.get_ofFn]
    rfl

/-- A point is varied by what is drawn, and the draws do not depend on it. -/
theorem mutate_eq (r : Region α n) (p : Params α) (x steps : Point α n) :
    (mutate r p x steps : ChoiceM σ α (Point α n)) =
      (fun v : Variation α n => r.clamp (v.apply x steps)) <$> Variation.draw r p := by
  unfold mutate Variation.draw
  simp only [mutateReals_eq, mutateIntegers_eq, map_eq_pure_bind, bind_assoc, pure_bind]
  rfl

end

/-! ## 3. Children -/

variable {σ : Type} [DrawSource σ ℝ] {n : ℕ} {r : Region ℝ n} {p : Params ℝ} {F : Fault ℝ → Prop}

/-- Steps go to real variables, and integer variables are drawn anew. -/
structure Variation.Fits (r : Region ℝ n) (v : Variation ℝ n) : Prop where
  real : ∀ i, r.integral.get i = false → v.anew.get i = none ∧ ∃ z, v.moves.get i = some z
  whole : ∀ i, r.integral.get i = true → v.moves.get i = none ∧ ∀ a ∈ v.anew.get i, IsWhole a

theorem drawMoves_gives (r : Region ℝ n) :
    Gives (fun moves => ∀ i, if r.integral.get i then moves.get i = none else ∃ z, moves.get i = some z)
      (drawMoves r : StateM σ (Vector (Option ℝ) n)) := by
  refine .ofFnM (φ := fun i o => if r.integral.get i then o = none else ∃ z, o = some z) fun i => ?_
  rw [Point.get_map]
  cases r.integral.get i with
  | true => exact .pure rfl
  | false =>
    rw [map_eq_pure_bind]
    exact .bind (.trivial _) fun z _ => .pure ⟨z, rfl⟩

theorem drawAnew_meets {r : Region ℝ n} (p : Params ℝ) (h : ¬HasWords r → F .emptyRange) :
    Meets (fun anew => ∀ i, if r.integral.get i then ∀ a ∈ anew.get i, IsWhole a else anew.get i = none)
      F (drawAnew r p : ChoiceM σ ℝ (Vector (Option ℝ) n)) := by
  apply Meets.ite
  · intro _
    apply Meets.bind (.draw (.trivial _))
    intro u _
    apply Meets.bind (requireWords_meets (fun i hi => (Bool.and_eq_true_iff.mp hi).1) h)
    intro _ _
    refine .ofFnM (φ := fun i o => if r.integral.get i then ∀ a ∈ o, IsWhole a else o = none) ?_
    intro i
    beta_reduce
    cases hi : r.integral.get i with
    | false => exact .pure rfl
    | true =>
      apply Meets.ite
      · intro _
        rw [map_eq_pure_bind]
        refine .bind (resample_meets hi h) fun a ha => .pure fun a' ha' => ?_
        rwa [← Option.some.inj ha']
      · intro _
        exact .pure fun a ha => nomatch ha
  · intro hnone
    refine .pure fun i => ?_
    rw [Point.get_ofFn, if_neg fun hi => hnone (r.hasIntegers_of_integral hi)]

/-- Only an integer variable without words between its bounds keeps a child from being varied. -/
theorem Variation.draw_meets {r : Region ℝ n} (p : Params ℝ) (h : ¬HasWords r → F .emptyRange) :
    Meets (Variation.Fits r) F (Variation.draw r p : ChoiceM σ ℝ (Variation ℝ n)) := by
  apply Meets.bind (.draw (drawMoves_gives r))
  intro moves hmoves
  apply Meets.bind (drawAnew_meets p h)
  intro anew hanew
  refine .pure ⟨fun i hi => ?_, fun i hi => ?_⟩
  · have hmove := hmoves i
    have hnew := hanew i
    rw [hi] at hmove hnew
    exact ⟨hnew, hmove⟩
  · have hmove := hmoves i
    have hnew := hanew i
    rw [if_pos hi] at hmove hnew
    exact ⟨hmove, hnew⟩

/-- A point between the members of a family, with every integer variable from one of them. -/
structure IsMixture (r : Region ℝ n) (family : List (Point ℝ n)) (x : Point ℝ n) : Prop where
  real : ∀ i, r.integral.get i = false →
    (∃ a ∈ family, a.get i ≤ x.get i) ∧ ∃ b ∈ family, x.get i ≤ b.get i
  inherited : ∀ i, r.integral.get i = true → ∃ a ∈ family, x.get i = a.get i

theorem IsMixture.feasible {family : List (Point ℝ n)} {x : Point ℝ n} (h : IsMixture r family x)
    (hfamily : ∀ a ∈ family, r.Feasible a) : r.Feasible x := by
  refine ⟨fun i => ?_, fun i hi => ?_⟩
  · cases hi : r.integral.get i with
    | false =>
      obtain ⟨⟨a, ha, hax⟩, b, hb, hxb⟩ := h.real i hi
      exact ⟨((hfamily a ha).1 i).1.trans hax, hxb.trans ((hfamily b hb).1 i).2⟩
    | true =>
      obtain ⟨a, ha, hax⟩ := h.inherited i hi
      rw [hax]
      exact (hfamily a ha).1 i
  · obtain ⟨a, ha, hax⟩ := h.inherited i hi
    rw [hax]
    exact (hfamily a ha).2 i hi

theorem recombine_isMixture {family : List (Point ℝ n)} (h : family ≠ [])
    (hdonors : Meets (fun chosen => ∀ i, chosen.get i ∈ family) F
      (donors family : ChoiceM σ ℝ (Vector (Point ℝ n) n))) :
    Meets (IsMixture r family) F (recombine r family : ChoiceM σ ℝ (Point ℝ n)) := by
  apply Meets.ite
  · intro _
    apply Meets.bind hdonors
    intro chosen hchosen
    refine .pure ⟨fun i hi => ?_, fun i hi => ?_⟩
    · rw [Point.get_ofFn, if_neg (Bool.eq_false_iff.mp hi)]
      exact Point.mean_between h i
    · rw [Point.get_ofFn, if_pos hi]
      exact ⟨_, hchosen i, rfl⟩
  · intro hnone
    exact .pure ⟨fun i _ => Point.mean_between h i,
      fun i hi => absurd (r.hasIntegers_of_integral hi) hnone⟩

/-- What becomes of a point that is varied. -/
structure Varied (r : Region ℝ n) (x : Point ℝ n) (v : Variation ℝ n) (y : Point ℝ n) : Prop where
  feasible : r.Feasible y
  -- An integer variable is left as it is or drawn anew.
  kept : ∀ i, r.integral.get i = true → v.anew.get i = none → y.get i = x.get i
  drawn : ∀ i, r.integral.get i = true → ∀ a ∈ v.anew.get i, y.get i = r.clampAt i a
  -- A real variable is moved by the normal number that is drawn for it, if that is not zero.
  moved : ∀ i, r.integral.get i = false → ∃ z, v.moves.get i = some z ∧ (z = 0 → y.get i = x.get i)

theorem Variation.Fits.varied {v : Variation ℝ n} (hv : v.Fits r) {x : Point ℝ n} (hx : r.Feasible x)
    (steps : Point ℝ n) : Varied r x v (r.clamp (v.apply x steps)) := by
  have happly (i : Fin n) : (v.apply x steps).get i =
      (v.anew.get i).getD ((v.moves.get i).elim (x.get i) fun z => x.get i + steps.get i * z) := by
    unfold Variation.apply Variation.moved
    rw [Point.get_ofFn, Point.get_ofFn]
  have hclamp (i : Fin n) : (r.clamp (v.apply x steps)).get i = r.clampAt i ((v.apply x steps).get i) :=
    Point.get_ofFn ..
  refine ⟨r.feasible_clamp fun i hi => ?_, fun i hi hnone => ?_, fun i hi a ha => ?_, fun i hi => ?_⟩
  · obtain ⟨hmoves, hanew⟩ := hv.whole i hi
    rw [happly, hmoves]
    cases h : v.anew.get i with
    | none => exact hx.2 i hi
    | some a => exact hanew a h
  · rw [hclamp, happly, hnone, (hv.whole i hi).1]
    exact r.clampAt_eq_self (hx.1 i)
  · rw [hclamp, happly, Option.mem_def.mp ha]
    rfl
  · obtain ⟨hanew, z, hz⟩ := hv.real i hi
    refine ⟨z, hz, ?_⟩
    rintro rfl
    rw [hclamp, happly, hanew, hz]
    show r.clampAt i (x.get i + steps.get i * 0) = x.get i
    rw [mul_zero, add_zero]
    exact r.clampAt_eq_self (hx.1 i)

/-- Log-normal factors keep positive step sizes positive. -/
theorem childSteps_pos (rates : Rates ℝ) {steps : List (Point ℝ n)} (h : steps ≠ [])
    (hsteps : ∀ s ∈ steps, ∀ i, 0 < s.get i) :
    Meets (fun s => ∀ i, 0 < s.get i) F (childSteps rates steps : ChoiceM σ ℝ (Point ℝ n)) := by
  have hfactors : Meets (fun f => 0 < f.1 ∧ ∀ i, 0 < f.2.get i) F
      (stepFactors rates : ChoiceM σ ℝ (ℝ × Point ℝ n)) := by
    apply Meets.bind (.draw (.trivial _))
    intro z _
    apply Meets.bind (.useOk (v := Real.exp (rates.shared * z)) rfl)
    rintro shared rfl
    apply Meets.bind (.draw (.trivial _))
    intro zs _
    refine .pure ⟨Real.exp_pos _, fun i => ?_⟩
    rw [Point.get_ofFn]
    exact Real.exp_pos _
  apply Meets.bind hfactors
  rintro ⟨shared, own⟩ ⟨hshared, hown⟩
  refine .pure fun i => ?_
  rw [Point.get_ofFn]
  exact mul_pos (mul_pos hshared (Point.mean_pos h i fun s hs => hsteps s hs i)) (hown i)

end Evolution

/-! ## 4. Populations -/

namespace Evolution

section

variable {σ α : Type} [Scalar α] [DrawSource σ α] {n : ℕ} {t : Task α n} {p : Params α}
  {I : State α n → Prop} {φ : Member α n → Prop}

omit [Scalar α] [DrawSource σ α] in
theorem length_of_membersAt {population parents : List (Member α n)} {places : List ℕ}
    (h : membersAt population places = some parents) : parents.length = places.length :=
  (forall₂_of_mapM_eq_some h).length_eq.symm

/-- A child has what every child of the families has that may be selected. -/
theorem bear_sustains {ψ : List ℕ → Prop} {F G : Fault α → Prop} {rates : Rates α}
    {population : List (Member α n)} (hmarry : Meets ψ F (marry p : ChoiceM σ α (List ℕ)))
    (hconceive : ∀ places parents, ψ places → membersAt population places = some parents →
      Meets (fun q => ∀ c, φ ⟨q.2, q.1, c⟩) G
        (conceive t.region p rates parents : ChoiceM σ α (Point α n × Point α n))) :
    Sustains I (bear t p rates population : SearchM σ α n (State α n) (Member α n)) φ := by
  apply Sustains.bind (.drawOr hmarry)
  intro places hplaces
  cases hparents : membersAt population places with
  | none => exact .throw
  | some parents =>
    apply Sustains.bind (.use _)
    intro _ _
    apply Sustains.bind (.drawOr (hconceive places parents hplaces hparents))
    intro child hchild
    exact .bind (.trial _) fun v _ => .pure (hchild _)

theorem bearAll_sustains {rates : Rates α} {population : List (Member α n)}
    (h : Sustains I (bear t p rates population : SearchM σ α n (State α n) (Member α n)) φ) (k : ℕ) :
    Sustains I (bearAll t p rates population k : SearchM σ α n (State α n) (List (Member α n)))
      fun children => ∀ m ∈ children, φ m := by
  induction k with
  | zero => exact .pure (List.forall_mem_nil _)
  | succ k ih =>
    apply Sustains.bind .withinBudget
    intro b _
    apply Sustains.ite
    · intro _
      apply Sustains.bind h
      intro child hchild
      exact .bind ih fun others hothers => .pure (List.forall_mem_cons.mpr ⟨hchild, hothers⟩)
    · exact fun _ => .pure (List.forall_mem_nil _)

/-- Nothing is changed of what is kept by children that are born, however many they are. -/
theorem own_bearAll (t : Task α n) (p : Params α) (rates : Rates α) (population : List (Member α n))
    (k : ℕ) (c : Course σ α n (State α n)) :
    ((bearAll t p rates population k).run c).2.own = c.own := by
  have hbear : Sustains (fun own => own = c.own)
      (bear t p rates population : SearchM σ α n (State α n) (Member α n)) fun _ => True :=
    bear_sustains (.attained _) fun _ _ _ _ => (Meets.attained _).mono fun _ _ _ => trivial
  exact (bearAll_sustains hbear k).run rfl

end

variable {σ : Type} [DrawSource σ ℝ] {n : ℕ} {t : Task ℝ n} {p : Params ℝ} {rates : Rates ℝ}

/-- A member of the region with positive step sizes. -/
structure Member.IsViable (r : Region ℝ n) (m : Member ℝ n) : Prop where
  feasible : r.Feasible m.point
  steps : ∀ i, 0 < m.steps.get i

/-- How a family has a child, whatever the learning rates are. -/
structure Reproduces (σ : Type) [DrawSource σ ℝ] (r : Region ℝ n) (p : Params ℝ)
    (parents : List (Member ℝ n)) : Prop where
  steps (rates : Rates ℝ) : Chooses (fun s => ∀ i, 0 < s.get i)
    (childSteps rates (parents.map (·.steps)) : ChoiceM σ ℝ (Point ℝ n))
  mixed : Chooses (IsMixture r (parents.map (·.point)))
    (recombine r (parents.map (·.point)) : ChoiceM σ ℝ (Point ℝ n))
  -- Drawing a variation meets a fault only where an integer variable has no words between its bounds.
  drawn : Meets (Variation.Fits r) (fun f => f = .emptyRange ∧ ¬HasWords r)
    (Variation.draw r p : ChoiceM σ ℝ (Variation ℝ n))
  varied {x : Point ℝ n} (hx : IsMixture r (parents.map (·.point)) x) {v : Variation ℝ n}
    (hv : v.Fits r) (steps : Point ℝ n) : Varied r x v (r.clamp (v.apply x steps))
  child (rates : Rates ℝ) : (conceive r p rates parents : ChoiceM σ ℝ (Point ℝ n × Point ℝ n)) = do
    let steps ← childSteps rates (parents.map (·.steps))
    let x ← recombine r (parents.map (·.point))
    let v ← Variation.draw r p
    pure (steps, r.clamp (v.apply x steps))

theorem reproduces (hunit : UnitDraws σ) (p : Params ℝ) {r : Region ℝ n} {parents : List (Member ℝ n)}
    (hsome : parents ≠ []) (h : ∀ m ∈ parents, m.IsViable r) : Reproduces σ r p parents := by
  have hsteps : parents.map (·.steps) ≠ [] := List.map_eq_nil_iff.not.mpr hsome
  have hpoints : parents.map (·.point) ≠ [] := List.map_eq_nil_iff.not.mpr hsome
  refine ⟨fun rates => childSteps_pos rates hsteps ?_,
    recombine_isMixture hpoints (donors_chooses hunit hpoints),
    Variation.draw_meets p fun hnone => ⟨rfl, hnone⟩,
    fun hx v hv steps => hv.varied (hx.feasible ?_) steps, fun rates => ?_⟩
  · intro s hs
    obtain ⟨m, hm, rfl⟩ := List.mem_map.mp hs
    exact (h m hm).steps
  · intro x hx
    obtain ⟨m, hm, rfl⟩ := List.mem_map.mp hx
    exact (h m hm).feasible
  · unfold conceive
    simp only [mutate_eq, map_eq_pure_bind, bind_assoc, pure_bind]

theorem Reproduces.conceive_meets {r : Region ℝ n} {parents : List (Member ℝ n)}
    (h : Reproduces σ r p parents) (rates : Rates ℝ) :
    Meets (fun q => ∀ c, Member.IsViable r ⟨q.2, q.1, c⟩) (fun f => f = .emptyRange ∧ ¬HasWords r)
      (conceive r p rates parents : ChoiceM σ ℝ (Point ℝ n × Point ℝ n)) := by
  rw [h.child]
  apply Meets.bind ((h.steps rates).mono_fault fun _ => False.elim)
  intro steps hsteps
  apply Meets.bind (h.mixed.mono_fault fun _ => False.elim)
  intro x hx
  apply Meets.bind h.drawn
  intro v hv
  exact .pure fun c => ⟨(h.varied hx hv steps).feasible, hsteps⟩

/-- All members are viable. -/
def Thrives (r : Region ℝ n) (s : State ℝ n) : Prop := ∀ m ∈ s.population, m.IsViable r

theorem generation_thrives (hunit : UnitDraws σ) (hfit : p.FamiliesFit) (rates : Rates ℝ) :
    Sustains (Thrives t.region) (generation t p rates : SearchM σ ℝ n (State ℝ n) Unit)
      fun _ => True := by
  apply Sustains.own_bind
  intro s hs
  have hbear : Sustains (Thrives t.region)
      (bear t p rates s.population : SearchM σ ℝ n (State ℝ n) (Member ℝ n))
      (Member.IsViable t.region) := by
    refine bear_sustains (G := fun f => f = .emptyRange ∧ ¬HasWords t.region)
      (marry_chooses hunit hfit.few) ?_
    intro places parents hplaces hparents
    have hsome : parents ≠ [] := by
      rw [← List.length_pos_iff, length_of_membersAt hparents, hplaces.1]
      exact hfit.some
    exact (reproduces hunit p hsome fun m hm =>
      hs m (mem_of_mem_membersAt hparents m hm)).conceive_meets rates
  apply Sustains.bind (bearAll_sustains hbear p.children)
  intro children hchildren
  refine .bind (.modifyOwn ?_) fun _ _ => .modifyLedger _
  · intro _ _ m hm
    have hranked : m ∈ Cost.rank (·.cost) (s.population ++ children) := List.mem_of_mem_take hm
    rcases List.mem_append.mp ((Cost.rank_perm _ _).mem_iff.mp hranked) with hold | hnew
    · exact hs m hold
    · exact hchildren m hnew

theorem found_thrives (hstarts : ∀ x ∈ t.starts, t.region.Feasible x) (hp : p.IsNumeric) {step : ℝ}
    (hstep : p.stepSize = .ok step) (hpos : 0 < step) :
    Sustains (Thrives t.region) (found t p : SearchM σ ℝ n (State ℝ n) Unit) fun _ => True := by
  have hfirst (i : Fin n) : 0 < (p.firstSteps n).get i := by
    unfold Params.firstSteps Point.fill
    rw [Point.get_ofFn, hstep]
    exact hpos
  apply Sustains.bind (.drawOr (Population.points_meets (F := fun _ => False) hstarts _ _ hp.spread))
  intro points hpoints
  have hkeep (x : Point ℝ n) (hx : x ∈ points) (c : Cost ℝ) (own : State ℝ n)
      (hown : Thrives t.region own) : Thrives t.region (keepFirst p ⟨x, c⟩ own) := by
    intro m hm
    rcases List.mem_append.mp hm with hold | hnew
    · exact hown m hold
    · rw [List.mem_singleton.mp hnew]
      exact ⟨hpoints x hx, hfirst⟩
  apply Sustains.bind (.modifyOwn fun _ _ m hm => nomatch hm)
  intro _ _
  apply Sustains.bind (.evaluateAll hkeep)
  intro _ _
  exact .modifyOwn fun own hown m hm => hown m ((Cost.rank_perm _ _).mem_iff.mp hm)

theorem upTo_thrives (hunit : UnitDraws σ) (hstarts : ∀ x ∈ t.starts, t.region.Feasible x)
    (hp : p.IsNumeric) (hfit : p.FamiliesFit) {step : ℝ} (hstep : p.stepSize = .ok step)
    (hpos : 0 < step) (k : ℕ) :
    Sustains (Thrives t.region) (upTo t p k : SearchM σ ℝ n (State ℝ n) Unit) fun _ => True := by
  apply Sustains.bind (.use _)
  intro learning _
  apply Sustains.bind (.modifyOwn fun own hown m hm => hown m hm)
  intro _ _
  apply Sustains.bind (.modifyLedger _)
  intro _ _
  exact .bind (found_thrives hstarts hp hstep hpos) fun _ _ =>
    .roundsWithin (generation_thrives hunit hfit _) k

/-- However far an evolution gets, and however it ends, all step sizes are positive.  Any family of its
population has a child: before it is varied, it lies between its parents in every real variable and has
a parent's value in every integer variable; then an integer variable is kept or is drawn anew between
the bounds, and a real variable is moved by a normal number if that is not zero.  However many children
are born, nothing is changed in the population meanwhile. -/
theorem families_reproduce (σ : Type) [DrawSource σ ℝ] (hunit : UnitDraws σ) {n : ℕ} (t : Task ℝ n)
    (p : Params ℝ) (hstarts : ∀ x ∈ t.starts, t.region.Feasible x) (hp : p.IsNumeric)
    (hfit : p.FamiliesFit) (step : ℝ) (hstep : p.stepSize = .ok step) (hpos : 0 < step) (draws : σ)
    (k : ℕ) (answer : Except (Halt ℝ) Unit) (d : Course σ ℝ n (State ℝ n))
    (hd : (upTo t p k).run (.started t draws {}) = (answer, d)) :
    (∀ m ∈ d.own.population, t.region.Feasible m.point ∧ ∀ i, 0 < m.steps.get i) ∧
    (∀ places : List ℕ, places ≠ [] → (∀ i ∈ places, i < d.own.population.length) →
      ∃ parents, membersAt d.own.population places = some parents ∧
        parents.length = places.length ∧ (∀ m ∈ parents, m ∈ d.own.population) ∧
        Reproduces σ t.region p parents) ∧
    ∀ (rates : Rates ℝ) (count : ℕ) (c : Course σ ℝ n (State ℝ n)),
      ((bearAll t p rates d.own.population count).run c).2.own = c.own := by
  have hthrives : Thrives t.region d.own := by
    have hrun := (upTo_thrives hunit hstarts hp hfit hstep hpos k).run
      (c := .started t draws {}) fun m hm => nomatch hm
    rwa [hd] at hrun
  refine ⟨fun m hm => ⟨(hthrives m hm).feasible, (hthrives m hm).steps⟩, fun places hsome hplaces => ?_,
    fun rates count c => own_bearAll t p rates d.own.population count c⟩
  obtain ⟨parents, hparents, hlength⟩ := membersAt_eq_some d.own.population hplaces
  have hmem := mem_of_mem_membersAt hparents
  refine ⟨parents, hparents, hlength, hmem, reproduces hunit p ?_ fun m hm => hthrives m (hmem m hm)⟩
  rw [← List.length_pos_iff, hlength]
  exact List.length_pos_iff.mpr hsome

/-- A real and an integer variable from zero to three. -/
noncomputable def slab : Region ℝ 2 where
  lower := .ofFn fun _ => 0
  upper := .ofFn fun _ => 3.0
  integral := #v[false, true]
  nonempty := Nat.two_pos
  finite _ := ⟨rfl, rfl⟩
  ordered i := by
    rw [Point.get_ofFn, Point.get_ofFn]
    norm_num
  whole i _ := by
    have hwhole {x : ℝ} (k : ℤ) (hx : x = k) : Scalar.same x (Scalar.nearest x) = true := by
      rw [hx, Scalar.same_real, Scalar.nearest_real, roundHalfEven_intCast]
    rw [Point.get_ofFn, Point.get_ofFn]
    exact ⟨hwhole 0 Int.cast_zero.symm, hwhole 3 (by norm_num)⟩

/-- The first coordinate is made small, from two start points. -/
noncomputable def leastOnSlab : Task ℝ 2 where
  region := slab
  objective x _ := .ok (.finite (x.get ⟨0, Nat.two_pos⟩))
  budget := 4
  starts := [#v[0, 1], #v[2.0, 3.0]]
  checked := false

/-- Two members that are the parents of every child, whose integer variables are always drawn anew. -/
noncomputable def couple : Params ℝ := ⟨2, 2, 2, .random, .uniform, .ok 1, .ok 1, .ok 1, 1⟩

noncomputable def halfDraws : UnitTape :=
  ⟨⟨fun _ => 0.5, fun _ => 0⟩, fun _ => ⟨by norm_num, by norm_num⟩⟩

theorem bounds_slab (i : Fin 2) : slab.lower.get i = ((0 : ℤ) : ℝ) ∧ slab.upper.get i = ((3 : ℤ) : ℝ) :=
  ⟨(Point.get_ofFn _ i).trans Int.cast_zero.symm, (Point.get_ofFn _ i).trans (by norm_num)⟩

theorem feasible_slab {a : ℝ} {k : ℤ} (ha : 0 ≤ a ∧ a ≤ 3) (hk : 0 ≤ k ∧ k ≤ 3) :
    slab.Feasible #v[a, (k : ℝ)] := by
  have hin : ((0 : ℤ) : ℝ) ≤ k ∧ (k : ℝ) ≤ (3 : ℤ) := by exact_mod_cast hk
  refine ⟨fun i => ?_, fun i hi => ?_⟩
  · rw [(bounds_slab i).1, (bounds_slab i).2]
    fin_cases i
    · exact_mod_cast ha
    · exact hin
  · fin_cases i
    · exact nomatch hi
    · exact ⟨k, rfl⟩

theorem hasWords_slab : HasWords slab := by
  refine hasWords_of_lt fun i _ => ?_
  rw [(bounds_slab i).2]
  norm_num

/-- Half way through the four integers there is the two. -/
theorem run_resample_slab :
    (resample slab 1 : ChoiceM UnitTape ℝ ℝ).run halfDraws = (.ok 2, halfDraws) := by
  obtain ⟨hlower, hupper⟩ := bounds_slab 1
  have hlow : lowWord slab 1 = 0 := by
    unfold lowWord
    rw [hlower, truncate_intCast]
    rfl
  have hcount : wordCount slab 1 = 4 := by
    unfold wordCount
    rw [hlow, hupper, truncate_intCast]
    rfl
  have hfloor : Scalar.floor ((0.5 : ℝ) * Scalar.ofInt 4) = 2 := by
    show ⌊(0.5 : ℝ) * ((4 : ℤ) : ℝ)⌋ = 2
    norm_num
  unfold resample
  rw [hcount, hlow]
  show (Except.ok ((0 + min (Scalar.floor ((0.5 : ℝ) * Scalar.ofInt 4)) (4 - 1) : ℤ) : ℝ),
    halfDraws) = _
  rw [hfloor]
  norm_num

theorem run_draw_slab :
    (Variation.draw slab couple : ChoiceM UnitTape ℝ (Variation ℝ 2)).run halfDraws =
      (.ok ⟨#v[some 0, none], #v[none, some 2]⟩, halfDraws) := by
  have hflags : slab.integral.get 0 = false ∧ slab.integral.get 1 = true := ⟨rfl, rfl⟩
  have hlt : (0.5 : ℝ) < couple.mutation := by
    show (0.5 : ℝ) < 1
    norm_num
  have hmoves : (ChoiceM.draw (drawMoves slab) : ChoiceM UnitTape ℝ _).run halfDraws =
      (.ok #v[some 0, none], halfDraws) := by
    unfold drawMoves
    rw [ofFnM_two, Point.get_map, Point.get_map, hflags.1, hflags.2]
    rfl
  have huniforms : (ChoiceM.draw (Draw.uniforms 2) : ChoiceM UnitTape ℝ (Point ℝ 2)).run halfDraws =
      (.ok #v[0.5, 0.5], halfDraws) := by
    unfold Draw.uniforms
    rw [ofFnM_two]
    rfl
  have hanew : (drawAnew slab couple : ChoiceM UnitTape ℝ _).run halfDraws =
      (.ok #v[none, some 2], halfDraws) := by
    have hchosen : decide ((#v[0.5, 0.5] : Point ℝ 2).get 1 < couple.mutation) = true :=
      decide_eq_true hlt
    unfold drawAnew
    rw [if_pos (slab.hasIntegers_of_integral hflags.2), run_bind_of_ok huniforms]
    dsimp only
    rw [requireWords_eq_pure fun i hi => hasWords_slab i (Bool.and_eq_true_iff.mp hi).1, pure_bind,
      ofFnM_two]
    simp only [hflags.1, hflags.2, hchosen, Bool.false_and, Bool.true_and, Bool.false_eq_true, if_false,
      if_true, pure_bind, map_eq_pure_bind, bind_assoc]
    rw [run_bind_of_ok run_resample_slab]
    rfl
  unfold Variation.draw
  rw [run_bind_of_ok hmoves, run_bind_of_ok hanew]
  rfl

/-- Two members found from the start points are a family.  Drawn by halves, its children have a two for
their integer variable, which neither parent has, and what they inherit for the real one. -/
theorem families_reproduce_couple :
    UnitDraws UnitTape ∧ couple.IsNumeric ∧ couple.FamiliesFit ∧ couple.stepSize = .ok 1 ∧ (0 : ℝ) < 1 ∧
      ∃ d, (upTo leastOnSlab couple 0).run (.started leastOnSlab halfDraws {}) = (.ok (), d) ∧
        d.own.population.length = 2 ∧ (∀ m ∈ d.own.population, ∀ i, 0 < m.steps.get i) ∧
        ∃ parents, membersAt d.own.population [0, 1] = some parents ∧ parents.length = 2 ∧
          ∃ v, (Variation.draw slab couple).run halfDraws = (.ok v, halfDraws) ∧
            ∀ x, IsMixture slab (parents.map (·.point)) x → ∀ steps,
              (slab.clamp (v.apply x steps)).get 0 = x.get 0 ∧
                (slab.clamp (v.apply x steps)).get 1 = 2 := by
  have hp : couple.IsNumeric := ⟨⟨_, rfl⟩, ⟨_, rfl⟩, ⟨_, rfl⟩⟩
  have hfit : couple.FamiliesFit := ⟨Nat.two_pos, le_rfl⟩
  have hf : leastOnSlab.objective.IsProper := fun _ _ c _ => Cost.isProper_real c
  have hflags : slab.integral.get 0 = false ∧ slab.integral.get 1 = true := ⟨rfl, rfl⟩
  have hstarts : ∀ x ∈ leastOnSlab.starts, slab.Feasible x := by
    have hfirst := feasible_slab (a := 0) (k := 1) (by norm_num) (by decide)
    have hsecond := feasible_slab (a := 2.0) (k := 3) (by norm_num) (by decide)
    have hthree : ((3 : ℤ) : ℝ) = 3.0 := by norm_num
    rw [Int.cast_one] at hfirst
    rw [hthree] at hsecond
    exact List.forall_mem_cons.mpr ⟨hfirst, List.forall_mem_singleton.mpr hsecond⟩
  let c : Course UnitTape ℝ 2 (State ℝ 2) := .started leastOnSlab halfDraws {}
  have hok : ((upTo leastOnSlab couple 0).run c).1.isOk = true := by decide +kernel
  have hselected := upTo_selected hf (rfl : couple.learning = .ok 1) 0 c
    ⟨Course.balanced_started leastOnSlab halfDraws ({} : State ℝ 2), rfl⟩
  rcases hd : (upTo leastOnSlab couple 0).run c with ⟨e | _, d⟩
  · rw [hd] at hok
    exact nomatch hok
  · rw [hd] at hselected
    obtain ⟨born, -, hfull, hpopulation⟩ := hselected
    have hlength : d.own.population.length = 2 := by
      rw [hpopulation, List.length_take, Cost.length_rank]
      exact min_eq_left hfull
    obtain ⟨hviable, hfamilies, -⟩ := families_reproduce UnitTape unitDraws_unitTape leastOnSlab couple
      hstarts hp hfit 1 rfl one_pos halfDraws 0 _ d hd
    obtain ⟨parents, hparents, htwo, -, (hreproduces : Reproduces UnitTape slab couple parents)⟩ :=
      hfamilies [0, 1] (List.cons_ne_nil _ _) (by rw [hlength]; decide)
    have hfits := hreproduces.drawn halfDraws
    rw [run_draw_slab] at hfits
    refine ⟨unitDraws_unitTape, hp, hfit, rfl, one_pos, d, rfl, hlength, fun m hm => (hviable m hm).2,
      parents, hparents, htwo, _, run_draw_slab, fun x hx steps => ?_⟩
    have hvaried := hreproduces.varied hx hfits steps
    constructor
    · obtain ⟨z, hz, hstill⟩ := hvaried.moved 0 hflags.1
      exact hstill (Option.some.inj hz).symm
    · rw [hvaried.drawn 1 hflags.2 2 rfl]
      have htwo := (feasible_slab (a := 0) (k := 2) (by norm_num) (by decide)).1 1
      exact slab.clampAt_eq_self (by exact_mod_cast htwo)

end Evolution

end BoxSearch
