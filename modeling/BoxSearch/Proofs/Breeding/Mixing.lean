import Mathlib
import BoxSearch.Proofs.Kept.Genetic

/-!
# Mixing real variables

Two real values are mixed at a place that is drawn on the line through them, a little beyond them at
either end, and the two mixtures are opposite to each other.  Now and then both are mutated by a step
that is at most a fraction of the width.  All draws can be made before the parents are looked at, so
that what a variable inherits is a function of them.
-/

namespace BoxSearch.Genetic

/-! ## 1. Draws -/

/-- What is drawn for a step: its direction, and how far its length decays. -/
structure Leap (α : Type) where
  direction : α
  decay : α

/-- What is drawn to mix two values: where the mixtures lie, and two steps if they are mutated. -/
structure Blend (α : Type) where
  place : α
  leaps : Option (Leap α × Leap α)

section

variable {σ α : Type} [Scalar α] [DrawSource σ α]

def Leap.draw : StateM σ (Leap α) := do
  let direction ← DrawSource.uniform
  let decay ← DrawSource.uniform
  pure ⟨direction, decay⟩

/-- The step along `scale`, halved up to `precision` times. -/
def Leap.step (precision scale : α) (l : Leap α) : α :=
  (2.0 * l.direction - 1.0) * scale * Scalar.powTwo (-l.decay * precision)

namespace Blend

def draw (p : Params α) : StateM σ (Blend α) := do
  let place ← DrawSource.uniform
  let u ← DrawSource.uniform
  if u ≤ p.mutation then
    let first ← Leap.draw
    let second ← Leap.draw
    pure ⟨place, some (first, second)⟩
  else pure ⟨place, none⟩

/-- The part of the first value in the first mixture. -/
def weight (reach : α) (d : Blend α) : α := -reach + (1.0 + reach - -reach) * d.place

/-- The mixtures of two values, mutated if they are. -/
def children (reach precision scale a b : α) (d : Blend α) : α × α :=
  let mix := d.weight reach
  let mixtures := (a * mix + b * (1.0 - mix), b * mix + a * (1.0 - mix))
  match d.leaps with
  | none => mixtures
  | some (first, second) =>
    (mixtures.1 + first.step precision scale, mixtures.2 + second.step precision scale)

/-- What two children inherit of two values: mixtures, or the values where they are not crossed. -/
def inherited (reach precision scale a b : α) (d : Option (Blend α)) : α × α :=
  (d.map (children reach precision scale a b)).getD (a, b)

/-- What is drawn for a real variable; nothing more if it is not crossed. -/
def drawIfCrossed (p : Params α) : StateM σ (Option (Blend α)) := do
  let u ← DrawSource.uniform
  if p.crossing < u then pure none else some <$> draw p

end Blend

/-! ## 2. Draws come first -/

/-- The settings of mixtures and of mutations are these numbers. -/
structure Params.Mixes (p : Params α) (reach range precision : α) : Prop where
  reach : p.reach = .ok reach
  range : p.mutationRange = .ok range
  precision : p.precision = .ok precision

variable {p : Params α} {reach range precision : α}

theorem mutationStep_eq (hp : p.Mixes reach range precision) (scale : α) :
    (mutationStep p scale : ChoiceM σ α α) = Leap.step precision scale <$> .draw Leap.draw := by
  unfold mutationStep
  rw [hp.precision]
  rfl

end

section

variable {σ : Type} [DrawSource σ ℝ] {n : ℕ} {p : Params ℝ} {reach range precision : ℝ}
  (r : Region ℝ n) (i : Fin n) (a b : ℝ)

theorem crossReal_eq (hp : p.Mixes reach range precision) :
    (crossReal r p i (.ok a) (.ok b) : ChoiceM σ ℝ (ℝ × ℝ)) =
      Blend.children reach precision (range * Scalar.abs (r.upper.get i - r.lower.get i)) a b <$>
        .draw (Blend.draw p) := by
  unfold crossReal Blend.draw
  simp only [hp.reach, hp.range, ChoiceM.use_ok_bind, mutationStep_eq hp, ChoiceM.draw_bind,
    Draw.between_real, bind_assoc, pure_bind, map_bind]
  refine bind_congr fun place => bind_congr fun u => ?_
  split
  · rfl
  · rfl

theorem crossVariable_eq {i : Fin n} (hi : r.integral.get i = false) (length : ℕ)
    (hp : p.Mixes reach range precision) :
    (crossVariable r p length i (.ok a) (.ok b) : ChoiceM σ ℝ (Option (ℝ × ℝ))) =
      Option.map (Blend.children reach precision
        (range * Scalar.abs (r.upper.get i - r.lower.get i)) a b) <$>
        .draw (Blend.drawIfCrossed p) := by
  unfold crossVariable Blend.drawIfCrossed
  simp only [ChoiceM.draw_bind, map_bind, crossReal_eq r i a b hp, hi]
  refine bind_congr fun u => ?_
  split
  · rfl
  · rfl

end

/-! ## 3. Bounds -/

/-- What lies between two values, and beyond them by a part `reach` of their distance and a margin. -/
def vicinity (reach margin a b : ℝ) : Set ℝ :=
  Set.Icc (min a b - reach * |a - b| - margin) (max a b + reach * |a - b| + margin)

/-- All numbers that are drawn lie in the unit interval. -/
structure Leap.IsUnit (l : Leap ℝ) : Prop where
  direction : 0 ≤ l.direction ∧ l.direction < 1
  decay : 0 ≤ l.decay ∧ l.decay < 1

structure Blend.IsUnit (d : Blend ℝ) : Prop where
  place : 0 ≤ d.place ∧ d.place < 1
  leaps : ∀ l ∈ d.leaps, l.1.IsUnit ∧ l.2.IsUnit

variable {reach range precision : ℝ}

/-- A step is never longer than its scale. -/
theorem Leap.abs_step_le {l : Leap ℝ} (hl : l.IsUnit) (hprecision : 0 ≤ precision) {scale : ℝ}
    (hscale : 0 ≤ scale) : |l.step precision scale| ≤ scale := by
  have htwo : (2.0 : ℝ) = 2 := by norm_num
  have hdirection : |2 * l.direction - 1| ≤ 1 := by
    rw [abs_le]
    constructor
    · linarith [hl.direction.1]
    · linarith [hl.direction.2]
  have hdecay : |(2 : ℝ) ^ (-l.decay * precision)| ≤ 1 := by
    rw [abs_of_pos (Real.rpow_pos_of_pos two_pos _)]
    apply Real.rpow_le_one_of_one_le_of_nonpos one_le_two
    rw [neg_mul]
    exact neg_nonpos.mpr (mul_nonneg hl.decay.1 hprecision)
  calc |l.step precision scale|
      = |2 * l.direction - 1| * scale * |(2 : ℝ) ^ (-l.decay * precision)| := by
        unfold Leap.step
        rw [htwo, Scalar.one_real, abs_mul, abs_mul, abs_of_nonneg hscale]
        rfl
    _ ≤ 1 * scale * 1 := by gcongr
    _ = scale := by ring

namespace Blend

theorem weight_mem {d : Blend ℝ} (hd : d.IsUnit) (hreach : 0 ≤ reach) :
    d.weight reach ∈ Set.Icc (-reach) (1 + reach) := by
  have hwidth : 0 ≤ 1 + reach - -reach := by linarith
  unfold weight
  rw [Scalar.one_real]
  constructor
  · exact le_add_of_nonneg_right (mul_nonneg hwidth hd.place.1)
  · linarith [mul_le_mul_of_nonneg_left hd.place.2.le hwidth]

/-- A mixture lies as far beyond the values as its weight beyond zero and one. -/
theorem mixture_mem {w : ℝ} (hw : w ∈ Set.Icc (-reach) (1 + reach)) (a b : ℝ) :
    a * w + b * (1 - w) ∈ vicinity reach 0 a b := by
  obtain ⟨hlower, hupper⟩ := hw
  unfold vicinity
  rw [sub_zero, add_zero]
  rcases le_total a b with h | h
  · rw [min_eq_left h, max_eq_right h, abs_sub_comm, abs_of_nonneg (sub_nonneg.mpr h)]
    constructor <;> nlinarith
  · rw [min_eq_right h, max_eq_left h, abs_of_nonneg (sub_nonneg.mpr h)]
    constructor <;> nlinarith

end Blend

theorem vicinity_comm (reach margin a b : ℝ) :
    vicinity reach margin a b = vicinity reach margin b a := by
  unfold vicinity
  rw [min_comm, max_comm, abs_sub_comm]

theorem add_mem_vicinity {x s margin a b : ℝ} (hx : x ∈ vicinity reach 0 a b) (hs : |s| ≤ margin) :
    x + s ∈ vicinity reach margin a b := by
  obtain ⟨hlower, hupper⟩ := hx
  obtain ⟨hback, hforth⟩ := abs_le.mp hs
  constructor
  · linarith
  · linarith

/-- How close two children are to two values, from which they are mixed with steps up to `scale`. -/
structure Blend.Near (reach scale a b : ℝ) (d : Blend ℝ) (q : ℝ × ℝ) : Prop where
  sum : d.leaps = none → q.1 + q.2 = a + b
  mixed : d.leaps = none → q.1 ∈ vicinity reach 0 a b ∧ q.2 ∈ vicinity reach 0 a b
  mutated : q.1 ∈ vicinity reach scale a b ∧ q.2 ∈ vicinity reach scale a b

theorem Blend.near_children {d : Blend ℝ} (hd : d.IsUnit) (hreach : 0 ≤ reach)
    (hprecision : 0 ≤ precision) {scale : ℝ} (hscale : 0 ≤ scale) (a b : ℝ) :
    d.Near reach scale a b (d.children reach precision scale a b) := by
  have hweight := weight_mem hd hreach
  have hfirst := mixture_mem hweight a b
  have hsecond := mixture_mem hweight b a
  rw [vicinity_comm] at hsecond
  unfold children
  rw [Scalar.one_real]
  rcases d with ⟨place, _ | ⟨first, second⟩⟩
  · have hzero : |(0 : ℝ)| ≤ scale := abs_zero.trans_le hscale
    refine ⟨fun _ => ?_, fun _ => ⟨hfirst, hsecond⟩, ?_⟩
    · dsimp only
      ring
    · rw [← add_zero (Prod.fst _), ← add_zero (Prod.snd _)]
      exact ⟨add_mem_vicinity hfirst hzero, add_mem_vicinity hsecond hzero⟩
  · obtain ⟨hl, hl'⟩ := hd.leaps _ rfl
    exact ⟨(nomatch ·), (nomatch ·),
      add_mem_vicinity hfirst (first.abs_step_le hl hprecision hscale),
      add_mem_vicinity hsecond (second.abs_step_le hl' hprecision hscale)⟩

/-! ## 4. Children -/

variable {σ : Type} [DrawSource σ ℝ] {p : Params ℝ}

theorem Leap.draw_gives (hunit : UnitDraws σ) : Gives Leap.IsUnit (Leap.draw : StateM σ (Leap ℝ)) :=
  .bind hunit fun _ hdirection => .bind hunit fun _ hdecay => .pure ⟨hdirection, hdecay⟩

theorem Blend.draw_gives (hunit : UnitDraws σ) (p : Params ℝ) :
    Gives Blend.IsUnit (Blend.draw p : StateM σ (Blend ℝ)) := by
  refine .bind hunit fun place hplace => .bind hunit fun u _ => .ite (fun _ => ?_) fun _ => ?_
  · refine .bind (Leap.draw_gives hunit) fun first hfirst =>
      .bind (Leap.draw_gives hunit) fun second hsecond => .pure ⟨hplace, fun l hl => ?_⟩
    rw [← Option.some.inj hl]
    exact ⟨hfirst, hsecond⟩
  · exact .pure ⟨hplace, fun l hl => nomatch hl⟩

theorem Blend.drawIfCrossed_gives (hunit : UnitDraws σ) (p : Params ℝ) :
    Gives (fun o => ∀ d ∈ o, d.IsUnit) (Blend.drawIfCrossed p : StateM σ (Option (Blend ℝ))) := by
  refine .bind (.trivial _) fun u _ => .ite (fun _ => ?_) fun _ => ?_
  · exact .pure fun d hd => nomatch hd
  · rw [map_eq_pure_bind]
    refine .bind (Blend.draw_gives hunit p) fun d hd => .pure fun d' hd' => ?_
    rwa [← Option.some.inj hd']

variable {n : ℕ} {r : Region ℝ n}

/-- The fault of an integer variable in which a parent has no row of bits. -/
def IsUncoded (r : Region ℝ n) (lengths : Vector ℕ n) (a b : Point ℝ n) (f : Fault ℝ) : Prop :=
  ∃ i, r.integral.get i = true ∧
    ∃ x ∈ [a, b], encodeCoordinate r i (lengths.get i) (x.get i) = .error f

theorem inherits_first {lengths : Vector ℕ n} {a : Point ℝ n} (ha : r.Feasible a) (b : Point ℝ n)
    (i : Fin n) : Inherits r (IsUncoded r lengths a b) i (lengths.get i) (a.get i) :=
  ⟨ha.2 i, fun hi _ he => ⟨i, hi, a, List.mem_cons_self, he⟩⟩

theorem inherits_second {lengths : Vector ℕ n} (a : Point ℝ n) {b : Point ℝ n} (hb : r.Feasible b)
    (i : Fin n) : Inherits r (IsUncoded r lengths a b) i (lengths.get i) (b.get i) :=
  ⟨hb.2 i, fun hi _ he => ⟨i, hi, b, List.mem_cons_of_mem a List.mem_cons_self, he⟩⟩

/-- What is mutated in a variable is moved by at most a fraction of its width. -/
theorem scale_eq (i : Fin n) :
    range * Scalar.abs (r.upper.get i - r.lower.get i) = range * (r.upper.get i - r.lower.get i) :=
  congrArg (range * ·) (abs_of_nonneg (sub_nonneg.mpr (r.ordered i)))

/-- A real variable is inherited by what is drawn for it. -/
theorem inheritance_meets (hunit : UnitDraws σ) (hp : p.Mixes reach range precision) {i : Fin n}
    (hi : r.integral.get i = false) (length : ℕ) (a b : ℝ) {F : Fault ℝ → Prop} :
    Meets (fun q => ∃ o : Option (Blend ℝ), (∀ d ∈ o, d.IsUnit) ∧
        q = Blend.inherited reach precision (range * (r.upper.get i - r.lower.get i)) a b o) F
      (do
        let crossed ← crossVariable r p length i (.ok a) (.ok b)
        pure (crossed.getD (a, b)) : ChoiceM σ ℝ (ℝ × ℝ)) := by
  rw [crossVariable_eq r a b hi length hp, map_eq_pure_bind, bind_assoc, scale_eq]
  apply Meets.bind (.draw (Blend.drawIfCrossed_gives hunit p))
  intro o ho
  rw [pure_bind]
  exact .pure ⟨o, ho, rfl⟩

/-- What two children have in a real variable: what they inherit, clamped; and if the variable is not
crossed, each has what its own parent has. -/
structure Blend.Shows (r : Region ℝ n) (i : Fin n) (a b : ℝ) (o : Option (Blend ℝ))
    (inherited q : ℝ × ℝ) : Prop where
  unit : ∀ d ∈ o, d.IsUnit
  first : q.1 = r.clampAt i inherited.1
  second : q.2 = r.clampAt i inherited.2
  copied : o = none → q = (a, b)

theorem breed_shows (hunit : UnitDraws σ) (hp : p.Mixes reach range precision) (lengths : Vector ℕ n)
    {a b : Point ℝ n} (ha : r.Feasible a) (hb : r.Feasible b) :
    Meets (fun q => ∀ i, r.integral.get i = false → ∃ o : Option (Blend ℝ),
        Blend.Shows r i (a.get i) (b.get i) o (Blend.inherited reach precision
          (range * (r.upper.get i - r.lower.get i)) (a.get i) (b.get i) o) (q.1.get i, q.2.get i))
      (IsUncoded r lengths a b) (breed r p lengths a b : ChoiceM σ ℝ (Point ℝ n × Point ℝ n)) := by
  have hnumeric : p.IsNumeric := ⟨⟨_, hp.reach⟩, ⟨_, hp.range⟩, ⟨_, hp.precision⟩⟩
  -- Variable by variable: only integer variables are coded.
  have hpair (i : Fin n) : Meets
      (fun q => r.integral.get i = false → ∃ o : Option (Blend ℝ), (∀ d ∈ o, d.IsUnit) ∧
        q = Blend.inherited reach precision (range * (r.upper.get i - r.lower.get i)) (a.get i)
          (b.get i) o)
      (IsUncoded r lengths a b)
      (do
        let crossed ← crossVariable r p (lengths.get i) i (.ok (a.get i)) (.ok (b.get i))
        pure (crossed.getD (a.get i, b.get i)) : ChoiceM σ ℝ (ℝ × ℝ)) := by
    cases hi : r.integral.get i with
    | false => exact .mono (inheritance_meets hunit hp hi _ _ _) fun q hq _ => hq
    | true =>
      apply Meets.bind (crossVariable_meets hnumeric (inherits_first ha b i) (inherits_second a hb i))
      exact fun o _ => .pure fun hreal => nomatch hreal
  apply Meets.bind (.ofFnM hpair)
  intro pairs hpairs
  refine .pure fun i hi => ?_
  obtain ⟨o, hunits, ho⟩ := hpairs i hi
  unfold Region.clamp
  rw [Point.get_ofFn, Point.get_ofFn, Point.get_map, Point.get_map, ho]
  refine ⟨o, hunits, rfl, rfl, ?_⟩
  rintro rfl
  exact Prod.ext (r.clampAt_eq_self (ha.1 i)) (r.clampAt_eq_self (hb.1 i))

/-- Whether and how a real variable is crossed is drawn, and so is how it is mutated.  The two mixtures
add up to the parents and lie between them, but for a part of their distance at either end; a mutated
one lies a part of the width further off at most.  What is not crossed is copied, and all is clamped. -/
theorem children_near_parents (σ : Type) [DrawSource σ ℝ] (hunit : UnitDraws σ) {n : ℕ}
    (r : Region ℝ n) (p : Params ℝ) {reach range precision : ℝ}
    (hp : p.Mixes reach range precision) (hreach : 0 ≤ reach) (hrange : 0 ≤ range)
    (hprecision : 0 ≤ precision) :
    (∀ i, r.integral.get i = false → ∀ (length : ℕ) (a b : ℝ),
      (crossVariable r p length i (.ok a) (.ok b) : ChoiceM σ ℝ (Option (ℝ × ℝ))) =
        Option.map (Blend.children reach precision (range * (r.upper.get i - r.lower.get i)) a b) <$>
          .draw (Blend.drawIfCrossed p) ∧
      ∀ d : Blend ℝ, d.IsUnit → d.Near reach (range * (r.upper.get i - r.lower.get i)) a b
        (d.children reach precision (range * (r.upper.get i - r.lower.get i)) a b)) ∧
    Gives (fun o => ∀ d ∈ o, d.IsUnit) (Blend.drawIfCrossed p : StateM σ (Option (Blend ℝ))) ∧
    ∀ (lengths : Vector ℕ n) (a b : Point ℝ n), r.Feasible a → r.Feasible b →
      Meets (fun q => r.Feasible q.1 ∧ r.Feasible q.2 ∧
          ∀ i, r.integral.get i = false → ∃ o : Option (Blend ℝ),
            Blend.Shows r i (a.get i) (b.get i) o (Blend.inherited reach precision
              (range * (r.upper.get i - r.lower.get i)) (a.get i) (b.get i) o)
              (q.1.get i, q.2.get i))
        (IsUncoded r lengths a b) (breed r p lengths a b : ChoiceM σ ℝ (Point ℝ n × Point ℝ n)) := by
  have hnumeric : p.IsNumeric := ⟨⟨_, hp.reach⟩, ⟨_, hp.range⟩, ⟨_, hp.precision⟩⟩
  refine ⟨fun i hi length a b => ⟨?_, fun d hd => ?_⟩, Blend.drawIfCrossed_gives hunit p, ?_⟩
  · rw [crossVariable_eq r a b hi length hp, scale_eq]
  · exact Blend.near_children hd hreach hprecision
      (mul_nonneg hrange (sub_nonneg.mpr (r.ordered i))) a b
  · intro lengths a b ha hb
    apply Meets.mono ((breed_meets hnumeric (inherits_first ha b) (inherits_second a hb)).and
      (breed_shows hunit hp lengths ha hb))
    rintro q ⟨⟨hfirst, hsecond⟩, hshows⟩
    exact ⟨hfirst, hsecond, hshows⟩

/-- Zero and one are mixed to minus a tenth and eleven tenths at most, and on the unit square children
are clamped without a fault. -/
theorem children_near_parents_square :
    UnitDraws UnitTape ∧ pair.Mixes 0.1 0.1 16 ∧
      (let q : ℝ × ℝ := Blend.children 0.1 16 (0.1 * 1) 0 1 ⟨0, none⟩
       q.1 + q.2 = 1 ∧ q.1 ∈ Set.Icc (-0.1 : ℝ) 1.1 ∧ q.2 ∈ Set.Icc (-0.1 : ℝ) 1.1) ∧
      ∀ s : UnitTape, ∃ q s', (breed Region.square pair (.ofFn fun _ => 0) (Point.fill 2 0)
        (Point.fill 2 1)).run s = (.ok q, s') ∧ Region.square.Feasible q.1 ∧
          Region.square.Feasible q.2 := by
  have hp : pair.Mixes 0.1 0.1 16 := ⟨rfl, rfl, rfl⟩
  have hreal (i : Fin 2) : Region.square.integral.get i = false := Point.get_ofFn _ i
  have hlower : Region.square.lower.get 0 = 0 := Point.get_ofFn (fun _ => (0 : ℝ)) 0
  have hupper : Region.square.upper.get 0 = 1 := Point.get_ofFn (fun _ => (1 : ℝ)) 0
  obtain ⟨hgenes, -, hbreed⟩ := children_near_parents UnitTape unitDraws_unitTape Region.square pair hp
    (by norm_num) (by norm_num) (by norm_num)
  refine ⟨unitDraws_unitTape, hp, ?_, fun s => ?_⟩
  · have hnear := (hgenes 0 (hreal 0) 0 0 1).2 ⟨0, none⟩
      ⟨⟨le_rfl, zero_lt_one⟩, fun l hl => nomatch hl⟩
    rw [hlower, hupper, sub_zero] at hnear
    have hvicinity : vicinity 0.1 0 0 1 = Set.Icc (-0.1 : ℝ) 1.1 := by
      unfold vicinity
      norm_num
    obtain ⟨hsum, hmixed, -⟩ := hnear
    rw [hvicinity] at hmixed
    exact ⟨(hsum rfl).trans (zero_add 1), hmixed rfl⟩
  · have hfeasible (v : ℝ) (hv : 0 ≤ v ∧ v ≤ 1) : Region.square.Feasible (Point.fill 2 v) := by
      refine ⟨fun i => ?_, fun i hi => absurd hi (by rw [hreal i]; exact Bool.false_ne_true)⟩
      have hbounds : Region.square.lower.get i = 0 ∧ Region.square.upper.get i = 1 :=
        ⟨Point.get_ofFn (fun _ => (0 : ℝ)) i, Point.get_ofFn (fun _ => (1 : ℝ)) i⟩
      rw [hbounds.1, hbounds.2, show (Point.fill 2 v).get i = v from Point.get_ofFn ..]
      exact hv
    have hrun := hbreed (.ofFn fun _ => 0) _ _ (hfeasible 0 ⟨le_rfl, zero_le_one⟩)
      (hfeasible 1 ⟨zero_le_one, le_rfl⟩) s
    rcases hr : (breed Region.square pair (.ofFn fun _ => 0) (Point.fill 2 0) (Point.fill 2 1)).run s
      with ⟨f | q, s'⟩
    · rw [hr] at hrun
      obtain ⟨i, hi, -⟩ := hrun
      rw [hreal i] at hi
      exact nomatch hi
    · rw [hr] at hrun
      exact ⟨q, s', rfl, hrun.1, hrun.2.1⟩

end BoxSearch.Genetic
