import Mathlib
import BoxSearch.Proofs.Kept.Crossing

/-!
# Chances of zero

What happens with a chance of zero should not happen.  A draw decides on it, and a draw of the unit
interval is never below zero: particles are not mutated, and no integer is drawn anew for a child.  In a
genetic search a draw of zero itself counts as a hit, so that there it takes draws above zero: with them
variables are not crossed, no bit is flipped, and no step is added to a mixture.
-/

namespace BoxSearch

/-! ## 1. Draws that decide -/

/-- Zero is finite. -/
class Scalar.Grounded (α : Type) [Scalar α] : Prop extends Scalar.Linear α where
  isFinite_zero : Scalar.isFinite (0.0 : α) = true

instance : Scalar.Grounded ℝ where
  isFinite_zero := rfl

instance : Scalar.Grounded Float where
  isFinite_zero := by decide +kernel

/-- A finite scalar that compares as zero does. -/
structure Scalar.IsZero {α : Type} [Scalar α] (p : α) : Prop where
  finite : Scalar.isFinite p = true
  same : Scalar.same p 0.0 = true

/-- No uniform number of a source is below zero. -/
def NonnegDraws (σ : Type) {α : Type} [Scalar α] [DrawSource σ α] : Prop :=
  Gives (fun u : α => 0.0 ≤ u) (DrawSource.uniform : StateM σ α)

/-- Every uniform number of a source is above zero. -/
def PositiveDraws (σ : Type) {α : Type} [Scalar α] [DrawSource σ α] : Prop :=
  Gives (fun u : α => 0.0 < u) (DrawSource.uniform : StateM σ α)

namespace Scalar.IsZero

variable {α : Type} [Scalar α] {p u : α}

theorem le (hp : IsZero p) : p ≤ 0.0 := by
  have hsame := hp.same
  unfold Scalar.same at hsame
  rw [Bool.and_eq_true, decide_eq_true_iff, decide_eq_true_iff] at hsame
  exact hsame.1

variable [Scalar.Grounded α]

theorem not_lt_of_nonneg (hp : IsZero p) (hu : 0.0 ≤ u) : ¬u < p := fun hlt =>
  Scalar.Linear.not_lt_of_le hp.le (Scalar.lt_of_le_of_lt Scalar.Grounded.isFinite_zero hu hlt)

theorem lt_of_pos (hp : IsZero p) (hu : 0.0 < u) : p < u :=
  Scalar.lt_of_le_of_lt hp.finite hp.le hu

theorem not_le_of_pos (hp : IsZero p) (hu : 0.0 < u) : ¬u ≤ p := fun hle =>
  Scalar.Linear.not_lt_of_le hle (hp.lt_of_pos hu)

end Scalar.IsZero

theorem Point.map_eq {β γ : Type} {n : ℕ} {f : β → γ} {v : Vector β n} {x : Vector γ n}
    (h : ∀ i, f (v.get i) = x.get i) : v.map f = x := by
  refine Point.ext_get fun i => ?_
  rw [Point.get_map]
  exact h i

theorem Region.clamp_eq_self {α : Type} [Scalar α] [Scalar.Linear α] {n : ℕ} (r : Region α n)
    {x : Point α n} (hx : ∀ i, r.lower.get i ≤ x.get i ∧ x.get i ≤ r.upper.get i) : r.clamp x = x := by
  have hclamp (i : Fin n) : r.clampAt i (x.get i) = x.get i := by
    unfold clampAt Scalar.clamp
    rw [if_neg (Scalar.Linear.not_lt_of_le (hx i).1), if_neg (Scalar.Linear.not_lt_of_le (hx i).2)]
  unfold clamp
  rw [funext hclamp, Point.ofFn_get]

theorem ChoiceM.run_draw {σ α β : Type} (m : StateM σ β) (s : σ) :
    (ChoiceM.draw m : ChoiceM σ α β).run s = (.ok (m s).1, (m s).2) := rfl

/-- What follows a choice has to agree only on what may be chosen. -/
theorem ChoiceM.draw_bind_congr {σ α β γ : Type} {φ : β → Prop} {m : StateM σ β} (hm : Gives φ m)
    {f g : β → ChoiceM σ α γ} (h : ∀ b, φ b → f b = g b) :
    ChoiceM.draw m >>= f = ChoiceM.draw m >>= g := by
  funext s
  show (f (m s).1) (m s).2 = (g (m s).1) (m s).2
  rw [h _ (hm s)]

namespace Draw

variable {σ α : Type} [Scalar α] [DrawSource σ α] {n : ℕ}

/-- One uniform number for each variable, if there are integer variables: it decides whether its
variable is mutated. -/
def lots (r : Region α n) : StateM σ Unit :=
  if r.hasIntegers then do
    let _ : Point α n ← uniforms n
    pure ()
  else pure ()

theorem lots_bind {β : Type} (r : Region α n) (m : ChoiceM σ α β) :
    (do .draw (lots r); m) =
      if r.hasIntegers then (do let _ : Point α n ← .draw (uniforms n); m) else m := by
  unfold lots
  split_ifs
  · rfl
  · rfl

omit [Scalar α] in
theorem normalsWhere_none {flags : Vector Bool n} (h : ∀ i, flags.get i = false) (x : Point α n)
    (f : Fin n → α → α) : (normalsWhere flags x f : StateM σ (Point α n)) = pure x := by
  unfold normalsWhere
  simp only [h, Bool.false_eq_true, if_false]
  rw [Vector.ofFnM_pure, Point.ofFn_get]

theorem uniforms_nonneg (hdraws : NonnegDraws σ) :
    Gives (fun u : Point α n => ∀ i, 0.0 ≤ u.get i) (uniforms n : StateM σ (Point α n)) :=
  .ofFnM (φ := fun _ (u : α) => 0.0 ≤ u) fun _ => hdraws

end Draw

theorem Gives.times {σ β : Type} {φ : β → Prop} {m : StateM σ β} (h : Gives φ m) (k : ℕ) :
    Gives (fun bs => ∀ b ∈ bs, φ b) (Draw.times k m) := by
  induction k with
  | zero => exact .pure (List.forall_mem_nil _)
  | succ k ih =>
    exact .bind h fun b hb => .bind ih fun bs hbs => .pure (List.forall_mem_cons.mpr ⟨hb, hbs⟩)

/-! ## 2. Particles and children of families -/

namespace Swarm

variable {σ α : Type} [Scalar α] [DrawSource σ α] {n : ℕ}

theorem mutateChosen_none (t : Task α n) (p : Params α) (x : Point α n) :
    (mutateChosen t p (.ofFn fun _ => false) x : ChoiceM σ α (Point α n)) = pure x := by
  have hnone : (Vector.ofFn fun _ : Fin n => false).any id = false := by
    rw [Vector.any_eq_false]
    intro i hi
    rw [Vector.getElem_ofFn]
    exact Bool.false_ne_true
  unfold mutateChosen
  rw [Draw.normalsWhere_none fun i => Point.get_ofFn _ i, hnone]
  rfl

theorem mutateIntegers_of_isZero [Scalar.Grounded α] (hdraws : NonnegDraws σ) (t : Task α n)
    {p : Params α} (hp : Scalar.IsZero p.mutation) (x : Point α n) :
    (mutateIntegers t p x : ChoiceM σ α (Point α n)) =
      (do .draw (Draw.lots t.region); pure (t.region.roundIntegers x)) := by
  rw [Draw.lots_bind]
  unfold mutateIntegers
  split_ifs with h
  · refine ChoiceM.draw_bind_congr (Draw.uniforms_nonneg hdraws) fun u hu => ?_
    have hnone (i : Fin n) : (t.region.integral.get i && decide (u.get i < p.mutation)) = false := by
      rw [decide_eq_false (hp.not_lt_of_nonneg (hu i)), Bool.and_false]
    rw [funext hnone]
    exact mutateChosen_none t p _
  · rw [t.region.roundIntegers_eq_self h]

/-- A particle is moved and brought into the region; the draws that decide on mutations are made in
vain. -/
theorem move_of_isZero [Scalar.Grounded α] (hdraws : NonnegDraws σ) (t : Task α n) {p : Params α}
    (hp : Scalar.IsZero p.mutation) (s : Situation α n) :
    (move t p s : ChoiceM σ α (Point α n × Point α n)) = (do
      let v ← ruleVelocity p s
      let v ← stir t p v
      .draw (Draw.lots t.region)
      pure (v, t.region.repair (Point.add s.point v))) := by
  unfold move
  simp only [mutateIntegers_of_isZero hdraws t hp, bind_assoc, pure_bind]
  rfl

end Swarm

namespace Evolution

variable {σ α : Type} [Scalar α] [DrawSource σ α] {n : ℕ}

theorem mutateIntegers_of_isZero [Scalar.Grounded α] (hdraws : NonnegDraws σ) (r : Region α n)
    {p : Params α} (hp : Scalar.IsZero p.mutation) (x : Point α n) :
    (mutateIntegers r p x : ChoiceM σ α (Point α n)) = (do .draw (Draw.lots r); pure x) := by
  rw [Draw.lots_bind]
  unfold mutateIntegers
  split_ifs with h
  · refine ChoiceM.draw_bind_congr (Draw.uniforms_nonneg hdraws) fun u hu => ?_
    have hnone (i : Fin n) : (r.integral.get i && decide (u.get i < p.mutation)) = false := by
      rw [decide_eq_false (hp.not_lt_of_nonneg (hu i)), Bool.and_false]
    have hfree (i : Fin n) : false = true → 0 < wordCount r i := fun h => (Bool.false_ne_true h).elim
    simp only [hnone, Bool.false_eq_true, if_false]
    rw [requireWords_eq_pure hfree, pure_bind, Vector.ofFnM_pure, Point.ofFn_get]
  · rfl

theorem mutate_of_isZero [Scalar.Grounded α] (hdraws : NonnegDraws σ) (r : Region α n) {p : Params α}
    (hp : Scalar.IsZero p.mutation) (x steps : Point α n) :
    (mutate r p x steps : ChoiceM σ α (Point α n)) = (do
      let y ← .draw (mutateReals r x steps)
      .draw (Draw.lots r)
      pure (r.clamp y)) := by
  unfold mutate
  simp only [mutateIntegers_of_isZero hdraws r hp, bind_assoc, pure_bind]

/-- Normal steps leave the integer variables of a child as they are. -/
theorem mutateReals_gives (r : Region α n) (x steps : Point α n) :
    Gives (fun y => ∀ i, r.integral.get i = true → y.get i = x.get i)
      (mutateReals r x steps : StateM σ (Point α n)) := by
  intro s i hi
  refine Draw.normalsWhere_gives _ x _ s i ?_
  rw [Point.get_map, hi]
  rfl

end Evolution

/-! ## 3. Parents that are not crossed -/

/-- A table whose entries are settled by one draw each is settled by those draws. -/
theorem run_ofFnM_of_draws {σ α β γ : Type} {n : ℕ} {f : Fin n → ChoiceM σ α β}
    {m : Fin n → StateM σ γ} {φ : γ → Prop} {b : Fin n → β}
    (h : ∀ i s, φ (m i s).1 → (f i).run s = (.ok (b i), (m i s).2)) (s : σ)
    (hs : ∀ i, φ ((Vector.ofFnM m s).1.get i)) :
    (Vector.ofFnM f).run s = (.ok (Vector.ofFn b), (Vector.ofFnM m s).2) := by
  -- Induction on the length: the last entry is settled after all the others.
  induction n with
  | zero =>
    rw [Vector.ofFnM_zero, Vector.ofFnM_zero]
    rfl
  | succ n ih =>
    have hm : Vector.ofFnM m s = ((Vector.ofFnM (fun i => m i.castSucc) s).1.push
        (m (Fin.last n) (Vector.ofFnM (fun i => m i.castSucc) s).2).1,
        (m (Fin.last n) (Vector.ofFnM (fun i => m i.castSucc) s).2).2) := by
      rw [Vector.ofFnM_succ]
      rfl
    rw [hm] at hs ⊢
    have hinit := ih (fun i => h i.castSucc) fun i => by
      have hi := hs i.castSucc
      rwa [Point.get_push_castSucc] at hi
    have hlast := hs (Fin.last n)
    rw [Point.get_push_last] at hlast
    rw [Vector.ofFnM_succ, run_bind_of_ok hinit, run_bind_of_ok (h (Fin.last n) _ hlast),
      Vector.ofFn_succ]
    rfl

namespace Genetic

variable {σ α : Type} [Scalar α] [DrawSource σ α] {n : ℕ}

/-- A draw above zero leaves a variable uncrossed. -/
theorem run_crossVariable_of_isZero [Scalar.Grounded α] (r : Region α n) {p : Params α}
    (hp : Scalar.IsZero p.crossing) (length : ℕ) (i : Fin n) (a b : Quantity α) (s : σ)
    (hu : 0.0 < (DrawSource.uniform s : α × σ).1) :
    (crossVariable r p length i a b).run s = (.ok none, (DrawSource.uniform s : α × σ).2) := by
  unfold crossVariable
  rw [run_bind_of_ok (ChoiceM.run_draw _ s), if_pos (hp.lt_of_pos hu)]
  rfl

theorem run_breed_of_isZero [Scalar.Grounded α] (r : Region α n) {p : Params α}
    (hp : Scalar.IsZero p.crossing) (lengths : Vector ℕ n) {a b : Point α n}
    (ha : ∀ i, r.lower.get i ≤ a.get i ∧ a.get i ≤ r.upper.get i)
    (hb : ∀ i, r.lower.get i ≤ b.get i ∧ b.get i ≤ r.upper.get i) (s : σ)
    (hs : ∀ i, 0.0 < ((Draw.uniforms n : StateM σ (Point α n)) s).1.get i) :
    (breed r p lengths a b).run s = (.ok (a, b), ((Draw.uniforms n : StateM σ (Point α n)) s).2) := by
  have hpairs := run_ofFnM_of_draws (n := n) (m := fun _ => (DrawSource.uniform : StateM σ α))
    (φ := fun u => 0.0 < u) (b := fun i => (a.get i, b.get i))
    (f := fun i => do
      let crossed ← crossVariable r p (lengths.get i) i (.ok (a.get i)) (.ok (b.get i))
      pure (crossed.getD (a.get i, b.get i)))
    (fun i s hu => by rw [run_bind_of_ok (run_crossVariable_of_isZero r hp _ i _ _ s hu)]; rfl) s hs
  have hget (i : Fin n) : (Vector.ofFn fun i => (a.get i, b.get i)).get i = (a.get i, b.get i) :=
    Point.get_ofFn _ i
  have hfirst : (Vector.ofFn fun i => (a.get i, b.get i)).map (·.1) = a :=
    Point.map_eq fun i => congrArg Prod.fst (hget i)
  have hsecond : (Vector.ofFn fun i => (a.get i, b.get i)).map (·.2) = b :=
    Point.map_eq fun i => congrArg Prod.snd (hget i)
  unfold breed
  rw [run_bind_of_ok hpairs, hfirst, hsecond, r.clamp_eq_self ha, r.clamp_eq_self hb]
  rfl

/-! ## 4. Children that are not mutated -/

/-- No draw above zero is a hit. -/
theorem run_drawFlips_of_isZero [Scalar.Grounded α] {p : Params α} (hp : Scalar.IsZero p.mutation)
    (k : ℕ) (s : σ)
    (hs : ∀ u ∈ ((Draw.times k DrawSource.uniform : StateM σ (List α)) s).1, 0.0 < u) :
    (Draw.times k (drawFlip p) : StateM σ (List Bool)) s =
      (List.replicate k false, ((Draw.times k DrawSource.uniform : StateM σ (List α)) s).2) := by
  induction k generalizing s with
  | zero => rfl
  | succ k ih =>
    obtain ⟨hfirst, hrest⟩ := List.forall_mem_cons.mp hs
    have hflip : decide ((DrawSource.uniform s : α × σ).1 ≤ p.mutation) = false :=
      decide_eq_false (hp.not_le_of_pos hfirst)
    have hothers := ih (DrawSource.uniform s : α × σ).2 hrest
    show (decide ((DrawSource.uniform s : α × σ).1 ≤ p.mutation) ::
      ((Draw.times k (drawFlip p) : StateM σ (List Bool)) (DrawSource.uniform s : α × σ).2).1,
      ((Draw.times k (drawFlip p) : StateM σ (List Bool)) (DrawSource.uniform s : α × σ).2).2) = _
    rw [hothers, hflip]
    rfl

theorem run_flipBits_of_isZero [Scalar.Grounded α] {p : Params α} (hp : Scalar.IsZero p.mutation)
    (bits : List Bool) (s : σ)
    (hs : ∀ u ∈ ((Draw.times bits.length DrawSource.uniform : StateM σ (List α)) s).1, 0.0 < u) :
    (flipBits p bits : StateM σ (List Bool)) s =
      (bits, ((Draw.times bits.length DrawSource.uniform : StateM σ (List α)) s).2) := by
  rw [flipBits_eq]
  show (List.zipWith (· ^^ ·) bits ((Draw.times bits.length (drawFlip p) : StateM σ (List Bool)) s).1,
    ((Draw.times bits.length (drawFlip p) : StateM σ (List Bool)) s).2) = _
  rw [run_drawFlips_of_isZero hp _ s hs, BitCode.zipWith_xor_replicate rfl]

/-- Two opposite mixtures of two values. -/
def mixtures (reach u a b : α) : α × α :=
  let mix := -reach + (1.0 + reach - -reach) * u
  (a * mix + b * (1.0 - mix), b * mix + a * (1.0 - mix))

/-- The mixtures lie on a line that goes beyond the values by the reach; a source that looks at ranges
refuses one that is not finite. -/
def refusesReach (σ : Type) [DrawSource σ α] (reach : α) : Bool :=
  DrawSource.checksRanges σ && !Scalar.isFinite (1.0 + reach - -reach)

theorem run_crossReal_of_isZero [Scalar.Grounded α] (r : Region α n) {p : Params α}
    (hp : Scalar.IsZero p.mutation) {reach : α} (hreach : p.reach = .ok reach) (i : Fin n) (a b : α)
    (s : σ) (hs : 0.0 < (DrawSource.uniform (DrawSource.uniform s : α × σ).2 : α × σ).1) :
    (crossReal r p i (.ok a) (.ok b)).run s =
      if refusesReach σ reach then (.error .overflow, s)
      else (.ok (mixtures reach (DrawSource.uniform s : α × σ).1 a b),
        (DrawSource.uniform (DrawSource.uniform s : α × σ).2 : α × σ).2) := by
  unfold crossReal
  rw [hreach]
  simp only [ChoiceM.use_ok_bind]
  unfold Draw.between Draw.checkRange refusesReach
  split_ifs
  · rfl
  · rw [ChoiceM.use_ok_bind, bind_assoc, run_bind_of_ok (ChoiceM.run_draw _ s),
      pure_bind, run_bind_of_ok (ChoiceM.run_draw _ _), if_neg (hp.not_le_of_pos hs)]
    rfl

/-- What two children have of two coordinates if nothing is mutated: the coordinates themselves, the
rows of bits cut and exchanged behind the cut, or two opposite mixtures. -/
inductive Recombines (r : Region α n) (p : Params α) (i : Fin n) (length : ℕ) (a b : α) :
    α × α → Prop
  | kept : Recombines r p i length a b (a, b)
  | exchanged : r.integral.get i = true → length ≤ 1 → Recombines r p i length a b (b, a)
  | cut {codeA codeB : List Bool} (place : ℕ) : r.integral.get i = true →
      encodeCoordinate r i length a = .ok codeA → encodeCoordinate r i length b = .ok codeB →
      Recombines r p i length a b
        (Prod.map (decodeCoordinate r i) (decodeCoordinate r i) (exchange place codeA codeB))
  | mixed {reach : α} (u : α) : r.integral.get i = false → p.reach = .ok reach →
      Recombines r p i length a b (mixtures reach u a b)

section

variable [Scalar.Grounded α] {r : Region α n} {p : Params α} {i : Fin n} {length : ℕ}

theorem flipBits_gives (hdraws : PositiveDraws σ) (hp : Scalar.IsZero p.mutation) (bits : List Bool) :
    Gives (fun flipped => bits = flipped) (flipBits p bits : StateM σ (List Bool)) := by
  intro s
  have hrun := run_flipBits_of_isZero hp bits s (Gives.times hdraws _ s)
  rw [hrun]

theorem crossBits_recombines (hdraws : PositiveDraws σ) (hp : Scalar.IsZero p.mutation)
    (hi : r.integral.get i = true) (a b : α) :
    Meets (Recombines r p i length a b) (fun _ => True)
      (crossBits r p i length (.ok a) (.ok b) : ChoiceM σ α (α × α)) := by
  apply Meets.bind (.attained _)
  intro cut _
  apply Meets.bind (.useOk rfl)
  rintro _ rfl
  apply Meets.bind (.use (fun _ hcode => hcode) fun _ _ => trivial)
  intro codeA hcodeA
  apply Meets.bind (.useOk rfl)
  rintro _ rfl
  apply Meets.bind (.use (fun _ hcode => hcode) fun _ _ => trivial)
  intro codeB hcodeB
  apply Meets.bind (.draw (flipBits_gives hdraws hp _))
  rintro _ rfl
  apply Meets.bind (.draw (flipBits_gives hdraws hp _))
  rintro _ rfl
  exact .pure (.cut (Place.ofCut length cut) hi hcodeA hcodeB)

theorem crossReal_recombines (hdraws : PositiveDraws σ) (hp : Scalar.IsZero p.mutation)
    (hi : r.integral.get i = false) (a b : α) :
    Meets (Recombines r p i length a b) (fun _ => True)
      (crossReal r p i (.ok a) (.ok b) : ChoiceM σ α (α × α)) := by
  cases hreach : p.reach with
  | error f =>
    unfold crossReal
    rw [hreach]
    exact fun _ => trivial
  | ok reach =>
    intro s
    rw [run_crossReal_of_isZero r hp hreach i a b s (hdraws _)]
    split_ifs
    · trivial
    · exact .mixed _ hi hreach

theorem crossVariable_recombines (hdraws : PositiveDraws σ) (hp : Scalar.IsZero p.mutation)
    (length : ℕ) (i : Fin n) (a b : α) :
    Meets (fun o => Recombines r p i length a b (o.getD (a, b))) (fun _ => True)
      (crossVariable r p length i (.ok a) (.ok b) : ChoiceM σ α (Option (α × α))) := by
  apply Meets.bind (.draw (.trivial _))
  intro u _
  apply Meets.ite
  · intro _
    exact .pure .kept
  · intro _
    apply Meets.ite
    · intro hi
      apply Meets.ite
      · intro _
        rw [map_eq_pure_bind]
        exact .bind (crossBits_recombines hdraws hp hi a b) fun q hq => .pure hq
      · intro hlength
        apply Meets.bind (.useOk rfl)
        rintro _ rfl
        apply Meets.bind (.useOk rfl)
        rintro _ rfl
        exact .pure (.exchanged hi (not_lt.mp hlength))
    · intro hi
      rw [map_eq_pure_bind]
      exact .bind (crossReal_recombines hdraws hp (Bool.eq_false_iff.mpr hi) a b) fun q hq => .pure hq

theorem breed_recombines (hdraws : PositiveDraws σ) (hp : Scalar.IsZero p.mutation)
    (lengths : Vector ℕ n) (a b : Point α n) :
    Meets (fun q => ∃ pairs : Vector (α × α) n,
        (∀ i, Recombines r p i (lengths.get i) (a.get i) (b.get i) (pairs.get i)) ∧
        q = (r.clamp (pairs.map (·.1)), r.clamp (pairs.map (·.2)))) (fun _ => True)
      (breed r p lengths a b : ChoiceM σ α (Point α n × Point α n)) := by
  have hpair (i : Fin n) : Meets (Recombines r p i (lengths.get i) (a.get i) (b.get i))
      (fun _ => True)
      (do
        let crossed ← crossVariable r p (lengths.get i) i (.ok (a.get i)) (.ok (b.get i))
        pure (crossed.getD (a.get i, b.get i)) : ChoiceM σ α (α × α)) :=
    .bind (crossVariable_recombines hdraws hp _ i _ _) fun o ho => .pure ho
  apply Meets.bind (.ofFnM hpair)
  intro pairs hpairs
  exact .pure ⟨pairs, hpairs, rfl⟩

end

/-- Whatever is crossed, nothing is mutated. -/
structure Unmutated (σ : Type) [DrawSource σ α] (r : Region α n) (p : Params α) : Prop where
  -- A row of bits stays as it is unless a draw for one of its bits is zero.
  flips (bits : List Bool) (s : σ) :
    (∀ u ∈ ((Draw.times bits.length DrawSource.uniform : StateM σ (List α)) s).1, 0.0 < u) →
    (flipBits p bits : StateM σ (List Bool)) s =
      (bits, ((Draw.times bits.length DrawSource.uniform : StateM σ (List α)) s).2)
  -- Two values are mixed and no more, unless the second of two draws is zero; only the reach may be
  -- refused.
  mixes (reach : α) : p.reach = .ok reach → ∀ (i : Fin n) (a b : α) (s : σ),
    0.0 < (DrawSource.uniform (DrawSource.uniform s : α × σ).2 : α × σ).1 →
    (crossReal r p i (.ok a) (.ok b)).run s =
      if refusesReach σ reach then (.error .overflow, s)
      else (.ok (mixtures reach (DrawSource.uniform s : α × σ).1 a b),
        (DrawSource.uniform (DrawSource.uniform s : α × σ).2 : α × σ).2)
  -- If no draw is zero, the children of any parents are recombined of them and clamped.
  children : PositiveDraws σ → ∀ (lengths : Vector ℕ n) (a b : Point α n),
      Meets (fun q => ∃ pairs : Vector (α × α) n,
          (∀ i, Recombines r p i (lengths.get i) (a.get i) (b.get i) (pairs.get i)) ∧
          q = (r.clamp (pairs.map (·.1)), r.clamp (pairs.map (·.2)))) (fun _ => True)
        (breed r p lengths a b : ChoiceM σ α (Point α n × Point α n))

theorem unmutated_of_isZero [Scalar.Grounded α] (r : Region α n) {p : Params α}
    (hp : Scalar.IsZero p.mutation) : Unmutated σ r p where
  flips := run_flipBits_of_isZero hp
  mixes _ hreach := run_crossReal_of_isZero r hp hreach
  children hdraws := breed_recombines hdraws hp

/-! ## 5. Twins -/

section

variable {τ : Type} [DrawSource τ ℝ] {r : Region ℝ n} {p : Params ℝ} {lengths : Vector ℕ n}

/-- Nothing comes of two equal coordinates but the same again. -/
theorem Recombines.eq_of_same {i : Fin n} {a : ℝ} {q : ℝ × ℝ}
    (h : Recombines r p i (lengths.get i) a a q) (hlengths : codeLengths r = .ok lengths)
    (ha : r.integral.get i = true → IsGene r i a) : q = (a, a) := by
  cases h with
  | kept => rfl
  | exchanged => rfl
  | @cut codeA codeB place hi hA hB =>
    obtain rfl : codeA = codeB := Except.ok.inj (hA.symm.trans hB)
    obtain ⟨k, hk⟩ := exists_codedAs hlengths hi (ha hi)
    have hcode : codeA = BitCode.bits (lengths.get i) k := by
      rw [hk.encode] at hA
      split_ifs at hA
      exact (Except.ok.inj hA).symm
    unfold exchange
    rw [List.take_append_drop, hcode, Prod.map_apply, hk.decode_eq (ha hi)]
  | mixed u hi hreach =>
    unfold mixtures
    rw [Scalar.one_real]
    refine Prod.ext ?_ ?_
    · show a * _ + a * (1 - _) = a
      ring
    · show a * _ + a * (1 - _) = a
      ring

theorem breed_twins (hdraws : PositiveDraws τ) (hp : Scalar.IsZero p.mutation)
    (hlengths : codeLengths r = .ok lengths) {a : Point ℝ n} (ha : r.Feasible a) :
    Meets (fun q => q = (a, a)) (fun _ => ¬(p.IsNumeric ∧ ∀ i, lengths.get i ≤ longestCode))
      (breed r p lengths a a : ChoiceM τ ℝ (Point ℝ n × Point ℝ n)) := by
  have hsame : Meets (fun q => q = (a, a)) (fun _ => True)
      (breed r p lengths a a : ChoiceM τ ℝ (Point ℝ n × Point ℝ n)) := by
    apply (breed_recombines hdraws hp lengths a a).mono
    rintro q ⟨pairs, hpairs, rfl⟩
    have hpair (i : Fin n) : pairs.get i = (a.get i, a.get i) :=
      (hpairs i).eq_of_same hlengths (isGene_of_feasible ha)
    have hfirst : pairs.map (·.1) = a := Point.map_eq fun i => congrArg Prod.fst (hpair i)
    have hsecond : pairs.map (·.2) = a := Point.map_eq fun i => congrArg Prod.snd (hpair i)
    rw [hfirst, hsecond, r.clamp_eq_self ha.1]
  by_cases h : p.IsNumeric ∧ ∀ i, lengths.get i ≤ longestCode
  · have hcoded (i : Fin n) :
        Inherits r (fun _ => ¬(p.IsNumeric ∧ ∀ i, lengths.get i ≤ longestCode)) i (lengths.get i)
          (a.get i) :=
      have hinherits := inherits_of_feasible hlengths h.2 ha i
      ⟨hinherits.whole, fun hi e he => (hinherits.coded hi e he).elim⟩
    exact ((breed_meets h.1 hcoded hcoded).and hsame).mono fun q hq => hq.2
  · intro s
    have hs := hsame s
    rcases hr : (breed r p lengths a a : ChoiceM τ ℝ _).run s with ⟨f | q, s'⟩
    · exact h
    · rw [hr] at hs
      exact hs

end

end Genetic

/-! ## 6. All together -/

/-- Whatever is drawn from the unit interval, a swarm mutates no particle by a chance of zero, and an
evolution draws no integer anew.  A genetic search copies parents and mutates no child unless a draw
that decides on it is zero, so that equal parents have equal children in exact arithmetic. -/
theorem zero_chances_never_hit (σ : Type) {α : Type} [Scalar α] [Scalar.Grounded α] [DrawSource σ α]
    (hdraws : NonnegDraws σ) {n : ℕ} (t : Task α n) :
    (∀ p : Swarm.Params α, Scalar.IsZero p.mutation → ∀ s,
      (Swarm.move t p s : ChoiceM σ α (Point α n × Point α n)) = (do
        let v ← Swarm.ruleVelocity p s
        let v ← Swarm.stir t p v
        .draw (Draw.lots t.region)
        pure (v, t.region.repair (Point.add s.point v)))) ∧
    (∀ p : Evolution.Params α, Scalar.IsZero p.mutation → ∀ x steps,
      (Evolution.mutate t.region p x steps : ChoiceM σ α (Point α n)) = (do
        let y ← .draw (Evolution.mutateReals t.region x steps)
        .draw (Draw.lots t.region)
        pure (t.region.clamp y)) ∧
      Gives (fun y => ∀ i, t.region.integral.get i = true → y.get i = x.get i)
        (Evolution.mutateReals t.region x steps : StateM σ (Point α n))) ∧
    (∀ p : Genetic.Params α, Scalar.IsZero p.crossing → ∀ (lengths : Vector ℕ n) (a b : Point α n),
      (∀ i, t.region.lower.get i ≤ a.get i ∧ a.get i ≤ t.region.upper.get i) →
      (∀ i, t.region.lower.get i ≤ b.get i ∧ b.get i ≤ t.region.upper.get i) → ∀ s : σ,
      (∀ i, 0.0 < ((Draw.uniforms n : StateM σ (Point α n)) s).1.get i) →
        (Genetic.breed t.region p lengths a b).run s =
          (.ok (a, b), ((Draw.uniforms n : StateM σ (Point α n)) s).2)) ∧
    (∀ p : Genetic.Params α, Scalar.IsZero p.mutation → Genetic.Unmutated σ t.region p) ∧
    ∀ (τ : Type) [DrawSource τ ℝ], PositiveDraws τ →
      ∀ (r : Region ℝ n) (p : Genetic.Params ℝ) (lengths : Vector ℕ n), Scalar.IsZero p.mutation →
      Genetic.codeLengths r = .ok lengths → ∀ a, r.Feasible a →
        Meets (fun q => q = (a, a))
          (fun _ => ¬(p.IsNumeric ∧ ∀ i, lengths.get i ≤ Genetic.longestCode))
          (Genetic.breed r p lengths a a : ChoiceM τ ℝ (Point ℝ n × Point ℝ n)) := by
  refine ⟨fun p hp s => ?_, fun p hp x steps => ⟨?_, ?_⟩, fun p hp lengths a b ha hb s hs => ?_,
    fun p hp => ?_, fun τ _ hpos r p lengths hp hlengths a ha => ?_⟩
  · exact Swarm.move_of_isZero hdraws t hp s
  · exact Evolution.mutate_of_isZero hdraws t.region hp x steps
  · exact Evolution.mutateReals_gives t.region x steps
  · exact Genetic.run_breed_of_isZero t.region hp lengths ha hb s hs
  · exact Genetic.unmutated_of_isZero t.region hp
  · exact Genetic.breed_twins hpos hp hlengths ha

/-- A source that always draws one half. -/
structure Halves

noncomputable instance : DrawSource Halves ℝ where
  uniform s := (0.5, s)
  normal s := (0, s)
  checksRanges := true

/-- One and two are copied by a chance of zero to cross them, and the children of two and two are two
and two by a chance of zero to mutate them. -/
theorem zero_chances_never_hit_halves :
    PositiveDraws Halves ∧ Scalar.IsZero (0 : ℝ) ∧
      (∀ s : Halves, (Genetic.breed Run.leastOfFour.region { Run.brood with crossing := 0 }
        (.ofFn fun _ => 2) (Point.fill 1 1) (Point.fill 1 2)).run s =
          (.ok (Point.fill 1 1, Point.fill 1 2), s)) ∧
      ∀ s : Halves, ((Genetic.breed Run.leastOfFour.region { Run.brood with mutation := 0 }
        (.ofFn fun _ => 2) (Point.fill 1 2) (Point.fill 1 2)).run s).1 =
          .ok (Point.fill 1 2, Point.fill 1 2) := by
  have hzero : (0.0 : ℝ) = 0 := by norm_num
  have hpos : PositiveDraws Halves := fun s => by
    show (0.0 : ℝ) < 0.5
    norm_num
  have hnone : Scalar.IsZero (0 : ℝ) := ⟨rfl, (Scalar.same_real _ _).mpr hzero.symm⟩
  have hlengths : Genetic.codeLengths Run.leastOfFour.region = .ok (.ofFn fun _ => 2) :=
    Genetic.codeLengths_integers (by decide)
  have hlower (i : Fin 1) : Run.leastOfFour.region.lower.get i = 0 :=
    (Point.get_ofFn (fun _ => ((0 : ℤ) : ℝ)) i).trans Int.cast_zero
  have hupper (i : Fin 1) : Run.leastOfFour.region.upper.get i = 3 :=
    (Point.get_ofFn (fun _ => ((3 : ℤ) : ℝ)) i).trans (Int.cast_ofNat 3)
  have hbox (k : ℕ) (hk : k ≤ 3) (i : Fin 1) :
      Run.leastOfFour.region.lower.get i ≤ (Point.fill 1 (k : ℝ)).get i ∧
        (Point.fill 1 (k : ℝ)).get i ≤ Run.leastOfFour.region.upper.get i := by
    rw [hlower, hupper, show (Point.fill 1 (k : ℝ)).get i = k from Point.get_ofFn ..]
    exact ⟨Nat.cast_nonneg k, by exact_mod_cast hk⟩
  obtain ⟨-, -, hcopies, -, htwins⟩ := zero_chances_never_hit Halves
    (fun s => (hpos s).le) Run.leastOfFour
  refine ⟨hpos, hnone, fun s => ?_, fun s => ?_⟩
  · have hrun := hcopies { Run.brood with crossing := 0 } hnone (.ofFn fun _ => 2)
      (Point.fill 1 ((1 : ℕ) : ℝ)) (Point.fill 1 ((2 : ℕ) : ℝ)) (hbox 1 (by decide))
      (hbox 2 (by decide)) s (Gives.ofFnM (φ := fun _ u => 0.0 < u) (fun _ => hpos) s)
    rw [Nat.cast_one, Nat.cast_two] at hrun
    exact hrun
  · have hfeasible : Run.leastOfFour.region.Feasible (Point.fill 1 ((2 : ℕ) : ℝ)) :=
      ⟨hbox 2 (by decide), fun i _ => ⟨2, Point.get_ofFn ..⟩⟩
    have hrun := htwins Halves hpos Run.leastOfFour.region { Run.brood with mutation := 0 }
      (.ofFn fun _ => 2) hnone hlengths _ hfeasible s
    rw [Nat.cast_two] at hrun
    cases hanswer : ((Genetic.breed Run.leastOfFour.region { Run.brood with mutation := 0 }
        (.ofFn fun _ => 2) (Point.fill 1 2) (Point.fill 1 2)).run s).1 with
    | ok q =>
      rw [hanswer] at hrun
      exact congrArg Except.ok hrun
    | error f =>
      rw [hanswer] at hrun
      exact absurd ⟨⟨⟨_, rfl⟩, ⟨_, rfl⟩, ⟨_, rfl⟩⟩,
        fun i => (Point.get_ofFn _ i).trans_le (by decide)⟩ hrun

end BoxSearch
