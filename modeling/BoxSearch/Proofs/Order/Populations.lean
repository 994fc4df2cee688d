import BoxSearch.Evolution
import BoxSearch.Genetic
import BoxSearch.Proofs.Order.Mirror

/-!
# Populations that are ranked

A population is ranked, and what is bred from it depends on the ranking and on the points.  The wheel
that selects parents is made from the places in the ranking, so that a rescaled population spins the
same wheel.
-/

namespace BoxSearch

open SearchM

variable {σ α : Type} [Scalar α] {n : Nat} {t : Task α n} {g : Cost α → Cost α}

/-! ## 1. Wheels -/

theorem Cost.rankedPlaces_map (hg : Cost.KeepsOrder g) {costs : List (Cost α)}
    (h : ∀ c ∈ costs, c.IsFinite) :
    Cost.rankedPlaces (costs.map g) = Cost.rankedPlaces costs :=
  Cost.rankedPlaces_map_of_notAfter fun a ha b hb => hg.notAfter_apply (h a ha) (h b hb)

theorem Wheel.ofCosts_map (hg : Cost.KeepsOrder g) {costs : List (Cost α)}
    (h : ∀ c ∈ costs, c.IsFinite) : Wheel.ofCosts (costs.map g) = Wheel.ofCosts costs := by
  unfold Wheel.ofCosts rankWeights
  rw [Cost.rankedPlaces_map hg h, List.length_map]

variable [DrawSource σ α]

/-! ## 2. Genetic search -/

namespace Genetic

variable {p : Params α} {lengths : Vector Nat n}

omit [DrawSource σ α] in
theorem enroll_mirrors (hg : Cost.KeepsOrder g) (children : List (Point α n))
    {next next' : List (Sample α n)} (h : Sample.Alike g next next') :
    Mirrors g (Sample.Alike g)
      (enroll t p children next : SearchM σ α n (List (Sample α n)) (List (Sample α n)))
      (enroll (t.rescale g) p children next')
      fun next next' pop pop' => Sample.Alike g next next' ∧ Sample.Alike g pop pop' := by
  induction children generalizing next next' with
  | nil => exact .pure fun _ _ hk => ⟨h, hk⟩
  | cons x rest ih =>
    have hlength : next'.length = next.length := by
      rw [h.mapped, List.length_map]
    unfold enroll
    rw [hlength]
    apply Mirrors.ite Iff.rfl
    · apply Mirrors.seq .requireBudget
      apply Mirrors.trial_bind hg
      intro v
      apply ih
      rw [← Sample.rescale_finite hg]
      exact h.append (.singleton ⟨v, rfl⟩)
    · exact .pure fun _ _ hk => ⟨h, hk⟩

omit [Scalar α] [DrawSource σ α] in
theorem memberAt_mirrors {pop pop' : List (Sample α n)} (h : Sample.Alike g pop pop') (i : Nat) :
    Mirrors g (Sample.Alike g)
      (memberAt pop i : SearchM σ α n (List (Sample α n)) (Point α n)) (memberAt pop' i)
      fun x x' k k' => x' = x ∧ Sample.Alike g k k' := by
  unfold memberAt
  rw [h.mapped, List.getElem?_map]
  cases pop[i]? with
  | none => exact .throw _
  | some s => exact .pure fun _ _ hk => ⟨rfl, hk⟩

theorem fillGeneration_mirrors (hg : Cost.KeepsOrder g) {pop pop' : List (Sample α n)}
    (hpop : Sample.Alike g pop pop') (wheel : List Nat) (fuel : Nat)
    {next next' : List (Sample α n)} (h : Sample.Alike g next next') :
    Mirrors g (Sample.Alike g)
      (fillGeneration t p lengths pop wheel fuel next :
        SearchM σ α n (List (Sample α n)) (List (Sample α n)))
      (fillGeneration (t.rescale g) p lengths pop' wheel fuel next')
      fun next next' pop pop' => Sample.Alike g next next' ∧ Sample.Alike g pop pop' := by
  induction fuel generalizing next next' with
  | zero => exact .pure fun _ _ hk => ⟨h, hk⟩
  | succ fuel ih =>
    have hlength : next'.length = next.length := by
      rw [h.mapped, List.length_map]
    unfold fillGeneration
    rw [hlength]
    apply Mirrors.ite Iff.rfl
    · apply Mirrors.bind_same (.draw _)
      intro i
      apply Mirrors.bind_same (memberAt_mirrors hpop i)
      intro a
      apply Mirrors.bind_same (.draw _)
      intro j
      apply Mirrors.bind_same (memberAt_mirrors hpop j)
      intro b
      apply Mirrors.bind_same (.drawOr (breed t.region p lengths a b))
      rintro ⟨childA, childB⟩
      apply (enroll_mirrors hg [childA, childB] h).bind
      intro next next'
      apply Mirrors.assume (fun _ _ hk => hk.1)
      intro hnext L draws k k' hk
      exact ih hnext L draws k k' hk.2
    · exact .pure fun _ _ hk => ⟨h, hk⟩

theorem generation_mirrors (hg : Cost.KeepsOrder g) :
    Mirrors g (Sample.Alike g) (generation t p lengths : SearchM σ α n (List (Sample α n)) Unit)
      (generation (t.rescale g) p lengths) fun _ _ => Sample.Alike g := by
  apply Mirrors.seq (.modifyOwn fun _ _ h => h.rank hg fun _ => rfl)
  apply Mirrors.own_bind
  intro pop pop' hpop
  have hcosts : pop'.map (·.cost) = (pop.map (·.cost)).map g := by
    rw [hpop.mapped, List.map_map, List.map_map]
    rfl
  have hwheel : Wheel.ofCosts (pop'.map (·.cost)) = Wheel.ofCosts (pop.map (·.cost)) := by
    rw [hcosts]
    apply Wheel.ofCosts_map hg
    intro c hc
    obtain ⟨s, hs, rfl⟩ := List.mem_map.mp hc
    exact hpop.finite s hs
  dsimp only
  rw [hwheel]
  apply (fillGeneration_mirrors hg hpop _ p.size (hpop.take p.elite)).bind
  intro next next'
  apply Mirrors.assume (fun _ _ hk => hk.1)
  intro hnext
  exact .seq (.setOwn hnext) .endRound

theorem generations_mirrors (hg : Cost.KeepsOrder g) :
    Mirrors g (Sample.Alike g) (generations t p lengths : SearchM σ α n (List (Sample α n)) Unit)
      (generations (t.rescale g) p lengths) fun _ _ => Sample.Alike g :=
  .seq (.roundsWithin (generation_mirrors hg) p.generations) (.stopWithin rfl)

theorem found_mirrors (hg : Cost.KeepsOrder g) (k : Nat) (given : List (Point α n)) :
    Mirrors g (Sample.Alike g) (found t k given : SearchM σ α n (List (Sample α n)) Unit)
      (found (t.rescale g) k given) fun _ _ => Sample.Alike g := by
  induction k generalizing given with
  | zero => exact .pure fun _ _ hk => hk
  | succ k ih =>
    apply Mirrors.seq .requireBudget
    apply Mirrors.bind_same (.draw (newcomer t.region given))
    intro x
    have hadded (v : α) (pop pop' : List (Sample α n)) (h : Sample.Alike g pop pop') :
        Sample.Alike g (pop ++ [⟨x, .finite v⟩]) (pop' ++ [⟨x, .finite (Cost.onValue g v)⟩]) := by
      rw [← Sample.rescale_finite hg]
      exact h.append (.singleton ⟨v, rfl⟩)
    exact .keep_bind hg x hadded fun _ => ih (given.drop 1)

theorem run_mirrors (hg : Cost.KeepsOrder g)
    (S : List (Sample α n) → List (Sample α n) → Prop) :
    Mirrors g S (run t p lengths : SearchM σ α n (List (Sample α n)) Unit)
      (run (t.rescale g) p lengths) fun _ _ => Sample.Alike g := by
  apply Mirrors.seq (.setOwn Cost.Alike.nil)
  apply Mirrors.seq (found_mirrors hg p.size t.starts)
  apply Mirrors.seq (.report rfl)
  exact generations_mirrors hg

end Genetic

/-! ## 3. Evolution -/

namespace Evolution

variable {p : Params α}

def Member.rescale (g : Cost α → Cost α) (m : Member α n) : Member α n := { m with cost := g m.cost }

/-- A population with finite costs, next to the rescaled one. -/
def Alike (g : Cost α → Cost α) (s s' : State α n) : Prop :=
  Cost.Alike (·.cost) (Member.rescale g) s.population s'.population

omit [DrawSource σ α] in
theorem Member.rescale_finite (hg : Cost.KeepsOrder g) (x steps : Point α n) (v : α) :
    (⟨x, steps, .finite v⟩ : Member α n).rescale g = ⟨x, steps, .finite (Cost.onValue g v)⟩ :=
  congrArg (Member.mk x steps) (hg.apply_finite v)

omit [Scalar α] [DrawSource σ α] in
theorem membersAt_rescale (pop : List (Member α n)) (places : List Nat) :
    membersAt (pop.map (Member.rescale g)) places =
      (membersAt pop places).map (List.map (Member.rescale g)) := by
  unfold membersAt
  induction places with
  | nil => rfl
  | cons i rest ih =>
    rw [List.mapM_cons, List.mapM_cons, ih, List.getElem?_map]
    cases pop[i]? with
    | none => rfl
    | some m => cases rest.mapM fun i => pop[i]? <;> rfl

/-- A child depends on the points and the step sizes of its parents. -/
theorem conceive_rescale (r : Region α n) (rates : Rates α) (parents : List (Member α n)) :
    (conceive r p rates (parents.map (Member.rescale g)) : ChoiceM σ α (Point α n × Point α n)) =
      conceive r p rates parents := by
  have hsteps : (parents.map (Member.rescale g)).map (·.steps) = parents.map (·.steps) :=
    List.map_map
  have hpoints : (parents.map (Member.rescale g)).map (·.point) = parents.map (·.point) :=
    List.map_map
  unfold conceive
  rw [hsteps, hpoints]

variable {rates : Rates α} {pop pop' : List (Member α n)}

theorem bear_mirrors (hg : Cost.KeepsOrder g)
    (h : Cost.Alike (·.cost) (Member.rescale g) pop pop') :
    Mirrors g (Alike g) (bear t p rates pop : SearchM σ α n (State α n) (Member α n))
      (bear (t.rescale g) p rates pop')
      fun m m' k k' => (m' = m.rescale g ∧ m.cost.IsFinite) ∧ Alike g k k' := by
  apply Mirrors.bind_same (.drawOr (marry p))
  intro places
  rw [h.mapped, membersAt_rescale]
  cases membersAt pop places with
  | none => exact .throw _
  | some parents =>
    apply Mirrors.bind_same (.use p.stepSize)
    intro _
    dsimp only [Option.map_some]
    rw [conceive_rescale]
    apply Mirrors.bind_same (.drawOr (conceive t.region p rates parents))
    rintro ⟨steps, x⟩
    apply Mirrors.trial_bind hg
    intro v
    exact .pure fun _ _ hk => ⟨⟨(Member.rescale_finite hg x steps v).symm, v, rfl⟩, hk⟩

theorem bearAll_mirrors (hg : Cost.KeepsOrder g)
    (h : Cost.Alike (·.cost) (Member.rescale g) pop pop') (k : Nat) :
    Mirrors g (Alike g) (bearAll t p rates pop k : SearchM σ α n (State α n) (List (Member α n)))
      (bearAll (t.rescale g) p rates pop' k)
      fun ms ms' k k' => Cost.Alike (·.cost) (Member.rescale g) ms ms' ∧ Alike g k k' := by
  induction k with
  | zero => exact .pure fun _ _ hk => ⟨.nil, hk⟩
  | succ k ih =>
    apply Mirrors.bind_same .withinBudget
    intro b
    apply Mirrors.ite Iff.rfl
    · apply (bear_mirrors hg h).bind
      intro m m'
      apply Mirrors.assume (fun _ _ hk => hk.1)
      rintro ⟨rfl, hfinite⟩ L draws own own' ⟨-, hk⟩
      have hrest : Mirrors g (Alike g)
          (do return m :: (← bearAll t p rates pop k) : SearchM σ α n _ (List (Member α n)))
          (do return m.rescale g :: (← bearAll (t.rescale g) p rates pop' k))
          fun ms ms' k k' => Cost.Alike (·.cost) (Member.rescale g) ms ms' ∧ Alike g k k' := by
        apply ih.bind
        intro ms ms'
        exact .pure fun _ _ hk => ⟨(Cost.Alike.singleton hfinite).append hk.1, hk.2⟩
      exact hrest L draws own own' hk
    · exact .pure fun _ _ hk => ⟨.nil, hk⟩

theorem generation_mirrors (hg : Cost.KeepsOrder g) :
    Mirrors g (Alike g) (generation t p rates : SearchM σ α n (State α n) Unit)
      (generation (t.rescale g) p rates) fun _ _ => Alike g := by
  apply Mirrors.own_bind
  intro s s' hs
  apply (bearAll_mirrors hg hs p.children).bind
  intro children children'
  apply Mirrors.assume (fun _ _ hk => hk.1)
  intro hchildren
  have hcost (m : Member α n) : (m.rescale g).cost = g m.cost := rfl
  have hsurvivors (own own' : State α n) :
      Alike g { own with population := survivors p s.population children }
        { own' with population := survivors p s'.population children' } :=
    ((hs.append hchildren).rank hg hcost).take p.size
  exact .seq (.modifyOwn fun own own' _ => hsurvivors own own') .endRound

theorem found_mirrors (hg : Cost.KeepsOrder g) (S : State α n → State α n → Prop) :
    Mirrors g S (found t p : SearchM σ α n (State α n) Unit) (found (t.rescale g) p)
      fun _ _ => Alike g := by
  apply Mirrors.bind_same (.drawOr (Population.points t p.size p.sampling p.spread))
  intro points
  have hnone (s s' : State α n) : Alike g { s with chosen := points, population := [] }
      { s' with chosen := points, population := [] } := Cost.Alike.nil
  apply Mirrors.seq (.modifyOwn fun s s' _ => hnone s s')
  have hkeep (x : Point α n) (v : α) (s s' : State α n) (hs : Alike g s s') :
      Alike g (keepFirst p ⟨x, .finite v⟩ s) (keepFirst p ⟨x, .finite (Cost.onValue g v)⟩ s') := by
    unfold keepFirst
    dsimp only
    rw [← Member.rescale_finite hg]
    exact hs.append (.singleton ⟨v, rfl⟩)
  apply Mirrors.seq (.evaluateAll hg hkeep points)
  exact .modifyOwn fun _ _ hs => hs.rank hg fun _ => rfl

theorem run_mirrors (hg : Cost.KeepsOrder g) (S : State α n → State α n → Prop) :
    Mirrors g S (run t p : SearchM σ α n (State α n) Unit) (run (t.rescale g) p)
      fun _ _ => Alike g := by
  apply Mirrors.bind_same (.use p.learning)
  intro learning
  have hrates : Mirrors g S
      (modifyOwn fun s => { s with rates := some (Rates.of learning n) } :
        SearchM σ α n (State α n) Unit)
      (modifyOwn fun s => { s with rates := some (Rates.of learning n) }) fun _ _ _ _ => True :=
    .modifyOwn fun _ _ _ => trivial
  apply Mirrors.seq hrates
  apply Mirrors.seq (.report rfl)
  apply Mirrors.seq (found_mirrors hg _)
  exact .roundsWithin (generation_mirrors hg) t.budget

end Evolution

end BoxSearch
