import BoxSearch.Evolution
import BoxSearch.Genetic
import BoxSearch.Proofs.Counts.Methods

/-!
# Methods that breed, on their terms

Evolution and genetic search look at the budget before each evaluation.  A generation of evolution that
the budget cuts short is counted, one of genetic search is not, and genetic search ends as well when its
generations are done.
-/

namespace BoxSearch

variable {σ α : Type} [Scalar α] [DrawSource σ α] {n : Nat} {t : Task α n}

/-! ## 1. Evolution -/

namespace Evolution

variable {p : Params α}

/-- Rounds are all generations, one that the budget cuts short included. -/
abbrev terms (t : Task α n) (p : Params α) : Terms α :=
  .spending t.budget (· = (t.budget - p.size + p.children - 1) / p.children)

theorem bear_counted {T : Terms α} (rates : Rates α) (population : List (Member α n))
    {P S : Nat → Nat → State α n → Prop} (hadmits : ∀ e r k, P e r k → T.admits (e + 1))
    (h : ∀ e r k, P e r k → S (e + 1) r k) :
    Counted T P (bear t p rates population : SearchM σ α n (State α n) (Member α n))
      fun _ => S := by
  apply Counted.bind (.drawOr (marry p))
  intro places
  cases membersAt population places with
  | none => exact .fault
  | some parents =>
    apply Counted.bind (.use p.stepSize)
    intro _
    apply Counted.bind (.drawOr (conceive t.region p rates parents))
    rintro ⟨steps, x⟩
    exact .bind (.trial hadmits h) fun v => .pure fun _ _ _ hc => hc

/-- Children are born until there are `total` evaluations or the budget is spent. -/
theorem bearAll_counted (rates : Rates α) (population : List (Member α n)) (number total k : Nat) :
    Counted (terms t p) (fun e r _ => e + k = total ∧ r = number)
      (bearAll t p rates population k : SearchM σ α n (State α n) (List (Member α n)))
      fun _ e r _ => (e = total ∨ e ≤ total ∧ t.budget ≤ e) ∧ r = number := by
  induction k with
  | zero => exact .pure fun e r _ h => ⟨.inl h.1, h.2⟩
  | succ k ih =>
    apply Counted.withinBudget_bind
    · apply Counted.bind (bear_counted rates population (fun e r _ h => h.2)
        (S := fun e r _ => e + k = total ∧ r = number) fun e r _ h => ⟨by omega, h.1.2⟩)
      intro child
      exact .bind ih fun others => .pure fun _ _ _ h => h
    · exact .pure fun e r _ h => ⟨.inr ⟨by omega, h.2⟩, h.1.2⟩

/-- Where an evolution stands between two generations: only the last one may have been cut short. -/
structure Between (t : Task α n) (p : Params α) (e r : Nat) : Prop where
  total : e = p.size + r * p.children ∨ e ≤ p.size + r * p.children ∧ t.budget ≤ e
  earlier : r = 0 ∨ p.size + (r - 1) * p.children < t.budget

/-- The generations that are begun before the budget is spent, rounded up. -/
theorem generations_eq {size children budget number : Nat} (hchildren : 0 < children)
    (hspent : budget ≤ size + number * children)
    (hearlier : number = 0 ∨ size + (number - 1) * children < budget) :
    number = (budget - size + children - 1) / children := by
  symm
  apply Nat.div_eq_of_lt_le
  · cases number with
    | zero => omega
    | succ number =>
      rw [Nat.succ_mul]
      rw [Nat.succ_sub_one] at hearlier
      omega
  · rw [Nat.succ_mul]
    omega

theorem generation_counted (hchildren : 0 < p.children) (rates : Rates α) (start : Nat) :
    Counted (terms t p) (fun e r _ => (Between t p e r ∧ e < t.budget) ∧ e = start)
      (generation t p rates : SearchM σ α n (State α n) Unit)
      fun _ e r _ => Between t p e r ∧ start < e := by
  apply Counted.named
  intro _ number
  apply Counted.assume (p := start = p.size + number * p.children ∧ start < t.budget)
  · rintro e r k ⟨⟨⟨hbetween, hlt⟩, rfl⟩, -, rfl⟩
    exact ⟨hbetween.total.resolve_right fun h => Nat.not_lt.mpr h.2 hlt, hlt⟩
  · rintro ⟨hstart, hlt⟩
    apply Counted.own_bind
    intro s
    have hall := bearAll_counted (σ := σ) (t := t) (p := p) rates s.population number
      (p.size + (number + 1) * p.children) p.children
    apply Counted.bind (hall.pre fun e r k hc => ⟨?_, hc.1.2.2⟩)
    · intro children
      apply Counted.bind (.modifyOwn_of_counts _)
      intro _
      apply Counted.endRound
      rintro e r k ⟨htotal, rfl⟩
      have hearlier : p.size + r * p.children < t.budget := hstart ▸ hlt
      refine ⟨⟨htotal, .inr hearlier⟩, ?_⟩
      rw [Nat.succ_mul] at htotal
      omega
    · have he := hc.1.1.2
      rw [Nat.succ_mul]
      omega

theorem found_counted (hchildren : 0 < p.children) :
    Counted (terms t p) (fun e r _ => e = 0 ∧ r = 0) (found t p : SearchM σ α n (State α n) Unit)
      fun _ e r _ => Between t p e r := by
  apply Counted.drawOr_bind_of (Population.length_points t p.size p.sampling p.spread)
  intro points hpoints
  apply Counted.bind (.modifyOwn_of_counts _)
  intro _
  have hall : Counted (terms t p) (fun e r _ => r = 0 ∧ e + points.length = p.size)
      (Population.evaluateAll t (keepFirst p) points : SearchM σ α n (State α n) Unit)
      fun _ e r _ => r = 0 ∧ e = p.size := by
    apply Counted.evaluateAll (fun _ h => h) _ (fun _ _ _ _ h => h)
    rintro e r k rfl hadmitted hfew hspent
    have he : e = t.budget := Nat.le_antisymm hadmitted hspent
    exact ⟨he, generations_eq hchildren (by omega) (.inl rfl)⟩
  apply Counted.bind (hall.pre fun e r k h => ⟨h.2, by omega⟩)
  intro _
  apply Counted.modifyOwn
  rintro e r k ⟨rfl, rfl⟩
  exact ⟨.inl (by omega), .inl rfl⟩

theorem run_counted (hchildren : 0 < p.children) :
    SearchM.Triple ((terms t p).Under fun e r _ => e = 0 ∧ r = 0)
      (run t p : SearchM σ α n (State α n) Unit) (fun _ => (terms t p).Over)
      (terms t p).Halts := by
  apply Counted.finish (Q := fun _ e r _ => Between t p e r ∧ t.budget ≤ e)
  · apply Counted.bind (.use p.learning)
    intro learning
    apply Counted.bind (.modifyOwn_of_counts _)
    intro _
    apply Counted.bind (.report _)
    intro _
    apply Counted.bind (found_counted hchildren)
    intro _
    apply (Counted.roundsWithin (fun start hstart => ?_) t.budget).pre fun e r k h => ⟨h, ?_⟩
    · apply (generation_counted hchildren _ start).pre
      rintro e r k ⟨hbetween, rfl⟩
      exact ⟨⟨hbetween, hstart⟩, rfl⟩
    · exact Nat.le_add_left _ _
  · rintro _ e r k ⟨hbetween, hspent⟩ hadmitted
    have he : e = t.budget := Nat.le_antisymm hadmitted hspent
    have htotal := hbetween.total
    exact ⟨he, generations_eq hchildren (by omega) hbetween.earlier⟩

end Evolution

/-! ## 2. Genetic search -/

namespace Genetic

variable {p : Params α} {lengths : Vector Nat n}

/-- The budget is never exceeded; a search that does not spend it ends with the cap on generations. -/
def terms (t : Task α n) (p : Params α) : Terms α where
  admits e := e ≤ t.budget
  ends
    | .budgetSpent, e, _ => e = t.budget
    | .generationsDone cap, e, r => cap = p.generations ∧ r = cap ∧ e < t.budget
    | .nonFinite _ _, _, _ => True
    | _, _, _ => False
  nonFinite _ _ _ _ := trivial

/-- How many children a generation has. -/
def Params.children (p : Params α) : Nat := p.size - p.elite

/-- How many evaluations a search makes before it has `j` generations. -/
def Params.evaluationsTo (p : Params α) (j : Nat) : Nat := p.size + j * p.children

omit [Scalar α] in
theorem Params.evaluationsTo_succ (p : Params α) (j : Nat) :
    p.evaluationsTo (j + 1) = p.evaluationsTo j + p.children := by
  unfold evaluationsTo
  rw [Nat.succ_mul, Nat.add_assoc]

omit [Scalar α] in
theorem Params.evaluationsTo_mono (p : Params α) {i j : Nat} (h : i ≤ j) :
    p.evaluationsTo i ≤ p.evaluationsTo j :=
  Nat.add_le_add_left (Nat.mul_le_mul_right _ h) _

/-- The generations are those that are complete after so many evaluations; children that are born
beyond them are fewer than a generation has. -/
structure Completed (p : Params α) (e r : Nat) : Prop where
  born : r * p.children ≤ e - p.size
  partly : 0 < p.children → e - p.size < (r + 1) * p.children

omit [Scalar α] in
theorem Completed.evaluationsTo (p : Params α) (j : Nat) : Completed p (p.evaluationsTo j) j := by
  have hsub : p.evaluationsTo j - p.size = j * p.children := Nat.add_sub_cancel_left _ _
  constructor
  · exact Nat.le_of_eq hsub.symm
  · intro hchildren
    rw [hsub, Nat.succ_mul]
    exact Nat.lt_add_of_pos_right hchildren

/-- The terms with an account of the evaluations and the generations. -/
def accounts (t : Task α n) (p : Params α) : Terms α where
  admits e := e ≤ t.budget ∧ e ≤ p.evaluationsTo p.generations
  ends
    | .budgetSpent, e, r => e = t.budget ∧ Completed p e r
    | .generationsDone cap, e, r =>
      cap = p.generations ∧ r = cap ∧ e = p.evaluationsTo p.generations ∧ e < t.budget
    | .nonFinite _ _, _, _ => True
    | _, _, _ => False
  nonFinite _ _ _ _ := trivial

/-- The terms are what the account says of the budget. -/
theorem terms_of_accounts {phase : Phase α} {e r : Nat} (h : (accounts t p).ends phase e r) :
    (terms t p).ends phase e r := by
  cases phase with
  | budgetSpent => exact h.1
  | generationsDone cap => exact ⟨h.1, h.2.1, h.2.2.2⟩
  | nonFinite cost evaluation => trivial
  | _ => exact h

omit [DrawSource σ α] in
theorem requireBudget_counted {P : Nat → Nat → List (Sample α n) → Prop}
    (h : ∀ e r k, P e r k → Completed p e r) :
    Counted (accounts t p) P (SearchM.requireBudget t : SearchM σ α n (List (Sample α n)) Unit)
      fun _ e r k => P e r k ∧ e < t.budget :=
  .requireBudget fun e r k hP hadmitted hspent =>
    ⟨Nat.le_antisymm hadmitted.1 hspent, h e r k hP⟩

/-! ### A generation -/

/-- The next generation has `m` members: its elite and the children that are born. -/
structure Filling (p : Params α) (j m e : Nat) : Prop where
  atMost : m ≤ p.size
  elite : p.size - m ≤ p.children
  missing : e + (p.size - m) = p.evaluationsTo (j + 1)

omit [Scalar α] in
/-- Before the next generation is full, those that are complete are the ones before it. -/
theorem Filling.completed {j m e : Nat} (h : Filling p j m e) (hm : m < p.size) :
    Completed p e j := by
  have hmissing := h.missing
  have helite := h.elite
  rw [Params.evaluationsTo_succ] at hmissing
  unfold Params.evaluationsTo at hmissing
  constructor
  · omega
  · intro _
    rw [Nat.succ_mul]
    omega

omit [Scalar α] in
theorem Filling.succ {j m e : Nat} (h : Filling p j m e) (hm : m < p.size) :
    Filling p j (m + 1) (e + 1) := by
  have hmissing := h.missing
  have helite := h.elite
  constructor <;> omega

omit [DrawSource σ α] in
theorem enroll_counted {j : Nat} (hj : j < p.generations) (children : List (Point α n))
    (next : List (Sample α n)) :
    Counted (accounts t p) (fun e r _ => Filling p j next.length e ∧ r = j)
      (enroll t p children next : SearchM σ α n (List (Sample α n)) (List (Sample α n)))
      fun next' e r _ => (Filling p j next'.length e ∧ r = j) ∧
        min p.size (next.length + children.length) ≤ next'.length := by
  induction children generalizing next with
  | nil => exact .pure fun _ _ _ h => ⟨h, Nat.min_le_right _ _⟩
  | cons x rest ih =>
    apply Counted.ite
    · intro hfew
      have hlast : p.evaluationsTo (j + 1) ≤ p.evaluationsTo p.generations :=
        p.evaluationsTo_mono hj
      apply Counted.bind (requireBudget_counted fun e r _ h => h.2 ▸ h.1.completed hfew)
      intro _
      apply Counted.bind (.trial (S := fun e r _ => Filling p j (next.length + 1) e ∧ r = j) ?_ ?_)
      · intro v
        have hnext : (next ++ [(⟨x, .finite v⟩ : Sample α n)]).length = next.length + 1 :=
          List.length_append
        have hrest := ih (next ++ [⟨x, .finite v⟩])
        rw [hnext] at hrest
        refine hrest.post fun next' e r _ h => ⟨h.1, ?_⟩
        rw [List.length_cons]
        omega
      · rintro e r _ ⟨⟨hfilling, -⟩, hlt⟩
        have hmissing := hfilling.missing
        exact ⟨hlt, by omega⟩
      · rintro e r _ ⟨⟨hfilling, hr⟩, -⟩
        exact ⟨hfilling.succ hfew, hr⟩
    · intro hfull
      exact .pure fun _ _ _ h => ⟨h, by omega⟩

omit [Scalar α] [DrawSource σ α] in
theorem memberAt_counted {T : Terms α} {P : Nat → Nat → List (Sample α n) → Prop}
    (population : List (Sample α n)) (i : Nat) :
    Counted T P (memberAt population i : SearchM σ α n (List (Sample α n)) (Point α n))
      fun _ => P := by
  unfold memberAt
  cases population[i]? with
  | none => exact .fault
  | some s => exact .pure fun _ _ _ h => h

/-- Every pair of parents adds a child at least, so that as many pairs as there are places fill the
next generation. -/
theorem fillGeneration_counted (lengths : Vector Nat n) {j : Nat} (hj : j < p.generations)
    (population : List (Sample α n)) (wheel : List Nat) (fuel : Nat) (next : List (Sample α n))
    (hfuel : p.size ≤ next.length + fuel) :
    Counted (accounts t p) (fun e r _ => Filling p j next.length e ∧ r = j)
      (fillGeneration t p lengths population wheel fuel next :
        SearchM σ α n (List (Sample α n)) (List (Sample α n)))
      fun next' e r _ => next'.length = p.size ∧ e = p.evaluationsTo (j + 1) ∧ r = j := by
  have hfull : ∀ (m e r : Nat), p.size ≤ m → Filling p j m e ∧ r = j →
      m = p.size ∧ e = p.evaluationsTo (j + 1) ∧ r = j := by
    intro m e r hm h
    have hatMost := h.1.atMost
    have hmissing := h.1.missing
    exact ⟨by omega, by omega, h.2⟩
  induction fuel generalizing next with
  | zero => exact .pure fun e r _ h => hfull _ e r hfuel h
  | succ fuel ih =>
    apply Counted.ite
    · intro hfew
      apply Counted.bind (.draw _)
      intro i
      apply Counted.bind (memberAt_counted population i)
      intro a
      apply Counted.bind (.draw _)
      intro i'
      apply Counted.bind (memberAt_counted population i')
      intro b
      apply Counted.bind (.drawOr (breed t.region p lengths a b))
      rintro ⟨childA, childB⟩
      apply Counted.bind (enroll_counted hj [childA, childB] next)
      intro next'
      apply Counted.assume (p := p.size ≤ next'.length + fuel)
      · rintro e r _ ⟨-, hmore⟩
        simp only [List.length_cons, List.length_nil] at hmore
        omega
      · intro hfuel'
        exact (ih next' hfuel').pre fun _ _ _ h => h.1
    · intro hnone
      exact .pure fun e r _ h => hfull _ e r (Nat.le_of_not_lt hnone) h

/-- The population is full, and `j` generations are complete. -/
structure Grown (p : Params α) (j e r : Nat) (population : List (Sample α n)) : Prop where
  full : population.length = p.size
  rounds : r = j
  evaluations : e = p.evaluationsTo j

theorem generation_counted {j : Nat} (hj : j < p.generations) :
    Counted (accounts t p) (Grown p j)
      (generation t p lengths : SearchM σ α n (List (Sample α n)) Unit)
      fun _ => Grown p (j + 1) := by
  apply Counted.bind (.modifyOwn (S := Grown p j) fun e r k h => ?_)
  · intro _
    apply Counted.own_bind
    intro population
    apply Counted.assume (p := population.length = p.size)
    · rintro e r k ⟨hgrown, rfl⟩
      exact hgrown.full
    · intro hfull
      have hkept : (population.take p.elite).length = min p.elite p.size := by
        rw [List.length_take, hfull]
      have hfill := fillGeneration_counted (σ := σ) (t := t) lengths hj population
        (Wheel.ofCosts (population.map (·.cost))) p.size (population.take p.elite)
        (Nat.le_add_left _ _)
      apply Counted.bind (hfill.pre fun e r k h => ?_)
      · intro next
        apply Counted.bind (Q := fun _ e r k => k.length = p.size ∧ e = p.evaluationsTo (j + 1) ∧ r = j)
        · exact .setOwn fun _ _ _ h => h
        · intro _
          exact .endRound fun e r k h => ⟨h.1, congrArg (· + 1) h.2.2, h.2.1⟩
      · have hchildren : p.children = p.size - p.elite := rfl
        have hevaluations := h.1.evaluations
        have hsucc := p.evaluationsTo_succ j
        rw [hkept]
        exact ⟨⟨by omega, by omega, by omega⟩, h.1.rounds⟩
  · exact ⟨(Cost.length_rank _ k).trans h.full, h.rounds, h.evaluations⟩

/-! ### A search -/

theorem found_counted (k : Nat) (given : List (Point α n)) :
    Counted (accounts t p) (fun e r own => own.length = e ∧ e + k = p.size ∧ r = 0)
      (found t k given : SearchM σ α n (List (Sample α n)) Unit) fun _ => Grown p 0 := by
  have hfirst : p.evaluationsTo 0 = p.size := by
    rw [Params.evaluationsTo, Nat.zero_mul, Nat.add_zero]
  have hlast := p.evaluationsTo_mono (Nat.zero_le p.generations)
  induction k generalizing given with
  | zero => exact .pure fun e r own h => ⟨by omega, h.2.2, by omega⟩
  | succ k ih =>
    apply Counted.bind (requireBudget_counted fun e r own h => ?_)
    · intro _
      apply Counted.bind (.draw (newcomer t.region given))
      intro x
      apply Counted.bind (.evaluate
        (S := fun e r own => own.length + 1 = e ∧ e + k = p.size ∧ r = 0) ?_ ?_)
      · intro c
        apply Counted.bind (.modifyOwn (S := fun e r own => own.length = e ∧ e + k = p.size ∧ r = 0)
          fun e r own h => ⟨List.length_append.trans h.1, h.2⟩)
        intro _
        exact .bind (.requireFinite c) fun _ => ih _
      · rintro e r own ⟨⟨-, hmissing, -⟩, hlt⟩
        exact ⟨hlt, by omega⟩
      · rintro e r own ⟨⟨hlength, hmissing, hr⟩, -⟩
        exact ⟨by omega, by omega, hr⟩
    · obtain ⟨-, hmissing, rfl⟩ := h
      constructor
      · rw [Nat.zero_mul]
        exact Nat.zero_le _
      · intro hchildren
        rw [Nat.zero_add, Nat.one_mul]
        omega

/-- The search with at most `k` generations. -/
def upTo (t : Task α n) (p : Params α) (lengths : Vector Nat n) (k : Nat) :
    SearchM σ α n (List (Sample α n)) Unit := do
  SearchM.setOwn []
  found t p.size t.starts
  SearchM.report (.populationReady p.size (min t.starts.length p.size))
  SearchM.roundsWithin t (generation t p lengths) k

/-- The whole search looks at its budget once more after its last generation. -/
theorem run_eq_upTo :
    (run t p lengths : SearchM σ α n (List (Sample α n)) Unit) =
      upTo t p lengths p.generations >>= fun _ =>
        SearchM.stopWithin t (.generationsDone p.generations) := by
  unfold run upTo generations
  simp only [bind_assoc]

theorem upTo_counted (lengths : Vector Nat n) {k : Nat} (hk : k ≤ p.generations) :
    Counted (accounts t p) (fun e r _ => e = 0 ∧ r = 0)
      (upTo t p lengths k : SearchM σ α n (List (Sample α n)) Unit)
      fun _ e r own => ∃ j ≤ k, Grown p j e r own ∧ (e < t.budget → j = k) := by
  apply Counted.bind (Q := fun _ e r own => own.length = e ∧ e + p.size = p.size ∧ r = 0)
  · apply Counted.setOwn
    rintro e r _ ⟨rfl, rfl⟩
    exact ⟨rfl, Nat.zero_add _, rfl⟩
  · intro _
    apply Counted.bind (found_counted p.size t.starts)
    intro _
    apply Counted.bind (.report _)
    intro _
    apply Counted.roundsWithin_times (I := Grown p) (fun j hj => ?_) k 0 (Nat.zero_add k)
    exact (generation_counted (Nat.lt_of_lt_of_le hj hk)).pre fun _ _ _ h => h.1

theorem run_counted :
    SearchM.Triple ((accounts t p).Under fun e r _ => e = 0 ∧ r = 0)
      (run t p lengths : SearchM σ α n (List (Sample α n)) Unit) (fun _ => (accounts t p).Over)
      (accounts t p).Halts := by
  rw [run_eq_upTo]
  apply SearchM.Triple.bind (upTo_counted lengths (Nat.le_refl _))
  intro _
  apply Counted.stopWithin rfl
  · rintro e r _ ⟨j, -, hgrown, hdone⟩ hlt
    obtain rfl := hdone hlt
    exact ⟨rfl, hgrown.rounds, hgrown.evaluations, hlt⟩
  · rintro e r _ ⟨j, -, hgrown, -⟩ hadmitted hspent
    obtain rfl := hgrown.rounds
    exact ⟨Nat.le_antisymm hadmitted.1 hspent, hgrown.evaluations ▸ .evaluationsTo p r⟩

end Genetic

end BoxSearch
