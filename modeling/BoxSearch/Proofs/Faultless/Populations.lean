import Mathlib
import BoxSearch.Proofs.Faultless.Choices
import BoxSearch.Proofs.Faultless.Steps
import BoxSearch.Proofs.Feasible.Populations

/-!
# Methods that find their parents

A wheel with a place for every member selects a member, and a family is drawn from as many members as
it was drawn for.  So genetic search and evolution meet no fault as long as there are members: a
generation of genetic search has at least one, and evolution keeps as many as it started from.  Genetic
search has no need of uniform numbers in the unit interval, nor of an objective that always answers: it
is flawless.
-/

namespace BoxSearch

variable {σ : Type} [DrawSource σ ℝ] {n : ℕ} {t : Task ℝ n}

/-! ## 1. Genetic search -/

namespace Genetic

/-- There are at least `k` members, all of them feasible. -/
structure Stocked (r : Region ℝ n) (k : ℕ) (population : List (Sample ℝ n)) : Prop where
  settled : Settled r population
  length : k ≤ population.length

theorem Stocked.append {r : Region ℝ n} {k : ℕ} {population : List (Sample ℝ n)}
    (h : Stocked r k population) {s : Sample ℝ n} (hs : r.Feasible s.point) :
    Stocked r (k + 1) (population ++ [s]) :=
  ⟨settled_append h.settled hs, List.length_append ▸ Nat.add_le_add_right h.length 1⟩

variable {p : Params ℝ} {lengths : Vector ℕ n} {I : List (Sample ℝ n) → Prop}

omit [DrawSource σ ℝ] in
/-- Children are enrolled until the generation is full. -/
theorem enroll_flawless {xs : List (Point ℝ n)} (hxs : ∀ x ∈ xs, t.region.Feasible x)
    {next : List (Sample ℝ n)} {k : ℕ} (hnext : Stocked t.region k next) :
    Flawless t I (enroll t p xs next : SearchM σ ℝ n (List (Sample ℝ n)) (List (Sample ℝ n)))
      fun next' own => Stocked t.region (min p.size (k + xs.length)) next' ∧ I own := by
  induction xs generalizing next k with
  | nil => exact .pure fun _ hk => ⟨⟨hnext.settled, (min_le_right _ _).trans hnext.length⟩, hk⟩
  | cons x rest ih =>
    have hx : t.region.Feasible x := hxs x List.mem_cons_self
    apply Flawless.ite
    · intro _
      apply Flawless.bind .requireBudget
      intro _
      apply Flawless.bind (.trial hx)
      intro v
      rw [List.length_cons, ← Nat.add_assoc, Nat.add_right_comm]
      exact ih (fun y hy => hxs y (List.mem_cons_of_mem x hy)) (hnext.append hx)
    · intro hfull
      exact .pure fun _ hk => ⟨⟨hnext.settled, (min_le_left _ _).trans (not_lt.mp hfull)⟩, hk⟩

omit [DrawSource σ ℝ] in
theorem memberAt_flawless {population : List (Sample ℝ n)} (h : Settled t.region population) {i : ℕ}
    (hi : i < population.length) :
    Flawless t I (memberAt population i : SearchM σ ℝ n (List (Sample ℝ n)) (Point ℝ n))
      fun x own => t.region.Feasible x ∧ I own := by
  unfold memberAt
  rw [List.getElem?_eq_getElem hi]
  exact .pure fun _ hk => ⟨h _ (List.getElem_mem hi), hk⟩

theorem found_flawless (k : ℕ) {given : List (Point ℝ n)}
    (hgiven : ∀ x ∈ given, t.region.Feasible x) (j : ℕ) :
    Flawless t (Stocked t.region j)
      (found t k given : SearchM σ ℝ n (List (Sample ℝ n)) Unit)
      fun _ => Stocked t.region (j + k) := by
  induction k generalizing given j with
  | zero => exact .pure fun _ hk => hk
  | succ k ih =>
    apply Flawless.bind .requireBudget
    intro _
    apply Flawless.draw_bind (newcomer_gives _ hgiven)
    intro x hx
    apply Flawless.bind (.evaluate hx)
    intro c
    apply Flawless.bind (.modifyOwn (J := Stocked t.region (j + 1)) fun _ hk => hk.append hx)
    intro _
    apply Flawless.bind (.requireFinite c)
    intro _
    rw [← Nat.add_assoc, Nat.add_right_comm]
    exact ih (fun y hy => hgiven y (List.mem_of_mem_drop hy)) (j + 1)

section

variable (hp : p.IsNumeric) (hlengths : codeLengths t.region = .ok lengths)
  (hshort : ∀ i, lengths.get i ≤ longestCode)

include hp hlengths hshort

/-- Every couple adds a member to a generation that is not full. -/
theorem fillGeneration_flawless {population : List (Sample ℝ n)}
    (h : Stocked t.region 1 population) (fuel : ℕ) {next : List (Sample ℝ n)} {k : ℕ}
    (hnext : Stocked t.region k next) :
    Flawless t I
      (fillGeneration t p lengths population (Wheel.ofCosts (population.map (·.cost))) fuel next :
        SearchM σ ℝ n (List (Sample ℝ n)) (List (Sample ℝ n)))
      fun next' own => Stocked t.region (min p.size (k + fuel)) next' ∧ I own := by
  have hlength : (Wheel.ofCosts (population.map (·.cost))).length = population.length :=
    (Wheel.length_ofCosts _).trans (List.length_map _)
  have hwheel : Wheel.ofCosts (population.map (·.cost)) ≠ [] :=
    List.ne_nil_of_length_pos (hlength ▸ h.length)
  induction fuel generalizing next k with
  | zero => exact .pure fun _ hk => ⟨⟨hnext.settled, (min_le_right _ _).trans hnext.length⟩, hk⟩
  | succ fuel ih =>
    apply Flawless.ite
    · intro _
      apply Flawless.draw_bind (Wheel.spin_gives hwheel)
      intro i hi
      apply Flawless.bind_of (memberAt_flawless h.settled (hlength ▸ hi))
      intro a ha
      apply Flawless.draw_bind (Wheel.spin_gives hwheel)
      intro j hj
      apply Flawless.bind_of (memberAt_flawless h.settled (hlength ▸ hj))
      intro b hb
      apply Flawless.drawOr_bind (breed_meets hp (inherits_of_feasible hlengths hshort ha)
        (inherits_of_feasible hlengths hshort hb))
      intro children hchildren
      have hpair : ∀ x ∈ [children.1, children.2], t.region.Feasible x := by
        intro x hx
        rcases List.mem_pair.mp hx with rfl | rfl
        · exact hchildren.1
        · exact hchildren.2
      apply Flawless.bind_of (enroll_flawless hpair hnext)
      intro next' hnext'
      refine (ih hnext').post fun _ _ hk => ⟨⟨hk.1.settled, le_trans ?_ hk.1.length⟩, hk.2⟩
      rw [List.length_cons, List.length_singleton]
      omega
    · intro hfull
      exact .pure fun _ hk => ⟨⟨hnext.settled, (min_le_left _ _).trans (not_lt.mp hfull)⟩, hk⟩

theorem generation_flawless (hsize : 0 < p.size) :
    Flawless t (Stocked t.region 1)
      (generation t p lengths : SearchM σ ℝ n (List (Sample ℝ n)) Unit)
      fun _ => Stocked t.region 1 := by
  have hrank (k : List (Sample ℝ n)) (hk : Stocked t.region 1 k) :
      Stocked t.region 1 (Cost.rank (·.cost) k) :=
    ⟨fun s hs => hk.settled s ((Cost.rank_perm _ k).mem_iff.mp hs),
      hk.length.trans_eq (Cost.length_rank _ k).symm⟩
  apply Flawless.bind (.modifyOwn hrank)
  intro _
  apply Flawless.own_bind
  intro population hpopulation
  have helite : Stocked t.region 0 (population.take p.elite) :=
    ⟨fun s hs => hpopulation.settled s (List.mem_of_mem_take hs), Nat.zero_le _⟩
  apply Flawless.bind_of (fillGeneration_flawless hp hlengths hshort hpopulation p.size helite)
  intro next hnext
  rw [Nat.zero_add, min_self] at hnext
  exact .bind (.setOwn ⟨hnext.settled, hsize.trans_le hnext.length⟩) fun _ => .modifyLedger

/-- Only the objective can fail, whatever is drawn. -/
theorem run_flawless (hstarts : ∀ x ∈ t.starts, t.region.Feasible x) (hsize : 0 < p.size) :
    Flawless t (fun _ => True) (run t p lengths : SearchM σ ℝ n (List (Sample ℝ n)) Unit)
      fun _ => Stocked t.region 1 := by
  have hempty : Stocked t.region 0 [] := ⟨(fun _ hs => nomatch hs), le_rfl⟩
  apply Flawless.bind (.setOwn hempty)
  intro _
  have hfound : Flawless t (Stocked t.region 0)
      (found t p.size t.starts : SearchM σ ℝ n (List (Sample ℝ n)) Unit)
      fun _ => Stocked t.region 1 := by
    refine (found_flawless p.size hstarts 0).post fun _ _ hk => ⟨hk.settled, hsize.trans_le ?_⟩
    rw [← Nat.zero_add p.size]
    exact hk.length
  apply Flawless.bind hfound
  intro _
  apply Flawless.bind .modifyLedger
  intro _
  apply Flawless.bind (.roundsWithin (generation_flawless hp hlengths hshort hsize) _)
  exact fun _ => .stopWithin _

theorem run_faultless (ht : t.objective.Answers) (hstarts : ∀ x ∈ t.starts, t.region.Feasible x)
    (hsize : 0 < p.size) :
    Faultless (fun _ _ => True) (run t p lengths : SearchM σ ℝ n (List (Sample ℝ n)) Unit)
      fun _ _ => Stocked t.region 1 :=
  (run_flawless hp hlengths hshort hstarts hsize).faultless ht

end

end Genetic

/-! ## 2. Evolution -/

namespace Evolution

/-- There are `k` members, all of them feasible. -/
structure Stocked (r : Region ℝ n) (k : ℕ) (population : List (Member ℝ n)) : Prop where
  settled : Settled r population
  length : population.length = k

/-- A child has parents, and not more than there are members. -/
structure Params.FamiliesFit {α : Type} (p : Params α) : Prop where
  some : 0 < p.parents
  few : p.parents ≤ p.size

variable {p : Params ℝ}

section

variable (ht : t.objective.Answers) (hunit : UnitDraws σ) (hp : p.IsNumeric) (hfit : p.FamiliesFit)
  (hwords : HasWords t.region)

include ht hunit hp hfit hwords

theorem bear_faultless {I : State ℝ n → Prop} (rates : Rates ℝ) {population : List (Member ℝ n)}
    (h : Stocked t.region p.size population) :
    Faultless (fun _ => I) (bear t p rates population : SearchM σ ℝ n (State ℝ n) (Member ℝ n))
      fun m _ own => t.region.Feasible m.point ∧ I own := by
  apply Faultless.drawOr_bind (marry_chooses hunit hfit.few)
  rintro places ⟨hcount, hplaces⟩
  obtain ⟨parents, hparents, hlength⟩ :=
    membersAt_eq_some population fun i hi => h.length.symm ▸ hplaces i hi
  rw [hparents]
  have hwhole : ∀ m ∈ parents, m.point.IsWholeIn t.region :=
    fun m hm => (h.settled m (mem_of_mem_membersAt hparents m hm)).2
  have hsome : parents.map (·.point) ≠ [] := by
    rw [← List.length_pos_iff, List.length_map, hlength, hcount]
    exact hfit.some
  apply Faultless.bind (.useNumber hp.stepSize)
  intro _
  apply Faultless.drawOr_bind (conceive_meets p rates hwhole (fun hnone => hnone hwords)
    (donors_chooses hunit hsome))
  intro child hchild
  apply Faultless.bind (.trial ht (S := fun _ => I) fun _ _ _ hk => hk)
  exact fun v => .pure fun _ _ hk => ⟨hchild, hk⟩

theorem bearAll_faultless {I : State ℝ n → Prop} (rates : Rates ℝ) {population : List (Member ℝ n)}
    (h : Stocked t.region p.size population) (k : ℕ) :
    Faultless (fun _ => I)
      (bearAll t p rates population k : SearchM σ ℝ n (State ℝ n) (List (Member ℝ n)))
      fun children _ own => Settled t.region children ∧ I own := by
  have hnone : Settled t.region ([] : List (Member ℝ n)) := fun m hm => nomatch hm
  induction k with
  | zero => exact .pure fun _ _ hk => ⟨hnone, hk⟩
  | succ k ih =>
    apply Faultless.bind .withinBudget
    intro b
    apply Faultless.ite
    · intro _
      apply Faultless.bind_of (bear_faultless ht hunit hp hfit hwords rates h)
      intro child hchild
      apply Faultless.bind_of ih
      intro others hothers
      exact .pure fun _ _ hk => ⟨List.forall_mem_cons.mpr ⟨hchild, hothers⟩, hk⟩
    · exact fun _ => .pure fun _ _ hk => ⟨hnone, hk⟩

theorem generation_faultless (rates : Rates ℝ) :
    Faultless (fun _ s => Stocked t.region p.size s.population)
      (generation t p rates : SearchM σ ℝ n (State ℝ n) Unit)
      fun _ _ s => Stocked t.region p.size s.population := by
  apply Faultless.own_bind
  intro o s hs
  apply Faultless.bind_of (bearAll_faultless ht hunit hp hfit hwords rates hs p.children)
  intro children hchildren
  have hsurvivors : Stocked t.region p.size (survivors p s.population children) := by
    refine ⟨settled_survivors hs.settled hchildren, ?_⟩
    rw [survivors, List.length_take, Cost.length_rank, List.length_append, hs.length]
    exact min_eq_left (Nat.le_add_right _ _)
  apply Faultless.bind (.modifyOwn (S := fun _ s => Stocked t.region p.size s.population)
    fun _ _ _ => hsurvivors)
  exact fun _ => .endRound

end

theorem found_faultless (ht : t.objective.Answers)
    (hstarts : ∀ x ∈ t.starts, t.region.Feasible x) (hp : p.IsNumeric) :
    Faultless (fun _ _ => True) (found t p : SearchM σ ℝ n (State ℝ n) Unit)
      fun _ _ s => Stocked t.region p.size s.population := by
  have hchoice := Population.points_meets (σ := σ) (F := fun _ => False) hstarts p.size p.sampling
    hp.spread
  apply Faultless.drawOr_bind (hchoice.and (Population.length_points t p.size p.sampling p.spread))
  rintro points ⟨hpoints, hlength⟩
  have hnone : Stocked t.region 0 ([] : List (Member ℝ n)) := ⟨(fun _ hm => nomatch hm), rfl⟩
  apply Faultless.bind (.modifyOwn (S := fun _ s => Stocked t.region 0 s.population)
    fun _ _ _ => hnone)
  intro _
  have hkeep (s : Sample ℝ n) (j : ℕ) (own : State ℝ n) (hs : s.point ∈ points)
      (hown : Stocked t.region j own.population) :
      Stocked t.region (j + 1) (keepFirst p s own).population := by
    refine ⟨?_, List.length_append.trans (congrArg (· + 1) hown.length)⟩
    intro m hm
    rcases List.mem_append.mp hm with hold | hnew
    · exact hown.settled m hold
    · rw [List.mem_singleton.mp hnew]
      exact hpoints _ hs
  apply Faultless.bind (.evaluateAll ht points hkeep 0)
  intro _
  refine .modifyOwn fun _ s hs => ⟨fun m hm => hs.settled m ((Cost.rank_perm _ _).mem_iff.mp hm), ?_⟩
  rw [Cost.length_rank, hs.length, hlength, Nat.zero_add]

theorem run_faultless (ht : t.objective.Answers) (hunit : UnitDraws σ)
    (hstarts : ∀ x ∈ t.starts, t.region.Feasible x) (hp : p.IsNumeric) (hfit : p.FamiliesFit)
    (hwords : HasWords t.region) :
    Faultless (fun _ _ => True) (run t p : SearchM σ ℝ n (State ℝ n) Unit)
      fun _ _ s => Stocked t.region p.size s.population := by
  apply Faultless.bind (.useNumber hp.learning)
  intro learning
  apply Faultless.bind (.modifyOwn (S := fun _ _ => True) fun _ _ hk => hk)
  intro _
  apply Faultless.bind (.report _)
  intro _
  apply Faultless.bind (found_faultless ht hstarts hp)
  exact fun _ => .roundsWithin (generation_faultless ht hunit hp hfit hwords _) _

end Evolution

end BoxSearch
