import Mathlib
import BoxSearch.Proofs.Feasible.Confined
import BoxSearch.Proofs.Feasible.Offspring

/-!
# Methods that breed from a population

Children inherit the integer variables of their parents as they are.  Genetic search and evolution are
confined because every member of the population is feasible: the first members are chosen in the
region, a child of feasible parents is feasible, and a selection brings in nobody else.
-/

namespace BoxSearch

variable {σ : Type} [DrawSource σ ℝ] {n : ℕ} {t : Task ℝ n}

/-! ## 1. Genetic search -/

namespace Genetic

/-- Every member of a population is feasible. -/
def Settled (r : Region ℝ n) (population : List (Sample ℝ n)) : Prop :=
  ∀ s ∈ population, r.Feasible s.point

theorem settled_append {r : Region ℝ n} {population : List (Sample ℝ n)}
    (h : Settled r population) {s : Sample ℝ n} (hs : r.Feasible s.point) :
    Settled r (population ++ [s]) := by
  intro s' hs'
  rcases List.mem_append.mp hs' with hold | hnew
  · exact h s' hold
  · rw [List.mem_singleton.mp hnew]
    exact hs

variable {p : Params ℝ} {I : List (Sample ℝ n) → Prop}

omit [DrawSource σ ℝ] in
theorem enroll_confined {xs : List (Point ℝ n)} (hxs : ∀ x ∈ xs, t.region.Feasible x)
    {next : List (Sample ℝ n)} (hnext : Settled t.region next) :
    Confined t I (enroll t p xs next : SearchM σ ℝ n (List (Sample ℝ n)) (List (Sample ℝ n)))
      fun next' k => Settled t.region next' ∧ I k := by
  induction xs generalizing next with
  | nil => exact .pure fun _ hk => ⟨hnext, hk⟩
  | cons x rest ih =>
    have hx : t.region.Feasible x := hxs x List.mem_cons_self
    have hrest : ∀ y ∈ rest, t.region.Feasible y := fun y hy => hxs y (List.mem_cons_of_mem x hy)
    apply Confined.ite
    · intro _
      apply Confined.bind .requireBudget
      intro _
      apply Confined.bind (.trial hx)
      intro v
      exact ih hrest (settled_append hnext hx)
    · intro _
      exact .pure fun _ hk => ⟨hnext, hk⟩

omit [DrawSource σ ℝ] in
theorem memberAt_confined {population : List (Sample ℝ n)} (h : Settled t.region population)
    (i : ℕ) :
    Confined t I (memberAt population i : SearchM σ ℝ n (List (Sample ℝ n)) (Point ℝ n))
      fun x k => t.region.Feasible x ∧ I k := by
  unfold memberAt
  cases hi : population[i]? with
  | none => exact .throw (e := .fault .noSuchMember) trivial
  | some s => exact .pure fun _ hk => ⟨h s (List.mem_of_getElem? hi), hk⟩

theorem fillGeneration_confined (hp : p.IsNumeric) (lengths : Vector ℕ n)
    {population : List (Sample ℝ n)} (h : Settled t.region population) (wheel : List ℕ) (fuel : ℕ)
    {next : List (Sample ℝ n)} (hnext : Settled t.region next) :
    Confined t I (fillGeneration t p lengths population wheel fuel next :
      SearchM σ ℝ n (List (Sample ℝ n)) (List (Sample ℝ n)))
      fun next' k => Settled t.region next' ∧ I k := by
  induction fuel generalizing next with
  | zero => exact .pure fun _ hk => ⟨hnext, hk⟩
  | succ fuel ih =>
    apply Confined.ite
    · intro _
      apply Confined.draw_bind (.trivial _)
      intro i _
      apply Confined.bind_of (memberAt_confined h i)
      intro a ha
      apply Confined.draw_bind (.trivial _)
      intro j _
      apply Confined.bind_of (memberAt_confined h j)
      intro b hb
      apply Confined.drawOr_bind (breed_meets hp (inherits_isOrdinary ha.2) (inherits_isOrdinary hb.2))
      intro children hchildren
      have hpair : ∀ x ∈ [children.1, children.2], t.region.Feasible x := by
        intro x hx
        rcases List.mem_cons.mp hx with rfl | hx
        · exact hchildren.1
        · rw [List.mem_singleton.mp hx]
          exact hchildren.2
      exact .bind_of (enroll_confined hpair hnext) fun next' hnext' => ih hnext'
    · intro _
      exact .pure fun _ hk => ⟨hnext, hk⟩

theorem generation_confined (hp : p.IsNumeric) (lengths : Vector ℕ n) :
    Confined t (Settled t.region)
      (generation t p lengths : SearchM σ ℝ n (List (Sample ℝ n)) Unit)
      fun _ => Settled t.region := by
  have hrank (k : List (Sample ℝ n)) (hk : Settled t.region k) :
      Settled t.region (Cost.rank (·.cost) k) :=
    fun s hs => hk s ((Cost.rank_perm _ k).mem_iff.mp hs)
  apply Confined.bind (.modifyOwn hrank)
  intro _
  apply Confined.own_bind
  intro population hpopulation
  have helite : Settled t.region (population.take p.elite) :=
    fun s hs => hpopulation s (List.mem_of_mem_take hs)
  apply Confined.bind_of (fillGeneration_confined hp lengths hpopulation _ _ helite)
  intro next hnext
  exact .bind (.setOwn hnext) fun _ => .endRound

theorem generations_confined (hp : p.IsNumeric) (lengths : Vector ℕ n) :
    Confined t (Settled t.region)
      (generations t p lengths : SearchM σ ℝ n (List (Sample ℝ n)) Unit)
      fun _ => Settled t.region :=
  .bind (.roundsWithin (generation_confined hp lengths) _) fun _ => .stopWithin _

theorem newcomer_gives (r : Region ℝ n) {given : List (Point ℝ n)}
    (h : ∀ x ∈ given, r.Feasible x) : Gives r.Feasible (newcomer r given : StateM σ (Point ℝ n)) := by
  cases given with
  | nil => exact Draw.uniformPoint_gives r
  | cons x rest => exact .pure (h x List.mem_cons_self)

theorem found_confined (k : ℕ) {given : List (Point ℝ n)}
    (hgiven : ∀ x ∈ given, t.region.Feasible x) :
    Confined t (Settled t.region)
      (found t k given : SearchM σ ℝ n (List (Sample ℝ n)) Unit) fun _ => Settled t.region := by
  induction k generalizing given with
  | zero => exact .pure fun _ hk => hk
  | succ k ih =>
    have hrest : ∀ x ∈ given.drop 1, t.region.Feasible x :=
      fun x hx => hgiven x (List.mem_of_mem_drop hx)
    apply Confined.bind .requireBudget
    intro _
    apply Confined.draw_bind (newcomer_gives _ hgiven)
    intro x hx
    apply Confined.bind (.evaluate hx)
    intro c
    apply Confined.bind (.modifyOwn fun population hpopulation => settled_append hpopulation hx)
    intro _
    exact .bind (.requireFinite c) fun _ => ih hrest

theorem run_confined (hstarts : ∀ x ∈ t.starts, t.region.Feasible x) (hp : p.IsNumeric)
    (lengths : Vector ℕ n) :
    Confined t (fun _ => True) (run t p lengths : SearchM σ ℝ n (List (Sample ℝ n)) Unit)
      fun _ => Settled t.region := by
  have hempty : Settled t.region [] := fun s hs => nomatch hs
  apply Confined.bind (.setOwn hempty)
  intro _
  apply Confined.bind (found_confined _ hstarts)
  intro _
  exact .bind (.report _) fun _ => generations_confined hp lengths

end Genetic

/-! ## 2. Evolution -/

/-- What is looked up for all items of a list is looked up for one after the other. -/
theorem forall₂_of_mapM_eq_some {β γ : Type} {f : β → Option γ} {items : List β} {found : List γ}
    (h : items.mapM f = some found) : List.Forall₂ (fun b c => f b = some c) items found := by
  induction items generalizing found with
  | nil =>
    rw [List.mapM_nil] at h
    obtain rfl := Option.some.inj h
    exact .nil
  | cons b items ih =>
    rw [List.mapM_cons] at h
    obtain ⟨c, hc, h⟩ := Option.bind_eq_some_iff.mp h
    obtain ⟨others, hothers, h⟩ := Option.bind_eq_some_iff.mp h
    obtain rfl := Option.some.inj h
    exact .cons hc (ih hothers)

theorem exists_of_mem_mapM {β γ : Type} {f : β → Option γ} {items : List β} {found : List γ}
    (h : items.mapM f = some found) {c : γ} (hc : c ∈ found) : ∃ b ∈ items, f b = some c := by
  have hall := forall₂_of_mapM_eq_some h
  clear h
  induction hall with
  | nil => exact nomatch hc
  | cons hfirst _ ih =>
    rcases List.mem_cons.mp hc with rfl | hc
    · exact ⟨_, List.mem_cons_self, hfirst⟩
    · obtain ⟨b, hb, hbc⟩ := ih hc
      exact ⟨b, List.mem_cons_of_mem _ hb, hbc⟩

namespace Evolution

/-- Every member of the population is feasible. -/
def Settled (r : Region ℝ n) (members : List (Member ℝ n)) : Prop :=
  ∀ m ∈ members, r.Feasible m.point

variable {p : Params ℝ}

theorem mem_of_mem_membersAt {α : Type} [Scalar α] {population : List (Member α n)}
    {places : List ℕ} {parents : List (Member α n)} (h : membersAt population places = some parents) :
    ∀ m ∈ parents, m ∈ population := by
  intro m hm
  obtain ⟨i, -, hi⟩ := exists_of_mem_mapM h hm
  exact List.mem_of_getElem? hi

theorem bear_confined {I : State ℝ n → Prop} (hp : p.IsNumeric) (rates : Rates ℝ)
    {population : List (Member ℝ n)} (h : Settled t.region population) :
    Confined t I (bear t p rates population : SearchM σ ℝ n (State ℝ n) (Member ℝ n))
      fun m k => t.region.Feasible m.point ∧ I k := by
  -- A family of members has feasible points, whichever places were drawn for it.
  apply Confined.drawOr_bind (marry_meets p)
  intro places _
  cases hparents : membersAt population places with
  | none => exact .throw (e := .fault .noSuchMember) trivial
  | some parents =>
    have hwhole : ∀ m ∈ parents, m.point.IsWholeIn t.region :=
      fun m hm => (h m (mem_of_mem_membersAt hparents m hm)).2
    apply Confined.bind (.useNumber hp.stepSize)
    intro _
    apply Confined.drawOr_bind (conceive_meets p rates hwhole (fun _ => trivial) (donors_meets _))
    intro child hchild
    exact .bind (.trial hchild) fun v => .pure fun _ hk => ⟨hchild, hk⟩

theorem bearAll_confined {I : State ℝ n → Prop} (hp : p.IsNumeric) (rates : Rates ℝ)
    {population : List (Member ℝ n)} (h : Settled t.region population) (k : ℕ) :
    Confined t I (bearAll t p rates population k : SearchM σ ℝ n (State ℝ n) (List (Member ℝ n)))
      fun children k => Settled t.region children ∧ I k := by
  have hnone : Settled t.region ([] : List (Member ℝ n)) := fun m hm => nomatch hm
  induction k with
  | zero => exact .pure fun _ hk => ⟨hnone, hk⟩
  | succ k ih =>
    apply Confined.bind .withinBudget
    intro b
    apply Confined.ite
    · intro _
      apply Confined.bind_of (bear_confined hp rates h)
      intro child hchild
      apply Confined.bind_of ih
      intro others ho
      have hborn : Settled t.region (child :: others) := by
        intro m hm
        rcases List.mem_cons.mp hm with rfl | hmem
        · exact hchild
        · exact ho m hmem
      exact .pure fun _ hk => ⟨hborn, hk⟩
    · intro _
      exact .pure fun _ hk => ⟨hnone, hk⟩

theorem settled_survivors {r : Region ℝ n} {parents children : List (Member ℝ n)}
    (hparents : Settled r parents) (hchildren : Settled r children) :
    Settled r (survivors p parents children) := by
  -- Ranking and cutting off leave no member that was not a parent or a child.
  intro m hm
  have hranked : m ∈ Cost.rank (·.cost) (parents ++ children) := List.mem_of_mem_take hm
  rcases List.mem_append.mp ((Cost.rank_perm _ _).mem_iff.mp hranked) with hp | hc
  · exact hparents m hp
  · exact hchildren m hc

theorem generation_confined (hp : p.IsNumeric) (rates : Rates ℝ) :
    Confined t (fun s => Settled t.region s.population)
      (generation t p rates : SearchM σ ℝ n (State ℝ n) Unit)
      fun _ s => Settled t.region s.population := by
  apply Confined.own_bind
  intro s hs
  apply Confined.bind_of (bearAll_confined hp rates hs p.children)
  intro children hc
  apply Confined.bind (.modifyOwn (J := fun s => Settled t.region s.population) fun _ _ =>
    settled_survivors hs hc)
  intro _
  exact .endRound

theorem found_confined (hstarts : ∀ x ∈ t.starts, t.region.Feasible x) (hp : p.IsNumeric) :
    Confined t (fun _ => True) (found t p : SearchM σ ℝ n (State ℝ n) Unit)
      fun _ s => Settled t.region s.population := by
  apply Confined.drawOr_bind (Population.points_meets hstarts _ _ hp.spread)
  intro points hpoints
  have hnone : Settled t.region ([] : List (Member ℝ n)) := fun m hm => nomatch hm
  apply Confined.bind (.modifyOwn (J := fun s => Settled t.region s.population) fun _ _ => hnone)
  intro _
  have hkeep (s : Sample ℝ n) (own : State ℝ n) (hs : t.region.Feasible s.point)
      (hown : Settled t.region own.population) :
      Settled t.region (keepFirst p s own).population := by
    intro m hm
    rcases List.mem_append.mp hm with hold | hnew
    · exact hown m hold
    · rw [List.mem_singleton.mp hnew]
      exact hs
  apply Confined.bind (.evaluateAll hkeep hpoints)
  intro _
  exact .modifyOwn fun _ hs m hm => hs m ((Cost.rank_perm _ _).mem_iff.mp hm)

theorem run_confined (hstarts : ∀ x ∈ t.starts, t.region.Feasible x) (hp : p.IsNumeric) :
    Confined t (fun _ => True) (run t p : SearchM σ ℝ n (State ℝ n) Unit)
      fun _ s => Settled t.region s.population := by
  apply Confined.bind (.useNumber hp.learning)
  intro learning
  apply Confined.bind (.modifyOwn (J := fun _ => True) fun _ hk => hk)
  intro _
  apply Confined.bind (.report _)
  intro _
  exact .bind (found_confined hstarts hp) fun _ => .roundsWithin (generation_confined hp _) _

end Evolution

end BoxSearch
