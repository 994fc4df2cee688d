import Mathlib
import BoxSearch.Proofs.Account.Passage
import BoxSearch.Proofs.Feasible.Solve

/-!
# The best of all individuals

An evolution ranks the members it has together with their children and keeps as many as the population
has places.  Whoever is cut off once would be cut off again, so after every generation the population is
what comes first of all individuals that were ever born: by their costs, and by their numbers among
equals.  Nobody's step sizes change after birth.
-/

namespace BoxSearch.Evolution

open Account SearchM

variable {σ α : Type} [Scalar α] [DrawSource σ α] {n : ℕ} {t : Task α n} {p : Params α}
  {rates : Rates α} {born : List (Member α n)} {L : Ledger α n}

/-! ## 1. All individuals -/

/-- How individuals come about, one after the other: the first ones have the step sizes to begin with,
and every later one those with which some of the earlier ones conceived it. -/
inductive Lineage (σ : Type) [DrawSource σ α] (r : Region α n) (p : Params α) (rates : Rates α) :
    List (Member α n) → Prop
  | nil : Lineage σ r p rates []
  | founder {born : List (Member α n)} (h : Lineage σ r p rates born) (hfew : born.length < p.size)
      (x : Point α n) (c : Cost α) : Lineage σ r p rates (born ++ [⟨x, p.firstSteps n, c⟩])
  | child {born parents : List (Member α n)} (h : Lineage σ r p rates born)
      (hfull : p.size ≤ born.length) (hparents : ∀ m ∈ parents, m ∈ born) {steps x : Point α n}
      {s s' : σ} (hconceived : (conceive r p rates parents).run s = (.ok (steps, x), s'))
      (c : Cost α) : Lineage σ r p rates (born ++ [⟨x, steps, c⟩])

/-- The individuals of an account: one for every evaluation, in order. -/
structure Census (σ : Type) [DrawSource σ α] (t : Task α n) (p : Params α) (rates : Rates α)
    (born : List (Member α n)) (L : Ledger α n) : Prop where
  balanced : L.Balanced t.objective
  lineage : Lineage σ t.region p rates born
  trace : L.trace = born.map fun m => (m.point, some m.cost)
  finite : ∀ m ∈ born, m.cost.IsFinite

namespace Census

theorem roll (h : Census σ t p rates born L) :
    Roll t.objective Member.point Member.cost born L :=
  ⟨h.balanced, h.trace, h.finite⟩

theorem aside (h : Census σ t p rates born L) (rounds : ℕ) (phase : Phase α)
    (events : List (Event α)) : Census σ t p rates born (L.aside rounds phase events) :=
  ⟨h.balanced.aside _ _ _, h.lineage, h.trace, h.finite⟩

/-- One more individual is evaluated. -/
theorem enter [Scalar.Ordered α] (hf : t.objective.IsProper) (h : Census σ t p rates born L)
    {x steps : Point α n} {v : α} (hx : t.objective x (L.calls + 1) = .ok (.finite v))
    (hborn : Lineage σ t.region p rates (born ++ [⟨x, steps, .finite v⟩])) :
    Census σ t p rates (born ++ [⟨x, steps, .finite v⟩]) (L.enter x (.finite v)) := by
  have hroll := h.roll.enter hf ⟨x, steps, .finite v⟩ rfl hx
  exact ⟨hroll.balanced, hborn, hroll.trace, hroll.finite⟩

end Census

/-! ## 2. The first members -/

/-- There are `k` members so far, and they are all individuals. -/
def Founding (t : Task α n) (p : Params α) (rates : Rates α) (k : ℕ)
    (c : Course σ α n (State α n)) : Prop :=
  Census σ t p rates c.own.population c.ledger ∧ c.own.population.length = k

/-- The population is what comes first of all individuals so far. -/
def Selected (t : Task α n) (p : Params α) (rates : Rates α) (c : Course σ α n (State α n)) : Prop :=
  ∃ born, Census σ t p rates born c.ledger ∧ p.size ≤ born.length ∧
    c.own.population = (Cost.rank (·.cost) born).take p.size

section

variable [Scalar.Ordered α] (hf : t.objective.IsProper)

include hf

theorem evaluateAll_founding (points : List (Point α n)) (k : ℕ) (h : k + points.length ≤ p.size) :
    Answers (Founding t p rates k)
      (Population.evaluateAll t (keepFirst p) points : SearchM σ α n (State α n) Unit)
      fun _ => Founding t p rates (k + points.length) := by
  induction points generalizing k with
  | nil => exact .pure fun _ hc => hc
  | cons x rest ih =>
    rw [List.length_cons] at h
    apply Triple.bind (Q := fun _ => Founding t p rates k)
      (.requireBudget (fun _ hc _ => hc) fun _ _ _ => trivial)
    intro _
    apply Answers.keep_bind (Q := fun _ => Founding t p rates (k + 1))
    · rintro v c ⟨hcensus, hlength⟩ hx
      have hfew : c.own.population.length < p.size := by omega
      refine ⟨hcensus.enter hf hx (hcensus.lineage.founder hfew x _), ?_⟩
      exact List.length_append.trans (congrArg (· + 1) hlength)
    · intro v
      rw [List.length_cons, Nat.add_comm rest.length 1, ← Nat.add_assoc]
      exact ih (k + 1) (by omega)

theorem found_selected :
    Answers (fun c => Census σ t p rates [] c.ledger)
      (found t p : SearchM σ α n (State α n) Unit) fun _ => Selected t p rates := by
  apply Answers.drawOr_bind_of (Population.length_points t _ _ _) fun _ _ hc => hc
  intro points hpoints
  have hempty : Answers (fun c => Census σ t p rates [] c.ledger)
      (modifyOwn fun own => { own with chosen := points, population := [] } :
        SearchM σ α n (State α n) Unit) fun _ => Founding t p rates 0 :=
    .modifyOwn fun _ hc => ⟨hc, rfl⟩
  apply hempty.bind
  intro _
  apply (evaluateAll_founding hf points 0 (by omega)).bind
  intro _
  apply Triple.modifyOwn
  rintro c ⟨hcensus, hlength⟩
  have hsize : c.own.population.length = p.size := by omega
  refine ⟨c.own.population, hcensus, hsize.ge, ?_⟩
  exact (List.take_of_length_le (by rw [Cost.length_rank, hsize])).symm

/-! ## 3. Generations -/

theorem bear_census {population : List (Member α n)} (hpopulation : ∀ m ∈ population, m ∈ born)
    (hfull : p.size ≤ born.length) :
    Answers (fun c => Census σ t p rates born c.ledger)
      (bear t p rates population : SearchM σ α n (State α n) (Member α n))
      fun m c => Census σ t p rates (born ++ [m]) c.ledger := by
  apply Answers.drawOr_bind fun _ _ hc => hc
  intro places
  cases hparents : membersAt population places with
  | none => exact .throw fun _ _ => trivial
  | some parents =>
    have hborn : ∀ m ∈ parents, m ∈ born :=
      fun m hm => hpopulation m (mem_of_mem_membersAt hparents m hm)
    apply Triple.use_bind _ fun _ _ _ => trivial
    intro _ _
    apply Answers.drawOr_bind_of (.attained _) fun _ _ hc => hc
    rintro ⟨steps, x⟩ ⟨s, s', hconceived⟩
    apply Triple.bind (Q := fun v c => Census σ t p rates (born ++ [⟨x, steps, .finite v⟩]) c.ledger)
    · apply Answers.trial
      intro v c hc hx
      exact hc.enter hf hx (hc.lineage.child hfull hborn hconceived _)
    · exact fun v => .pure fun _ hc => hc

theorem bearAll_census {population : List (Member α n)} (k : ℕ)
    (hpopulation : ∀ m ∈ population, m ∈ born) (hfull : p.size ≤ born.length) :
    Answers (fun c => Census σ t p rates born c.ledger)
      (bearAll t p rates population k : SearchM σ α n (State α n) (List (Member α n)))
      fun children c => Census σ t p rates (born ++ children) c.ledger := by
  -- Every child is born after those before it, until the budget is spent.
  induction k generalizing born with
  | zero => exact .pure fun c hc => by rwa [List.append_nil]
  | succ k ih =>
    apply Triple.bind (Q := fun _ c => Census σ t p rates born c.ledger)
      (.withinBudget fun _ hc => hc)
    intro b
    apply Triple.ite
    · intro _
      apply (bear_census hf hpopulation hfull).bind
      intro child
      have hmore : ∀ m ∈ population, m ∈ born ++ [child] :=
        fun m hm => List.mem_append_left _ (hpopulation m hm)
      apply (ih hmore (by rw [List.length_append]; omega)).bind
      intro others
      apply Triple.pure
      intro c hc
      rwa [List.append_assoc, List.singleton_append] at hc
    · intro _
      exact .pure fun c hc => by rwa [List.append_nil]

theorem generation_selected :
    Answers (Selected t p rates) (generation t p rates : SearchM σ α n (State α n) Unit)
      fun _ => Selected t p rates := by
  rintro c ⟨born, hcensus, hfull, hpopulation⟩
  have hmem : ∀ m ∈ c.own.population, m ∈ born := by
    intro m hm
    rw [hpopulation] at hm
    exact (Cost.rank_perm _ born).mem_iff.mp (List.mem_of_mem_take hm)
  have hgeneration : Answers (fun d => Census σ t p rates born d.ledger ∧ d.own = c.own)
      (generation t p rates : SearchM σ α n (State α n) Unit) fun _ => Selected t p rates := by
    apply Triple.own_bind fun _ hd => hd.2
    apply Triple.bind (Q := fun children d => Census σ t p rates (born ++ children) d.ledger)
      fun d hd => bearAll_census hf p.children hmem hfull d hd.1
    intro children
    apply Triple.bind (Q := fun _ => Selected t p rates)
    · apply Triple.modifyOwn
      intro d hd
      refine ⟨born ++ children, hd, by rw [List.length_append]; omega, ?_⟩
      show survivors p c.own.population children = _
      rw [hpopulation]
      exact Cost.rank_take_append (hd.roll.isProper hf) p.size
    · intro _
      apply Triple.modifyLedger
      rintro d ⟨born, hcensus, hrest⟩
      exact ⟨born, hcensus.aside _ _ _, hrest⟩
  exact hgeneration c ⟨hcensus, rfl⟩

end

/-! ## 4. The whole search -/

/-- The search with at most `k` generations. -/
def upTo (t : Task α n) (p : Params α) (k : ℕ) : SearchM σ α n (State α n) Unit := do
  let rates := Rates.of (← SearchM.use p.learning) n
  SearchM.modifyOwn fun s => { s with rates := some rates }
  SearchM.report (.learningRates rates.own rates.shared)
  found t p
  SearchM.roundsWithin t (generation t p rates) k

theorem upTo_budget : (upTo t p t.budget : SearchM σ α n (State α n) Unit) = run t p := rfl

theorem upTo_selected [Scalar.Ordered α] (hf : t.objective.IsProper) {learning : α}
    (hlearning : p.learning = .ok learning) (k : ℕ) :
    Answers (fun c => c.ledger.Balanced t.objective ∧ c.ledger.trace = [])
      (upTo t p k : SearchM σ α n (State α n) Unit)
      fun _ => Selected t p (Rates.of learning n) := by
  apply Triple.use_bind _ fun _ _ _ => trivial
  intro learning' hlearning'
  obtain rfl := Except.ok.inj (hlearning.symm.trans hlearning')
  have hnone (c : Course σ α n (State α n))
      (hc : c.ledger.Balanced t.objective ∧ c.ledger.trace = []) :
      Census σ t p (Rates.of learning n) [] c.ledger :=
    ⟨hc.1, .nil, hc.2, List.forall_mem_nil _⟩
  apply Triple.bind (Q := fun _ c => Census σ t p (Rates.of learning n) [] c.ledger)
    (.modifyOwn hnone)
  intro _
  apply Triple.bind (Q := fun _ c => Census σ t p (Rates.of learning n) [] c.ledger)
    (.modifyLedger fun c hc => hc.aside _ _ _)
  intro _
  exact (found_selected hf).bind fun _ => .roundsWithin (generation_selected hf) k

/-- The population consists of the individuals that come first, as far as there are places, in the
order of their costs and then of their numbers. -/
def AreFirst (size : ℕ) (born population : List (Member α n)) : Prop :=
  ∃ order : List (Member α n × ℕ), order.Perm born.zipIdx ∧
    order.Pairwise (Cost.Precedes (·.cost)) ∧ population = (order.take size).map (·.1)

/-- After the founding of the population and after every generation, cut short or not, the population
consists of the first of all individuals that were evaluated; each has the step sizes and the cost that
it had from the beginning.  So the costs are in order, and the best point of the search is in front. -/
theorem population_areFirst [Scalar.Ordered α] (t : Task α n) (p : Params α) (hp : 0 < p.size)
    (hf : t.objective.IsProper) (draws : σ) (own : State α n) (k : ℕ)
    (d : Course σ α n (State α n)) (hd : (upTo t p k).run (.started t draws own) = (.ok (), d)) :
    ∃ learning born, p.learning = .ok learning ∧
      Lineage σ t.region p (Rates.of learning n) born ∧
      d.ledger.trace = born.map (fun m => (m.point, some m.cost)) ∧
      (∀ i m, born[i]? = some m → t.objective m.point (i + 1) = .ok m.cost) ∧
      AreFirst p.size born d.own.population ∧
      d.own.population.length = p.size ∧
      d.own.population.Pairwise (fun m m' => m.cost.notAfter m'.cost = true) ∧
      (∃ b m others, d.ledger.best = some b ∧ d.own.population = m :: others ∧
        m.point = b.point ∧ m.cost = .finite b.cost) ∧
      IsBest d.ledger.answers d.ledger.best := by
  obtain ⟨learning, hlearning⟩ : ∃ learning, p.learning = .ok learning := by
    cases hlearning : p.learning with
    | ok learning => exact ⟨learning, rfl⟩
    | error f =>
      change (SearchM.use p.learning >>= _).run _ = _ at hd
      rw [hlearning] at hd
      exact nomatch hd
  have hselected : Selected t p (Rates.of learning n) d := by
    have hrun := upTo_selected hf hlearning k _ ⟨Course.balanced_started t draws own, rfl⟩
    rwa [hd] at hrun
  obtain ⟨born, hcensus, hfull, hpopulation⟩ := hselected
  have hproper := hcensus.roll.isProper hf
  refine ⟨learning, born, hlearning, hcensus.lineage, hcensus.trace,
    fun i m => hcensus.roll.eq_ok, ?_, ?_, ?_, ?_, hcensus.balanced.best⟩
  · obtain ⟨order, hperm, horder, hrank⟩ := Cost.rank_eq_map_order hproper
    exact ⟨order, hperm, horder, by rw [hpopulation, hrank, List.map_take]⟩
  · rw [hpopulation, List.length_take, Cost.length_rank, Nat.min_eq_left hfull]
  · rw [hpopulation]
    exact (Cost.pairwise_rank hproper).sublist (List.take_sublist _ _)
  · obtain ⟨b, m, others, hb, hrank, hpoint, hcost⟩ :=
      hcensus.roll.rank_eq_cons hf (List.ne_nil_of_length_pos (hp.trans_le hfull))
    obtain ⟨size, hsize⟩ := Nat.exists_eq_add_one_of_ne_zero hp.ne'
    refine ⟨b, m, others.take size, hb, ?_, hpoint, hcost⟩
    rw [hpopulation, hrank, hsize, List.take_succ_cons]

/-- The least number between zero and three is looked for, with three evaluations. -/
noncomputable def leastOnSegment : Task ℝ 1 :=
  { Run.leastOfFour with
    region := { Run.leastOfFour.region with
      integral := .replicate 1 false
      whole := fun i hi =>
        absurd hi (Bool.eq_false_iff.mp (Vector.getElem_replicate i.isLt)) }
    budget := 3
    checked := false }

/-- A single member has four children. -/
noncomputable def lone : Params ℝ :=
  ⟨1, 4, 1, .roulette, .uniform, .ok 1, .ok 1, .ok 1, 0⟩

/-- The budget is spent after two of the four children. -/
theorem population_areFirst_lone :
    0 < lone.size ∧ leastOnSegment.objective.IsProper ∧
      ∃ d, (upTo leastOnSegment lone 1).run (.started leastOnSegment Run.climb.draws {}) = (.ok (), d) ∧
        d.ledger.evaluations = 3 ∧ d.own.population.length = 1 ∧
        IsBest d.ledger.answers d.ledger.best := by
  have hf : leastOnSegment.objective.IsProper := fun _ _ c _ => Cost.isProper_real c
  let c : Course (Tape ℝ) ℝ 1 (State ℝ 1) := .started leastOnSegment Run.climb.draws {}
  have hok : ((upTo leastOnSegment lone 1).run c).1.isOk = true := by decide +kernel
  have hevaluations : ((upTo leastOnSegment lone 1).run c).2.ledger.evaluations = 3 := by
    decide +kernel
  rcases hd : (upTo leastOnSegment lone 1).run c with ⟨e | _, d⟩
  · rw [hd] at hok
    exact nomatch hok
  · rw [hd] at hevaluations
    obtain ⟨_, _, -, -, -, -, -, hlength, -, -, hbest⟩ :=
      population_areFirst leastOnSegment lone Nat.one_pos hf Run.climb.draws {} 1 d hd
    exact ⟨Nat.one_pos, hf, d, rfl, hevaluations, hlength, hbest⟩

end BoxSearch.Evolution
