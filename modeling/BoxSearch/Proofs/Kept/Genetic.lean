import Mathlib
import BoxSearch.Proofs.Account.Reached
import BoxSearch.Proofs.Counts.Solve
import BoxSearch.Proofs.Kept.Simplex

/-!
# The elite

A generation keeps the first members of the population, by cost and then by place, and fills up with
the children that it evaluates; the population is replaced only when the next one is full.  Whoever was
cut off once would be cut off again, so the elite of a population are the elite of all individuals that
were ever evaluated, the best one among them.
-/

namespace BoxSearch

/-- A sample as a call of the objective is listed. -/
def Sample.entry {α : Type} {n : ℕ} (s : Sample α n) : Point α n × Option (Cost α) :=
  (s.point, some s.cost)

namespace Genetic

open Account SearchM

variable {σ α : Type} [Scalar α] {n : ℕ} {t : Task α n} {p : Params α} {lengths : Vector ℕ n}
  {c d : Course σ α n (List (Sample α n))} {children kept : List (Sample α n)}

/-! ## 1. A generation -/

/-- Since the course `d`, the children were evaluated. -/
structure Bears (d : Course σ α n (List (Sample α n))) (children : List (Sample α n))
    (c : Course σ α n (List (Sample α n))) : Prop where
  evaluations : c.ledger.evaluations = d.ledger.evaluations + children.length
  trace : c.ledger.trace = d.ledger.trace ++ children.map Sample.entry
  finite : ∀ s ∈ children, s.cost.IsFinite

/-- In the middle of a generation the population is ranked, and the children are elsewhere. -/
structure Breeding (d : Course σ α n (List (Sample α n))) (children : List (Sample α n))
    (c : Course σ α n (List (Sample α n))) : Prop extends Bears d children c where
  own : c.own = Cost.rank (·.cost) d.own
  rounds : c.ledger.rounds = d.ledger.rounds

/-- A generation was not completed: the individuals are those of the population before it. -/
structure Abandoned (d c : Course σ α n (List (Sample α n))) : Prop where
  population : c.own.Perm d.own
  rounds : c.ledger.rounds = d.ledger.rounds
  evaluations : d.ledger.evaluations ≤ c.ledger.evaluations
  trace : d.ledger.trace <+: c.ledger.trace

/-- A generation was completed. -/
structure Succeeds (p : Params α) (d : Course σ α n (List (Sample α n)))
    (children : List (Sample α n)) (c : Course σ α n (List (Sample α n))) : Prop
    extends Bears d children c where
  own : c.own = (Cost.rank (·.cost) d.own).take p.elite ++ children
  length : children.length = p.size - p.elite
  rounds : c.ledger.rounds = d.ledger.rounds + 1

theorem Breeding.abandoned (h : Breeding d children c) : Abandoned d c where
  population := by
    rw [h.own]
    exact Cost.rank_perm _ d.own
  rounds := h.rounds
  evaluations := by
    rw [h.evaluations]
    exact Nat.le_add_right _ _
  trace := by
    rw [h.trace]
    exact List.prefix_append _ _

/-- One more child is evaluated. -/
theorem Breeding.enter (h : Breeding d children c) (x : Point α n) (v : α) :
    Breeding d (children ++ [⟨x, .finite v⟩]) { c with ledger := c.ledger.enter x (.finite v) } where
  evaluations := by
    show c.ledger.evaluations + 1 = _
    rw [h.evaluations, List.length_append, List.length_singleton, Nat.add_assoc]
  trace := by
    show c.ledger.trace ++ [(x, some (.finite v))] = _
    rw [h.trace, List.map_append, List.append_assoc]
    rfl
  finite s hs := by
    rcases List.mem_append.mp hs with hs | hs
    · exact h.finite s hs
    · rw [List.mem_singleton.mp hs]
      exact ⟨v, rfl⟩
  own := h.own
  rounds := h.rounds

/-- A call of the objective that ends the generation leaves the population as it is. -/
theorem Abandoned.enter (h : Abandoned d c) (x : Point α n) (k : Cost α) :
    Abandoned d { c with ledger := (c.ledger.enter x k).stopNonFinite k } where
  population := h.population
  rounds := h.rounds
  evaluations := Nat.le_succ_of_le h.evaluations
  trace := h.trace.trans (List.prefix_append _ _)

omit [Scalar α] in
theorem Abandoned.enterFailure (h : Abandoned d c) (x : Point α n) :
    Abandoned d { c with ledger := c.ledger.enterFailure x } where
  population := h.population
  rounds := h.rounds
  evaluations := h.evaluations
  trace := h.trace.trans (List.prefix_append _ _)

/-- The next generation has those that are kept and the children so far. -/
def Fills (p : Params α) (d : Course σ α n (List (Sample α n))) (kept next : List (Sample α n))
    (c : Course σ α n (List (Sample α n))) : Prop :=
  ∃ children, next = kept ++ children ∧ next.length ≤ p.size ∧ Breeding d children c

theorem Fills.abandoned {next : List (Sample α n)} (h : Fills p d kept next c) : Abandoned d c := by
  obtain ⟨children, -, -, hbreeding⟩ := h
  exact hbreeding.abandoned

/-- Draws are not looked at. -/
theorem Fills.draws {next : List (Sample α n)} (h : Fills p d kept next c) (s : σ) :
    Fills p d kept next { c with draws := s } := by
  obtain ⟨children, hnext, hmost, hbreeding⟩ := h
  exact ⟨children, hnext, hmost, ⟨hbreeding.evaluations, hbreeding.trace, hbreeding.finite⟩,
    hbreeding.own, hbreeding.rounds⟩

theorem enroll_fills (xs : List (Point α n)) (next : List (Sample α n)) :
    Triple (Fills p d kept next)
      (enroll t p xs next : SearchM σ α n (List (Sample α n)) (List (Sample α n)))
      (fun next' c => Fills p d kept next' c ∧ min p.size (next.length + xs.length) ≤ next'.length)
      fun _ => Abandoned d := by
  induction xs generalizing next with
  | nil => exact .pure fun _ hc => ⟨hc, Nat.min_le_right _ _⟩
  | cons x rest ih =>
    apply Triple.ite
    · intro hfew
      apply Triple.bind (Q := fun _ => Fills p d kept next)
        (.requireBudget (fun _ hc _ => hc) fun _ hc _ => hc.abandoned)
      intro _
      apply Triple.bind (Q := fun v => Fills p d kept (next ++ [⟨x, .finite v⟩]))
      · apply Triple.trial
        · exact fun _ _ _ hc => hc.abandoned
        · exact fun _ _ hc _ => hc.abandoned.enterFailure x
        · exact fun k _ hc _ _ => hc.abandoned.enter x k
        · rintro v c ⟨children, rfl, -, hbreeding⟩ -
          refine ⟨children ++ [⟨x, .finite v⟩], List.append_assoc .., ?_, hbreeding.enter x v⟩
          rw [List.length_append]
          exact hfew
      · intro v c hc
        have hrest := ih (next ++ [⟨x, .finite v⟩]) c hc
        rw [List.length_append, List.length_singleton, Nat.add_right_comm, Nat.add_assoc] at hrest
        exact hrest
    · intro hfull
      exact .pure fun _ hc => ⟨hc, by omega⟩

theorem memberAt_fills {next : List (Sample α n)} (population : List (Sample α n)) (i : ℕ) :
    Triple (Fills p d kept next)
      (memberAt population i : SearchM σ α n (List (Sample α n)) (Point α n))
      (fun _ => Fills p d kept next) fun _ => Abandoned d := by
  unfold memberAt
  cases population[i]? with
  | none => exact .throw fun _ hc => hc.abandoned
  | some s => exact .pure fun _ hc => hc

variable [DrawSource σ α]

/-- Every pair of parents adds a child at least, so that the next generation is full in the end. -/
theorem fillGeneration_fills (lengths : Vector ℕ n) (population : List (Sample α n)) (wheel : List ℕ) (fuel : ℕ)
    (next : List (Sample α n)) (hfuel : p.size ≤ next.length + fuel) :
    Triple (Fills p d kept next)
      (fillGeneration t p lengths population wheel fuel next :
        SearchM σ α n (List (Sample α n)) (List (Sample α n)))
      (fun next' c => Fills p d kept next' c ∧ next'.length = p.size) fun _ => Abandoned d := by
  have hfull (next : List (Sample α n)) (hlength : p.size ≤ next.length)
      (c : Course σ α n (List (Sample α n))) (hc : Fills p d kept next c) :
      Fills p d kept next c ∧ next.length = p.size := by
    obtain ⟨children, hnext, hmost, hbreeding⟩ := hc
    exact ⟨⟨children, hnext, hmost, hbreeding⟩, Nat.le_antisymm hmost hlength⟩
  induction fuel generalizing next with
  | zero => exact .pure (hfull next hfuel)
  | succ fuel ih =>
    apply Triple.ite
    · intro hfew
      apply Triple.bind (Q := fun _ => Fills p d kept next) (.draw fun _ _ s hc => hc.draws s)
      intro i
      apply (memberAt_fills population i).bind
      intro a
      apply Triple.bind (Q := fun _ => Fills p d kept next) (.draw fun _ _ s hc => hc.draws s)
      intro j
      apply (memberAt_fills population j).bind
      intro b
      apply Triple.bind (Q := fun _ => Fills p d kept next)
        (.drawOr (.attained _) (fun _ _ _ hc s => hc.draws s) fun _ _ _ hc s =>
          (hc.draws s).abandoned)
      rintro ⟨childA, childB⟩
      apply (enroll_fills [childA, childB] next).bind
      rintro next' c ⟨hc, hmore⟩
      simp only [List.length_cons, List.length_nil] at hmore
      exact ih next' (by omega) c hc
    · intro hnone
      exact .pure (hfull next (Nat.le_of_not_lt hnone))

/-- A generation of a full population replaces it, or leaves its individuals as they are. -/
theorem generation_succeeds (lengths : Vector ℕ n) (hfull : d.own.length = p.size) :
    Triple (· = d) (generation t p lengths : SearchM σ α n (List (Sample α n)) Unit)
      (fun _ c => ∃ children, Succeeds p d children c) fun _ => Abandoned d := by
  have hranked : (Cost.rank (·.cost) d.own).length = p.size := (Cost.length_rank _ _).trans hfull
  let kept := (Cost.rank (·.cost) d.own).take p.elite
  have hkept : kept.length = min p.elite p.size := by rw [List.length_take, hranked]
  apply Triple.bind (Q := fun _ => Breeding d [])
  · apply Triple.modifyOwn
    rintro c rfl
    exact ⟨⟨rfl, (List.append_nil _).symm, List.forall_mem_nil _⟩, rfl, rfl⟩
  · intro _
    apply Triple.own_bind fun c hc => hc.own
    apply Triple.bind (Q := fun next c => Fills p d kept next c ∧ next.length = p.size)
    · intro c hc
      apply fillGeneration_fills lengths _ _ p.size kept (Nat.le_add_left _ _) c
      exact ⟨[], (List.append_nil _).symm, by omega, hc⟩
    intro next
    apply Triple.bind (Q := fun _ c => ∃ children, c.own = kept ++ children ∧
      (kept ++ children).length = p.size ∧ c.ledger.rounds = d.ledger.rounds ∧ Bears d children c)
    · apply Triple.setOwn
      rintro c ⟨⟨children, rfl, -, hbreeding⟩, hlength⟩
      exact ⟨children, rfl, hlength, hbreeding.rounds, hbreeding.evaluations, hbreeding.trace,
        hbreeding.finite⟩
    · intro _
      apply Triple.modifyLedger
      rintro c ⟨children, hown, hlength, hrounds, hbears⟩
      rw [List.length_append, hkept] at hlength
      exact ⟨children, ⟨hbears.evaluations, hbears.trace, hbears.finite⟩, hown, by omega,
        congrArg (· + 1) hrounds⟩

/-! ## 2. All individuals -/

/-- The population is full of individuals that were evaluated, and its elite are the elite of all of
them. -/
structure Established (t : Task α n) (p : Params α) (c : Course σ α n (List (Sample α n))) :
    Prop where
  full : c.own.length = p.size
  born : ∃ born, Roll t.objective Sample.point Sample.cost born c.ledger ∧
    (∀ s ∈ c.own, s ∈ born) ∧
    (Cost.rank (·.cost) c.own).take p.elite = (Cost.rank (·.cost) born).take p.elite

omit [DrawSource σ α] in
/-- The next population is established as the one before it was. -/
theorem Established.succeeds [Scalar.Ordered α] (hf : t.objective.IsProper)
    (h : Established t p d) (hsucceeds : Succeeds p d children c)
    (hbalanced : c.ledger.Balanced t.objective) : Established t p c := by
  obtain ⟨born, hroll, hmem, helite⟩ := h.born
  have hboth : Roll t.objective Sample.point Sample.cost (born ++ children) c.ledger := by
    refine ⟨hbalanced, ?_, ?_⟩
    · rw [hsucceeds.trace, hroll.trace, List.map_append]
      rfl
    · intro s hs
      rcases List.mem_append.mp hs with hs | hs
      · exact hroll.finite s hs
      · exact hsucceeds.finite s hs
  constructor
  · have hlength := hsucceeds.length
    rw [hsucceeds.own, List.length_append, List.length_take, Cost.length_rank, h.full]
    omega
  · refine ⟨born ++ children, hboth, ?_, ?_⟩
    · intro s hs
      rw [hsucceeds.own] at hs
      rcases List.mem_append.mp hs with hs | hs
      · have hold := (Cost.rank_perm _ d.own).mem_iff.mp (List.mem_of_mem_take hs)
        exact List.mem_append_left children (hmem s hold)
      · exact List.mem_append_right born hs
    · rw [hsucceeds.own, helite]
      exact Cost.rank_take_append (hboth.isProper hf) p.elite

theorem generation_established [Scalar.Ordered α] (hf : t.objective.IsProper) :
    Answers (Established t p)
      (generation t p lengths : SearchM σ α n (List (Sample α n)) Unit)
      fun _ => Established t p := by
  intro c hc
  obtain ⟨born, hroll, -⟩ := hc.born
  have hsucceeds := generation_succeeds (t := t) lengths hc.full c rfl
  have hbalanced := ((generation_orderly (t := t) (p := p) lengths).balanced hf).run hroll.balanced
  rcases hr : (generation t p lengths).run c with ⟨e | _, d⟩ <;> rw [hr] at hsucceeds hbalanced
  · trivial
  · obtain ⟨children, hchildren⟩ := hsucceeds
    exact hc.succeeds hf hchildren hbalanced

/-- All individuals are members, and there are `k` members to come. -/
def Founding (t : Task α n) (p : Params α) (k : ℕ) (c : Course σ α n (List (Sample α n))) : Prop :=
  Roll t.objective Sample.point Sample.cost c.own c.ledger ∧ c.own.length + k = p.size

theorem found_established [Scalar.Ordered α] (hf : t.objective.IsProper) (k : ℕ)
    (given : List (Point α n)) :
    Answers (Founding t p k) (found t k given : SearchM σ α n (List (Sample α n)) Unit)
      fun _ => Established t p := by
  induction k generalizing given with
  | zero => exact .pure fun c hc => ⟨hc.2, c.own, hc.1, fun _ hs => hs, rfl⟩
  | succ k ih =>
    apply Triple.bind (Q := fun _ => Founding t p (k + 1))
      (.requireBudget (fun _ hc _ => hc) fun _ _ _ => trivial)
    intro _
    apply Triple.bind (Q := fun _ => Founding t p (k + 1)) (.draw fun _ _ _ hc => hc)
    intro x
    apply Answers.keep_bind (Q := fun _ => Founding t p k)
    · rintro v c ⟨hroll, hlength⟩ hx
      refine ⟨hroll.enter hf ⟨x, .finite v⟩ rfl hx, ?_⟩
      rw [List.length_append, List.length_singleton, Nat.add_assoc, Nat.add_comm 1 k]
      exact hlength
    · exact fun _ => ih (given.drop 1)

/-! ## 3. Generation by generation -/

theorem run_upTo_add (lengths : Vector ℕ n) (k l : ℕ) (c : Course σ α n (List (Sample α n))) :
    (upTo t p lengths (k + l)).run c =
      (upTo t p lengths k >>= fun _ => SearchM.roundsWithin t (generation t p lengths) l).run c := by
  have hparts (m : ℕ) : (upTo t p lengths m : SearchM σ α n (List (Sample α n)) Unit) =
      upTo t p lengths 0 >>= fun _ => SearchM.roundsWithin t (generation t p lengths) m := by
    unfold upTo
    simp only [bind_assoc]
    rfl
  rw [hparts (k + l), hparts k, bind_assoc, run_bind, run_bind]
  rcases (upTo t p lengths 0).run c with ⟨_ | _, d⟩
  · rfl
  · exact run_roundsWithin_add t (generation t p lengths) k l d

theorem upTo_established [Scalar.Ordered α] (hf : t.objective.IsProper) (lengths : Vector ℕ n)
    (k : ℕ) :
    Answers (fun c => c.ledger.Balanced t.objective ∧ c.ledger.trace = [])
      (upTo t p lengths k : SearchM σ α n (List (Sample α n)) Unit)
      fun _ => Established t p := by
  apply Triple.bind (Q := fun _ => Founding t p p.size)
  · apply Triple.setOwn
    rintro c ⟨hbalanced, htrace⟩
    exact ⟨⟨hbalanced, htrace, List.forall_mem_nil _⟩, Nat.zero_add _⟩
  · intro _
    apply (found_established hf p.size t.starts).bind
    intro _
    apply Triple.bind (Q := fun _ => Established t p)
    · apply Triple.modifyLedger
      rintro c ⟨hfull, born, hroll, hmem, helite⟩
      exact ⟨hfull, born, hroll.aside _ _ _, hmem, helite⟩
    · exact fun _ => .roundsWithin (generation_established hf) k

/-! ## 4. Where a search stops -/

omit [Scalar α] [DrawSource σ α] in
theorem Abandoned.refl (d : Course σ α n (List (Sample α n))) : Abandoned d d :=
  ⟨.refl _, rfl, le_rfl, List.prefix_rfl⟩

omit [Scalar α] [DrawSource σ α] in
theorem Abandoned.close (h : Abandoned d c) : Abandoned d c.close := by
  obtain ⟨phase, events, hclose⟩ := c.ledger.exists_close_eq_aside
  unfold Course.close
  rw [hclose]
  exact ⟨h.population, h.rounds, h.evaluations, h.trace⟩

omit [DrawSource σ α] in
theorem stopWithin_abandoned (phase : Phase α) :
    Keeps (Abandoned d) (SearchM.stopWithin t phase : SearchM σ α n (List (Sample α n)) Unit) := by
  apply Keeps.bind .withinBudget
  intro b
  apply Keeps.ite
  · exact .modifyLedger fun c hc => ⟨hc.population, hc.rounds, hc.evaluations, hc.trace⟩
  · exact .pure

/-- One more generation is begun if there is something left of the budget. -/
theorem run_upTo_succ {k : ℕ} {start : Course σ α n (List (Sample α n))}
    (hd : (upTo t p lengths k).run start = (.ok (), d)) :
    (upTo t p lengths (k + 1)).run start =
      if d.ledger.evaluations < t.budget then (generation t p lengths).run d else (.ok (), d) := by
  rw [run_upTo_add, run_bind_of_ok hd]
  by_cases hlt : d.ledger.evaluations < t.budget
  · rw [if_pos hlt, run_roundsWithin_of_lt _ 0 hlt, run_bind]
    rcases (generation t p lengths).run d with ⟨_ | _, e⟩ <;> rfl
  · rw [if_neg hlt, run_roundsWithin_of_not_lt _ 1 hlt]

/-- More generations end at one that was completed, or abandon the one after it. -/
theorem roundsWithin_abandoned [Scalar.Ordered α] (hf : t.objective.IsProper)
    {start : Course σ α n (List (Sample α n))} (hbalanced : start.ledger.Balanced t.objective)
    (htrace : start.ledger.trace = []) (m k : ℕ) (hrounds : d.ledger.rounds = k)
    (hd : (upTo t p lengths k).run start = (.ok (), d)) :
    ∃ j ≤ k + m, ∃ e, (upTo t p lengths j).run start = (.ok (), e) ∧ e.ledger.rounds = j ∧
      Abandoned e ((SearchM.roundsWithin t (generation t p lengths) m).run d).2 := by
  induction m generalizing k d with
  | zero => exact ⟨k, le_rfl, d, hd, hrounds, .refl d⟩
  | succ m ih =>
    by_cases hlt : d.ledger.evaluations < t.budget
    · have hestablished := upTo_established (p := p) hf lengths k start
        ⟨hbalanced, htrace⟩
      rw [hd] at hestablished
      have hgeneration := generation_succeeds (t := t) lengths hestablished.full d rfl
      have hnext := run_upTo_succ hd
      rw [if_pos hlt] at hnext
      rw [run_roundsWithin_of_lt _ m hlt]
      rcases hr : (generation t p lengths).run d with ⟨h | _, e⟩ <;> rw [hr] at hgeneration hnext
      · rw [run_bind_of_error hr]
        exact ⟨k, by omega, d, hd, hrounds, hgeneration⟩
      · rw [run_bind_of_ok hr]
        obtain ⟨children, hchildren⟩ := hgeneration
        obtain ⟨j, hj, hrest⟩ := ih (k + 1) (by rw [hchildren.rounds, hrounds]) hnext
        exact ⟨j, by omega, hrest⟩
    · rw [run_roundsWithin_of_not_lt _ _ hlt]
      exact ⟨k, by omega, d, hd, hrounds, .refl d⟩

/-- A search whose first population is complete stops at a generation that was completed, or abandons
the one after it. -/
theorem solve_abandoned [Scalar.Ordered α] (hf : t.objective.IsProper) (draws : σ)
    (own : List (Sample α n))
    (hd : (upTo t p lengths 0).run (.started t draws own) = (.ok (), d)) :
    ∃ k ≤ p.generations, ∃ e, (upTo t p lengths k).run (.started t draws own) = (.ok (), e) ∧
      e.ledger.rounds = k ∧
      Abandoned e (Course.solve t (run t p lengths) ⟨{}, draws, own⟩).2 := by
  have hfirst : d.ledger.rounds = 0 := by
    have hcounted := upTo_counted (t := t) (p := p) lengths (Nat.zero_le p.generations)
      (.started t draws own) ⟨rfl, ⟨Nat.zero_le _, Nat.zero_le _⟩, rfl, rfl⟩
    rw [hd] at hcounted
    obtain ⟨j, hj, hgrown, -⟩ := hcounted.counts
    exact hgrown.rounds.trans (Nat.le_zero.mp hj)
  obtain ⟨k, hk, e, he, hrounds, habandoned⟩ := roundsWithin_abandoned hf
    (Course.balanced_started t draws own) rfl p.generations 0 hfirst hd
  refine ⟨k, by omega, e, he, hrounds, ?_⟩
  have hrun : (run t p lengths).run (.started t draws own) =
      (SearchM.roundsWithin t (generation t p lengths) p.generations >>= fun _ =>
        SearchM.stopWithin t (.generationsDone p.generations)).run d := by
    have hupTo := run_upTo_add (t := t) (p := p) lengths 0 p.generations
      (.started t draws own)
    rw [Nat.zero_add, run_bind_of_ok hd] at hupTo
    rw [run_eq_upTo, run_bind, run_bind, hupTo]
  have hstop : Abandoned e ((run t p lengths).run (.started t draws own)).2 := by
    rw [hrun, run_bind]
    rcases hr : (SearchM.roundsWithin t (generation t p lengths) p.generations).run d with
      ⟨h | _, c⟩ <;> rw [hr] at habandoned
    · exact habandoned
    · exact (stopWithin_abandoned _).run habandoned
  exact Course.solve_keeps (I := Abandoned e) (c := ⟨{}, draws, own⟩) rfl hstop fun _ hd => hd.close

/-! ## 5. The elite survives -/

/-- The first `k` of a population, in the order of their costs and then of their places. -/
def AreFirst (k : ℕ) (population kept : List (Sample α n)) : Prop :=
  ∃ order : List (Sample α n × ℕ), order.Perm population.zipIdx ∧
    order.Pairwise (Cost.Precedes (·.cost)) ∧ kept = (order.take k).map (·.1)

/-- The next population consists of the elite of the one before it and of the children, in the order in
which they were evaluated. -/
def Replaces (p : Params α) (d e : Course σ α n (List (Sample α n))) : Prop :=
  ∃ kept children, AreFirst p.elite d.own kept ∧ e.own = kept ++ children ∧
    children.length = p.size - p.elite ∧
    e.ledger.trace = d.ledger.trace ++ children.map Sample.entry ∧
    e.ledger.rounds = d.ledger.rounds + 1

/-- What holds between two generations. -/
structure Intact (t : Task α n) (p : Params α) (d : Course σ α n (List (Sample α n))) : Prop where
  full : d.own.length = p.size
  answered : ∀ s ∈ d.own, ∃ i, d.ledger.trace[i]? = some s.entry ∧
    t.objective s.point (i + 1) = .ok s.cost
  best : IsBest d.ledger.answers d.ledger.best
  -- The best point of the whole search is a member, and no member is cheaper.
  survives : 1 ≤ p.elite → ∃ b, d.ledger.best = some b ∧ ⟨b.point, .finite b.cost⟩ ∈ d.own ∧
    ∀ s ∈ d.own, ∀ v, s.cost = .finite v → ¬v < b.cost

omit [DrawSource σ α] in
theorem Established.intact [Scalar.Ordered α] (hf : t.objective.IsProper) (hsize : 0 < p.size)
    (h : Established t p d) : Intact t p d := by
  obtain ⟨born, hroll, hmem, helite⟩ := h.born
  refine ⟨h.full, ?_, hroll.balanced.best, ?_⟩
  · intro s hs
    obtain ⟨i, hi⟩ := List.getElem?_of_mem (hmem s hs)
    refine ⟨i, ?_, hroll.eq_ok hi⟩
    rw [hroll.trace, List.getElem?_map, hi]
    rfl
  · intro hone
    obtain ⟨s, hs⟩ := List.exists_mem_of_length_pos (h.full.symm ▸ hsize)
    obtain ⟨b, first, others, hb, hrank, hpoint, hcost⟩ :=
      hroll.rank_eq_cons hf (List.ne_nil_of_mem (hmem s hs))
    have hbest := hroll.balanced.best
    rw [hb, hroll.answers_eq] at hbest
    refine ⟨b, hb, ?_, fun s' hs' v hv =>
      hbest.not_lt (List.mem_map_of_mem (hmem s' hs')) hv⟩
    -- The best individual is the first of the elite of all, and they are the elite of the members.
    have hfirst : first ∈ (Cost.rank (·.cost) d.own).take p.elite := by
      obtain ⟨k, hk⟩ := Nat.exists_eq_add_of_le' hone
      rw [helite, hrank, hk, List.take_succ_cons]
      exact List.mem_cons_self
    have hmember := (Cost.rank_perm _ d.own).mem_iff.mp (List.mem_of_mem_take hfirst)
    rwa [← hpoint, ← hcost]

omit [DrawSource σ α] in
theorem Succeeds.replaces [Scalar.Ordered α] (hproper : ∀ s ∈ d.own, s.cost.IsProper)
    (h : Succeeds p d children c) : Replaces p d c := by
  obtain ⟨order, hperm, horder, hrank⟩ := Cost.rank_eq_map_order hproper
  refine ⟨_, children, ⟨order, hperm, horder, rfl⟩, ?_, h.length, h.trace, h.rounds⟩
  rw [h.own, hrank, List.map_take]

/-- Between two generations the population is full of points with the costs that the objective answered
for them, and the best point of the whole search is a member if there is an elite.  The next generation
keeps the elite and adds its children, or else the individuals stay as they are.  So a whole search ends
with the individuals of its last generation that was completed. -/
theorem elite_survives [Scalar.Ordered α] (t : Task α n) (p : Params α) (lengths : Vector ℕ n)
    (hsize : 0 < p.size) (hf : t.objective.IsProper) (draws : σ) (own : List (Sample α n)) :
    (∀ k d, (upTo t p lengths k).run (.started t draws own) = (.ok (), d) →
      Intact t p d ∧
        (d.ledger.evaluations < t.budget →
          Outcome (fun _ => Replaces p d) (fun _ => Abandoned d)
            ((upTo t p lengths (k + 1)).run (.started t draws own))) ∧
        (t.budget ≤ d.ledger.evaluations →
          (upTo t p lengths (k + 1)).run (.started t draws own) = (.ok (), d))) ∧
    ∀ d, (upTo t p lengths 0).run (.started t draws own) = (.ok (), d) →
      ∃ k ≤ p.generations, ∃ e population,
        (upTo t p lengths k).run (.started t draws own) = (.ok (), e) ∧ e.ledger.rounds = k ∧
          ((⟨{}, draws, .genetic p lengths own⟩ : Run σ α n).solve t).2.ledger.rounds = k ∧
          ((⟨{}, draws, .genetic p lengths own⟩ : Run σ α n).solve t).2.engine =
            .genetic p lengths population ∧
          population.Perm e.own := by
  constructor
  · intro k d hd
    have hestablished := upTo_established (p := p) hf lengths k (.started t draws own)
      ⟨Course.balanced_started t draws own, rfl⟩
    have hnext := run_upTo_succ hd
    rw [hd] at hestablished
    refine ⟨hestablished.intact hf hsize, fun hlt => ?_, fun hspent => ?_⟩
    · rw [if_pos hlt] at hnext
      rw [hnext]
      obtain ⟨born, hroll, hmem, -⟩ := hestablished.born
      have hproper : ∀ s ∈ d.own, s.cost.IsProper := fun s hs => hroll.isProper hf s (hmem s hs)
      have hgeneration := generation_succeeds (t := t) lengths hestablished.full d rfl
      rcases hr : (generation t p lengths).run d with ⟨h | _, e⟩ <;> rw [hr] at hgeneration
      · exact hgeneration
      · obtain ⟨children, hchildren⟩ := hgeneration
        exact hchildren.replaces hproper
    · rwa [if_neg (not_lt.mpr hspent)] at hnext
  · intro d hd
    obtain ⟨k, hk, e, he, hrounds, habandoned⟩ := solve_abandoned hf draws own hd
    exact ⟨k, hk, e, _, he, hrounds, habandoned.rounds.trans hrounds, rfl, habandoned.population⟩

/-- Two members, one of which is kept over three generations. -/
noncomputable def pair : Params ℝ := ⟨2, 3, 0.7, 0.3, 1, .ok 0.1, .ok 0.1, .ok 16⟩

/-- After three generations of a pair on the square the best point is a member. -/
theorem elite_survives_pair :
    0 < pair.size ∧ Run.leastOnSquare.objective.IsProper ∧
      ∃ d, (upTo Run.leastOnSquare pair (.ofFn fun _ => 0) 3).run
          (.started Run.leastOnSquare Run.zeroDraws []) = (.ok (), d) ∧
        d.ledger.rounds = 3 ∧
        ∃ b, d.ledger.best = some b ∧ ⟨b.point, .finite b.cost⟩ ∈ d.own := by
  have hf : Run.leastOnSquare.objective.IsProper := fun _ _ c _ => Cost.isProper_real c
  have hsize : 0 < pair.size := Nat.two_pos
  let r : Run UnitTape ℝ 2 := ⟨{}, Run.zeroDraws, .genetic pair (.ofFn fun _ => 0) []⟩
  have hready : r.engine.IsReady Run.leastOnSquare.region := by
    refine ⟨⟨⟨_, rfl⟩, ⟨_, rfl⟩, ⟨_, rfl⟩⟩, hsize, codeLengths_of_real fun i => ?_, fun i => ?_⟩
    · exact Point.get_ofFn ..
    · exact (Point.get_ofFn ..).trans_le (Nat.zero_le _)
  have hreturns : (r.solve Run.leastOnSquare).1 = .ok () :=
    Run.solve_returns (fun x _ => ⟨.finite (x.get 0), rfl⟩) unitDraws_unitTape
      (List.forall_mem_nil _) rfl trivial hready
  have hfinite : (r.solve Run.leastOnSquare).2.ledger.phase.status ≠ .nonFinite :=
    Run.status_ne_nonFinite (fun x _ _ h => ⟨x.get 0, (Except.ok.inj h).symm⟩) rfl
  have hrounds : (r.solve Run.leastOnSquare).2.ledger.rounds = 3 := by
    -- Five evaluations are fewer than the budget has.
    have haccounts := Run.solve_accounts Run.zeroDraws pair (.ofFn fun _ => 0) [] Run.leastOnSquare
    have hends := haccounts.2 hreturns
    have hmost : (r.solve Run.leastOnSquare).2.ledger.evaluations ≤ 5 := haccounts.1.2
    change (accounts _ _).ends (r.solve Run.leastOnSquare).2.ledger.phase
      (r.solve Run.leastOnSquare).2.ledger.evaluations (r.solve Run.leastOnSquare).2.ledger.rounds
      at hends
    cases hphase : (r.solve Run.leastOnSquare).2.ledger.phase <;> rw [hphase] at hends hfinite
    case budgetSpent => exact absurd (hends.1.symm.trans_le hmost) (by decide)
    case generationsDone cap => exact hends.2.1.trans hends.1
    case nonFinite => exact absurd rfl hfinite
    all_goals exact hends.elim
  obtain ⟨hbetween, hends⟩ := elite_survives Run.leastOnSquare pair (.ofFn fun _ => 0) hsize hf
    Run.zeroDraws []
  obtain ⟨k, -, d, -, hd, hk, hsolve, -⟩ := hends _ rfl
  obtain rfl : k = 3 := hsolve.symm.trans hrounds
  obtain ⟨b, hb, hmember, -⟩ := (hbetween 3 d hd).1.survives le_rfl
  exact ⟨hsize, hf, d, hd, hk, b, hb, hmember⟩

end Genetic

end BoxSearch
