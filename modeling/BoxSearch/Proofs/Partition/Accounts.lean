import Mathlib
import BoxSearch.Proofs.Counts.Endings
import BoxSearch.Proofs.Partition.Records

/-!
# What a partition has recorded

A search by partition makes at most `2 * n - 1` evaluations more than its budget has.  As long as every
cost is finite, each evaluation has a cell whenever a division is completed, and the least cost of the
cells is the best cost of the search; a record then says what the history says of the same evaluation.
However a search ends, its best cost is at most the least cost of its cells.
-/

namespace BoxSearch.Partition

open Account

variable {σ α : Type} [Scalar α] {n : ℕ} {t : Task α n} {p : Params α}

/-! ## 1. Two accounts compared -/

/-- Both accounts are of the same evaluations, and every round has a record. -/
structure Matches (L : Ledger α n) (s : State α n) : Prop where
  cells : s.cells.length = L.evaluations
  odd : Odd s.cells.length
  records : s.records.length = L.rounds + 1
  least : ∃ v b, leastCost s.cells = some v ∧ L.bestCost = some b ∧ Scalar.same v b = true

/-- The records are numbered from zero, and each of them repeats an entry of the history. -/
structure Recorded (L : Ledger α n) (records : List (ℕ × ℕ × Option α)) : Prop where
  numbers : records.map (·.1) = List.range records.length
  first : ∀ r ∈ records.head?, r.2.1 = 1
  counts : (records.map (·.2.1)).Pairwise (· < ·)
  least : ∀ r ∈ records, ∃ v b, r.2.2 = some v ∧
    L.history[r.2.1 - 1]? = some (r.2.1, some b) ∧ Scalar.same v b = true
  falling : records.Pairwise fun r later => ∀ v ∈ r.2.2, ∀ w ∈ later.2.2, w ≤ v

section

variable [Scalar.Total α] (hf : t.objective.IsProper)

/-- Two least answers are the same. -/
theorem IsLeastOf.same {answers : List (Point α n × Cost α)} {v : α} {b : Best α (Point α n)}
    (hproper : ∀ a ∈ answers, a.2.IsProper) (hv : IsLeastOf answers v)
    (hb : IsBest answers (some b)) : Scalar.same v b.cost = true := by
  obtain ⟨a, ha, hav⟩ := hv.mem
  refine Scalar.same_of_not_lt (hproper a ha v hav) (hproper _ hb.mem b.cost rfl) ?_ ?_
  · exact hb.not_lt ha hav
  · exact hv.not_lt _ hb.mem _ rfl

include hf

theorem Entries.recorded {L : Ledger α n} {records : List (ℕ × ℕ × Option α)}
    (h : Entries L.answers records) (hbalanced : L.Balanced t.objective) : Recorded L records where
  numbers := h.numbers
  first := h.first
  counts := h.counts
  least r hr := by
    obtain ⟨v, hv, hleast⟩ := h.least r hr
    obtain ⟨a, ha, hav⟩ := hleast.mem
    have hsome : 0 < r.2.1 := by
      by_contra hnone
      rw [Nat.eq_zero_of_not_pos hnone] at ha
      exact nomatch ha
    have hcount : r.2.1 - 1 < L.answers.length := by
      have := h.counted r hr
      omega
    obtain ⟨best, hbest, hentry⟩ := hbalanced.history (r.2.1 - 1) hcount
    rw [Nat.sub_add_cancel hsome] at hbest hentry
    obtain ⟨b, rfl⟩ := Option.isSome_iff_exists.mp (hbest.isSome_iff.mpr ⟨a, ha, v, hav⟩)
    exact ⟨v, b.cost, hv, hentry, hleast.same
      (fun _ hmem => hbalanced.isProper_of_mem hf (List.mem_of_mem_take hmem)) hbest⟩
  falling := by
    -- What was the least of fewer answers is among more of them.
    refine (List.pairwise_map.mp h.counts).imp_of_mem ?_
    intro r later hr hlater hlt v hv w hw
    obtain ⟨v', hv', hleast⟩ := h.least r hr
    obtain ⟨w', hw', hleast'⟩ := h.least later hlater
    obtain rfl : v' = v := Option.some.inj (hv'.symm.trans hv)
    obtain rfl : w' = w := Option.some.inj (hw'.symm.trans hw)
    obtain ⟨a, ha, hav⟩ := hleast.mem
    obtain ⟨a', ha', haw⟩ := hleast'.mem
    refine Scalar.Total.le_of_not_lt (hbalanced.isProper_of_mem hf (List.mem_of_mem_take ha') _ haw)
      (hbalanced.isProper_of_mem hf (List.mem_of_mem_take ha) _ hav) ?_
    exact hleast'.not_lt a (List.take_subset_take_left _ hlt.le ha) _ hav

/-- While every answer has a cell, both accounts are the same. -/
theorem Inside.matches {c : Course σ α n (State α n)}
    (h : Inside t c.ledger.rounds c.own.records c)
    (hnumbered : c.own.records.length = c.ledger.rounds + 1) : Matches c.ledger c.own := by
  obtain ⟨v, hv, hleast⟩ := h.agrees.exists_least hf (ne_nil_of_odd h.odd)
  have hbest := h.agrees.balanced.best
  obtain ⟨a, ha, hav⟩ := hleast.mem
  obtain ⟨b, hb⟩ := Option.isSome_iff_exists.mp (hbest.isSome_iff.mpr ⟨a, ha, v, hav⟩)
  rw [hb] at hbest
  exact ⟨h.evaluations.symm, h.odd, hnumbered, v, b.cost, hv, congrArg (Option.map Best.cost) hb,
    hleast.same (fun _ hmem => h.agrees.balanced.isProper_of_mem hf hmem) hbest⟩

/-- The best cost is at most the least cost of the cells. -/
theorem Books.exists_le_least {c : Course σ α n (State α n)} (h : Books t c) :
    ∀ v ∈ leastCost c.own.cells, ∃ b, c.ledger.bestCost = some b ∧ b ≤ v := by
  intro v hv
  have hcells : c.own.cells ≠ [] := by
    intro hnone
    rw [hnone] at hv
    exact nomatch hv
  obtain ⟨v', hv', ⟨a, ha, hav⟩, -⟩ := h.exists_least hf hcells
  obtain rfl : v' = v := Option.some.inj (hv'.symm.trans hv)
  have hbest := h.balanced.best
  obtain ⟨b, hb⟩ := Option.isSome_iff_exists.mp (hbest.isSome_iff.mpr ⟨a, ha, v', hav⟩)
  rw [hb] at hbest
  refine ⟨b.cost, congrArg (Option.map Best.cost) hb, ?_⟩
  exact Scalar.Total.le_of_not_lt (h.balanced.isProper_of_mem hf hbest.mem _ rfl)
    (h.balanced.isProper_of_mem hf ha _ hav) (hbest.not_lt ha hav)

end

/-! ## 2. Parts of a search -/

/-- The first cell and at most `k` iterations. -/
def iterations (t : Task α n) (p : Params α) (k : ℕ) : SearchM σ α n (State α n) Unit := do
  if ← setUp t p then SearchM.repeatWhile (iterate t p) k

/-- Then the cells at some places are divided as well. -/
def upTo (t : Task α n) (p : Params α) (k : ℕ) (places : List ℕ) :
    SearchM σ α n (State α n) Unit := do
  iterations t p k
  divideAll t places

/-- A search has at most one iteration more than its budget has evaluations. -/
theorem run_eq_iterations (t : Task α n) (p : Params α) :
    (run t p : SearchM σ α n (State α n) Unit) = iterations t p (t.budget + 1) := rfl

theorem agrees_started (t : Task α n) (draws : σ) :
    Agrees t 0 {} [] (Course.started t draws ({} : State α n)) where
  own := rfl
  rounds := rfl
  balanced := Course.balanced_started t draws _
  finite _ h := nomatch h
  costs := .nil
  entries := .nil _

section

variable [Scalar.Ordered α] (hf : t.objective.IsProper)

include hf

theorem iterations_settled (k : ℕ) :
    SearchM.Triple (Agrees t 0 {} []) (iterations t p k : SearchM σ α n (State α n) Unit)
      (fun _ => Settled t) (Broken t) := by
  apply SearchM.Triple.bind (setUp_settled hf)
  intro b
  apply SearchM.Triple.ite
  · exact fun _ => .repeatWhile (iterate_settled hf) k
  · exact fun _ => .pure fun _ hc => hc

theorem upTo_inside (k : ℕ) (places : List ℕ) :
    SearchM.Triple (Agrees t 0 {} []) (upTo t p k places : SearchM σ α n (State α n) Unit)
      (fun _ c => Inside t c.ledger.rounds c.own.records c ∧
        c.own.records.length = c.ledger.rounds + 1) (Broken t) := by
  apply SearchM.Triple.bind (iterations_settled hf k)
  intro _ c hc
  have hrun := divideAll_inside hf c.ledger.rounds c.own.records places 0 c
    ⟨hc.inside, Nat.zero_le _⟩
  rcases hr : (divideAll t places : SearchM σ α n (State α n) Unit).run c with ⟨e | u, d⟩ <;>
    rw [hr] at hrun
  · exact hrun
  · obtain ⟨hd, -⟩ := hrun
    have hrounds := hd.agrees.rounds
    have hrecords := hd.records
    refine ⟨⟨hrounds ▸ hd.agrees, rfl, hd.odd⟩, ?_⟩
    rw [hrecords, hrounds]
    exact hc.numbered

end

/-! ## 3. Whole searches -/

theorem Settled.close {c : Course σ α n (State α n)} (h : Settled t c) : Settled t c.close := by
  obtain ⟨phase, events, hclose⟩ := c.ledger.exists_close_eq_aside
  unfold Course.close
  rw [hclose]
  exact h.aside phase events

theorem Books.close {c : Course σ α n (State α n)} (h : Books t c) : Books t c.close where
  balanced := h.balanced.close
  cells := by
    unfold Course.close Account.costs
    rw [answers_close]
    exact h.cells
  entries := by
    unfold Course.close
    rw [answers_close]
    exact h.entries

/-- Both accounts at the end of a search. -/
structure Reconciled (answer : Except (Fault α) Unit) (L : Ledger α n) (s : State α n) : Prop where
  recorded : Recorded L s.records
  -- The cells of a division that halted are missing, and so may be the best one.
  best_le : ∀ v ∈ leastCost s.cells, ∃ b, L.bestCost = some b ∧ b ≤ v
  matches_of_finite : answer = .ok () → (∀ a ∈ L.answers, a.2.IsFinite) → Matches L s

section

variable [Scalar.Total α] (hf : t.objective.IsProper)

include hf

theorem Books.reconciled {c : Course σ α n (State α n)} (h : Books t c)
    {answer : Except (Fault α) Unit}
    (hmatches : answer = .ok () → (∀ a ∈ c.ledger.answers, a.2.IsFinite) → Matches c.ledger c.own) :
    Reconciled answer c.ledger c.own :=
  ⟨h.entries.recorded hf h.balanced, h.exists_le_least hf, hmatches⟩

theorem solve_reconciled (draws : σ) :
    let d := Course.solve t (run t p) ⟨{}, draws, {}⟩
    Reconciled d.1 d.2.ledger d.2.own := by
  have hrun := iterations_settled (p := p) hf (t.budget + 1) _ (agrees_started t draws)
  rw [← run_eq_iterations] at hrun
  obtain ⟨d, hd, hsolve⟩ | ⟨d, ⟨hbooks, hanswer⟩, hsolve⟩ | ⟨f, d, ⟨hbooks, -⟩, hsolve⟩ :=
    Course.solve_cases (c := ⟨{}, draws, ({} : State α n)⟩) rfl hrun <;> rw [hsolve]
  · have hsettled : Settled t d.close := hd.close
    exact hsettled.agrees.books.reconciled hf fun _ _ => hsettled.inside.matches hf hsettled.numbered
  · refine hbooks.close.reconciled hf fun _ hfinite => ?_
    obtain ⟨a, ha, hnot⟩ := hanswer rfl
    refine absurd (hfinite a ?_) hnot
    show a ∈ d.ledger.close.answers
    rwa [answers_close]
  · exact hbooks.reconciled hf fun hok => nomatch hok

end

end BoxSearch.Partition

namespace BoxSearch.Run

open BoxSearch.Partition

/-- In any arithmetic, a division that is completed makes two evaluations and two cells for every
longest side.  Whatever iterations and divisions a search has completed, its cells and records are those
of its evaluations.  A search makes at most `2 * n - 1` evaluations more than its budget has, and its
two accounts are reconciled at its end, however it ends.  In exact arithmetic it returns. -/
theorem partition_accounts (σ : Type) (n : ℕ) :
    (∀ (α : Type) [Scalar α] [Scalar.Total α] [DrawSource σ α] (t : Task α n)
      (p : Partition.Params α) (draws : σ),
      t.objective.IsProper → (∀ cap ∈ p.iterations, 0 < cap) →
      (∀ (c d : Course σ α n (Partition.State α n)) (place : ℕ) (cell : Cell α n),
        c.own.cells[place]? = some cell → (Partition.divide t place).run c = (.ok (), d) →
        d.ledger.evaluations = c.ledger.evaluations + 2 * cell.longest ∧
          d.own.cells.length = c.own.cells.length + 2 * cell.longest) ∧
      (∀ (k : ℕ) (places : List ℕ) (c : Course σ α n (Partition.State α n)),
        (upTo t p k places).run (Course.started t draws {}) = (.ok (), c) →
        Matches c.ledger c.own ∧ Recorded c.ledger c.own.records) ∧
      let d := (⟨{}, draws, .partition p {}⟩ : Run σ α n).solve t
      d.2.ledger.evaluations ≤ t.budget + 2 * n - 1 ∧
        ∃ s, d.2.engine = .partition p s ∧ Reconciled d.1 d.2.ledger s) ∧
    ∀ [DrawSource σ ℝ] (t : Task ℝ n) (p : Partition.Params ℝ) (draws : σ),
      t.objective.Answers → p.IsNumeric →
      ((⟨{}, draws, .partition p {}⟩ : Run σ ℝ n).solve t).1 = .ok () := by
  constructor
  · intro α _ _ _ t p draws hf hcap
    refine ⟨?_, ?_, ?_, ?_⟩
    · intro c d place cell hcell hrun
      have hcounts := divide_counts (t := t) hcell c.ledger.evaluations c ⟨rfl, rfl⟩
      rw [hrun] at hcounts
      exact ⟨hcounts.1, hcounts.2.1⟩
    · intro k places c hrun
      have hinside := upTo_inside (p := p) hf k places _ (agrees_started t draws)
      rw [hrun] at hinside
      obtain ⟨hinside, hnumbered⟩ := hinside
      exact ⟨hinside.matches hf hnumbered,
        hinside.agrees.entries.recorded hf hinside.agrees.balanced⟩
    · exact (Terms.solve (c := ⟨{}, draws, {}⟩) (Partition.run_counted hcap) rfl (Nat.zero_le _)
        ⟨rfl, rfl⟩).1
    · exact ⟨_, rfl, solve_reconciled hf draws⟩
  · intro _ t p draws ht hp
    have hnone : t.region.Confines ({} : Ledger ℝ n) := fun _ he => nomatch he
    exact (Partition.run_faultless ht hp).solve (c := ⟨{}, draws, {}⟩) rfl rfl
      (Confined.solve (c := ⟨{}, draws, {}⟩) hnone trivial (Partition.run_confined (t := t) hp)).2

/-- The square is divided along both of its sides, and a search on it is reconciled at its end. -/
theorem partition_accounts_square :
    let p := openEnded
    flatSquare.objective.Answers ∧ p.IsNumeric ∧
      (∃ c : Course UnitTape ℝ 2 (Partition.State ℝ 2),
        (upTo flatSquare p 0 [0]).run (Course.started flatSquare zeroDraws {}) = (.ok (), c) ∧
          c.own.cells.length = 5 ∧ Matches c.ledger c.own ∧ Recorded c.ledger c.own.records) ∧
      let d := (⟨{}, zeroDraws, .partition p {}⟩ : Run UnitTape ℝ 2).solve flatSquare
      d.1 = .ok () ∧ d.2.ledger.evaluations ≤ 15 ∧
        ∃ s, d.2.engine = .partition p s ∧ Reconciled d.1 d.2.ledger s := by
  intro p
  have hanswers : flatSquare.objective.Answers := fun _ _ => ⟨.finite 0, rfl⟩
  have hproper : flatSquare.objective.IsProper := fun _ _ c _ => Cost.isProper_real c
  have hnumeric : p.IsNumeric := ⟨⟨1e-4, rfl⟩, fun _ hq => nomatch hq⟩
  obtain ⟨-, hparts, hbound, hends⟩ := (partition_accounts UnitTape 2).1 ℝ flatSquare p zeroDraws
    hproper fun _ hcap => nomatch hcap
  have hreturns := (partition_accounts UnitTape 2).2 flatSquare p zeroDraws hanswers hnumeric
  refine ⟨hanswers, hnumeric, ?_, hreturns, hbound, hends⟩
  have hrun : ∃ c : Course UnitTape ℝ 2 (Partition.State ℝ 2),
      (upTo flatSquare p 0 [0]).run (Course.started flatSquare zeroDraws {}) = (.ok (), c) ∧
        c.ledger.evaluations = 5 := ⟨_, rfl, rfl⟩
  obtain ⟨c, hc, hevaluations⟩ := hrun
  obtain ⟨hmatches, hrecorded⟩ := hparts 0 [0] c hc
  exact ⟨c, hc, hmatches.cells.trans hevaluations, hmatches, hrecorded⟩

end BoxSearch.Run
