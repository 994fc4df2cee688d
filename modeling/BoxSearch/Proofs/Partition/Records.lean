import Mathlib
import BoxSearch.Proofs.Counts.Solve
import BoxSearch.Proofs.Counts.Target

/-!
# Two accounts of one search

A partition keeps an account of its own: cells with their costs, and after every iteration a record of
the evaluations made and of the least cost of the cells.  The ledger of the search keeps another one.
Every evaluation of a completed division gets a cell, so that both accounts agree whenever an iteration
is over.  A division that halts has made evaluations without cells; from then on the best cost of the
ledger is at most the least cost of the cells.
-/

namespace BoxSearch.Partition

open Account

variable {σ α : Type} [Scalar α] {n : ℕ} {t : Task α n} {p : Params α}

/-! ## 1. What a division costs -/

/-- How many sides of a cell are its longest; these are the sides that were cut least often. -/
def Cell.longest (c : Cell α n) : ℕ :=
  (Finset.univ.filter fun i => ∀ j, c.cuts.get i ≤ c.cuts.get j).card

omit [Scalar α] in
theorem Cell.length_longestSides (c : Cell α n) : c.longestSides.length = c.longest := by
  have hmem (i : Fin n) : c.cuts.get i = c.fewestCuts ↔ ∀ j, c.cuts.get i ≤ c.cuts.get j := by
    obtain ⟨hle, j, hj⟩ := c.fewestCuts_spec i
    constructor
    · intro h j
      rw [h]
      exact (c.fewestCuts_spec j).1
    · intro h
      exact le_antisymm (hj ▸ h j) hle
  have hsides : c.longestSides.toFinset =
      Finset.univ.filter fun i => ∀ j, c.cuts.get i ≤ c.cuts.get j := by
    ext i
    unfold longestSides
    simp [hmem]
  have hnodup : c.longestSides.Nodup := (List.nodup_finRange n).filter _
  unfold longest
  rw [← hsides, List.toFinset_card_of_nodup hnodup]

omit [Scalar α] in
theorem length_cut (probes : List (Probe α n)) (cuts : Vector ℤ n) :
    (cut probes cuts).2.length = 2 * probes.length := by
  induction probes generalizing cuts with
  | nil => rfl
  | cons q rest ih =>
    show (cut rest _).2.length + 1 + 1 = 2 * (rest.length + 1)
    rw [ih]
    ring

/-- There are two evaluations along every side. -/
theorem probe_counts (s : State α n) (e : ℕ) (c : Cell α n) (delta : α) (sides : List (Fin n)) :
    SearchM.Answers (fun d => d.own = s ∧ d.ledger.evaluations = e)
      (probe t c delta sides : SearchM σ α n (State α n) (List (Probe α n)))
      fun probes d => probes.length = sides.length ∧ d.own = s ∧
        d.ledger.evaluations = e + 2 * sides.length := by
  induction sides generalizing e with
  | nil => exact .pure fun d hd => ⟨rfl, hd⟩
  | cons i rest ih =>
    have htrial (e : ℕ) (x : Point α n) :
        SearchM.Answers (fun d => d.own = s ∧ d.ledger.evaluations = e)
          (SearchM.trial t x : SearchM σ α n (State α n) α)
          fun _ d => d.own = s ∧ d.ledger.evaluations = e + 1 :=
      .trial fun v d hd _ => ⟨hd.1, congrArg (· + 1) hd.2⟩
    apply SearchM.Triple.bind (htrial e _)
    intro fl
    apply SearchM.Triple.bind (htrial (e + 1) _)
    intro fr
    apply SearchM.Triple.bind (ih (e + 1 + 1))
    intro others
    apply SearchM.Triple.pure
    rintro d ⟨hothers, hown, he⟩
    refine ⟨congrArg (· + 1) hothers, hown, ?_⟩
    rw [he, List.length_cons]
    ring

/-- A division that is completed makes two evaluations and two cells for every longest side. -/
theorem divide_counts {s : State α n} {place : ℕ} {cell : Cell α n} (hcell : s.cells[place]? = some cell)
    (e : ℕ) :
    SearchM.Answers (fun d => d.own = s ∧ d.ledger.evaluations = e)
      (divide t place : SearchM σ α n (State α n) Unit)
      fun _ d => d.ledger.evaluations = e + 2 * cell.longest ∧
        d.own.cells.length = s.cells.length + 2 * cell.longest ∧ d.own.records = s.records := by
  apply SearchM.Triple.own_bind fun _ hd => hd.1
  rw [hcell]
  apply SearchM.Triple.use_bind _ fun _ _ _ => trivial
  intro delta _
  apply SearchM.Triple.bind (probe_counts s e cell delta cell.longestSides)
  intro probes
  apply SearchM.Triple.modifyOwn
  rintro d ⟨hprobes, rfl, he⟩
  rw [cell.length_longestSides] at hprobes he
  refine ⟨he, ?_, rfl⟩
  show (d.own.cells.set _ _ ++ _).length = _
  rw [List.length_append, List.length_set, length_cut, List.length_mergeSort, hprobes]

/-! ## 2. Records -/

/-- A finite cost that was answered, and below which no answered cost is. -/
structure IsLeastOf (answers : List (Point α n × Cost α)) (v : α) : Prop where
  mem : ∃ a ∈ answers, a.2 = .finite v
  not_lt : ∀ a ∈ answers, ∀ u, a.2 = .finite u → ¬u < v

/-- The records are numbered from zero, the first is that of the first evaluation, every other one is
made after more evaluations than the one before, and has the least cost that was answered by then. -/
structure Entries (answers : List (Point α n × Cost α)) (records : List (ℕ × ℕ × Option α)) : Prop where
  numbers : records.map (·.1) = List.range records.length
  first : ∀ r ∈ records.head?, r.2.1 = 1
  counts : (records.map (·.2.1)).Pairwise (· < ·)
  counted : ∀ r ∈ records, r.2.1 ≤ answers.length
  least : ∀ r ∈ records, ∃ v, r.2.2 = some v ∧ IsLeastOf (answers.take r.2.1) v

namespace Entries

variable {answers answers' : List (Point α n × Cost α)} {records : List (ℕ × ℕ × Option α)}

theorem nil (answers : List (Point α n × Cost α)) : Entries answers [] where
  numbers := rfl
  first _ h := nomatch h
  counts := .nil
  counted _ h := nomatch h
  least _ h := nomatch h

/-- What is answered later does not change what was recorded. -/
theorem mono (h : Entries answers records) (hanswers : answers <+: answers') :
    Entries answers' records where
  numbers := h.numbers
  first := h.first
  counts := h.counts
  counted r hr := (h.counted r hr).trans hanswers.length_le
  least r hr := by
    obtain ⟨later, hlater⟩ := hanswers
    rw [← hlater, List.take_append_of_le_length (h.counted r hr)]
    exact h.least r hr

/-- One more record, made after more evaluations. -/
theorem concat (h : Entries answers records) {v : α} (hv : IsLeastOf answers v)
    (hmore : ∀ r ∈ records, r.2.1 < answers.length) (hfirst : records = [] → answers.length = 1) :
    Entries answers (records ++ [(records.length, answers.length, some v)]) where
  numbers := by
    rw [List.map_append, h.numbers, List.length_append, List.length_singleton, List.range_succ]
    rfl
  first := by
    cases records with
    | nil =>
      rintro r hr
      rw [← Option.some.inj hr]
      exact hfirst rfl
    | cons r rest => exact h.first
  counts := by
    rw [List.map_append, List.pairwise_append]
    refine ⟨h.counts, List.pairwise_singleton _ _, fun e he e' he' => ?_⟩
    obtain ⟨r, hr, rfl⟩ := List.mem_map.mp he
    rw [List.mem_singleton.mp he']
    exact hmore r hr
  counted r hr := by
    rcases List.mem_append.mp hr with hr | hr
    · exact h.counted r hr
    · rw [List.mem_singleton.mp hr]
  least r hr := by
    rcases List.mem_append.mp hr with hr | hr
    · exact h.least r hr
    · rw [List.mem_singleton.mp hr]
      refine ⟨v, rfl, ?_⟩
      show IsLeastOf (answers.take answers.length) v
      rwa [List.take_length]

end Entries

/-! ## 3. Agreement -/

/-- What holds of both accounts at any moment, also after a halt. -/
structure Books (t : Task α n) (c : Course σ α n (State α n)) : Prop where
  balanced : c.ledger.Balanced t.objective
  -- Every cell has a cost that was answered.
  cells : ∃ others, (c.own.cells.map (·.cost) ++ others).Perm c.ledger.costs
  entries : Entries c.ledger.answers c.own.records

/-- The search keeps `s`, and was answered the costs of its cells and of samples without a cell. -/
structure Agrees (t : Task α n) (number : ℕ) (s : State α n) (pending : List α)
    (c : Course σ α n (State α n)) : Prop where
  own : c.own = s
  rounds : c.ledger.rounds = number
  balanced : c.ledger.Balanced t.objective
  finite : ∀ a ∈ c.ledger.answers, a.2.IsFinite
  costs : (s.cells.map (·.cost) ++ pending).Perm c.ledger.costs
  entries : Entries c.ledger.answers s.records

/-- A search that halts because it is over was answered a cost that is not finite. -/
def Broken (t : Task α n) (e : Halt α) (c : Course σ α n (State α n)) : Prop :=
  Books t c ∧ (e = .ended → ∃ a ∈ c.ledger.answers, ¬a.2.IsFinite)

theorem Agrees.books {number : ℕ} {s : State α n} {pending : List α} {c : Course σ α n (State α n)}
    (h : Agrees t number s pending c) : Books t c :=
  ⟨h.balanced, ⟨pending, h.own ▸ h.costs⟩, h.own ▸ h.entries⟩

theorem Agrees.broken {number : ℕ} {s : State α n} {pending : List α} {c : Course σ α n (State α n)}
    (h : Agrees t number s pending c) (f : Fault α) : Broken t (.fault f) c := ⟨h.books, nofun⟩

/-- An answer for each cell and for each sample. -/
theorem Agrees.evaluations {number : ℕ} {s : State α n} {pending : List α}
    {c : Course σ α n (State α n)} (h : Agrees t number s pending c) :
    c.ledger.evaluations = s.cells.length + pending.length := by
  have hcosts : c.ledger.costs.length = c.ledger.answers.length := by
    unfold Account.costs
    rw [List.length_filterMap_eq_countP, List.countP_eq_length]
    intro a ha
    obtain ⟨v, hv⟩ := h.finite a ha
    rw [hv]
    rfl
  rw [h.balanced.evaluations, ← hcosts, ← h.costs.length_eq, List.length_append, List.length_map]

section

variable [Scalar.Ordered α] (hf : t.objective.IsProper) {number : ℕ} {s : State α n}
  {pending : List α}

include hf

theorem Agrees.enter {c : Course σ α n (State α n)} (h : Agrees t number s pending c) {x : Point α n}
    {v : α} (hx : t.objective x (c.ledger.calls + 1) = .ok (.finite v)) :
    Agrees t number s (pending ++ [v]) { c with ledger := c.ledger.enter x (.finite v) } := by
  refine ⟨h.own, h.rounds, h.balanced.enter hf hx, ?_, ?_, h.entries.mono ?_⟩
  · intro a ha
    rw [answers_enter] at ha
    rcases List.mem_append.mp ha with ha | ha
    · exact h.finite a ha
    · rw [List.mem_singleton.mp ha]
      exact ⟨v, rfl⟩
  · rw [Account.costs_enter, ← List.append_assoc]
    exact h.costs.append_right [v]
  · rw [answers_enter]
    exact List.prefix_append _ _

/-- A sample without a finite cost ends the search, and has no cell. -/
theorem Agrees.enter_of_not_finite {c : Course σ α n (State α n)} (h : Agrees t number s pending c)
    {x : Point α n} {k : Cost α} (hk : ¬k.IsFinite)
    (hx : t.objective x (c.ledger.calls + 1) = .ok k) :
    Broken t .ended { c with ledger := (c.ledger.enter x k).stopNonFinite k } := by
  have hbalanced := h.balanced.enter hf hx
  refine ⟨⟨hbalanced.aside _ _ _, ?_, h.books.entries.mono ?_⟩, fun _ => ⟨(x, k), ?_, hk⟩⟩
  · obtain ⟨others, hperm⟩ := h.books.cells
    exact ⟨others, hperm.trans (.of_eq (c.ledger.costs_enter_of_not_finite x hk).symm)⟩
  · show _ <+: (c.ledger.enter x k).answers
    rw [answers_enter]
    exact List.prefix_append _ _
  · show (x, k) ∈ (c.ledger.enter x k).answers
    rw [answers_enter]
    exact List.mem_append_right _ (List.mem_singleton_self _)

omit hf [Scalar.Ordered α] in
theorem Agrees.enterFailure {c : Course σ α n (State α n)} (h : Agrees t number s pending c)
    {x : Point α n} {failure : Failure}
    (hx : t.objective x (c.ledger.calls + 1) = .error failure) :
    Books t { c with ledger := c.ledger.enterFailure x } := by
  refine ⟨h.balanced.enterFailure hx, ?_, ?_⟩
  · rw [Account.costs_enterFailure]
    exact h.books.cells
  · exact h.books.entries.mono (by rw [answers_enterFailure])

/-- A sample is answered, and has no cell yet. -/
theorem trial_agrees (x : Point α n) :
    SearchM.Triple (Agrees t number s pending) (SearchM.trial t x : SearchM σ α n (State α n) α)
      (fun v => Agrees t number s (pending ++ [v])) (Broken t) := by
  apply SearchM.Triple.trial
  · exact fun f _ _ hc => hc.broken f
  · exact fun _ _ hc hx => ⟨hc.enterFailure hx, nofun⟩
  · intro k c hc hx hinfinite
    exact hc.enter_of_not_finite hf (fun ⟨v, hv⟩ => hinfinite v hv) hx
  · exact fun _ _ hc hx => hc.enter hf hx

theorem probe_agrees (cell : Cell α n) (delta : α) (sides : List (Fin n)) :
    SearchM.Triple (Agrees t number s pending)
      (probe t cell delta sides : SearchM σ α n (State α n) (List (Probe α n)))
      (fun probes => Agrees t number s (pending ++ probes.flatMap Probe.costs)) (Broken t) := by
  induction sides generalizing pending with
  | nil =>
    apply SearchM.Triple.pure
    intro c hc
    rwa [List.flatMap_nil, List.append_nil]
  | cons i rest ih =>
    apply SearchM.Triple.bind (trial_agrees hf _)
    intro fl
    apply SearchM.Triple.bind (trial_agrees hf _)
    intro fr
    apply SearchM.Triple.bind ih
    intro others
    apply SearchM.Triple.pure
    intro c hc
    rw [List.append_assoc, List.append_assoc] at hc
    exact hc

/-- After a division every sample has a cell. -/
theorem divide_agrees (place : ℕ) :
    SearchM.Triple (Agrees t number s []) (divide t place : SearchM σ α n (State α n) Unit)
      (fun _ c => Agrees t number c.own [] c) (Broken t) := by
  apply SearchM.Triple.own_bind fun _ hc => hc.own
  cases hcell : s.cells[place]? with
  | none => exact .throw fun _ hc => hc.broken _
  | some cell =>
    apply SearchM.Triple.use_bind _ fun f _ hc => hc.broken f
    intro delta _
    apply SearchM.Triple.bind (probe_agrees hf cell delta _)
    intro probes
    apply SearchM.Triple.modifyOwn
    intro c hc
    refine ⟨rfl, hc.rounds, hc.balanced, hc.finite, ?_, hc.own ▸ hc.entries⟩
    show ((c.own.cells.set _ _ ++ _).map (fun c : Cell α n => c.cost) ++ []).Perm c.ledger.costs
    rw [hc.own, List.append_nil, List.map_append, map_cost_set hcell, map_cost_cut]
    refine (List.Perm.append_left _ ?_).trans hc.costs
    exact (List.mergeSort_perm probes _).flatMap_right _

end

/-! ## 4. The least cost of the cells -/

section

variable [Scalar.Ordered α] (hf : t.objective.IsProper) {c : Course σ α n (State α n)}

include hf

/-- The least cost of the cells was answered, and no cell has a cost below. -/
theorem Books.exists_least (h : Books t c) (hcells : c.own.cells ≠ []) :
    ∃ v, leastCost c.own.cells = some v ∧ (∃ a ∈ c.ledger.answers, a.2 = .finite v) ∧
      ∀ cell ∈ c.own.cells, ¬cell.cost < v := by
  obtain ⟨others, hperm⟩ := h.cells
  obtain ⟨first, rest, heq⟩ := List.exists_cons_of_ne_nil hcells
  have hanswered (u : α) (hu : u ∈ c.own.cells.map (·.cost)) :
      ∃ a ∈ c.ledger.answers, a.2 = .finite u :=
    Account.mem_costs.mp (hperm.mem_iff.mp (List.mem_append_left others hu))
  rw [heq] at hanswered ⊢
  obtain ⟨hmem, hnot⟩ := foldl_least first.cost (rest.map (·.cost)) fun u hu => by
    obtain ⟨a, ha, hau⟩ := hanswered u hu
    exact h.balanced.isProper_of_mem hf ha u hau
  exact ⟨_, rfl, hanswered _ hmem, fun cell hcell => hnot _ (List.mem_map_of_mem hcell)⟩

/-- While every answer has a cell, the least cost of the cells is the least that was answered. -/
theorem Agrees.exists_least {number : ℕ} (h : Agrees t number c.own [] c)
    (hcells : c.own.cells ≠ []) :
    ∃ v, leastCost c.own.cells = some v ∧ IsLeastOf c.ledger.answers v := by
  obtain ⟨v, hv, hanswered, hnot⟩ := h.books.exists_least hf hcells
  refine ⟨v, hv, hanswered, fun a ha u hu => ?_⟩
  have hperm := h.costs
  rw [List.append_nil] at hperm
  obtain ⟨cell, hcell, rfl⟩ :=
    List.mem_map.mp (hperm.mem_iff.mpr (Account.mem_costs.mpr ⟨a, ha, hu⟩))
  exact hnot cell hcell

end

/-! ## 5. Iterations -/

/-- Between two divisions of one iteration. -/
structure Inside (t : Task α n) (number : ℕ) (records : List (ℕ × ℕ × Option α))
    (c : Course σ α n (State α n)) : Prop where
  agrees : Agrees t number c.own [] c
  records : c.own.records = records
  odd : Odd c.own.cells.length

/-- A record is due: evaluations were made since the one before, or there was none. -/
structure Due (t : Task α n) (c : Course σ α n (State α n)) : Prop where
  inside : Inside t c.ledger.rounds c.own.records c
  numbered : c.own.records.length = c.ledger.rounds
  later : ∀ r ∈ c.own.records, r.2.1 < c.own.cells.length
  first : c.own.records = [] → c.own.cells.length = 1

/-- Between two iterations the last record has the counts and the least cost of this moment. -/
structure Settled (t : Task α n) (c : Course σ α n (State α n)) : Prop where
  agrees : Agrees t c.ledger.rounds c.own [] c
  odd : Odd c.own.cells.length
  numbered : c.own.records.length = c.ledger.rounds + 1
  last : c.own.records.getLast? =
    some (c.ledger.rounds, c.ledger.evaluations, leastCost c.own.cells)

omit [Scalar α] in
theorem ne_nil_of_odd {cells : List (Cell α n)} (h : Odd cells.length) : cells ≠ [] :=
  List.ne_nil_of_length_pos h.pos

section

variable {number : ℕ} {records : List (ℕ × ℕ × Option α)} {c : Course σ α n (State α n)}

theorem Inside.evaluations (h : Inside t number records c) :
    c.ledger.evaluations = c.own.cells.length := h.agrees.evaluations

theorem Settled.inside (h : Settled t c) : Inside t c.ledger.rounds c.own.records c :=
  ⟨h.agrees, rfl, h.odd⟩

/-- The phase of a search and its events are in no account of its evaluations. -/
theorem Settled.aside (h : Settled t c) (phase : Phase α) (events : List (Event α)) :
    Settled t { c with ledger := c.ledger.aside c.ledger.rounds phase events } :=
  ⟨⟨rfl, rfl, h.agrees.balanced.aside _ _ _, h.agrees.finite, h.agrees.costs, h.agrees.entries⟩,
    h.odd, h.numbered, h.last⟩

/-- No record was made after more evaluations than there are. -/
theorem Settled.le_evaluations (h : Settled t c) : ∀ r ∈ c.own.records, r.2.1 ≤ c.ledger.evaluations :=
  fun r hr => h.agrees.balanced.evaluations ▸ h.agrees.entries.counted r hr

end

section

variable [Scalar.Ordered α] (hf : t.objective.IsProper)

include hf

theorem divide_inside (number : ℕ) (records : List (ℕ × ℕ × Option α)) (place k : ℕ) :
    SearchM.Triple (fun c => Inside t number records c ∧ c.own.cells.length = k)
      (divide t place : SearchM σ α n (State α n) Unit)
      (fun _ c => Inside t number records c ∧ k < c.own.cells.length) (Broken t) := by
  rintro c ⟨hc, hk⟩
  cases hcell : c.own.cells[place]? with
  | none =>
    refine SearchM.Triple.own_bind (P := Agrees t number c.own []) (fun _ hd => hd.own) ?_ c hc.agrees
    rw [hcell]
    exact .throw fun _ hd => hd.broken _
  | some cell =>
    have hsome : 0 < cell.longest := by
      rw [← cell.length_longestSides]
      exact List.length_pos_iff.mpr (cell.longestSides_ne_nil ⟨0, t.region.nonempty⟩)
    refine SearchM.Triple.weaken ((divide_agrees hf place).and_answers
      (divide_counts (t := t) hcell c.ledger.evaluations)) ?_ (fun _ _ hd => hd) c ⟨hc.agrees, rfl, rfl⟩
    rintro - d ⟨hagrees, -, hlength, hrecords⟩
    refine ⟨⟨hagrees, hrecords.trans hc.records, ?_⟩, ?_⟩
    · rw [hlength]
      exact hc.odd.add_even (even_two_mul _)
    · rw [hlength, hk]
      omega

theorem divideAll_inside (number : ℕ) (records : List (ℕ × ℕ × Option α)) (places : List ℕ) (k : ℕ) :
    SearchM.Triple (fun c => Inside t number records c ∧ k ≤ c.own.cells.length)
      (divideAll t places : SearchM σ α n (State α n) Unit)
      (fun _ c => Inside t number records c ∧ k ≤ c.own.cells.length) (Broken t) := by
  induction places with
  | nil => exact .pure fun _ hc => hc
  | cons place rest ih =>
    apply SearchM.Triple.bind (SearchM.Triple.withinBudget (Q := fun _ c =>
      Inside t number records c ∧ k ≤ c.own.cells.length) fun _ hc => hc)
    intro b
    apply SearchM.Triple.ite
    · intro _
      refine SearchM.Triple.bind (Q := fun _ c => Inside t number records c ∧
        k ≤ c.own.cells.length) (fun c hc => ?_) fun _ => ih
      exact SearchM.Triple.weaken (divide_inside hf number records place c.own.cells.length)
        (fun _ _ hd => ⟨hd.1, hc.2.trans hd.2.le⟩) (fun _ _ hd => hd) c ⟨hc.1, rfl⟩
    · exact fun _ => .pure fun _ hc => hc

/-- While there is something left of the budget, the first of the chosen cells is divided. -/
theorem divideAll_cons_inside (number : ℕ) (records : List (ℕ × ℕ × Option α)) (place : ℕ)
    (rest : List ℕ) (k : ℕ) (hk : k < t.budget) :
    SearchM.Triple (fun c => Inside t number records c ∧ c.own.cells.length = k)
      (divideAll t (place :: rest) : SearchM σ α n (State α n) Unit)
      (fun _ c => Inside t number records c ∧ k < c.own.cells.length) (Broken t) := by
  apply SearchM.Triple.bind (SearchM.Triple.withinBudget (Q := fun b c => b = true ∧
    Inside t number records c ∧ c.own.cells.length = k) fun c hc => ⟨?_, hc⟩)
  · intro b
    cases b with
    | true =>
      apply SearchM.Triple.bind (Q := fun _ c => Inside t number records c ∧ k < c.own.cells.length)
      · exact fun c hc => divide_inside hf number records place k c hc.2
      · exact fun _ => divideAll_inside hf number records rest (k + 1)
    | false => exact fun c hc => nomatch hc.1
  · rw [hc.1.evaluations, hc.2]
    exact decide_eq_true hk

/-- A record settles what was divided since the one before. -/
theorem enterRecord_settles :
    SearchM.Triple (Due t) (enterRecord : SearchM σ α n (State α n) Unit) (fun _ => Settled t)
      (Broken t) := by
  intro c hc
  have hagrees := hc.inside.agrees
  obtain ⟨v, hv, hleast⟩ := hagrees.exists_least hf (ne_nil_of_odd hc.inside.odd)
  have hcount : c.ledger.answers.length = c.own.cells.length :=
    hagrees.balanced.evaluations.symm.trans hc.inside.evaluations
  have hentries : Entries c.ledger.answers
      (c.own.records ++ [(c.ledger.rounds, c.ledger.evaluations, leastCost c.own.cells)]) := by
    rw [hv, ← hc.numbered, hagrees.balanced.evaluations]
    exact hagrees.entries.concat hleast (hcount ▸ hc.later) fun h => hcount.trans (hc.first h)
  refine ⟨⟨rfl, rfl, hagrees.balanced.aside _ _ _, hagrees.finite, hagrees.costs, hentries⟩,
    hc.inside.odd, ?_, List.getLast?_concat⟩
  show (c.own.records ++ [_]).length = c.ledger.rounds + 1
  rw [List.length_append, List.length_singleton, hc.numbered]

/-- The first of the chosen cells is divided, so that a record is due when the round is over. -/
theorem divideAll_due {places : List ℕ} (hsome : places ≠ []) :
    SearchM.Triple (fun c => Settled t c ∧ c.ledger.evaluations < t.budget)
      (divideAll t places : SearchM σ α n (State α n) Unit)
      (fun _ c => Due t { c with ledger := { c.ledger with rounds := c.ledger.rounds + 1 } })
      (Broken t) := by
  rintro c ⟨hc, hlt⟩
  obtain ⟨place, rest, rfl⟩ := List.exists_cons_of_ne_nil hsome
  have hcells : c.ledger.evaluations = c.own.cells.length := hc.inside.evaluations
  refine SearchM.Triple.weaken (divideAll_cons_inside hf c.ledger.rounds c.own.records place rest
    c.own.cells.length (hcells ▸ hlt)) ?_ (fun _ _ hd => hd) c ⟨hc.inside, rfl⟩
  rintro - d ⟨hd, hmore⟩
  have hnumbered : d.own.records.length = d.ledger.rounds + 1 := by
    rw [hd.records, hd.agrees.rounds, hc.numbered]
  refine ⟨⟨⟨rfl, rfl, hd.agrees.balanced.aside _ _ _, hd.agrees.finite, hd.agrees.costs,
    hd.agrees.entries⟩, rfl, hd.odd⟩, hnumbered, fun r hr => ?_, fun hnone => ?_⟩
  · rw [hd.records] at hr
    exact ((hc.le_evaluations r hr).trans_eq hcells).trans_lt hmore
  · have hnone : d.own.records = [] := hnone
    rw [hnone] at hnumbered
    exact absurd hnumbered (Nat.succ_ne_zero _).symm

end

theorem checkTarget_settled :
    SearchM.Triple (Settled t) (checkTarget p : SearchM σ α n (State α n) Bool)
      (fun _ => Settled t) (Broken t) := by
  apply checkTarget_rule
  · exact fun _ hd => hd
  · exact fun _ _ _ hd _ _ _ => hd.aside _ _
  · exact fun _ f hd _ => hd.agrees.broken f

theorem checkIterations_settled :
    SearchM.Triple (Settled t) (checkIterations t p : SearchM σ α n (State α n) Bool)
      (fun _ => Settled t) (Broken t) := by
  apply checkIterations_rule
  · exact fun _ hd _ => hd
  · exact fun _ _ hd _ _ _ => hd.aside _ _
  · exact fun _ _ hd _ _ _ => hd

/-- Choosing cells changes nothing, and chooses one at least. -/
theorem select_settled :
    SearchM.Triple (fun c => Settled t c ∧ c.ledger.evaluations < t.budget)
      (select p : SearchM σ α n (State α n) (List ℕ))
      (fun places c => places ≠ [] ∧ Settled t c ∧ c.ledger.evaluations < t.budget) (Broken t) := by
  apply select_rule
  · exact fun _ _ hd hselected => ⟨Hull.ne_nil_of_selectFor hselected, hd⟩
  · exact fun _ _ hd hselected => ⟨Hull.ne_nil_of_selectFor hselected, hd.1.aside _ _, hd.2⟩
  · exact fun _ f hd _ => hd.1.agrees.broken f

section

variable [Scalar.Ordered α] (hf : t.objective.IsProper)

include hf

theorem iterate_settled :
    SearchM.Triple (Settled t) (iterate t p : SearchM σ α n (State α n) Bool) (fun _ => Settled t)
      (Broken t) := by
  apply SearchM.Triple.bind (.own (Q := fun _ => Settled t) fun _ hc => hc)
  intro s
  apply SearchM.Triple.bind (.ite (fun _ => .pure (Q := fun _ => Settled t) fun _ hc => hc) fun _ =>
    .throw fun _ hc => hc.agrees.broken _)
  intro _
  apply SearchM.Triple.bind (.ledger (Q := fun _ => Settled t) fun _ hc => hc)
  intro L
  apply SearchM.Triple.bind (.withinBudget (Q := fun b c =>
    b = decide (c.ledger.evaluations < t.budget) ∧ Settled t c) fun _ hc => ⟨rfl, hc⟩)
  intro b
  apply SearchM.Triple.ite
  · exact fun _ => .pure fun _ hc => hc.2
  · intro hgoes
    have hwithin : b = true := by
      rw [Bool.or_eq_true, not_or, Bool.not_eq_true', Bool.not_eq_false] at hgoes
      exact hgoes.2
    rintro c ⟨hb, hc⟩
    have hlt : c.ledger.evaluations < t.budget := of_decide_eq_true (hb ▸ hwithin)
    refine SearchM.Triple.bind select_settled (fun places => ?_) c ⟨hc, hlt⟩
    apply SearchM.Triple.bind (Q := fun _ d =>
      Due t { d with ledger := { d.ledger with rounds := d.ledger.rounds + 1 } })
    · exact fun d hd => divideAll_due hf hd.1 d hd.2
    intro _
    apply SearchM.Triple.bind (Q := fun _ => Due t)
    · exact fun _ hd => hd
    intro _
    apply SearchM.Triple.bind (enterRecord_settles hf)
    intro _
    apply SearchM.Triple.bind checkTarget_settled
    intro reached
    apply SearchM.Triple.ite
    · exact fun _ => .pure fun _ hd => hd
    · intro _
      apply SearchM.Triple.bind checkIterations_settled
      intro capped
      apply SearchM.Triple.ite
      · exact fun _ => .pure fun _ hd => hd
      · exact fun _ => .withinBudget fun _ hd => hd

/-- The first cell is the whole cube, and has the first record. -/
theorem setUp_settled :
    SearchM.Triple (Agrees t 0 {} []) (setUp t p : SearchM σ α n (State α n) Bool)
      (fun _ => Settled t) (Broken t) := by
  apply SearchM.Triple.own_bind fun _ hc => hc.own
  apply SearchM.Triple.bind (.ite (fun _ => .pure (Q := fun _ => Agrees t 0 {} []) fun _ hc => hc)
    fun h => absurd rfl h)
  intro _
  apply SearchM.Triple.bind (.modifyLedger (Q := fun _ => Agrees t 0 {} []) fun c hc => ?_)
  · intro _
    apply SearchM.Triple.bind (.modifyOwn (Q := fun _ => Agrees t 0 { initialized := true } [])
      fun c hc => ⟨?_, hc.rounds, hc.balanced, hc.finite, hc.costs, hc.entries⟩)
    · intro _
      apply SearchM.Triple.bind (trial_agrees hf _)
      intro v
      apply SearchM.Triple.bind (.modifyOwn (Q := fun _ => Due t) fun c hc => ?_)
      · intro _
        apply SearchM.Triple.bind (enterRecord_settles hf)
        intro _
        apply SearchM.Triple.bind checkTarget_settled
        exact fun _ => .pure fun _ hc => hc
      · obtain ⟨L, draws, _⟩ := c
        obtain rfl := hc.own
        exact ⟨⟨⟨rfl, rfl, hc.balanced, hc.finite, hc.costs, hc.entries⟩, rfl, odd_one⟩,
          hc.rounds.symm, nofun, fun _ => rfl⟩
    · obtain ⟨L, draws, _⟩ := c
      obtain rfl := hc.own
      rfl
  · show Agrees t 0 {} [] { c with ledger := c.ledger.markRunning }
    unfold Account.markRunning
    cases c.ledger.phase with
    | notStarted =>
      exact ⟨hc.own, hc.rounds, hc.balanced.aside _ _ _, hc.finite, hc.costs, hc.entries⟩
    | _ => exact hc

end

end BoxSearch.Partition
