import Mathlib
import BoxSearch.Engine.Steps
import BoxSearch.Proofs.Account.Reached
import BoxSearch.Proofs.Feasible.Solve
import BoxSearch.Proofs.Partition.Steps
import BoxSearch.Proofs.Partition.Tiling

/-!
# The cells of a search tile the cube

A division samples first and cuts afterwards, so that one that halts leaves the cells as they were,
and one that does not halt replaces a cell by cells that tile it.  Nothing else changes the cells:
whatever is done to a search that was set up, in whatever order, its cells tile the unit cube.
-/

namespace BoxSearch.Partition

variable {σ : Type} {n : ℕ} {t : Task ℝ n} {p : Params ℝ}

/-! ## 1. A division -/

/-- Only a cost that is not finite ends the search here. -/
def EndsNonFinite (e : Halt ℝ) (d : Course σ ℝ n (State ℝ n)) : Prop :=
  e = .ended → d.ledger.phase.status = .nonFinite

/-- Sampling leaves the cells alone, and what it answers flanks the centre along every dimension. -/
theorem probe_flanks (s : State ℝ n) (c : Cell ℝ n) (step : ℝ) (dimensions : List (Fin n)) :
    SearchM.Triple (fun d => d.own = s)
      (probe t c step dimensions : SearchM σ ℝ n (State ℝ n) (List (Probe ℝ n)))
      (fun probes d => d.own = s ∧ probes.map (·.dimension) = dimensions ∧
        ∀ q ∈ probes, q.Flanks c step)
      fun e d => d.own = s ∧ EndsNonFinite e d := by
  induction dimensions with
  | nil => exact .pure fun _ hd => ⟨hd, rfl, fun q hq => nomatch hq⟩
  | cons i rest ih =>
    have htrial (x : Point ℝ n) : SearchM.Triple (fun d => d.own = s)
        (SearchM.trial t x : SearchM σ ℝ n (State ℝ n) ℝ) (fun _ d => d.own = s)
        fun e d => d.own = s ∧ EndsNonFinite e d := by
      apply SearchM.Triple.bind (Q := fun _ d => d.own = s)
      · exact .evaluate (fun _ _ _ hd => ⟨hd, (nomatch ·)⟩) (fun _ _ hd _ => ⟨hd, (nomatch ·)⟩)
          fun _ _ hd _ => hd
      · exact fun k => .requireFinite (fun _ _ _ hd => hd) fun _ hd _ => ⟨hd, fun _ => rfl⟩
    apply SearchM.Triple.bind (htrial _)
    intro fl
    apply SearchM.Triple.bind (htrial _)
    intro fr
    apply ih.bind
    intro others
    apply SearchM.Triple.pure
    rintro d ⟨hd, hdimensions, hflanks⟩
    refine ⟨hd, congrArg (i :: ·) hdimensions, ?_⟩
    intro q hq
    rcases List.mem_cons.mp hq with rfl | hmem
    · exact ⟨rfl, rfl⟩
    · exact hflanks q hmem

/-- Some cells after a division: a cell is cut along its longest sides, its middle takes its place
and the rest is appended. -/
inductive Divides (cells : List (Cell ℝ n)) : List (Cell ℝ n) → Prop
  | cut {c : Cell ℝ n} {place : ℕ} {probes : List (Probe ℝ n)} (hc : cells[place]? = some c)
      (hdimensions : (probes.map (·.dimension)).Perm c.longestSides)
      (hflanks : ∀ q ∈ probes, q.Flanks c (Scalar.thirds (c.fewestCuts + 1))) :
      Divides cells
        (cells.set place { c with cuts := (cut probes c.cuts).1 } ++ (cut probes c.cuts).2)

/-- A division cuts the cell at its place and leaves all else alone. -/
theorem divide_cuts (s : State ℝ n) (place : ℕ) :
    SearchM.Triple (fun d => d.own = s) (divide t place : SearchM σ ℝ n (State ℝ n) Unit)
      (fun _ d => ∃ c probes, s.cells[place]? = some c ∧
        (probes.map (·.dimension)).Perm c.longestSides ∧
        (∀ q ∈ probes, q.Flanks c (Scalar.thirds (c.fewestCuts + 1))) ∧
        d.own = { s with
          cells := s.cells.set place { c with cuts := (cut probes c.cuts).1 } ++
            (cut probes c.cuts).2 })
      fun e d => d.own = s ∧ EndsNonFinite e d := by
  apply SearchM.Triple.own_bind (fun _ hd => hd)
  cases hc : s.cells[place]? with
  | none => exact .throw fun _ hd => ⟨hd, (nomatch ·)⟩
  | some c =>
    apply SearchM.Triple.use_bind
    · intro step hstep
      obtain rfl : Scalar.thirds (c.fewestCuts + 1) = step := Except.ok.inj hstep
      apply (probe_flanks s c _ c.longestSides).bind
      intro probes
      apply SearchM.Triple.modifyOwn
      rintro d ⟨rfl, hdimensions, hflanks⟩
      have hperm : (probes.mergeSort Probe.notAfter).Perm probes := List.mergeSort_perm probes _
      refine ⟨c, probes.mergeSort Probe.notAfter, rfl, ?_, ?_, rfl⟩
      · rw [← hdimensions]
        exact hperm.map _
      · intro q hq
        exact hflanks q (hperm.mem_iff.mp hq)
    · exact fun _ _ hd => ⟨hd, (nomatch ·)⟩

/-- A division replaces a cell of a tiling by cells that tile it. -/
theorem Divides.tiles {root : Cell ℝ n} {cells cells' : List (Cell ℝ n)} (h : Divides cells cells')
    (htiles : Tiles root cells) : Tiles root cells' := by
  obtain ⟨hc, hdimensions, hflanks⟩ := h
  apply htiles.set_append hc
  apply tiles_cut _ _ _ _ (hdimensions.nodup_iff.mpr (Cell.nodup_longestSides _)) hflanks
  intro q hq
  exact Cell.side_of_longest (hdimensions.mem_iff.mp (List.mem_map_of_mem hq))

/-! ## 2. Iterations -/

section

variable {I : List (Cell ℝ n) → Prop}
  (hI : ∀ cells cells' : List (Cell ℝ n), Divides cells cells' → I cells → I cells')

include hI in
/-- What a division does not change of the cells is kept by everything that divides them. -/
theorem divide_keeps (place : ℕ) :
    SearchM.Keeps (fun d => I d.own.cells) (divide t place : SearchM σ ℝ n (State ℝ n) Unit) := by
  intro d hd
  have hdivide := divide_cuts (σ := σ) (t := t) d.own place d rfl
  rcases hr : (divide t place).run d with ⟨e | u, d'⟩ <;> rw [hr] at hdivide
  · -- The cells are those from before.
    show I d'.own.cells
    rw [hdivide.1]
    exact hd
  · obtain ⟨c, probes, hc, hdimensions, hflanks, hown⟩ := hdivide
    show I d'.own.cells
    rw [hown]
    exact hI _ _ (.cut hc hdimensions hflanks) hd

include hI in
theorem divideAll_keeps (places : List ℕ) :
    SearchM.Keeps (fun d => I d.own.cells)
      (divideAll t places : SearchM σ ℝ n (State ℝ n) Unit) := by
  induction places with
  | nil => exact .pure
  | cons place rest ih =>
    exact .bind .withinBudget fun _ => .ite (.bind (divide_keeps hI place) fun _ => ih) .pure

end

section

variable {I : List (Cell ℝ n) → Prop} {E : Halt ℝ → Course σ ℝ n (State ℝ n) → Prop}

/-- The other steps leave the cells alone.  They halt by faults only. -/
theorem enterRecord_keeps :
    SearchM.Triple (fun d => I d.own.cells) (enterRecord : SearchM σ ℝ n (State ℝ n) Unit)
      (fun _ d => I d.own.cells) E :=
  fun _ hd => hd

theorem checkIterations_keeps :
    SearchM.Triple (fun d => I d.own.cells)
      (checkIterations t p : SearchM σ ℝ n (State ℝ n) Bool) (fun _ d => I d.own.cells) E := by
  apply checkIterations_rule
  · exact fun _ hd _ => hd
  · exact fun _ _ hd _ _ _ => hd
  · exact fun _ _ hd _ _ _ => hd

variable (hE : ∀ f d, I d.own.cells → E (.fault f) d)

include hE

theorem checkTarget_keeps :
    SearchM.Triple (fun d => I d.own.cells) (checkTarget p : SearchM σ ℝ n (State ℝ n) Bool)
      (fun _ d => I d.own.cells) E := by
  apply checkTarget_rule
  · exact fun _ hd => hd
  · exact fun _ _ _ hd _ _ _ => hd
  · exact fun d f hd _ => hE f d hd

theorem select_keeps :
    SearchM.Triple (fun d => I d.own.cells) (select p : SearchM σ ℝ n (State ℝ n) (List ℕ))
      (fun _ d => I d.own.cells) E := by
  apply select_rule
  · exact fun _ _ hd _ => hd
  · exact fun _ _ hd _ => hd
  · exact fun d f hd _ => hE f d hd

/-- What follows the selection, if the divisions are known. -/
theorem divideAll_bind_keeps {P : Course σ ℝ n (State ℝ n) → Prop} {places : List ℕ}
    (h : SearchM.Triple P (divideAll t places) (fun _ d => I d.own.cells) E) :
    SearchM.Triple P (do
      divideAll t places
      SearchM.endRound
      enterRecord
      if ← checkTarget p then pure false
      else if ← checkIterations t p then pure false
      else SearchM.withinBudget t) (fun _ d => I d.own.cells) E := by
  apply SearchM.Triple.bind h
  intro _
  apply SearchM.Triple.bind (Q := fun _ d => I d.own.cells)
  · exact .modifyLedger fun _ hd => hd
  intro _
  apply SearchM.Triple.bind enterRecord_keeps
  intro _
  apply SearchM.Triple.bind (checkTarget_keeps hE)
  intro reached
  apply SearchM.Triple.ite
  · exact fun _ => .pure fun _ hd => hd
  · intro _
    apply SearchM.Triple.bind checkIterations_keeps
    exact fun _ => .ite (fun _ => .pure fun _ hd => hd) fun _ => .withinBudget fun _ hd => hd

end

/-- Divisions are the only steps of an iteration that change cells. -/
theorem iterate_keeps {I : List (Cell ℝ n) → Prop}
    (hI : ∀ cells cells' : List (Cell ℝ n), Divides cells cells' → I cells → I cells') :
    SearchM.Keeps (fun d => I d.own.cells) (iterate t p : SearchM σ ℝ n (State ℝ n) Bool) := by
  apply SearchM.Keeps.bind .own
  intro s
  apply SearchM.Keeps.bind .require
  intro _
  apply SearchM.Keeps.bind .ledger
  intro L
  apply SearchM.Keeps.bind .withinBudget
  intro within
  apply SearchM.Keeps.ite .pure
  apply SearchM.Keeps.bind (select_keeps fun _ _ hd => hd)
  intro places
  exact divideAll_bind_keeps (fun _ _ hd => hd) (divideAll_keeps hI places)

/-! ## 3. The first cell -/

/-- The cells of a state tile the whole cube. -/
def State.IsTiling (s : State ℝ n) : Prop := Tiles (Cell.whole 0) s.cells

/-- Where the objective has a finite cost at a feasible point, its evaluation goes on. -/
theorem trial_of_finite {calls : ℕ} {v : ℝ} {x : Point ℝ n} (hx : t.region.Feasible x)
    (hfirst : t.objective x (calls + 1) = .ok (.finite v)) {I : State ℝ n → Prop}
    {E : Halt ℝ → Course σ ℝ n (State ℝ n) → Prop} :
    SearchM.Triple (fun d => I d.own ∧ d.ledger.calls = calls) (SearchM.trial t x)
      (fun _ d => I d.own) E := by
  apply SearchM.Triple.trial
  · intro f hf
    rw [t.region.check_eq_ok hx] at hf
    exact nomatch hf
  · intro _ d hd hfail
    rw [hd.2, hfirst] at hfail
    exact nomatch hfail
  · intro k d hd hok hinfinite
    rw [hd.2, hfirst] at hok
    exact absurd (Except.ok.inj hok).symm (hinfinite v)
  · exact fun _ d hd _ => hd.1

/-- A search that was not set up and finds a finite cost at the centre starts from the whole cube. -/
theorem setUp_tiles {calls : ℕ} {v : ℝ}
    (hfirst : t.objective (inRegion t.region (Point.fill n 0.5)) (calls + 1) = .ok (.finite v)) :
    SearchM.Triple (fun d => d.own = {} ∧ d.ledger.calls = calls)
      (setUp t p : SearchM σ ℝ n (State ℝ n) Bool)
      (fun _ d => d.own.IsTiling) fun _ d => d.own.IsTiling := by
  apply SearchM.Triple.own_bind (fun _ hd => hd.1)
  apply SearchM.Triple.bind (Q := fun _ d => d.own = {} ∧ d.ledger.calls = calls)
  · exact .ite (fun _ => .pure fun _ hd => hd) fun h => absurd rfl h
  intro _
  apply SearchM.Triple.bind (Q := fun _ d => d.own = {} ∧ d.ledger.calls = calls)
  · exact .modifyLedger fun d hd => ⟨hd.1, by rw [Account.calls_markRunning, hd.2]⟩
  intro _
  apply SearchM.Triple.bind (Q := fun _ d => d.own.cells = [] ∧ d.ledger.calls = calls)
  · exact .modifyOwn fun d hd => ⟨congrArg State.cells hd.1, hd.2⟩
  intro _
  apply SearchM.Triple.bind
    (trial_of_finite (I := fun s => s.cells = []) (feasible_inRegion _ _) hfirst)
  intro w
  apply SearchM.Triple.bind (Q := fun _ d => d.own.IsTiling)
  · apply SearchM.Triple.modifyOwn
    intro d hd
    show Tiles _ (d.own.cells ++ [Cell.whole w])
    rw [hd]
    exact Tiles.self _ _ 0 w
  intro _
  have hrest : SearchM.Keeps (fun d => d.own.IsTiling)
      (enterRecord >>= fun _ => checkTarget p >>= fun reached => pure !reached :
        SearchM σ ℝ n (State ℝ n) Bool) :=
    .bind (enterRecord_keeps (I := Tiles _)) fun _ =>
      .bind (checkTarget_keeps (I := Tiles _) fun _ _ hd => hd) fun _ => .pure
  exact hrest

/-! ## 4. A search driven by hand -/

/-- The search that stands where a course stands. -/
def ofCourse {α : Type} (p : Params α) (d : Course σ α n (State α n)) : Run σ α n :=
  ⟨d.ledger, d.draws, .partition p d.own⟩

/-- A search after a step stands where the step leaves its course. -/
theorem exists_of_answered {α β γ : Type} {p : Params α} {I : Course σ α n (State α n) → Prop}
    {m : SearchM σ α n (State α n) β} {f : β → γ} {ended : γ} {answer : Except (Fault α) γ}
    {d : Course σ α n (State α n)} {r : Run σ α n}
    (h : some (Run.answered f ended ((ofCourse p d).carry d.own (.partition p) m)) = some (answer, r))
    (hI : I (m.run d).2) : ∃ e, r = ofCourse p e ∧ I e :=
  ⟨_, (Run.eq_of_answered h).trans (Run.snd_carry _ _ _ _), hI⟩

variable [DrawSource σ ℝ]

/-- What a search that was set up may come to: cells are divided at any places, and iterations are
made, in any order and with any outcome. -/
inductive Reached (t : Task ℝ n) (p : Params ℝ) : Run σ ℝ n → Prop
  | setUp {draws : σ} {answer : Except (Fault ℝ) Bool} {r : Run σ ℝ n}
      (h : Run.setUp ⟨{}, draws, .partition p {}⟩ t = some (answer, r)) : Reached t p r
  | divide {r r' : Run σ ℝ n} {place : ℕ} {answer : Except (Fault ℝ) Bool} (hr : Reached t p r)
      (h : r.divide t place = some (answer, r')) : Reached t p r'
  | advance {r r' : Run σ ℝ n} {answer : Except (Fault ℝ) Bool} (hr : Reached t p r)
      (h : r.advance t = some (answer, r')) : Reached t p r'

/-- What a search is set up with and what its steps keep holds ever after. -/
theorem Reached.invariant {I : Course σ ℝ n (State ℝ n) → Prop}
    (hsetUp : ∀ draws, I ((Partition.setUp t p).run ⟨{}, draws, {}⟩).2)
    (hdivide : ∀ place, SearchM.Keeps I (Partition.divide t place))
    (hiterate : SearchM.Keeps I (Partition.iterate t p)) {r : Run σ ℝ n} (hr : Reached t p r) :
    ∃ d, r = ofCourse p d ∧ I d := by
  induction hr with
  | @setUp draws answer r h =>
    exact exists_of_answered (d := ⟨{}, draws, {}⟩) h (hsetUp draws)
  | @divide r r' place answer hr h ih =>
    obtain ⟨d, rfl, hd⟩ := ih
    exact exists_of_answered h ((hdivide place).run hd)
  | @advance r r' answer hr h ih =>
    obtain ⟨d, rfl, hd⟩ := ih
    exact exists_of_answered h (hiterate.run hd)

/-- What a search is set up with and no division changes holds of its cells ever after. -/
theorem Reached.keeps {I : List (Cell ℝ n) → Prop}
    (hI : ∀ cells cells' : List (Cell ℝ n), Divides cells cells' → I cells → I cells')
    (hsetUp : SearchM.Triple (fun d => d.own = {} ∧ d.ledger.calls = 0)
      (Partition.setUp t p : SearchM σ ℝ n (State ℝ n) Bool)
      (fun _ d => I d.own.cells) fun _ d => I d.own.cells)
    {r : Run σ ℝ n} (hr : Reached t p r) :
    ∃ s, r.engine = .partition p s ∧ I s.cells := by
  have hfirst (draws : σ) : I ((Partition.setUp t p).run ⟨{}, draws, {}⟩).2.own.cells := by
    have hrun := hsetUp ⟨{}, draws, {}⟩ ⟨rfl, rfl⟩
    rcases h : (Partition.setUp t p).run ⟨{}, draws, {}⟩ with ⟨_ | _, d⟩
    all_goals
      rw [h] at hrun
      exact hrun
  obtain ⟨d, rfl, hd⟩ := hr.invariant (I := fun d => I d.own.cells) hfirst (divide_keeps hI)
    (iterate_keeps hI)
  exact ⟨d.own, rfl, hd⟩

theorem Reached.isTiling {v : ℝ}
    (hfirst : t.objective (inRegion t.region (Point.fill n 0.5)) 1 = .ok (.finite v))
    {r : Run σ ℝ n} (hr : Reached t p r) :
    ∃ s, r.engine = .partition p s ∧ s.IsTiling :=
  hr.keeps (fun _ _ h => h.tiles) (setUp_tiles hfirst)

/-- The cells of a search lie in the unit cube, have no inner point in common, fill the cube and have
its volume together. -/
theorem cells_tile_cube {v : ℝ}
    (hfirst : t.objective (inRegion t.region (Point.fill n 0.5)) 1 = .ok (.finite v))
    {r : Run σ ℝ n} (hr : Reached t p r) :
    (∀ c ∈ r.cells, c.box ⊆ Set.Icc 0 1) ∧
      r.cells.Pairwise (fun a b => Disjoint (interior a.box) (interior b.box)) ∧
      (r.cells.map fun c => (3 : ℝ) ^ (-c.level)).sum = 1 ∧
      ∀ x ∈ Set.Icc (0 : Fin n → ℝ) 1, ∃ c ∈ r.cells, x ∈ c.box := by
  obtain ⟨s, hengine, hs⟩ := hr.isTiling hfirst
  have hcells : r.cells = s.cells := by
    unfold Run.cells
    rw [hengine]
  have hbox : (Cell.whole 0 : Cell ℝ n).box = Set.Icc 0 1 := Cell.box_whole 0
  rw [hcells, ← hbox]
  exact ⟨hs.inside, hs.apart, hs.volume.trans (Cell.volume_whole 0), hs.covers⟩

/-- A search without a known optimum and without a cap on iterations. -/
noncomputable def openEnded : Params ℝ := ⟨.ok 1e-4, none, none, 0.01⟩

/-- The cube is set up and its first cell divided. -/
theorem cells_tile_cube_leastOfFour :
    ∃ r : Run (Tape ℝ) ℝ 1, Reached Run.leastOfFour openEnded r ∧
      (∀ c ∈ r.cells, c.box ⊆ Set.Icc 0 1) ∧
      r.cells.Pairwise (fun a b => Disjoint (interior a.box) (interior b.box)) ∧
      (r.cells.map fun c => (3 : ℝ) ^ (-c.level)).sum = 1 ∧
      ∀ x ∈ Set.Icc (0 : Fin 1 → ℝ) 1, ∃ c ∈ r.cells, x ∈ c.box := by
  let fresh : Run (Tape ℝ) ℝ 1 := ⟨{}, ⟨fun _ => 0, fun _ => 0⟩, .partition openEnded {}⟩
  have hfirst : Run.leastOfFour.objective (inRegion Run.leastOfFour.region (Point.fill 1 0.5)) 1 =
      .ok (.finite ((inRegion Run.leastOfFour.region (Point.fill 1 0.5)).get 0)) := rfl
  have hsetUp : ∃ answer r, fresh.setUp Run.leastOfFour = some (answer, r) := ⟨_, _, rfl⟩
  obtain ⟨_, r, hr⟩ := hsetUp
  have hreached : Reached Run.leastOfFour openEnded r := .setUp hr
  obtain ⟨s, hs, -⟩ := hreached.isTiling hfirst
  have hdivide : ∃ answer r', r.divide Run.leastOfFour 0 = some (answer, r') := by
    unfold Run.divide
    rw [hs]
    exact ⟨_, _, rfl⟩
  obtain ⟨_, r', hr'⟩ := hdivide
  exact ⟨r', hreached.divide hr', cells_tile_cube hfirst (hreached.divide hr')⟩

end BoxSearch.Partition
