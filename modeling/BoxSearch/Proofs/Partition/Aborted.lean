import Mathlib
import BoxSearch.Proofs.Account.Reached
import BoxSearch.Proofs.Partition.Division
import BoxSearch.Proofs.Partition.Steps

/-!
# Divisions that halt

All samples of a division are taken before anything is cut.  So the first of them that fails, or that
has a cost that is not finite, leaves the cells as they were, while the samples before it stay
evaluated.  A cost that is not finite ends the search, and nothing that is done to a search that is
over lets an iteration evaluate again.
-/

namespace BoxSearch.Partition

variable {σ α : Type} [Scalar α] {n : ℕ} {t : Task α n}

/-! ## 1. Samples up to the first that halts -/

/-- The points that are sampled along some sides, in their order. -/
def Cell.samples (t : Task α n) (c : Cell α n) (delta : α) (sides : List (Fin n)) :
    List (Point α n) :=
  sides.flatMap fun i =>
    [inRegion t.region (c.shifted i (-delta)), inRegion t.region (c.shifted i delta)]

theorem run_probe_of_breaksOff (c : Cell α n) (delta : α) (sides : List (Fin n))
    (d : Course σ α n (State α n)) {values : List α} {x : Point α n}
    {reply : Except Failure (Cost α)} (hx : (c.samples t delta sides)[values.length]? = some x)
    (hvalues : ∀ k y v, (c.samples t delta sides)[k]? = some y → values[k]? = some v →
      t.Replies y (d.ledger.calls + k + 1) (.ok (.finite v)))
    (hreply : t.Replies x (d.ledger.calls + values.length + 1) reply) (hbreak : BreaksOff reply) :
    let L := d.ledger.enterAll ((c.samples t delta sides).zip (values.map .finite))
    (probe t c delta sides : SearchM σ α n (State α n) (List (Probe α n))).run d =
      (.error (L.breakOff x reply).1, { d with ledger := (L.breakOff x reply).2 }) := by
  -- Induction on the sides, two samples at a time.
  induction sides generalizing d values with
  | nil => exact nomatch hx
  | cons i rest ih =>
    unfold probe
    rcases values with _ | ⟨v, _ | ⟨w, values⟩⟩
    · obtain rfl : inRegion t.region (c.shifted i (-delta)) = x := Option.some.inj hx
      exact SearchM.run_trial_bind_of_breaksOff hreply hbreak
    · obtain rfl : inRegion t.region (c.shifted i delta) = x := Option.some.inj hx
      rw [SearchM.run_trial_bind_of_finite (hvalues 0 _ v rfl rfl)]
      exact SearchM.run_trial_bind_of_breaksOff hreply hbreak
    · rw [SearchM.run_trial_bind_of_finite (hvalues 0 _ v rfl rfl),
        SearchM.run_trial_bind_of_finite (hvalues 1 _ w rfl rfl)]
      have hcalls (k : ℕ) : d.ledger.calls + 1 + 1 + k + 1 = d.ledger.calls + (k + 2) + 1 := by omega
      refine run_bind_of_error (ih _ hx (fun k y u hy hu => ?_) ?_)
      · exact (hcalls k).symm ▸ hvalues (k + 2) y u hy hu
      · exact (hcalls values.length).symm ▸ hreply

/-- A division with a sample that halts it leaves the cells as they are. -/
theorem run_divide_of_breaksOff {d : Course σ α n (State α n)} {place : ℕ} {c : Cell α n}
    (hc : d.own.cells[place]? = some c) {delta : α} (hdelta : thirdOf c.fewestCuts = .ok delta)
    {values : List α} {x : Point α n} {reply : Except Failure (Cost α)}
    (hx : (c.samples t delta c.longestSides)[values.length]? = some x)
    (hvalues : ∀ k y v, (c.samples t delta c.longestSides)[k]? = some y → values[k]? = some v →
      t.Replies y (d.ledger.calls + k + 1) (.ok (.finite v)))
    (hreply : t.Replies x (d.ledger.calls + values.length + 1) reply) (hbreak : BreaksOff reply) :
    let L := d.ledger.enterAll ((c.samples t delta c.longestSides).zip (values.map .finite))
    (divide t place : SearchM σ α n (State α n) Unit).run d =
      (.error (L.breakOff x reply).1, { d with ledger := (L.breakOff x reply).2 }) := by
  unfold divide
  rw [SearchM.run_own_bind, hc]
  exact (SearchM.run_use_bind d hdelta _).trans
    (run_bind_of_error (run_probe_of_breaksOff c delta _ d hx hvalues hreply hbreak))

/-! ## 2. Searches that are over -/

/-- A course of a search that is over if so required, and set up if so required. -/
structure IsPast (ended setUp : Bool) (d : Course σ α n (State α n)) : Prop where
  isOver : ended = true → d.ledger.phase.isOver = true
  initialized : setUp = true → d.own.initialized = true

section

variable {p : Params α} {ended b : Bool}

/-- An iteration of a search that is over or out of budget does nothing. -/
theorem run_iterate_of_ended {d : Course σ α n (State α n)} (h : t.Ended d.ledger) :
    (iterate t p : SearchM σ α n (State α n) Bool).run d =
      (if d.own.initialized then .ok false else .error (.fault .notInitialized), d) :=
  SearchM.run_unlessEnded_of_ended h

theorem run_setUp_of_ready {d : Course σ α n (State α n)} (hd : d.own.initialized = true) :
    (setUp t p : SearchM σ α n (State α n) Bool).run d = (.error (.fault .alreadyInitialized), d) :=
  SearchM.run_onlyOnce_of_ready hd

theorem run_setUp_of_not_ready {d : Course σ α n (State α n)} (hd : d.own.initialized = false) :
    (setUp t p : SearchM σ α n (State α n) Bool).run d = (do
      let v ← SearchM.trial t (inRegion t.region (Point.fill n 0.5))
      SearchM.modifyOwn fun s => { s with cells := s.cells ++ [Cell.whole v] }
      enterRecord
      return !(← checkTarget p) : SearchM σ α n (State α n) Bool).run
        ⟨d.ledger.markRunning, d.draws, { d.own with initialized := true }⟩ :=
  SearchM.run_onlyOnce_of_not_ready hd

theorem run_iterate_of_not_ended {d : Course σ α n (State α n)} (hd : d.own.initialized = true)
    (h : ¬t.Ended d.ledger) : (iterate t p : SearchM σ α n (State α n) Bool).run d = (do
      divideAll t (← select p)
      SearchM.endRound
      enterRecord
      if ← checkTarget p then pure false
      else if ← checkIterations t p then pure false
      else SearchM.withinBudget t : SearchM σ α n (State α n) Bool).run d :=
  SearchM.run_unlessEnded_of_not_ended hd h

theorem trial_isPast (x : Point α n) :
    SearchM.Keeps (IsPast ended b) (SearchM.trial t x : SearchM σ α n (State α n) α) :=
  .bind (.evaluate (fun _ hd => ⟨hd.1, hd.2⟩) fun _ _ hd => ⟨hd.1, hd.2⟩) fun _ =>
    .requireFinite fun _ hd => ⟨fun _ => rfl, hd.2⟩

theorem probe_isPast (c : Cell α n) (delta : α) (sides : List (Fin n)) :
    SearchM.Keeps (IsPast ended b)
      (probe t c delta sides : SearchM σ α n (State α n) (List (Probe α n))) := by
  induction sides with
  | nil => exact .pure
  | cons i rest ih =>
    exact .bind (trial_isPast _) fun _ => .bind (trial_isPast _) fun _ => .bind ih fun _ => .pure

theorem divide_isPast (place : ℕ) :
    SearchM.Keeps (IsPast ended b) (divide t place : SearchM σ α n (State α n) Unit) := by
  apply SearchM.Keeps.bind .own
  intro s
  cases s.cells[place]? with
  | none => exact .throw
  | some c =>
    exact .bind .use fun delta => .bind (probe_isPast c delta _) fun _ =>
      .modifyOwn fun _ hd => ⟨hd.1, hd.2⟩

theorem enterRecord_isPast :
    SearchM.Keeps (IsPast ended b) (enterRecord : SearchM σ α n (State α n) Unit) :=
  .bind .ledger fun _ => .bind .own fun _ => .bind (.modifyOwn fun _ hd => ⟨hd.1, hd.2⟩) fun _ =>
    .modifyLedger fun _ hd => ⟨hd.1, hd.2⟩

theorem checkTarget_isPast :
    SearchM.Keeps (IsPast ended b) (checkTarget p : SearchM σ α n (State α n) Bool) := by
  apply checkTarget_rule
  · exact fun _ hd => hd
  · exact fun _ _ _ hd _ _ _ => ⟨fun _ => rfl, hd.2⟩
  · exact fun _ _ hd _ => hd

theorem checkIterations_isPast :
    SearchM.Keeps (IsPast ended b) (checkIterations t p : SearchM σ α n (State α n) Bool) := by
  apply checkIterations_rule
  · exact fun _ hd _ => hd
  · exact fun _ _ hd _ _ _ => ⟨fun _ => rfl, hd.2⟩
  · exact fun _ _ hd _ _ _ => hd

theorem select_isPast :
    SearchM.Keeps (IsPast ended b) (select p : SearchM σ α n (State α n) (List ℕ)) := by
  apply select_rule
  · exact fun _ _ hd _ => hd
  · exact fun _ _ hd _ => ⟨hd.1, hd.2⟩
  · exact fun _ _ hd _ => hd

/-- After this step a search is set up, whether or not it was before. -/
theorem run_setUp_isPast {d : Course σ α n (State α n)} (hd : IsPast ended b d) :
    IsPast ended true ((setUp t p : SearchM σ α n (State α n) Bool).run d).2 := by
  have hmark (d : Course σ α n (State α n)) (hd : IsPast ended b d) :
      IsPast ended b { d with ledger := d.ledger.markRunning } := by
    refine ⟨fun h => ?_, hd.2⟩
    have hover := hd.1 h
    show d.ledger.markRunning.phase.isOver = true
    unfold Account.markRunning
    cases hphase : d.ledger.phase with
    | notStarted => exact absurd hover (by rw [hphase]; exact Bool.false_ne_true)
    | _ => exact hover
  have hrest : SearchM.Keeps (IsPast ended true) (do
      let v ← SearchM.trial t (inRegion t.region (Point.fill n 0.5))
      SearchM.modifyOwn fun s => { s with cells := s.cells ++ [Cell.whole v] }
      enterRecord
      return !(← checkTarget p) : SearchM σ α n (State α n) Bool) :=
    .bind (trial_isPast _) fun _ => .bind (.modifyOwn fun _ hd => ⟨hd.1, hd.2⟩) fun _ =>
      .bind enterRecord_isPast fun _ => .bind checkTarget_isPast fun _ => .pure
  cases hinitialized : d.own.initialized with
  | true =>
    rw [run_setUp_of_ready hinitialized]
    exact ⟨hd.1, fun _ => hinitialized⟩
  | false =>
    rw [run_setUp_of_not_ready hinitialized]
    have hready : IsPast ended true
        ⟨d.ledger.markRunning, d.draws, { d.own with initialized := true }⟩ :=
      ⟨(hmark d hd).1, fun _ => rfl⟩
    exact hrest.run hready

theorem divideAll_isPast (places : List ℕ) :
    SearchM.Keeps (IsPast ended b) (divideAll t places : SearchM σ α n (State α n) Unit) := by
  induction places with
  | nil => exact .pure
  | cons place rest ih =>
    exact .bind .withinBudget fun _ => .ite (.bind (divide_isPast place) fun _ => ih) .pure

theorem iterate_isPast :
    SearchM.Keeps (IsPast ended b) (iterate t p : SearchM σ α n (State α n) Bool) := by
  apply SearchM.Keeps.bind .own
  intro s
  apply SearchM.Keeps.bind .require
  intro _
  apply SearchM.Keeps.bind .ledger
  intro L
  apply SearchM.Keeps.bind .withinBudget
  intro within
  apply SearchM.Keeps.ite .pure
  apply SearchM.Keeps.bind select_isPast
  intro places
  apply SearchM.Keeps.bind (divideAll_isPast places)
  intro _
  apply SearchM.Keeps.bind (.modifyLedger fun _ hd => ⟨hd.1, hd.2⟩)
  intro _
  apply SearchM.Keeps.bind enterRecord_isPast
  intro _
  apply SearchM.Keeps.bind checkTarget_isPast
  intro reached
  apply SearchM.Keeps.ite .pure
  exact .bind checkIterations_isPast fun _ => .ite .pure .withinBudget

end

/-! ## 3. What may follow -/

variable [DrawSource σ α] {p : Params α}

/-- What a search may come to afterwards: it is run, set up, advanced, evaluated, stopped or divided,
and cells are put in place, in any order and with any task. -/
inductive Follows (r : Run σ α n) : Run σ α n → Prop
  | refl : Follows r r
  | solve {r' : Run σ α n} (h : Follows r r') (t : Task α n) : Follows r (r'.solve t).2
  | evaluate {r' : Run σ α n} (h : Follows r r') (t : Task α n) (x : Point α n) :
      Follows r (r'.evaluate t x).2
  | stopNonFinite {r' : Run σ α n} (h : Follows r r') (c : Cost α) :
      Follows r { r' with ledger := r'.ledger.stopNonFinite c }
  | setUp {r' r'' : Run σ α n} (h : Follows r r') {t : Task α n} {b : Except (Fault α) Bool}
      (hstep : r'.setUp t = some (b, r'')) : Follows r r''
  | advance {r' r'' : Run σ α n} (h : Follows r r') {t : Task α n} {b : Except (Fault α) Bool}
      (hstep : r'.advance t = some (b, r'')) : Follows r r''
  | divide {r' r'' : Run σ α n} (h : Follows r r') {t : Task α n} {place : ℕ}
      {b : Except (Fault α) Bool} (hstep : r'.divide t place = some (b, r'')) : Follows r r''
  | placeCells {r' r'' : Run σ α n} (h : Follows r r') {cells : List (Cell α n)}
      {b : Except (Fault α) Unit} (hstep : r'.placeCells cells = some (b, r'')) : Follows r r''

/-- A search that is over stays over, and one that is set up stays so. -/
theorem Follows.isPast {b : Bool} {r r' : Run σ α n} (h : Follows r r')
    (hr : ∃ d, r = ofCourse p d ∧ IsPast true b d) : ∃ d, r' = ofCourse p d ∧ IsPast true b d := by
  induction h with
  | refl => exact hr
  | @solve r' _ t ih =>
    obtain ⟨d, rfl, hd⟩ := ih
    have hphase : (ofCourse p d).ledger.phase ≠ .notStarted := by
      intro (hnot : d.ledger.phase = .notStarted)
      have hover := hd.1 rfl
      rw [hnot] at hover
      exact nomatch hover
    rw [(ofCourse p d).solve_of_started hphase]
    exact ⟨d, rfl, hd⟩
  | @evaluate r' _ t x ih =>
    obtain ⟨d, rfl, hd⟩ := ih
    have hevaluate : SearchM.Keeps (fun e : Course σ α n Unit => e.ledger.phase.isOver = true)
        (SearchM.evaluate t x) := .evaluate (fun _ he => he) fun _ _ he => he
    refine ⟨⟨((ofCourse p d).evaluate t x).2.ledger, ((ofCourse p d).evaluate t x).2.draws, d.own⟩, rfl,
      fun _ => ?_, hd.2⟩
    show ((ofCourse p d).evaluate t x).2.ledger.phase.isOver = true
    unfold Run.evaluate
    rw [Run.ledger_carry]
    exact hevaluate.run (hd.1 rfl)
  | @stopNonFinite r' _ c ih =>
    obtain ⟨d, rfl, hd⟩ := ih
    exact ⟨{ d with ledger := d.ledger.stopNonFinite c }, rfl, fun _ => rfl, hd.2⟩
  | @setUp r' r'' _ t answer hstep ih =>
    obtain ⟨d, rfl, hd⟩ := ih
    have hpast : IsPast true b ((Partition.setUp t p).run d).2 :=
      ⟨(run_setUp_isPast hd).1, fun _ => (run_setUp_isPast hd).2 rfl⟩
    exact exists_of_answered hstep hpast
  | @advance r' r'' _ t answer hstep ih =>
    obtain ⟨d, rfl, hd⟩ := ih
    exact exists_of_answered hstep (iterate_isPast.run hd)
  | @divide r' r'' _ t place answer hstep ih =>
    obtain ⟨d, rfl, hd⟩ := ih
    exact exists_of_answered hstep ((divide_isPast place).run hd)
  | @placeCells r' r'' _ cells answer hstep ih =>
    obtain ⟨d, rfl, hd⟩ := ih
    have hrun : r'' = _ := (congrArg Prod.snd (Option.some.inj hstep)).symm
    rw [hrun]
    exact ⟨{ d with own := { d.own with cells } }, rfl, hd.1, hd.2⟩

/-- Whatever follows, a search that is over evaluates nothing more in an iteration. -/
theorem Follows.advance_eq {r r' : Run σ α n} (h : Follows r r') {s : State α n}
    (hengine : r.engine = .partition p s) (hover : r.ledger.phase.isOver = true) (t : Task α n) :
    ∃ s', r'.engine = .partition p s' ∧ (s.initialized = true → s'.initialized = true) ∧
      r'.advance t = some (if s'.initialized then .ok false else .error .notInitialized, r') := by
  obtain ⟨L, draws, engine⟩ := r
  obtain rfl : engine = .partition p s := hengine
  obtain ⟨d, rfl, hd⟩ := h.isPast (b := s.initialized) ⟨⟨L, draws, s⟩, rfl, fun _ => hover, id⟩
  refine ⟨d.own, rfl, hd.2, ?_⟩
  unfold Run.advance Run.carry Course.carry ofCourse
  dsimp only
  rw [run_iterate_of_ended (.inl (hd.1 rfl))]
  cases d.own.initialized <;> rfl

/-! ## 4. The cells after a halted division -/

/-- The first samples of a division have finite costs, and the next one has none: the objective answers
with another cost, or it fails.  Then the search keeps its cells and all else that is its own, and its
account goes on by the answered samples only.  Another cost ends the search; whatever is done to it
afterwards, an iteration says so and does nothing.  A failure is passed on. -/
theorem halted_divide_keeps_cells {r : Run σ α n} {s : State α n}
    (hengine : r.engine = .partition p s) {place : ℕ} {c : Cell α n}
    (hc : s.cells[place]? = some c) {delta : α} (hdelta : thirdOf c.fewestCuts = .ok delta)
    {values : List α} {x : Point α n}
    (hx : (c.samples t delta c.longestSides)[values.length]? = some x)
    (hvalues : ∀ k y v, (c.samples t delta c.longestSides)[k]? = some y → values[k]? = some v →
      t.Replies y (r.ledger.calls + k + 1) (.ok (.finite v))) :
    let completed := (c.samples t delta c.longestSides).zip (values.map .finite)
    (∀ cost : Cost α, ¬cost.IsFinite →
      t.Replies x (r.ledger.calls + values.length + 1) (.ok cost) →
      ∃ r', r.divide t place = some (.ok false, r') ∧ r'.engine = r.engine ∧ r'.cells = r.cells ∧
        r.ledger.AdvancesBy r'.ledger (completed ++ [(x, cost)]) ∧
        r'.ledger.phase.status = .nonFinite ∧
        ∀ r'', Follows r' r'' → ∀ t' : Task α n, ∃ s'', r''.engine = .partition p s'' ∧
          (s.initialized = true → s''.initialized = true) ∧
          r''.advance t' =
            some (if s''.initialized then .ok false else .error .notInitialized, r'')) ∧
      ∀ failure, t.Replies x (r.ledger.calls + values.length + 1) (.error failure) →
        ∃ r', r.divide t place = some (.error (.failed failure), r') ∧ r'.engine = r.engine ∧
          r'.cells = r.cells ∧ r.ledger.AdvancesBy r'.ledger completed ∧
          r'.ledger.phase = r.ledger.phase := by
  intro completed
  have hcells (d : Course σ α n (State α n)) (hown : d.own = s) :
      (ofCourse p d).engine = r.engine ∧ (ofCourse p d).cells = r.cells := by
    unfold Run.cells ofCourse
    rw [hengine, hown]
    exact ⟨rfl, rfl⟩
  have hrun {reply : Except Failure (Cost α)}
      (hreply : t.Replies x (r.ledger.calls + values.length + 1) reply) (hbreak : BreaksOff reply) :=
    run_divide_of_breaksOff (d := ⟨r.ledger, r.draws, s⟩) hc hdelta hx hvalues hreply hbreak
  constructor
  · intro cost hcost hreply
    have hdivide := divide_of_run hengine (hrun hreply hcost)
    refine ⟨_, hdivide, (hcells _ rfl).1, (hcells _ rfl).2, r.ledger.advancesBy_stopNonFinite _ x cost,
      rfl, ?_⟩
    intro r'' hfollows t'
    exact hfollows.advance_eq rfl rfl t'
  · intro failure hreply
    have hdivide := divide_of_run hengine (hrun hreply True.intro)
    refine ⟨_, hdivide, (hcells _ rfl).1, (hcells _ rfl).2, r.ledger.advancesBy_enterFailure _ x,
      r.ledger.phase_enterAll _⟩

/-- The third call has this reply, and every other call is answered with zero. -/
noncomputable def interrupted (reply : Except Failure (Cost ℝ)) : Task ℝ 2 :=
  { Run.leastOnSquare with
    objective := fun _ call => if call = 3 then reply else .ok (.finite 0) }

/-- The square is sampled along its first side; then a cost is undefined, or a call fails. -/
theorem halted_divide_keeps_cells_square :
    let s : State ℝ 2 := { initialized := true, cells := [Cell.whole 0] }
    let r : Run (Tape ℝ) ℝ 2 := ⟨{}, Run.climb.draws, .partition openEnded s⟩
    (∃ r', r.divide (interrupted (.ok .undefined)) 0 = some (.ok false, r') ∧ r'.cells = r.cells ∧
        r'.ledger.evaluations = 3 ∧ r'.ledger.phase.status = .nonFinite ∧
        r'.advance (interrupted (.ok .undefined)) = some (.ok false, r')) ∧
      ∃ r', r.divide (interrupted (.error ⟨.arithmetic, none⟩)) 0 =
          some (.error (.failed ⟨.arithmetic, none⟩), r') ∧ r'.cells = r.cells ∧
        r'.ledger.evaluations = 2 := by
  intro s r
  let c : Cell ℝ 2 := Cell.whole 0
  have hasks (reply : Except Failure (Cost ℝ)) (x : Point ℝ 2) (k : ℕ)
      (answer : Except Failure (Cost ℝ)) (h : (interrupted reply).objective x k = answer) :
      (interrupted reply).Replies x k answer := ⟨(nomatch ·), h⟩
  have hvalues (reply : Except Failure (Cost ℝ)) (k : ℕ) (y : Point ℝ 2) (v : ℝ)
      (_ : (c.samples (interrupted reply) (Scalar.thirds (c.fewestCuts + 1)) c.longestSides)[k]? = some y)
      (hv : [(0 : ℝ), 0][k]? = some v) : (interrupted reply).Replies y (0 + k + 1) (.ok (.finite v)) := by
    have hcalls : ¬0 + k + 1 = 3 := by
      have := (List.getElem?_eq_some_iff.mp hv).1
      simp only [List.length_cons, List.length_nil] at this
      omega
    obtain rfl : v = 0 := List.eq_of_mem_replicate (n := 2) (List.mem_of_getElem? hv)
    exact hasks _ _ _ _ (if_neg hcalls)
  have hthird (reply : Except Failure (Cost ℝ)) :
      (c.samples (interrupted reply) (Scalar.thirds (c.fewestCuts + 1)) c.longestSides)[
          [(0 : ℝ), 0].length]? =
        some (inRegion (interrupted reply).region (c.shifted 1 (-Scalar.thirds (c.fewestCuts + 1)))) := by
    have hsides : c.longestSides = [0, 1] := (Cell.eq_longestSides (by decide) (by decide)).symm
    rw [hsides]
    rfl
  have hcell : s.cells[0]? = some c := rfl
  have hkeeps (reply : Except Failure (Cost ℝ)) :=
    halted_divide_keeps_cells (t := interrupted reply) (r := r) rfl hcell rfl (hthird reply)
      (hvalues reply)
  constructor
  · obtain ⟨r', hdivide, -, hcells, hadvances, hstatus, hlater⟩ :=
      (hkeeps (.ok .undefined)).1 .undefined (fun h => nomatch h) (hasks _ _ _ _ rfl)
    obtain ⟨s'', -, hsetUp, hadvance⟩ := hlater r' .refl (interrupted (.ok .undefined))
    rw [if_pos (hsetUp rfl)] at hadvance
    exact ⟨r', hdivide, hcells, hadvances.counted, hstatus, hadvance⟩
  · obtain ⟨r', hdivide, -, hcells, hadvances, -⟩ :=
      (hkeeps (.error ⟨.arithmetic, none⟩)).2 ⟨.arithmetic, none⟩ (hasks _ _ _ _ rfl)
    exact ⟨r', hdivide, hcells, hadvances.counted⟩

end BoxSearch.Partition
