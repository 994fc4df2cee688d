import Mathlib
import BoxSearch.Proofs.Budget.Lead
import BoxSearch.Proofs.Counts.Solve
import BoxSearch.Proofs.Faultless.Solve
import BoxSearch.Proofs.Rotation.Reach
import BoxSearch.Proofs.Starts.Opening
import BoxSearch.Proofs.Starts.Reading

/-!
# Start points come first

A method that follows one point evaluates the first start point before anything else, and a population
evaluates the start points in their order, as many as it has members and evaluations.  Whatever is found
later, the best cost is at most the cost of any of them.
-/

namespace BoxSearch

variable {σ α : Type} [Scalar α] [DrawSource σ α] {n : ℕ} {t : Task α n}

/-! ## 1. Points to begin with -/

theorem HillClimb.start_of_cons {x : Point α n} {later : List (Point α n)}
    (ht : t.starts = x :: later) : Gives (· = x) (start t : StateM σ (Point α n)) := by
  unfold start
  rw [ht]
  exact .pure rfl

theorem Simplex.firstVertex_of_cons {F : Fault α → Prop} {x : Point α n} {later : List (Point α n)}
    (ht : t.starts = x :: later) (p : Params α) :
    Meets (· = x) F (firstVertex t p : ChoiceM σ α (Point α n)) := by
  unfold firstVertex
  rw [ht]
  exact .pure rfl

theorem Rotation.start_of_cons {F : Fault α → Prop} {x : Point α n} {later : List (Point α n)}
    (ht : t.starts = x :: later) (p : Params α) :
    Meets (· = x) F (start t p : ChoiceM σ α (Point α n)) := by
  unfold start
  rw [ht]
  exact .pure rfl

/-- A population takes the given points first.  Only normal points can fail to be chosen. -/
theorem Population.points_begin {ready : Prop} (size : ℕ) (sampling : Sampling) {spread : Quantity α}
    (hspread : ready → spread.IsNumber) :
    Meets (t.starts.take size <+: ·) (fun _ => ¬ready)
      (points t size sampling spread : ChoiceM σ α (List (Point α n))) := by
  have hsample (center : Point α n) : Meets (fun _ => True) (fun _ => ¬ready)
      (samplePoint t sampling spread center : ChoiceM σ α (Point α n)) := by
    cases sampling with
    | uniform => exact .draw (.trivial _)
    | gaussian =>
      apply Meets.bind (.draw (.trivial _))
      intro z _
      refine Meets.bind (.use (fun _ _ => trivial) ?_) fun c _ => .pure trivial
      intro e he hready
      obtain ⟨v, hv⟩ := hspread hready
      exact nomatch he.symm.trans hv
  apply Meets.bind (.draw (.trivial _))
  intro center _
  apply Meets.bind (.times (hsample center) _)
  exact fun others _ => .pure (List.prefix_append _ _)

/-! ## 2. Methods that follow one point -/

section

variable {xs : List (Point α n)} (hxs : xs = t.starts.take 1)
  (haccepted : ∀ x ∈ xs, t.checked = true → t.region.check x = .ok ())

include hxs

omit [DrawSource σ α] in
/-- Without start points there is nothing to show. -/
theorem Opening.of_starts {ready : Prop} {κ β : Type} {m : SearchM σ α n κ β}
    (h : ∀ x later, t.starts = x :: later → xs <+: [] ++ x :: [] → Opening ready xs [] m) :
    Opening ready xs [] m := by
  cases ht : t.starts with
  | nil =>
    rw [hxs, ht]
    exact .of_nil m
  | cons x later =>
    apply h x later ht
    rw [hxs, ht]
    exact List.prefix_rfl

include haccepted

theorem HillClimb.run_opening (p : Params α) :
    Opening p.IsNumeric xs [] (run t p : SearchM σ α n Unit Unit) := by
  apply Opening.of_starts hxs
  intro x later ht hfirst
  apply Opening.draw_bind (start_of_cons ht)
  rintro _ rfl
  apply Opening.use_bind Params.IsNumeric.stepSize
  intro stepSize
  apply Opening.trial_bind haccepted hfirst
  exact fun fx => .rest (climb_orderly stepSize t.budget _ fx) hfirst

theorem Simplex.run_opening (p : Params α) :
    Opening p.IsNumeric xs [] (run t p : SearchM σ α n (State α n) Unit) := by
  apply Opening.of_starts hxs
  intro x later ht hfirst
  have hadd : Opening p.IsNumeric xs [] (addVertex t x : SearchM σ α n (State α n) Unit) :=
    .keep_bind haccepted hfirst fun _ => .rest (t := t) .pure hfirst
  have hfound : Opening p.IsNumeric xs [] (found t p : SearchM σ α n (State α n) Unit) := by
    apply Opening.drawOr_bind (firstVertex_of_cons ht p)
    rintro _ rfl
    apply Opening.modifyOwn_bind
    apply Opening.bind_rest hadd
    exact fun _ => .bind (foundAround_orderly _ n) fun _ => .modifyOwn
  exact .bind_rest hfound fun _ => .roundsWithin round_orderly _

/-- The axes must not have been set up before. -/
theorem Rotation.run_opening (p : Params α) :
    SearchM.Triple (fun c => Called [] c ∧ c.own.initialized = false)
      (run t p : SearchM σ α n (State α n) Unit) (fun _ c => xs <+: c.ledger.trace.map (·.1))
      fun _ c => Opens p.IsNumeric xs c.ledger.trace := by
  have hsetUp : Opening p.IsNumeric xs [] (do
      let x ← SearchM.drawOr (start t p)
      let _ ← SearchM.trial t x
      let stepSize ← SearchM.use p.stepSize
      setFrame (Frame.upright stepSize (← bestInCube t)) : SearchM σ α n (State α n) Unit) := by
    apply Opening.of_starts hxs
    intro x later ht hfirst
    apply Opening.drawOr_bind (start_of_cons ht p)
    rintro _ rfl
    apply Opening.trial_bind haccepted hfirst
    intro _
    refine .rest (t := t) (.bind (.use _) fun stepSize => ?_) hfirst
    exact .bind bestInCube_orderly fun best => setFrame_orderly _
  apply SearchM.Triple.bind (Q := fun _ c => xs <+: c.ledger.trace.map (·.1))
  · rintro c ⟨hc, hfresh⟩
    have hmarked := Account.Rests.markRunning c.ledger
    rw [run_setUp_of_not_ready hfresh]
    exact hsetUp _ ⟨hmarked.trace ▸ hc.points, hmarked.evaluations.trans hc.evaluations⟩
  · exact fun _ => Opening.later (.repeatWhile step_orderly _)

end

/-! ## 3. Populations -/

section

variable {size : ℕ} {xs : List (Point α n)} (hxs : xs = t.starts.take (min t.budget size))
  (haccepted : ∀ x ∈ xs, t.checked = true → t.region.check x = .ok ())

include hxs haccepted

omit [DrawSource σ α] haccepted in
theorem length_le_budget : xs.length ≤ t.budget := by
  rw [hxs, List.length_take]
  omega

omit [DrawSource σ α] in
/-- The points that are chosen for a population are evaluated in their order. -/
theorem Population.evaluateAll_opening {κ : Type} {ready : Prop} {points : List (Point α n)}
    (hpoints : t.starts.take size <+: points) (keep : Sample α n → κ → κ) :
    Opening ready xs [] (evaluateAll t keep points : SearchM σ α n κ Unit) := by
  have hbegin : xs <+: t.starts.take size := by
    rw [hxs, ← List.take_take]
    exact List.take_prefix _ _
  exact Opening.evaluateAll haccepted (length_le_budget hxs) keep points (hbegin.trans hpoints)

theorem Swarm.run_opening {p : Params α} (hsize : p.size = size) :
    Opening p.IsNumeric xs [] (run t p : SearchM σ α n (State α n) Unit) := by
  have hlaunch : Opening p.IsNumeric xs [] (launch t p : SearchM σ α n (State α n) Unit) := by
    apply Opening.drawOr_bind (Population.points_begin p.size p.sampling Params.IsNumeric.spread)
    intro points hpoints
    apply Opening.setOwn_bind
    rw [hsize] at hpoints
    apply Opening.bind_rest (t := t) (Population.evaluateAll_opening hxs haccepted hpoints _)
    intro _
    apply Orderly.bind .own
    intro s
    apply Orderly.bind (.drawOr _)
    intro velocities
    exact .bind .modifyOwn fun _ => .report _
  exact .bind_rest hlaunch fun _ => .roundsWithin sweep_orderly _

/-- Members are evaluated as they are chosen. -/
theorem Genetic.found_opening {ready : Prop} {done : List (Point α n)} (k : ℕ)
    (given : List (Point α n)) (hgiven : xs <+: done ++ given.take k) :
    Opening ready xs done (found t k given : SearchM σ α n (List (Sample α n)) Unit) := by
  have hbudget := length_le_budget hxs
  induction k generalizing done given with
  | zero => exact .rest (t := t) .pure (List.append_nil done ▸ hgiven)
  | succ k ih =>
    apply Opening.requireBudget_bind hgiven hbudget
    cases given with
    | nil =>
      -- The points are evaluated, and the other members can be any.
      apply Opening.draw_bind (.trivial _)
      intro x _
      have hbefore : xs <+: done := List.append_nil done ▸ hgiven
      have hnext : xs <+: done ++ [x] := hbefore.trans (List.prefix_append _ _)
      apply Opening.keep_bind haccepted hnext
      exact fun _ => ih [] (by rwa [List.take_nil, List.append_nil])
    | cons x given =>
      have hfirst : Gives (· = x) (newcomer t.region (x :: given) : StateM σ (Point α n)) := .pure rfl
      apply Opening.draw_bind hfirst
      rintro _ rfl
      rw [List.take_succ_cons] at hgiven
      apply Opening.keep_bind haccepted hgiven
      exact fun _ => ih given (List.append_cons done _ _ ▸ hgiven)

theorem Genetic.run_opening {ready : Prop} {p : Params α} (hsize : p.size = size)
    (lengths : Vector ℕ n) :
    Opening ready xs [] (run t p lengths : SearchM σ α n (List (Sample α n)) Unit) := by
  have hgiven : xs <+: [] ++ t.starts.take p.size := by
    rw [hxs, hsize, ← List.take_take]
    exact List.take_prefix _ _
  apply Opening.setOwn_bind
  apply Opening.bind_rest (found_opening hxs haccepted p.size t.starts hgiven)
  intro _
  apply Orderly.bind (.report _)
  intro _
  exact .bind (.roundsWithin (generation_orderly lengths) _) fun _ => .stopWithin nofun

theorem Evolution.run_opening {p : Params α} (hsize : p.size = size) :
    Opening p.IsNumeric xs [] (run t p : SearchM σ α n (State α n) Unit) := by
  have hfound : Opening p.IsNumeric xs [] (found t p : SearchM σ α n (State α n) Unit) := by
    apply Opening.drawOr_bind (Population.points_begin p.size p.sampling Params.IsNumeric.spread)
    intro points hpoints
    apply Opening.modifyOwn_bind
    rw [hsize] at hpoints
    apply Opening.bind_rest (t := t) (Population.evaluateAll_opening hxs haccepted hpoints _)
    exact fun _ => .modifyOwn
  apply Opening.use_bind Params.IsNumeric.learning
  intro learning
  apply Opening.modifyOwn_bind
  apply Opening.report_bind
  exact .bind_rest hfound fun _ => .roundsWithin (generation_orderly _) _

end

/-! ## 4. Whole runs -/

/-- How many start points a search evaluates first: one, or as many as a population has members and
evaluations. -/
def Engine.openings (budget : ℕ) : Engine α n → ℕ
  | .hillClimb _ => 1
  | .swarm p _ => min budget p.size
  | .genetic p _ _ => min budget p.size
  | .evolution p _ => min budget p.size
  | .simplex _ _ => 1
  | .rotation _ _ => 1
  | .partition _ _ => 0

/-- What an account says of a point that is to be evaluated after `k` others. -/
structure Account.CallsAt {P : Type} (A : Account α P) (ready : Prop) (k : ℕ) (x : P) : Prop where
  -- No other point is evaluated in its place.
  point : ∀ e, A.trace[k]? = some e → e.1 = x
  -- It is evaluated unless the search stood still before, or could not begin at all.
  called : ready ∨ A.trace ≠ [] → (∀ e ∈ A.trace.take k, ∃ v, e.2 = some (.finite v)) →
    ∃ reply, A.trace[k]? = some (x, reply)
  -- The best cost is at most its cost.
  best : ∀ v, A.trace[k]? = some (x, some (.finite v)) → ∃ b, A.bestCost = some b ∧ b ≤ v

theorem Account.Balanced.exists_bestCost_le {P : Type} [Scalar.Total α]
    {f : P → ℕ → Except Failure (Cost α)} (hf : ∀ x k c, f x k = .ok c → c.IsProper) {A : Account α P}
    (hA : A.Balanced f) {x : P} {v : α} (h : (x, some (.finite v)) ∈ A.trace) :
    ∃ b, A.bestCost = some b ∧ b ≤ v := by
  have hanswer : (x, .finite v) ∈ A.answers := List.mem_filterMap.mpr ⟨_, h, rfl⟩
  have hbest := hA.best
  cases hb : A.best with
  | none =>
    rw [hb] at hbest
    exact absurd ⟨v, rfl⟩ (hbest _ hanswer)
  | some b =>
    rw [hb] at hbest
    have hfinite := hA.isProper_of_mem hf hbest.mem b.cost rfl
    have hv := hA.isProper_of_mem hf hanswer v rfl
    refine ⟨b.cost, congrArg (Option.map Best.cost) hb, ?_⟩
    exact Scalar.Total.le_of_not_lt hfinite hv (hbest.not_lt hanswer rfl)

/-- A balanced account that opens with some points calls each of them in its place. -/
theorem Opens.callsAt {P : Type} [Scalar.Total α] {f : P → ℕ → Except Failure (Cost α)}
    (hf : ∀ x k c, f x k = .ok c → c.IsProper) {A : Account α P} (hA : A.Balanced f) {ready : Prop}
    {xs : List P} (h : Opens ready xs A.trace) {k : ℕ} {x : P} (hx : xs[k]? = some x) :
    A.CallsAt ready k x where
  point _ := h.point_eq hx
  called hready hfinite := by
    have hlength := h.exists_call hready (List.getElem?_eq_some_iff.mp hx).1 hfinite
    have he := List.getElem?_eq_getElem hlength
    exact ⟨_, he.trans (congrArg some (Prod.ext (h.point_eq hx he) rfl))⟩
  best _ hv := hA.exists_bestCost_le hf (List.mem_of_getElem? hv)

namespace Run

theorem solve_opens {r : Run σ α n} (hr : r.ledger = {}) (hfresh : r.engine.IsFresh) (t : Task α n)
    (haccepted : ∀ x ∈ t.starts, t.checked = true → t.region.check x = .ok ()) :
    Opens r.engine.IsNumeric (t.starts.take (r.engine.openings t.budget))
      (r.solve t).2.ledger.trace := by
  obtain ⟨L, draws, engine⟩ := r
  obtain rfl : L = {} := hr
  have haccepted (k : ℕ) (x : Point α n) (hx : x ∈ t.starts.take k) :=
    haccepted x (List.mem_of_mem_take hx)
  cases engine with
  | hillClimb p =>
    exact Opens.solve (HillClimb.run_opening rfl (haccepted _) p _ (.started t draws _))
  | swarm p s =>
    exact Opens.solve (Swarm.run_opening rfl (haccepted _) rfl _ (.started t draws s))
  | genetic p lengths s =>
    exact Opens.solve (Genetic.run_opening rfl (haccepted _) rfl lengths _ (.started t draws s))
  | evolution p s =>
    exact Opens.solve (Evolution.run_opening rfl (haccepted _) rfl _ (.started t draws s))
  | simplex p s =>
    exact Opens.solve (Simplex.run_opening rfl (haccepted _) p _ (.started t draws s))
  | rotation p s =>
    exact Opens.solve (Rotation.run_opening rfl (haccepted _) p _ ⟨.started t draws s, hfresh⟩)
  | partition p s => exact Opens.solve (Opening.of_nil _ _ (.started t draws s))

/-- Start points that were read of finite rows are evaluated in their order. -/
theorem solve_callsAt [Scalar.Rounds α] {r : Run σ α n} (hr : r.ledger = {}) (hfresh : r.engine.IsFresh)
    {t : Task α n} (hf : t.objective.IsProper) {rows : List (Point α n)}
    (hrows : ∀ row ∈ rows, ∀ i, Scalar.isFinite (row.get i) = true)
    (hstarts : t.starts = rows.map t.region.repair) {k : ℕ} (hk : k < r.engine.openings t.budget)
    {row : Point α n} (hrow : rows[k]? = some row) :
    (r.solve t).2.ledger.CallsAt r.engine.IsNumeric k (t.region.repair row) := by
  have haccepted : ∀ x ∈ t.starts, t.checked = true → t.region.check x = .ok () := by
    intro x hx _
    rw [hstarts] at hx
    obtain ⟨row, hrow, rfl⟩ := List.mem_map.mp hx
    exact t.region.check_repair (hrows row hrow)
  have hcloses := r.solve_closes t (by rw [hr])
  rw [hr] at hcloses
  refine (solve_opens hr hfresh t haccepted).callsAt hf (hcloses.balanced hf (.aside .empty _ _ _)) ?_
  rw [List.getElem?_take_of_lt hk, hstarts, List.getElem?_map, hrow]
  rfl

/-- The first points that are evaluated are the repaired start points, in their order: the first one, or
as many as a population has members and evaluations.  In a session they are the rows of the grid that it
was opened with. -/
theorem starts_come_first :
    (∀ (σ α : Type) [Scalar α] [DrawSource σ α] [Scalar.Rounds α] (n : ℕ) (t : Task α n)
        (rows : List (Point α n)) (r : Run σ α n),
      r.ledger = {} → r.engine.IsFresh → t.objective.IsProper →
      (∀ row ∈ rows, ∀ i, Scalar.isFinite (row.get i) = true) → t.starts = rows.map t.region.repair →
      ∀ k row, k < r.engine.openings t.budget → rows[k]? = some row →
        (r.solve t).2.ledger.CallsAt r.engine.IsNumeric k (t.region.repair row)) ∧
    ∀ (request : Request) (seed given checks : Setting) (log : List LogRecord) (n : ℕ) (s : Session n)
        (starts : List (Point Float n)),
      ((request.session seed given checks).run log).1 = .ok ⟨n, s⟩ → s.starts = some starts →
      ∃ g rows, Grid.numbers given = .ok g ∧ (Session.startRows n g).outcome.1 = .ok rows ∧
        ∀ k row, k < s.engine.openings s.plan.budget → rows[k]? = some row →
          (s.run.solve s.task).2.ledger.CallsAt s.engine.IsNumeric k (s.region.repair row) := by
  constructor
  · intro σ α _ _ _ n t rows r hr hfresh hf hrows hstarts k row hk hrow
    exact solve_callsAt hr hfresh hf hrows hstarts hk hrow
  · intro request seed given checks log n s starts hsession hstarts
    have hopened := Request.opened_of_session hsession
    obtain ⟨_, hread⟩ := hopened.starts
    rw [hstarts] at hread
    obtain ⟨g, rows, hg, hrows, rfl⟩ := Session.exists_rows_of_readStarts hread
    refine ⟨g, rows, hg, hrows, fun k row hk hrow => ?_⟩
    have htask : s.task.starts = rows.map s.task.region.repair := by
      unfold Session.task
      rw [hstarts]
      rfl
    exact solve_callsAt hopened.ledger (MethodConfig.isFresh hopened.engine) hopened.isProper
      (Session.finite_of_startRows hrows) htask hk hrow

/-- Two start points for four integers, of which the second lies between two of them. -/
noncomputable def pairOfStarts : List (Point ℝ 1) := [Point.fill 1 0, Vector.ofFn fun _ => 2.5]

/-- Both members of a family are given, and the second of them is evaluated right after the first.  A
climb that is opened at three quarters of the unit interval begins there. -/
theorem starts_come_first_family :
    (family.ledger = {} ∧ family.engine.IsFresh ∧ leastOfFour.objective.IsProper ∧
      ∃ v b, (family.solve (leastOfFour.startingFrom pairOfStarts)).2.ledger.trace[1]? =
          some (leastOfFour.region.repair (Vector.ofFn fun _ => 2.5), some (.finite v)) ∧
        (family.solve (leastOfFour.startingFrom pairOfStarts)).2.ledger.bestCost = some b ∧ b ≤ v) ∧
    ∃ (s : Session 1) (starts : List (Point Float 1)),
      ((Repeat.climbs.single.session (.whole 3) (.list [.real 0.75]) .null).run []).1 = .ok ⟨1, s⟩ ∧
      s.starts = some starts ∧ s.engine.IsNumeric ∧
      (s.run.solve s.task).2.ledger.CallsAt s.engine.IsNumeric 0
        (s.region.repair (Vector.ofFn fun _ => 0.75)) := by
  constructor
  · have hf : leastOfFour.objective.IsProper := fun _ _ c _ => Cost.isProper_real c
    have hnumeric : family.engine.IsNumeric := ⟨⟨1, rfl⟩, ⟨1, rfl⟩, ⟨1, rfl⟩⟩
    have hsecond := starts_come_first.1 UnitTape ℝ 1 (leastOfFour.startingFrom pairOfStarts) pairOfStarts
      family rfl trivial hf (fun _ _ _ => rfl) rfl 1 _ (by decide) rfl
    -- The objective answers any call with a finite cost.
    have hbalanced := (family.solve_closes (leastOfFour.startingFrom pairOfStarts) rfl).balanced hf
      (.aside .empty _ _ _)
    have hfinite : ∀ e ∈ (family.solve (leastOfFour.startingFrom pairOfStarts)).2.ledger.trace,
        ∃ v, e.2 = some (.finite v) := by
      rintro ⟨x, reply⟩ he
      obtain ⟨k, hk⟩ := List.mem_iff_getElem?.mp he
      exact ⟨_, hbalanced.listed k x reply hk⟩
    obtain ⟨reply, hcalled⟩ :=
      hsecond.called (.inl hnumeric) fun e he => hfinite e (List.mem_of_mem_take he)
    obtain ⟨v, rfl⟩ := hfinite _ (List.mem_of_getElem? hcalled)
    obtain ⟨b, hb, hle⟩ := hsecond.best v hcalled
    exact ⟨rfl, trivial, hf, v, b, hcalled, hb, hle⟩
  · obtain ⟨s, starts, hsession, hstarts, hnumeric, hbudget⟩ :
        ∃ (s : Session 1) (starts : List (Point Float 1)),
          ((Repeat.climbs.single.session (.whole 3) (.list [.real 0.75]) .null).run []).1 = .ok ⟨1, s⟩ ∧
          s.starts = some starts ∧ s.engine.IsNumeric ∧ 0 < s.engine.openings s.plan.budget :=
      ⟨_, _, rfl, rfl, ⟨_, rfl⟩, by decide⟩
    obtain ⟨g, rows, hg, hrows, hcalls⟩ := starts_come_first.2 _ _ _ _ _ _ s starts hsession hstarts
    obtain rfl := Except.ok.inj hg
    obtain rfl := Except.ok.inj hrows
    exact ⟨s, starts, hsession, hstarts, hnumeric, hcalls 0 _ hbudget rfl⟩

end Run

end BoxSearch
