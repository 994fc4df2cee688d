import Mathlib
import BoxSearch.Proofs.Account.Reached
import BoxSearch.Proofs.Counts.Target
import BoxSearch.Proofs.Feasible.Solve
import BoxSearch.Proofs.Rotation.Frames
import BoxSearch.Proofs.Search.Replies

/-!
# Frames of a search driven by hand

A search along rotating axes can be broken off at any time, by a cost that is not finite or by a fault, and
can be driven on after a fault.  Its account lists the turns, and the finite costs that were answered since
the last one are the costs of the trials since then; a trial was a success if its cost is below all costs
before it.  Whatever happens, the frame of the search is one after these trials.
-/

namespace BoxSearch.Rotation

variable {σ : Type} {n : ℕ} {t : Task ℝ n} {p : Params ℝ} {stretch shorten stepSize : ℝ}

/-! ## 1. What the account says -/

section

variable {α P : Type}

/-- After how many evaluations the axes were turned. -/
def turns (L : Account α P) : List ℕ :=
  L.events.filterMap fun
    | .rotated evaluation => some evaluation
    | _ => none

variable [Scalar α]

/-- Whether each of some costs is below all costs before it. -/
def progress (costs : List α) : List Bool :=
  costs.mapIdx fun i v => (costs.take i).all fun u => decide (v < u)

/-- Whether each trial since the last turn was a success. The first evaluation is no trial. -/
def trials (L : Account α P) : List Bool := (progress L.costs).drop ((turns L).getLastD 1)

/-- Some trials along axes tried in turn had a success and a failure along each of them. -/
def AllSeen (n : ℕ) (trials : List Bool) : Prop :=
  ∀ d : Fin n, 0 < tally n d true trials ∧ 0 < tally n d false trials

instance (n : ℕ) (trials : List Bool) : Decidable (AllSeen n trials) :=
  inferInstanceAs (Decidable (∀ _ : Fin n, _))

theorem progress_concat (costs : List α) (v : α) :
    progress (costs ++ [v]) = progress costs ++ [costs.all fun u => decide (v < u)] := by
  unfold progress
  rw [List.mapIdx_concat, List.take_left]
  congr 1
  apply List.ext_getElem
  · rw [List.length_mapIdx, List.length_mapIdx]
  · intro i hi hi'
    rw [List.length_mapIdx] at hi
    rw [List.getElem_mapIdx, List.getElem_mapIdx, List.take_append_of_le_length hi.le]

theorem length_progress (costs : List α) : (progress costs).length = costs.length :=
  List.length_mapIdx

theorem trials_enter {L : Account α P} (h : (turns L).getLastD 1 ≤ L.costs.length) (x : P) (v : α) :
    trials (L.enter x (.finite v)) = trials L ++ [L.costs.all fun u => decide (v < u)] := by
  have hturns : turns (L.enter x (.finite v)) = turns L := rfl
  unfold trials
  rw [hturns, Account.costs_enter, progress_concat, List.drop_append_of_le_length]
  rwa [length_progress]

end

/-- The account after a turn. -/
def turned (L : Ledger ℝ n) : Ledger ℝ n :=
  Account.report { L with rounds := L.rounds + 1 } (.rotated L.evaluations)

theorem turns_turned (L : Ledger ℝ n) : turns (turned L) = turns L ++ [L.evaluations] :=
  List.filterMap_append

/-! ## 2. What holds of the account and the frame -/

/-- The search was set up, its account is balanced and counts the turns, and its frame is one after the
trials since the last turn. -/
structure Framed (t : Task ℝ n) (stretch shorten stepSize : ℝ) (L : Ledger ℝ n) (f : Frame ℝ n) :
    Prop where
  balanced : L.Balanced t.objective
  started : L.costs ≠ []
  -- Only the last cost of a search may be not finite, and then the search is over.
  finite : L.phase.isOver = false → L.costs.length = L.evaluations
  turned : (turns L).getLastD 1 ≤ L.costs.length
  rounds : L.rounds = (turns L).length
  frame : f.After stretch shorten stepSize (trials L)

/-- What trying a move makes of the account and the frame. -/
inductive Tried (t : Task ℝ n) (stretch shorten : ℝ) (L : Ledger ℝ n) (f : Frame ℝ n) :
    Ledger ℝ n → Frame ℝ n → Prop
  | refused : Tried t stretch shorten L f L f
  | failed {x : Point ℝ n} {failure : Failure}
      (hx : t.objective x (L.calls + 1) = .error failure) :
      Tried t stretch shorten L f (L.enterFailure x) f
  | ended {x : Point ℝ n} {k : Cost ℝ} (hx : t.objective x (L.calls + 1) = .ok k)
      (hk : ¬k.IsFinite) : Tried t stretch shorten L f ((L.enter x k).stopNonFinite k) f
  | answered {x : Point ℝ n} {v : ℝ} {b : Best ℝ (Point ℝ n)} (hb : L.best = some b)
      (hx : t.objective x (L.calls + 1) = .ok (.finite v)) :
      Tried t stretch shorten L f (L.enter x (.finite v))
        (if v < b.cost then f.succeed stretch else f.fail shorten).advance

section

variable {L L' : Ledger ℝ n} {f f' : Frame ℝ n}

theorem Framed.exists_best (h : Framed t stretch shorten stepSize L f) : ∃ b, L.best = some b := by
  obtain ⟨v, hv⟩ := List.exists_mem_of_ne_nil _ h.started
  obtain ⟨a, ha, hav⟩ := Account.mem_costs.mp hv
  exact Option.isSome_iff_exists.mp (h.balanced.best.isSome_iff.mpr ⟨a, ha, v, hav⟩)

/-- A cost is below the best one if it is below all costs. -/
theorem Framed.all_lt_iff (h : Framed t stretch shorten stepSize L f) {b : Best ℝ (Point ℝ n)}
    (hb : L.best = some b) (v : ℝ) : L.costs.all (fun u => decide (v < u)) = decide (v < b.cost) := by
  have hbest : Account.IsBest L.answers (some b) := hb ▸ h.balanced.best
  rw [Bool.eq_iff_iff, List.all_eq_true, decide_eq_true_iff]
  constructor
  · intro hall
    exact of_decide_eq_true (hall _ (Account.mem_costs.mpr ⟨_, hbest.mem, rfl⟩))
  · intro hv u hu
    obtain ⟨a, ha, hau⟩ := Account.mem_costs.mp hu
    exact decide_eq_true (hbest.lt_of_lt (fun _ _ => Cost.isProper_real _) hv ha hau)

theorem Framed.turn (h : Framed t stretch shorten stepSize L f) (hn : n < 10 ^ 24)
    (hphase : L.phase.isOver = false) (best : Point ℝ n) :
    Framed t stretch shorten stepSize (Rotation.turned L) (f.turn stepSize best).lower := by
  have hlast : (turns (Rotation.turned L)).getLastD 1 = L.costs.length := by
    rw [turns_turned, List.getLastD_concat, h.finite hphase]
  have hnone : trials (Rotation.turned L) = [] := by
    unfold trials
    rw [hlast]
    exact List.drop_eq_nil_of_le (length_progress L.costs).le
  refine ⟨h.balanced.aside _ _ _, h.started, h.finite, hlast.le, ?_, ?_⟩
  · rw [turns_turned, List.length_append, ← h.rounds]
    rfl
  · rw [hnone]
    exact Frame.turn_after hn f best

/-- A finite cost that was answered is a trial. -/
theorem Framed.enter (h : Framed t stretch shorten stepSize L f) {x : Point ℝ n} {v : ℝ}
    (hx : t.objective x (L.calls + 1) = .ok (.finite v))
    (hf' : f'.After stretch shorten stepSize (trials L ++ [L.costs.all fun u => decide (v < u)])) :
    Framed t stretch shorten stepSize (L.enter x (.finite v)) f' := by
  have hlength : (L.enter x (.finite v)).costs.length = L.costs.length + 1 := by
    rw [Account.costs_enter, List.length_append, List.length_singleton]
  refine ⟨h.balanced.enter (fun _ _ c _ => Cost.isProper_real c) hx, ?_, ?_, ?_, h.rounds, ?_⟩
  · exact List.ne_nil_of_length_pos (by omega)
  · exact fun hphase => hlength.trans (congrArg (· + 1) (h.finite hphase))
  · exact h.turned.trans (by omega)
  · rwa [trials_enter h.turned]

theorem Framed.tried (h : Framed t stretch shorten stepSize L f)
    (htried : Tried t stretch shorten L f L' f') : Framed t stretch shorten stepSize L' f' := by
  cases htried with
  | refused => exact h
  | @failed x failure hx =>
    refine ⟨h.balanced.enterFailure hx, ?_, ?_, ?_, h.rounds, ?_⟩
    · rw [Account.costs_enterFailure]
      exact h.started
    · rw [Account.costs_enterFailure]
      exact h.finite
    · rw [Account.costs_enterFailure]
      exact h.turned
    · unfold trials
      rw [Account.costs_enterFailure]
      exact h.frame
  | @ended x k hx hk =>
    have hcosts : ((L.enter x k).stopNonFinite k).costs = L.costs :=
      L.costs_enter_of_not_finite x hk
    have hturns : turns ((L.enter x k).stopNonFinite k) = turns L :=
      List.filterMap_append.trans (List.append_nil _)
    refine ⟨(h.balanced.enter (fun _ _ c _ => Cost.isProper_real c) hx).aside _ _ _, ?_,
      nofun, ?_, ?_, ?_⟩
    · rw [hcosts]
      exact h.started
    · rw [hcosts, hturns]
      exact h.turned
    · rw [hturns]
      exact h.rounds
    · unfold trials
      rw [hcosts, hturns]
      exact h.frame
  | @answered x v b hb hx =>
    apply h.enter hx
    rw [h.all_lt_iff hb]
    by_cases hv : v < b.cost
    · rw [if_pos hv, decide_eq_true hv]
      exact h.frame.succeed t.region.nonempty
    · rw [if_neg hv, decide_eq_false hv]
      exact h.frame.fail t.region.nonempty

/-- Trying a move turns nothing. -/
theorem Tried.turns_eq (h : Tried t stretch shorten L f L' f') : turns L' = turns L := by
  cases h with
  | refused => rfl
  | failed => rfl
  | ended => exact List.filterMap_append.trans (List.append_nil _)
  | answered => rfl

/-- A frame stays as it is or enters a success or a failure. -/
def Frame.MayBecome (stretch shorten : ℝ) (f f' : Frame ℝ n) : Prop :=
  f' = f ∨ f' = (f.succeed stretch).advance ∨ f' = (f.fail shorten).advance

theorem Tried.mayBecome (h : Tried t stretch shorten L f L' f') : f.MayBecome stretch shorten f' := by
  cases h with
  | refused => exact .inl rfl
  | failed => exact .inl rfl
  | ended => exact .inl rfl
  | answered =>
    right
    split_ifs
    · exact .inl rfl
    · exact .inr rfl

end

/-! ## 3. Steps -/

section

variable {α : Type} [Scalar α]

/-- A step of a search that is over or out of budget does nothing. -/
theorem run_step_of_ended {t : Task α n} {p : Params α} {d : Course σ α n (State α n)}
    (h : t.Ended d.ledger) :
    (step t p : SearchM σ α n (State α n) Bool).run d =
      (if d.own.initialized then .ok false else .error (.fault .notInitialized), d) :=
  SearchM.run_unlessEnded_of_ended h

theorem run_setUp_of_ready [DrawSource σ α] {t : Task α n} {p : Params α}
    {d : Course σ α n (State α n)} (hd : d.own.initialized = true) :
    (setUp t p : SearchM σ α n (State α n) Unit).run d = (.error (.fault .alreadyInitialized), d) :=
  SearchM.run_onlyOnce_of_ready hd

theorem run_setUp_of_not_ready [DrawSource σ α] {t : Task α n} {p : Params α}
    {d : Course σ α n (State α n)} (hd : d.own.initialized = false) :
    (setUp t p : SearchM σ α n (State α n) Unit).run d = (do
      let x ← SearchM.drawOr (start t p)
      let _ ← SearchM.trial t x
      let stepSize ← SearchM.use p.stepSize
      setFrame (Frame.upright stepSize (← bestInCube t)) : SearchM σ α n (State α n) Unit).run
        ⟨d.ledger.markRunning, d.draws, { d.own with initialized := true }⟩ :=
  SearchM.run_onlyOnce_of_not_ready hd

theorem run_step_of_not_ended {t : Task α n} {p : Params α} {d : Course σ α n (State α n)}
    (hd : d.own.initialized = true) (h : ¬t.Ended d.ledger) :
    (step t p : SearchM σ α n (State α n) Bool).run d = (do
      turnIfExhausted t p
      tryMove t p
      SearchM.withinBudget t : SearchM σ α n (State α n) Bool).run d :=
  SearchM.run_unlessEnded_of_not_ended hd h

end

/-- The factors and the length of a step, all of them positive numbers. -/
structure Params.Are (p : Params ℝ) (stretch shorten stepSize : ℝ) : Prop where
  stretch_pos : 0 < stretch
  shorten_pos : 0 < shorten
  stepSize_pos : 0 < stepSize
  stretch : p.stretch = .ok stretch
  shorten : p.shorten = .ok shorten
  stepSize : p.stepSize = .ok stepSize

variable {f : Frame ℝ n} {b : Best ℝ (Point ℝ n)}

section

variable {c : Course σ ℝ n (State ℝ n)}

theorem run_frame (hf : c.own.frame = some f) :
    (frame : SearchM σ ℝ n (State ℝ n) (Frame ℝ n)).run c = (.ok f, c) := by
  unfold frame
  rw [SearchM.run_own_bind, hf]
  rfl

theorem run_bestInCube (hb : c.ledger.best = some b) :
    (bestInCube t : SearchM σ ℝ n (State ℝ n) (Point ℝ n)).run c =
      (.ok (t.region.toUnit b.point), c) := by
  unfold bestInCube
  rw [SearchM.run_ledger_bind, hb]
  rfl

/-- The axes are turned without a fault: the new moves pass the check. -/
theorem run_turn (hn : n < 10 ^ 24) (hp : p.Are stretch shorten stepSize)
    (hown : c.own = ⟨true, some f⟩) (hb : c.ledger.best = some b) :
    (turn t p : SearchM σ ℝ n (State ℝ n) Unit).run c =
      (.ok (), { c with
        ledger := turned c.ledger
        own := ⟨true, some (f.turn stepSize (t.region.toUnit b.point)).lower⟩ }) := by
  have hafter : (f.turn stepSize (t.region.toUnit b.point)).lower.After stretch shorten stepSize [] :=
    Frame.turn_after hn f _
  have hcheck : checkMoves t (f.turn stepSize (t.region.toUnit b.point)) = .ok () := by
    unfold checkMoves
    split_ifs
    · exact hafter.check hp.stretch_pos hp.shorten_pos hp.stepSize_pos (by norm_num)
    · rfl
  unfold turn
  rw [run_bind_of_ok (run_frame (congrArg State.frame hown)), run_bind_of_ok (run_bestInCube hb),
    SearchM.run_use_bind c hp.stepSize]
  unfold setFrame
  rw [SearchM.run_modifyOwn_bind, SearchM.run_use_bind _ hcheck, SearchM.run_modifyOwn_bind, hown]
  rfl

theorem run_turnIfExhausted (hn : n < 10 ^ 24) (hp : p.Are stretch shorten stepSize)
    (hown : c.own = ⟨true, some f⟩) (hb : c.ledger.best = some b) :
    (turnIfExhausted t p : SearchM σ ℝ n (State ℝ n) Unit).run c =
      (.ok (), if f.isExhausted then { c with
        ledger := turned c.ledger
        own := ⟨true, some (f.turn stepSize (t.region.toUnit b.point)).lower⟩ } else c) := by
  unfold turnIfExhausted
  rw [run_bind_of_ok (run_frame (congrArg State.frame hown))]
  cases f.isExhausted with
  | true => exact run_turn hn hp hown hb
  | false => rfl

end

theorem Frame.tried_eq (hp : p.Are stretch shorten stepSize) (f : Frame ℝ n) (v best : ℝ) :
    f.tried p ((Cost.finite v).below (Cost.ofOption (some best))) =
      .ok (if v < best then f.succeed stretch else f.fail shorten) := by
  show f.tried p (decide (v < best)) = _
  unfold tried
  by_cases hv : v < best
  · rw [if_pos hv, if_pos (decide_eq_true hv), hp.stretch]
    rfl
  · rw [if_neg hv, if_neg (by rwa [decide_eq_true_iff]), hp.shorten]
    rfl

/-- The search stands where trying a move of the frame leads to. -/
def TriedFrom (t : Task ℝ n) (stretch shorten : ℝ) (L : Ledger ℝ n) (f : Frame ℝ n)
    (d : Course σ ℝ n (State ℝ n)) : Prop :=
  ∃ f', d.own = ⟨true, some f'⟩ ∧ Tried t stretch shorten L f d.ledger f'

theorem tryMove_tried (hp : p.Are stretch shorten stepSize) (L : Ledger ℝ n)
    (hb : L.best = some b) (f : Frame ℝ n) :
    SearchM.Triple (fun d => d.ledger = L ∧ d.own = ⟨true, some f⟩)
      (tryMove t p : SearchM σ ℝ n (State ℝ n) Unit)
      (fun _ => TriedFrom t stretch shorten L f) fun _ => TriedFrom t stretch shorten L f := by
  rintro c ⟨rfl, hown⟩
  unfold tryMove
  rw [run_bind_of_ok (run_frame (congrArg State.frame hown))]
  cases f.moves[f.direction]? with
  | none => exact ⟨f, hown, .refused⟩
  | some move =>
    dsimp only
    rw [run_bind_of_ok (run_bestInCube hb), SearchM.run_ledger_bind]
    have hbefore : c.ledger.bestCost = some b.cost := by
      unfold Account.bestCost
      rw [hb]
      rfl
    -- A trial starts from this course, and its answer decides between the two ends of the step.
    refine SearchM.Triple.bind (P := fun d => d = c) (Q := fun v d => ∃ x, d.own = ⟨true, some f⟩ ∧
      t.objective x (c.ledger.calls + 1) = .ok (.finite v) ∧ d.ledger = c.ledger.enter x (.finite v))
      ?_ ?_ c rfl
    · apply SearchM.Triple.trial
      · rintro _ _ _ rfl
        exact ⟨f, hown, .refused⟩
      · rintro failure _ rfl hx
        exact ⟨f, hown, .failed hx⟩
      · rintro k _ rfl hx hk
        exact ⟨f, hown, .ended hx fun ⟨v, hv⟩ => hk v hv⟩
      · rintro v _ rfl hx
        exact ⟨_, hown, hx, rfl⟩
    · rintro v d ⟨x, hd, hx, hledger⟩
      rw [hbefore, SearchM.run_use_bind d (f.tried_eq hp v b.cost)]
      refine ⟨(if v < b.cost then f.succeed stretch else f.fail shorten).advance, ?_, ?_⟩
      · show State.mk d.own.initialized _ = _
        rw [hd]
      · show Tried _ _ _ _ _ d.ledger _
        rw [hledger]
        exact .answered hb hx

/-- A step that is not stopped and within the budget turns the axes if every flag is raised, and then tries a
move. -/
theorem step_tried (hn : n < 10 ^ 24) (hp : p.Are stretch shorten stepSize)
    {c : Course σ ℝ n (State ℝ n)} (hown : c.own = ⟨true, some f⟩) (hb : c.ledger.best = some b)
    (hopen : ¬t.Ended c.ledger) :
    TriedFrom t stretch shorten (if f.isExhausted then turned c.ledger else c.ledger)
      (if f.isExhausted then (f.turn stepSize (t.region.toUnit b.point)).lower else f)
      ((step t p).run c).2 := by
  have hbest : (if f.isExhausted then turned c.ledger else c.ledger).best = some b := by
    split_ifs
    · exact hb
    · exact hb
  have hmove := SearchM.Triple.bind (tryMove_tried (σ := σ) (t := t) hp _ hbest
    (if f.isExhausted then (f.turn stepSize (t.region.toUnit b.point)).lower else f)) fun _ =>
      SearchM.Triple.withinBudget (t := t) (Q := fun _ => TriedFrom t stretch shorten _ _)
        fun _ hd => hd
  rw [run_step_of_not_ended (congrArg State.initialized hown) hopen,
    run_bind_of_ok (run_turnIfExhausted hn hp hown hb)]
  apply hmove.run
  split_ifs
  · exact ⟨rfl, rfl⟩
  · exact ⟨rfl, hown⟩

/-- The first finite cost makes a frame without trials. -/
theorem framed_first {x : Point ℝ n} {v : ℝ} (hx : t.objective x 1 = .ok (.finite v))
    (origin : Point ℝ n) :
    Framed t stretch shorten stepSize (Account.enter { phase := .running } x (.finite v))
      (Frame.upright stepSize origin) := by
  have hfresh : Account.Balanced t.objective ({ phase := .running } : Ledger ℝ n) :=
    Account.Balanced.empty.aside _ _ _
  have hcosts : (Account.enter { phase := .running } x (.finite v) : Ledger ℝ n).costs = [v] :=
    Account.costs_enter _ _ _
  have hnone : trials (Account.enter { phase := .running } x (.finite v) : Ledger ℝ n) = [] := by
    unfold trials
    rw [hcosts]
    exact List.drop_eq_nil_of_le le_rfl
  refine ⟨hfresh.enter (fun _ _ c _ => Cost.isProper_real c) hx, ?_, ?_, ?_, rfl, ?_⟩
  · rw [hcosts]
    exact List.cons_ne_nil _ _
  · exact fun _ => congrArg List.length hcosts
  · exact (congrArg List.length hcosts).ge
  · rw [hnone]
    exact Frame.upright_after origin

/-- A search that is set up and finds a finite cost starts from the axes of the cube. -/
theorem setUp_framed [DrawSource σ ℝ] (hp : p.Are stretch shorten stepSize) :
    SearchM.Triple (fun d => d.ledger = {} ∧ d.own = {})
      (setUp t p : SearchM σ ℝ n (State ℝ n) Unit)
      (fun _ d => ∃ f, d.own = ⟨true, some f⟩ ∧ Framed t stretch shorten stepSize d.ledger f)
      fun _ d => d.ledger.costs = [] := by
  rintro ⟨_, draws, _⟩ ⟨rfl, rfl⟩
  rw [run_setUp_of_not_ready rfl]
  refine SearchM.Triple.bind (P := fun d => d.ledger = { phase := .running } ∧ d.own = ⟨true, none⟩)
    (Q := fun _ d => d.ledger = { phase := .running } ∧ d.own = ⟨true, none⟩) ?_ (fun x => ?_) _
    ⟨rfl, rfl⟩
  · exact .drawOr (.attained _) (fun _ _ _ hd _ => hd) fun _ _ _ hd _ => congrArg Account.costs hd.1
  apply SearchM.Triple.bind (Q := fun v d => t.objective x 1 = .ok (.finite v) ∧
    d.ledger = Account.enter { phase := .running } x (.finite v) ∧ d.own = ⟨true, none⟩)
  · apply SearchM.Triple.trial
    · exact fun _ _ _ hd => congrArg Account.costs hd.1
    · intro _ d hd _
      rw [Account.costs_enterFailure, hd.1]
      rfl
    · intro k d hd _ hk
      have hcosts : ((d.ledger.enter x k).stopNonFinite k).costs = d.ledger.costs :=
        d.ledger.costs_enter_of_not_finite x fun ⟨v, hv⟩ => hk v hv
      rw [hcosts, hd.1]
      rfl
    · intro v d hd hx
      rw [hd.1] at hx ⊢
      exact ⟨hx, rfl, hd.2⟩
  rintro v d ⟨hx, hledger, hown⟩
  have hbest : d.ledger.best = some ⟨x, v⟩ := by
    rw [hledger]
    rfl
  rw [SearchM.run_use_bind d hp.stepSize, run_bind_of_ok (run_bestInCube hbest)]
  refine ⟨Frame.upright stepSize (t.region.toUnit x), ?_, ?_⟩
  · show State.mk d.own.initialized _ = _
    rw [hown]
  · show Framed _ _ _ _ d.ledger _
    rw [hledger]
    exact framed_first hx _

/-! ## 4. Steps whose trials are answered -/

/-- Whatever is tried, a finite cost is answered and entered. -/
theorem run_tryMove_of_replies (hp : p.Are stretch shorten stepSize) {c : Course σ ℝ n (State ℝ n)}
    (hown : c.own = ⟨true, some f⟩) (hb : c.ledger.best = some b)
    (hmove : f.direction < f.moves.length) {v : ℝ}
    (hv : ∀ x, t.Replies x (c.ledger.calls + 1) (.ok (.finite v))) :
    ∃ x f', (tryMove t p : SearchM σ ℝ n (State ℝ n) Unit).run c =
      (.ok (), ⟨c.ledger.enter x (.finite v), c.draws, ⟨true, some f'⟩⟩) := by
  obtain ⟨L, draws, own⟩ := c
  obtain rfl : own = ⟨true, some f⟩ := hown
  have hbefore : L.bestCost = some b.cost := congrArg (Option.map Best.cost) hb
  let x := trialPoint t.region (t.region.toUnit b.point) f.moves[f.direction]
  refine ⟨x, (if v < b.cost then f.succeed stretch else f.fail shorten).advance, ?_⟩
  unfold tryMove
  rw [run_bind_of_ok (run_frame rfl), List.getElem?_eq_getElem hmove]
  dsimp only
  rw [run_bind_of_ok (run_bestInCube hb), SearchM.run_ledger_bind,
    SearchM.run_trial_bind_of_finite (hv x), hbefore, SearchM.run_use_bind _ (f.tried_eq hp v b.cost)]
  rfl

/-- A step whose trial is answered enters the answer, after a turn if all flags are raised. -/
theorem run_step_of_replies (hn : n < 10 ^ 24) (hp : p.Are stretch shorten stepSize)
    {c : Course σ ℝ n (State ℝ n)} (hown : c.own = ⟨true, some f⟩)
    (hf : Framed t stretch shorten stepSize c.ledger f) (hopen : ¬t.Ended c.ledger) {v : ℝ}
    (hv : ∀ x, t.Replies x (c.ledger.calls + 1) (.ok (.finite v))) :
    ∃ x f', (step t p : SearchM σ ℝ n (State ℝ n) Bool).run c =
      (.ok (decide (c.ledger.evaluations + 1 < t.budget)),
        ⟨(if AllSeen n (trials c.ledger) then turned c.ledger else c.ledger).enter x (.finite v),
          c.draws, ⟨true, some f'⟩⟩) := by
  obtain ⟨b, hb⟩ := hf.exists_best
  have hseen : f.isExhausted = true ↔ AllSeen n (trials c.ledger) := by
    rw [hf.frame.isExhausted_iff]
    exact forall_congr' fun d => and_congr (hf.frame.succeeded d) (hf.frame.failed d)
  rw [run_step_of_not_ended (congrArg State.initialized hown) hopen,
    run_bind_of_ok (run_turnIfExhausted hn hp hown hb)]
  by_cases hall : AllSeen n (trials c.ledger)
  · rw [if_pos (hseen.mpr hall), if_pos hall]
    let turnedFrame := (f.turn stepSize (t.region.toUnit b.point)).lower
    have hafter : turnedFrame.After stretch shorten stepSize [] := Frame.turn_after hn f _
    obtain ⟨x, f', hrun⟩ := run_tryMove_of_replies (t := t) hp
      (c := ⟨turned c.ledger, c.draws, ⟨true, some turnedFrame⟩⟩) rfl hb
      (hafter.direction_lt_length t.region.nonempty) hv
    exact ⟨x, f', run_bind_of_ok hrun⟩
  · rw [if_neg (mt hseen.mp hall), if_neg hall]
    obtain ⟨x, f', hrun⟩ := run_tryMove_of_replies (t := t) hp hown hb
      (hf.frame.direction_lt_length t.region.nonempty) hv
    exact ⟨x, f', run_bind_of_ok hrun⟩

/-! ## 5. A search driven by hand -/

variable [DrawSource σ ℝ]

/-- What a search that was set up and found a finite cost may come to: it is advanced, with any outcome. -/
inductive Reached (t : Task ℝ n) (p : Params ℝ) : Run σ ℝ n → Prop
  | setUp {draws : σ} {answer : Except (Fault ℝ) Bool} {r : Run σ ℝ n}
      (h : Run.setUp ⟨{}, draws, .rotation p {}⟩ t = some (answer, r))
      (hfinite : r.ledger.costs ≠ []) : Reached t p r
  | advance {r r' : Run σ ℝ n} {answer : Except (Fault ℝ) Bool} (hr : Reached t p r)
      (h : r.advance t = some (answer, r')) : Reached t p r'

/-- The search that stands where a course stands. -/
def ofCourse {α : Type} (p : Params α) (d : Course σ α n (State α n)) : Run σ α n :=
  ⟨d.ledger, d.draws, .rotation p d.own⟩

omit [DrawSource σ ℝ] in
theorem eq_of_advance {d : Course σ ℝ n (State ℝ n)} {answer : Except (Fault ℝ) Bool}
    {r : Run σ ℝ n} (h : (ofCourse p d).advance t = some (answer, r)) :
    r = ofCourse p ((step t p).run d).2 :=
  (Run.eq_of_answered h).trans (Run.snd_carry _ _ _ _)

/-- The search stands where a course stands whose account and frame agree. -/
theorem Reached.framed (hn : n < 10 ^ 24) (hp : p.Are stretch shorten stepSize) {r : Run σ ℝ n}
    (hr : Reached t p r) : ∃ d f, r = ofCourse p d ∧ d.own = ⟨true, some f⟩ ∧
      Framed t stretch shorten stepSize d.ledger f := by
  induction hr with
  | @setUp draws answer r h hfinite =>
    let fresh : Course σ ℝ n (State ℝ n) := ⟨{}, draws, {}⟩
    have hrun : r = ofCourse p ((Rotation.setUp t p).run fresh).2 :=
      (Run.eq_of_answered h).trans (Run.snd_carry _ _ _ _)
    have hframed := setUp_framed (t := t) hp fresh ⟨rfl, rfl⟩
    rw [hrun] at hfinite ⊢
    rcases hr : (Rotation.setUp t p).run fresh with ⟨_ | _, d⟩ <;> rw [hr] at hframed hfinite
    · exact absurd hframed hfinite
    · obtain ⟨f, hown, hf⟩ := hframed
      exact ⟨d, f, rfl, hown, hf⟩
  | @advance r r' answer hr h ih =>
    obtain ⟨d, f, rfl, hown, hf⟩ := ih
    rw [eq_of_advance h]
    by_cases hended : t.Ended d.ledger
    · rw [run_step_of_ended hended]
      exact ⟨d, f, rfl, hown, hf⟩
    · obtain ⟨b, hb⟩ := hf.exists_best
      obtain ⟨f', hown', htried⟩ := step_tried hn hp hown hb hended
      refine ⟨_, f', rfl, hown', Framed.tried ?_ htried⟩
      split_ifs
      · exact hf.turn hn (Task.not_ended_iff.mp hended).1 _
      · exact hf

/-- A step whose trial is answered says whether there is budget left. -/
theorem Reached.exists_advance (hn : n < 10 ^ 24) (hp : p.Are stretch shorten stepSize)
    {r : Run σ ℝ n} (hr : Reached t p r) (hopen : ¬t.Ended r.ledger) {v : ℝ}
    (hv : ∀ x, t.Replies x (r.ledger.calls + 1) (.ok (.finite v))) :
    ∃ x r', r.advance t = some (.ok (decide (r.ledger.evaluations + 1 < t.budget)), r') ∧
      r'.ledger = (if AllSeen n (trials r.ledger) then turned r.ledger else r.ledger).enter x
        (.finite v) := by
  obtain ⟨d, f, rfl, hown, hf⟩ := hr.framed hn hp
  obtain ⟨x, f', hrun⟩ := run_step_of_replies hn hp hown hf hopen hv
  refine ⟨x, ofCourse p ((step t p).run d).2, ?_, ?_⟩
  · show some (Run.answered id false (Run.carry _ _ _ _)) = _
    unfold Run.carry Course.carry ofCourse
    dsimp only
    rw [hrun]
    rfl
  · unfold ofCourse
    rw [hrun]

/-- The search goes on, its axes were not turned yet, and these are all its costs. -/
structure Unturned (L : Ledger ℝ n) (costs : List ℝ) : Prop where
  answered : L.costs = costs
  calls : L.calls = costs.length
  evaluations : L.evaluations = costs.length
  running : L.phase.isOver = false
  turns : turns L = []

namespace Unturned

variable {L : Ledger ℝ n} {costs : List ℝ}

theorem trials (h : Unturned L costs) : trials L = (progress costs).drop 1 := by
  unfold Rotation.trials
  rw [h.turns, h.answered]
  rfl

theorem enter (h : Unturned L costs) (x : Point ℝ n) (v : ℝ) :
    Unturned (L.enter x (.finite v)) (costs ++ [v]) where
  answered := by rw [Account.costs_enter, h.answered]
  calls := by rw [List.length_append, ← h.calls]; rfl
  evaluations := by rw [List.length_append, ← h.evaluations]; rfl
  running := h.running
  turns := h.turns

/-- One more trial, before which the axes are not turned. -/
theorem exists_advance (hn : n < 10 ^ 24) (hp : p.Are stretch shorten stepSize) {r : Run σ ℝ n}
    (h : Unturned r.ledger costs) (hr : Reached t p r) (hless : costs.length < t.budget)
    (hseen : ¬AllSeen n ((progress costs).drop 1)) {v : ℝ}
    (hv : ∀ x, t.Replies x (costs.length + 1) (.ok (.finite v))) :
    ∃ r', r.advance t = some (.ok (decide (costs.length + 1 < t.budget)), r') ∧ Reached t p r' ∧
      Unturned r'.ledger (costs ++ [v]) := by
  have hopen : ¬t.Ended r.ledger := Task.not_ended_iff.mpr ⟨h.running, h.evaluations.trans_lt hless⟩
  obtain ⟨x, r', hadvance, hledger⟩ := hr.exists_advance hn hp hopen fun x => h.calls ▸ hv x
  rw [h.trials, if_neg hseen] at hledger
  rw [h.evaluations] at hadvance
  exact ⟨r', hadvance, hr.advance hadvance, hledger ▸ h.enter x v⟩

end Unturned

/-- However a search is driven that was set up and found a finite cost, it has counted its raised flags and
goes through its axes in turn.  Each move is its axis at the length of a step, stretched for every success
along it and reversed and shortened for every failure since the last turn, and the flags say of which there
was any.  The axes are orthonormal, so no move is zero and the check accepts the moves.  A round is a turn,
and a step that is not stopped and within the budget turns the axes just if both flags of all of them are
raised. -/
theorem reached_frame (hn : n < 10 ^ 24) (hp : p.Are stretch shorten stepSize) {r : Run σ ℝ n}
    (hr : Reached t p r) :
    ∃ f : Frame ℝ n, r.engine = .rotation p ⟨true, some f⟩ ∧
      (f.raised = f.succeeded.count true + f.failed.count true ∧ f.raised ≤ 2 * n) ∧
      f.direction = (trials r.ledger).length % n ∧
      (∃ axes : Fin n → Point ℝ n, (∀ d, Point.norm (axes d) = 1) ∧
        (∀ d e, d ≠ e → Point.dot (axes d) (axes e) = 0) ∧
        f.moves = List.ofFn fun d : Fin n =>
          Point.scale (stepSize * stretch ^ tally n d true (trials r.ledger) *
            (-shorten) ^ tally n d false (trials r.ledger)) (axes d)) ∧
      (∀ d : Fin n, (f.succeeded.get d = true ↔ 0 < tally n d true (trials r.ledger)) ∧
        (f.failed.get d = true ↔ 0 < tally n d false (trials r.ledger))) ∧
      ((∀ x ∈ f.moves, Point.norm x ≠ 0) ∧
        ∀ tolerance ≥ 0, Orthonormal.check tolerance f.moves = .ok ()) ∧
      r.ledger.rounds = (turns r.ledger).length ∧
      ∀ answer r', r.advance t = some (answer, r') → r.ledger.phase.isOver = false →
        r.ledger.evaluations < t.budget →
        ∃ b f', r.ledger.best = some b ∧ r'.engine = .rotation p ⟨true, some f'⟩ ∧
          if ∀ d : Fin n, f.succeeded.get d = true ∧ f.failed.get d = true then
            turns r'.ledger = turns r.ledger ++ [r.ledger.evaluations] ∧
              (f.turn stepSize (t.region.toUnit b.point)).lower.MayBecome stretch shorten f'
          else turns r'.ledger = turns r.ledger ∧ f.MayBecome stretch shorten f' := by
  obtain ⟨d, f, rfl, hown, hf⟩ := hr.framed hn hp
  obtain ⟨axes, hunit, horthogonal, hmoves⟩ := hf.frame.moves
  refine ⟨f, congrArg (Engine.rotation p) hown, ⟨hf.frame.raised, hf.frame.raised_le⟩,
    hf.frame.direction, ⟨axes, fun d => Point.norm_eq_one (hunit d), horthogonal, hmoves⟩,
    fun d => ⟨hf.frame.succeeded d, hf.frame.failed d⟩, ⟨?_, ?_⟩, hf.rounds, ?_⟩
  · exact (hf.frame.orthogonal hp.stretch_pos hp.shorten_pos hp.stepSize_pos).1
  · exact fun _ => hf.frame.check hp.stretch_pos hp.shorten_pos hp.stepSize_pos
  · intro answer r' h hphase hbudget
    obtain ⟨b, hb⟩ := hf.exists_best
    obtain ⟨f', hown', htried⟩ := step_tried hn hp hown hb (Task.not_ended_iff.mpr ⟨hphase, hbudget⟩)
    rw [eq_of_advance h]
    refine ⟨b, f', hb, congrArg (Engine.rotation p) hown', ?_⟩
    by_cases hall : ∀ d : Fin n, f.succeeded.get d = true ∧ f.failed.get d = true
    · rw [if_pos hall]
      rw [if_pos (hf.frame.isExhausted_iff.mpr hall), if_pos (hf.frame.isExhausted_iff.mpr hall)]
        at htried
      exact ⟨htried.turns_eq.trans (turns_turned _), htried.mayBecome⟩
    · rw [if_neg hall]
      rw [if_neg (mt hf.frame.isExhausted_iff.mp hall), if_neg (mt hf.frame.isExhausted_iff.mp hall)]
        at htried
      exact ⟨htried.turns_eq, htried.mayBecome⟩

/-- Moves of an eighth of the width, doubled by a success and halved by a failure. -/
noncomputable def doubling : Params ℝ := ⟨.ok 2.0, .ok 0.5, .ok 0.125⟩

theorem doubling_are : doubling.Are 2.0 0.5 0.125 :=
  ⟨by norm_num, by norm_num, by norm_num, rfl, rfl, rfl⟩

/-- The second and the third cost are each below all costs before, and no later one is. -/
noncomputable def twoSuccesses : Task ℝ 2 :=
  { Run.leastOnSquare.startingFrom [Point.fill 2 0] with
    objective := fun _ call => .ok (.finite (if call = 2 then -1.0 else if call = 3 then -2.0 else 0)) }

theorem twoSuccesses_replies (x : Point ℝ 2) (call : ℕ) : twoSuccesses.Replies x call
    (.ok (.finite (if call = 2 then -1.0 else if call = 3 then -2.0 else 0))) :=
  ⟨(nomatch ·), rfl⟩

/-- Along both axes there is a success and then a failure, so that the fifth step turns them. -/
theorem reached_frame_square :
    2 < 10 ^ 24 ∧ doubling.Are 2.0 0.5 0.125 ∧
      ∃ r r' : Run (Tape ℝ) ℝ 2, Reached twoSuccesses doubling r ∧
        r.advance twoSuccesses = some (.ok true, r') ∧
        trials r.ledger = [true, true, false, false] ∧ r.ledger.rounds = 0 ∧
        turns r'.ledger = [5] ∧ r'.ledger.rounds = 1 ∧
        ∃ f : Frame ℝ 2, r'.engine = .rotation doubling ⟨true, some f⟩ ∧
          Orthonormal.check 0 f.moves = .ok () := by
  have hn : 2 < 10 ^ 24 := by norm_num
  let fresh : Run (Tape ℝ) ℝ 2 := ⟨{}, ⟨fun _ => 0, fun _ => 0⟩, .rotation doubling {}⟩
  have hsetUp : ∃ r, fresh.setUp twoSuccesses = some (.ok true, r) ∧ Unturned r.ledger [0] :=
    ⟨_, rfl, rfl, rfl, rfl, rfl, rfl⟩
  obtain ⟨r, hr, h⟩ := hsetUp
  have hreached : Reached twoSuccesses doubling r :=
    .setUp hr (by rw [h.answered]; exact List.cons_ne_nil _ _)
  -- The four trials that raise all flags.
  obtain ⟨r, -, hreached, h⟩ := h.exists_advance hn doubling_are hreached (by decide)
    (by norm_num [progress]; decide) fun x => twoSuccesses_replies x 2
  obtain ⟨r, -, hreached, h⟩ := h.exists_advance hn doubling_are hreached (by decide)
    (by norm_num [progress]; decide) fun x => twoSuccesses_replies x 3
  obtain ⟨r, -, hreached, h⟩ := h.exists_advance hn doubling_are hreached (by decide)
    (by norm_num [progress]; decide) fun x => twoSuccesses_replies x 4
  obtain ⟨r, -, hreached, h⟩ := h.exists_advance hn doubling_are hreached (by decide)
    (by norm_num [progress]; decide) fun x => twoSuccesses_replies x 5
  have hless : r.ledger.evaluations < 12 := h.evaluations.trans_lt (by decide)
  have htrials : trials r.ledger = [true, true, false, false] := by
    rw [h.trials]
    norm_num [progress]
  have hopen : ¬twoSuccesses.Ended r.ledger := Task.not_ended_iff.mpr ⟨h.running, hless⟩
  obtain ⟨x, r', hadvance, -⟩ := hreached.exists_advance (v := 0) hn doubling_are hopen fun x => by
    rw [h.calls]
    exact twoSuccesses_replies x 6
  obtain ⟨f, -, -, -, -, hflags, -, hrounds, hstep⟩ := reached_frame hn doubling_are hreached
  have hseen : AllSeen 2 [true, true, false, false] := by decide
  have hall (d : Fin 2) : f.succeeded.get d = true ∧ f.failed.get d = true := by
    obtain ⟨hsucceeded, hfailed⟩ := hflags d
    rw [htrials] at hsucceeded hfailed
    exact ⟨hsucceeded.mpr (hseen d).1, hfailed.mpr (hseen d).2⟩
  obtain ⟨_, _, -, -, hturned⟩ := hstep _ _ hadvance h.running hless
  rw [if_pos hall, h.turns, h.evaluations] at hturned
  obtain ⟨f', hengine, -, -, -, -, ⟨-, hcheck⟩, hrounds', -⟩ :=
    reached_frame hn doubling_are (hreached.advance hadvance)
  rw [h.evaluations] at hadvance
  refine ⟨hn, doubling_are, r, r', hreached, hadvance, htrials, ?_, hturned.1, ?_, f', hengine,
    hcheck 0 le_rfl⟩
  · rw [hrounds, h.turns]
    rfl
  · rw [hrounds', hturned.1]
    rfl

end BoxSearch.Rotation
