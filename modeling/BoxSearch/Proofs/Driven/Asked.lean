import BoxSearch.Proofs.Budget.Methods
import BoxSearch.Proofs.Counts.Rounds
import BoxSearch.Proofs.Partition.Aborted
import BoxSearch.Proofs.Rotation.Reach

/-!
# Steps of a search that is driven by hand

A step that is driven by hand may end in many ways, and the search may be driven on after all of them.
`Asks` bounds how many points a part of a step evaluates, whatever it comes to, and says that only a search
that is over is ended.  From it follows what a whole step leaves: as long as it answers that another one is
possible, there is something left of the budget, and otherwise the next step sees that there is nothing to
do.
-/

namespace BoxSearch

open SearchM

variable {σ α κ β γ : Type} {n : ℕ}

/-! ## 1. How much a step asks -/

/-- The search is ready, with a number of evaluations between the two. -/
structure Stands (ready : κ → Prop) (least most : ℕ) (c : Course σ α n κ) : Prop where
  ready : ready c.own
  least_le : least ≤ c.ledger.evaluations
  le_most : c.ledger.evaluations ≤ most

/-- The search is ready, with so many evaluations at most, and over if the halt ended it. -/
structure Halted (ready : κ → Prop) (most : ℕ) (e : Halt α) (c : Course σ α n κ) : Prop where
  ready : ready c.own
  le_most : c.ledger.evaluations ≤ most
  ended : e = .ended → c.ledger.phase.isOver = true

/-- The step keeps a search ready and evaluates so many points, at most as many where it halts. -/
def Asks (ready : κ → Prop) (least most : ℕ) (m : SearchM σ α n κ β) : Prop :=
  ∀ lo hi, Triple (Stands ready lo hi) m (fun _ => Stands ready (lo + least) (hi + most))
    (Halted ready (hi + most))

namespace Asks

variable {ready : κ → Prop} {a b a' b' : ℕ}

theorem pure {x : β} : Asks ready 0 0 (pure x : SearchM σ α n κ β) :=
  fun _ _ => Triple.pure fun _ hc => hc

theorem fault {f : Fault α} : Asks ready a b (throw (.fault f) : SearchM σ α n κ β) :=
  fun _ hi => Triple.throw fun _ hc => ⟨hc.ready, hc.le_most.trans (Nat.le_add_right hi b), nofun⟩

theorem mono {m : SearchM σ α n κ β} (h : Asks ready a b m) (ha : a' ≤ a) (hb : b ≤ b') :
    Asks ready a' b' m := by
  intro lo hi
  apply (h lo hi).weaken
  · exact fun _ c hc => ⟨hc.ready, (Nat.add_le_add_left ha lo).trans hc.least_le,
      hc.le_most.trans (Nat.add_le_add_left hb hi)⟩
  · exact fun e c hc => ⟨hc.ready, hc.le_most.trans (Nat.add_le_add_left hb hi), hc.ended⟩

/-- There may be room for more evaluations than the step needs. -/
theorem triple {m : SearchM σ α n κ β} (h : Asks ready a b m) {lo hi most : ℕ}
    (hmost : hi + b ≤ most) :
    Triple (Stands ready lo hi) m (fun _ => Stands ready (lo + a) (hi + b)) (Halted ready most) :=
  (h lo hi).weaken (fun _ _ hc => hc) fun _ _ hc => ⟨hc.ready, hc.le_most.trans hmost, hc.ended⟩

theorem bind {m : SearchM σ α n κ β} {f : β → SearchM σ α n κ γ} (hm : Asks ready a b m)
    (hf : ∀ x, Asks ready a' b' (f x)) : Asks ready (a + a') (b + b') (m >>= f) := by
  intro lo hi
  rw [← Nat.add_assoc, ← Nat.add_assoc]
  exact (hm.triple (Nat.le_add_right _ b')).bind fun x => hf x (lo + a) (hi + b)

/-- A step that asks nothing goes before another one. -/
theorem after {m : SearchM σ α n κ β} {f : β → SearchM σ α n κ γ} (hm : Asks ready 0 0 m)
    (hf : ∀ x, Asks ready a b (f x)) : Asks ready a b (m >>= f) :=
  (hm.bind hf).mono (Nat.zero_add a).ge (Nat.zero_add b).le

/-- A step that asks nothing comes after another one. -/
theorem before {m : SearchM σ α n κ β} {f : β → SearchM σ α n κ γ} (hm : Asks ready a b m)
    (hf : ∀ x, Asks ready 0 0 (f x)) : Asks ready a b (m >>= f) :=
  hm.bind hf

theorem ite {p : Prop} [Decidable p] {m m' : SearchM σ α n κ β} (h : Asks ready a b m)
    (h' : Asks ready a b m') : Asks ready a b (if p then m else m') := by
  split
  · exact h
  · exact h'

theorem own_bind {f : κ → SearchM σ α n κ γ} (hf : ∀ k, Asks ready a b (f k)) :
    Asks ready a b (SearchM.own >>= f) :=
  fun lo hi c hc => hf c.own lo hi c hc

theorem ledger_bind {f : Ledger α n → SearchM σ α n κ γ} (hf : ∀ L, Asks ready a b (f L)) :
    Asks ready a b (SearchM.ledger >>= f) :=
  fun lo hi c hc => hf c.ledger lo hi c hc

theorem modifyOwn {f : κ → κ} (h : ∀ k, ready k → ready (f k)) :
    Asks ready 0 0 (SearchM.modifyOwn f : SearchM σ α n κ Unit) :=
  fun _ _ => Triple.modifyOwn fun _ hc => ⟨h _ hc.ready, hc.least_le, hc.le_most⟩

/-- A remark aside is no evaluation. -/
theorem modifyLedger {f : Ledger α n → Ledger α n} (h : ∀ L, (f L).evaluations = L.evaluations) :
    Asks ready 0 0 (SearchM.modifyLedger f : SearchM σ α n κ Unit) :=
  fun _ _ => Triple.modifyLedger fun c hc =>
    ⟨hc.ready, hc.least_le.trans (h c.ledger).ge, (h c.ledger).trans_le hc.le_most⟩

theorem report (e : Event α) : Asks ready 0 0 (SearchM.report e : SearchM σ α n κ Unit) :=
  modifyLedger fun _ => rfl

theorem endRound : Asks ready 0 0 (SearchM.endRound : SearchM σ α n κ Unit) :=
  modifyLedger fun _ => rfl

theorem use (x : Usable α β) : Asks ready 0 0 (SearchM.use x : SearchM σ α n κ β) := by
  cases x with
  | ok v => exact pure
  | error f => exact fault

theorem drawOr (m : ChoiceM σ α β) : Asks ready 0 0 (SearchM.drawOr m : SearchM σ α n κ β) :=
  fun _ _ => Triple.drawOr (.attained m) (fun _ _ _ hc _ => ⟨hc.ready, hc.least_le, hc.le_most⟩)
    fun _ _ _ hc _ => ⟨hc.ready, hc.le_most, nofun⟩

variable [Scalar α] {t : Task α n}

/-- A cost that is not finite is one evaluation too, and with it the search is over. -/
theorem trial (x : Point α n) : Asks ready 1 1 (SearchM.trial t x : SearchM σ α n κ α) := by
  intro lo hi
  apply Triple.trial
  · exact fun f _ c hc => ⟨hc.ready, hc.le_most.trans (Nat.le_succ hi), nofun⟩
  · exact fun _ c hc _ => ⟨hc.ready, hc.le_most.trans (Nat.le_succ hi), nofun⟩
  · exact fun k c hc _ _ => ⟨hc.ready, Nat.succ_le_succ hc.le_most, fun _ => rfl⟩
  · exact fun v c hc _ => ⟨hc.ready, Nat.succ_le_succ hc.least_le, Nat.succ_le_succ hc.le_most⟩

theorem trial_bind {x : Point α n} {f : α → SearchM σ α n κ γ} (hf : ∀ v, Asks ready a b (f v)) :
    Asks ready (a + 1) (b + 1) (SearchM.trial t x >>= f) :=
  ((trial x).bind hf).mono (Nat.add_comm a 1).le (Nat.add_comm 1 b).le

end Asks

/-! ## 2. Set-ups and whole steps -/

variable [Scalar α]

/-- A search that is set up once and then advanced step by step, with so many evaluations at most. -/
structure Advances (t : Task α n) (ready : κ → Prop) (most : ℕ) (first step : SearchM σ α n κ Bool) :
    Prop where
  -- A search is set up only once, and advanced only after that.
  first_refused : ∀ c : Course σ α n κ, ready c.own →
    first.run c = (.error (.fault .alreadyInitialized), c)
  step_refused : ∀ c : Course σ α n κ, ¬ready c.own →
    step.run c = (.error (.fault .notInitialized), c)
  -- Where there is nothing left to do, a step does nothing.
  step_ended : ∀ c : Course σ α n κ, ready c.own → t.Ended c.ledger → step.run c = (.ok false, c)
  first : Triple (fun c : Course σ α n κ => ¬ready c.own ∧ c.ledger.evaluations = 0) first
    (fun goesOn c => Stands ready 0 most c ∧ (goesOn = false → t.Ended c.ledger))
    (Halted ready most)
  -- A step that goes on has evaluated something, and there is something left of the budget.
  step : ∀ k, Triple (fun c => Stands ready k k c ∧ ¬t.Ended c.ledger) step
    (fun goesOn c => Stands ready (k + 1) most c ∧ (goesOn = true → c.ledger.evaluations < t.budget) ∧
      (goesOn = false → t.Ended c.ledger))
    (Halted ready most)

/-! ## 3. Rotating axes -/

namespace Rotation

variable {t : Task α n} {p : Params α}

/-- The search was set up. -/
abbrev State.IsReady (s : State α n) : Prop := s.initialized = true

theorem bestInCube_asks :
    Asks State.IsReady 0 0 (bestInCube t : SearchM σ α n (State α n) (Point α n)) := by
  apply Asks.ledger_bind
  intro L
  cases L.best with
  | none => exact .fault
  | some b => exact .pure

omit [Scalar α] in
theorem frame_asks : Asks State.IsReady 0 0 (frame : SearchM σ α n (State α n) (Frame α n)) := by
  apply Asks.own_bind
  intro s
  cases s.frame with
  | none => exact .fault
  | some f => exact .pure

omit [Scalar α] in
theorem setFrame_asks (f : Frame α n) :
    Asks State.IsReady 0 0 (setFrame f : SearchM σ α n (State α n) Unit) :=
  .modifyOwn fun _ hs => hs

theorem turn_asks : Asks State.IsReady 0 0 (turn t p : SearchM σ α n (State α n) Unit) := by
  apply Asks.after frame_asks
  intro f
  apply Asks.after bestInCube_asks
  intro best
  apply Asks.after (.use p.stepSize)
  intro stepSize
  apply Asks.after (setFrame_asks _)
  intro _
  apply Asks.after (.use (checkMoves t (f.turn stepSize best)))
  intro _
  apply Asks.after (setFrame_asks _)
  intro _
  apply Asks.after .endRound
  intro _
  exact .ledger_bind fun L => .report _

theorem turnIfExhausted_asks :
    Asks State.IsReady 0 0 (turnIfExhausted t p : SearchM σ α n (State α n) Unit) :=
  .after frame_asks fun _ => .ite turn_asks .pure

theorem tryMove_asks : Asks State.IsReady 1 1 (tryMove t p : SearchM σ α n (State α n) Unit) := by
  apply Asks.after frame_asks
  intro f
  cases f.moves[f.direction]? with
  | none => exact .fault
  | some move =>
    apply Asks.after bestInCube_asks
    intro best
    apply Asks.ledger_bind
    intro L
    apply Asks.trial_bind
    intro v
    exact .after (.use _) fun next => setFrame_asks _

theorem setUp_asks [DrawSource σ α] :
    Triple (fun c => ¬c.own.IsReady ∧ c.ledger.evaluations = 0)
      (setUp t p : SearchM σ α n (State α n) Unit) (fun _ => Stands State.IsReady 1 1)
      (Halted State.IsReady 1) := by
  have hrest : Asks State.IsReady 1 1 (do
      let x ← drawOr (start t p)
      let _ ← trial t x
      let stepSize ← use p.stepSize
      setFrame (Frame.upright stepSize (← bestInCube t)) : SearchM σ α n (State α n) Unit) := by
    apply Asks.after (.drawOr _)
    intro x
    apply Asks.trial_bind
    intro _
    apply Asks.after (.use _)
    intro stepSize
    exact .after bestInCube_asks fun best => setFrame_asks _
  rintro c ⟨hready, hzero⟩
  have hmarked : c.ledger.markRunning.evaluations = 0 := by
    rw [(Account.Rests.markRunning c.ledger).evaluations, hzero]
  rw [run_setUp_of_not_ready (Bool.eq_false_of_not_eq_true hready)]
  exact hrest 0 0 ⟨c.ledger.markRunning, c.draws, { c.own with initialized := true }⟩
    ⟨rfl, hmarked.ge, hmarked.le⟩

/-- A set-up that does not halt can be followed by a step. -/
def opening [DrawSource σ α] (t : Task α n) (p : Params α) : SearchM σ α n (State α n) Bool := do
  setUp t p
  pure true

theorem advances [DrawSource σ α] (hbudget : 0 < t.budget) :
    Advances t State.IsReady t.budget (opening t p : SearchM σ α n (State α n) Bool) (step t p) where
  first_refused c hc := run_bind_of_error (run_setUp_of_ready hc)
  step_refused _ hc := run_unlessEnded_of_not_ready (Bool.eq_false_of_not_eq_true hc)
  step_ended c hc hended := by
    rw [run_step_of_ended hended, if_pos hc]
  first := by
    apply Triple.bind (Q := fun _ => Stands State.IsReady 1 1)
    · exact setUp_asks.weaken (fun _ _ hc => hc) fun _ _ hc =>
        ⟨hc.ready, hc.le_most.trans hbudget, hc.ended⟩
    · exact fun _ => .pure fun c hc =>
        ⟨⟨hc.ready, Nat.zero_le _, hc.le_most.trans hbudget⟩, nofun⟩
  step k := by
    rintro c ⟨hc, hopen⟩
    have hk : k < t.budget := hc.least_le.trans_lt (Task.not_ended_iff.mp hopen).2
    rw [run_step_of_not_ended hc.ready hopen]
    refine Triple.bind (turnIfExhausted_asks.triple hk.le) (fun _ => ?_) c hc
    refine Triple.bind (tryMove_asks.triple hk) fun _ => ?_
    exact .withinBudget fun d hd => ⟨⟨hd.ready, hd.least_le, hd.le_most.trans hk⟩,
      of_decide_eq_true, fun hspent => .inr (of_decide_eq_false hspent)⟩

end Rotation

/-! ## 4. Partition -/

namespace Partition

variable {t : Task α n} {p : Params α}

/-- The search was set up. -/
abbrev State.IsReady (s : State α n) : Prop := s.initialized = true

theorem probe_asks (c : Cell α n) (delta : α) (sides : List (Fin n)) :
    Asks State.IsReady (2 * sides.length) (2 * sides.length)
      (probe t c delta sides : SearchM σ α n (State α n) (List (Probe α n))) := by
  induction sides with
  | nil => exact .pure
  | cons i rest ih =>
    apply Asks.trial_bind
    intro fl
    apply Asks.trial_bind
    intro fr
    exact .before ih fun others => .pure

/-- A cell has a longest side, and no more of them than sides. -/
theorem divide_asks (place : ℕ) :
    Asks State.IsReady 1 (2 * n) (divide t place : SearchM σ α n (State α n) Unit) := by
  apply Asks.own_bind
  intro s
  cases s.cells[place]? with
  | none => exact .fault
  | some c =>
    have hsome : 0 < c.longestSides.length :=
      List.length_pos_iff.mpr (c.longestSides_ne_nil ⟨0, t.region.nonempty⟩)
    have hall : c.longestSides.length ≤ n :=
      (List.length_filter_le _ _).trans_eq List.length_finRange
    apply Asks.after (.use _)
    intro delta
    refine Asks.before ((probe_asks c delta c.longestSides).mono (by omega) (by omega)) ?_
    intro probes
    exact .modifyOwn fun _ hs => hs

theorem enterRecord_asks :
    Asks State.IsReady 0 0 (enterRecord : SearchM σ α n (State α n) Unit) := by
  apply Asks.ledger_bind
  intro L
  apply Asks.own_bind
  intro s
  exact .after (.modifyOwn fun _ hs => hs) fun _ => .report _

variable {lo most : ℕ}

/-- While there is something left of the budget, a division overshoots it by less than it asks. -/
theorem divideAll_stands (places : List ℕ) :
    Triple (Stands State.IsReady lo (t.budget + 2 * n - 1))
      (divideAll t places : SearchM σ α n (State α n) Unit)
      (fun _ => Stands State.IsReady lo (t.budget + 2 * n - 1))
      (Halted State.IsReady (t.budget + 2 * n - 1)) := by
  induction places with
  | nil => exact .pure fun _ hc => hc
  | cons place rest ih =>
    intro c hc
    unfold divideAll
    rw [run_withinBudget_bind]
    by_cases hlt : c.ledger.evaluations < t.budget
    · rw [decide_eq_true hlt, if_pos rfl]
      refine Triple.bind (P := Stands State.IsReady lo (t.budget - 1)) ?_ (fun _ => ih) c
        ⟨hc.ready, hc.least_le, by omega⟩
      have hroom : t.budget - 1 + 2 * n ≤ t.budget + 2 * n - 1 := by omega
      apply ((divide_asks place).triple hroom).weaken
      · exact fun _ d hd => ⟨hd.ready, (Nat.le_add_right lo 1).trans hd.least_le,
          hd.le_most.trans hroom⟩
      · exact fun _ _ hd => hd
    · rw [decide_eq_false hlt, if_neg Bool.false_ne_true]
      exact hc

/-- While there is something left of the budget, the first of the cells is divided. -/
theorem divideAll_cons_stands {k : ℕ} (hk : k < t.budget) (place : ℕ) (rest : List ℕ) :
    Triple (Stands State.IsReady k k) (divideAll t (place :: rest) : SearchM σ α n (State α n) Unit)
      (fun _ => Stands State.IsReady (k + 1) (t.budget + 2 * n - 1))
      (Halted State.IsReady (t.budget + 2 * n - 1)) := by
  have hroom : k + 2 * n ≤ t.budget + 2 * n - 1 := by omega
  intro c hc
  unfold divideAll
  rw [run_withinBudget_bind, decide_eq_true (hc.le_most.trans_lt hk), if_pos rfl]
  refine Triple.bind (((divide_asks place).triple hroom).weaken (fun _ d hd => ?_) fun _ _ hd => hd)
    (fun _ => divideAll_stands rest) c hc
  exact ⟨hd.ready, hd.least_le, hd.le_most.trans hroom⟩

/-- There are always cells to divide. -/
theorem select_stands :
    Triple (Stands State.IsReady lo most) (select p : SearchM σ α n (State α n) (List ℕ))
      (fun places c => places ≠ [] ∧ Stands State.IsReady lo most c) (Halted State.IsReady most) := by
  apply select_rule
  · exact fun _ _ hd hselected => ⟨Hull.ne_nil_of_selectFor hselected, hd⟩
  · exact fun _ _ hd hselected =>
      ⟨Hull.ne_nil_of_selectFor hselected, hd.ready, hd.least_le, hd.le_most⟩
  · exact fun _ _ hd _ => ⟨hd.ready, hd.le_most, nofun⟩

/-- A target that is reached ends the search. -/
theorem checkTarget_stands :
    Triple (Stands State.IsReady lo most) (checkTarget p : SearchM σ α n (State α n) Bool)
      (fun reached c => Stands State.IsReady lo most c ∧
        (reached = true → c.ledger.phase.isOver = true))
      (Halted State.IsReady most) := by
  apply checkTarget_rule
  · exact fun _ hd => ⟨hd, nofun⟩
  · exact fun _ _ _ hd _ _ _ => ⟨⟨hd.ready, hd.least_le, hd.le_most⟩, fun _ => rfl⟩
  · exact fun _ _ hd _ => ⟨hd.ready, hd.le_most, nofun⟩

/-- With the cap on iterations there is nothing left to do. -/
theorem checkIterations_stands :
    Triple (Stands State.IsReady lo most) (checkIterations t p : SearchM σ α n (State α n) Bool)
      (fun reached c => Stands State.IsReady lo most c ∧ (reached = true → t.Ended c.ledger))
      (Halted State.IsReady most) := by
  apply checkIterations_rule
  · exact fun _ hd _ => ⟨hd, nofun⟩
  · exact fun _ _ hd _ _ _ => ⟨⟨hd.ready, hd.least_le, hd.le_most⟩, fun _ => .inl rfl⟩
  · exact fun _ _ hd _ _ hspent => ⟨hd, fun _ => .inr hspent⟩

/-- What is checked after the divisions of an iteration. -/
theorem checks_stand :
    Triple (Stands State.IsReady lo most)
      (do
        if ← checkTarget p then pure false
        else if ← checkIterations t p then pure false
        else withinBudget t : SearchM σ α n (State α n) Bool)
      (fun goesOn c => Stands State.IsReady lo most c ∧
        (goesOn = true → c.ledger.evaluations < t.budget) ∧ (goesOn = false → t.Ended c.ledger))
      (Halted State.IsReady most) := by
  apply Triple.bind checkTarget_stands
  intro reached
  apply Triple.ite
  · exact fun hreached => .pure fun _ hc => ⟨hc.1, nofun, fun _ => .inl (hc.2 hreached)⟩
  · rintro - c ⟨hc, -⟩
    refine Triple.bind checkIterations_stands (fun capped => ?_) c hc
    apply Triple.ite
    · exact fun hcapped => .pure fun _ hd => ⟨hd.1, nofun, fun _ => hd.2 hcapped⟩
    · exact fun _ => .withinBudget fun d hd =>
        ⟨hd.1, of_decide_eq_true, fun hspent => .inr (of_decide_eq_false hspent)⟩

theorem setUp_stands (hmost : 1 ≤ most) :
    Triple (fun c => ¬c.own.IsReady ∧ c.ledger.evaluations = 0)
      (setUp t p : SearchM σ α n (State α n) Bool)
      (fun goesOn c => Stands State.IsReady 0 most c ∧ (goesOn = false → t.Ended c.ledger))
      (Halted State.IsReady most) := by
  have hcheck : Triple (Stands State.IsReady 1 1)
      (do return !(← checkTarget p) : SearchM σ α n (State α n) Bool)
      (fun goesOn c => Stands State.IsReady 0 most c ∧ (goesOn = false → t.Ended c.ledger))
      (Halted State.IsReady most) := by
    intro c hc
    refine Triple.bind checkTarget_stands (fun reached => .pure fun d hd => ⟨hd.1, fun h => .inl ?_⟩) c
      ⟨hc.ready, Nat.zero_le _, hc.le_most.trans hmost⟩
    exact hd.2 ((Bool.not_eq_false' ..).mp h)
  have hrest : Triple (Stands State.IsReady 0 0) (do
      let v ← trial t (inRegion t.region (Point.fill n 0.5))
      modifyOwn fun s => { s with cells := s.cells ++ [Cell.whole v] }
      enterRecord
      return !(← checkTarget p) : SearchM σ α n (State α n) Bool)
      (fun goesOn c => Stands State.IsReady 0 most c ∧ (goesOn = false → t.Ended c.ledger))
      (Halted State.IsReady most) := by
    apply Triple.bind ((Asks.trial _).triple hmost)
    intro v
    have hcell : Asks State.IsReady 0 0 (modifyOwn fun s =>
        { s with cells := s.cells ++ [Cell.whole v] } : SearchM σ α n (State α n) Unit) :=
      .modifyOwn fun _ hs => hs
    apply Triple.bind (hcell.triple hmost)
    intro _
    apply Triple.bind (enterRecord_asks.triple hmost)
    exact fun _ => hcheck
  rintro c ⟨hready, hzero⟩
  have hmarked : c.ledger.markRunning.evaluations = 0 := by
    rw [(Account.Rests.markRunning c.ledger).evaluations, hzero]
  rw [run_setUp_of_not_ready (Bool.eq_false_of_not_eq_true hready)]
  exact hrest ⟨c.ledger.markRunning, c.draws, { c.own with initialized := true }⟩
    ⟨rfl, hmarked.ge, hmarked.le⟩

theorem advances :
    Advances t State.IsReady (t.budget + 2 * n - 1)
      (setUp t p : SearchM σ α n (State α n) Bool) (iterate t p) where
  first_refused _ hc := run_setUp_of_ready hc
  step_refused _ hc := run_unlessEnded_of_not_ready (Bool.eq_false_of_not_eq_true hc)
  step_ended c hc hended := by
    rw [run_iterate_of_ended hended, if_pos hc]
  first := by
    have hsome := t.region.nonempty
    exact setUp_stands (by omega)
  step k := by
    rintro c ⟨hc, hopen⟩
    have hk : k < t.budget := hc.least_le.trans_lt (Task.not_ended_iff.mp hopen).2
    have hroom : k ≤ t.budget + 2 * n - 1 := by omega
    rw [run_iterate_of_not_ended hc.ready hopen]
    have hselect : Triple (Stands State.IsReady k k) (select p : SearchM σ α n (State α n) (List ℕ))
        (fun places c => places ≠ [] ∧ Stands State.IsReady k k c)
        (Halted State.IsReady (t.budget + 2 * n - 1)) :=
      select_stands.weaken (fun _ _ hd => hd) fun _ _ hd => ⟨hd.ready, hd.le_most.trans hroom, hd.ended⟩
    refine Triple.bind hselect ?_ c hc
    rintro places d ⟨hsome, hd⟩
    obtain ⟨place, rest, rfl⟩ := List.exists_cons_of_ne_nil hsome
    refine Triple.bind (divideAll_cons_stands hk place rest) (fun _ => ?_) d hd
    apply Triple.bind (Asks.endRound.triple le_rfl)
    intro _
    apply Triple.bind (enterRecord_asks.triple le_rfl)
    exact fun _ => checks_stand

end Partition

end BoxSearch
