import BoxSearch.Population
import BoxSearch.Proofs.Budget.Lead
import BoxSearch.Proofs.Search.Triple

/-!
# A step within two budgets

A step is compared with the same step for a task that has a larger budget.  Both do the same until
the smaller budget is spent; from then on the first step evaluates nothing, and the second one goes
on from its account.

The account of the second step may have other events, because the start of a run tells its budget.
No step looks at events.
-/

namespace BoxSearch

/-- The task with another budget. -/
def Task.withBudget {α : Type} [Scalar α] {n : Nat} (t : Task α n) (budget : Nat) : Task α n :=
  { t with budget }

/-- The course with other events in its account. -/
def Course.withEvents {σ α κ : Type} {n : Nat} (c : Course σ α n κ) (events : List (Event α)) :
    Course σ α n κ :=
  { c with ledger := { c.ledger with events } }

namespace SearchM

variable {σ α κ β γ : Type} {n : Nat}

/-- On any events, the second step does what the first one does. -/
def Echoes (m m' : SearchM σ α n κ β) : Prop :=
  ∀ c events, ∃ events',
    m'.run (c.withEvents events) = ((m.run c).1, (m.run c).2.withEvents events')

/-- Both steps do the same and make no call. -/
structure Quiet (m m' : SearchM σ α n κ β) : Prop where
  echoes : Echoes m m'
  rests : ∀ c : Course σ α n κ, c.ledger.Rests (m.run c).2.ledger

variable [Scalar α]

/-- The step adds calls to the account and takes none away. -/
def Grows (m : SearchM σ α n κ β) : Prop :=
  ∀ L : Ledger α n, Keeps (fun c => L.Leads c.ledger) m

/-- Both steps do the same; they may make calls. -/
structure Steady (m m' : SearchM σ α n κ β) : Prop where
  echoes : Echoes m m'
  grows : Grows m

/-- Both steps do the same, or the second one leads and the first one has spent its budget, unless
nothing comes after it. -/
structure Outlasts (t : Task α n) (last : Prop) (m m' : SearchM σ α n κ β) : Prop where
  follows : ∀ (c : Course σ α n κ) events,
    (∃ events', m'.run (c.withEvents events) = ((m.run c).1, (m.run c).2.withEvents events')) ∨
      (m.run c).2.ledger.Leads (m'.run (c.withEvents events)).2.ledger ∧
        ∀ b, (m.run c).1 = .ok b → last ∨ t.budget ≤ (m.run c).2.ledger.evaluations
  grows : Grows m'

/-- Moreover the first step makes no call once its budget is spent. -/
structure Paced (t : Task α n) (last : Prop) (m m' : SearchM σ α n κ β) : Prop
    extends Outlasts t last m m' where
  rests : ∀ c : Course σ α n κ, t.budget ≤ c.ledger.evaluations → c.ledger.Rests (m.run c).2.ledger

/-! ## 1. Steps that do the same -/

namespace Echoes

omit [Scalar α]

variable {m m' : SearchM σ α n κ β} {f f' : β → SearchM σ α n κ γ}

theorem bind (hm : Echoes m m') (hf : ∀ b, Echoes (f b) (f' b)) : Echoes (m >>= f) (m' >>= f') := by
  intro c events
  obtain ⟨events', h⟩ := hm c events
  rw [run_bind, run_bind, h]
  rcases m.run c with ⟨e | b, d⟩
  · exact ⟨events', rfl⟩
  · exact hf b d events'

theorem ledger_bind {f f' : Ledger α n → SearchM σ α n κ γ}
    (hf : ∀ L events, Echoes (f L) (f' { L with events })) :
    Echoes (SearchM.ledger >>= f) (SearchM.ledger >>= f') :=
  fun c events => hf c.ledger events c events

end Echoes

namespace Grows

theorem of_leads {m : SearchM σ α n κ β}
    (h : ∀ c : Course σ α n κ, c.ledger.Leads (m.run c).2.ledger) : Grows m :=
  fun _ => .of_run fun c hc => hc.trans (h c)

theorem leads {m : SearchM σ α n κ β} (h : Grows m) (c : Course σ α n κ) :
    c.ledger.Leads (m.run c).2.ledger :=
  (h c.ledger).run (.refl c.ledger)

theorem of_quiet {m m' : SearchM σ α n κ β} (h : Quiet m m') : Grows m :=
  of_leads fun c => .of_rests (h.rests c)

theorem pure (b : β) : Grows (pure b : SearchM σ α n κ β) := fun _ => .pure

theorem bind {m : SearchM σ α n κ β} {f : β → SearchM σ α n κ γ} (hm : Grows m)
    (hf : ∀ b, Grows (f b)) : Grows (m >>= f) :=
  fun L => (hm L).bind fun b => hf b L

theorem ite {p : Prop} [Decidable p] {m m' : SearchM σ α n κ β} (h : Grows m) (h' : Grows m') :
    Grows (if p then m else m') :=
  fun L => .ite (h L) (h' L)

theorem withinBudget (t : Task α n) : Grows (SearchM.withinBudget t : SearchM σ α n κ Bool) :=
  fun _ => .withinBudget

theorem repeatWhile {step : SearchM σ α n κ Bool} (h : Grows step) (fuel : Nat) :
    Grows (SearchM.repeatWhile step fuel) :=
  fun L => (h L).repeatWhile fuel

theorem roundsWithin (t : Task α n) {round : SearchM σ α n κ Unit} (h : Grows round) (fuel : Nat) :
    Grows (SearchM.roundsWithin t round fuel) :=
  fun L => (h L).roundsWithin fuel

end Grows

theorem Echoes.grows {m m' : SearchM σ α n κ β} (h : Echoes m m') (hm : Grows m) : Grows m' := by
  -- Other events leave the calls and the best as they are.
  apply Grows.of_leads
  intro c
  obtain ⟨events, hrun⟩ := h c c.ledger.events
  have hrun' : m'.run c = ((m.run c).1, (m.run c).2.withEvents events) := hrun
  rw [hrun']
  exact (hm.leads c).trans (.of_rests ⟨rfl, rfl, rfl⟩)

namespace Quiet

omit [Scalar α]

variable {m m' m₁ m₂ m₁' m₂' : SearchM σ α n κ β} {f f' : β → SearchM σ α n κ γ}

theorem pure (b : β) : Quiet (pure b : SearchM σ α n κ β) (pure b) :=
  ⟨fun _ events => ⟨events, rfl⟩, fun c => .refl c.ledger⟩

theorem throw (e : Halt α) : Quiet (throw e : SearchM σ α n κ β) (throw e) :=
  ⟨fun _ events => ⟨events, rfl⟩, fun c => .refl c.ledger⟩

theorem bind (hm : Quiet m m') (hf : ∀ b, Quiet (f b) (f' b)) : Quiet (m >>= f) (m' >>= f') := by
  constructor
  · exact hm.echoes.bind fun b => (hf b).echoes
  · intro c
    have hrests := hm.rests c
    rw [run_bind]
    rcases hr : m.run c with ⟨e | b, d⟩ <;> rw [hr] at hrests
    · exact hrests
    · exact hrests.trans ((hf b).rests d)

theorem ite {p : Prop} [Decidable p] (h₁ : Quiet m₁ m₁') (h₂ : Quiet m₂ m₂') :
    Quiet (if p then m₁ else m₂) (if p then m₁' else m₂') := by
  split
  · exact h₁
  · exact h₂

theorem own : Quiet (SearchM.own : SearchM σ α n κ κ) SearchM.own :=
  ⟨fun _ events => ⟨events, rfl⟩, fun c => .refl c.ledger⟩

theorem modifyOwn (f : κ → κ) : Quiet (SearchM.modifyOwn f : SearchM σ α n κ Unit) (.modifyOwn f) :=
  ⟨fun _ events => ⟨events, rfl⟩, fun c => .refl c.ledger⟩

theorem setOwn (k : κ) : Quiet (SearchM.setOwn k : SearchM σ α n κ Unit) (.setOwn k) :=
  ⟨fun _ events => ⟨events, rfl⟩, fun c => .refl c.ledger⟩

/-- Whatever is read of the account, it is not its events. -/
theorem ledger_bind {f f' : Ledger α n → SearchM σ α n κ γ}
    (hf : ∀ L events, Quiet (f L) (f' { L with events })) :
    Quiet (SearchM.ledger >>= f) (SearchM.ledger >>= f') :=
  ⟨.ledger_bind fun L events => (hf L events).echoes,
    fun c => (hf c.ledger c.ledger.events).rests c⟩

theorem modifyLedger {f f' : Ledger α n → Ledger α n}
    (h : ∀ L events, ∃ events', f' { L with events } = { f L with events := events' })
    (hrests : ∀ L, Account.Rests L (f L)) :
    Quiet (SearchM.modifyLedger f : SearchM σ α n κ Unit) (.modifyLedger f') := by
  constructor
  · intro c events
    obtain ⟨events', hf⟩ := h c.ledger events
    refine ⟨events', ?_⟩
    show ((.ok (), { c with ledger := f' { c.ledger with events } }) :
      Except (Halt α) Unit × Course σ α n κ) = _
    rw [hf]
    rfl
  · intro c
    exact hrests c.ledger

theorem report (e : Event α) : Quiet (SearchM.report e : SearchM σ α n κ Unit) (.report e) :=
  modifyLedger (fun _ events => ⟨events ++ [e], rfl⟩) fun L => .report L e

theorem stop (phase : Phase α) : Quiet (SearchM.stop phase : SearchM σ α n κ Unit) (.stop phase) :=
  modifyLedger (fun _ events => ⟨events, rfl⟩) fun _ => ⟨rfl, rfl, rfl⟩

theorem endRound : Quiet (SearchM.endRound : SearchM σ α n κ Unit) .endRound :=
  modifyLedger (fun _ events => ⟨events, rfl⟩) fun _ => ⟨rfl, rfl, rfl⟩

theorem markRunning : Quiet (SearchM.markRunning : SearchM σ α n κ Unit) .markRunning := by
  apply modifyLedger
  · intro L events
    obtain ⟨calls, evaluations, rounds, best, history, trace, phase, _⟩ := L
    cases phase <;> exact ⟨events, rfl⟩
  · exact Account.Rests.markRunning

theorem draw (m : StateM σ β) : Quiet (SearchM.draw m : SearchM σ α n κ β) (.draw m) :=
  ⟨fun _ events => ⟨events, rfl⟩, fun c => .refl c.ledger⟩

theorem use (b : Usable α β) : Quiet (SearchM.use b : SearchM σ α n κ β) (.use b) := by
  cases b with
  | ok v => exact pure v
  | error f => exact throw _

theorem drawOr (m : ChoiceM σ α β) : Quiet (SearchM.drawOr m : SearchM σ α n κ β) (.drawOr m) :=
  .bind (draw _) fun b => use b

theorem require (b : Bool) (f : Fault α) :
    Quiet (SearchM.require b f : SearchM σ α n κ Unit) (.require b f) :=
  ite (pure ()) (throw _)

theorem reportIf (b : Bool) (e : Event α) :
    Quiet (SearchM.reportIf b e : SearchM σ α n κ Unit) (.reportIf b e) :=
  ite (report e) (pure ())

theorem requireFinite (c : Cost α) :
    Quiet (SearchM.requireFinite c : SearchM σ α n κ α) (.requireFinite c) := by
  have hend (c : Cost α) : Quiet
      (do SearchM.modifyLedger (·.stopNonFinite c); MonadExcept.throw .ended : SearchM σ α n κ α)
      (do SearchM.modifyLedger (·.stopNonFinite c); MonadExcept.throw .ended) := by
    apply Quiet.bind
    · exact modifyLedger (fun _ events => ⟨events ++ [_], rfl⟩) fun L => .stopNonFinite L c
    · intro _
      exact throw _
  cases c with
  | finite v => exact pure v
  | _ => exact hend _

end Quiet

namespace Steady

variable {m m' m₁ m₂ m₁' m₂' : SearchM σ α n κ β} {f f' : β → SearchM σ α n κ γ}

theorem of_quiet (h : Quiet m m') : Steady m m' := ⟨h.echoes, .of_quiet h⟩

theorem bind (hm : Steady m m') (hf : ∀ b, Steady (f b) (f' b)) :
    Steady (m >>= f) (m' >>= f') :=
  ⟨hm.echoes.bind fun b => (hf b).echoes, hm.grows.bind fun b => (hf b).grows⟩

theorem ite {p : Prop} [Decidable p] (h₁ : Steady m₁ m₁') (h₂ : Steady m₂ m₂') :
    Steady (if p then m₁ else m₂) (if p then m₁' else m₂') := by
  split
  · exact h₁
  · exact h₂

theorem ledger_bind {f f' : Ledger α n → SearchM σ α n κ γ}
    (hf : ∀ L events, Steady (f L) (f' { L with events })) :
    Steady (SearchM.ledger >>= f) (SearchM.ledger >>= f') :=
  ⟨.ledger_bind fun L events => (hf L events).echoes,
    .of_leads fun c => (hf c.ledger c.ledger.events).grows.leads c⟩

/-- The objective is asked about the same point in a call of the same number. -/
theorem evaluate (t : Task α n) (b : Nat) (x : Point α n) :
    Steady (SearchM.evaluate t x : SearchM σ α n κ (Cost α)) (.evaluate (t.withBudget b) x) := by
  constructor
  · intro c events
    show ∃ events', (SearchM.evaluate t x).run (c.withEvents events) = _
    have hcalls : (c.withEvents events).ledger.calls = c.ledger.calls := rfl
    rw [run_evaluate, run_evaluate, hcalls]
    cases (if t.checked then t.region.check x else .ok ()) with
    | error f => exact ⟨events, rfl⟩
    | ok u => cases t.objective x (c.ledger.calls + 1) <;> exact ⟨events, rfl⟩
  · apply Grows.of_leads
    intro c
    rw [run_evaluate]
    cases (if t.checked then t.region.check x else .ok ()) with
    | error f => exact .refl c.ledger
    | ok u =>
      dsimp only
      cases t.objective x (c.ledger.calls + 1) with
      | error failure => exact .enterFailure c.ledger x
      | ok k => exact .enter c.ledger x k

theorem trial (t : Task α n) (b : Nat) (x : Point α n) :
    Steady (SearchM.trial t x : SearchM σ α n κ α) (.trial (t.withBudget b) x) :=
  .bind (evaluate t b x) fun c => .of_quiet (.requireFinite c)

end Steady

/-! ## 2. Steps that look at the budget -/

variable {t : Task α n} {last : Prop}

/-- A step that does not look at the budget goes before one that does. -/
theorem Outlasts.after {m m' : SearchM σ α n κ β} {f f' : β → SearchM σ α n κ γ}
    (hm : Steady m m') (hf : ∀ b, Outlasts t last (f b) (f' b)) :
    Outlasts t last (m >>= f) (m' >>= f') := by
  constructor
  · intro c events
    obtain ⟨events', hrun⟩ := hm.echoes c events
    rw [run_bind, run_bind, hrun]
    rcases m.run c with ⟨e | b, d⟩
    · exact .inl ⟨events', rfl⟩
    · exact (hf b).follows d events'
  · exact (hm.echoes.grows hm.grows).bind fun b => (hf b).grows

theorem Outlasts.of_steady {m m' : SearchM σ α n κ β} (h : Steady m m') : Outlasts t last m m' :=
  ⟨fun c events => .inl (h.echoes c events), h.echoes.grows h.grows⟩

theorem Outlasts.leads {m m' : SearchM σ α n κ β} (h : Outlasts t last m m') (c : Course σ α n κ)
    (events : List (Event α)) :
    (m.run c).2.ledger.Leads (m'.run (c.withEvents events)).2.ledger := by
  rcases h.follows c events with ⟨events', hrun⟩ | ⟨hleads, -⟩
  · rw [hrun]
    exact .of_rests ⟨rfl, rfl, rfl⟩
  · exact hleads

/-- After a step that may have spent the smaller budget, the second one goes on alone. -/
theorem Outlasts.bind {m m' : SearchM σ α n κ β} {f f' : β → SearchM σ α n κ γ}
    (hm : Outlasts t False m m') (hf : ∀ b, Paced t last (f b) (f' b)) :
    Outlasts t last (m >>= f) (m' >>= f') where
  follows c events := by
    rw [run_bind m]
    rcases hm.follows c events with ⟨events', hrun⟩ | ⟨hleads, hspent⟩
    · rw [run_bind, hrun]
      rcases m.run c with ⟨e | b, d⟩
      · exact .inl ⟨events', rfl⟩
      · exact (hf b).follows d events'
    · right
      have hlonger : (m.run c).2.ledger.Leads ((m' >>= f').run (c.withEvents events)).2.ledger := by
        rw [run_bind]
        rcases hr : m'.run (c.withEvents events) with ⟨e | b, d⟩ <;> rw [hr] at hleads
        · exact hleads
        · exact hleads.trans ((hf b).grows.leads d)
      rcases hr : m.run c with ⟨e | b, d⟩ <;> rw [hr] at hlonger hspent
      · exact ⟨hlonger, fun _ h => nomatch h⟩
      · have hd : t.budget ≤ d.ledger.evaluations := (hspent b rfl).resolve_left id
        have hrests := (hf b).rests d hd
        refine ⟨.of_rests_left hrests hlonger, fun _ _ => .inr ?_⟩
        rw [hrests.evaluations]
        exact hd
  grows := hm.grows.bind fun b => (hf b).grows

namespace Paced

theorem of_quiet {m m' : SearchM σ α n κ β} (h : Quiet m m') : Paced t last m m' where
  toOutlasts := .of_steady (.of_quiet h)
  rests c _ := h.rests c

/-- Nothing comes after a step that leaves the rest to the larger budget. -/
theorem leave {b : β} {m' : SearchM σ α n κ β} (h : Grows m') (hlast : last) :
    Paced t last (pure b) m' where
  follows c events :=
    .inr ⟨.of_rests_left ⟨rfl, rfl, rfl⟩ (h.leads (c.withEvents events)), fun _ _ => .inl hlast⟩
  grows := h
  rests c _ := .refl c.ledger

/-- The second step may go on after the first one, which has spent its budget. -/
theorem bind {m m' : SearchM σ α n κ β} {f f' : β → SearchM σ α n κ γ} (hm : Paced t False m m')
    (hf : ∀ b, Paced t last (f b) (f' b)) : Paced t last (m >>= f) (m' >>= f') where
  toOutlasts := hm.toOutlasts.bind hf
  rests c hc := by
    have hrests := hm.rests c hc
    rw [run_bind]
    rcases hr : m.run c with ⟨e | b, d⟩ <;> rw [hr] at hrests
    · exact hrests
    · apply hrests.trans
      apply (hf b).rests d
      rw [hrests.evaluations]
      exact hc

theorem ite {p : Prop} [Decidable p] {m₁ m₂ m₁' m₂' : SearchM σ α n κ β}
    (h₁ : Paced t last m₁ m₁') (h₂ : Paced t last m₂ m₂') :
    Paced t last (if p then m₁ else m₂) (if p then m₁' else m₂') := by
  split
  · exact h₁
  · exact h₂

theorem ledger_bind {f f' : Ledger α n → SearchM σ α n κ γ}
    (hf : ∀ L events, Paced t last (f L) (f' { L with events })) :
    Paced t last (SearchM.ledger >>= f) (SearchM.ledger >>= f') where
  follows c events := (hf c.ledger events).follows c events
  grows := .of_leads fun c => (hf c.ledger c.ledger.events).grows.leads c
  rests c := (hf c.ledger c.ledger.events).rests c

variable {b : Nat} (hb : t.budget ≤ b)

include hb

/-- Where the smaller budget is spent and the larger one is not, the two steps part. -/
theorem withinBudget_bind {f f' : Bool → SearchM σ α n κ γ}
    (htrue : Outlasts t last (f true) (f' true)) (hfalse : Paced t last (f false) (f' false)) :
    Paced t last (SearchM.withinBudget t >>= f) (SearchM.withinBudget (t.withBudget b) >>= f') where
  follows c events := by
    show (∃ events', (f' (decide (c.ledger.evaluations < b))).run _ =
        (((f (decide (c.ledger.evaluations < t.budget))).run c).1,
          ((f (decide (c.ledger.evaluations < t.budget))).run c).2.withEvents events')) ∨
      ((f (decide (c.ledger.evaluations < t.budget))).run c).2.ledger.Leads
          ((f' (decide (c.ledger.evaluations < b))).run _).2.ledger ∧
        ∀ v, ((f (decide (c.ledger.evaluations < t.budget))).run c).1 = .ok v →
          last ∨ t.budget ≤ ((f (decide (c.ledger.evaluations < t.budget))).run c).2.ledger.evaluations
    by_cases hsmall : c.ledger.evaluations < t.budget
    · rw [decide_eq_true hsmall, decide_eq_true (Nat.lt_of_lt_of_le hsmall hb)]
      exact htrue.follows c events
    · rw [decide_eq_false hsmall]
      by_cases hlarge : c.ledger.evaluations < b
      · rw [decide_eq_true hlarge]
        have hspent : t.budget ≤ c.ledger.evaluations := Nat.not_lt.mp hsmall
        have hrests := hfalse.rests c hspent
        refine .inr ⟨.of_rests_left hrests (htrue.grows.leads (c.withEvents events)), fun _ _ => .inr ?_⟩
        rw [hrests.evaluations]
        exact hspent
      · rw [decide_eq_false hlarge]
        exact hfalse.follows c events
  grows := by
    apply Grows.bind (.withinBudget _)
    intro within
    cases within with
    | true => exact htrue.grows
    | false => exact hfalse.grows
  rests c hc := by
    show c.ledger.Rests ((f (decide (c.ledger.evaluations < t.budget))).run c).2.ledger
    rw [decide_eq_false (Nat.not_lt.mpr hc)]
    exact hfalse.rests c hc

theorem withinBudget : Paced t last (SearchM.withinBudget t : SearchM σ α n κ Bool)
    (SearchM.withinBudget (t.withBudget b)) := by
  have h : Paced t last (SearchM.withinBudget t >>= Pure.pure : SearchM σ α n κ Bool)
      (SearchM.withinBudget (t.withBudget b) >>= Pure.pure) := by
    apply withinBudget_bind hb
    · exact (of_quiet (.pure true)).toOutlasts
    · exact of_quiet (.pure false)
  rwa [bind_pure, bind_pure] at h

theorem requireBudget_bind {f f' : Unit → SearchM σ α n κ γ}
    (hf : Outlasts t last (f ()) (f' ())) :
    Paced t last (SearchM.requireBudget t >>= f)
      (SearchM.requireBudget (t.withBudget b) >>= f') := by
  unfold SearchM.requireBudget
  rw [bind_assoc, bind_assoc]
  apply withinBudget_bind hb
  · exact hf
  · exact of_quiet (.throw .ended)

theorem stopWithin (phase : Phase α) :
    Paced t last (SearchM.stopWithin t phase : SearchM σ α n κ Unit)
      (SearchM.stopWithin (t.withBudget b) phase) := by
  apply withinBudget_bind hb
  · exact (of_quiet (.stop phase)).toOutlasts
  · exact of_quiet (.pure ())

theorem evaluateAll (keep : Sample α n → κ → κ) (xs : List (Point α n)) :
    Paced t last (Population.evaluateAll t keep xs : SearchM σ α n κ Unit)
      (Population.evaluateAll (t.withBudget b) keep xs) := by
  -- The two steps part before a point is evaluated, never between its evaluation and the next.
  induction xs with
  | nil => exact of_quiet (.pure ())
  | cons x xs ih =>
    apply requireBudget_bind hb
    apply Outlasts.after (.evaluate t b x)
    intro c
    apply Outlasts.after (.of_quiet (.modifyOwn _))
    intro _
    apply Outlasts.after (.of_quiet (.requireFinite c))
    intro _
    exact ih.toOutlasts

omit hb in
theorem repeatWhile {step step' : SearchM σ α n κ Bool} (h : Paced t False step step')
    {fuel fuel' : Nat} (hfuel : fuel ≤ fuel') :
    Paced t True (SearchM.repeatWhile step fuel) (SearchM.repeatWhile step' fuel') := by
  -- Where the first step has no repetition left, the second one goes on alone.
  induction fuel generalizing fuel' with
  | zero => exact leave (h.grows.repeatWhile fuel') trivial
  | succ fuel ih =>
    obtain ⟨k, rfl⟩ := Nat.exists_eq_add_of_le' hfuel
    apply h.bind
    intro b
    exact ite (ih (Nat.le_add_left fuel k)) (of_quiet (.pure ()))

/-- The second step may have more rounds, if nothing comes after the first one. -/
theorem roundsWithin {round round' : SearchM σ α n κ Unit} (h : Outlasts t False round round')
    {fuel fuel' : Nat} (hfuel : fuel = fuel' ∨ fuel ≤ fuel' ∧ last) :
    Paced t last (SearchM.roundsWithin t round fuel)
      (SearchM.roundsWithin (t.withBudget b) round' fuel') := by
  induction fuel generalizing fuel' with
  | zero =>
    rcases hfuel with rfl | ⟨-, hlast⟩
    · exact of_quiet (.pure ())
    · -- Only the second step has rounds left, and nothing comes after the first one.
      exact leave (h.grows.roundsWithin _ fuel') hlast
  | succ fuel ih =>
    obtain ⟨k, rfl, hk⟩ : ∃ k, fuel' = k + 1 ∧ (fuel = k ∨ fuel ≤ k ∧ last) := by
      rcases hfuel with rfl | ⟨hle, hlast⟩
      · exact ⟨fuel, rfl, .inl rfl⟩
      · obtain ⟨k, rfl⟩ := Nat.exists_eq_add_one_of_ne_zero (Nat.ne_zero_of_lt hle)
        exact ⟨k, rfl, .inr ⟨Nat.le_of_succ_le_succ hle, hlast⟩⟩
    apply withinBudget_bind hb
    · exact h.bind fun _ => ih hk
    · exact of_quiet (.pure ())

end Paced

end SearchM

end BoxSearch
