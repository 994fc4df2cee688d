import Mathlib
import BoxSearch.Proofs.Feasible.Confined

/-!
# Faultless steps

A step is faultless if it meets no fault but one by which a check refuses a point, provided that the
objective answers whatever it is asked.  `Faultless P m Q` starts where the best point and the kept
state have `P` and ends, with an answer, where they have `Q`; a halt because the search is over is no
fault.  What is confined to its region is refused no point, so that a search that is confined as well
as faultless returns.  A step that evaluates feasible points only and meets no fault of its own is
flawless: nothing but a failure of the objective can keep it from going on.
-/

namespace BoxSearch

/-- The objective answers whatever it is asked. -/
def Objective.Answers {α : Type} {n : ℕ} (f : Objective α n) : Prop := ∀ x k, ∃ c, f x k = .ok c

/-- A halt because the search is over, or because a check refuses a point. -/
def Halt.IsRefusal {α : Type} : Halt α → Prop
  | .ended => True
  | .fault f => ¬f.IsOrdinary

/-- A check refuses points for no other reasons than that they are not in the region. -/
theorem Region.not_isOrdinary_of_check {α : Type} [Scalar α] {n : ℕ} {r : Region α n}
    {x : Point α n} {f : Fault α} (h : r.check x = .error f) : ¬f.IsOrdinary := by
  unfold check at h
  split at h
  · split at h
    · exact nomatch h
    · rw [← Except.error.inj h]
      exact id
  · rw [← Except.error.inj h]
    exact id

/-- A step without faults, and what it needs and leaves of the best point and of the kept state. -/
def Faultless {σ α κ β : Type} {n : ℕ} (P : Option (Best α (Point α n)) → κ → Prop)
    (m : SearchM σ α n κ β) (Q : β → Option (Best α (Point α n)) → κ → Prop) : Prop :=
  SearchM.Triple (fun c => P c.ledger.best c.own) m (fun b c => Q b c.ledger.best c.own)
    fun e _ => e.IsRefusal

namespace Faultless

variable {σ α κ β γ : Type} {n : ℕ} {P S : Option (Best α (Point α n)) → κ → Prop}
  {Q U : β → Option (Best α (Point α n)) → κ → Prop}
  {R : γ → Option (Best α (Point α n)) → κ → Prop}

/-! ## 1. Putting steps together -/

theorem bind {m : SearchM σ α n κ β} {f : β → SearchM σ α n κ γ} (hm : Faultless P m Q)
    (hf : ∀ b, Faultless (Q b) (f b) R) : Faultless P (m >>= f) R :=
  SearchM.Triple.bind hm hf

/-- A step whose answer has a property goes on knowing it. -/
theorem bind_of {φ : β → Prop} {m : SearchM σ α n κ β} {f : β → SearchM σ α n κ γ}
    (hm : Faultless P m fun b o k => φ b ∧ S o k) (hf : ∀ b, φ b → Faultless S (f b) R) :
    Faultless P (m >>= f) R :=
  hm.bind fun b c hc => hf b hc.1 c hc.2

theorem pure {b : β} (h : ∀ o k, P o k → Q b o k) : Faultless P (pure b : SearchM σ α n κ β) Q :=
  SearchM.Triple.pure fun _ hc => h _ _ hc

theorem ended : Faultless P (throw .ended : SearchM σ α n κ β) Q :=
  SearchM.Triple.throw fun _ _ => trivial

theorem ite {p : Prop} [Decidable p] {m m' : SearchM σ α n κ β} (h : p → Faultless P m Q)
    (h' : ¬p → Faultless P m' Q) : Faultless P (if p then m else m') Q :=
  SearchM.Triple.ite h h'

/-- Less may be known after a step than it gives. -/
theorem post {m : SearchM σ α n κ β} (h : Faultless P m U) (hQ : ∀ b o k, U b o k → Q b o k) :
    Faultless P m Q :=
  SearchM.Triple.weaken h (fun b c hc => hQ b c.ledger.best c.own hc) fun _ _ he => he

theorem repeatWhile {step : SearchM σ α n κ Bool} (h : Faultless P step fun _ => P) (fuel : ℕ) :
    Faultless P (SearchM.repeatWhile step fuel) fun _ => P :=
  SearchM.Triple.repeatWhile h fuel

/-! ## 2. The kept state and the account -/

/-- What is read of the kept state has what is known of it. -/
theorem own_bind {f : κ → SearchM σ α n κ γ} (hf : ∀ o k, P o k → Faultless P (f k) R) :
    Faultless P (SearchM.own >>= f) R :=
  fun c hc => hf c.ledger.best c.own hc c hc

/-- As long as the kept state is not changed, it is the one that was read. -/
theorem own_bind_eq {f : κ → SearchM σ α n κ γ}
    (hf : ∀ k, (∃ o, P o k) → Faultless (fun _ k' => k' = k) (f k) R) :
    Faultless P (SearchM.own >>= f) R :=
  fun c hc => hf c.own ⟨_, hc⟩ c rfl

theorem modifyOwn {f : κ → κ} (h : ∀ o k, P o k → S o (f k)) :
    Faultless P (SearchM.modifyOwn f : SearchM σ α n κ Unit) fun _ => S :=
  SearchM.Triple.modifyOwn fun _ hc => h _ _ hc

theorem setOwn {k : κ} (h : ∀ o, S o k) :
    Faultless P (SearchM.setOwn k : SearchM σ α n κ Unit) fun _ => S :=
  SearchM.Triple.setOwn fun _ _ => h _

/-- The best point that is read is the one about which something is known. -/
theorem ledger_bind {f : Ledger α n → SearchM σ α n κ γ}
    (hf : ∀ L k, P L.best k → Faultless P (f L) R) : Faultless P (SearchM.ledger >>= f) R :=
  fun c hc => hf c.ledger c.own hc c hc

/-- What does not change the best point of the account changes nothing that is known. -/
theorem modifyLedger {f : Ledger α n → Ledger α n} (h : ∀ L, (f L).best = L.best) :
    Faultless P (SearchM.modifyLedger f : SearchM σ α n κ Unit) fun _ => P := by
  apply SearchM.Triple.modifyLedger
  intro c hc
  show P (f c.ledger).best c.own
  rw [h]
  exact hc

theorem report (e : Event α) : Faultless P (SearchM.report e : SearchM σ α n κ Unit) fun _ => P :=
  modifyLedger fun _ => rfl

theorem reportIf (b : Bool) (e : Event α) :
    Faultless P (SearchM.reportIf b e : SearchM σ α n κ Unit) fun _ => P :=
  .ite (fun _ => report e) fun _ => .pure fun _ _ hk => hk

theorem stop (phase : Phase α) :
    Faultless P (SearchM.stop phase : SearchM σ α n κ Unit) fun _ => P := modifyLedger fun _ => rfl

theorem endRound : Faultless P (SearchM.endRound : SearchM σ α n κ Unit) fun _ => P :=
  modifyLedger fun _ => rfl

theorem markRunning : Faultless P (SearchM.markRunning : SearchM σ α n κ Unit) fun _ => P := by
  apply modifyLedger
  intro L
  unfold Account.markRunning
  cases L.phase <;> rfl

/-! ## 3. Draws and values -/

theorem draw_bind {φ : β → Prop} {m : StateM σ β} {f : β → SearchM σ α n κ γ} (h : Gives φ m)
    (hf : ∀ b, φ b → Faultless P (f b) R) : Faultless P (SearchM.draw m >>= f) R :=
  fun c hc => hf _ (h c.draws) { c with draws := (m c.draws).2 } hc

theorem drawOr_bind {φ : β → Prop} {m : ChoiceM σ α β} {f : β → SearchM σ α n κ γ}
    (h : Meets φ (fun _ => False) m) (hf : ∀ b, φ b → Faultless P (f b) R) :
    Faultless P (SearchM.drawOr m >>= f) R :=
  SearchM.Triple.drawOr_bind h (fun _ _ hc => hc) hf fun _ he _ _ _ => he.elim

/-- A value that can be used. -/
theorem use_bind {b : Usable α β} {v : β} {f : β → SearchM σ α n κ γ} (h : b = .ok v)
    (hf : Faultless P (f v) R) : Faultless P (SearchM.use b >>= f) R := by
  subst h
  exact hf

theorem useNumber {b : Usable α β} (h : b.IsNumber) :
    Faultless P (SearchM.use b : SearchM σ α n κ β) fun _ => P := by
  obtain ⟨v, rfl⟩ := h
  exact .pure fun _ _ hk => hk

theorem require {b : Bool} (h : b = true) (f : Fault α) :
    Faultless P (SearchM.require b f : SearchM σ α n κ Unit) fun _ => P := by
  subst h
  exact .pure fun _ _ hk => hk

/-! ## 4. Evaluations -/

theorem requireFinite (c : Cost α) :
    Faultless P (SearchM.requireFinite c : SearchM σ α n κ α) fun _ => P :=
  SearchM.Triple.requireFinite (fun _ _ _ hc => hc) fun _ _ _ => trivial

variable [Scalar α] {t : Task α n}

theorem withinBudget : Faultless P (SearchM.withinBudget t : SearchM σ α n κ Bool) fun _ => P :=
  SearchM.Triple.withinBudget fun _ hc => hc

theorem requireBudget : Faultless P (SearchM.requireBudget t : SearchM σ α n κ Unit) fun _ => P :=
  SearchM.Triple.requireBudget (fun _ hc _ => hc) fun _ _ _ => trivial

theorem roundsWithin {round : SearchM σ α n κ Unit} (h : Faultless P round fun _ => P) (fuel : ℕ) :
    Faultless P (SearchM.roundsWithin t round fuel) fun _ => P :=
  SearchM.Triple.roundsWithin h fuel

section

variable (ht : t.objective.Answers)

include ht

theorem evaluate {x : Point α n} {V : Cost α → Option (Best α (Point α n)) → κ → Prop}
    (h : ∀ o c k, P o k → V c (Account.improve o x c) k) :
    Faultless P (SearchM.evaluate t x : SearchM σ α n κ (Cost α)) V := by
  apply SearchM.Triple.evaluate
  · exact fun f hf _ _ => Region.not_isOrdinary_of_check hf
  · intro failure c _ hfail
    obtain ⟨k, hk⟩ := ht x (c.ledger.calls + 1)
    rw [hk] at hfail
    exact nomatch hfail
  · exact fun k c hc _ => h _ _ _ hc

/-- A point that is tried and answers was entered with a finite cost. -/
theorem trial {x : Point α n} (h : ∀ o v k, P o k → S (Account.improve o x (.finite v)) k) :
    Faultless P (SearchM.trial t x : SearchM σ α n κ α) fun _ => S := by
  apply Faultless.bind (evaluate ht (V := fun c o k => ∀ v, c = .finite v → S o k) ?_)
  · exact fun c => SearchM.Triple.requireFinite (fun v hv _ hc => hc v hv) fun _ _ _ => trivial
  · rintro o c k hk v rfl
    exact h o v k hk

/-- Points are evaluated one after the other, and `I` holds before each of them. -/
theorem evaluateAll {I : ℕ → κ → Prop} {keep : Sample α n → κ → κ} (xs : List (Point α n))
    (hkeep : ∀ s j k, s.point ∈ xs → I j k → I (j + 1) (keep s k)) (j : ℕ) :
    Faultless (fun _ => I j) (Population.evaluateAll t keep xs : SearchM σ α n κ Unit)
      fun _ _ => I (j + xs.length) := by
  induction xs generalizing j with
  | nil => exact .pure fun _ _ hk => hk
  | cons x xs ih =>
    apply Faultless.bind requireBudget
    intro _
    apply Faultless.bind (evaluate ht (V := fun _ _ => I j) fun _ _ _ hk => hk)
    intro c
    apply Faultless.bind (.modifyOwn (S := fun _ => I (j + 1)) fun _ k hk =>
      hkeep ⟨x, c⟩ j k List.mem_cons_self hk)
    intro _
    apply Faultless.bind (requireFinite c)
    intro _
    have hrest := ih (fun s j k hs => hkeep s j k (List.mem_cons_of_mem x hs)) (j + 1)
    refine hrest.post fun _ _ k hk => ?_
    rw [List.length_cons, ← Nat.add_assoc, Nat.add_right_comm]
    exact hk

end

/-! ## 5. A whole run -/

/-- The faults that a faultless search meets are refusals of points. -/
theorem not_isOrdinary_of_solve {c : Course σ α n κ} {body : SearchM σ α n κ Unit}
    {Q : Unit → Option (Best α (Point α n)) → κ → Prop} (h : Faultless P body Q)
    (hphase : c.ledger.phase = .notStarted) (hP : P c.ledger.best c.own) {f : Fault α}
    (hf : (c.solve t body).1 = .error f) : ¬f.IsOrdinary := by
  have hrun := h { c with ledger := c.ledger.start n t.budget } hP
  obtain ⟨-, hordinary⟩ := Course.exists_of_solve_eq_error hphase hrun hf
  exact hordinary

/-- A faultless search returns, if no check of its points raises the faults that it meets. -/
theorem solve {c : Course σ α n κ} {body : SearchM σ α n κ Unit}
    {Q : Unit → Option (Best α (Point α n)) → κ → Prop} (h : Faultless P body Q)
    (hphase : c.ledger.phase = .notStarted) (hP : P c.ledger.best c.own)
    (hordinary : ∀ f, (c.solve t body).1 = .error f → f.IsOrdinary) :
    (c.solve t body).1 = .ok () := by
  cases hanswer : (c.solve t body).1 with
  | error f => exact absurd (hordinary f hanswer) (h.not_isOrdinary_of_solve hphase hP hanswer)
  | ok u => rfl

end Faultless

/-! ## 6. Steps that only the objective fails -/

/-- What ends a search from outside: it is over, or the objective failed. -/
def Task.Ends {n : ℕ} (t : Task ℝ n) : Halt ℝ → Prop
  | .ended => True
  | .fault f => ∃ x k failure, t.objective x k = .error failure ∧ f = .failed failure

/-- A step that meets no fault of its own, and what it needs and leaves of the kept state. -/
def Flawless {σ κ β : Type} {n : ℕ} (t : Task ℝ n) (I : κ → Prop) (m : SearchM σ ℝ n κ β)
    (Q : β → κ → Prop) : Prop :=
  SearchM.Triple (fun c => I c.own) m (fun b c => Q b c.own) fun e _ => t.Ends e

namespace Flawless

variable {σ κ β γ : Type} {n : ℕ} {t : Task ℝ n} {I J : κ → Prop} {Q : β → κ → Prop}
  {R : γ → κ → Prop}

/-- If the objective answers whatever it is asked, there is no fault at all. -/
theorem faultless {m : SearchM σ ℝ n κ β} (h : Flawless t I m Q) (ht : t.objective.Answers) :
    Faultless (fun _ => I) m fun b _ => Q b := by
  apply SearchM.Triple.weaken h (fun _ _ hc => hc)
  intro e _ he
  cases e with
  | ended => trivial
  | fault f =>
    obtain ⟨x, k, failure, hfailed, -⟩ := he
    obtain ⟨c, hc⟩ := ht x k
    rw [hc] at hfailed
    exact nomatch hfailed

theorem bind {m : SearchM σ ℝ n κ β} {f : β → SearchM σ ℝ n κ γ} (hm : Flawless t I m Q)
    (hf : ∀ b, Flawless t (Q b) (f b) R) : Flawless t I (m >>= f) R :=
  SearchM.Triple.bind hm hf

/-- A step whose answer has a property goes on knowing it. -/
theorem bind_of {φ : β → Prop} {m : SearchM σ ℝ n κ β} {f : β → SearchM σ ℝ n κ γ}
    (hm : Flawless t I m fun b k => φ b ∧ J k) (hf : ∀ b, φ b → Flawless t J (f b) R) :
    Flawless t I (m >>= f) R :=
  hm.bind fun b c hc => hf b hc.1 c hc.2

theorem pure {b : β} (h : ∀ k, I k → Q b k) : Flawless t I (pure b : SearchM σ ℝ n κ β) Q :=
  SearchM.Triple.pure fun _ hc => h _ hc

theorem ite {p : Prop} [Decidable p] {m m' : SearchM σ ℝ n κ β} (h : p → Flawless t I m Q)
    (h' : ¬p → Flawless t I m' Q) : Flawless t I (if p then m else m') Q :=
  SearchM.Triple.ite h h'

/-- Less may be known after a step than it gives. -/
theorem post {U : β → κ → Prop} {m : SearchM σ ℝ n κ β} (h : Flawless t I m U)
    (hQ : ∀ b k, U b k → Q b k) : Flawless t I m Q :=
  SearchM.Triple.weaken h (fun b c hc => hQ b c.own hc) fun _ _ he => he

theorem own_bind {f : κ → SearchM σ ℝ n κ γ} (hf : ∀ k, I k → Flawless t I (f k) R) :
    Flawless t I (SearchM.own >>= f) R :=
  fun c hc => hf c.own hc c hc

theorem modifyOwn {f : κ → κ} (h : ∀ k, I k → J (f k)) :
    Flawless t I (SearchM.modifyOwn f : SearchM σ ℝ n κ Unit) fun _ => J :=
  SearchM.Triple.modifyOwn fun _ hc => h _ hc

theorem setOwn {k : κ} (h : J k) :
    Flawless t I (SearchM.setOwn k : SearchM σ ℝ n κ Unit) fun _ => J :=
  SearchM.Triple.setOwn fun _ _ => h

/-- Nothing that is known is about the account. -/
theorem modifyLedger {f : Ledger ℝ n → Ledger ℝ n} :
    Flawless t I (SearchM.modifyLedger f : SearchM σ ℝ n κ Unit) fun _ => I :=
  SearchM.Triple.modifyLedger fun _ hc => hc

theorem draw_bind {φ : β → Prop} {m : StateM σ β} {f : β → SearchM σ ℝ n κ γ} (h : Gives φ m)
    (hf : ∀ b, φ b → Flawless t I (f b) R) : Flawless t I (SearchM.draw m >>= f) R :=
  fun c hc => hf _ (h c.draws) { c with draws := (m c.draws).2 } hc

theorem drawOr_bind {φ : β → Prop} {m : ChoiceM σ ℝ β} {f : β → SearchM σ ℝ n κ γ}
    (h : Meets φ (fun _ => False) m) (hf : ∀ b, φ b → Flawless t I (f b) R) :
    Flawless t I (SearchM.drawOr m >>= f) R :=
  SearchM.Triple.drawOr_bind h (fun _ _ hc => hc) hf fun _ he _ _ _ => he.elim

theorem requireBudget :
    Flawless t I (SearchM.requireBudget t : SearchM σ ℝ n κ Unit) fun _ => I :=
  SearchM.Triple.requireBudget (fun _ hc _ => hc) fun _ _ _ => trivial

theorem roundsWithin {round : SearchM σ ℝ n κ Unit} (h : Flawless t I round fun _ => I) (fuel : ℕ) :
    Flawless t I (SearchM.roundsWithin t round fuel) fun _ => I :=
  SearchM.Triple.roundsWithin h fuel

theorem stopWithin (phase : Phase ℝ) :
    Flawless t I (SearchM.stopWithin t phase : SearchM σ ℝ n κ Unit) fun _ => I :=
  SearchM.Triple.bind (SearchM.Triple.withinBudget fun _ hc => hc) fun _ =>
    .ite (fun _ => modifyLedger) fun _ => .pure fun _ hk => hk

/-- A feasible point passes the check, so that only the objective can fail. -/
theorem evaluate {x : Point ℝ n} (hx : t.region.Feasible x) :
    Flawless t I (SearchM.evaluate t x : SearchM σ ℝ n κ (Cost ℝ)) fun _ => I := by
  apply SearchM.Triple.evaluate
  · intro f hf
    rw [t.region.check_eq_ok hx] at hf
    exact nomatch hf
  · exact fun failure c _ hfailed => ⟨x, _, failure, hfailed, rfl⟩
  · exact fun _ _ hc _ => hc

theorem requireFinite (c : Cost ℝ) :
    Flawless t I (SearchM.requireFinite c : SearchM σ ℝ n κ ℝ) fun _ => I :=
  SearchM.Triple.requireFinite (fun _ _ _ hc => hc) fun _ _ _ => trivial

theorem trial {x : Point ℝ n} (hx : t.region.Feasible x) :
    Flawless t I (SearchM.trial t x : SearchM σ ℝ n κ ℝ) fun _ => I :=
  (evaluate hx).bind requireFinite

/-- The only fault with which a flawless search ends is one of its objective. -/
theorem solve {c : Course σ ℝ n κ} {body : SearchM σ ℝ n κ Unit} {Q : Unit → κ → Prop}
    (h : Flawless t I body Q) (hphase : c.ledger.phase = .notStarted) (hI : I c.own)
    {f : Fault ℝ} (hf : (c.solve t body).1 = .error f) : t.Ends (.fault f) := by
  have hrun := h { c with ledger := c.ledger.start n t.budget } hI
  obtain ⟨-, hends⟩ := Course.exists_of_solve_eq_error hphase hrun hf
  exact hends

end Flawless

end BoxSearch
