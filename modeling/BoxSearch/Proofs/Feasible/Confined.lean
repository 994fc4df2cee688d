import Mathlib
import BoxSearch.Proofs.Feasible.Choices

/-!
# Confined steps

A step is confined to the region of its task when it passes only feasible points to the objective,
and halts for no reason that a check of a point would give.  What the method keeps may be needed to
see that: `Confined t I m Q` starts where the kept state has `I` and ends, with an answer, where `Q`
holds.  On a halt nothing is asked of the kept state, because nothing runs after it.
-/

namespace BoxSearch

/-- Every point in the trace of an account is feasible. -/
def Region.Confines {n : ℕ} (r : Region ℝ n) (L : Ledger ℝ n) : Prop :=
  ∀ e ∈ L.trace, r.Feasible e.1

/-- A halt because the search is over, or for a fault that no check of a point raises. -/
def Halt.IsOrdinary {α : Type} : Halt α → Prop
  | .ended => True
  | .fault f => f.IsOrdinary

theorem Region.confines_append {n : ℕ} {r : Region ℝ n} {L L' : Ledger ℝ n} (h : r.Confines L)
    {x : Point ℝ n} (hx : r.Feasible x) {o : Option (Cost ℝ)}
    (hL : L'.trace = L.trace ++ [(x, o)]) : r.Confines L' := by
  intro e he
  rw [hL] at he
  rcases List.mem_append.mp he with hold | hnew
  · exact h e hold
  · rw [List.mem_singleton.mp hnew]
    exact hx

theorem Region.confines_close {n : ℕ} {r : Region ℝ n} {L : Ledger ℝ n} (h : r.Confines L) :
    r.Confines L.close := by
  intro e he
  rw [Account.trace_close] at he
  exact h e he

/-- A step that evaluates feasible points only, and what it needs and leaves of the kept state. -/
def Confined {σ κ β : Type} {n : ℕ} (t : Task ℝ n) (I : κ → Prop) (m : SearchM σ ℝ n κ β)
    (Q : β → κ → Prop) : Prop :=
  SearchM.Triple (fun c => t.region.Confines c.ledger ∧ I c.own) m
    (fun b c => t.region.Confines c.ledger ∧ Q b c.own)
    (fun e c => t.region.Confines c.ledger ∧ e.IsOrdinary)

namespace Confined

variable {σ κ β γ : Type} {n : ℕ} {t : Task ℝ n} {I J : κ → Prop} {Q Q' : β → κ → Prop}
  {R : γ → κ → Prop}

/-! ## 1. Putting steps together -/

theorem bind {m : SearchM σ ℝ n κ β} {f : β → SearchM σ ℝ n κ γ} (hm : Confined t I m Q)
    (hf : ∀ b, Confined t (Q b) (f b) R) : Confined t I (m >>= f) R :=
  SearchM.Triple.bind hm hf

/-- A step whose answer has a property goes on knowing it. -/
theorem bind_of {φ : β → Prop} {m : SearchM σ ℝ n κ β} {f : β → SearchM σ ℝ n κ γ}
    (hm : Confined t I m fun b k => φ b ∧ J k) (hf : ∀ b, φ b → Confined t J (f b) R) :
    Confined t I (m >>= f) R :=
  hm.bind fun b c hc => hf b hc.2.1 c ⟨hc.1, hc.2.2⟩

theorem pure {b : β} (h : ∀ k, I k → Q b k) : Confined t I (pure b : SearchM σ ℝ n κ β) Q :=
  SearchM.Triple.pure fun _ hc => ⟨hc.1, h _ hc.2⟩

theorem throw {e : Halt ℝ} (h : e.IsOrdinary) :
    Confined t I (throw e : SearchM σ ℝ n κ β) Q :=
  SearchM.Triple.throw fun _ hc => ⟨hc.1, h⟩

theorem ite {p : Prop} [Decidable p] {m m' : SearchM σ ℝ n κ β} (h : p → Confined t I m Q)
    (h' : ¬p → Confined t I m' Q) : Confined t I (if p then m else m') Q :=
  SearchM.Triple.ite h h'

theorem repeatWhile {step : SearchM σ ℝ n κ Bool} (h : Confined t I step fun _ => I) (fuel : ℕ) :
    Confined t I (SearchM.repeatWhile step fuel) fun _ => I :=
  SearchM.Triple.repeatWhile h fuel

theorem roundsWithin {round : SearchM σ ℝ n κ Unit} (h : Confined t I round fun _ => I) (fuel : ℕ) :
    Confined t I (SearchM.roundsWithin t round fuel) fun _ => I :=
  SearchM.Triple.roundsWithin h fuel

/-! ## 2. The kept state and the account -/

/-- What is read of the kept state satisfies its invariant. -/
theorem own_bind {f : κ → SearchM σ ℝ n κ γ} (hf : ∀ k, I k → Confined t I (f k) R) :
    Confined t I (SearchM.own >>= f) R :=
  fun c hc => hf c.own hc.2 c hc

theorem modifyOwn {f : κ → κ} (h : ∀ k, I k → J (f k)) :
    Confined t I (SearchM.modifyOwn f : SearchM σ ℝ n κ Unit) fun _ => J :=
  SearchM.Triple.modifyOwn fun _ hc => ⟨hc.1, h _ hc.2⟩

theorem setOwn {k : κ} (h : J k) :
    Confined t I (SearchM.setOwn k : SearchM σ ℝ n κ Unit) fun _ => J :=
  SearchM.Triple.setOwn fun _ hc => ⟨hc.1, h⟩

theorem ledger : Confined t I (SearchM.ledger : SearchM σ ℝ n κ (Ledger ℝ n)) fun _ => I :=
  SearchM.Triple.ledger fun _ hc => hc

theorem modifyLedger {f : Ledger ℝ n → Ledger ℝ n} (h : ∀ L, (f L).trace = L.trace) :
    Confined t I (SearchM.modifyLedger f : SearchM σ ℝ n κ Unit) fun _ => I := by
  -- The trace is the same, and so are the points in it.
  apply SearchM.Triple.modifyLedger
  intro c hc
  constructor
  · intro e he
    rw [h] at he
    exact hc.1 e he
  · exact hc.2

theorem report (e : Event ℝ) :
    Confined t I (SearchM.report e : SearchM σ ℝ n κ Unit) fun _ => I := modifyLedger fun _ => rfl

theorem stop (phase : Phase ℝ) :
    Confined t I (SearchM.stop phase : SearchM σ ℝ n κ Unit) fun _ => I := modifyLedger fun _ => rfl

theorem endRound : Confined t I (SearchM.endRound : SearchM σ ℝ n κ Unit) fun _ => I :=
  modifyLedger fun _ => rfl

theorem markRunning : Confined t I (SearchM.markRunning : SearchM σ ℝ n κ Unit) fun _ => I := by
  apply modifyLedger
  intro L
  unfold Account.markRunning
  cases L.phase <;> rfl

theorem require (b : Bool) {f : Fault ℝ} (h : f.IsOrdinary) :
    Confined t I (SearchM.require b f : SearchM σ ℝ n κ Unit) fun _ => I :=
  .ite (fun _ => .pure fun _ hk => hk) fun _ => .throw (e := .fault f) h

theorem withinBudget : Confined t I (SearchM.withinBudget t : SearchM σ ℝ n κ Bool) fun _ => I :=
  SearchM.Triple.withinBudget fun _ hc => hc

theorem requireBudget : Confined t I (SearchM.requireBudget t : SearchM σ ℝ n κ Unit) fun _ => I :=
  SearchM.Triple.requireBudget (fun _ hc _ => hc) fun _ hc _ => ⟨hc.1, trivial⟩

theorem stopWithin (phase : Phase ℝ) :
    Confined t I (SearchM.stopWithin t phase : SearchM σ ℝ n κ Unit) fun _ => I :=
  .bind withinBudget fun _ => .ite (fun _ => stop phase) fun _ => .pure fun _ hk => hk

/-! ## 3. Draws and values -/

theorem draw_bind {φ : β → Prop} {m : StateM σ β} {f : β → SearchM σ ℝ n κ γ} (h : Gives φ m)
    (hf : ∀ b, φ b → Confined t I (f b) R) : Confined t I (SearchM.draw m >>= f) R :=
  fun c hc => hf _ (h c.draws) { c with draws := (m c.draws).2 } hc

theorem drawOr_bind {φ : β → Prop} {m : ChoiceM σ ℝ β} {f : β → SearchM σ ℝ n κ γ}
    (h : Meets φ Fault.IsOrdinary m) (hf : ∀ b, φ b → Confined t I (f b) R) :
    Confined t I (SearchM.drawOr m >>= f) R :=
  SearchM.Triple.drawOr_bind h (fun _ _ hc => hc) hf fun _ he _ _ hc => ⟨hc.1, he⟩

/-- A value that is missing for an ordinary reason. -/
theorem use {b : Usable ℝ β} (h : ∀ f, b = .error f → f.IsOrdinary) :
    Confined t I (SearchM.use b : SearchM σ ℝ n κ β) fun _ => I :=
  SearchM.Triple.use (fun _ _ _ hc => hc) fun f hf _ hc => ⟨hc.1, h f hf⟩

theorem useNumber {b : Usable ℝ β} (h : b.IsNumber) :
    Confined t I (SearchM.use b : SearchM σ ℝ n κ β) fun _ => I := by
  obtain ⟨v, rfl⟩ := h
  exact use fun f hf => nomatch hf

/-! ## 4. Evaluations -/

/-- A feasible point passes the check, is entered into the trace, and nothing else happens. -/
theorem evaluate {x : Point ℝ n} (hx : t.region.Feasible x) :
    Confined t I (SearchM.evaluate t x : SearchM σ ℝ n κ (Cost ℝ)) fun _ => I := by
  apply SearchM.Triple.evaluate
  · -- the check does not refuse the point
    intro f hf
    rw [t.region.check_eq_ok hx] at hf
    exact nomatch hf
  · intro _ c hc _
    exact ⟨Region.confines_append hc.1 hx rfl, trivial⟩
  · intro _ c hc _
    exact ⟨Region.confines_append hc.1 hx rfl, hc.2⟩

theorem requireFinite (k : Cost ℝ) :
    Confined t I (SearchM.requireFinite k : SearchM σ ℝ n κ ℝ) fun _ => I :=
  SearchM.Triple.requireFinite (fun _ _ _ hc => hc) fun _ hc _ => ⟨hc.1, trivial⟩

theorem trial {x : Point ℝ n} (hx : t.region.Feasible x) :
    Confined t I (SearchM.trial t x : SearchM σ ℝ n κ ℝ) fun _ => I :=
  .bind (evaluate hx) fun k => requireFinite k

theorem evaluateAll {keep : Sample ℝ n → κ → κ}
    (hkeep : ∀ s k, t.region.Feasible s.point → I k → I (keep s k)) {xs : List (Point ℝ n)}
    (hxs : ∀ x ∈ xs, t.region.Feasible x) :
    Confined t I (Population.evaluateAll t keep xs : SearchM σ ℝ n κ Unit) fun _ => I := by
  -- A sample is kept before its cost can end the search: the invariant holds with it already.
  induction xs with
  | nil => exact .pure fun _ hk => hk
  | cons x xs ih =>
    have hx : t.region.Feasible x := hxs x List.mem_cons_self
    have hrest : ∀ y ∈ xs, t.region.Feasible y := fun y hy => hxs y (List.mem_cons_of_mem x hy)
    apply Confined.bind requireBudget
    intro _
    apply Confined.bind (evaluate hx)
    intro cost
    apply Confined.bind (.modifyOwn fun k hk => hkeep ⟨x, cost⟩ k hx hk)
    intro _
    exact .bind (requireFinite cost) fun _ => ih hrest

/-- What a confined step enters is feasible, however it ends. -/
theorem keeps {m : SearchM σ ℝ n κ β} (h : Confined t (fun _ => True) m Q) :
    SearchM.Keeps (fun c => t.region.Confines c.ledger) m := by
  intro c hc
  exact SearchM.Triple.weaken h (fun _ _ hd => hd.1) (fun _ _ hd => hd.1) c ⟨hc, trivial⟩

/-! ## 5. A whole run -/

/-- A confined search is confined from its start to its end, and a fault of it is ordinary. -/
theorem solve {c : Course σ ℝ n κ} {body : SearchM σ ℝ n κ Unit} {Q : Unit → κ → Prop}
    (hc : t.region.Confines c.ledger) (hI : I c.own) (h : Confined t I body Q) :
    t.region.Confines (c.solve t body).2.ledger ∧
      ∀ f, (c.solve t body).1 = .error f → f.IsOrdinary := by
  by_cases hphase : c.ledger.phase = .notStarted
  · have hrun := h { c with ledger := c.ledger.start n t.budget } ⟨hc, hI⟩
    obtain ⟨d, hd, hsolve⟩ | ⟨d, hd, hsolve⟩ | ⟨f, d, hd, hsolve⟩ := Course.solve_cases hphase hrun <;>
      rw [hsolve]
    · exact ⟨Region.confines_close hd.1, fun _ hf => nomatch hf⟩
    · exact ⟨Region.confines_close hd.1, fun _ hf => nomatch hf⟩
    · exact ⟨hd.1, fun g hg => Except.error.inj hg ▸ hd.2⟩
  · rw [Course.solve_of_started hphase]
    exact ⟨hc, fun f hf => Except.error.inj hf ▸ trivial⟩

end Confined

end BoxSearch
