import Mathlib
import BoxSearch.Population
import BoxSearch.Report
import BoxSearch.Proofs.Account.Best
import BoxSearch.Proofs.Search.Triple

/-!
# How an account goes on

While a search goes on, its account changes in two ways: a finite answer of the objective is entered,
or remarks aside are made on how the search stands.  A call that fails and an answer that is not finite
are the last to be entered.  `Orderly t m` says so of a step of a search: if it answers, the account
went on, and if it halts, the account ended like that.
-/

namespace BoxSearch

namespace Account

variable {α P : Type} [Scalar α]

/-- From the account `A` a search went on to another one: finite answers were entered, and no remark
brought up a cost that is not finite. -/
inductive GoesOn (f : P → ℕ → Except Failure (Cost α)) (A : Account α P) : Account α P → Prop
  | refl : GoesOn f A A
  | enter {B : Account α P} {x : P} {v : α} (h : GoesOn f A B)
      (hx : f x (B.calls + 1) = .ok (.finite v)) : GoesOn f A (B.enter x (.finite v))
  | aside {B : Account α P} (h : GoesOn f A B) (rounds : ℕ) {phase : Phase α}
      (hphase : phase.status = .nonFinite → phase = B.phase) (events : List (Event α)) :
      GoesOn f A (B.aside rounds phase events)

/-- From the account `A` a search went on and then ended: of itself, with a call that failed, or with
an answer that is not finite. -/
inductive Ends (f : P → ℕ → Except Failure (Cost α)) (A : Account α P) :
    Halt α → Account α P → Prop
  | ofItself {B : Account α P} (h : GoesOn f A B) (e : Halt α) : Ends f A e B
  | failed {B : Account α P} {x : P} {failure : Failure} (h : GoesOn f A B)
      (hx : f x (B.calls + 1) = .error failure) :
      Ends f A (.fault (.failed failure)) (B.enterFailure x)
  | nonFinite {B : Account α P} {x : P} {c : Cost α} (h : GoesOn f A B)
      (hx : f x (B.calls + 1) = .ok c) (hc : ¬c.IsFinite) :
      Ends f A .ended ((B.enter x c).stopNonFinite c)

/-! ## 1. Balance -/

section

variable {f : P → ℕ → Except Failure (Cost α)} {A B : Account α P} [Scalar.Ordered α]

theorem GoesOn.balanced (hf : ∀ x k c, f x k = .ok c → c.IsProper) (h : GoesOn f A B)
    (hA : A.Balanced f) : B.Balanced f := by
  induction h with
  | refl => exact hA
  | enter _ hx ih => exact ih.enter hf hx
  | aside _ rounds _ events ih => exact ih.aside rounds _ events

theorem Ends.balanced (hf : ∀ x k c, f x k = .ok c → c.IsProper) {e : Halt α} (h : Ends f A e B)
    (hA : A.Balanced f) : B.Balanced f := by
  cases h with
  | ofItself h => exact h.balanced hf hA
  | failed h hx => exact (h.balanced hf hA).enterFailure hx
  | nonFinite h hx => exact ((h.balanced hf hA).enter hf hx).aside _ _ _

/-- The best cost never increases. -/
theorem GoesOn.best_not_lt (h : GoesOn f A B) {b : Best α P} (hb : A.best = some b) :
    ∃ b', B.best = some b' ∧ ¬b.cost < b'.cost := by
  induction h with
  | refl => exact ⟨b, hb, Scalar.Ordered.lt_irrefl _⟩
  | @enter B x v _ _ ih =>
    obtain ⟨b', hb', hle⟩ := ih
    have hbest : (B.enter x (.finite v)).best = if v < b'.cost then some ⟨x, v⟩ else some b' := by
      show improve B.best x (.finite v) = _
      rw [hb']
      rfl
    rw [hbest]
    split
    · exact ⟨⟨x, v⟩, rfl, fun hlt => hle (Scalar.Ordered.lt_trans hlt ‹_›)⟩
    · exact ⟨b', rfl, hle⟩
  | aside _ _ _ _ ih => exact ih

end

end Account

open Account SearchM

namespace Course

variable {σ α κ : Type} [Scalar α] {n : ℕ}

/-- The course of a new search, right after its start. -/
def started (t : Task α n) (draws : σ) (own : κ) : Course σ α n κ :=
  ⟨({} : Ledger α n).start n t.budget, draws, own⟩

/-- A new search is run from its start. -/
theorem solve_new (t : Task α n) (body : SearchM σ α n κ Unit) (draws : σ) (own : κ) :
    Course.solve t body ⟨{}, draws, own⟩ = match body.run (started t draws own) with
      | (.ok _, d) => (.ok (), d.close)
      | (.error .ended, d) => (.ok (), d.close)
      | (.error (.fault f), d) => (.error f, d) :=
  solve_of_notStarted rfl

theorem balanced_started (t : Task α n) (draws : σ) (own : κ) :
    (started t draws own).ledger.Balanced t.objective :=
  Balanced.empty.aside _ _ _

end Course

/-! ## 2. Orderly steps -/

/-- A step after which the account went on, or ended as the halt says. -/
def Orderly {σ α κ β : Type} [Scalar α] {n : ℕ} (t : Task α n) (m : SearchM σ α n κ β) : Prop :=
  ∀ A : Ledger α n, Triple (fun c => GoesOn t.objective A c.ledger) m
    (fun _ c => GoesOn t.objective A c.ledger) fun e c => Ends t.objective A e c.ledger

namespace Orderly

variable {σ α κ β γ : Type} [Scalar α] {n : ℕ} {t : Task α n}

theorem bind {m : SearchM σ α n κ β} {f : β → SearchM σ α n κ γ} (hm : Orderly t m)
    (hf : ∀ b, Orderly t (f b)) : Orderly t (m >>= f) :=
  fun A => (hm A).bind fun b => hf b A

theorem pure {b : β} : Orderly t (pure b : SearchM σ α n κ β) := fun _ => .pure fun _ h => h

theorem throw {e : Halt α} : Orderly t (throw e : SearchM σ α n κ β) :=
  fun _ => .throw fun _ h => .ofItself h e

theorem ite {p : Prop} [Decidable p] {m m' : SearchM σ α n κ β} (h : Orderly t m)
    (h' : Orderly t m') : Orderly t (if p then m else m') :=
  fun A => .ite (fun _ => h A) fun _ => h' A

theorem repeatWhile {step : SearchM σ α n κ Bool} (h : Orderly t step) (fuel : ℕ) :
    Orderly t (SearchM.repeatWhile step fuel) := fun A => .repeatWhile (h A) fuel

theorem roundsWithin {round : SearchM σ α n κ Unit} (h : Orderly t round) (fuel : ℕ) :
    Orderly t (SearchM.roundsWithin t round fuel) := fun A => .roundsWithin (h A) fuel

theorem own : Orderly t (SearchM.own : SearchM σ α n κ κ) := fun _ => .own fun _ h => h

theorem modifyOwn {f : κ → κ} : Orderly t (SearchM.modifyOwn f : SearchM σ α n κ Unit) :=
  fun _ => .modifyOwn fun _ h => h

theorem setOwn {k : κ} : Orderly t (SearchM.setOwn k : SearchM σ α n κ Unit) :=
  fun _ => .setOwn fun _ h => h

theorem ledger : Orderly t (SearchM.ledger : SearchM σ α n κ (Ledger α n)) :=
  fun _ => .ledger fun _ h => h

theorem report (e : Event α) : Orderly t (SearchM.report e : SearchM σ α n κ Unit) :=
  fun _ => .modifyLedger fun _ h => h.aside _ (fun _ => rfl) _

theorem reportIf (b : Bool) (e : Event α) :
    Orderly t (SearchM.reportIf b e : SearchM σ α n κ Unit) := .ite (report e) pure

theorem endRound : Orderly t (SearchM.endRound : SearchM σ α n κ Unit) :=
  fun _ => .modifyLedger fun _ h => h.aside _ (fun _ => rfl) _

theorem stop {phase : Phase α} (hphase : phase.status ≠ .nonFinite) :
    Orderly t (SearchM.stop phase : SearchM σ α n κ Unit) :=
  fun _ => .modifyLedger fun _ h => h.aside _ (fun hnonFinite => absurd hnonFinite hphase) _

theorem markRunning : Orderly t (SearchM.markRunning : SearchM σ α n κ Unit) := by
  intro A
  apply Triple.modifyLedger
  intro c h
  have hrunning : (Phase.running : Phase α).status ≠ .nonFinite := nofun
  unfold Account.markRunning
  cases c.ledger.phase with
  | notStarted => exact h.aside _ (fun hnonFinite => absurd hnonFinite hrunning) _
  | _ => exact h

theorem draw (m : StateM σ β) : Orderly t (SearchM.draw m : SearchM σ α n κ β) :=
  fun _ _ h => h

theorem use (b : Usable α β) : Orderly t (SearchM.use b : SearchM σ α n κ β) := by
  cases b with
  | ok v => exact pure
  | error f => exact throw

theorem drawOr (m : ChoiceM σ α β) : Orderly t (SearchM.drawOr m : SearchM σ α n κ β) :=
  .bind (draw _) fun b => use b

theorem require (b : Bool) (f : Fault α) :
    Orderly t (SearchM.require b f : SearchM σ α n κ Unit) := .ite pure throw

theorem withinBudget : Orderly t (SearchM.withinBudget t : SearchM σ α n κ Bool) :=
  .bind ledger fun _ => pure

theorem requireBudget : Orderly t (SearchM.requireBudget t : SearchM σ α n κ Unit) :=
  .bind withinBudget fun _ => .ite pure throw

theorem stopWithin {phase : Phase α} (hphase : phase.status ≠ .nonFinite) :
    Orderly t (SearchM.stopWithin t phase : SearchM σ α n κ Unit) :=
  .bind withinBudget fun _ => .ite (stop hphase) pure

/-! ## 3. Evaluations -/

/-- The last that happened to the account is that the answer `c` for `x` was entered. -/
def Entered (t : Task α n) (A : Ledger α n) (x : Point α n) (k : Cost α) (c : Course σ α n κ) :
    Prop :=
  ∃ B : Ledger α n, GoesOn t.objective A B ∧ t.objective x (B.calls + 1) = .ok k ∧
    c.ledger = B.enter x k

theorem evaluate_enters (A : Ledger α n) (x : Point α n) :
    Triple (fun c => GoesOn t.objective A c.ledger)
      (SearchM.evaluate t x : SearchM σ α n κ (Cost α)) (Entered t A x)
      fun e c => Ends t.objective A e c.ledger := by
  apply Triple.evaluate
  · intro f _ c h
    exact .ofItself h _
  · intro failure c h hx
    exact .failed h hx
  · intro k c h hx
    exact ⟨c.ledger, h, hx, rfl⟩

/-- The search goes on only if the last answer is finite. -/
theorem requireFinite_entered (A : Ledger α n) (x : Point α n) (k : Cost α) :
    Triple (Entered t A x k) (SearchM.requireFinite k : SearchM σ α n κ α)
      (fun _ c => GoesOn t.objective A c.ledger) fun e c => Ends t.objective A e c.ledger := by
  apply Triple.requireFinite
  · rintro v rfl c ⟨B, hB, hx, hc⟩
    rw [hc]
    exact hB.enter hx
  · rintro c ⟨B, hB, hx, hc⟩ hk
    rw [hc]
    exact .nonFinite hB hx fun ⟨v, hv⟩ => hk v hv

theorem trial (x : Point α n) : Orderly t (SearchM.trial t x : SearchM σ α n κ α) :=
  fun A => (evaluate_enters A x).bind (requireFinite_entered A x)

/-- An answer may be kept before it is looked at. -/
theorem keep_bind (x : Point α n) (keep : Cost α → κ → κ) {f : α → SearchM σ α n κ γ}
    (hf : ∀ v, Orderly t (f v)) :
    Orderly t (do
      let c ← SearchM.evaluate t x
      SearchM.modifyOwn (keep c)
      let v ← SearchM.requireFinite c
      f v) := by
  intro A
  apply (evaluate_enters A x).bind
  intro k
  apply Triple.bind (Q := fun _ => Entered t A x k) (.modifyOwn fun _ h => h)
  intro _
  exact (requireFinite_entered A x k).bind fun v => hf v A

theorem evaluateAll (keep : Sample α n → κ → κ) (xs : List (Point α n)) :
    Orderly t (Population.evaluateAll t keep xs : SearchM σ α n κ Unit) := by
  induction xs with
  | nil => exact pure
  | cons x xs ih => exact .bind requireBudget fun _ => keep_bind x (fun c => keep ⟨x, c⟩) fun _ => ih

end Orderly

end BoxSearch
