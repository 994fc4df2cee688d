import BoxSearch.Population
import BoxSearch.Proofs.Search.Triple

/-!
# On what terms a search ends

A search counts its evaluations and its rounds, and its phase says why it is over.  The terms of a
search say how many evaluations it may have made at any moment, and how the phase and the two counts
go together at its end.  `Counted T P m Q` says that the step `m` starts under way with counts that
have `P`, and goes on under way with counts that have `Q`; where it halts instead because the search
is over, the search is over on the terms `T`.

Loops run on fuel.  A loop whose every pass evaluates something does not use up fuel before the budget.
-/

namespace BoxSearch

/-- On what terms a search ends. -/
structure Terms (α : Type) where
  -- How many evaluations there may be, at the end and at any moment before.
  admits : Nat → Prop
  -- How the phase, the evaluations and the rounds of a search go together when it is over.
  ends : Phase α → Nat → Nat → Prop
  -- A cost that is not finite may end the search at any moment.
  nonFinite : ∀ cost evaluation e r, ends (.nonFinite cost evaluation) e r

namespace Terms

variable {σ α κ : Type} {n : Nat}

/-- The search is under way, and its evaluations, its rounds and what it keeps have `P`. -/
structure Under (T : Terms α) (P : Nat → Nat → κ → Prop) (c : Course σ α n κ) : Prop where
  phase : c.ledger.phase = .running
  admitted : T.admits c.ledger.evaluations
  counts : P c.ledger.evaluations c.ledger.rounds c.own

/-- The search is over on the terms, once its end is entered. -/
structure Over (T : Terms α) (c : Course σ α n κ) : Prop where
  admitted : T.admits c.ledger.evaluations
  ends : T.ends c.ledger.close.phase c.ledger.evaluations c.ledger.rounds

/-- A search that is under way may be ended on the terms. -/
theorem Under.stopped {T : Terms α} {P : Nat → Nat → κ → Prop} {c : Course σ α n κ} (h : T.Under P c)
    {phase : Phase α} (hphase : phase.isOver = true)
    (hends : T.ends phase c.ledger.evaluations c.ledger.rounds) :
    T.Over { c with ledger := { c.ledger with phase } } := by
  have hclose : ({ c.ledger with phase } : Ledger α n).close.phase = phase := by
    unfold Account.close
    cases phase <;> first | exact absurd hphase Bool.false_ne_true | rfl
  constructor
  · exact h.admitted
  · rw [hclose]
    exact hends

/-- A search that is under way when it ends has spent its budget. -/
theorem Under.isOver {T : Terms α} {P : Nat → Nat → κ → Prop} {c : Course σ α n κ} (h : T.Under P c)
    (hends : T.ends .budgetSpent c.ledger.evaluations c.ledger.rounds) : T.Over c := by
  have hphase : c.ledger.close.phase = .budgetSpent := by
    unfold Account.close
    rw [h.phase]
    rfl
  constructor
  · exact h.admitted
  · rw [hphase]
    exact hends

/-- The end of a search adds nothing to its counts. -/
theorem Over.close {T : Terms α} {c : Course σ α n κ} (h : T.Over c) :
    T.admits c.close.ledger.evaluations ∧
      T.ends c.close.ledger.phase c.close.ledger.evaluations c.close.ledger.rounds := by
  have hcounts : c.ledger.close.evaluations = c.ledger.evaluations ∧
      c.ledger.close.rounds = c.ledger.rounds := by
    unfold Account.close
    cases c.ledger.phase <;> exact ⟨rfl, rfl⟩
  show T.admits c.ledger.close.evaluations ∧
    T.ends c.ledger.close.phase c.ledger.close.evaluations c.ledger.close.rounds
  rw [hcounts.1, hcounts.2]
  exact ⟨h.admitted, h.ends⟩

/-- What a step leaves that answers whether another step is possible. -/
def Onward (T : Terms α) (P : Nat → Nat → κ → Prop) : Bool → Course σ α n κ → Prop
  | true, c => T.Under P c
  | false, c => T.Over c

/-- A halt on the terms. A fault leaves the search unfinished. -/
def Halts (T : Terms α) : Halt α → Course σ α n κ → Prop
  | .ended, c => T.Over c
  | .fault _, c => T.admits c.ledger.evaluations

end Terms

/-- A step that counts on the terms `T`. -/
abbrev Counted {σ α κ β : Type} {n : Nat} (T : Terms α) (P : Nat → Nat → κ → Prop)
    (m : SearchM σ α n κ β) (Q : β → Nat → Nat → κ → Prop) : Prop :=
  SearchM.Triple (T.Under P) m (fun b => T.Under (Q b)) T.Halts

namespace Counted

variable {σ α κ β γ : Type} {n : Nat} {T : Terms α} {P S : Nat → Nat → κ → Prop}
  {Q U : β → Nat → Nat → κ → Prop} {R : γ → Nat → Nat → κ → Prop}

/-! ## 1. Putting steps together -/

theorem bind {m : SearchM σ α n κ β} {f : β → SearchM σ α n κ γ} (hm : Counted T P m Q)
    (hf : ∀ b, Counted T (Q b) (f b) R) : Counted T P (m >>= f) R :=
  SearchM.Triple.bind hm hf

theorem pure {b : β} (h : ∀ e r k, P e r k → Q b e r k) :
    Counted T P (pure b : SearchM σ α n κ β) Q :=
  SearchM.Triple.pure fun _ hc => ⟨hc.phase, hc.admitted, h _ _ _ hc.counts⟩

theorem ite {p : Prop} [Decidable p] {m m' : SearchM σ α n κ β} (h : p → Counted T P m Q)
    (h' : ¬p → Counted T P m' Q) : Counted T P (if p then m else m') Q :=
  SearchM.Triple.ite h h'

theorem fault {f : Fault α} : Counted T P (throw (.fault f) : SearchM σ α n κ β) Q :=
  SearchM.Triple.throw fun _ hc => hc.admitted

/-- More may be known before a step than it needs. -/
theorem pre {m : SearchM σ α n κ β} (h : Counted T S m Q) (hP : ∀ e r k, P e r k → S e r k) :
    Counted T P m Q :=
  fun c hc => h c ⟨hc.phase, hc.admitted, hP _ _ _ hc.counts⟩

/-- Less may be known after a step than it gives. -/
theorem post {m : SearchM σ α n κ β} (h : Counted T P m U)
    (hQ : ∀ b e r k, U b e r k → Q b e r k) : Counted T P m Q := by
  apply SearchM.Triple.weaken h _ fun _ _ hd => hd
  intro b d hd
  exact ⟨hd.phase, hd.admitted, hQ b _ _ _ hd.counts⟩

/-- A step that answers whether there is something left of the budget. -/
theorem onward {m : SearchM σ α n κ Bool} {Q : Bool → Nat → Nat → κ → Prop} (h : Counted T P m Q)
    (htrue : ∀ e r k, Q true e r k → S e r k)
    (hfalse : ∀ e r k, Q false e r k → T.admits e → T.ends .budgetSpent e r) :
    SearchM.Triple (T.Under P) m (T.Onward S) T.Halts := by
  apply SearchM.Triple.weaken h _ fun _ _ hd => hd
  intro b d hd
  cases b with
  | true => exact ⟨hd.phase, hd.admitted, htrue _ _ _ hd.counts⟩
  | false => exact hd.isOver (hfalse _ _ _ hd.counts hd.admitted)

/-- What is known of the counts whatever they are is known. -/
theorem assume {p : Prop} {m : SearchM σ α n κ β} (hp : ∀ e r k, P e r k → p)
    (h : p → Counted T P m Q) : Counted T P m Q :=
  fun c hc => h (hp _ _ _ hc.counts) c hc

/-- A search that ends with this step ends on the terms. -/
theorem finish {m : SearchM σ α n κ β} (h : Counted T P m Q)
    (hends : ∀ b e r k, Q b e r k → T.admits e → T.ends .budgetSpent e r) :
    SearchM.Triple (T.Under P) m (fun _ => T.Over) T.Halts := by
  apply SearchM.Triple.weaken h _ fun _ _ hd => hd
  intro b d hd
  exact hd.isOver (hends b _ _ _ hd.counts hd.admitted)

/-- The counts before a step are given names. -/
theorem named {m : SearchM σ α n κ β}
    (h : ∀ start number, Counted T (fun e r k => P e r k ∧ e = start ∧ r = number) m Q) :
    Counted T P m Q :=
  fun c hc => h c.ledger.evaluations c.ledger.rounds c ⟨hc.phase, hc.admitted, hc.counts, rfl, rfl⟩

/-! ## 2. The kept state and the account -/

theorem own_bind {f : κ → SearchM σ α n κ γ}
    (hf : ∀ k, Counted T (fun e r k' => P e r k' ∧ k' = k) (f k) R) :
    Counted T P (SearchM.own >>= f) R :=
  fun c hc => hf c.own c ⟨hc.phase, hc.admitted, hc.counts, rfl⟩

theorem modifyOwn {f : κ → κ} (h : ∀ e r k, P e r k → S e r (f k)) :
    Counted T P (SearchM.modifyOwn f : SearchM σ α n κ Unit) fun _ => S :=
  SearchM.Triple.modifyOwn fun _ hc => ⟨hc.phase, hc.admitted, h _ _ _ hc.counts⟩

/-- What is known of the counts alone does not depend on what is kept. -/
theorem modifyOwn_of_counts {C : Nat → Nat → Prop} (f : κ → κ) :
    Counted T (fun e r _ => C e r) (SearchM.modifyOwn f : SearchM σ α n κ Unit)
      fun _ e r _ => C e r :=
  .modifyOwn fun _ _ _ h => h

theorem setOwn {k : κ} (h : ∀ e r k', P e r k' → S e r k) :
    Counted T P (SearchM.setOwn k : SearchM σ α n κ Unit) fun _ => S :=
  SearchM.Triple.setOwn fun _ hc => ⟨hc.phase, hc.admitted, h _ _ _ hc.counts⟩

theorem ledger : Counted T P (SearchM.ledger : SearchM σ α n κ (Ledger α n)) fun _ => P :=
  SearchM.Triple.ledger fun _ hc => hc

/-- The account that is read is that of a search under way. -/
theorem ledger_bind {f : Ledger α n → SearchM σ α n κ γ}
    (hf : ∀ L, L.phase = .running → Counted T P (f L) R) : Counted T P (SearchM.ledger >>= f) R :=
  fun c hc => hf c.ledger hc.phase c hc

theorem report (e : Event α) : Counted T P (SearchM.report e : SearchM σ α n κ Unit) fun _ => P :=
  SearchM.Triple.modifyLedger fun _ hc => ⟨hc.phase, hc.admitted, hc.counts⟩

theorem markRunning : Counted T P (SearchM.markRunning : SearchM σ α n κ Unit) fun _ => P := by
  -- A search that is under way is marked already.
  apply SearchM.Triple.modifyLedger
  intro c hc
  have hmark : c.ledger.markRunning = c.ledger := by
    unfold Account.markRunning
    rw [hc.phase]
  rw [hmark]
  exact hc

theorem endRound (h : ∀ e r k, P e r k → S e (r + 1) k) :
    Counted T P (SearchM.endRound : SearchM σ α n κ Unit) fun _ => S :=
  SearchM.Triple.modifyLedger fun _ hc => ⟨hc.phase, hc.admitted, h _ _ _ hc.counts⟩

/-! ## 3. Draws and values -/

theorem draw (m : StateM σ β) : Counted T P (SearchM.draw m : SearchM σ α n κ β) fun _ => P :=
  fun _ hc => ⟨hc.phase, hc.admitted, hc.counts⟩

theorem drawOr_bind_of {φ : β → Prop} {m : ChoiceM σ α β} {f : β → SearchM σ α n κ γ}
    (hm : Meets φ (fun _ => True) m) (hf : ∀ b, φ b → Counted T P (f b) R) :
    Counted T P (SearchM.drawOr m >>= f) R :=
  SearchM.Triple.drawOr_bind hm (fun _ _ hc => ⟨hc.phase, hc.admitted, hc.counts⟩) hf
    fun _ _ _ _ hc => hc.admitted

theorem drawOr (m : ChoiceM σ α β) :
    Counted T P (SearchM.drawOr m : SearchM σ α n κ β) fun _ => P :=
  SearchM.Triple.drawOr (.attained m) (fun _ _ _ hc _ => ⟨hc.phase, hc.admitted, hc.counts⟩)
    fun _ _ _ hc _ => hc.admitted

theorem use (b : Usable α β) : Counted T P (SearchM.use b : SearchM σ α n κ β) fun _ => P :=
  SearchM.Triple.use (fun _ _ _ hc => hc) fun _ _ _ hc => hc.admitted

theorem require (b : Bool) (f : Fault α) :
    Counted T P (SearchM.require b f : SearchM σ α n κ Unit) fun _ => P :=
  .ite (fun _ => .pure fun _ _ _ hc => hc) fun _ => fault

theorem requireFinite (k : Cost α) :
    Counted T P (SearchM.requireFinite k : SearchM σ α n κ α) fun _ => P :=
  SearchM.Triple.requireFinite (fun _ _ _ hc => hc) fun _ hc _ =>
    ⟨hc.admitted, T.nonFinite _ _ _ _⟩

variable [Scalar α] {t : Task α n}

/-! ## 4. The budget -/

theorem withinBudget : Counted T P (SearchM.withinBudget t : SearchM σ α n κ Bool)
    fun b e r k => b = decide (e < t.budget) ∧ P e r k :=
  SearchM.Triple.withinBudget fun _ hc => ⟨hc.phase, hc.admitted, rfl, hc.counts⟩

/-- A step that goes on as the budget allows. -/
theorem withinBudget_bind {f : Bool → SearchM σ α n κ γ}
    (hin : Counted T (fun e r k => P e r k ∧ e < t.budget) (f true) R)
    (hout : Counted T (fun e r k => P e r k ∧ t.budget ≤ e) (f false) R) :
    Counted T P (SearchM.withinBudget t >>= f) R := by
  apply Counted.bind withinBudget
  intro b
  cases b with
  | true => exact hin.pre fun _ _ _ h => ⟨h.2, of_decide_eq_true h.1.symm⟩
  | false =>
    exact hout.pre fun _ _ _ h => ⟨h.2, Nat.le_of_not_lt (of_decide_eq_false h.1.symm)⟩

theorem requireBudget (h : ∀ e r k, P e r k → T.admits e → t.budget ≤ e → T.ends .budgetSpent e r) :
    Counted T P (SearchM.requireBudget t : SearchM σ α n κ Unit)
      fun _ e r k => P e r k ∧ e < t.budget := by
  apply SearchM.Triple.requireBudget
  · intro c hc hlt
    exact ⟨hc.phase, hc.admitted, hc.counts, hlt⟩
  · intro c hc hge
    exact hc.isOver (h _ _ _ hc.counts hc.admitted (Nat.le_of_not_lt hge))

omit [Scalar α] in
/-- A phase that says why the search is over ends it. -/
theorem stop {phase : Phase α} (hphase : phase.isOver = true)
    (h : ∀ e r k, P e r k → T.admits e → T.ends phase e r) :
    SearchM.Triple (T.Under P) (SearchM.stop phase : SearchM σ α n κ Unit) (fun _ => T.Over)
      T.Halts := by
  apply SearchM.Triple.modifyLedger
  intro c hc
  exact hc.stopped hphase (h _ _ _ hc.counts hc.admitted)

theorem stopWithin {phase : Phase α} (hphase : phase.isOver = true)
    (h : ∀ e r k, P e r k → e < t.budget → T.ends phase e r)
    (hspent : ∀ e r k, P e r k → T.admits e → t.budget ≤ e → T.ends .budgetSpent e r) :
    SearchM.Triple (T.Under P) (SearchM.stopWithin t phase : SearchM σ α n κ Unit)
      (fun _ => T.Over) T.Halts := by
  apply SearchM.Triple.bind withinBudget
  intro b
  cases b with
  | true =>
    exact stop hphase fun e r k hc _ => h e r k hc.2 (of_decide_eq_true hc.1.symm)
  | false =>
    apply SearchM.Triple.pure
    intro c hc
    have hge := Nat.le_of_not_lt (of_decide_eq_false hc.counts.1.symm)
    exact hc.isOver (hspent _ _ _ hc.counts.2 hc.admitted hge)

/-! ## 5. Evaluations -/

theorem evaluate {x : Point α n} (hadmits : ∀ e r k, P e r k → T.admits (e + 1))
    (h : ∀ e r k, P e r k → S (e + 1) r k) :
    Counted T P (SearchM.evaluate t x : SearchM σ α n κ (Cost α)) fun _ => S := by
  apply SearchM.Triple.evaluate
  · exact fun _ _ _ hc => hc.admitted
  · exact fun _ _ hc _ => hc.admitted
  · exact fun _ _ hc _ => ⟨hc.phase, hadmits _ _ _ hc.counts, h _ _ _ hc.counts⟩

theorem trial {x : Point α n} (hadmits : ∀ e r k, P e r k → T.admits (e + 1))
    (h : ∀ e r k, P e r k → S (e + 1) r k) :
    Counted T P (SearchM.trial t x : SearchM σ α n κ α) fun _ => S :=
  .bind (evaluate hadmits h) fun k => requireFinite k

/-- Points are evaluated one after the other, and `I` holds before each of them. -/
theorem evaluateAll {I : Nat → Nat → κ → Prop} {keep : Sample α n → κ → κ} {total : Nat}
    (hadmits : ∀ e, e < t.budget → T.admits (e + 1))
    (hend : ∀ e r k, I e r k → T.admits e → e < total → t.budget ≤ e → T.ends .budgetSpent e r)
    (hstep : ∀ s e r k, I e r k → I (e + 1) r (keep s k)) (xs : List (Point α n)) :
    Counted T (fun e r k => I e r k ∧ e + xs.length = total)
      (Population.evaluateAll t keep xs : SearchM σ α n κ Unit)
      fun _ e r k => I e r k ∧ e = total := by
  induction xs with
  | nil => exact .pure fun _ _ _ h => h
  | cons x xs ih =>
    have hlength : (x :: xs).length = xs.length + 1 := List.length_cons
    apply Counted.bind (.requireBudget fun e r k h hadmitted => ?_)
    · intro _
      apply Counted.bind (.evaluate (fun e r k h => hadmits e h.2)
        (S := fun e r k => ∀ s, I e r (keep s k) ∧ e + xs.length = total) ?_)
      · intro cost
        apply Counted.bind (.modifyOwn (S := fun e r k => I e r k ∧ e + xs.length = total)
          fun e r k h => h ⟨x, cost⟩)
        intro _
        exact .bind (requireFinite cost) fun _ => ih
      · rintro e r k ⟨⟨hI, htotal⟩, -⟩ s
        exact ⟨hstep s e r k hI, by omega⟩
    · exact hend e r k h.1 hadmitted (by omega)

/-! ## 6. Loops -/

/-- Rounds that evaluate something each do not run out of fuel before the budget is spent. -/
theorem roundsWithin {round : SearchM σ α n κ Unit}
    (h : ∀ start, start < t.budget →
      Counted T (fun e r k => P e r k ∧ e = start) round fun _ e r k => P e r k ∧ start < e)
    (fuel : Nat) :
    Counted T (fun e r k => P e r k ∧ t.budget ≤ e + fuel) (SearchM.roundsWithin t round fuel)
      fun _ e r k => P e r k ∧ t.budget ≤ e := by
  induction fuel with
  | zero => exact .pure fun _ _ _ h => h
  | succ fuel ih =>
    apply Counted.withinBudget_bind
    · apply named
      intro start _
      apply assume (p := start < t.budget ∧ t.budget ≤ start + (fuel + 1))
      · rintro e r k ⟨⟨⟨-, hfuel⟩, hlt⟩, rfl, -⟩
        exact ⟨hlt, hfuel⟩
      · rintro ⟨hlt, hfuel⟩
        have hround := (h start hlt).post (Q := fun _ e r k => P e r k ∧ t.budget ≤ e + fuel)
          fun _ e r k hc => ⟨hc.1, by omega⟩
        exact .bind (hround.pre fun e r k hc => ⟨hc.1.1.1, hc.2.1⟩) fun _ => ih
    · exact .pure fun _ _ _ h => ⟨h.1.1, h.2⟩

/-- Rounds are carried out until there are `total` of them, unless the budget is spent before; `I j`
holds when `j` of them are done. -/
theorem roundsWithin_times {I : Nat → Nat → Nat → κ → Prop} {round : SearchM σ α n κ Unit}
    {total : Nat}
    (h : ∀ j < total, Counted T (fun e r k => I j e r k ∧ e < t.budget) round fun _ => I (j + 1))
    (fuel start : Nat) (htotal : start + fuel = total) :
    Counted T (I start) (SearchM.roundsWithin t round fuel)
      fun _ e r k => ∃ j ≤ total, I j e r k ∧ (e < t.budget → j = total) := by
  induction fuel generalizing start with
  | zero => exact .pure fun _ _ _ hI => ⟨start, by omega, hI, fun _ => htotal⟩
  | succ fuel ih =>
    apply Counted.withinBudget_bind
    · apply Counted.bind (h start (by omega))
      intro _
      exact ih (start + 1) (by omega)
    · apply Counted.pure
      rintro e r k ⟨hI, hspent⟩
      exact ⟨start, by omega, hI, fun hlt => absurd hlt (Nat.not_lt.mpr hspent)⟩

/-- A repeated step that evaluates something is not possible any more before the fuel runs out. -/
theorem repeatWhile {step : SearchM σ α n κ Bool}
    (h : ∀ start, SearchM.Triple (T.Under fun e r k => P e r k ∧ e = start) step
      (T.Onward fun e r k => P e r k ∧ start < e ∧ e < t.budget) T.Halts)
    (fuel : Nat) :
    SearchM.Triple (T.Under fun e r k => P e r k ∧ t.budget < e + fuel ∧ 0 < fuel)
      (SearchM.repeatWhile step fuel) (fun _ => T.Over) T.Halts := by
  induction fuel with
  | zero => exact fun c hc => absurd hc.counts.2.2 (Nat.lt_irrefl 0)
  | succ fuel ih =>
    intro c hc
    have hstep := (h c.ledger.evaluations).bind (R := fun _ => T.Over)
      (f := fun b => if b then SearchM.repeatWhile step fuel else Pure.pure ()) fun b => ?_
    · exact hstep c ⟨hc.phase, hc.admitted, hc.counts.1, rfl⟩
    · cases b with
      | true =>
        intro d hd
        have hfuel := hc.counts.2.1
        obtain ⟨hP, hmore, hlt⟩ := hd.counts
        exact ih d ⟨hd.phase, hd.admitted, hP, by omega, by omega⟩
      | false => exact .pure fun _ hd => hd

end Counted

/-! ## 7. Whole runs -/

/-- A search that counts on its terms keeps to them, and one that returns is over on them. -/
theorem Terms.solve {σ α κ : Type} [Scalar α] {n : Nat} {T : Terms α} {t : Task α n}
    {body : SearchM σ α n κ Unit} {P : Nat → Nat → κ → Prop}
    (h : SearchM.Triple (T.Under P) body (fun _ => T.Over) T.Halts) {c : Course σ α n κ}
    (hphase : c.ledger.phase = .notStarted) (hadmitted : T.admits c.ledger.evaluations)
    (hP : P c.ledger.evaluations c.ledger.rounds c.own) :
    T.admits (c.solve t body).2.ledger.evaluations ∧
      ((c.solve t body).1 = .ok () →
        T.ends (c.solve t body).2.ledger.phase (c.solve t body).2.ledger.evaluations
          (c.solve t body).2.ledger.rounds) := by
  have hrun := h { c with ledger := c.ledger.start n t.budget } ⟨rfl, hadmitted, hP⟩
  obtain ⟨d, hd, hsolve⟩ | ⟨d, hd, hsolve⟩ | ⟨f, d, hd, hsolve⟩ := Course.solve_cases hphase hrun <;>
    rw [hsolve]
  · exact ⟨hd.close.1, fun _ => hd.close.2⟩
  · exact ⟨hd.close.1, fun _ => hd.close.2⟩
  · exact ⟨hd, fun hok => nomatch hok⟩

end BoxSearch
