import BoxSearch.Population
import BoxSearch.Proofs.Order.Rescale
import BoxSearch.Proofs.Search.Triple

/-!
# Two runs side by side

`Mirrors g S m m' Q` compares a step with another one that is made on the rescaled account and the
same draws.  If `S` relates what the two methods keep, then either both steps answer, with related
answers and on accounts that are rescaled again, or both halt for the same reason.  After a halt only
the accounts are compared: a cost that ended the search may stand in what a method keeps, and its
place among the others is not known.
-/

namespace BoxSearch

/-- The task with every answer of the objective rescaled. -/
def Task.rescale {α : Type} [Scalar α] {n : Nat} (g : Cost α → Cost α) (t : Task α n) : Task α n :=
  { t with objective := fun x k => (t.objective x k).map g }

namespace Sample

variable {α : Type} {n : Nat}

def rescale (g : Cost α → Cost α) (s : Sample α n) : Sample α n := { s with cost := g s.cost }

/-- Samples of finite cost, next to the rescaled ones. -/
abbrev Alike (g : Cost α → Cost α) : List (Sample α n) → List (Sample α n) → Prop :=
  Cost.Alike (·.cost) (rescale g)

theorem rescale_finite [LT α] {g : Cost α → Cost α} (hg : Cost.KeepsOrder g) (x : Point α n)
    (v : α) : (⟨x, .finite v⟩ : Sample α n).rescale g = ⟨x, .finite (Cost.onValue g v)⟩ :=
  congrArg (Sample.mk x) (hg.apply_finite v)

theorem points_rescale (g : Cost α → Cost α) (samples : List (Sample α n)) :
    (samples.map (rescale g)).map (·.point) = samples.map (·.point) :=
  List.map_map

end Sample

namespace SearchM

variable {σ α κ β β' γ γ' : Type} {n : Nat}

/-- The outcomes of two steps, the second one on a rescaled account. -/
def Mirrored (g : Cost α → Cost α) (Q : β → β' → κ → κ → Prop) :
    Except (Halt α) β × Course σ α n κ → Except (Halt α) β' × Course σ α n κ → Prop
  | (.ok b, c), (.ok b', c') =>
    c'.ledger = c.ledger.rescale g ∧ c'.draws = c.draws ∧ Q b b' c.own c'.own
  | (.error e, c), (.error e', c') => e' = e ∧ c'.ledger = c.ledger.rescale g
  | _, _ => False

/-- The second step, on a rescaled account, does what the first one does. -/
def Mirrors (g : Cost α → Cost α) (S : κ → κ → Prop) (m : SearchM σ α n κ β)
    (m' : SearchM σ α n κ β') (Q : β → β' → κ → κ → Prop) : Prop :=
  ∀ L draws k k', S k k' → Mirrored g Q (m.run ⟨L, draws, k⟩) (m'.run ⟨L.rescale g, draws, k'⟩)

namespace Mirrors

variable {g : Cost α → Cost α} {S S' : κ → κ → Prop} {Q : β → β' → κ → κ → Prop}
  {R : γ → γ' → κ → κ → Prop}

/-! ## 1. Putting steps together -/

theorem bind {m : SearchM σ α n κ β} {m' : SearchM σ α n κ β'} {f : β → SearchM σ α n κ γ}
    {f' : β' → SearchM σ α n κ γ'} (hm : Mirrors g S m m' Q)
    (hf : ∀ b b', Mirrors g (Q b b') (f b) (f' b') R) : Mirrors g S (m >>= f) (m' >>= f') R := by
  intro L draws k k' hk
  have h := hm L draws k k' hk
  rw [run_bind, run_bind]
  rcases hr : m.run ⟨L, draws, k⟩ with ⟨e | b, c⟩ <;>
    rcases hr' : m'.run ⟨L.rescale g, draws, k'⟩ with ⟨e' | b', ⟨L', draws', own'⟩⟩ <;>
    rw [hr, hr'] at h
  · exact h
  · exact False.elim h
  · exact False.elim h
  · obtain ⟨rfl, rfl, hQ⟩ := h
    exact hf b b' c.ledger c.draws c.own own' hQ

/-- Steps with the same answer go on together. -/
theorem bind_same {m m' : SearchM σ α n κ β} {f : β → SearchM σ α n κ γ}
    {f' : β → SearchM σ α n κ γ'} (hm : Mirrors g S m m' fun b b' k k' => b' = b ∧ S' k k')
    (hf : ∀ b, Mirrors g S' (f b) (f' b) R) : Mirrors g S (m >>= f) (m' >>= f') R := by
  apply hm.bind
  intro b b' L draws k k' hk
  obtain ⟨rfl, hk⟩ := hk
  exact hf b' L draws k k' hk

theorem seq {m m' : SearchM σ α n κ Unit} {f : Unit → SearchM σ α n κ γ}
    {f' : Unit → SearchM σ α n κ γ'} (hm : Mirrors g S m m' fun _ _ => S')
    (hf : Mirrors g S' (f ()) (f' ()) R) : Mirrors g S (m >>= f) (m' >>= f') R :=
  hm.bind fun _ _ => hf

/-- A step that is compared under a fact which the kept states imply. -/
theorem assume {p : Prop} {m : SearchM σ α n κ β} {m' : SearchM σ α n κ β'}
    (hp : ∀ k k', S k k' → p) (h : p → Mirrors g S m m' Q) : Mirrors g S m m' Q :=
  fun L draws k k' hk => h (hp k k' hk) L draws k k' hk

theorem pure {b : β} {b' : β'} (h : ∀ k k', S k k' → Q b b' k k') :
    Mirrors g S (pure b : SearchM σ α n κ β) (pure b' : SearchM σ α n κ β') Q :=
  fun _ _ k k' hk => ⟨rfl, rfl, h k k' hk⟩

theorem throw (e : Halt α) :
    Mirrors g S (throw e : SearchM σ α n κ β) (throw e : SearchM σ α n κ β') Q :=
  fun _ _ _ _ _ => ⟨rfl, rfl⟩

theorem ite {p p' : Prop} [Decidable p] [Decidable p'] {m₁ m₂ : SearchM σ α n κ β}
    {m₁' m₂' : SearchM σ α n κ β'} (hp : p' ↔ p) (h₁ : Mirrors g S m₁ m₁' Q)
    (h₂ : Mirrors g S m₂ m₂' Q) :
    Mirrors g S (if p then m₁ else m₂) (if p' then m₁' else m₂') Q := by
  by_cases h : p
  · rw [if_pos h, if_pos (hp.mpr h)]
    exact h₁
  · rw [if_neg h, if_neg (mt hp.mp h)]
    exact h₂

theorem repeatWhile {step step' : SearchM σ α n κ Bool}
    (h : Mirrors g S step step' fun b b' k k' => b' = b ∧ S k k') (fuel : Nat) :
    Mirrors g S (SearchM.repeatWhile step fuel) (SearchM.repeatWhile step' fuel)
      fun _ _ => S := by
  induction fuel with
  | zero => exact pure fun _ _ hk => hk
  | succ fuel ih =>
    apply bind_same h
    intro b
    exact ite Iff.rfl ih (pure fun _ _ hk => hk)

/-! ## 2. The kept state -/

theorem own_bind {f : κ → SearchM σ α n κ γ} {f' : κ → SearchM σ α n κ γ'}
    (hf : ∀ k k', S k k' → Mirrors g S (f k) (f' k') R) :
    Mirrors g S (SearchM.own >>= f) (SearchM.own >>= f') R :=
  fun L draws k k' hk => hf k k' hk L draws k k' hk

theorem modifyOwn {f f' : κ → κ} (h : ∀ k k', S k k' → S' (f k) (f' k')) :
    Mirrors g S (SearchM.modifyOwn f : SearchM σ α n κ Unit) (SearchM.modifyOwn f')
      fun _ _ => S' :=
  fun _ _ k k' hk => ⟨rfl, rfl, h k k' hk⟩

theorem setOwn {k k' : κ} (h : S' k k') :
    Mirrors g S (SearchM.setOwn k : SearchM σ α n κ Unit) (SearchM.setOwn k') fun _ _ => S' :=
  fun _ _ _ _ _ => ⟨rfl, rfl, h⟩

/-! ## 3. The account -/

theorem ledger_bind {f : Ledger α n → SearchM σ α n κ γ} {f' : Ledger α n → SearchM σ α n κ γ'}
    (hf : ∀ L, Mirrors g S (f L) (f' (L.rescale g)) R) :
    Mirrors g S (SearchM.ledger >>= f) (SearchM.ledger >>= f') R :=
  fun L draws k k' hk => hf L L draws k k' hk

theorem modifyLedger {f f' : Ledger α n → Ledger α n}
    (h : ∀ L, f' (L.rescale g) = (f L).rescale g) :
    Mirrors g S (SearchM.modifyLedger f : SearchM σ α n κ Unit) (SearchM.modifyLedger f')
      fun _ _ => S :=
  fun L _ _ _ hk => ⟨h L, rfl, hk⟩

theorem report {e e' : Event α} (h : e' = e.rescale g) :
    Mirrors g S (SearchM.report e : SearchM σ α n κ Unit) (SearchM.report e') fun _ _ => S := by
  apply modifyLedger
  intro L
  rw [h, Account.rescale_report]

theorem stop {phase phase' : Phase α} (h : phase' = phase.rescale g) :
    Mirrors g S (SearchM.stop phase : SearchM σ α n κ Unit) (SearchM.stop phase')
      fun _ _ => S := by
  apply modifyLedger
  intro L
  rw [h]
  rfl

theorem endRound :
    Mirrors g S (SearchM.endRound : SearchM σ α n κ Unit) SearchM.endRound fun _ _ => S :=
  modifyLedger fun _ => rfl

theorem markRunning :
    Mirrors g S (SearchM.markRunning : SearchM σ α n κ Unit) SearchM.markRunning fun _ _ => S :=
  modifyLedger fun L => (L.rescale_markRunning g).symm

/-! ## 4. Draws and values -/

theorem draw (m : StateM σ β) :
    Mirrors g S (SearchM.draw m : SearchM σ α n κ β) (SearchM.draw m)
      fun b b' k k' => b' = b ∧ S k k' :=
  fun _ _ _ _ hk => ⟨rfl, rfl, rfl, hk⟩

theorem use (b : Usable α β) :
    Mirrors g S (SearchM.use b : SearchM σ α n κ β) (SearchM.use b)
      fun b b' k k' => b' = b ∧ S k k' := by
  cases b with
  | ok v => exact pure fun _ _ hk => ⟨rfl, hk⟩
  | error f => exact throw _

theorem drawOr (m : ChoiceM σ α β) :
    Mirrors g S (SearchM.drawOr m : SearchM σ α n κ β) (SearchM.drawOr m)
      fun b b' k k' => b' = b ∧ S k k' :=
  bind_same (draw _) fun b => use b

theorem require {b b' : Bool} (h : b' = b) (f : Fault α) :
    Mirrors g S (SearchM.require b f : SearchM σ α n κ Unit) (SearchM.require b' f)
      fun _ _ => S := by
  subst h
  exact ite Iff.rfl (pure fun _ _ hk => hk) (throw _)

/-! ## 5. Evaluations -/

variable [Scalar α] {t : Task α n}

theorem withinBudget :
    Mirrors g S (SearchM.withinBudget t : SearchM σ α n κ Bool)
      (SearchM.withinBudget (t.rescale g)) fun b b' k k' => b' = b ∧ S k k' :=
  fun _ _ _ _ hk => ⟨rfl, rfl, rfl, hk⟩

theorem requireBudget :
    Mirrors g S (SearchM.requireBudget t : SearchM σ α n κ Unit)
      (SearchM.requireBudget (t.rescale g)) fun _ _ => S :=
  bind_same withinBudget fun _ => ite Iff.rfl (pure fun _ _ hk => hk) (throw _)

theorem stopWithin {phase phase' : Phase α} (h : phase' = phase.rescale g) :
    Mirrors g S (SearchM.stopWithin t phase : SearchM σ α n κ Unit)
      (SearchM.stopWithin (t.rescale g) phase') fun _ _ => S :=
  bind_same withinBudget fun _ => ite Iff.rfl (stop h) (pure fun _ _ hk => hk)

theorem roundsWithin {round round' : SearchM σ α n κ Unit} (h : Mirrors g S round round' fun _ _ => S)
    (fuel : Nat) :
    Mirrors g S (SearchM.roundsWithin t round fuel)
      (SearchM.roundsWithin (t.rescale g) round' fuel) fun _ _ => S := by
  induction fuel with
  | zero => exact pure fun _ _ hk => hk
  | succ fuel ih =>
    apply bind_same withinBudget
    intro b
    exact ite Iff.rfl (seq h ih) (pure fun _ _ hk => hk)

/-- The rescaled objective answers with the rescaled cost, or fails as the objective does. -/
theorem evaluate (hg : Cost.KeepsOrder g) (x : Point α n) :
    Mirrors g S (SearchM.evaluate t x : SearchM σ α n κ (Cost α))
      (SearchM.evaluate (t.rescale g) x) fun c c' k k' => c' = g c ∧ S k k' := by
  intro L draws k k' hk
  rw [run_evaluate, run_evaluate]
  have hcheck : (if (t.rescale g).checked then (t.rescale g).region.check x else .ok ()) =
      if t.checked then t.region.check x else .ok () := rfl
  have hanswer : (t.rescale g).objective x ((L.rescale g).calls + 1) =
      (t.objective x (L.calls + 1)).map g := rfl
  rw [hcheck]
  cases (if t.checked then t.region.check x else .ok ()) with
  | error f => exact ⟨rfl, rfl⟩
  | ok u =>
    dsimp only
    rw [hanswer]
    cases t.objective x (L.calls + 1) with
    | error failure => exact ⟨rfl, (L.rescale_enterFailure g x).symm⟩
    | ok c => exact ⟨(L.rescale_enter hg x c).symm, rfl, rfl, hk⟩

/-- A step that goes on with a finite cost, and ends the search with any other. -/
theorem requireFinite_bind (hg : Cost.KeepsOrder g) (c : Cost α) {f : α → SearchM σ α n κ γ}
    {f' : α → SearchM σ α n κ γ'}
    (hf : ∀ v, c = .finite v → Mirrors g S (f v) (f' (Cost.onValue g v)) R) :
    Mirrors g S (SearchM.requireFinite c >>= f) (SearchM.requireFinite (g c) >>= f') R := by
  by_cases hc : c.IsFinite
  · obtain ⟨v, rfl⟩ := hc
    rw [hg.apply_finite]
    exact hf v rfl
  · have hstop (d : Cost α) (hd : ∀ w, d ≠ .finite w) :
        (SearchM.requireFinite d : SearchM σ α n κ α) =
          (do
            SearchM.modifyLedger (·.stopNonFinite d)
            MonadExcept.throw Halt.ended) := by
      cases d with
      | finite w => exact absurd rfl (hd w)
      | _ => rfl
    rw [hstop c fun w h => hc ⟨w, h⟩, hstop (g c) (hg.apply_ne_finite hc)]
    intro L draws k k' _
    exact ⟨rfl, (L.rescale_stopNonFinite g c).symm⟩

theorem trial_bind (hg : Cost.KeepsOrder g) (x : Point α n) {f : α → SearchM σ α n κ γ}
    {f' : α → SearchM σ α n κ γ'} (hf : ∀ v, Mirrors g S (f v) (f' (Cost.onValue g v)) R) :
    Mirrors g S (SearchM.trial t x >>= f) (SearchM.trial (t.rescale g) x >>= f') R := by
  unfold SearchM.trial
  rw [bind_assoc, bind_assoc]
  apply (evaluate hg x).bind
  intro c c'
  apply assume (fun _ _ h => h.1)
  rintro rfl L draws k k' ⟨-, hk⟩
  exact requireFinite_bind hg c (fun v _ => hf v) L draws k k' hk

/-- A sample that is kept before its cost is looked at.  Only a finite one is kept for long. -/
theorem keep_bind (hg : Cost.KeepsOrder g) (x : Point α n) {keep keep' : Cost α → κ → κ}
    (hkeep : ∀ v k k', S k k' → S' (keep (.finite v) k) (keep' (.finite (Cost.onValue g v)) k'))
    {f : α → SearchM σ α n κ γ} {f' : α → SearchM σ α n κ γ'}
    (hf : ∀ v, Mirrors g S' (f v) (f' (Cost.onValue g v)) R) :
    Mirrors g S
      (do
        let c ← SearchM.evaluate t x
        SearchM.modifyOwn (keep c)
        let v ← SearchM.requireFinite c
        f v)
      (do
        let c ← SearchM.evaluate (t.rescale g) x
        SearchM.modifyOwn (keep' c)
        let v ← SearchM.requireFinite c
        f' v) R := by
  apply (evaluate hg x).bind
  intro c c'
  apply assume (fun _ _ h => h.1)
  rintro rfl
  -- The kept states are related only if the cost is finite, and otherwise nothing follows.
  have hkept : Mirrors (n := n) (σ := σ) g (fun k k' => g c = g c ∧ S k k')
      (SearchM.modifyOwn (keep c)) (SearchM.modifyOwn (keep' (g c)))
      fun _ _ k k' => ∀ v, c = .finite v → S' k k' := by
    apply modifyOwn
    rintro k k' ⟨-, hk⟩ v rfl
    rw [hg.apply_finite]
    exact hkeep v k k' hk
  apply hkept.seq
  apply requireFinite_bind hg
  intro v hv L draws k k' hk
  exact hf v L draws k k' (hk v hv)

theorem evaluateAll (hg : Cost.KeepsOrder g) {keep : Sample α n → κ → κ}
    (hkeep : ∀ x v k k', S k k' →
      S (keep ⟨x, .finite v⟩ k) (keep ⟨x, .finite (Cost.onValue g v)⟩ k')) (xs : List (Point α n)) :
    Mirrors g S (Population.evaluateAll t keep xs : SearchM σ α n κ Unit)
      (Population.evaluateAll (t.rescale g) keep xs) fun _ _ => S := by
  induction xs with
  | nil => exact pure fun _ _ hk => hk
  | cons x xs ih =>
    apply seq requireBudget
    exact keep_bind hg x (fun v k k' hk => hkeep x v k k' hk) fun _ => ih

end Mirrors

/-! ## 6. Whole runs -/

theorem solve_mirrors [Scalar α] {g : Cost α → Cost α} {S : κ → κ → Prop} {t : Task α n}
    {body body' : SearchM σ α n κ Unit} {Q : Unit → Unit → κ → κ → Prop}
    (h : Mirrors g S body body' Q) (L : Ledger α n) (draws : σ) {k k' : κ} (hk : S k k') :
    (Course.solve (t.rescale g) body' ⟨L.rescale g, draws, k'⟩).1 =
        (Course.solve t body ⟨L, draws, k⟩).1 ∧
      (Course.solve (t.rescale g) body' ⟨L.rescale g, draws, k'⟩).2.ledger =
        (Course.solve t body ⟨L, draws, k⟩).2.ledger.rescale g := by
  have hclose (c c' : Course σ α n κ) (h : c'.ledger = c.ledger.rescale g) :
      c'.close.ledger = c.close.ledger.rescale g := by
    show c'.ledger.close = c.ledger.close.rescale g
    rw [Account.rescale_close, h]
  by_cases hphase : L.phase = .notStarted
  · have hphase' : (L.rescale g).phase = .notStarted := (Phase.rescale_eq_notStarted g _).mpr hphase
    have hrun := h (L.start n t.budget) draws k k' hk
    rw [Account.rescale_start] at hrun
    rw [Course.solve_of_notStarted (c := ⟨L, draws, k⟩) hphase,
      Course.solve_of_notStarted (c := ⟨L.rescale g, draws, k'⟩) hphase']
    have hbudget : (t.rescale g).budget = t.budget := rfl
    dsimp only
    rw [hbudget]
    rcases hr : body.run ⟨L.start n t.budget, draws, k⟩ with ⟨(_ | f) | b, c⟩ <;>
      rcases hr' : body'.run ⟨(L.rescale g).start n t.budget, draws, k'⟩ with ⟨e' | b', c'⟩ <;>
      rw [hr, hr'] at hrun
    · obtain ⟨rfl, hledger⟩ := hrun
      exact ⟨rfl, hclose c c' hledger⟩
    · exact False.elim hrun
    · obtain ⟨rfl, hledger⟩ := hrun
      exact ⟨rfl, hledger⟩
    · exact False.elim hrun
    · exact False.elim hrun
    · exact ⟨rfl, hclose c c' hrun.1⟩
  · have hphase' : (L.rescale g).phase ≠ .notStarted := mt (Phase.rescale_eq_notStarted g _).mp hphase
    rw [Course.solve_of_started (c := ⟨L, draws, k⟩) hphase,
      Course.solve_of_started (c := ⟨L.rescale g, draws, k'⟩) hphase']
    exact ⟨rfl, rfl⟩

end SearchM

end BoxSearch
