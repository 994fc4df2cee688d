import BoxSearch.Proofs.Search.Triple

/-!
# What a method keeps

`Sustains I m φ` says of a step that what the method keeps has `I` afterwards if it had it before,
however the step ends, and that its answer has `φ`.  Nothing is asked of the draws and of the account:
most steps do not touch what the method keeps, so that for them `I` can be anything.
-/

namespace BoxSearch

open SearchM

/-- What the method keeps has `I` before and, however the step ends, after it; and an answer has `φ`. -/
def Sustains {σ α κ β : Type} {n : Nat} (I : κ → Prop) (m : SearchM σ α n κ β) (φ : β → Prop) : Prop :=
  Triple (fun c => I c.own) m (fun b c => φ b ∧ I c.own) fun _ c => I c.own

namespace Sustains

variable {σ α κ β γ : Type} {n : Nat} {I : κ → Prop} {φ : β → Prop} {ψ : γ → Prop}

/-- What is kept after a step, however it ends. -/
theorem run {m : SearchM σ α n κ β} (h : Sustains I m φ) {c : Course σ α n κ} (hc : I c.own) :
    I (m.run c).2.own := by
  apply Triple.after (S := fun d => I d.own) h hc
  · exact fun _ _ hd => hd.2
  · exact fun _ _ hd => hd

theorem bind {m : SearchM σ α n κ β} {f : β → SearchM σ α n κ γ} (hm : Sustains I m φ)
    (hf : ∀ b, φ b → Sustains I (f b) ψ) : Sustains I (m >>= f) ψ :=
  Triple.bind hm fun b c hc => hf b hc.1 c hc.2

theorem pure {b : β} (h : φ b) : Sustains I (pure b : SearchM σ α n κ β) φ :=
  Triple.pure fun _ hc => ⟨h, hc⟩

theorem throw {e : Halt α} : Sustains I (throw e : SearchM σ α n κ β) φ := Triple.throw fun _ hc => hc

theorem ite {p : Prop} [Decidable p] {m m' : SearchM σ α n κ β} (h : p → Sustains I m φ)
    (h' : ¬p → Sustains I m' φ) : Sustains I (if p then m else m') φ := Triple.ite h h'

/-! ## 1. What is kept -/

theorem own_bind {f : κ → SearchM σ α n κ γ} (hf : ∀ k, I k → Sustains I (f k) ψ) :
    Sustains I (SearchM.own >>= f) ψ :=
  fun c hc => hf c.own hc c hc

theorem modifyOwn {f : κ → κ} (h : ∀ k, I k → I (f k)) :
    Sustains I (SearchM.modifyOwn f : SearchM σ α n κ Unit) fun _ => True :=
  Triple.modifyOwn fun _ hc => ⟨trivial, h _ hc⟩

/-! ## 2. Draws and values -/

theorem drawOr {F : Fault α → Prop} {m : ChoiceM σ α β} (h : Meets φ F m) :
    Sustains I (SearchM.drawOr m : SearchM σ α n κ β) φ :=
  Triple.drawOr h (fun _ hb _ hc _ => ⟨hb, hc⟩) fun _ _ _ hc _ => hc

theorem use (b : Usable α β) : Sustains I (SearchM.use b : SearchM σ α n κ β) fun _ => True :=
  Triple.use (fun _ _ _ hc => ⟨trivial, hc⟩) fun _ _ _ hc => hc

theorem modifyLedger (f : Ledger α n → Ledger α n) :
    Sustains I (SearchM.modifyLedger f : SearchM σ α n κ Unit) fun _ => True :=
  Triple.modifyLedger fun _ hc => ⟨trivial, hc⟩

/-! ## 3. Evaluations -/

variable [Scalar α] {t : Task α n}

theorem withinBudget : Sustains I (SearchM.withinBudget t : SearchM σ α n κ Bool) fun _ => True :=
  Triple.withinBudget fun _ hc => ⟨trivial, hc⟩

theorem requireBudget : Sustains I (SearchM.requireBudget t : SearchM σ α n κ Unit) fun _ => True :=
  Triple.requireBudget (fun _ hc _ => ⟨trivial, hc⟩) fun _ hc _ => hc

theorem evaluate (x : Point α n) :
    Sustains I (SearchM.evaluate t x : SearchM σ α n κ (Cost α)) fun _ => True :=
  Triple.evaluate (fun _ _ _ hc => hc) (fun _ _ hc _ => hc) fun _ _ hc _ => ⟨trivial, hc⟩

omit [Scalar α] in
theorem requireFinite (k : Cost α) :
    Sustains I (SearchM.requireFinite k : SearchM σ α n κ α) fun _ => True :=
  Triple.requireFinite (fun _ _ _ hc => ⟨trivial, hc⟩) fun _ hc _ => hc

theorem trial (x : Point α n) : Sustains I (SearchM.trial t x : SearchM σ α n κ α) fun _ => True :=
  .bind (evaluate x) fun k _ => requireFinite k

theorem evaluateAll {keep : Sample α n → κ → κ} {xs : List (Point α n)}
    (hkeep : ∀ x ∈ xs, ∀ c k, I k → I (keep ⟨x, c⟩ k)) :
    Sustains I (Population.evaluateAll t keep xs : SearchM σ α n κ Unit) fun _ => True := by
  induction xs with
  | nil => exact .pure trivial
  | cons x rest ih =>
    apply Sustains.bind requireBudget
    intro _ _
    apply Sustains.bind (evaluate x)
    intro c _
    apply Sustains.bind (.modifyOwn fun k hk => hkeep x List.mem_cons_self c k hk)
    intro _ _
    exact .bind (requireFinite c) fun _ _ => ih fun y hy => hkeep y (List.mem_cons_of_mem x hy)

theorem roundsWithin {round : SearchM σ α n κ Unit} (h : Sustains I round fun _ => True) (fuel : Nat) :
    Sustains I (SearchM.roundsWithin t round fuel) fun _ => True := by
  have hround : Triple (fun c => I c.own) round (fun _ c => I c.own) fun _ c => I c.own :=
    Triple.weaken h (fun _ _ hc => hc.2) fun _ _ hc => hc
  exact Triple.weaken (Triple.roundsWithin hround fuel) (fun _ _ hc => ⟨trivial, hc⟩) fun _ _ hc => hc

end Sustains

end BoxSearch
