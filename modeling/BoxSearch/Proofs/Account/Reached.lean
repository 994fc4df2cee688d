import Mathlib
import BoxSearch.Engine.Steps
import BoxSearch.Proofs.Account.Solve

/-!
# The account of every search

Whatever is done with a search, run as a whole or driven by hand, its account is balanced.  The
objective may answer and fail as it likes: a run stands still where a call fails, so that the accounts
in the middle of a run are those of the runs on objectives that fail there.
-/

namespace BoxSearch

open Account SearchM

/-! ## 1. Evaluations -/

/-- The account `B` is the account `A` with one more answer: the call is listed and counted, and the point
is the best one just if its cost is finite and less than the best before. -/
structure Account.OneMore {α P : Type} [Scalar α] (A B : Account α P) (x : P) (c : Cost α) : Prop where
  calls : B.calls = A.calls + 1
  trace : B.trace = A.trace ++ [(x, some c)]
  evaluations : B.evaluations = A.evaluations + 1
  history : B.history = A.history ++ [(A.evaluations + 1, B.bestCost)]
  improved : ∀ v, c = .finite v → (∀ b ∈ A.best, v < b.cost) → B.best = some ⟨x, v⟩
  kept : (∀ v, c = .finite v → ∃ b ∈ A.best, ¬v < b.cost) → B.best = A.best
  phase : B.phase = A.phase
  rounds : B.rounds = A.rounds

theorem Account.oneMore_enter {α P : Type} [Scalar α] (A : Account α P) (x : P) (c : Cost α) :
    A.OneMore (A.enter x c) x c where
  calls := rfl
  trace := rfl
  evaluations := rfl
  history := rfl
  improved := by
    rintro v rfl hless
    show improve A.best x (.finite v) = _
    cases hb : A.best with
    | none => rfl
    | some b => exact if_pos (hless b hb)
  kept hless := by
    show improve A.best x c = _
    by_cases hc : c.IsFinite
    · obtain ⟨v, rfl⟩ := hc
      obtain ⟨b, hb, hnot⟩ := hless v rfl
      rw [Option.mem_def.mp hb]
      exact if_neg hnot
    · exact improve_eq_self A.best x hc
  phase := rfl
  rounds := rfl

/-- The account and the draws before and after an evaluation that meets a fault: all that may be left of
it is the call, if it failed. -/
theorem SearchM.evaluate_fault {σ α κ : Type} [Scalar α] {n : ℕ} {t : Task α n} {x : Point α n}
    {c d : Course σ α n κ} {e : Halt α}
    (h : (evaluate t x : SearchM σ α n κ (Cost α)).run c = (.error e, d)) :
    d.ledger.evaluations = c.ledger.evaluations ∧ d.ledger.history = c.ledger.history ∧
      d.ledger.best = c.ledger.best ∧ d.ledger.phase = c.ledger.phase ∧ d.draws = c.draws ∧
        d.own = c.own ∧ (d.ledger.trace = c.ledger.trace ∨
          (∃ failure, t.objective x (c.ledger.calls + 1) = .error failure) ∧
            d.ledger.trace = c.ledger.trace ++ [(x, none)]) := by
  rw [run_evaluate] at h
  split at h
  · -- the point is refused
    obtain ⟨-, rfl⟩ := Prod.mk.inj h
    exact ⟨rfl, rfl, rfl, rfl, rfl, rfl, .inl rfl⟩
  · split at h
    · next failure hx =>
      -- the call fails
      obtain ⟨-, rfl⟩ := Prod.mk.inj h
      exact ⟨rfl, rfl, rfl, rfl, rfl, rfl, .inr ⟨⟨failure, hx⟩, rfl⟩⟩
    · exact nomatch (Prod.mk.inj h).1

/-- The account and the draws before and after an evaluation that is answered. -/
theorem SearchM.evaluate_answer {σ α κ : Type} [Scalar α] {n : ℕ} {t : Task α n} {x : Point α n}
    {c d : Course σ α n κ} {k : Cost α}
    (h : (evaluate t x : SearchM σ α n κ (Cost α)).run c = (.ok k, d)) :
    t.objective x (c.ledger.calls + 1) = .ok k ∧ c.ledger.OneMore d.ledger x k ∧ d.draws = c.draws ∧
      d.own = c.own := by
  rw [run_evaluate] at h
  split at h
  · exact nomatch (Prod.mk.inj h).1
  · split at h
    · exact nomatch (Prod.mk.inj h).1
    · next hx =>
      obtain ⟨hk, rfl⟩ := Prod.mk.inj h
      obtain rfl := Except.ok.inj hk
      exact ⟨hx, c.ledger.oneMore_enter x _, rfl, rfl⟩

theorem SearchM.evaluate_balanced {σ α κ : Type} [Scalar α] [Scalar.Ordered α] {n : ℕ}
    {t : Task α n} (hf : t.objective.IsProper) (x : Point α n) :
    Keeps (fun c => c.ledger.Balanced t.objective)
      (evaluate t x : SearchM σ α n κ (Cost α)) :=
  Triple.evaluate (fun _ _ _ hc => hc) (fun _ _ hc hx => hc.enterFailure hx) fun _ _ hc hx =>
    hc.enter hf hx

namespace Simplex

variable {σ α : Type} [Scalar α] [Scalar.Ordered α] {n : ℕ} {t : Task α n}

theorem costsOf_balanced (hf : t.objective.IsProper) (points : List (Point α n)) :
    Keeps (fun c => c.ledger.Balanced t.objective)
      (costsOf t points : SearchM σ α n (State α n) (List (Cost α))) := by
  induction points with
  | nil => exact .pure
  | cons x rest ih =>
    exact .bind (evaluate_balanced hf x) fun c => .bind ih fun others => .pure

theorem place_balanced (hf : t.objective.IsProper) (points : List (Point α n)) :
    Keeps (fun c => c.ledger.Balanced t.objective)
      (place t points : SearchM σ α n (State α n) Unit) :=
  .bind (.modifyOwn fun _ hc => hc) fun _ => .bind (costsOf_balanced hf points) fun _ =>
    .modifyOwn fun _ hc => hc

end Simplex

theorem Orderly.balanced {σ α κ β : Type} [Scalar α] [Scalar.Ordered α] {n : ℕ} {t : Task α n}
    {m : SearchM σ α n κ β} (h : Orderly t m) (hf : t.objective.IsProper) :
    Keeps (fun c => c.ledger.Balanced t.objective) m := by
  intro c hc
  exact Triple.weaken (h c.ledger) (fun _ _ hd => hd.balanced hf hc) (fun _ _ hd => hd.balanced hf hc)
    c .refl

namespace Run

variable {σ α κ β γ : Type} [Scalar α] {n : ℕ}

/-- Evaluates a point by hand. -/
def evaluate (r : Run σ α n) (t : Task α n) (x : Point α n) :
    Except (Fault α) (Option (Cost α)) × Run σ α n :=
  r.carry () (fun _ => r.engine) (SearchM.evaluate t x)

/-! ## 2. Searches that can be reached -/

variable [DrawSource σ α]

/-- What can be done with a search, as a whole or by hand. -/
inductive Move (t : Task α n) (r : Run σ α n) : Run σ α n → Prop
  | solve : Move t r (r.solve t).2
  | evaluate (x : Point α n) : Move t r (r.evaluate t x).2
  | stopNonFinite (c : Cost α) : Move t r { r with ledger := r.ledger.stopNonFinite c }
  -- Anything may be put in place, and anything may be drawn.
  | place (draws : σ) (engine : Engine α n) : Move t r ⟨r.ledger, draws, engine⟩
  | setUp {b : Except (Fault α) Bool} {r' : Run σ α n} (h : r.setUp t = some (b, r')) : Move t r r'
  | advance {b : Except (Fault α) Bool} {r' : Run σ α n} (h : r.advance t = some (b, r')) :
      Move t r r'
  | divide (place : ℕ) {b : Except (Fault α) Bool} {r' : Run σ α n}
      (h : r.divide t place = some (b, r')) : Move t r r'
  | placeVertices (points : List (Point α n)) {b : Except (Fault α) Unit} {r' : Run σ α n}
      (h : r.placeVertices t points = some (b, r')) : Move t r r'
  | round {b : Except (Fault α) Bool} {r' : Run σ α n} (h : r.round t = some (b, r')) : Move t r r'
  | shrink {b : Except (Fault α) Bool} {r' : Run σ α n} (h : r.shrink t = some (b, r')) :
      Move t r r'

/-- A search of the objective `f` that can be reached from a new one.  The other circumstances of the
task may change from move to move. -/
inductive Reached (f : Objective α n) : Run σ α n → Prop
  | new (draws : σ) (engine : Engine α n) : Reached f ⟨{}, draws, engine⟩
  | move {r r' : Run σ α n} (h : Reached f r) {t : Task α n} (ht : t.objective = f)
      (hmove : Move t r r') : Reached f r'

/-! ## 3. Balance -/

omit [Scalar α] [DrawSource σ α] in
@[simp] theorem snd_answered (f : β → γ) (ended : γ)
    (a : Except (Fault α) (Option β) × Run σ α n) : (answered f ended a).2 = a.2 := by
  obtain ⟨(_ | _ | _), _⟩ := a <;> rfl

omit [Scalar α] [DrawSource σ α] in
/-- A search after a step has what the step leaves. -/
theorem snd_carry (r : Run σ α n) (own : κ) (wrap : κ → Engine α n) (m : SearchM σ α n κ β) :
    (r.carry own wrap m).2 =
      ⟨(m.run ⟨r.ledger, r.draws, own⟩).2.ledger, (m.run ⟨r.ledger, r.draws, own⟩).2.draws,
        wrap (m.run ⟨r.ledger, r.draws, own⟩).2.own⟩ := by
  unfold carry Course.carry
  rcases m.run ⟨r.ledger, r.draws, own⟩ with ⟨(_ | _) | _, _⟩ <;> rfl

omit [Scalar α] [DrawSource σ α] in
theorem ledger_carry (r : Run σ α n) (own : κ) (wrap : κ → Engine α n) (m : SearchM σ α n κ β) :
    (r.carry own wrap m).2.ledger = (m.run ⟨r.ledger, r.draws, own⟩).2.ledger := by
  rw [snd_carry]

omit [Scalar α] [DrawSource σ α] in
/-- Whatever a step answers, the search after it is what was carried out. -/
theorem eq_of_answered {f : β → γ} {ended : γ} {a : Except (Fault α) (Option β) × Run σ α n}
    {b : Except (Fault α) γ} {r : Run σ α n} (h : some (answered f ended a) = some (b, r)) :
    r = a.2 := by
  rw [← snd_answered f ended a]
  exact (congrArg Prod.snd (Option.some.inj h)).symm

variable [Scalar.Ordered α] {t : Task α n} {r r' : Run σ α n}

omit [DrawSource σ α] [Scalar.Ordered α] in
theorem carry_balanced {own : κ} {wrap : κ → Engine α n} {m : SearchM σ α n κ β}
    (hm : Keeps (fun c => c.ledger.Balanced t.objective) m) (hr : r.ledger.Balanced t.objective) :
    (r.carry own wrap m).2.ledger.Balanced t.objective := by
  rw [ledger_carry]
  exact hm.run hr

omit [DrawSource σ α] [Scalar.Ordered α] in
theorem answered_balanced {f : β → γ} {ended : γ} {own : κ} {wrap : κ → Engine α n}
    {m : SearchM σ α n κ β} {b : Except (Fault α) γ}
    (h : some (answered f ended (r.carry own wrap m)) = some (b, r'))
    (hm : Keeps (fun c => c.ledger.Balanced t.objective) m) (hr : r.ledger.Balanced t.objective) :
    r'.ledger.Balanced t.objective := by
  rw [eq_of_answered h]
  exact carry_balanced hm hr

theorem solve_balanced (hf : t.objective.IsProper) (hr : r.ledger.Balanced t.objective) :
    (r.solve t).2.ledger.Balanced t.objective := by
  by_cases hphase : r.ledger.phase = .notStarted
  · exact (r.solve_closes t hphase).balanced hf (hr.aside _ _ _)
  · rw [r.solve_of_started hphase]
    exact hr

theorem Move.balanced (hf : t.objective.IsProper) (h : Move t r r')
    (hr : r.ledger.Balanced t.objective) : r'.ledger.Balanced t.objective := by
  obtain ⟨L, draws, engine⟩ := r
  cases h with
  | solve => exact solve_balanced hf hr
  | evaluate x => exact carry_balanced (evaluate_balanced hf x) hr
  | stopNonFinite c => exact hr.aside _ _ _
  | place draws engine => exact hr
  | setUp h =>
    cases engine with
    | rotation p s =>
      exact answered_balanced h (Rotation.setUp_orderly.balanced hf) hr
    | partition p s =>
      exact answered_balanced h (Partition.setUp_orderly.balanced hf) hr
    | _ => exact nomatch h
  | advance h =>
    cases engine with
    | rotation p s =>
      exact answered_balanced h (Rotation.step_orderly.balanced hf) hr
    | partition p s =>
      exact answered_balanced h (Partition.iterate_orderly.balanced hf) hr
    | _ => exact nomatch h
  | divide place h =>
    cases engine with
    | partition p s =>
      exact answered_balanced h ((Partition.divide_orderly place).balanced hf) hr
    | _ => exact nomatch h
  | placeVertices points h =>
    cases engine with
    | simplex p s =>
      exact answered_balanced h (Simplex.place_balanced hf points) hr
    | _ => exact nomatch h
  | round h =>
    cases engine with
    | simplex p s =>
      exact answered_balanced h (Simplex.round_orderly.balanced hf) hr
    | _ => exact nomatch h
  | shrink h =>
    cases engine with
    | simplex p s =>
      exact answered_balanced h (Simplex.shrink_orderly.balanced hf) hr
    | _ => exact nomatch h

theorem Reached.balanced {f : Objective α n} (hf : f.IsProper) {r : Run σ α n}
    (h : Reached f r) : r.ledger.Balanced f := by
  induction h with
  | new draws engine => exact .empty
  | move _ ht hmove ih =>
    subst ht
    exact hmove.balanced hf ih

/-- The evaluations are counted, the history has the least cost after each of them, and the best point
is the first that attained it; there is one if and only if some cost was finite, and its cost is a
finite scalar.  An evaluation that is answered is entered as one more.  One that meets a fault changes
none of this, and not the phase either; if the call failed, it is listed. -/
theorem Reached.bookkeeping {f : Objective α n} (hf : f.IsProper) {r : Run σ α n}
    (h : Reached f r) :
    r.ledger.Balanced f ∧
      (r.ledger.answers ≠ [] →
        r.ledger.history.getLast? = some (r.ledger.evaluations, r.ledger.bestCost)) ∧
      (r.ledger.best.isSome = true ↔ ∃ a ∈ r.ledger.answers, a.2.IsFinite) ∧
      (∀ b ∈ r.ledger.best, Scalar.isFinite b.cost = true) ∧
      (∀ (κ : Type) (own : κ) (t : Task α n) (x : Point α n) (c : Cost α) (d : Course σ α n κ),
        (SearchM.evaluate t x).run ⟨r.ledger, r.draws, own⟩ = (.ok c, d) →
          t.objective x (r.ledger.calls + 1) = .ok c ∧ r.ledger.OneMore d.ledger x c) ∧
      ∀ (κ : Type) (own : κ) (t : Task α n) (x : Point α n) (e : Halt α) (d : Course σ α n κ),
        (SearchM.evaluate t x).run ⟨r.ledger, r.draws, own⟩ = (.error e, d) →
          d.ledger.evaluations = r.ledger.evaluations ∧ d.ledger.history = r.ledger.history ∧
            d.ledger.best = r.ledger.best ∧ d.ledger.phase = r.ledger.phase ∧
            (d.ledger.trace = r.ledger.trace ∨
              (∃ failure, t.objective x (r.ledger.calls + 1) = .error failure) ∧
                d.ledger.trace = r.ledger.trace ++ [(x, none)]) := by
  have hbalanced := h.balanced hf
  refine ⟨hbalanced, hbalanced.getLast?_history, hbalanced.best.isSome_iff, ?_, ?_, ?_⟩
  · intro b hb
    have hbest := hbalanced.best
    rw [Option.mem_def.mp hb] at hbest
    exact hbalanced.isProper_of_mem hf hbest.mem b.cost rfl
  · intro κ own t x c d hanswer
    obtain ⟨hx, hmore, -⟩ := evaluate_answer hanswer
    exact ⟨hx, hmore⟩
  · intro κ own t x e d hfault
    obtain ⟨hevaluations, hhistory, hbest, hphase, -, -, htrace⟩ := evaluate_fault hfault
    exact ⟨hevaluations, hhistory, hbest, hphase, htrace⟩

/-- The account of a climb over four integers, after its whole run. -/
theorem Reached.bookkeeping_leastOfFour :
    leastOfFour.objective.IsProper ∧ Reached leastOfFour.objective (climb.solve leastOfFour).2 ∧
      (climb.solve leastOfFour).2.ledger.Balanced leastOfFour.objective :=
  have hf : leastOfFour.objective.IsProper := fun _ _ c _ => Cost.isProper_real c
  have h : Reached leastOfFour.objective (climb.solve leastOfFour).2 := .move (.new _ _) rfl .solve
  ⟨hf, h, (Reached.bookkeeping hf h).1⟩

end Run

end BoxSearch
