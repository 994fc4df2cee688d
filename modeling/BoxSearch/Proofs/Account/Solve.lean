import Mathlib
import BoxSearch.Proofs.Account.Methods
import BoxSearch.Proofs.Feasible.Solve

/-!
# How a search ends

A cost that is not finite ends a search at once: it is the last answer that was asked for, the search
says that it ended because of it, and its best point is that of the answers before.
-/

namespace BoxSearch

namespace Account

variable {α P : Type} [Scalar α]

/-- What a search from the account `A` answers, and its account at the end. -/
inductive Closes (f : P → ℕ → Except Failure (Cost α)) (A : Account α P) :
    Except (Fault α) Unit → Account α P → Prop
  | returned {B : Account α P} (h : GoesOn f A B) : Closes f A (.ok ()) B.close
  | nonFinite {B : Account α P} {x : P} {c : Cost α} (h : GoesOn f A B)
      (hx : f x (B.calls + 1) = .ok c) (hc : ¬c.IsFinite) :
      Closes f A (.ok ()) ((B.enter x c).stopNonFinite c).close
  | faulted {B : Account α P} (h : GoesOn f A B) (e : Fault α) : Closes f A (.error e) B
  | failed {B : Account α P} {x : P} {failure : Failure} (h : GoesOn f A B)
      (hx : f x (B.calls + 1) = .error failure) :
      Closes f A (.error (.failed failure)) (B.enterFailure x)

variable {f : P → ℕ → Except Failure (Cost α)} {A B : Account α P}

/-! ## 1. What can be seen of the answers -/

/-- Nothing but finite costs were answered, and the search does not say otherwise. -/
structure IsFinite (A : Account α P) : Prop where
  answers : ∀ e ∈ A.trace, ∃ v, e.2 = some (.finite v)
  status : A.phase.status ≠ .nonFinite

theorem GoesOn.isFinite (h : GoesOn f A B) (hA : A.IsFinite) : B.IsFinite := by
  induction h with
  | refl => exact hA
  | @enter B x v _ _ ih =>
    constructor
    · intro e he
      rcases List.mem_append.mp he with he | he
      · exact ih.answers e he
      · rw [List.mem_singleton.mp he]
        exact ⟨v, rfl⟩
    · exact ih.status
  | aside _ rounds hphase events ih =>
    constructor
    · exact ih.answers
    · intro hstatus
      apply ih.status
      rw [← hphase hstatus]
      exact hstatus

omit [Scalar α] in
theorem isFinite_start (dimension budget : ℕ) :
    (({} : Account α P).start dimension budget).IsFinite :=
  ⟨fun _ he => absurd he List.not_mem_nil, nofun⟩

omit [Scalar α] in
theorem status_close (A : Account α P) :
    A.close.phase.status = .nonFinite ↔ A.phase.status = .nonFinite := by
  unfold close
  cases hphase : A.phase <;> simp [report, hphase, Phase.status]

omit [Scalar α] in
@[simp] theorem answers_close (A : Account α P) : A.close.answers = A.answers := by
  unfold answers
  rw [trace_close]

/-- What is seen of an account in which a cost that is not finite ends the search. -/
structure StopsAtNonFinite (answer : Except (Fault α) Unit) (A : Account α P) : Prop where
  -- Every call but the last one was answered with a finite cost.
  earlier : ∀ e ∈ A.trace.dropLast, ∃ v, e.2 = some (.finite v)
  -- The status says whether the last call was answered with a cost that is not finite.
  status : A.phase.status = .nonFinite ↔
    ∃ x c, A.trace.getLast? = some (x, some c) ∧ ¬c.IsFinite
  -- If it was, the search still ends with the best of the answers before.
  best : A.phase.status = .nonFinite → answer = .ok () ∧ IsBest A.answers.dropLast A.best

theorem IsFinite.stopsAtNonFinite (h : A.IsFinite) (answer : Except (Fault α) Unit) :
    A.StopsAtNonFinite answer where
  earlier e he := h.answers e (List.mem_of_mem_dropLast he)
  status := by
    constructor
    · intro hstatus
      exact absurd hstatus h.status
    · rintro ⟨x, c, hlast, hc⟩
      obtain ⟨v, hv⟩ := h.answers _ (List.mem_of_getLast? hlast)
      exact absurd ⟨v, Option.some.inj hv⟩ hc
  best hstatus := absurd hstatus h.status

theorem StopsAtNonFinite.close {answer : Except (Fault α) Unit} (h : A.StopsAtNonFinite answer) :
    A.close.StopsAtNonFinite answer := by
  constructor
  · rw [trace_close]
    exact h.earlier
  · rw [status_close, trace_close]
    exact h.status
  · rw [status_close, answers_close, best_close]
    exact h.best

theorem IsFinite.stopsAtFailure (h : A.IsFinite) (x : P) (answer : Except (Fault α) Unit) :
    (A.enterFailure x).StopsAtNonFinite answer where
  earlier e he := by
    rw [enterFailure, List.dropLast_concat] at he
    exact h.answers e he
  status := by
    constructor
    · intro hstatus
      exact absurd hstatus h.status
    · rintro ⟨y, c, hlast, -⟩
      rw [enterFailure, List.getLast?_concat] at hlast
      have hnone : none = some c := congrArg Prod.snd (Option.some.inj hlast)
      exact absurd hnone.symm (Option.some_ne_none c)
  best hstatus := absurd hstatus h.status

theorem IsFinite.stopsAt (h : A.IsFinite) (hbest : IsBest A.answers A.best) (x : P) {c : Cost α}
    (hc : ¬c.IsFinite) : ((A.enter x c).stopNonFinite c).StopsAtNonFinite (.ok ()) where
  earlier e he := by
    have he : e ∈ (A.trace ++ [(x, some c)]).dropLast := he
    rw [List.dropLast_concat] at he
    exact h.answers e he
  status := by
    constructor
    · intro _
      exact ⟨x, c, List.getLast?_concat, hc⟩
    · intro _
      rfl
  best _ := by
    have hanswers : ((A.enter x c).stopNonFinite c).answers = A.answers ++ [(x, c)] :=
      answers_enter A x c
    have hkept : ((A.enter x c).stopNonFinite c).best = A.best := improve_eq_self A.best x hc
    rw [hanswers, hkept, List.dropLast_concat]
    exact ⟨rfl, hbest⟩

variable [Scalar.Ordered α] (hf : ∀ x k c, f x k = .ok c → c.IsProper)

include hf

theorem Closes.balanced {answer : Except (Fault α) Unit} (h : Closes f A answer B)
    (hA : A.Balanced f) : B.Balanced f := by
  cases h with
  | returned h => exact (h.balanced hf hA).close
  | nonFinite h hx hc => exact (((h.balanced hf hA).enter hf hx).aside _ _ _).close
  | faulted h e => exact h.balanced hf hA
  | failed h hx => exact (h.balanced hf hA).enterFailure hx

theorem Closes.stopsAtNonFinite {answer : Except (Fault α) Unit} (h : Closes f A answer B)
    (hfinite : A.IsFinite) (hA : A.Balanced f) : B.StopsAtNonFinite answer := by
  cases h with
  | returned h => exact ((h.isFinite hfinite).stopsAtNonFinite _).close
  | nonFinite h hx hc =>
    exact ((h.isFinite hfinite).stopsAt (h.balanced hf hA).best _ hc).close
  | faulted h e => exact (h.isFinite hfinite).stopsAtNonFinite _
  | failed h hx => exact (h.isFinite hfinite).stopsAtFailure _ _

end Account

open Account

/-! ## 2. Whole searches -/

theorem Orderly.solve_closes {σ α κ : Type} [Scalar α] {n : ℕ} {t : Task α n} {c : Course σ α n κ}
    {body : SearchM σ α n κ Unit} (h : Orderly t body) (hphase : c.ledger.phase = .notStarted) :
    Closes t.objective (c.ledger.start n t.budget) (c.solve t body).1
      (c.solve t body).2.ledger := by
  have hrun := h (c.ledger.start n t.budget) { c with ledger := c.ledger.start n t.budget } .refl
  obtain ⟨d, hd, hsolve⟩ | ⟨⟨L, _, _⟩, hd, hsolve⟩ | ⟨f, ⟨L, _, _⟩, hd, hsolve⟩ :=
    Course.solve_cases hphase hrun <;> rw [hsolve]
  · exact .returned hd
  · cases hd with
    | ofItself h => exact .returned h
    | nonFinite h hx hc => exact .nonFinite h hx hc
  · cases hd with
    | ofItself h => exact .faulted h f
    | failed h hx => exact .failed h hx

namespace Run

variable {σ α : Type} [Scalar α] [DrawSource σ α] {n : ℕ}

theorem solve_closes (r : Run σ α n) (t : Task α n) (h : r.ledger.phase = .notStarted) :
    Closes t.objective (r.ledger.start n t.budget) (r.solve t).1 (r.solve t).2.ledger := by
  obtain ⟨L, draws, engine⟩ := r
  cases engine with
  | hillClimb p => exact (HillClimb.run_orderly p).solve_closes (c := ⟨L, draws, ()⟩) h
  | swarm p s => exact (Swarm.run_orderly p).solve_closes (c := ⟨L, draws, s⟩) h
  | genetic p lengths s =>
    exact (Genetic.run_orderly p lengths).solve_closes (c := ⟨L, draws, s⟩) h
  | evolution p s => exact (Evolution.run_orderly p).solve_closes (c := ⟨L, draws, s⟩) h
  | simplex p s => exact (Simplex.run_orderly p).solve_closes (c := ⟨L, draws, s⟩) h
  | rotation p s => exact (Rotation.run_orderly p).solve_closes (c := ⟨L, draws, s⟩) h
  | partition p s => exact (Partition.run_orderly p).solve_closes (c := ⟨L, draws, s⟩) h

theorem solve_of_started (r : Run σ α n) {t : Task α n} (h : r.ledger.phase ≠ .notStarted) :
    r.solve t = (.error .alreadySolved, r) := by
  obtain ⟨L, draws, engine⟩ := r
  have hcourse {κ : Type} (own : κ) : (Course.mk L draws own).ledger.phase ≠ .notStarted := h
  cases engine <;> simp only [solve, solveWith, Course.solve_of_started (hcourse _)]

/-- The objective is not called again after a cost that is not finite, the status of the search says
that this ended it, and the best point is the best of the answers before. -/
theorem solve_stopsAtNonFinite [Scalar.Ordered α] (t : Task α n) (hf : t.objective.IsProper)
    (r : Run σ α n) (hr : r.ledger = {}) :
    (r.solve t).2.ledger.StopsAtNonFinite (r.solve t).1 := by
  have hcloses := r.solve_closes t (by rw [hr])
  rw [hr] at hcloses
  exact hcloses.stopsAtNonFinite hf (isFinite_start n t.budget) (Balanced.empty.aside _ _ _)

/-- A search for the least of four integers whose objective has no costs. -/
noncomputable def withoutCosts : Task ℝ 1 :=
  { leastOfFour with objective := fun _ _ => .ok .undefined, checked := false }

theorem solve_stopsAtNonFinite_withoutCosts :
    withoutCosts.objective.IsProper ∧ climb.ledger = {} ∧
      (climb.solve withoutCosts).2.ledger.StopsAtNonFinite (climb.solve withoutCosts).1 ∧
      (climb.solve withoutCosts).2.ledger.phase.status = .nonFinite :=
  have hf : withoutCosts.objective.IsProper := fun _ _ c _ => Cost.isProper_real c
  ⟨hf, rfl, solve_stopsAtNonFinite withoutCosts hf climb rfl, rfl⟩

end Run

end BoxSearch
