import Mathlib
import BoxSearch.Proofs.Kept.Genetic

/-!
# The account of a genetic search

A genetic search first evaluates its population and then, for each generation, as many children as the
elite leaves places.  It looks at its budget before every evaluation, so the budget may be spent anywhere
in a generation, and a generation is counted only if it was completed.
-/

namespace BoxSearch

namespace Genetic

open SearchM

variable {σ α : Type} [Scalar α] {n : ℕ} {t : Task α n} {p : Params α} {lengths : Vector ℕ n}

/-! ## 1. Members -/

/-- There is a member for every evaluation, as far as there are places. -/
def Filled (p : Params α) (c : Course σ α n (List (Sample α n))) : Prop :=
  c.own.length = min c.ledger.evaluations p.size

/-- There is a member for every evaluation, and `k` members are to come. -/
def Awaits (p : Params α) (k : ℕ) (c : Course σ α n (List (Sample α n))) : Prop :=
  c.own.length = c.ledger.evaluations ∧ c.ledger.evaluations + k = p.size

/-- All places are filled. -/
def Full (p : Params α) (c : Course σ α n (List (Sample α n))) : Prop :=
  c.own.length = p.size ∧ p.size ≤ c.ledger.evaluations

omit [Scalar α] in
theorem Awaits.filled {k : ℕ} {c : Course σ α n (List (Sample α n))} (h : Awaits p k c) :
    Filled p c := by
  obtain ⟨hlength, hmissing⟩ := h
  unfold Filled
  omega

omit [Scalar α] in
theorem Full.filled {c : Course σ α n (List (Sample α n))} (h : Full p c) : Filled p c := by
  obtain ⟨hlength, hmost⟩ := h
  unfold Filled
  omega

omit [Scalar α] in
theorem Filled.close {c : Course σ α n (List (Sample α n))} (h : Filled p c) : Filled p c.close := by
  obtain ⟨phase, events, hclose⟩ := c.ledger.exists_close_eq_aside
  unfold Course.close
  rw [hclose]
  exact h

variable [DrawSource σ α]

theorem found_filled (k : ℕ) (given : List (Point α n)) :
    Triple (Awaits p k) (found t k given : SearchM σ α n (List (Sample α n)) Unit)
      (fun _ => Full p) fun _ => Filled p := by
  induction k generalizing given with
  | zero => exact .pure fun c hc => ⟨hc.1.trans hc.2, hc.2.ge⟩
  | succ k ih =>
    apply Triple.bind (Q := fun _ => Awaits p (k + 1))
      (.requireBudget (fun _ hc _ => hc) fun _ hc _ => hc.filled)
    intro _
    apply Triple.bind (Q := fun _ => Awaits p (k + 1)) (.draw fun _ _ _ hc => hc)
    intro x
    -- The point is evaluated, and then it is a member, whatever its cost is.
    apply Triple.bind (Q := fun _ c => c.own.length + 1 = c.ledger.evaluations ∧
      c.ledger.evaluations + k = p.size)
    · apply Triple.evaluate
      · exact fun _ _ _ hc => hc.filled
      · exact fun _ _ hc _ => hc.filled
      · intro cost c hc _
        refine ⟨congrArg (· + 1) hc.1, ?_⟩
        show c.ledger.evaluations + 1 + k = p.size
        rw [Nat.add_right_comm, Nat.add_assoc]
        exact hc.2
    · intro cost
      apply Triple.bind (Q := fun _ => Awaits p k)
      · exact .modifyOwn fun c hc => ⟨List.length_append.trans hc.1, hc.2⟩
      · intro _
        apply Triple.bind (Q := fun _ => Awaits p k)
        · exact .requireFinite (fun _ _ _ hc => hc) fun _ hc _ => hc.filled
        · exact fun _ => ih (given.drop 1)

theorem generation_full :
    Keeps (Full p) (generation t p lengths : SearchM σ α n (List (Sample α n)) Unit) := by
  rintro c ⟨hlength, hmost⟩
  refine Triple.weaken (generation_succeeds lengths hlength) ?_ ?_ c rfl
  · rintro - d ⟨children, hchildren⟩
    have hadded := hchildren.length
    constructor
    · rw [hchildren.own, List.length_append, List.length_take, Cost.length_rank, hlength]
      omega
    · rw [hchildren.evaluations]
      omega
  · intro _ d hd
    exact ⟨hd.population.length_eq.trans hlength, hmost.trans hd.evaluations⟩

theorem run_filled (lengths : Vector ℕ n) :
    Triple (fun c => c.ledger.evaluations = 0)
      (run t p lengths : SearchM σ α n (List (Sample α n)) Unit) (fun _ => Filled p)
      fun _ => Filled p := by
  apply Triple.bind (Q := fun _ => Awaits p p.size)
  · exact .setOwn fun c hc => ⟨hc.symm, by rw [hc, Nat.zero_add]⟩
  · intro _
    apply (found_filled p.size t.starts).bind
    intro _
    apply Triple.weaken (Q := fun _ => Full p) (E := fun _ => Full p) _ (fun _ _ h => h.filled)
      fun _ _ h => h.filled
    apply Keeps.bind (.modifyLedger fun _ hc => hc)
    intro _
    apply Keeps.bind (.roundsWithin generation_full _)
    intro _
    apply Keeps.bind .withinBudget
    intro b
    exact .ite (.modifyLedger fun _ hc => hc) .pure

/-- However a search ends, there is a member for every evaluation, as far as there are places. -/
theorem solve_filled (draws : σ) (own : List (Sample α n)) :
    Filled p (Course.solve t (run t p lengths) ⟨{}, draws, own⟩).2 := by
  have hrun := (run_filled (t := t) (p := p) lengths).run (c := .started t draws own) rfl
  exact Course.solve_keeps (I := Filled p) (c := ⟨{}, draws, own⟩) rfl hrun fun _ hd => hd.close

/-! ## 2. Generations -/

/-- What a search with so much of a budget says at its end. -/
structure Accounted (p : Params α) (budget : ℕ) (L : Ledger α n) : Prop where
  evaluations : L.evaluations = min budget (p.size + p.generations * (p.size - p.elite))
  rounds : L.rounds = if budget < p.size then 0
    else min p.generations ((budget - p.size) / (p.size - p.elite))
  status : L.phase.status = if p.size + p.generations * (p.size - p.elite) < budget then .maxIterations
    else .budgetExhausted

omit [Scalar α] [DrawSource σ α] in
/-- The generations that are complete are a quotient. -/
theorem Completed.rounds_eq {e r : ℕ} (h : Completed p e r) (hchildren : 0 < p.children) :
    r = (e - p.size) / p.children :=
  (Nat.div_eq_of_lt_le h.born (h.partly hchildren)).symm

omit [DrawSource σ α] in
theorem accounted_of_ends {L : Ledger α n} (helite : p.elite < p.size)
    (hmost : L.evaluations ≤ p.evaluationsTo p.generations)
    (h : (accounts t p).ends L.phase L.evaluations L.rounds)
    (hfinite : L.phase.status ≠ .nonFinite) : Accounted p t.budget L := by
  have hchildren : 0 < p.children := Nat.sub_pos_of_lt helite
  have htotal : p.evaluationsTo p.generations = p.size + p.generations * (p.size - p.elite) := rfl
  have hwidth : p.size - p.elite = p.children := rfl
  cases hphase : L.phase <;> rw [hphase] at h hfinite
  case budgetSpent =>
    obtain ⟨hspent, hcompleted⟩ := h
    have hrounds := hcompleted.rounds_eq hchildren
    have hcapped : L.rounds ≤ p.generations := by
      apply Nat.le_of_mul_le_mul_right _ hchildren
      have hborn := hcompleted.born
      rw [hwidth] at htotal
      omega
    rw [hspent] at hrounds hmost
    constructor
    · rw [hspent, ← htotal, min_eq_left hmost]
    · rw [hwidth, ← hrounds, min_eq_right hcapped]
      split_ifs with hfew
      · rw [hrounds, Nat.sub_eq_zero_of_le hfew.le, Nat.zero_div]
      · rfl
    · rw [if_neg (by omega), hphase]
      rfl
  case generationsDone cap =>
    obtain ⟨rfl, hrounds, hevaluations, hless⟩ := h
    rw [hevaluations] at hless
    constructor
    · rw [hevaluations, ← htotal, min_eq_right hless.le]
    · have hmany : p.generations ≤ (t.budget - p.size) / p.children := by
        rw [Nat.le_div_iff_mul_le hchildren]
        rw [hwidth] at htotal
        omega
      rw [hwidth, min_eq_left hmany, if_neg (by omega), hrounds]
    · rw [if_pos (htotal ▸ hless), hphase]
      rfl
  case nonFinite => exact absurd rfl hfinite
  all_goals exact h.elim

/-- A variable that takes the integers from `lo` to `hi` is coded on as many bits as their distance
has. -/
theorem codeLengths_integers {lo hi : ℤ} (h : lo ≤ hi) :
    codeLengths (Region.integers lo hi h) = .ok (.ofFn fun _ => BitCode.lengthFor (hi - lo).toNat) := by
  apply codeLengths_eq_ok
  intro i
  have hwidth : (Region.integers lo hi h).width i = ((hi - lo : ℤ) : ℝ) := by
    unfold Region.width Region.integers
    rw [Point.get_ofFn, Point.get_ofFn, Int.cast_sub]
  have hintegral : (Region.integers lo hi h).integral.get i = true := Point.get_ofFn _ i
  rw [if_pos hintegral, hwidth]
  exact BitCode.lengthForWidth_intCast (by omega)

end Genetic

namespace Run

theorem solve_accounted {σ α : Type} [Scalar α] [DrawSource σ α] {n : ℕ} {t : Task α n}
    {p : Genetic.Params α} {lengths : Vector ℕ n} {own : List (Sample α n)} {draws : σ}
    (helite : p.elite < p.size) (hf : t.objective.IsFinite)
    (hreturns : ((⟨{}, draws, .genetic p lengths own⟩ : Run σ α n).solve t).1 = .ok ()) :
    Genetic.Accounted p t.budget
      ((⟨{}, draws, .genetic p lengths own⟩ : Run σ α n).solve t).2.ledger := by
  have haccounts := solve_accounts draws p lengths own t
  exact Genetic.accounted_of_ends helite haccounts.1.2 (haccounts.2 hreturns)
    (status_ne_nonFinite hf rfl)

/-- However a genetic search ends, it has a member for every evaluation, as far as there are places.  A
search with finite costs that returns made as many evaluations as the budget and the cap on generations
allow, counts the generations that it completed, and says which of the two ended it; in exact arithmetic
it returns. -/
theorem generations_are_accounted (σ : Type) (n : ℕ) :
    (∀ (α : Type) [Scalar α] [DrawSource σ α] (t : Task α n) (p : Genetic.Params α)
      (lengths : Vector ℕ n) (own : List (Sample α n)) (draws : σ),
      let d := (⟨{}, draws, .genetic p lengths own⟩ : Run σ α n).solve t
      d.2.ledger.evaluations ≤ min t.budget (p.size + p.generations * (p.size - p.elite)) ∧
      (∃ population, d.2.engine = .genetic p lengths population ∧
        population.length = min d.2.ledger.evaluations p.size) ∧
      (p.elite < p.size → t.objective.IsFinite → d.1 = .ok () →
        Genetic.Accounted p t.budget d.2.ledger)) ∧
    ∀ [DrawSource σ ℝ] (t : Task ℝ n) (p : Genetic.Params ℝ) (lengths : Vector ℕ n)
      (own : List (Sample ℝ n)) (draws : σ),
      p.elite < p.size → p.IsNumeric → Genetic.codeLengths t.region = .ok lengths →
      (∀ i, lengths.get i ≤ Genetic.longestCode) → UnitDraws σ →
      (∀ x ∈ t.starts, t.region.Feasible x) → t.objective.Answers → t.objective.IsFinite →
      let d := (⟨{}, draws, .genetic p lengths own⟩ : Run σ ℝ n).solve t
      d.1 = .ok () ∧ Genetic.Accounted p t.budget d.2.ledger := by
  constructor
  · intro α _ _ t p lengths own draws d
    have hadmitted := (solve_accounts draws p lengths own t).1
    exact ⟨le_min hadmitted.1 hadmitted.2, ⟨_, rfl, Genetic.solve_filled draws own⟩,
      fun helite hf hreturns => solve_accounted helite hf hreturns⟩
  · intro _ t p lengths own draws helite hp hlengths hshort hunit hstarts ht hf d
    have hreturns : d.1 = .ok () := solve_returns ht hunit hstarts rfl trivial
      ⟨hp, Nat.zero_lt_of_lt helite, hlengths, hshort⟩
    exact ⟨hreturns, solve_accounted helite hf hreturns⟩

/-- Three members, one of which is kept, on four integers, which are coded on two bits. -/
noncomputable def brood : Genetic.Params ℝ := { Genetic.pair with size := 3, generations := 5 }

/-- Of ten evaluations three are made of the first members and six of three generations; the last one is
made of a child of a generation that is not completed. -/
theorem generations_are_accounted_brood :
    let d := (⟨{}, zeroDraws, .genetic brood (.ofFn fun _ => 2) []⟩ : Run UnitTape ℝ 1).solve leastOfFour
    brood.elite < brood.size ∧ leastOfFour.objective.IsFinite ∧ d.1 = .ok () ∧
      d.2.ledger.evaluations = 10 ∧ d.2.ledger.rounds = 3 ∧
      d.2.ledger.phase.status = .budgetExhausted ∧
      ∃ population, d.2.engine = .genetic brood (.ofFn fun _ => 2) population ∧
        population.length = 3 := by
  intro d
  have helite : brood.elite < brood.size := by decide
  have hfinite : leastOfFour.objective.IsFinite := fun x _ _ h => ⟨x.get 0, (Except.ok.inj h).symm⟩
  obtain ⟨hreturns, haccounted⟩ := (generations_are_accounted UnitTape 1).2 leastOfFour brood
    (.ofFn fun _ => 2) [] zeroDraws helite ⟨⟨_, rfl⟩, ⟨_, rfl⟩, ⟨_, rfl⟩⟩ (Genetic.codeLengths_integers (by decide))
    (fun i => (Point.get_ofFn _ i).trans_le (by decide)) unitDraws_unitTape (List.forall_mem_nil _)
    (fun x _ => ⟨.finite (x.get 0), rfl⟩) hfinite
  obtain ⟨-, ⟨population, hengine, hlength⟩, -⟩ := (generations_are_accounted UnitTape 1).1 ℝ leastOfFour
    brood (.ofFn fun _ => 2) [] zeroDraws
  have hevaluations : d.2.ledger.evaluations = 10 := haccounted.evaluations
  refine ⟨helite, hfinite, hreturns, hevaluations, haccounted.rounds, haccounted.status, population,
    hengine, ?_⟩
  rw [hlength]
  change min d.2.ledger.evaluations 3 = 3
  rw [hevaluations]
  decide

end Run

end BoxSearch
