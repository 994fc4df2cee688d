import BoxSearch.Partition
import BoxSearch.Proofs.Search.Triple

/-!
# The steps around a division

Before an iteration divides anything it selects cells; afterwards it compares the least cost with a
target, and the rounds with a cap.  Each of these steps has one rule with a case for everything that the
step can do, and a proof about them goes by the rules alone.
-/

namespace BoxSearch.Partition

variable {σ α : Type} [Scalar α] {n : Nat} {t : Task α n} {p : Params α}
  {P : Course σ α n (State α n) → Prop} {E : Halt α → Course σ α n (State α n) → Prop}

/-- The selection leaves everything as it is, or tells that no cell is potentially optimal. -/
theorem select_rule {Q : List Nat → Course σ α n (State α n) → Prop}
    (hpromising : ∀ d places, P d →
      Hull.selectFor p.ep (d.own.cells.map Cell.sighting) = .ok (places, false) → Q places d)
    (hfallback : ∀ d places, P d →
      Hull.selectFor p.ep (d.own.cells.map Cell.sighting) = .ok (places, true) →
      Q places { d with ledger := d.ledger.report (.nonePromising (places.headD 0)) })
    (hfault : ∀ d f, P d → Hull.selectFor p.ep (d.own.cells.map Cell.sighting) = .error f →
      E (.fault f) d) :
    SearchM.Triple P (select p : SearchM σ α n (State α n) (List Nat)) Q E := by
  intro d hd
  refine SearchM.Triple.own_bind (P := (· = d)) (fun _ he => congrArg _ he) ?_ d rfl
  cases hselected : Hull.selectFor p.ep (d.own.cells.map Cell.sighting) with
  | error f =>
    rintro e rfl
    exact hfault e f hd hselected
  | ok selection =>
    obtain ⟨places, fallback⟩ := selection
    cases fallback with
    | false =>
      rintro e rfl
      exact hpromising e places hd hselected
    | true =>
      rintro e rfl
      exact hfallback e places hd hselected

/-- The search ends where the least cost is close enough to the target, and goes on where there is no
target or no cell. -/
theorem checkTarget_rule {Q : Bool → Course σ α n (State α n) → Prop}
    (hgoes : ∀ d, P d → Q false d)
    (hreached : ∀ d target least, P d → p.target = some (.ok target) →
      leastCost d.own.cells = some least → percentError target least < p.tolerance →
      Q true
        { d with ledger := { d.ledger with phase := .targetReached (percentError target least) } })
    (hfault : ∀ d f, P d → p.target = some (.error f) → E (.fault f) d) :
    SearchM.Triple P (checkTarget p : SearchM σ α n (State α n) Bool) Q E := by
  intro d hd
  refine SearchM.Triple.own_bind (P := (· = d)) (fun _ he => congrArg _ he) ?_ d rfl
  have hstays : SearchM.Triple (· = d) (pure false : SearchM σ α n (State α n) Bool) Q E :=
    .pure fun _ he => he ▸ hgoes d hd
  cases htarget : p.target with
  | none => exact hstays
  | some goal =>
    cases hleast : leastCost d.own.cells with
    | none => exact hstays
    | some least =>
      cases goal with
      | error f =>
        rintro e rfl
        exact hfault e f hd htarget
      | ok target =>
        apply SearchM.Triple.ite _ fun _ => hstays
        rintro herror e rfl
        exact hreached e target least hd htarget hleast herror

/-- The search ends where the rounds have come to the cap, unless its budget is what ends it. -/
theorem checkIterations_rule {Q : Bool → Course σ α n (State α n) → Prop}
    (hgoes : ∀ d, P d → (∀ cap ∈ p.iterations, d.ledger.rounds < cap) → Q false d)
    (hcapped : ∀ d cap, P d → p.iterations = some cap → cap ≤ d.ledger.rounds →
      d.ledger.evaluations < t.budget →
      Q true { d with ledger := { d.ledger with phase := .iterationsDone cap } })
    (hspent : ∀ d cap, P d → p.iterations = some cap → cap ≤ d.ledger.rounds →
      ¬d.ledger.evaluations < t.budget → Q true d) :
    SearchM.Triple P (checkIterations t p : SearchM σ α n (State α n) Bool) Q E := by
  intro d hd
  unfold checkIterations
  cases hcap : p.iterations with
  | none => exact hgoes d hd fun cap h => nomatch hcap ▸ h
  | some cap =>
    refine SearchM.Triple.bind (P := (· = d)) (Q := fun L e => L = d.ledger ∧ e = d)
      (.ledger fun _ he => ⟨congrArg _ he, he⟩) ?_ d rfl
    rintro L e ⟨rfl, rfl⟩
    by_cases hrounds : cap ≤ e.ledger.rounds
    · rw [if_pos hrounds]
      refine SearchM.Triple.bind (P := (· = e)) (Q := fun _ => Q true) ?_ (fun _ => .pure fun _ h => h) e rfl
      apply SearchM.Triple.bind (Q := fun b c => b = decide (e.ledger.evaluations < t.budget) ∧ c = e)
        (.withinBudget fun _ hc => ⟨by rw [hc], hc⟩)
      intro b
      apply SearchM.Triple.ite
      · rintro hb c ⟨rfl, rfl⟩
        exact hcapped c cap hd hcap hrounds (of_decide_eq_true hb)
      · rintro hb c ⟨rfl, rfl⟩
        exact hspent c cap hd hcap hrounds fun hlt => hb (decide_eq_true hlt)
    · rw [if_neg hrounds]
      refine hgoes e hd fun cap' h => ?_
      rw [hcap] at h
      exact Option.some.inj h ▸ Nat.lt_of_not_le hrounds

end BoxSearch.Partition
