import Mathlib
import BoxSearch.Proofs.Counts.Terms
import BoxSearch.Proofs.Partition.Levels
import BoxSearch.Proofs.Partition.Steps
import BoxSearch.Simplex

/-!
# Methods that look at the budget between rounds, on their terms

A simplex looks at the budget before each round and a partition before each division, so that both may
make more evaluations than the budget has.  Every round of a simplex evaluates a reflected point, and
every iteration of a partition divides a cell, which has a longest side: so the evaluations of both
grow until the budget is spent, if nothing else ends the search before.
-/

namespace BoxSearch

variable {σ α : Type} [Scalar α] {n : ℕ} {t : Task α n}

/-! ## 1. Simplexes -/

namespace Simplex

variable {p : Params α}

/-- The budget is spent, or a reflected cost ties a vertex. -/
def terms (t : Task α n) : Terms α where
  admits _ := True
  ends
    | .budgetSpent, e, _ => t.budget ≤ e
    | .degenerate _ _, _, _ => True
    | .nonFinite _ _, _, _ => True
    | _, _, _ => False
  nonFinite _ _ _ _ := trivial

/-- Moreover every vertex was evaluated, and the last round overshot the budget by no more than the
`n + 2` evaluations that a round has at most. -/
def overshoot (t : Task α n) : Terms α where
  admits e := e ≤ t.budget + n + 1
  ends
    | .budgetSpent, e, _ => t.budget ≤ e ∧ n + 1 ≤ e
    | .degenerate _ _, e, _ => n + 1 ≤ e
    | .nonFinite _ _, _, _ => True
    | _, _, _ => False
  nonFinite _ _ _ _ := trivial

/-- A search that ends on these terms ends on the terms of the method. -/
theorem terms_of_overshoot {phase : Phase α} {e r : ℕ} (h : (overshoot t).ends phase e r) :
    (terms t).ends phase e r := by
  cases phase with
  | budgetSpent => exact h.1
  | degenerate _ _ => trivial
  | nonFinite _ _ => trivial
  | _ => exact h

/-- At least `least` evaluations were made, and `spare` more are admitted. -/
structure Room (t : Task α n) (least spare e : ℕ) : Prop where
  least_le : least ≤ e
  spare_le : e + spare ≤ t.budget + n + 1

/-- What is made is no less than what was counted on, and what is admitted need not be made. -/
theorem Room.mono {least least' spare spare' e : ℕ} (h : Room t least spare e)
    (hleast : least' ≤ least) (hspare : spare' ≤ spare) : Room t least' spare' e :=
  ⟨hleast.trans h.least_le, (Nat.add_le_add_left hspare e).trans h.spare_le⟩

omit [Scalar α] in
theorem vertices_counted {T : Terms α} {P : ℕ → ℕ → State α n → Prop} :
    Counted T P (vertices : SearchM σ α n (State α n) (Vertices α n)) fun _ => P := by
  apply Counted.own_bind
  intro s
  cases s.vertices with
  | nil => exact .fault
  | cons v rest => exact .pure fun _ _ _ h => h.1

section

variable {T : Terms α} {C : ℕ → Prop}

omit [Scalar α] in
theorem modifyVertices_counted (f : Vertices α n → Vertices α n) :
    Counted T (fun e _ _ => C e) (modifyVertices f : SearchM σ α n (State α n) Unit)
      fun _ e _ _ => C e :=
  .modifyOwn_of_counts _

omit [Scalar α] in
theorem note_counted (move : Move) :
    Counted T (fun e _ _ => C e) (note move : SearchM σ α n (State α n) Unit) fun _ e _ _ => C e :=
  .modifyOwn_of_counts _

end

variable {least spare : ℕ}

theorem evaluate_counted (x : Point α n) :
    Counted (overshoot t) (fun e _ _ => Room t least (spare + 1) e)
      (SearchM.evaluate t x : SearchM σ α n (State α n) (Cost α))
      fun _ e _ _ => Room t (least + 1) spare e := by
  have hspend (e : ℕ) (h : Room t least (spare + 1) e) : Room t (least + 1) spare (e + 1) :=
    ⟨Nat.succ_le_succ h.least_le, by have := h.spare_le; omega⟩
  exact .evaluate (fun e _ _ h => (Nat.le_add_right _ spare).trans (hspend e h).spare_le)
    fun e _ _ h => hspend e h

theorem trial_counted (x : Point α n) :
    Counted (overshoot t) (fun e _ _ => Room t least (spare + 1) e)
      (SearchM.trial t x : SearchM σ α n (State α n) α)
      fun _ e _ _ => Room t (least + 1) spare e :=
  .bind (evaluate_counted x) fun k => .requireFinite k

/-- One evaluation for each place. -/
theorem shrinkAt_counted (best : Point α n) (places : List ℕ) :
    Counted (overshoot t) (fun e _ _ => Room t least places.length e)
      (shrinkAt t p best places : SearchM σ α n (State α n) Unit)
      fun _ e _ _ => Room t (least + places.length) 0 e := by
  induction places generalizing least with
  | nil => exact .pure fun _ _ _ h => h
  | cons k rest ih =>
    apply Counted.bind vertices_counted
    intro v
    cases v[k]? with
    | none => exact .fault
    | some s =>
      apply Counted.bind (.use p.shrinkage)
      intro shrinkage
      apply Counted.bind (modifyVertices_counted _)
      intro _
      apply Counted.bind (evaluate_counted _)
      intro c
      apply Counted.bind (modifyVertices_counted _)
      intro _
      apply Counted.bind (.requireFinite c)
      intro _
      exact ih.post fun _ _ _ _ h => h.mono (by rw [List.length_cons]; omega) le_rfl

theorem shrink_counted :
    Counted (overshoot t) (fun e _ _ => Room t least n e)
      (shrink t p : SearchM σ α n (State α n) Unit) fun _ e _ _ => Room t least 0 e := by
  apply Counted.bind vertices_counted
  intro v
  cases v with
  | nil => exact .fault
  | cons best others =>
    have hlength : ((List.range n).map (· + 1)).length = n := by
      rw [List.length_map, List.length_range]
    exact ((shrinkAt_counted _ _).pre fun _ _ _ h => h.mono le_rfl hlength.le).post
      fun _ _ _ _ h => h.mono (Nat.le_add_right least _) le_rfl

/-- One evaluation. -/
theorem expand_counted (middle xr : Point α n) (fr : α) :
    Counted (overshoot t) (fun e _ _ => Room t least (spare + 1) e)
      (expand t p middle xr fr : SearchM σ α n (State α n) Unit)
      fun _ e _ _ => Room t (least + 1) spare e := by
  apply Counted.bind (note_counted .expand)
  intro _
  apply Counted.bind (.use p.expansion)
  intro expansion
  apply Counted.bind (trial_counted _)
  intro fe
  exact .ite (fun _ => modifyVertices_counted _) fun _ => modifyVertices_counted _

/-- One evaluation, and one more for each vertex but the best where nothing along the line helps. -/
theorem contract_counted (worst : Sample α n) (middle xr : Point α n) (fr : α) :
    Counted (overshoot t) (fun e _ _ => Room t least (n + 1) e)
      (contract t p worst middle xr fr : SearchM σ α n (State α n) Unit)
      fun _ e _ _ => Room t least 0 e := by
  apply Counted.bind (note_counted _)
  intro _
  apply Counted.bind (.use p.contraction)
  intro contraction
  apply Counted.bind (trial_counted _)
  intro fc
  apply Counted.ite
  · intro _
    exact (modifyVertices_counted _).post fun _ _ _ _ h =>
      h.mono (Nat.le_succ least) (Nat.zero_le n)
  · intro _
    apply Counted.bind (note_counted .shrink)
    intro _
    exact shrink_counted.pre fun _ _ _ h => h.mono (Nat.le_succ least) le_rfl

/-- A tie halts the search, so that anything could be said of the counts afterwards. -/
theorem endDegenerate_counted (fr : α) (hleast : n + 1 ≤ least)
    {Q : Unit → ℕ → ℕ → State α n → Prop} :
    Counted (overshoot t) (fun e _ _ => Room t least spare e)
      (endDegenerate fr : SearchM σ α n (State α n) Unit) Q :=
  fun _ hc => ⟨hc.admitted, hleast.trans hc.counts.least_le⟩

/-- A round evaluates the reflected point, and `n + 1` points more at most. -/
theorem round_counted (start : ℕ) (hlow : n + 1 ≤ start) (hstart : start < t.budget) :
    Counted (overshoot t) (fun e _ _ => e = start) (round t p : SearchM σ α n (State α n) Unit)
      fun _ e _ _ => start < e := by
  have hroom : Counted (overshoot t) (fun e _ _ => Room t start (n + 1 + 1) e)
      (round t p : SearchM σ α n (State α n) Unit) fun _ e _ _ => start < e := by
    apply Counted.bind vertices_counted
    intro v
    cases v.corners? with
    | none => exact .fault
    | some c =>
      apply Counted.bind (.use p.reflection)
      intro reflection
      apply Counted.bind (trial_counted _)
      intro fr
      have hend (spare : ℕ) : Counted (overshoot t) (fun e _ _ => Room t (start + 1) spare e) (do
          modifyVertices (·.ranked)
          SearchM.endRound : SearchM σ α n (State α n) Unit) fun _ e _ _ => start < e :=
        .bind (modifyVertices_counted _) fun _ => .endRound fun _ _ _ h => h.least_le
      apply Counted.ite
      · intro _
        exact .bind (note_counted .reflect) fun _ => .bind (modifyVertices_counted _) fun _ => hend _
      · intro _
        apply Counted.ite
        · intro _
          apply Counted.bind (expand_counted _ _ fr)
          exact fun _ => (hend n).pre fun _ _ _ h => h.mono (Nat.le_succ _) le_rfl
        · intro _
          apply Counted.ite
          · intro _
            exact .bind (contract_counted _ _ _ fr) fun _ => hend 0
          · intro _
            exact .bind (endDegenerate_counted fr (Nat.le_succ_of_le hlow)) fun _ => hend 0
  exact hroom.pre fun e _ _ he => ⟨he.ge, by omega⟩

variable [DrawSource σ α]

/-- Every vertex is evaluated, whatever the budget. -/
theorem found_counted :
    Counted (overshoot t) (fun e _ _ => e = 0) (found t p : SearchM σ α n (State α n) Unit)
      fun _ e _ _ => Room t (n + 1) 0 e := by
  have hadd (x : Point α n) (least spare : ℕ) :
      Counted (overshoot t) (fun e _ _ => Room t least (spare + 1) e)
        (addVertex t x : SearchM σ α n (State α n) Unit)
        fun _ e _ _ => Room t (least + 1) spare e := by
    apply Counted.bind (evaluate_counted x)
    intro c
    apply Counted.bind (modifyVertices_counted _)
    intro _
    exact .bind (.requireFinite c) fun _ => .pure fun _ _ _ h => h
  have haround (first : Point α n) (k least : ℕ) :
      Counted (overshoot t) (fun e _ _ => Room t least k e)
        (foundAround t p first k : SearchM σ α n (State α n) Unit)
        fun _ e _ _ => Room t (least + k) 0 e := by
    induction k generalizing least with
    | zero => exact .pure fun _ _ _ h => h
    | succ k ih =>
      apply Counted.bind (.drawOr _)
      intro x
      apply Counted.bind (hadd x least k)
      intro _
      exact (ih (least + 1)).post fun _ _ _ _ h => h.mono (by omega) le_rfl
  apply Counted.bind (.drawOr (firstVertex t p))
  intro first
  apply Counted.bind (modifyVertices_counted _)
  intro _
  apply Counted.bind ((hadd first 0 n).pre fun e _ _ he => ⟨Nat.zero_le e, by omega⟩)
  intro _
  apply Counted.bind (haround first n (0 + 1))
  intro _
  exact (modifyVertices_counted _).post fun _ _ _ _ h => h.mono (by omega) le_rfl

theorem run_counted :
    SearchM.Triple ((overshoot t).Under fun e _ _ => e = 0)
      (run t p : SearchM σ α n (State α n) Unit) (fun _ => (overshoot t).Over)
      (overshoot t).Halts := by
  apply Counted.finish (Q := fun _ e _ _ => n + 1 ≤ e ∧ t.budget ≤ e)
  · apply Counted.bind found_counted
    intro _
    apply (Counted.roundsWithin (P := fun e _ _ => n + 1 ≤ e) (fun start hstart => ?_) t.budget).pre
    · exact fun e _ _ h => ⟨h.least_le, Nat.le_add_left _ e⟩
    · apply Counted.assume (p := n + 1 ≤ start)
      · rintro e r k ⟨hlow, rfl⟩
        exact hlow
      · intro hlow
        have hround := round_counted (t := t) (p := p) (σ := σ) start hlow hstart
        exact (hround.pre fun _ _ _ h => h.2).post fun _ e _ _ h => ⟨hlow.trans h.le, h⟩
  · exact fun _ _ _ _ h _ => ⟨h.2, h.1⟩

end Simplex

/-! ## 2. Partitions -/

namespace Hull

/-- What is selected is never nothing: where no candidate is promising, one stands in. -/
theorem ne_nil_of_select {ep : α} {cells : List (Sighting α)} {selection : List ℕ × Bool}
    (h : select ep cells = some selection) : selection.1 ≠ [] := by
  unfold select at h
  split at h
  · exact nomatch h
  · split at h
    · rw [← Option.some.inj h]
      exact List.cons_ne_nil _ _
    · rename_i hsome
      rw [← Option.some.inj h]
      exact hsome

theorem ne_nil_of_selectFor {ep : Quantity α} {cells : List (Sighting α)}
    {selection : List ℕ × Bool} (h : selectFor ep cells = .ok selection) : selection.1 ≠ [] := by
  have hselect (e : α)
      (hs : Usable.ofOption (Fault.noSuchMember (α := α)) (select e cells) = .ok selection) :
      selection.1 ≠ [] := by
    cases hselect : select e cells with
    | none =>
      rw [hselect] at hs
      exact nomatch hs
    | some s =>
      rw [hselect] at hs
      rw [← Except.ok.inj hs]
      exact ne_nil_of_select hselect
  unfold selectFor at h
  split at h
  · exact hselect _ h
  · split at h
    · exact nomatch h
    · exact hselect _ h

end Hull

namespace Partition

variable {p : Params α}

/-- The budget is spent, or the cap on iterations is reached before, or the known optimum. -/
def terms (t : Task α n) (p : Params α) : Terms α where
  admits _ := True
  ends
    | .budgetSpent, e, _ => t.budget ≤ e
    | .iterationsDone cap, e, r => p.iterations = some cap ∧ r = cap ∧ e < t.budget
    | .targetReached _, _, _ => p.target.isSome
    | .nonFinite _ _, _, _ => True
    | _, _, _ => False
  nonFinite _ _ _ _ := trivial

/-- Moreover the last division overshot the budget by no more than the evaluations along all sides. -/
def overshoot (t : Task α n) (p : Params α) : Terms α :=
  { terms t p with admits := fun e => e ≤ t.budget + 2 * n - 1 }

/-- Two samples along each side. -/
theorem probe_counted (number : ℕ) (c : Cell α n) (delta : α) (sides : List (Fin n)) (start : ℕ)
    (hroom : start + 2 * sides.length ≤ t.budget + 2 * n - 1) :
    Counted (overshoot t p) (fun e r _ => e = start ∧ r = number)
      (probe t c delta sides : SearchM σ α n (State α n) (List (Probe α n)))
      fun _ e r _ => e = start + 2 * sides.length ∧ r = number := by
  induction sides generalizing start with
  | nil => exact .pure fun _ _ _ h => h
  | cons i rest ih =>
    rw [List.length_cons] at hroom ⊢
    have hnext (j : ℕ) (x : Point α n) (hj : j + 1 ≤ t.budget + 2 * n - 1) :
        Counted (overshoot t p) (fun e r _ => e = j ∧ r = number)
          (SearchM.trial t x : SearchM σ α n (State α n) α) fun _ e r _ => e = j + 1 ∧ r = number :=
      .trial (fun e _ _ h => h.1 ▸ hj) fun e r _ h => ⟨congrArg (· + 1) h.1, h.2⟩
    apply Counted.bind (hnext start _ (by omega))
    intro fl
    apply Counted.bind (hnext (start + 1) _ (by omega))
    intro fr
    apply Counted.bind (ih (start + 1 + 1) (by omega))
    intro others
    exact .pure fun e r _ h => ⟨by omega, h.2⟩

/-- A cell has a longest side, and no more of them than sides. -/
theorem divide_counted (number place start : ℕ) (hstart : start < t.budget) :
    Counted (overshoot t p) (fun e r _ => e = start ∧ r = number)
      (divide t place : SearchM σ α n (State α n) Unit) fun _ e r _ => start < e ∧ r = number := by
  apply Counted.own_bind
  intro s
  cases s.cells[place]? with
  | none => exact .fault
  | some c =>
    have hsome : 0 < c.longestSides.length :=
      List.length_pos_iff.mpr (c.longestSides_ne_nil ⟨0, t.region.nonempty⟩)
    have hall : c.longestSides.length ≤ n :=
      (List.length_filter_le _ _).trans_eq (List.length_finRange)
    apply Counted.bind (.use (thirdOf c.fewestCuts))
    intro delta
    apply Counted.bind ((probe_counted number c delta c.longestSides start (by omega)).pre
      fun _ _ _ h => h.1)
    intro probes
    exact .modifyOwn fun e r _ h => ⟨by omega, h.2⟩

theorem divideAll_counted (number start : ℕ) (places : List ℕ) :
    Counted (overshoot t p) (fun e r _ => start ≤ e ∧ r = number)
      (divideAll t places : SearchM σ α n (State α n) Unit) fun _ e r _ => start ≤ e ∧ r = number := by
  induction places with
  | nil => exact .pure fun _ _ _ h => h
  | cons place rest ih =>
    apply Counted.withinBudget_bind
    · apply Counted.named
      intro now _
      apply Counted.assume (p := start ≤ now ∧ now < t.budget)
      · rintro e r k ⟨⟨⟨hge, -⟩, hlt⟩, rfl, -⟩
        exact ⟨hge, hlt⟩
      · rintro ⟨hge, hlt⟩
        apply Counted.bind ((divide_counted number place now hlt).pre fun _ _ _ h =>
          ⟨h.2.1, h.1.1.2⟩)
        intro _
        exact ih.pre fun e r _ h => ⟨hge.trans h.1.le, h.2⟩
    · exact .pure fun _ _ _ h => h.1

/-- While there is something left of the budget, the first of the cells is divided. -/
theorem divideAll_cons_counted (number start place : ℕ) (rest : List ℕ) (hstart : start < t.budget) :
    Counted (overshoot t p) (fun e r _ => e = start ∧ r = number)
      (divideAll t (place :: rest) : SearchM σ α n (State α n) Unit)
      fun _ e r _ => start < e ∧ r = number := by
  apply Counted.withinBudget_bind
  · apply Counted.bind ((divide_counted number place start hstart).pre fun _ _ _ h => h.1)
    intro _
    exact divideAll_counted number (start + 1) rest
  · apply Counted.assume (p := False)
    · rintro e r k ⟨⟨rfl, -⟩, hge⟩
      exact absurd hstart (Nat.not_lt.mpr hge)
    · exact False.elim

section

variable {C : ℕ → ℕ → Prop}

theorem enterRecord_counted {T : Terms α} :
    Counted T (fun e r _ => C e r) (enterRecord : SearchM σ α n (State α n) Unit)
      fun _ e r _ => C e r := by
  apply Counted.bind .ledger
  intro L
  apply Counted.own_bind
  intro s
  apply Counted.pre (S := fun e r _ => C e r) _ fun _ _ _ h => h.1
  exact .bind (.modifyOwn_of_counts _) fun _ => .report _

/-- A target that is reached ends the search, and only a target that is given is reached. -/
theorem checkTarget_counted :
    SearchM.Triple ((overshoot t p).Under fun e r _ => C e r)
      (checkTarget p : SearchM σ α n (State α n) Bool)
      (fun reached => (overshoot t p).Onward (fun e r _ => C e r) !reached) (overshoot t p).Halts := by
  apply checkTarget_rule
  · exact fun _ hd => hd
  · intro d target least hd htarget _ _
    exact hd.stopped rfl (htarget ▸ rfl : p.target.isSome = true)
  · exact fun _ _ hd _ => hd.admitted

/-- One more iteration was carried out. -/
theorem checkIterations_counted :
    SearchM.Triple
      ((overshoot t p).Under fun e r _ => C e r ∧ ∀ cap ∈ p.iterations, r ≤ cap)
      (checkIterations t p : SearchM σ α n (State α n) Bool)
      (fun reached => (overshoot t p).Onward
        (fun e r _ => C e r ∧ ∀ cap ∈ p.iterations, r < cap) !reached)
      (overshoot t p).Halts := by
  apply checkIterations_rule
  · exact fun _ hd hless => ⟨hd.phase, hd.admitted, hd.counts.1, hless⟩
  · intro d cap hd hcap hrounds hlt
    exact hd.stopped rfl ⟨hcap, Nat.le_antisymm (hd.counts.2 cap hcap) hrounds, hlt⟩
  · exact fun _ _ hd _ _ hspent => hd.isOver (Nat.le_of_not_lt hspent)

theorem select_counted {P : ℕ → ℕ → State α n → Prop} :
    Counted (overshoot t p) P (select p : SearchM σ α n (State α n) (List ℕ))
      fun places e r k => places ≠ [] ∧ P e r k := by
  apply select_rule
  · intro d places hd hselected
    exact ⟨hd.phase, hd.admitted, Hull.ne_nil_of_selectFor hselected, hd.counts⟩
  · intro d places hd hselected
    exact ⟨hd.phase, hd.admitted, Hull.ne_nil_of_selectFor hselected, hd.counts⟩
  · exact fun _ _ hd _ => hd.admitted

end

/-- What an iteration checks when its cells are divided. -/
theorem iterate_checks (start : ℕ) :
    SearchM.Triple
      ((overshoot t p).Under fun e r _ => start < e ∧ ∀ cap ∈ p.iterations, r ≤ cap)
      (do
        if ← checkTarget p then pure false
        else if ← checkIterations t p then pure false
        else SearchM.withinBudget t : SearchM σ α n (State α n) Bool)
      ((overshoot t p).Onward fun e r _ =>
        (∀ cap ∈ p.iterations, r < cap) ∧ start < e ∧ e < t.budget)
      (overshoot t p).Halts := by
  apply SearchM.Triple.bind (checkTarget_counted
    (C := fun e r => start < e ∧ ∀ cap ∈ p.iterations, r ≤ cap))
  intro reached
  cases reached with
  | true => exact .pure fun c hc => hc
  | false =>
    apply SearchM.Triple.bind (checkIterations_counted (C := fun e _ => start < e))
    intro capped
    cases capped with
    | true => exact .pure fun c hc => hc
    | false =>
      apply Counted.onward Counted.withinBudget
      · exact fun e r _ h => ⟨h.2.2, h.2.1, of_decide_eq_true h.1.symm⟩
      · exact fun e r _ h _ => Nat.le_of_not_lt (of_decide_eq_false h.1.symm)

/-- An iteration that is carried out divides a cell at least. -/
theorem iterate_goesOn (start number : ℕ) (hstart : start < t.budget)
    (hcap : ∀ cap ∈ p.iterations, number < cap) :
    SearchM.Triple ((overshoot t p).Under fun e r _ => e = start ∧ r = number)
      (do
        divideAll t (← select p)
        SearchM.endRound
        enterRecord
        if ← checkTarget p then pure false
        else if ← checkIterations t p then pure false
        else SearchM.withinBudget t : SearchM σ α n (State α n) Bool)
      ((overshoot t p).Onward fun e r _ =>
        (∀ cap ∈ p.iterations, r < cap) ∧ start < e ∧ e < t.budget)
      (overshoot t p).Halts := by
  apply SearchM.Triple.bind (select_counted (P := fun e r _ => e = start ∧ r = number))
  intro places
  have hdivide : Counted (overshoot t p) (fun e r _ => places ≠ [] ∧ e = start ∧ r = number)
      (divideAll t places : SearchM σ α n (State α n) Unit)
      fun _ e r _ => start < e ∧ r = number := by
    apply Counted.assume fun _ _ _ h => h.1
    intro hsome
    obtain ⟨place, rest, rfl⟩ := List.exists_cons_of_ne_nil hsome
    exact (divideAll_cons_counted number start place rest hstart).pre fun _ _ _ hc => hc.2
  apply SearchM.Triple.bind hdivide
  intro _
  apply SearchM.Triple.bind (Counted.endRound
    (P := fun e r _ => start < e ∧ r = number)
    (S := fun e r _ => start < e ∧ ∀ cap ∈ p.iterations, r ≤ cap)
    fun e r _ h => ⟨h.1, fun cap hmem => h.2 ▸ hcap cap hmem⟩)
  intro _
  apply SearchM.Triple.bind enterRecord_counted
  exact fun _ => iterate_checks start

/-- A search whose cap on iterations is not reached goes on with one more of them. -/
theorem iterate_counted (start : ℕ) :
    SearchM.Triple
      ((overshoot t p).Under fun e r _ => (∀ cap ∈ p.iterations, r < cap) ∧ e = start)
      (iterate t p : SearchM σ α n (State α n) Bool)
      ((overshoot t p).Onward fun e r _ =>
        (∀ cap ∈ p.iterations, r < cap) ∧ start < e ∧ e < t.budget)
      (overshoot t p).Halts := by
  apply SearchM.Triple.bind (Q := fun _ => (overshoot t p).Under fun e r _ =>
    (∀ cap ∈ p.iterations, r < cap) ∧ e = start) (.own fun c hc => hc)
  intro s
  apply SearchM.Triple.bind (Counted.require s.initialized .notInitialized)
  intro _
  apply SearchM.Triple.bind (Q := fun L c => L.phase = .running ∧ (overshoot t p).Under (fun e r _ =>
    (∀ cap ∈ p.iterations, r < cap) ∧ e = start) c) (.ledger fun c hc => ⟨hc.phase, hc⟩)
  rintro L c ⟨hL, hc⟩
  rw [hL]
  refine SearchM.Triple.bind (P := (overshoot t p).Under fun e r _ =>
    (∀ cap ∈ p.iterations, r < cap) ∧ e = start) Counted.withinBudget ?_ c hc
  intro b c hc
  obtain ⟨hb, hcap, he⟩ := hc.counts
  cases b with
  | true =>
    have hlt : start < t.budget := he ▸ of_decide_eq_true hb.symm
    exact iterate_goesOn start c.ledger.rounds hlt hcap c ⟨hc.phase, hc.admitted, he, rfl⟩
  | false => exact hc.isOver (Nat.le_of_not_lt (of_decide_eq_false hb.symm))

theorem setUp_counted :
    SearchM.Triple ((overshoot t p).Under fun e r _ => e = 0 ∧ r = 0)
      (setUp t p : SearchM σ α n (State α n) Bool)
      ((overshoot t p).Onward fun e r _ => e = 1 ∧ r = 0) (overshoot t p).Halts := by
  apply SearchM.Triple.bind (Q := fun _ => (overshoot t p).Under fun e r _ => e = 0 ∧ r = 0)
    (.own fun c hc => hc)
  intro s
  apply SearchM.Triple.bind (Counted.require (!s.initialized) .alreadyInitialized)
  intro _
  apply SearchM.Triple.bind Counted.markRunning
  intro _
  apply SearchM.Triple.bind (Counted.modifyOwn_of_counts (C := fun e r => e = 0 ∧ r = 0) _)
  intro _
  have hfirst : (overshoot t p).admits (0 + 1) := by
    show 0 + 1 ≤ t.budget + 2 * n - 1
    have hsome := t.region.nonempty
    omega
  apply SearchM.Triple.bind (Counted.trial (S := fun e r _ => e = 1 ∧ r = 0)
    (fun e _ _ h => h.1 ▸ hfirst) fun e r _ h => ⟨congrArg (· + 1) h.1, h.2⟩)
  intro v
  apply SearchM.Triple.bind (Counted.modifyOwn_of_counts (C := fun e r => e = 1 ∧ r = 0) _)
  intro _
  apply SearchM.Triple.bind enterRecord_counted
  intro _
  apply SearchM.Triple.bind (checkTarget_counted (C := fun e r => e = 1 ∧ r = 0))
  exact fun reached => .pure fun c hc => hc

theorem run_counted (hcap : ∀ cap ∈ p.iterations, 0 < cap) :
    SearchM.Triple ((overshoot t p).Under fun e r _ => e = 0 ∧ r = 0)
      (run t p : SearchM σ α n (State α n) Unit) (fun _ => (overshoot t p).Over)
      (overshoot t p).Halts := by
  apply SearchM.Triple.bind setUp_counted
  intro b
  cases b with
  | true =>
    intro c hc
    obtain ⟨he, hr⟩ := hc.counts
    exact Counted.repeatWhile iterate_counted (t.budget + 1) c
      ⟨hc.phase, hc.admitted, fun cap h => hr ▸ hcap cap h, by omega, Nat.succ_pos _⟩
  | false => exact .pure fun c hc => hc

end Partition

end BoxSearch
