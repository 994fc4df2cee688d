import Mathlib
import BoxSearch.Proofs.Account.Solve
import BoxSearch.Proofs.Partition.Steps

/-!
# A target that is reached

A partition compares its target to the least cost of its cells.  Every finite cost that was answered is
the cost of a cell, or of a sample that is about to get one: so the least cost of the cells is the least
cost that the search found, whenever it is compared, and no other step says that the target is reached.
-/

namespace BoxSearch

/-! ## 1. Costs that were answered -/

namespace Account

variable {α P : Type}

/-- The finite costs that were answered, in their order. -/
def costs (A : Account α P) : List α := A.answers.filterMap fun a => a.2.value?

theorem mem_costs {A : Account α P} {v : α} : v ∈ A.costs ↔ ∃ a ∈ A.answers, a.2 = .finite v := by
  unfold costs
  rw [List.mem_filterMap]
  refine exists_congr fun a => and_congr_right fun _ => ?_
  cases a.2 <;> simp [Cost.value?]

variable [Scalar α]

theorem costs_enter (A : Account α P) (x : P) (v : α) :
    (A.enter x (.finite v)).costs = A.costs ++ [v] := by
  unfold costs
  rw [answers_enter, List.filterMap_append]
  rfl

theorem costs_enter_of_not_finite (A : Account α P) (x : P) {c : Cost α} (hc : ¬c.IsFinite) :
    (A.enter x c).costs = A.costs := by
  unfold costs
  rw [answers_enter, List.filterMap_append]
  cases c with
  | finite v => exact absurd ⟨v, rfl⟩ hc
  | _ => exact List.append_nil _

omit [Scalar α] in
@[simp] theorem costs_enterFailure (A : Account α P) (x : P) : (A.enterFailure x).costs = A.costs := by
  unfold costs
  rw [answers_enterFailure]

/-- A cost that was answered, and no answered cost is below it. -/
structure IsLeast (A : Account α P) (v : α) : Prop where
  mem : v ∈ A.costs
  not_lt : ∀ u ∈ A.costs, ¬u < v

/-- The best cost is a least one. -/
theorem isLeast_of_isBest [Scalar.Ordered α] {A : Account α P} {b : Best α P}
    (h : IsBest A.answers (some b)) : A.IsLeast b.cost := by
  refine ⟨mem_costs.mpr ⟨_, h.mem, rfl⟩, fun u hu => ?_⟩
  obtain ⟨a, ha, hau⟩ := mem_costs.mp hu
  exact h.not_lt ha hau

end Account

namespace Partition

variable {σ α : Type} [Scalar α] {n : ℕ} {t : Task α n} {p : Params α}

/-- Going through costs, the least one so far is kept. -/
theorem foldl_least [Scalar.Ordered α] (first : α) (costs : List α)
    (hproper : ∀ u ∈ first :: costs, Scalar.isFinite u = true) :
    costs.foldl Scalar.least first ∈ first :: costs ∧
      ∀ u ∈ first :: costs, ¬u < costs.foldl Scalar.least first := by
  induction costs generalizing first with
  | nil =>
    refine ⟨List.mem_singleton_self first, fun u hu => ?_⟩
    rw [List.mem_singleton.mp hu]
    exact Scalar.Ordered.lt_irrefl first
  | cons v rest ih =>
    rw [List.foldl_cons]
    by_cases hlt : v < first
    · have hkept : Scalar.least first v = v := if_pos hlt
      obtain ⟨hmem, hleast⟩ := ih v fun u hu => hproper u (List.mem_cons_of_mem first hu)
      rw [hkept]
      refine ⟨List.mem_cons_of_mem first hmem, fun u hu => ?_⟩
      rcases List.mem_cons.mp hu with rfl | hu
      · exact fun hu => hleast v List.mem_cons_self (Scalar.Ordered.lt_trans hlt hu)
      · exact hleast u hu
    · have hkept : Scalar.least first v = first := if_neg hlt
      have hsub : first :: rest ⊆ first :: v :: rest :=
        List.cons_subset_cons first (List.subset_cons_self v rest)
      obtain ⟨hmem, hleast⟩ := ih first fun u hu => hproper u (hsub hu)
      rw [hkept]
      refine ⟨hsub hmem, fun u hu => ?_⟩
      rcases List.mem_cons.mp hu with rfl | hu
      · exact hleast u List.mem_cons_self
      · rcases List.mem_cons.mp hu with rfl | hu
        · intro hless
          rcases Scalar.Ordered.lt_or_lt (hproper first List.mem_cons_self) hless with h | h
          · exact hlt h
          · exact hleast first List.mem_cons_self h
        · exact hleast u (List.mem_cons_of_mem first hu)

/-- The target is missed by less than the tolerance, by the least cost of cells that have the costs
that were answered. -/
def TargetMet (p : Params α) (L : Ledger α n) : Prop :=
  ∃ target least, ∃ cells : List (Cell α n), p.target = some (.ok target) ∧
    (cells.map (·.cost)).Perm L.costs ∧ leastCost cells = some least ∧
    percentError target least < p.tolerance

theorem TargetMet.exists_isLeast [Scalar.Ordered α] {L : Ledger α n} (h : TargetMet p L)
    (hproper : ∀ a ∈ L.answers, a.2.IsProper) :
    ∃ target least, p.target = some (.ok target) ∧ L.IsLeast least ∧
      percentError target least < p.tolerance := by
  obtain ⟨target, least, cells, htarget, hcosts, hleast, herror⟩ := h
  refine ⟨target, least, htarget, ?_, herror⟩
  cases cells with
  | nil => exact nomatch hleast
  | cons c rest =>
    have hmem (u : α) : u ∈ c.cost :: rest.map (·.cost) ↔ u ∈ L.costs := hcosts.mem_iff
    obtain ⟨hfound, hnone⟩ := foldl_least c.cost (rest.map (·.cost)) fun u hu => by
      obtain ⟨a, ha, hau⟩ := Account.mem_costs.mp ((hmem u).mp hu)
      exact hproper a ha u hau
    rw [← Option.some.inj hleast]
    exact ⟨(hmem _).mp hfound, fun u hu => hnone u ((hmem u).mpr hu)⟩

/-! ## 2. The costs of the cells -/

/-- The search is running and keeps `k`, and what was answered are the costs of the cells and of samples
that have no cell yet. -/
structure Tracks (k : State α n) (pending : List α) (c : Course σ α n (State α n)) : Prop where
  phase : c.ledger.phase = .running
  own : c.own = k
  costs : (k.cells.map (·.cost) ++ pending).Perm c.ledger.costs

/-- All samples that were answered have cells. -/
abbrev Tracked (c : Course σ α n (State α n)) : Prop := Tracks c.own [] c

/-- A search that halts does not say that the target is reached. -/
def NotReached (_ : Halt α) (c : Course σ α n (State α n)) : Prop :=
  c.ledger.phase.status ≠ .targetReached

/-- If the search says that the target is reached, then it is. -/
def Truthful (p : Params α) (c : Course σ α n (State α n)) : Prop :=
  c.ledger.phase.status = .targetReached → TargetMet p c.ledger

omit [Scalar α] in
theorem Tracks.notReached {k : State α n} {pending : List α} {c : Course σ α n (State α n)}
    (h : Tracks k pending c) : c.ledger.phase.status ≠ .targetReached := by
  rw [h.phase]
  exact nofun

theorem Tracks.truthful {k : State α n} {pending : List α} {c : Course σ α n (State α n)}
    (h : Tracks k pending c) : Truthful p c := fun hreached => absurd hreached h.notReached

theorem trial_tracks (k : State α n) (pending : List α) (x : Point α n) :
    SearchM.Triple (Tracks k pending) (SearchM.trial t x : SearchM σ α n (State α n) α)
      (fun v => Tracks k (pending ++ [v])) NotReached := by
  apply SearchM.Triple.bind (Q := fun cost c => c.ledger.phase = .running ∧
    ∀ v, cost = .finite v → Tracks k (pending ++ [v]) c)
  · apply SearchM.Triple.evaluate
    · exact fun _ _ _ hc => hc.notReached
    · exact fun _ _ hc _ => hc.notReached
    · rintro cost c hc -
      refine ⟨hc.phase, ?_⟩
      rintro v rfl
      refine ⟨hc.phase, hc.own, ?_⟩
      show (k.cells.map (·.cost) ++ (pending ++ [v])).Perm (c.ledger.enter x (.finite v)).costs
      rw [Account.costs_enter, ← List.append_assoc]
      exact hc.costs.append_right [v]
  · intro cost
    apply SearchM.Triple.requireFinite
    · exact fun v hv _ hc => hc.2 v hv
    · exact fun _ _ _ => nofun

/-- The costs of the two samples along a side. -/
def Probe.costs (s : Probe α n) : List α := [s.left.2, s.right.2]

theorem probe_tracks (k : State α n) (pending : List α) (c : Cell α n) (delta : α)
    (sides : List (Fin n)) :
    SearchM.Triple (Tracks k pending)
      (probe t c delta sides : SearchM σ α n (State α n) (List (Probe α n)))
      (fun probes => Tracks k (pending ++ probes.flatMap Probe.costs)) NotReached := by
  induction sides generalizing pending with
  | nil =>
    apply SearchM.Triple.pure
    intro d hd
    rwa [List.flatMap_nil, List.append_nil]
  | cons i rest ih =>
    apply SearchM.Triple.bind (trial_tracks k pending _)
    intro fl
    apply SearchM.Triple.bind (trial_tracks k (pending ++ [fl]) _)
    intro fr
    apply SearchM.Triple.bind (ih (pending ++ [fl] ++ [fr]))
    intro others
    apply SearchM.Triple.pure
    intro d hd
    rw [List.append_assoc, List.append_assoc] at hd
    exact hd

omit [Scalar α] in
/-- The new cells of a division have the costs of its samples. -/
theorem map_cost_cut (probes : List (Probe α n)) (cuts : Vector ℤ n) :
    (cut probes cuts).2.map (·.cost) = probes.flatMap Probe.costs := by
  induction probes generalizing cuts with
  | nil => rfl
  | cons s rest ih =>
    rw [List.flatMap_cons, ← ih]
    rfl

omit [Scalar α] in
/-- The middle of a division keeps the cost of its cell. -/
theorem map_cost_set {cells : List (Cell α n)} {place : ℕ} {c : Cell α n}
    (hc : cells[place]? = some c) (cuts : Vector ℤ n) :
    (cells.set place { c with cuts }).map (·.cost) = cells.map (·.cost) := by
  obtain ⟨hplace, rfl⟩ := List.getElem?_eq_some_iff.mp hc
  rw [List.map_set]
  show (cells.map (·.cost)).set place cells[place].cost = _
  rw [← List.map_set, List.set_getElem_self]

theorem divide_tracks (k : State α n) (place : ℕ) :
    SearchM.Triple (Tracks k []) (divide t place : SearchM σ α n (State α n) Unit)
      (fun _ => Tracked) NotReached := by
  apply SearchM.Triple.own_bind fun _ hc => hc.own
  cases hcell : k.cells[place]? with
  | none => exact .throw fun _ hc => hc.notReached
  | some c =>
    apply SearchM.Triple.use_bind _ fun _ _ hc => hc.notReached
    intro delta _
    apply SearchM.Triple.bind (probe_tracks k [] c delta _)
    intro probes
    apply SearchM.Triple.modifyOwn
    intro d hd
    refine ⟨hd.phase, rfl, ?_⟩
    show ((d.own.cells.set _ _ ++ _).map (fun c : Cell α n => c.cost) ++ []).Perm d.ledger.costs
    rw [hd.own, List.append_nil, List.map_append, map_cost_set hcell, map_cost_cut]
    refine (List.Perm.append_left _ ?_).trans hd.costs
    exact (List.mergeSort_perm probes _).flatMap_right _

/-! ## 3. Iterations -/

/-- What a step leaves that answers whether the search goes on. -/
def GoesOn (p : Params α) : Bool → Course σ α n (State α n) → Prop
  | true, c => Tracked c
  | false, c => Truthful p c

theorem GoesOn.of_tracked {b : Bool} {c : Course σ α n (State α n)} (h : Tracked c) : GoesOn p b c := by
  cases b with
  | true => exact h
  | false => exact h.truthful

theorem divideAll_tracks (places : List ℕ) :
    SearchM.Triple Tracked (divideAll t places : SearchM σ α n (State α n) Unit)
      (fun _ => Tracked) NotReached := by
  induction places with
  | nil => exact .pure fun _ hc => hc
  | cons place rest ih =>
    apply SearchM.Triple.bind (SearchM.Triple.withinBudget (Q := fun _ => Tracked) fun _ hc => hc)
    intro b
    apply SearchM.Triple.ite
    · exact fun _ => .bind (fun c hc => divide_tracks c.own place c hc) fun _ => ih
    · exact fun _ => .pure fun _ hc => hc

theorem enterRecord_tracks :
    SearchM.Triple Tracked (enterRecord : SearchM σ α n (State α n) Unit) (fun _ => Tracked)
      NotReached := by
  apply SearchM.Triple.bind (.ledger (Q := fun _ => Tracked) fun _ hc => hc)
  intro L
  apply SearchM.Triple.bind (.own (Q := fun _ => Tracked) fun _ hc => hc)
  intro k
  apply SearchM.Triple.bind (.modifyOwn (Q := fun _ => Tracked) fun _ hc => ⟨hc.phase, rfl, hc.costs⟩)
  intro _
  exact .modifyLedger fun _ hc => ⟨hc.phase, rfl, hc.costs⟩

/-- A target that the least cost meets stops the search. -/
theorem checkTarget_run {target least : α} {c : Course σ α n (State α n)}
    (htarget : p.target = some (.ok target)) (hleast : leastCost c.own.cells = some least)
    (herror : percentError target least < p.tolerance) :
    (checkTarget p : SearchM σ α n (State α n) Bool).run c =
      (.ok true,
        { c with ledger := { c.ledger with phase := .targetReached (percentError target least) } }) := by
  have hown : (SearchM.own : SearchM σ α n (State α n) (State α n)).run c = (.ok c.own, c) := rfl
  unfold checkTarget
  rw [run_bind_of_ok hown, htarget, hleast]
  show (if percentError target least < p.tolerance then _ else _ :
    SearchM σ α n (State α n) Bool).run c = _
  rw [if_pos herror]
  rfl

/-- Where the search stops because of its target, the target is reached. -/
theorem checkTarget_tracks :
    SearchM.Triple Tracked (checkTarget p : SearchM σ α n (State α n) Bool)
      (fun reached => GoesOn p !reached) NotReached := by
  apply checkTarget_rule
  · exact fun _ hd => hd
  · intro d target least hd htarget hleast herror _
    refine ⟨target, least, d.own.cells, htarget, ?_, hleast, herror⟩
    rw [← List.append_nil (d.own.cells.map _)]
    exact hd.costs
  · exact fun _ _ hd _ => hd.notReached

theorem checkIterations_tracks :
    SearchM.Triple Tracked (checkIterations t p : SearchM σ α n (State α n) Bool)
      (fun reached => GoesOn p !reached) NotReached := by
  apply checkIterations_rule
  · exact fun _ hd _ => hd
  · exact fun _ _ _ _ _ _ => nofun
  · exact fun _ _ hd _ _ _ => hd.truthful

theorem select_tracks :
    SearchM.Triple Tracked (select p : SearchM σ α n (State α n) (List ℕ)) (fun _ => Tracked)
      NotReached := by
  apply select_rule
  · exact fun _ _ hd _ => hd
  · exact fun _ _ hd _ => ⟨hd.phase, rfl, hd.costs⟩
  · exact fun _ _ hd _ => hd.notReached

/-- What an iteration checks when its cells are divided. -/
theorem checks_tracks :
    SearchM.Triple Tracked
      (do
        if ← checkTarget p then pure false
        else if ← checkIterations t p then pure false
        else SearchM.withinBudget t : SearchM σ α n (State α n) Bool) (GoesOn p) NotReached := by
  apply SearchM.Triple.bind checkTarget_tracks
  intro reached
  cases reached with
  | true => exact .pure fun _ hc => hc
  | false =>
    apply SearchM.Triple.bind checkIterations_tracks
    intro capped
    cases capped with
    | true => exact .pure fun _ hc => hc
    | false => exact .withinBudget fun _ hc => .of_tracked hc

theorem iterate_tracks :
    SearchM.Triple Tracked (iterate t p : SearchM σ α n (State α n) Bool) (GoesOn p) NotReached := by
  apply SearchM.Triple.bind (.own (Q := fun _ => Tracked) fun _ hc => hc)
  intro s
  apply SearchM.Triple.bind (.ite (fun _ => .pure (Q := fun _ => Tracked) fun _ hc => hc) fun _ =>
    .throw fun _ hc => hc.notReached)
  intro _
  apply SearchM.Triple.bind (.ledger (Q := fun _ => Tracked) fun _ hc => hc)
  intro L
  apply SearchM.Triple.bind (.withinBudget (Q := fun _ => Tracked) fun _ hc => hc)
  intro b
  apply SearchM.Triple.ite
  · exact fun _ => .pure fun _ hc => hc.truthful
  · intro _
    apply SearchM.Triple.bind select_tracks
    intro places
    apply SearchM.Triple.bind (divideAll_tracks places)
    intro _
    apply SearchM.Triple.bind (.modifyLedger (Q := fun _ => Tracked) fun _ hc =>
      ⟨hc.phase, rfl, hc.costs⟩)
    intro _
    exact .bind enterRecord_tracks fun _ => checks_tracks

theorem setUp_tracks :
    SearchM.Triple Tracked (setUp t p : SearchM σ α n (State α n) Bool) (GoesOn p) NotReached := by
  intro c hc
  refine SearchM.Triple.own_bind (P := Tracks c.own []) (fun _ hd => hd.own) ?_ c hc
  apply SearchM.Triple.bind (.ite (fun _ => .pure (Q := fun _ => Tracks c.own []) fun _ hd => hd)
    fun _ => .throw fun _ hd => hd.notReached)
  intro _
  apply SearchM.Triple.bind (.modifyLedger (Q := fun _ => Tracks c.own []) fun d hd => ?_)
  · intro _
    apply SearchM.Triple.bind (.modifyOwn (Q := fun _ => Tracks { c.own with initialized := true } [])
      fun d hd => ⟨hd.phase, congrArg (fun s => { s with initialized := true }) hd.own, hd.costs⟩)
    intro _
    apply SearchM.Triple.bind (trial_tracks _ [] _)
    intro v
    apply SearchM.Triple.bind (.modifyOwn (Q := fun _ => Tracked) fun d hd => ⟨hd.phase, rfl, ?_⟩)
    · intro _
      apply SearchM.Triple.bind enterRecord_tracks
      intro _
      exact .bind checkTarget_tracks fun _ => .pure fun _ hd => hd
    · show ((d.own.cells ++ [Cell.whole v]).map (fun c : Cell α n => c.cost) ++ []).Perm
        d.ledger.costs
      rw [hd.own, List.append_nil, List.map_append]
      exact hd.costs
  · have hmark : d.ledger.markRunning = d.ledger := by
      unfold Account.markRunning
      rw [hd.phase]
    rw [hmark]
    exact hd

/-! ## 4. Whole searches -/

theorem repeatWhile_truthful (fuel : ℕ) :
    SearchM.Triple Tracked (SearchM.repeatWhile (iterate t p) fuel : SearchM σ α n (State α n) Unit)
      (fun _ => Truthful p) NotReached := by
  induction fuel with
  | zero => exact .pure fun _ hc => hc.truthful
  | succ fuel ih =>
    apply SearchM.Triple.bind iterate_tracks
    intro b
    cases b with
    | true => exact ih
    | false => exact .pure fun _ hc => hc

theorem run_truthful :
    SearchM.Triple Tracked (run t p : SearchM σ α n (State α n) Unit) (fun _ => Truthful p)
      NotReached := by
  apply SearchM.Triple.bind setUp_tracks
  intro b
  cases b with
  | true => exact repeatWhile_truthful _
  | false => exact .pure fun _ hc => hc

omit [Scalar α] in
theorem status_close_eq (A : Ledger α n) :
    A.close.phase.status = .targetReached ↔ A.phase.status = .targetReached := by
  unfold Account.close
  cases hphase : A.phase <;> simp [Account.report, hphase, Phase.status]

/-- A search that starts without cells and says at its end that the target is reached has reached it. -/
theorem solve_targetMet {draws : σ} {s : State α n} (hs : s.cells = [])
    (hreached : (Course.solve t (run t p) ⟨{}, draws, s⟩).2.ledger.phase.status = .targetReached) :
    TargetMet p (Course.solve t (run t p) ⟨{}, draws, s⟩).2.ledger := by
  have hstart : Tracked (⟨({} : Ledger α n).start n t.budget, draws, s⟩ : Course σ α n (State α n)) := by
    refine ⟨rfl, rfl, ?_⟩
    rw [hs]
    exact .nil
  have hclose (c : Course σ α n (State α n)) (hc : TargetMet p c.ledger) :
      TargetMet p c.ledger.close := by
    have hcosts : c.ledger.close.costs = c.ledger.costs := by
      unfold Account.costs
      rw [Account.answers_close]
    unfold TargetMet at hc ⊢
    rwa [hcosts]
  have hrun := run_truthful (t := t) (p := p) _ hstart
  obtain ⟨d, hd, hsolve⟩ | ⟨d, hd, hsolve⟩ | ⟨f, d, hd, hsolve⟩ :=
    Course.solve_cases (c := ⟨{}, draws, s⟩) rfl hrun <;> rw [hsolve] at hreached ⊢
  · exact hclose d (hd ((status_close_eq _).mp hreached))
  · exact absurd ((status_close_eq _).mp hreached) hd
  · exact absurd hreached hd

end Partition

end BoxSearch
