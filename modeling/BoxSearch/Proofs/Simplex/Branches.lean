import Mathlib
import BoxSearch.Proofs.Kept.Simplex

/-!
# One round of a simplex

A round compares the reflected cost with the best cost and with the worst but one, which may coincide.
A tie ends the search; otherwise the comparison decides whether the reflected point is kept, gone
beyond, or come back from.
-/

namespace BoxSearch

namespace Run

variable {σ α : Type} {n : ℕ}

/-- The vertices of a simplex search. -/
def vertices (r : Run σ α n) : Simplex.Vertices α n :=
  match r.engine with
  | .simplex _ s => s.vertices
  | _ => []

/-- What a simplex search did last. -/
def lastMove (r : Run σ α n) : Simplex.Move :=
  match r.engine with
  | .simplex _ s => s.lastMove
  | _ => .nothing

end Run

namespace Simplex

variable {σ α : Type} [Scalar α] {n : ℕ} {t : Task α n} {p : Params α}

/-! ## 1. Where a reflected cost leads -/

/-- The last move of a round, by the best cost, the worst but one and the reflected one. -/
structure Decides (best secondWorst fr : α) (move : Move) : Prop where
  degenerate : move = .degenerate ↔
    Scalar.same fr best = true ∨ Scalar.same fr secondWorst = true
  reflect : move = .reflect ↔ best < fr ∧ fr < secondWorst
  expand : move = .expand ↔ fr < best
  contract : move = .contractOutside ∨ move = .contractInside ∨ move = .shrink ↔ secondWorst < fr

theorem Decides.excludes {best secondWorst fr : α} {move : Move}
    (h : Decides best secondWorst fr move) (hcontract : secondWorst < fr) :
    ¬(best < fr ∧ fr < secondWorst) ∧ ¬fr < best := by
  have hmove := h.contract.mpr hcontract
  constructor
  · intro hreflect
    rw [h.reflect.mpr hreflect] at hmove
    exact absurd hmove (by decide)
  · intro hexpand
    rw [h.expand.mpr hexpand] at hmove
    exact absurd hmove (by decide)

section

variable [Scalar.Linear α] {best secondWorst fr : α} (hle : best ≤ secondWorst)
  (hbest : Scalar.isFinite best = true) (hsecond : Scalar.isFinite secondWorst = true)
  (hfr : Scalar.isFinite fr = true)

theorem decides_reflect (h : best < fr) (h' : fr < secondWorst) :
    Decides best secondWorst fr .reflect where
  degenerate := iff_of_false (by decide) fun hsame =>
    hsame.elim (Scalar.not_same_of_lt h).2 (Scalar.not_same_of_lt h').1
  reflect := iff_of_true rfl ⟨h, h'⟩
  expand := iff_of_false (by decide) fun hlt =>
    Scalar.Ordered.lt_irrefl _ (Scalar.Ordered.lt_trans h hlt)
  contract := iff_of_false (by decide) fun hlt =>
    Scalar.Ordered.lt_irrefl _ (Scalar.Ordered.lt_trans h' hlt)

include hle hsecond in
theorem decides_expand (h : fr < best) : Decides best secondWorst fr .expand := by
  have h' : fr < secondWorst := Scalar.lt_of_lt_of_le hsecond h hle
  refine ⟨iff_of_false (by decide) ?_, iff_of_false (by decide) ?_, iff_of_true rfl h,
    iff_of_false (by decide) ?_⟩
  · exact fun hsame => hsame.elim (Scalar.not_same_of_lt h).1 (Scalar.not_same_of_lt h').1
  · exact fun hlt => Scalar.Ordered.lt_irrefl _ (Scalar.Ordered.lt_trans h hlt.1)
  · exact fun hlt => Scalar.Ordered.lt_irrefl _ (Scalar.Ordered.lt_trans h' hlt)

include hle hbest in
theorem decides_contract (h : secondWorst < fr) {move : Move}
    (hmove : move = .contractOutside ∨ move = .contractInside ∨ move = .shrink) :
    Decides best secondWorst fr move := by
  have h' : best < fr := Scalar.lt_of_le_of_lt hbest hle h
  have hother {other : Move} (hne : other ≠ .contractOutside ∧ other ≠ .contractInside ∧
      other ≠ .shrink) : move ≠ other := by
    rintro rfl
    exact hmove.elim hne.1 fun hmove => hmove.elim hne.2.1 hne.2.2
  refine ⟨iff_of_false (hother (by decide)) ?_, iff_of_false (hother (by decide)) ?_,
    iff_of_false (hother (by decide)) ?_, iff_of_true hmove h⟩
  · exact fun hsame => hsame.elim (Scalar.not_same_of_lt h').2 (Scalar.not_same_of_lt h).2
  · exact fun hlt => Scalar.Ordered.lt_irrefl _ (Scalar.Ordered.lt_trans h hlt.2)
  · exact fun hlt => Scalar.Ordered.lt_irrefl _ (Scalar.Ordered.lt_trans h' hlt)

include hbest hsecond hfr in
/-- If nothing else is the case, there is a tie. -/
theorem decides_degenerate (hreflect : ¬(best < fr ∧ fr < secondWorst)) (hexpand : ¬fr < best)
    (hcontract : ¬secondWorst < fr) : Decides best secondWorst fr .degenerate := by
  refine ⟨iff_of_true rfl ?_, iff_of_false (by decide) hreflect, iff_of_false (by decide) hexpand,
    iff_of_false (by decide) hcontract⟩
  by_cases h : best < fr
  · exact .inr (Scalar.same_of_not_lt hfr hsecond (fun h' => hreflect ⟨h, h'⟩) hcontract)
  · exact .inl (Scalar.same_of_not_lt hfr hbest hexpand h)

end

/-! ## 2. The last move -/

/-- The last move of a course is of some kind. -/
def EndsIn (M : Move → Prop) (d : Course σ α n (State α n)) : Prop := M d.own.lastMove

section

variable {M : Move → Prop}

omit [Scalar α] in
theorem modifyVertices_endsIn (g : Vertices α n → Vertices α n) :
    SearchM.Keeps (EndsIn M)
      (modifyVertices g : SearchM σ α n (State α n) Unit) := .modifyOwn fun _ hd => hd

theorem evaluate_endsIn (x : Point α n) :
    SearchM.Keeps (EndsIn M)
      (SearchM.evaluate t x : SearchM σ α n (State α n) (Cost α)) :=
  .evaluate (fun _ hd => hd) fun _ _ hd => hd

theorem trial_endsIn (x : Point α n) :
    SearchM.Keeps (EndsIn M)
      (SearchM.trial t x : SearchM σ α n (State α n) α) :=
  .bind (evaluate_endsIn x) fun _ => .requireFinite fun _ hd => hd

theorem finish_endsIn :
    SearchM.Keeps (EndsIn M) (finish : SearchM σ α n (State α n) Unit) :=
  .bind (modifyVertices_endsIn _) fun _ => .modifyLedger fun _ hd => hd

omit [Scalar α] in
theorem vertices_endsIn :
    SearchM.Keeps (EndsIn M)
      (vertices : SearchM σ α n (State α n) (Vertices α n)) := by
  apply SearchM.Keeps.bind .own
  intro s
  split
  · exact .throw
  · exact .pure

theorem shrinkAt_endsIn (best : Point α n) (places : List ℕ) :
    SearchM.Keeps (EndsIn M)
      (shrinkAt t p best places : SearchM σ α n (State α n) Unit) := by
  induction places with
  | nil => exact .pure
  | cons k rest ih =>
    apply SearchM.Keeps.bind vertices_endsIn
    intro v
    split
    · exact .throw
    · exact .bind .use fun _ => .bind (modifyVertices_endsIn _) fun _ =>
        .bind (evaluate_endsIn _) fun _ => .bind (modifyVertices_endsIn _) fun _ =>
          .bind (.requireFinite fun _ hd => hd) fun _ => ih

theorem shrink_endsIn :
    SearchM.Keeps (EndsIn M)
      (shrink t p : SearchM σ α n (State α n) Unit) := by
  apply SearchM.Keeps.bind vertices_endsIn
  intro v
  split
  · exact .throw
  · exact shrinkAt_endsIn _ _

omit [Scalar α] in
/-- A move that is noted is the last one, if what follows keeps it. -/
theorem note_bind_endsIn {β : Type} {move : Move} {f : Unit → SearchM σ α n (State α n) β}
    (hmove : M move) (hf : SearchM.Keeps (EndsIn M) (f ())) :
    SearchM.Triple (fun _ => True) (note move >>= f) (fun _ => EndsIn M) fun _ => EndsIn M := by
  have hnote : SearchM.Triple (fun _ => True) (note move : SearchM σ α n (State α n) Unit)
      (fun _ => EndsIn M) fun _ => EndsIn M := by
    apply SearchM.Triple.modifyOwn
    intro _ _
    exact hmove
  exact hnote.bind fun _ => hf

end

section

variable {middle xr : Point α n} {fr : α}

/-- However an expansion ends, it is the last move of its round. -/
theorem expand_endsIn :
    SearchM.Triple (fun _ => True) (expand t p middle xr fr : SearchM σ α n (State α n) Unit)
      (fun _ => EndsIn (· = .expand)) fun _ => EndsIn (· = .expand) := by
  apply note_bind_endsIn (M := (· = .expand)) rfl
  exact .bind .use fun _ => .bind (trial_endsIn _) fun _ =>
    .ite (modifyVertices_endsIn _) (modifyVertices_endsIn _)

/-- A contraction that is not the last move of its round gives way to a shrinking. -/
theorem contract_endsIn {xₙ : Point α n} {fₙ : α} :
    SearchM.Triple (fun _ => True)
      (contract t p ⟨xₙ, .finite fₙ⟩ middle xr fr : SearchM σ α n (State α n) Unit)
      (fun _ => EndsIn fun move => move = sideOf fₙ fr ∨ move = .shrink)
      fun _ => EndsIn fun move => move = sideOf fₙ fr ∨ move = .shrink := by
  have hside : (if (Cost.finite fr).below (.finite fₙ) then Move.contractOutside
      else .contractInside) = sideOf fₙ fr := by
    unfold sideOf
    by_cases h : fr < fₙ <;> simp [Cost.below, h]
  apply note_bind_endsIn (M := fun move => move = sideOf fₙ fr ∨ move = .shrink) (.inl hside)
  exact .bind .use fun _ => .bind (trial_endsIn _) fun _ => .ite (modifyVertices_endsIn _)
    (.bind (.modifyOwn fun _ _ => .inr rfl) fun _ => shrink_endsIn)

theorem shrink_of_not_lt {d : Course σ α n (State α n)} {xₙ xc : Point α n} {fₙ fc contraction : α}
    (hcontraction : p.contraction = .ok contraction)
    (hxc : xc = towards t.region middle contraction (base (xₙ, fₙ) (xr, fr)).1)
    (hc : t.Replies xc (d.ledger.calls + 1) (.ok (.finite fc)))
    (h : ¬fc < (base (xₙ, fₙ) (xr, fr)).2) :
    EndsIn (· = .shrink) ((contract t p ⟨xₙ, .finite fₙ⟩ middle xr fr >>= fun _ => finish :
      SearchM σ α n (State α n) Unit).run d).2 := by
  have hshrink : SearchM.Keeps (EndsIn (· = .shrink))
      (shrink t p >>= fun _ => finish : SearchM σ α n (State α n) Unit) :=
    .bind shrink_endsIn fun _ => finish_endsIn
  rw [run_bind, run_contract_of_not_lt hcontraction hxc hc h, ← run_bind]
  exact hshrink.run rfl

end

section

variable [Scalar.Linear α] {c : Course σ α n (State α n)} {points : Fin (n + 1) → Point α n}
  {f : Fin (n + 1) → α} (hv : c.own.vertices = List.ofFn fun k => ⟨points k, .finite (f k)⟩)
  (hfinite : ∀ k, Scalar.isFinite (f k) = true)
  (hascending : ∀ i j, i ≤ j → f i ≤ f j) {reflection fr : α} {xr : Point α n}
  (hreflection : p.reflection = .ok reflection)
  (hxr : xr = reflected t.region reflection c.own.vertices.centroid (points (Fin.last n)))
  (hr : t.Replies xr (c.ledger.calls + 1) (.ok (.finite fr))) (hfr : Scalar.isFinite fr = true)

include hv hfinite hascending hreflection hxr hr hfr in
/-- The reflected cost decides the last move, whatever is replied to later points. -/
theorem round_decides :
    Decides (f 0) (f (beforeLast n)) fr
        ((round t p : SearchM σ α n (State α n) Unit).run c).2.own.lastMove ∧
      (f (beforeLast n) < fr → EndsIn (fun move => move = sideOf (f (Fin.last n)) fr ∨ move = .shrink)
        ((round t p : SearchM σ α n (State α n) Unit).run c).2) := by
  have hcorners := corners_ofFn hv
  have hle : f 0 ≤ f (beforeLast n) := hascending _ _ (Fin.zero_le _)
  by_cases hreflect : f 0 < fr ∧ fr < f (beforeLast n)
  · rw [run_round_reflect rfl hcorners hreflection hxr hr hreflect.1 hreflect.2]
    refine ⟨decides_reflect hreflect.1 hreflect.2, fun h => ?_⟩
    exact absurd (Scalar.Ordered.lt_trans hreflect.2 h) (Scalar.Ordered.lt_irrefl _)
  by_cases hexpand : fr < f 0
  · have hends : EndsIn (· = .expand) ((round t p : SearchM σ α n (State α n) Unit).run c).2 := by
      rw [run_round_expand rfl hcorners hreflection hxr hr hreflect hexpand]
      exact SearchM.Triple.run (expand_endsIn.bind fun _ => finish_endsIn) trivial
    have hdecides := decides_expand hle (hfinite _) hexpand
    refine ⟨(show _ = Move.expand from hends) ▸ hdecides, fun h => ?_⟩
    exact absurd (hdecides.contract.mpr h) (by decide)
  by_cases hcontract : f (beforeLast n) < fr
  · have hends : EndsIn (fun move => move = sideOf (f (Fin.last n)) fr ∨ move = .shrink)
        ((round t p : SearchM σ α n (State α n) Unit).run c).2 := by
      rw [run_round_contract rfl hcorners hreflection hxr hr hreflect hexpand hcontract]
      exact SearchM.Triple.run (contract_endsIn.bind fun _ => finish_endsIn) trivial
    refine ⟨decides_contract hle (hfinite _) hcontract ?_, fun _ => hends⟩
    rcases hends with h | h
    · rw [h]
      unfold sideOf
      split
      · exact .inl rfl
      · exact .inr (.inl rfl)
    · exact .inr (.inr h)
  · rw [run_round_degenerate rfl hcorners hreflection hxr hr hreflect hexpand hcontract]
    exact ⟨decides_degenerate (hfinite _) (hfinite _) hfr hreflect hexpand hcontract,
      fun h => absurd h hcontract⟩

end

/-! ## 3. Rounds made by hand -/

/-- A round stopped after some evaluations and left the simplex and the count of rounds alone. -/
structure Stops (evaluations : ℕ) (r r' : Run σ α n) : Prop where
  vertices : r'.vertices = r.vertices
  rounds : r'.ledger.rounds = r.ledger.rounds
  evaluations : r'.ledger.evaluations = r.ledger.evaluations + evaluations

/-- A round replaced the worst of the costs `f` by a lower one of those it evaluated.  The vertices are
ranked, and at every rank there is no higher cost than before. -/
structure ReplacesWorst (f : Fin (n + 1) → α) (evaluated : List α) (r r' : Run σ α n) : Prop where
  rounds : r'.ledger.rounds = r.ledger.rounds + 1
  evaluations : r'.ledger.evaluations = r.ledger.evaluations + evaluated.length
  replaced : ∃ w ∈ evaluated, w < f (Fin.last n) ∧
    (r'.vertices.map (·.cost)).Perm (List.ofFn fun k => .finite (Function.update f (Fin.last n) w k))
  ranked : r'.vertices.Pairwise fun s s' => s.cost.notAfter s'.cost = true
  notWorse : ∀ (k : Fin (n + 1)) s, r'.vertices[k.val]? = some s →
    (Cost.finite (f k)).before s.cost = false

/-- The search that stands where a course stands. -/
def runOf (p : Params α) (d : Course σ α n (State α n)) : Run σ α n :=
  ⟨d.ledger, d.draws, .simplex p d.own⟩

section

variable {r : Run σ α n} {s : State α n} (hengine : r.engine = .simplex p s)

include hengine

theorem round_of_run {result : Except (Halt α) Unit} {d : Course σ α n (State α n)}
    (h : (round t p).run ⟨r.ledger, r.draws, s⟩ = (result, d)) :
    r.round t = some (answerOf result, runOf p d) := by
  unfold Run.round
  rw [hengine]
  exact congrArg some (Run.goesOn_carry h)

omit [Scalar α] in
theorem stops_of_stopped {L : Ledger α n} {move : Move} {k : ℕ}
    (hrounds : L.rounds = r.ledger.rounds)
    (hevaluations : L.evaluations = r.ledger.evaluations + k) :
    Stops k r (runOf p (stopped ⟨r.ledger, r.draws, s⟩ L move)) := by
  refine ⟨?_, hrounds, hevaluations⟩
  show s.vertices = r.vertices
  unfold Run.vertices
  rw [hengine]

omit hengine in
theorem replacesWorst_of_replaced [Scalar.Linear α] {points : Fin (n + 1) → Point α n}
    {f : Fin (n + 1) → α} (hv : s.vertices = List.ofFn fun k => ⟨points k, .finite (f k)⟩)
    (hfinite : ∀ k, Scalar.isFinite (f k) = true) (hascending : ∀ i j, i ≤ j → f i ≤ f j)
    {L : Ledger α n} {move : Move} {x : Point α n} {w : α} {evaluated : List α}
    (hrounds : L.rounds = r.ledger.rounds)
    (hevaluations : L.evaluations = r.ledger.evaluations + evaluated.length)
    (hw : Scalar.isFinite w = true) (hmem : w ∈ evaluated) (hlt : w < f (Fin.last n)) :
    ReplacesWorst f evaluated r
      (runOf p (replaced ⟨r.ledger, r.draws, s⟩ L move ⟨x, .finite w⟩)) := by
  obtain ⟨hperm, hranked, hnotWorse⟩ := ranked_replaceWorst hv hfinite hascending (x := x) hw hlt
  exact ⟨congrArg (· + 1) hrounds, hevaluations, ⟨w, hmem, hlt, hperm⟩, hranked, hnotWorse⟩

end

/-! ## 4. The branches of a round -/

section

variable {r : Run σ α n} {s : State α n} (hengine : r.engine = .simplex p s)
  {points : Fin (n + 1) → Point α n} {f : Fin (n + 1) → α}
  (hv : s.vertices = List.ofFn fun k => ⟨points k, .finite (f k)⟩)
  {reflection fr : α} {xr : Point α n} (hreflection : p.reflection = .ok reflection)
  (hxr : xr = reflected t.region reflection s.vertices.centroid (points (Fin.last n)))

include hengine hv hreflection hxr

/-- The reflected point has no finite cost. -/
theorem round_of_nonFinite {cost : Cost α} (hcost : ¬cost.IsFinite)
    (hr : t.Replies xr (r.ledger.calls + 1) (.ok cost)) :
    ∃ r', r.round t = some (.ok false, r') ∧ r'.ledger.phase.status = .nonFinite ∧ Stops 1 r r' := by
  have hrun := run_round_of_breaksOff (c := ⟨r.ledger, r.draws, s⟩) rfl
    (corners_ofFn hv) hreflection hxr hr hcost
  exact ⟨_, round_of_run hengine hrun, rfl, stops_of_stopped hengine rfl rfl⟩

variable (hr : t.Replies xr (r.ledger.calls + 1) (.ok (.finite fr)))

include hr

section

variable (hlow : ¬(f 0 < fr ∧ fr < f (beforeLast n)))

include hlow

theorem round_of_tie (hexpand : ¬fr < f 0) (hcontract : ¬f (beforeLast n) < fr) :
    ∃ r', r.round t = some (.ok false, r') ∧ r'.ledger.phase.status = .degenerate ∧ Stops 1 r r' := by
  have hrun := run_round_degenerate (c := ⟨r.ledger, r.draws, s⟩) rfl
    (corners_ofFn hv) hreflection hxr hr hlow hexpand hcontract
  exact ⟨_, round_of_run hengine hrun, rfl, stops_of_stopped hengine rfl rfl⟩

/-- The point further out has no finite cost. -/
theorem round_of_expand_nonFinite (hexpand : fr < f 0) {expansion : α}
    (hexpansion : p.expansion = .ok expansion) {cost : Cost α} (hcost : ¬cost.IsFinite)
    (he : t.Replies (towards t.region s.vertices.centroid expansion xr) (r.ledger.calls + 2)
      (.ok cost)) :
    ∃ r', r.round t = some (.ok false, r') ∧ r'.ledger.phase.status = .nonFinite ∧ Stops 2 r r' := by
  have hrun := (run_round_expand (c := ⟨r.ledger, r.draws, s⟩) rfl
    (corners_ofFn hv) hreflection hxr hr hlow hexpand).trans
      (run_expand_of_breaksOff hexpansion rfl he hcost)
  exact ⟨_, round_of_run hengine hrun, rfl, stops_of_stopped hengine rfl rfl⟩

section

variable (hexpand : ¬fr < f 0) (hcontract : f (beforeLast n) < fr) {contraction : α}
  (hcontraction : p.contraction = .ok contraction) {xc : Point α n}
  (hxc : xc = towards t.region s.vertices.centroid contraction
    (base (points (Fin.last n), f (Fin.last n)) (xr, fr)).1)

include hexpand hcontract hcontraction hxc

/-- The point on the better side has no finite cost. -/
theorem round_of_contract_nonFinite {cost : Cost α} (hcost : ¬cost.IsFinite)
    (hc : t.Replies xc (r.ledger.calls + 2) (.ok cost)) :
    ∃ r', r.round t = some (.ok false, r') ∧ r'.ledger.phase.status = .nonFinite ∧ Stops 2 r r' := by
  have hrun := (run_round_contract (c := ⟨r.ledger, r.draws, s⟩) rfl
    (corners_ofFn hv) hreflection hxr hr hlow hexpand hcontract).trans
      (run_contract_of_breaksOff hcontraction hxc hc hcost)
  exact ⟨_, round_of_run hengine hrun, rfl, stops_of_stopped hengine rfl rfl⟩

/-- The point on the better side does not help, and all vertices but the best are pulled towards it. -/
theorem round_of_shrink {shrinkage fc : α} (hshrinkage : p.shrinkage = .ok shrinkage)
    (hc : t.Replies xc (r.ledger.calls + 2) (.ok (.finite fc)))
    (hnot : ¬fc < (base (points (Fin.last n), f (Fin.last n)) (xr, fr)).2) {costs : Fin n → α}
    (hreplies : ∀ j : Fin n, t.Replies (towards t.region (points 0) shrinkage (points j.succ))
      (r.ledger.calls + 3 + j) (.ok (.finite (costs j)))) :
    ∃ r', r.round t = some (.ok true, r') ∧ r'.ledger.rounds = r.ledger.rounds + 1 ∧
      r'.ledger.evaluations = r.ledger.evaluations + (n + 2) := by
  obtain ⟨d, hshrink, hrounds, hevaluations⟩ := exists_run_contract_of_not_lt hshrinkage hcontraction
    (d := ⟨r.ledger.enter xr (.finite fr), r.draws, s⟩) hv hxc hc hnot hreplies
  have hrun := (run_round_contract (c := ⟨r.ledger, r.draws, s⟩) rfl
    (corners_ofFn hv) hreflection hxr hr hlow hexpand hcontract).trans
      hshrink
  refine ⟨_, round_of_run hengine hrun, hrounds, hevaluations.trans ?_⟩
  show r.ledger.evaluations + 1 + (n + 1) = _
  omega

end

end

variable [Scalar.Linear α] (hf : t.objective.IsProper)
  (hfinite : ∀ k, Scalar.isFinite (f k) = true) (hascending : ∀ i j, i ≤ j → f i ≤ f j)

include hf hfinite hascending

theorem round_of_reflect (hlow : f 0 < fr) (hhigh : fr < f (beforeLast n)) :
    ∃ r', r.round t = some (.ok true, r') ∧ ReplacesWorst f [fr] r r' := by
  have hrun := run_round_reflect (c := ⟨r.ledger, r.draws, s⟩) rfl
    (corners_ofFn hv) hreflection hxr hr hlow hhigh
  refine ⟨_, round_of_run hengine hrun, replacesWorst_of_replaced hv hfinite hascending rfl rfl
    (hf _ _ _ hr.reply fr rfl) List.mem_cons_self ?_⟩
  exact Scalar.lt_of_lt_of_le (hfinite _) hhigh (hascending _ _ (Fin.le_last _))

theorem round_of_expand (hlow : fr < f 0) {expansion : α} (hexpansion : p.expansion = .ok expansion)
    {xe : Point α n} (hxe : xe = towards t.region s.vertices.centroid expansion xr) {fe : α}
    (he : t.Replies xe (r.ledger.calls + 2) (.ok (.finite fe))) :
    ∃ r', r.round t = some (.ok true, r') ∧ ReplacesWorst f [fr, fe] r r' := by
  have hlast : fr < f (Fin.last n) :=
    Scalar.lt_of_lt_of_le (hfinite _) hlow (hascending _ _ (Fin.zero_le _))
  have hnot : ¬(f 0 < fr ∧ fr < f (beforeLast n)) := fun h =>
    Scalar.Ordered.lt_irrefl _ (Scalar.Ordered.lt_trans hlow h.1)
  have hrun := (run_round_expand (c := ⟨r.ledger, r.draws, s⟩) rfl
    (corners_ofFn hv) hreflection hxr hr hnot hlow).trans
      (run_expand_of_finite hexpansion hxe he)
  by_cases h : fe < fr
  · rw [if_pos h] at hrun
    exact ⟨_, round_of_run hengine hrun, replacesWorst_of_replaced hv hfinite hascending rfl rfl
      (hf _ _ _ he.reply fe rfl) (List.mem_cons_of_mem _ List.mem_cons_self)
      (Scalar.Ordered.lt_trans h hlast)⟩
  · rw [if_neg h] at hrun
    exact ⟨_, round_of_run hengine hrun, replacesWorst_of_replaced hv hfinite hascending rfl rfl
      (hf _ _ _ hr.reply fr rfl) List.mem_cons_self hlast⟩

theorem round_of_contract (hlow : ¬(f 0 < fr ∧ fr < f (beforeLast n))) (hexpand : ¬fr < f 0)
    (hhigh : f (beforeLast n) < fr) {contraction : α}
    (hcontraction : p.contraction = .ok contraction) {xc : Point α n}
    (hxc : xc = towards t.region s.vertices.centroid contraction
      (base (points (Fin.last n), f (Fin.last n)) (xr, fr)).1) {fc : α}
    (hc : t.Replies xc (r.ledger.calls + 2) (.ok (.finite fc)))
    (hlt : fc < (base (points (Fin.last n), f (Fin.last n)) (xr, fr)).2) :
    ∃ r', r.round t = some (.ok true, r') ∧ r'.lastMove = sideOf (f (Fin.last n)) fr ∧
      ReplacesWorst f [fr, fc] r r' := by
  have hlast : fc < f (Fin.last n) := by
    unfold base at hlt
    split at hlt
    · rename_i hside
      exact Scalar.Ordered.lt_trans hlt hside
    · exact hlt
  have hrun := (run_round_contract (c := ⟨r.ledger, r.draws, s⟩) rfl
    (corners_ofFn hv) hreflection hxr hr hlow hexpand hhigh).trans
      (run_contract_of_lt hcontraction hxc hc hlt)
  exact ⟨_, round_of_run hengine hrun, rfl, replacesWorst_of_replaced hv hfinite hascending rfl rfl
    (hf _ _ _ hc.reply fc rfl) (List.mem_cons_of_mem _ List.mem_cons_self) hlast⟩

end

/-- A round of a simplex with finite costs in ascending order.  If the reflected point has no finite
cost, the search ends there.  Otherwise the reflected cost decides the last move: a tie with the best
cost or with the worst but one ends the search; between them the reflected point is kept; below the best
one more point is evaluated further out; above the worst but one, one is evaluated on the side of the
better of the worst vertex and its reflection, and if it is not better still, all others are pulled
towards the best.  A round that ends the search by a tie, or at the reflected point or the one after
it, leaves the simplex as it was; a round that keeps one of these points replaces the worst cost by a
lower one. -/
theorem round_branches [Scalar.Linear α] {r : Run σ α n} {s : State α n}
    (hengine : r.engine = .simplex p s) (hf : t.objective.IsProper)
    {points : Fin (n + 1) → Point α n} {f : Fin (n + 1) → α}
    (hv : s.vertices = List.ofFn fun k => ⟨points k, .finite (f k)⟩)
    (hfinite : ∀ k, Scalar.isFinite (f k) = true) (hascending : ∀ i j, i ≤ j → f i ≤ f j)
    {reflection expansion contraction shrinkage : α} (hreflection : p.reflection = .ok reflection)
    (hexpansion : p.expansion = .ok expansion) (hcontraction : p.contraction = .ok contraction)
    (hshrinkage : p.shrinkage = .ok shrinkage) :
    let best := f 0
    let secondWorst := f (beforeLast n)
    let worst := f (Fin.last n)
    let middle := s.vertices.centroid
    let xr := reflected t.region reflection middle (points (Fin.last n))
    (∀ c : Cost α, ¬c.IsFinite → t.Replies xr (r.ledger.calls + 1) (.ok c) →
      ∃ r', r.round t = some (.ok false, r') ∧ r'.ledger.phase.status = .nonFinite ∧
        Stops 1 r r') ∧
    ∀ fr, t.Replies xr (r.ledger.calls + 1) (.ok (.finite fr)) →
      ∃ b r', r.round t = some (b, r') ∧ Decides best secondWorst fr r'.lastMove ∧
        (r'.lastMove = .degenerate →
          b = .ok false ∧ r'.ledger.phase.status = .degenerate ∧ Stops 1 r r') ∧
        (r'.lastMove = .reflect → b = .ok true ∧ ReplacesWorst f [fr] r r') ∧
        (r'.lastMove = .expand →
          let xe := towards t.region middle expansion xr
          (∀ fe, t.Replies xe (r.ledger.calls + 2) (.ok (.finite fe)) →
            b = .ok true ∧ ReplacesWorst f [fr, fe] r r') ∧
          ∀ c : Cost α, ¬c.IsFinite → t.Replies xe (r.ledger.calls + 2) (.ok c) →
            b = .ok false ∧ r'.ledger.phase.status = .nonFinite ∧ Stops 2 r r') ∧
        (secondWorst < fr →
          let start := base (points (Fin.last n), worst) (xr, fr)
          let xc := towards t.region middle contraction start.1
          (r'.lastMove = sideOf worst fr ∨ r'.lastMove = .shrink) ∧
          (∀ c : Cost α, ¬c.IsFinite → t.Replies xc (r.ledger.calls + 2) (.ok c) →
            b = .ok false ∧ r'.ledger.phase.status = .nonFinite ∧ Stops 2 r r') ∧
          ∀ fc, t.Replies xc (r.ledger.calls + 2) (.ok (.finite fc)) →
            (fc < start.2 →
              b = .ok true ∧ r'.lastMove = sideOf worst fr ∧ ReplacesWorst f [fr, fc] r r') ∧
            (¬fc < start.2 → r'.lastMove = .shrink ∧ ∀ costs : Fin n → α,
              (∀ j : Fin n, t.Replies (towards t.region (points 0) shrinkage (points j.succ))
                (r.ledger.calls + 3 + j) (.ok (.finite (costs j)))) →
              b = .ok true ∧ r'.ledger.rounds = r.ledger.rounds + 1 ∧
                r'.ledger.evaluations = r.ledger.evaluations + (n + 2))) := by
  intro best secondWorst worst middle xr
  let c : Course σ α n (State α n) := ⟨r.ledger, r.draws, s⟩
  constructor
  · exact fun cost hcost hr => round_of_nonFinite hengine hv hreflection rfl hcost hr
  intro fr hr
  have hfr : Scalar.isFinite fr = true := hf _ _ _ hr.reply fr rfl
  obtain ⟨hdecides, hside⟩ :=
    round_decides (c := c) hv hfinite hascending hreflection rfl hr hfr
  rcases hrun : (round t p).run c with ⟨result, d⟩
  rw [hrun] at hdecides hside
  have hround := round_of_run hengine hrun
  -- There is only one round, whatever is shown of it.
  have hsame {b : Except (Fault α) Bool} {r' : Run σ α n} (h : r.round t = some (b, r')) :
      answerOf result = b ∧ runOf p d = r' :=
    Prod.mk.inj (Option.some.inj (hround.symm.trans h))
  refine ⟨answerOf result, runOf p d, hround, hdecides, ?_, ?_, ?_, ?_⟩
  · intro (hmove : d.own.lastMove = .degenerate)
    rw [hmove] at hdecides
    obtain ⟨r', h, hstops⟩ := round_of_tie hengine hv hreflection rfl hr
      (hdecides.reflect.not.mp (by decide)) (hdecides.expand.not.mp (by decide))
      (hdecides.contract.not.mp (by decide))
    obtain ⟨hb, rfl⟩ := hsame h
    exact ⟨hb, hstops⟩
  · intro (hmove : d.own.lastMove = .reflect)
    obtain ⟨hlow, hhigh⟩ := hdecides.reflect.mp hmove
    obtain ⟨r', h, hreplaces⟩ := round_of_reflect hengine hv hreflection rfl hr hf hfinite hascending
      hlow hhigh
    obtain ⟨hb, rfl⟩ := hsame h
    exact ⟨hb, hreplaces⟩
  · intro (hmove : d.own.lastMove = .expand) xe
    have hlow := hdecides.expand.mp hmove
    constructor
    · intro fe he
      obtain ⟨r', h, hreplaces⟩ := round_of_expand hengine hv hreflection rfl hr hf hfinite hascending
        hlow hexpansion rfl he
      obtain ⟨hb, rfl⟩ := hsame h
      exact ⟨hb, hreplaces⟩
    · intro cost hcost he
      rw [hmove] at hdecides
      obtain ⟨r', h, hstops⟩ := round_of_expand_nonFinite hengine hv hreflection rfl hr
        (hdecides.reflect.not.mp (by decide)) hlow hexpansion hcost he
      obtain ⟨hb, rfl⟩ := hsame h
      exact ⟨hb, hstops⟩
  · intro hcontract start xc
    obtain ⟨hlow, hexpand⟩ := hdecides.excludes hcontract
    refine ⟨hside hcontract, fun cost hcost hc => ?_, fun fc hc => ⟨fun hlt => ?_, fun hnot => ⟨?_, ?_⟩⟩⟩
    · obtain ⟨r', h, hstops⟩ := round_of_contract_nonFinite hengine hv hreflection rfl hr hlow hexpand
        hcontract hcontraction rfl hcost hc
      obtain ⟨hb, rfl⟩ := hsame h
      exact ⟨hb, hstops⟩
    · obtain ⟨r', h, hmove, hreplaces⟩ := round_of_contract hengine hv hreflection rfl hr hf hfinite
        hascending hlow hexpand hcontract hcontraction rfl hc hlt
      obtain ⟨hb, rfl⟩ := hsame h
      exact ⟨hb, hmove, hreplaces⟩
    · have h := shrink_of_not_lt (d := { c with ledger := c.ledger.enter xr (.finite fr) }) hcontraction
        rfl hc hnot
      rw [← run_round_contract (c := c) rfl (corners_ofFn hv) hreflection
        rfl hr hlow hexpand hcontract, hrun] at h
      exact h
    · intro costs hreplies
      obtain ⟨r', h, hcounts⟩ := round_of_shrink hengine hv hreflection rfl hr hlow hexpand hcontract
        hcontraction rfl hshrinkage hc hnot hreplies
      obtain ⟨hb, rfl⟩ := hsame h
      exact ⟨hb, hcounts⟩

/-- Neither the reflection of the costs from zero to two nor a contraction improves on the worst. -/
noncomputable def noHelp : Task ℝ 2 :=
  { Run.leastOnSquare with
    objective := fun _ call =>
      .ok (.finite ((if call = 1 then 3 else if call = 2 then 2 else 0 : ℕ) : ℝ)) }

/-- The cost of the contraction ties the worst cost, so that the simplex is shrunk. -/
theorem round_branches_noHelp :
    let s : State ℝ 2 := { vertices := List.ofFn fun k : Fin 3 => ⟨Point.fill 2 0.5, .finite k.val⟩ }
    let r : Run (Tape ℝ) ℝ 2 := ⟨{}, Run.climb.draws, .simplex usual s⟩
    ∃ r', r.round noHelp = some (.ok true, r') ∧ r'.lastMove = .shrink ∧
      r'.ledger.evaluations = 4 := by
  intro s r
  let f : Fin 3 → ℝ := fun k => k.val
  have hreplies (x : Point ℝ 2) (call : ℕ) : noHelp.Replies x call
      (.ok (.finite ((if call = 1 then 3 else if call = 2 then 2 else 0 : ℕ) : ℝ))) :=
    ⟨(nomatch ·), rfl⟩
  have hv : s.vertices = List.ofFn fun k => ⟨Point.fill 2 0.5, .finite (f k)⟩ := rfl
  have hascending : ∀ i j : Fin 3, i ≤ j → f i ≤ f j := fun i j hij => Nat.cast_le.mpr hij
  obtain ⟨b, r', hround, -, -, -, -, hcontract⟩ :=
    (round_branches (t := noHelp) (r := r) rfl (fun _ _ c _ => Cost.isProper_real c) hv (fun _ => rfl)
      hascending rfl rfl rfl rfl).2 (3 : ℕ) (hreplies _ 1)
  have hhigh : f (beforeLast 2) < (3 : ℕ) := by norm_num [f, beforeLast]
  have hnot (x y : Point ℝ 2) : ¬((2 : ℕ) : ℝ) < (base (x, f (Fin.last 2)) (y, (3 : ℕ))).2 := by
    norm_num [base, f]
  obtain ⟨hmove, hshrink⟩ := ((hcontract hhigh).2.2 (2 : ℕ) (hreplies _ 2)).2 (hnot _ _)
  obtain ⟨rfl, -, hevaluations⟩ := hshrink (fun _ => (0 : ℕ)) fun j => by
    have hlater := hreplies (towards noHelp.region (Point.fill 2 0.5) 0.5 (Point.fill 2 0.5)) (0 + 3 + j)
    rwa [if_neg (by omega), if_neg (by omega)] at hlater
  exact ⟨r', hround, hmove, hevaluations⟩

end Simplex

end BoxSearch
