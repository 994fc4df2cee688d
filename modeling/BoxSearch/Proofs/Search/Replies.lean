import BoxSearch.Engine.Steps
import BoxSearch.Proofs.Account.Best
import BoxSearch.Proofs.Search.Triple

/-!
# Steps whose replies are known

Which points a step evaluates is seen from its start, and often so is what the objective replies to
them.  Then it is known what the step leaves: finite costs are entered one after the other, and the
first reply that is no finite cost breaks the search off.
-/

namespace BoxSearch

/-- At this call the point is not refused, and the objective replies like this. -/
structure Task.Replies {α : Type} [Scalar α] {n : ℕ} (t : Task α n) (x : Point α n) (call : ℕ)
    (reply : Except Failure (Cost α)) : Prop where
  accepted : t.checked = true → t.region.check x = .ok ()
  reply : t.objective x call = reply

theorem Task.Replies.accepts {α : Type} [Scalar α] {n : ℕ} {t : Task α n} {x : Point α n} {call : ℕ}
    {reply : Except Failure (Cost α)} (h : t.Replies x call reply) :
    (if t.checked then t.region.check x else .ok ()) = .ok () := by
  split
  · exact h.accepted ‹_›
  · rfl

/-- There is nothing left to do: the search is over or has spent its budget. -/
def Task.Ended {α : Type} [Scalar α] {n : ℕ} (t : Task α n) (L : Ledger α n) : Prop :=
  L.phase.isOver = true ∨ ¬L.evaluations < t.budget

theorem Task.not_ended_iff {α : Type} [Scalar α] {n : ℕ} {t : Task α n} {L : Ledger α n} :
    ¬t.Ended L ↔ L.phase.isOver = false ∧ L.evaluations < t.budget := by
  unfold Ended
  rw [not_or, not_not, Bool.not_eq_true]

/-- A reply with which a search does not go on: a failure, or a cost that is not finite. -/
def BreaksOff {α : Type} : Except Failure (Cost α) → Prop
  | .ok c => ¬c.IsFinite
  | .error _ => True

namespace Account

variable {α P : Type} [Scalar α]

/-! ## 1. Entering replies -/

/-- Answers are entered one after the other. -/
def enterAll (L : Account α P) (answers : List (P × Cost α)) : Account α P :=
  answers.foldl (fun L a => L.enter a.1 a.2) L

/-- A reply with which the search breaks off is entered, with what it makes of the search. -/
def breakOff (L : Account α P) (x : P) : Except Failure (Cost α) → Halt α × Account α P
  | .ok c => (.ended, (L.enter x c).stopNonFinite c)
  | .error failure => (.fault (.failed failure), L.enterFailure x)

section

variable (L : Account α P) (answers : List (P × Cost α))

theorem enterAll_append (later : List (P × Cost α)) :
    L.enterAll (answers ++ later) = (L.enterAll answers).enterAll later :=
  List.foldl_append

theorem calls_enterAll : (L.enterAll answers).calls = L.calls + answers.length := by
  induction answers generalizing L with
  | nil => rfl
  | cons a rest ih =>
    rw [List.length_cons, ← Nat.add_assoc, Nat.add_right_comm]
    exact ih (L.enter a.1 a.2)

theorem evaluations_enterAll :
    (L.enterAll answers).evaluations = L.evaluations + answers.length := by
  induction answers generalizing L with
  | nil => rfl
  | cons a rest ih =>
    rw [List.length_cons, ← Nat.add_assoc, Nat.add_right_comm]
    exact ih (L.enter a.1 a.2)

theorem rounds_enterAll : (L.enterAll answers).rounds = L.rounds := by
  induction answers generalizing L with
  | nil => rfl
  | cons a rest ih => exact ih (L.enter a.1 a.2)

theorem phase_enterAll : (L.enterAll answers).phase = L.phase := by
  induction answers generalizing L with
  | nil => rfl
  | cons a rest ih => exact ih (L.enter a.1 a.2)

theorem trace_enterAll :
    (L.enterAll answers).trace = L.trace ++ answers.map fun a => (a.1, some a.2) := by
  induction answers generalizing L with
  | nil => exact (List.append_nil _).symm
  | cons a rest ih =>
    rw [List.map_cons, List.append_cons]
    exact ih (L.enter a.1 a.2)

theorem answers_enterAll : (L.enterAll answers).answers = L.answers ++ answers := by
  induction answers generalizing L with
  | nil => exact (List.append_nil _).symm
  | cons a rest ih =>
    rw [List.append_cons, ← answers_enter]
    exact ih (L.enter a.1 a.2)

end

/-! ## 2. What some answers make of an account -/

/-- An account that goes on from another one by exactly the given answers: they are counted and listed,
and the history and the best are what entering them makes of those before. -/
structure AdvancesBy (L L' : Account α P) (answers : List (P × Cost α)) : Prop where
  counted : L'.evaluations = L.evaluations + answers.length
  listed : L'.answers = L.answers ++ answers
  history : L'.history = (L.enterAll answers).history
  best : L'.best = (L.enterAll answers).best

variable (L : Account α P) (answers : List (P × Cost α)) (x : P)

theorem advancesBy_stopNonFinite (c : Cost α) :
    L.AdvancesBy (((L.enterAll answers).enter x c).stopNonFinite c) (answers ++ [(x, c)]) := by
  have hall : (L.enterAll answers).enter x c = L.enterAll (answers ++ [(x, c)]) :=
    (L.enterAll_append answers [(x, c)]).symm
  rw [hall]
  exact ⟨L.evaluations_enterAll _, L.answers_enterAll _, rfl, rfl⟩

/-- A call that fails is no answer. -/
theorem advancesBy_enterFailure :
    L.AdvancesBy ((L.enterAll answers).enterFailure x) answers := by
  refine ⟨L.evaluations_enterAll _, ?_, rfl, rfl⟩
  rw [← L.answers_enterAll, ← List.append_nil (L.enterAll answers).answers]
  exact List.filterMap_append

end Account

namespace SearchM

variable {σ α κ β : Type} {n : ℕ}

/-! ## 3. Steps that ask nothing -/

section

variable (c : Course σ α n κ)

theorem run_own_bind (f : κ → SearchM σ α n κ β) : (own >>= f).run c = (f c.own).run c :=
  run_bind_of_ok rfl

theorem run_ledger_bind (f : Ledger α n → SearchM σ α n κ β) :
    (ledger >>= f).run c = (f c.ledger).run c :=
  run_bind_of_ok rfl

theorem run_modifyOwn_bind (g : κ → κ) (f : Unit → SearchM σ α n κ β) :
    (modifyOwn g >>= f).run c = (f ()).run { c with own := g c.own } :=
  run_bind_of_ok rfl

theorem run_use_bind {γ : Type} {u : Usable α γ} {b : γ} (hu : u = .ok b)
    (f : γ → SearchM σ α n κ β) : (use u >>= f).run c = (f b).run c := by
  subst hu
  exact run_bind_of_ok rfl

theorem run_require_bind {b : Bool} (hb : b = true) (e : Fault α) (f : Unit → SearchM σ α n κ β) :
    (require b e >>= f).run c = (f ()).run c := by
  subst hb
  exact run_bind_of_ok rfl

theorem run_withinBudget_bind [Scalar α] {t : Task α n} (f : Bool → SearchM σ α n κ β) :
    (withinBudget t >>= f).run c = (f (decide (c.ledger.evaluations < t.budget))).run c :=
  run_bind_of_ok rfl

end

section

variable [Scalar α] {t : Task α n} {ready : κ → Bool} {m : SearchM σ α n κ Bool}
  {c : Course σ α n κ}

/-- A step that is driven by hand begins like this. -/
def unlessEnded (t : Task α n) (ready : κ → Bool) (m : SearchM σ α n κ Bool) :
    SearchM σ α n κ Bool := do
  require (ready (← own)) .notInitialized
  if (← ledger).phase.isOver || !(← withinBudget t) then pure false else m

theorem run_unlessEnded_of_not_ready (h : ready c.own = false) :
    (unlessEnded t ready m).run c = (.error (.fault .notInitialized), c) := by
  unfold unlessEnded
  rw [run_own_bind, h]
  rfl

/-- Nothing is done if there is nothing left to do. -/
theorem run_unlessEnded_of_ended (h : t.Ended c.ledger) : (unlessEnded t ready m).run c =
    (if ready c.own then .ok false else .error (.fault .notInitialized), c) := by
  have hended : (c.ledger.phase.isOver || !decide (c.ledger.evaluations < t.budget)) = true := by
    rcases h with hover | hspent
    · rw [hover, Bool.true_or]
    · rw [decide_eq_false hspent, Bool.not_false, Bool.or_true]
  cases hready : ready c.own with
  | false => exact run_unlessEnded_of_not_ready hready
  | true =>
    unfold unlessEnded
    rw [run_own_bind, run_require_bind c hready, run_ledger_bind, run_withinBudget_bind, hended]
    rfl

theorem run_unlessEnded_of_not_ended (hready : ready c.own = true) (h : ¬t.Ended c.ledger) :
    (unlessEnded t ready m).run c = m.run c := by
  obtain ⟨hphase, hbudget⟩ := Task.not_ended_iff.mp h
  have hgoes : (c.ledger.phase.isOver || !decide (c.ledger.evaluations < t.budget)) = false := by
    rw [hphase, decide_eq_true hbudget]
    rfl
  unfold unlessEnded
  rw [run_own_bind, run_require_bind c hready, run_ledger_bind, run_withinBudget_bind, hgoes,
    if_neg Bool.false_ne_true]

variable {mark : κ → κ} {first : SearchM σ α n κ β}

/-- A set-up begins like this. -/
def onlyOnce (ready : κ → Bool) (mark : κ → κ) (first : SearchM σ α n κ β) : SearchM σ α n κ β := do
  require (!ready (← own)) .alreadyInitialized
  markRunning
  modifyOwn mark
  first

omit [Scalar α] in
theorem run_onlyOnce_of_ready (h : ready c.own = true) :
    (onlyOnce ready mark first).run c = (.error (.fault .alreadyInitialized), c) := by
  unfold onlyOnce
  rw [run_own_bind, h]
  rfl

omit [Scalar α] in
theorem run_onlyOnce_of_not_ready (h : ready c.own = false) :
    (onlyOnce ready mark first).run c =
      first.run ⟨c.ledger.markRunning, c.draws, mark c.own⟩ := by
  unfold onlyOnce
  rw [run_own_bind, h]
  rfl

end

/-! ## 4. One evaluation -/

variable [Scalar α] {t : Task α n} {x : Point α n} {c : Course σ α n κ}

theorem run_evaluate_of_ok {k : Cost α} (h : t.Replies x (c.ledger.calls + 1) (.ok k)) :
    (evaluate t x : SearchM σ α n κ (Cost α)).run c =
      (.ok k, { c with ledger := c.ledger.enter x k }) := by
  rw [run_evaluate, h.accepts, h.reply]

theorem run_evaluate_of_error {failure : Failure}
    (h : t.Replies x (c.ledger.calls + 1) (.error failure)) :
    (evaluate t x : SearchM σ α n κ (Cost α)).run c =
      (.error (.fault (.failed failure)), { c with ledger := c.ledger.enterFailure x }) := by
  rw [run_evaluate, h.accepts, h.reply]

theorem run_trial_of_finite {v : α} (h : t.Replies x (c.ledger.calls + 1) (.ok (.finite v))) :
    (trial t x : SearchM σ α n κ α).run c =
      (.ok v, { c with ledger := c.ledger.enter x (.finite v) }) :=
  run_bind_of_ok (run_evaluate_of_ok h)

theorem run_trial_of_breaksOff {reply : Except Failure (Cost α)}
    (h : t.Replies x (c.ledger.calls + 1) reply) (hreply : BreaksOff reply) :
    (trial t x : SearchM σ α n κ α).run c =
      (.error (c.ledger.breakOff x reply).1,
        { c with ledger := (c.ledger.breakOff x reply).2 }) := by
  cases reply with
  | error failure => exact run_bind_of_error (run_evaluate_of_error h)
  | ok k =>
    refine (run_bind_of_ok (run_evaluate_of_ok h)).trans ?_
    cases k with
    | finite v => exact absurd ⟨v, rfl⟩ hreply
    | _ => rfl

theorem run_trial_bind_of_finite {f : α → SearchM σ α n κ β} {v : α}
    (h : t.Replies x (c.ledger.calls + 1) (.ok (.finite v))) :
    (trial t x >>= f).run c = (f v).run { c with ledger := c.ledger.enter x (.finite v) } :=
  run_bind_of_ok (run_trial_of_finite h)

theorem run_trial_bind_of_breaksOff {f : α → SearchM σ α n κ β} {reply : Except Failure (Cost α)}
    (h : t.Replies x (c.ledger.calls + 1) reply) (hreply : BreaksOff reply) :
    (trial t x >>= f).run c =
      (.error (c.ledger.breakOff x reply).1,
        { c with ledger := (c.ledger.breakOff x reply).2 }) :=
  run_bind_of_error (run_trial_of_breaksOff h hreply)

end SearchM

/-! ## 5. One step by hand -/

/-- What a step driven by hand answers: whether the search may go on. -/
def answerOf {α : Type} : Except (Halt α) Unit → Except (Fault α) Bool
  | .ok () => .ok true
  | .error .ended => .ok false
  | .error (.fault f) => .error f

theorem Run.goesOn_carry {σ α κ : Type} [Scalar α] {n : ℕ} {r : Run σ α n} {own : κ}
    {wrap : κ → Engine α n} {m : SearchM σ α n κ Unit} {result : Except (Halt α) Unit}
    {d : Course σ α n κ} (h : m.run ⟨r.ledger, r.draws, own⟩ = (result, d)) :
    Run.goesOn (r.carry own wrap m) = (answerOf result, ⟨d.ledger, d.draws, wrap d.own⟩) := by
  unfold Run.carry Course.carry
  rw [h]
  rcases result with (_ | _) | _ <;> rfl

end BoxSearch
