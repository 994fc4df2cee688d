import BoxSearch.Proofs.Account.Reached
import BoxSearch.Proofs.Budget.Solve
import BoxSearch.Proofs.Driven.Replayed
import BoxSearch.Proofs.Rotation.Reach

/-!
# Stopping is final

A search that is driven by hand may answer for several reasons that no other step is possible: its budget
is spent, a cost is not finite, the target is reached, or the iterations are done.  Some of them end the
search and others do not, but the next step recognises all of them, does nothing and answers the same.  And
a run comes to what the set-up and the steps come to by hand, up to the first such answer.
-/

namespace BoxSearch

open Account SearchM

variable {σ α κ : Type} {n : ℕ}

/-! ## 1. Answers that no other step is possible -/

/-- At most so many evaluations, and none before the set-up. -/
structure Within (ready : κ → Prop) (most : ℕ) (c : Course σ α n κ) : Prop where
  none_before : ¬ready c.own → c.ledger.evaluations = 0
  le_most : c.ledger.evaluations ≤ most

theorem Stands.within {ready : κ → Prop} {least most : ℕ} {c : Course σ α n κ}
    (h : Stands ready least most c) : Within ready most c :=
  ⟨fun hnot => absurd h.ready hnot, h.le_most⟩

theorem Halted.within {ready : κ → Prop} {most : ℕ} {e : Halt α} {c : Course σ α n κ}
    (h : Halted ready most e c) : Within ready most c :=
  ⟨fun hnot => absurd h.ready hnot, h.le_most⟩

variable [Scalar α] {t : Task α n} {ready : κ → Prop} {most : ℕ} {first step : SearchM σ α n κ Bool}

/-- The search was set up, and there is nothing left to do. -/
def Done (t : Task α n) (ready : κ → Prop) (c : Course σ α n κ) : Prop :=
  ready c.own ∧ t.Ended c.ledger

/-- The bounds hold, and the search is done if no other step is possible. -/
def Leaves (t : Task α n) (ready : κ → Prop) (most : ℕ) (isLast : Prop) (c : Course σ α n κ) : Prop :=
  Within ready most c ∧ (isLast → Done t ready c)

theorem Halted.leaves {e : Halt α} {c : Course σ α n κ} (h : Halted ready most e c) :
    Leaves t ready most (e = .ended) c :=
  ⟨h.within, fun he => ⟨h.ready, .inl (h.ended he)⟩⟩

/-- What a step answers to the one who drives the search: nothing follows once it is over. -/
def reply : Except (Halt α) Bool → Except (Fault α) Bool
  | .ok goesOn => .ok goesOn
  | .error .ended => .ok false
  | .error (.fault f) => .error f

omit [Scalar α] in
theorem reply_ne {o : Except (Halt α) Bool} (ho : o ≠ .ok true) : reply o ≠ .ok true := by
  rcases o with (_ | f) | _ | _
  · exact nofun
  · exact nofun
  · exact nofun
  · exact absurd rfl ho

/-- The step keeps the bounds, and the search is done where it answers that no other step is possible. -/
def TellsEnd (t : Task α n) (ready : κ → Prop) (most : ℕ) (m : SearchM σ α n κ Bool) : Prop :=
  Triple (Within ready most) m (fun goesOn => Leaves t ready most (goesOn = false))
    fun e => Leaves t ready most (e = .ended)

namespace TellsEnd

variable {m : SearchM σ α n κ Bool}

theorem keeps (h : TellsEnd t ready most m) : Keeps (Within ready most) m :=
  h.weaken (fun _ _ hd => hd.1) fun _ _ hd => hd.1

theorem done (h : TellsEnd t ready most m) {c : Course σ α n κ} (hc : Within ready most c)
    (hlast : reply (m.run c).1 = .ok false) : Done t ready (m.run c).2 := by
  have hrun := h c hc
  rcases hr : m.run c with ⟨(_ | f) | _ | _, d⟩ <;> rw [hr] at hrun hlast
  · exact hrun.2 rfl
  · exact nomatch hlast
  · exact hrun.2 rfl
  · exact nomatch hlast

end TellsEnd

namespace Advances

variable (h : Advances t ready most first step)

include h

theorem first_tellsEnd : TellsEnd t ready most first := by
  intro c hc
  by_cases hready : ready c.own
  · -- A second set-up is a fault, and no answer.
    rw [h.first_refused c hready]
    exact ⟨hc, nofun⟩
  · have hfirst : Triple _ first (fun goesOn => Leaves t ready most (goesOn = false))
        fun e => Leaves t ready most (e = .ended) :=
      h.first.weaken (fun _ _ hd => ⟨hd.1.within, fun hlast => ⟨hd.1.ready, hd.2 hlast⟩⟩)
        fun _ _ hd => hd.leaves
    exact hfirst c ⟨hready, hc.none_before hready⟩

theorem step_tellsEnd : TellsEnd t ready most step := by
  intro c hc
  by_cases hready : ready c.own
  · by_cases hended : t.Ended c.ledger
    · rw [h.step_ended c hready hended]
      exact ⟨hc, fun _ => ⟨hready, hended⟩⟩
    · have hstep : Triple _ step (fun goesOn => Leaves t ready most (goesOn = false))
          fun e => Leaves t ready most (e = .ended) :=
        (h.step c.ledger.evaluations).weaken
          (fun _ _ hd => ⟨hd.1.within, fun hlast => ⟨hd.1.ready, hd.2.2 hlast⟩⟩)
          fun _ _ hd => hd.leaves
      exact hstep c ⟨⟨hready, le_rfl, le_rfl⟩, hended⟩
  · rw [h.step_refused c hready]
    exact ⟨hc, nofun⟩

end Advances

/-! ## 2. Searches driven by hand -/

/-- The search that stands where a course stands. -/
def Course.toRun (wrap : κ → Engine α n) (c : Course σ α n κ) : Run σ α n :=
  ⟨c.ledger, c.draws, wrap c.own⟩

/-- The set-up, and then steps until no other is possible. -/
def SearchM.whole (first step : SearchM σ α n κ Bool) (budget : ℕ) : SearchM σ α n κ Unit := do
  if ← first then SearchM.repeatWhile step (budget + 1)

namespace Run

variable [DrawSource σ α]

/-- What a search may come to: it is run, set up and advanced, in any order and with any answer. -/
inductive Driven (t : Task α n) (r : Run σ α n) : Run σ α n → Prop
  | refl : Driven t r r
  | solve {r' : Run σ α n} (h : Driven t r r') : Driven t r (r'.solve t).2
  | setUp {r' r'' : Run σ α n} {b : Except (Fault α) Bool} (h : Driven t r r')
      (hstep : r'.setUp t = some (b, r'')) : Driven t r r''
  | advance {r' r'' : Run σ α n} {b : Except (Fault α) Bool} (h : Driven t r r')
      (hstep : r'.advance t = some (b, r'')) : Driven t r r''

/-- What a search may come to when it is advanced, with any answers. -/
inductive Advanced (t : Task α n) (r : Run σ α n) : Run σ α n → Prop
  | refl : Advanced t r r
  | advance {r' r'' : Run σ α n} {b : Except (Fault α) Bool} (h : Advanced t r r')
      (hstep : r'.advance t = some (b, r'')) : Advanced t r r''

/-- The search is advanced up to the first answer that is not that another step is possible. -/
inductive AdvancedToEnd (t : Task α n) : Run σ α n → Except (Fault α) Bool → Run σ α n → Prop
  | last {r r' : Run σ α n} {b : Except (Fault α) Bool} (h : r.advance t = some (b, r'))
      (hb : b ≠ .ok true) : AdvancedToEnd t r b r'
  | next {r r' r'' : Run σ α n} {b : Except (Fault α) Bool} (h : r.advance t = some (.ok true, r'))
      (hlater : AdvancedToEnd t r' b r'') : AdvancedToEnd t r b r''

/-- The search is set up and advanced up to the first such answer. -/
inductive DrivenToEnd (t : Task α n) (r : Run σ α n) : Except (Fault α) Bool → Run σ α n → Prop
  | setUp {r' : Run σ α n} {b : Except (Fault α) Bool} (h : r.setUp t = some (b, r'))
      (hb : b ≠ .ok true) : DrivenToEnd t r b r'
  | advance {r' r'' : Run σ α n} {b : Except (Fault α) Bool} (h : r.setUp t = some (.ok true, r'))
      (hlater : AdvancedToEnd t r' b r'') : DrivenToEnd t r b r''

omit [DrawSource σ α] in
/-- There is one first answer at which advancing comes to an end. -/
theorem AdvancedToEnd.unique {r r' r'' : Run σ α n} {b b' : Except (Fault α) Bool}
    (h : AdvancedToEnd t r b r') (h' : AdvancedToEnd t r b' r'') : b = b' ∧ r' = r'' := by
  induction h with
  | last h hb =>
    cases h' with
    | last h' =>
      obtain ⟨rfl, rfl⟩ := Prod.mk.inj (Option.some.inj (h.symm.trans h'))
      exact ⟨rfl, rfl⟩
    | next h' =>
      obtain ⟨rfl, -⟩ := Prod.mk.inj (Option.some.inj (h.symm.trans h'))
      exact absurd rfl hb
  | next h _ ih =>
    cases h' with
    | last h' hb =>
      obtain ⟨rfl, -⟩ := Prod.mk.inj (Option.some.inj (h.symm.trans h'))
      exact absurd rfl hb
    | next h' hlater =>
      obtain ⟨-, rfl⟩ := Prod.mk.inj (Option.some.inj (h.symm.trans h'))
      exact ih hlater

theorem DrivenToEnd.unique {r r' r'' : Run σ α n} {b b' : Except (Fault α) Bool}
    (h : DrivenToEnd t r b r') (h' : DrivenToEnd t r b' r'') : b = b' ∧ r' = r'' := by
  cases h with
  | setUp h hb =>
    cases h' with
    | setUp h' =>
      obtain ⟨rfl, rfl⟩ := Prod.mk.inj (Option.some.inj (h.symm.trans h'))
      exact ⟨rfl, rfl⟩
    | advance h' =>
      obtain ⟨rfl, -⟩ := Prod.mk.inj (Option.some.inj (h.symm.trans h'))
      exact absurd rfl hb
  | advance h hlater =>
    cases h' with
    | setUp h' hb =>
      obtain ⟨rfl, -⟩ := Prod.mk.inj (Option.some.inj (h.symm.trans h'))
      exact absurd rfl hb
    | advance h' hlater' =>
      obtain ⟨-, rfl⟩ := Prod.mk.inj (Option.some.inj (h.symm.trans h'))
      exact hlater.unique hlater'

/-- A new search of a method that can be driven by hand, and how many evaluations it makes at most. -/
inductive IsNew (t : Task α n) : Run σ α n → ℕ → Prop
  | rotation (p : Rotation.Params α) (draws : σ) : IsNew t ⟨{}, draws, .rotation p {}⟩ t.budget
  | partition (p : Partition.Params α) (draws : σ) :
      IsNew t ⟨{}, draws, .partition p {}⟩ (t.budget + 2 * n - 1)

/-- Two searches have found the same, with the same calls and the same draws. -/
structure Agree (r r' : Run σ α n) : Prop where
  trace : r.ledger.trace = r'.ledger.trace
  evaluations : r.ledger.evaluations = r'.ledger.evaluations
  best : r.ledger.best = r'.ledger.best
  history : r.ledger.history = r'.ledger.history
  rounds : r.ledger.rounds = r'.ledger.rounds
  draws : r.draws = r'.draws
  engine : r.engine = r'.engine

/-- The searches of a method are driven by these steps. -/
structure Drives (t : Task α n) (wrap : κ → Engine α n) (first step : SearchM σ α n κ Bool) : Prop where
  setUp : ∀ c : Course σ α n κ,
    (c.toRun wrap).setUp t = some (reply (first.run c).1, (first.run c).2.toRun wrap)
  advance : ∀ c : Course σ α n κ,
    (c.toRun wrap).advance t = some (reply (step.run c).1, (step.run c).2.toRun wrap)
  solve : ∀ c : Course σ α n κ, (c.toRun wrap).solve t =
    ((Course.solve t (whole first step t.budget) c).1,
      (Course.solve t (whole first step t.budget) c).2.toRun wrap)

omit [Scalar α] [DrawSource σ α] in
theorem answered_carry (wrap : κ → Engine α n) (m : SearchM σ α n κ Bool) (c : Course σ α n κ) :
    answered id false ((c.toRun wrap).carry c.own wrap m) =
      (reply (m.run c).1, (m.run c).2.toRun wrap) := by
  have hcarry : (c.toRun wrap).carry c.own wrap m =
      ((Course.carry m c).1, (Course.carry m c).2.toRun wrap) := rfl
  rw [hcarry]
  unfold Course.carry
  rcases m.run c with ⟨(_ | f) | b, d⟩
  · rfl
  · rfl
  · rfl

theorem rotation_drives (p : Rotation.Params α) :
    Drives (σ := σ) t (.rotation p) (Rotation.opening t p) (Rotation.step t p) where
  setUp c := by
    rw [← answered_carry]
    unfold Rotation.opening Run.setUp goesOn carry Course.carry Course.toRun
    dsimp only
    rw [run_bind]
    rcases (Rotation.setUp t p : SearchM σ α n (Rotation.State α n) Unit).run c with ⟨(_ | _) | _, _⟩
    · rfl
    · rfl
    · rfl
  advance c := congrArg some (answered_carry _ _ c)
  solve c := by
    have hwhole : whole (Rotation.opening t p) (Rotation.step t p) t.budget =
        (Rotation.run t p : SearchM σ α n (Rotation.State α n) Unit) := by
      unfold whole Rotation.opening Rotation.run
      rw [bind_assoc]
      simp only [pure_bind, if_pos]
    rw [hwhole]
    rfl

theorem partition_drives (p : Partition.Params α) :
    Drives (σ := σ) t (.partition p) (Partition.setUp t p) (Partition.iterate t p) where
  setUp c := congrArg some (answered_carry _ _ c)
  advance c := congrArg some (answered_carry _ _ c)
  solve _ := rfl

/-! ## 3. Bounds and endings -/

namespace Drives

variable {wrap : κ → Engine α n} (hdrives : Drives t wrap first step)
  (hadvances : Advances t ready most first step)

include hdrives

include hadvances in
theorem solve_within {c : Course σ α n κ} (hc : Within ready most c) :
    ∃ d, ((c.toRun wrap).solve t).2 = d.toRun wrap ∧ Within ready most d := by
  -- A search that was started, by a run or by hand, refuses a run and stays as it is.
  by_cases hphase : c.ledger.phase = .notStarted
  · have hwhole : Keeps (Within ready most) (whole first step t.budget) :=
      .bind hadvances.first_tellsEnd.keeps fun _ => .ite (hadvances.step_tellsEnd.keeps.repeatWhile _) .pure
    have hstart : Within ready most { c with ledger := c.ledger.start n t.budget } :=
      ⟨hc.none_before, hc.le_most⟩
    have hclose (d : Course σ α n κ) (hd : Within ready most d) : Within ready most d.close := by
      have hevaluations := (Rests.close d.ledger).evaluations
      exact ⟨fun hnot => hevaluations.trans (hd.none_before hnot), hevaluations.trans_le hd.le_most⟩
    refine ⟨_, congrArg Prod.snd (hdrives.solve c), ?_⟩
    exact Course.solve_keeps hphase (hwhole.run hstart) hclose
  · rw [Run.solve_of_started _ hphase]
    exact ⟨c, rfl, hc⟩

include hadvances in
theorem driven_within {c : Course σ α n κ} (hc : Within ready most c) {r : Run σ α n}
    (h : Driven t (c.toRun wrap) r) : ∃ d, r = d.toRun wrap ∧ Within ready most d := by
  induction h with
  | refl => exact ⟨c, rfl, hc⟩
  | solve _ ih =>
    obtain ⟨d, rfl, hd⟩ := ih
    exact hdrives.solve_within hadvances hd
  | setUp _ hstep ih =>
    obtain ⟨d, rfl, hd⟩ := ih
    obtain ⟨-, rfl⟩ := Prod.mk.inj (Option.some.inj ((hdrives.setUp d).symm.trans hstep))
    exact ⟨_, rfl, hadvances.first_tellsEnd.keeps.run hd⟩
  | advance _ hstep ih =>
    obtain ⟨d, rfl, hd⟩ := ih
    obtain ⟨-, rfl⟩ := Prod.mk.inj (Option.some.inj ((hdrives.advance d).symm.trans hstep))
    exact ⟨_, rfl, hadvances.step_tellsEnd.keeps.run hd⟩

include hadvances in
/-- Wherever the answer comes from that no other step is possible, there is nothing left to do. -/
theorem exists_done {c : Course σ α n κ} (hc : Within ready most c) {r : Run σ α n}
    (h : (c.toRun wrap).setUp t = some (.ok false, r) ∨ (c.toRun wrap).advance t = some (.ok false, r)) :
    ∃ d, r = d.toRun wrap ∧ Done t ready d := by
  rcases h with h | h
  · obtain ⟨hreply, rfl⟩ := Prod.mk.inj (Option.some.inj ((hdrives.setUp c).symm.trans h))
    exact ⟨_, rfl, hadvances.first_tellsEnd.done hc hreply⟩
  · obtain ⟨hreply, rfl⟩ := Prod.mk.inj (Option.some.inj ((hdrives.advance c).symm.trans h))
    exact ⟨_, rfl, hadvances.step_tellsEnd.done hc hreply⟩

include hadvances in
theorem advance_of_done {d : Course σ α n κ} (hd : Done t ready d) :
    (d.toRun wrap).advance t = some (.ok false, d.toRun wrap) := by
  rw [hdrives.advance, hadvances.step_ended d hd.1 hd.2]
  rfl

include hadvances in
/-- With nothing left to do, steps change nothing. -/
theorem eq_of_advanced {d : Course σ α n κ} (hd : Done t ready d) {r : Run σ α n}
    (h : Advanced t (d.toRun wrap) r) : r = d.toRun wrap := by
  induction h with
  | refl => rfl
  | advance _ hstep ih =>
    subst ih
    rw [hdrives.advance_of_done hadvances hd] at hstep
    exact (Prod.mk.inj (Option.some.inj hstep)).2.symm

/-! ## 4. Runs -/

theorem advancedToEnd {c d : Course σ α n κ} {o : Except (Halt α) Bool} (h : StepsTo step c o d) :
    AdvancedToEnd t (c.toRun wrap) (reply o) (d.toRun wrap) := by
  induction h with
  | @last c d o h ho =>
    refine .last ?_ (reply_ne ho)
    rw [hdrives.advance, h]
  | @next c d d' o h _ ih =>
    refine .next ?_ ih
    rw [hdrives.advance, h]
    rfl

include hadvances in
/-- With enough rounds, the whole body gets to where the search is driven to its end. -/
theorem exists_drivenToEnd (c : Course σ α n κ) :
    ∃ o d, DrivenToEnd t (c.toRun wrap) (reply o) (d.toRun wrap) ∧
      (whole first step t.budget).run c = (o.map fun _ => (), d) := by
  rcases hr : first.run c with ⟨e | _ | _, d⟩
  · refine ⟨.error e, d, .setUp ?_ (reply_ne nofun), run_bind_of_error hr⟩
    rw [hdrives.setUp, hr]
  · refine ⟨.ok false, d, .setUp ?_ (reply_ne nofun), run_bind_of_ok hr⟩
    rw [hdrives.setUp, hr]
  · obtain ⟨o, d', hsteps, hrun⟩ := hadvances.exists_stepsTo t.budget d (Nat.le_add_right _ _)
    refine ⟨o, d', .advance ?_ (hdrives.advancedToEnd hsteps), (run_bind_of_ok hr).trans hrun⟩
    rw [hdrives.setUp, hr]
    rfl

include hadvances in
/-- The body of a run begins with other events and on a search that is marked as running. -/
theorem exists_run_started (hreplays : Replays ready first step) (draws : σ) {own : κ}
    (hnew : ¬ready own) : ∃ (o : Except (Halt α) Bool) (d : Course σ α n κ) (events : List (Event α)),
      DrivenToEnd t (Course.toRun wrap ⟨{}, draws, own⟩) (reply o) (d.toRun wrap) ∧
        (whole first step t.budget).run (Course.started t draws own) =
          (o.map fun _ => (), d.withEvents events) := by
  obtain ⟨o, d, hdriven, hrun⟩ := hdrives.exists_drivenToEnd hadvances ⟨{}, draws, own⟩
  -- The events are not looked at; the mark is what the set-up would make of a new search.
  have hechoes : Echoes (whole first step t.budget) (whole first step t.budget) :=
    hreplays.first_echoes.bind fun _ =>
      .ite (hreplays.step_echoes.repeatWhile _) (Quiet.pure ()).echoes
  obtain ⟨events, hstarted⟩ := hechoes ⟨{ phase := .running }, draws, own⟩ [.started n t.budget]
  have hrunning : (whole first step t.budget).run ⟨{ phase := .running }, draws, own⟩ =
      (o.map fun _ => (), d) := by
    rw [← hrun]
    unfold whole
    rw [run_bind, run_bind, hreplays.started draws own hnew]
  rw [hrunning] at hstarted
  exact ⟨o, d, events, hdriven, hstarted⟩

include hadvances in
/-- A run comes to what the search comes to when it is driven to its end. -/
theorem solve_agree (hreplays : Replays ready first step) (draws : σ) {own : κ}
    (hnew : ¬ready own) : ∃ answer r, DrivenToEnd t (Course.toRun wrap ⟨{}, draws, own⟩) answer r ∧
      ((Course.toRun wrap ⟨{}, draws, own⟩).solve t).1 = answer.map (fun _ => ()) ∧
      Agree ((Course.toRun wrap ⟨{}, draws, own⟩).solve t).2 r := by
  obtain ⟨o, d, events, hdriven, hrun⟩ := hdrives.exists_run_started hadvances hreplays draws hnew
  refine ⟨reply o, d.toRun wrap, hdriven, ?_⟩
  rw [hdrives.solve, Course.solve_new, hrun]
  have hclose : Agree ((d.withEvents events).close.toRun wrap) (d.toRun wrap) := by
    obtain ⟨phase, events', hclose⟩ := (d.withEvents events).ledger.exists_close_eq_aside
    unfold Course.close
    rw [hclose]
    exact ⟨rfl, rfl, rfl, rfl, rfl, rfl, rfl⟩
  rcases o with (_ | f) | b
  · exact ⟨rfl, hclose⟩
  · exact ⟨rfl, rfl, rfl, rfl, rfl, rfl, rfl, rfl⟩
  · exact ⟨rfl, hclose⟩

include hadvances in
/-- The bound, the endings and the run of one method. -/
theorem final (hreplays : Replays ready first step) (draws : σ) {own : κ} (hnew : ¬ready own) :
    let r := Course.toRun wrap ⟨{}, draws, own⟩
    (∀ r', Driven t r r' → r'.ledger.evaluations ≤ most ∧
      ∀ r'', (r'.setUp t = some (.ok false, r'') ∨ r'.advance t = some (.ok false, r'')) →
        ∀ r''', Advanced t r'' r''' → r''' = r'' ∧ r''.advance t = some (.ok false, r'')) ∧
    ∃ answer r', DrivenToEnd t r answer r' ∧ (r.solve t).1 = answer.map (fun _ => ()) ∧
      Agree (r.solve t).2 r' := by
  refine ⟨fun r' hr' => ?_, hdrives.solve_agree hadvances hreplays draws hnew⟩
  obtain ⟨d, rfl, hd⟩ := hdrives.driven_within hadvances ⟨fun _ => rfl, Nat.zero_le most⟩ hr'
  refine ⟨hd.le_most, fun r'' hlast r''' hlater => ?_⟩
  obtain ⟨e, rfl, he⟩ := hdrives.exists_done hadvances hd hlast
  exact ⟨hdrives.eq_of_advanced hadvances he hlater, hdrives.advance_of_done hadvances he⟩

end Drives

/-- However a new search is driven, by hand or by a run, it stays within its bound.  After any answer that
no other step is possible, every later step answers the same and changes nothing.  A run of a new search
comes to what its set-up and its steps come to by hand up to the first such answer. -/
theorem stopping_final {t : Task α n} (hbudget : 0 < t.budget) {r : Run σ α n} {most : ℕ}
    (hr : IsNew t r most) :
    (∀ r', Driven t r r' → r'.ledger.evaluations ≤ most ∧
      ∀ r'', (r'.setUp t = some (.ok false, r'') ∨ r'.advance t = some (.ok false, r'')) →
        ∀ r''', Advanced t r'' r''' → r''' = r'' ∧ r''.advance t = some (.ok false, r'')) ∧
    ∃ answer r', DrivenToEnd t r answer r' ∧ (r.solve t).1 = answer.map (fun _ => ()) ∧
      Agree (r.solve t).2 r' := by
  cases hr with
  | rotation p draws =>
    exact (rotation_drives p).final (Rotation.advances hbudget) Rotation.replays draws nofun
  | partition p draws =>
    exact (partition_drives p).final Partition.advances Partition.replays draws nofun

/-- Three evaluations of a cost that the second and the third lower. -/
noncomputable def threeCalls : Task ℝ 2 := { Rotation.twoSuccesses with budget := 3 }

/-- A search of three evaluations is set up and advanced twice.  From then on every step answers that no
other one is possible, and the run of the whole search comes to the same. -/
theorem stopping_final_threeCalls :
    let r : Run (Tape ℝ) ℝ 2 := ⟨{}, ⟨fun _ => 0, fun _ => 0⟩, .rotation Rotation.doubling {}⟩
    0 < threeCalls.budget ∧ IsNew threeCalls r 3 ∧
      ∃ r₁ r₂ r₃, r.setUp threeCalls = some (.ok true, r₁) ∧
        r₁.advance threeCalls = some (.ok true, r₂) ∧
        r₂.advance threeCalls = some (.ok false, r₃) ∧ r₃.ledger.evaluations = 3 ∧
        r₃.advance threeCalls = some (.ok false, r₃) ∧ Agree (r.solve threeCalls).2 r₃ := by
  intro r
  have hbudget : 0 < threeCalls.budget := Nat.zero_lt_succ 2
  have hnew : IsNew threeCalls r 3 := .rotation _ _
  have hn : 2 < 10 ^ 24 := by norm_num
  have hreplies (x : Point ℝ 2) (call : ℕ) : threeCalls.Replies x call
      (.ok (.finite (if call = 2 then -1.0 else if call = 3 then -2.0 else 0))) :=
    ⟨(Rotation.twoSuccesses_replies x call).1, rfl⟩
  have hsetUp : ∃ r', r.setUp threeCalls = some (.ok true, r') ∧ Rotation.Unturned r'.ledger [0] :=
    ⟨_, rfl, rfl, rfl, rfl, rfl, rfl⟩
  obtain ⟨r₁, h₁, hcosts⟩ := hsetUp
  have hreached : Rotation.Reached threeCalls Rotation.doubling r₁ :=
    .setUp h₁ (by rw [hcosts.answered]; exact List.cons_ne_nil _ _)
  obtain ⟨r₂, h₂, hreached, hcosts⟩ := hcosts.exists_advance hn Rotation.doubling_are hreached
    (by decide) (by norm_num [Rotation.progress]; decide) fun x => hreplies x 2
  obtain ⟨r₃, h₃, -, hcosts⟩ := hcosts.exists_advance hn Rotation.doubling_are hreached
    (by decide) (by norm_num [Rotation.progress]; decide) fun x => hreplies x 3
  have h₃ : r₂.advance threeCalls = some (.ok false, r₃) := h₃
  obtain ⟨hfinal, answer, r', hdriven, -, hagree⟩ := stopping_final hbudget hnew
  have hlast := hfinal r₂ (.advance (.setUp .refl h₁) h₂)
  refine ⟨hbudget, hnew, r₁, r₂, r₃, h₁, h₂, h₃, hcosts.evaluations,
    (hlast.2 r₃ (.inr h₃) r₃ .refl).2, ?_⟩
  obtain ⟨-, rfl⟩ := hdriven.unique (.advance h₁ (.next h₂ (.last h₃ (by simp))))
  exact hagree

end Run

end BoxSearch
