import BoxSearch.Session
import BoxSearch.Proofs.Counts.Accepted
import BoxSearch.Proofs.Faultless.Solve
import BoxSearch.Proofs.Repeat.Independence

/-!
# The start points of a session

A session reads its start points from a grid of finite numbers, one point or one to a row, and brings each
of them into the region.  An empty grid gives none.
-/

namespace BoxSearch

open Reporting

/-! ## 1. Rows -/

theorem Grid.mem_of_mem_splitRows {β : Type} {width count : ℕ} {values row : List β}
    (hrow : row ∈ splitRows width count values) {v : β} (hv : v ∈ row) : v ∈ values := by
  induction count generalizing values with
  | zero => exact nomatch hrow
  | succ count ih =>
    rcases List.mem_cons.mp hrow with rfl | hrow
    · exact List.mem_of_mem_take hv
    · exact List.mem_of_mem_drop (ih hrow)

theorem Point.get_mem_of_ofList? {β : Type} {n : ℕ} {values : List β} {x : Vector β n}
    (h : Point.ofList? n values = some x) (i : Fin n) : x.get i ∈ values := by
  unfold Point.ofList? at h
  split at h
  · obtain rfl := Option.some.inj h
    exact List.getElem_mem _
  · exact nomatch h

/-- The coordinates of the points of a grid are among its values. -/
theorem Grid.get_mem_of_points? {β : Type} {n : ℕ} {g : Grid β} {points : List (Point β n)}
    (h : g.points? n = some points) {x : Point β n} (hx : x ∈ points) (i : Fin n) :
    x.get i ∈ g.values := by
  obtain ⟨rows, hrows, h⟩ := Option.bind_eq_some_iff.mp h
  obtain ⟨row, hrow, hpoint⟩ := exists_of_mem_mapM h hx
  unfold Grid.rows? at hrows
  split at hrows
  · obtain rfl := Option.some.inj hrows
    exact mem_of_mem_splitRows hrow (Point.get_mem_of_ofList? hpoint i)
  · exact nomatch hrows

/-! ## 2. Readings -/

namespace Session

variable {n : ℕ}

theorem startRows_isSteady (g : Grid Float) : IsSteady (startRows n g) := by
  unfold startRows
  dsimp only
  split
  · split
    · exact .pure _
    · exact .throw _
  · exact .throw _

/-- Rows are read of finite numbers only. -/
theorem finite_of_startRows {g : Grid Float} {log : List LogRecord} {rows : List (Point Float n)}
    (h : ((startRows n g).run log).1 = .ok rows) :
    ∀ row ∈ rows, ∀ i, Scalar.isFinite (row.get i) = true := by
  intro row hrow i
  unfold startRows at h
  dsimp only at h
  split at h
  · rename_i points hpoints
    split at h
    · rename_i hfinite
      obtain rfl := Except.ok.inj h
      exact List.all_eq_true.mp hfinite _ (Grid.get_mem_of_points? hpoints hrow i)
    · exact nomatch h
  · exact nomatch h

/-- The start points are the rows that are read of a grid of numbers, each of them repaired. -/
theorem exists_rows_of_readStarts {r : Region Float n} {s : Setting} {log : List LogRecord}
    {starts : List (Point Float n)} (h : ((readStarts r s).run log).1 = .ok (some starts)) :
    ∃ g rows, Grid.numbers s = .ok g ∧ (startRows n g).outcome.1 = .ok rows ∧
      starts = rows.map r.repair := by
  cases s with
  | null => exact nomatch Except.ok.inj h
  | _ =>
    obtain ⟨g, hg, h⟩ := quiet_bind_answers_iff.mp h
    split at h
    · exact nomatch Except.ok.inj h
    · obtain ⟨rows, hrows, h⟩ := bind_answers_iff.mp h
      rw [startRows_isSteady g log []] at hrows
      exact ⟨g, rows, hg, hrows, (Option.some.inj (Except.ok.inj h)).symm⟩

end Session

/-! ## 3. Opening a session -/

/-- What a session is opened with. -/
structure Request.Opened {n : ℕ} (r : Request) (starts : Setting) (s : Session n) : Prop where
  plan : ∃ log, (r.plan.run log).1 = .ok ⟨n, s.plan⟩
  starts : ∃ log, ((Session.readStarts s.region starts).run log).1 = .ok s.starts
  engine : s.plan.config.engine s.region = .ok s.engine
  account : s.account = {}

theorem Reporting.eq_ok_of_quiet {β ε : Type} {wrap : ε → Refusal} {e : Except ε β} {log : List LogRecord}
    {b : β} (h : ((quiet wrap e).run log).1 = .ok b) : e = .ok b := by
  cases e with
  | error _ => exact nomatch h
  | ok _ => exact congrArg _ (Except.ok.inj h)

theorem Request.opened_of_session {r : Request} {seed starts checks : Setting} {log : List LogRecord}
    {n : ℕ} {s : Session n} (h : ((r.session seed starts checks).run log).1 = .ok ⟨n, s⟩) :
    r.Opened starts s := by
  obtain ⟨⟨m, p⟩, hplan, h⟩ := bind_answers_iff.mp h
  obtain ⟨s', hsession, h⟩ := bind_answers_iff.mp h
  obtain ⟨rfl, heq⟩ := Sigma.mk.inj (Except.ok.inj h)
  obtain rfl := eq_of_heq heq
  obtain ⟨k, -, hsession⟩ := bind_answers_iff.mp hsession
  obtain ⟨starts', hstarts, hsession⟩ := bind_answers_iff.mp hsession
  obtain ⟨engine, hengine, hsession⟩ := bind_answers_iff.mp hsession
  obtain rfl := Except.ok.inj hsession
  exact ⟨⟨_, hplan⟩, ⟨_, hstarts⟩, eq_ok_of_quiet hengine, rfl⟩

namespace Request.Opened

variable {n : ℕ} {r : Request} {starts : Setting} {s : Session n}

theorem isProper (h : r.Opened starts s) : s.task.objective.IsProper := by
  obtain ⟨log, hplan⟩ := h.plan
  cases hproblem : r.problem with
  | form p => exact ProblemForm.isProper_of_read (read_of_plan hproblem hplan)
  | other t =>
    unfold Request.plan at hplan
    rw [hproblem] at hplan
    obtain ⟨_, -, hplan⟩ := bind_answers_iff.mp hplan
    obtain ⟨_, -, hplan⟩ := bind_answers_iff.mp hplan
    exact nomatch hplan

theorem ledger (h : r.Opened starts s) : s.run.ledger = {} := by
  unfold Session.run
  rw [h.account]
  rfl

end Request.Opened

end BoxSearch
