import BoxSearch.Proofs.Doubles.Wholes
import BoxSearch.Proofs.Feasible.Choices
import BoxSearch.Proofs.Synchrony.Abreast

/-!
# The first points of a search

A start point is repaired: its integer variables are rounded, and it is clamped to the box.  In doubles
as in exact arithmetic the check of points then accepts it.  `Opens ready xs calls` says of the calls of a
search that those for the points `xs` come first and in this order, unless one of them breaks the search
off, and that they are made if the search is `ready`.  `Opening ready xs done m` says that a step opens a
search like that where it goes on from the points `done`.
-/

namespace BoxSearch

/-! ## 1. Repaired points -/

theorem Scalar.le_self {α : Type} [Scalar α] [Scalar.Total α] {a : α} (ha : Scalar.isFinite a = true) :
    a ≤ a :=
  Scalar.Total.le_of_not_lt ha ha (Scalar.Ordered.lt_irrefl a)

theorem Scalar.same_self {α : Type} [Scalar α] [Scalar.Total α] {a : α}
    (ha : Scalar.isFinite a = true) : Scalar.same a a = true := by
  unfold Scalar.same
  rw [decide_eq_true (Scalar.le_self ha)]
  rfl

namespace Region

variable {α : Type} [Scalar α] {n : ℕ} (r : Region α n)

/-- Finite scalars are clamped into the box. -/
theorem clampAt_within [Scalar.Total α] (i : Fin n) {v : α} (hv : Scalar.isFinite v = true) :
    r.lower.get i ≤ r.clampAt i v ∧ r.clampAt i v ≤ r.upper.get i := by
  obtain ⟨hlo, hhi⟩ := r.finite i
  unfold clampAt Scalar.clamp
  split_ifs with hlow hhigh
  · exact ⟨Scalar.le_self hlo, r.ordered i⟩
  · exact ⟨r.ordered i, Scalar.le_self hhi⟩
  · exact ⟨Scalar.Total.le_of_not_lt hlo hv hlow, Scalar.Total.le_of_not_lt hv hhi hhigh⟩

/-- The bounds of an integer variable are whole. -/
theorem same_clampAt {i : Fin n} (hi : r.integral.get i = true) {v : α}
    (hv : Scalar.same v (Scalar.nearest v) = true) :
    Scalar.same (r.clampAt i v) (Scalar.nearest (r.clampAt i v)) = true := by
  unfold clampAt Scalar.clamp
  split_ifs
  · exact (r.whole i hi).1
  · exact (r.whole i hi).2
  · exact hv

/-- A finite point that was repaired is accepted. -/
theorem check_repair [Scalar.Rounds α] {x : Point α n} (hx : ∀ i, Scalar.isFinite (x.get i) = true) :
    r.check (r.repair x) = .ok () := by
  have houtside : r.outsideAt (r.repair x) = [] := by
    unfold outsideAt
    rw [List.filterMap_eq_nil_iff]
    intro i _
    rw [get_repair]
    refine if_pos (r.clampAt_within i ?_)
    split_ifs
    · exact Scalar.Rounds.isFinite_nearest (hx i)
    · exact hx i
  have hfractional : r.fractionalAt (r.repair x) = [] := by
    unfold fractionalAt
    rw [List.filterMap_eq_nil_iff]
    intro i _
    apply if_neg
    rw [get_repair]
    cases hi : r.integral.get i with
    | false => exact Bool.false_ne_true
    | true =>
      have hnearest := Scalar.Rounds.isFinite_nearest (hx i)
      rw [if_pos rfl, r.same_clampAt hi]
      · exact Bool.false_ne_true
      · rw [Scalar.Rounds.nearest_nearest (hx i)]
        exact Scalar.same_self hnearest
  unfold check
  rw [houtside, hfractional]

end Region

/-! ## 2. The calls of a search -/

variable {α P : Type}

/-- The calls begin with those for the points `xs`, or one of these is the last and broke the search
off; a search that is not ready may make none. -/
inductive Opens (ready : Prop) (xs : List P) (calls : List (P × Option (Cost α))) : Prop
  | throughout (h : xs <+: calls.map (·.1))
  | brokenOff {e : P × Option (Cost α)} (hlast : e ∈ calls) (he : ∀ v, e.2 ≠ some (.finite v))
      (h : calls.map (·.1) <+: xs)
  | unready (h : ¬ready) (hnone : calls = [])

namespace Opens

variable {ready : Prop} {xs : List P} {calls : List (P × Option (Cost α))}

/-- The calls are made for these points in their order. -/
theorem point_eq (h : Opens ready xs calls) {k : ℕ} {x : P} (hx : xs[k]? = some x)
    {e : P × Option (Cost α)} (he : calls[k]? = some e) : e.1 = x := by
  have hpoint : (calls.map (·.1))[k]? = some e.1 := by rw [List.getElem?_map, he, Option.map_some]
  have hagree {ys zs : List P} (h : ys <+: zs) {y z : P} (hy : ys[k]? = some y)
      (hz : zs[k]? = some z) : y = z := by
    obtain ⟨rest, rfl⟩ := h
    rw [List.getElem?_append_left (List.getElem?_eq_some_iff.mp hy).1, hy] at hz
    exact Option.some.inj hz
  cases h with
  | throughout h => exact (hagree h hx hpoint).symm
  | brokenOff _ _ h => exact hagree h hpoint hx
  | unready _ hnone => exact nomatch hnone ▸ he

/-- The calls are made as long as the replies are finite costs. -/
theorem exists_call (h : Opens ready xs calls) (hready : ready ∨ calls ≠ []) {k : ℕ}
    (hk : k < xs.length) (hfinite : ∀ e ∈ calls.take k, ∃ v, e.2 = some (.finite v)) :
    k < calls.length := by
  cases h with
  | throughout h => exact hk.trans_le (h.length_le.trans_eq (List.length_map _))
  | @brokenOff e hlast he _ =>
    by_contra hlength
    rw [List.take_of_length_le (not_lt.mp hlength)] at hfinite
    obtain ⟨v, hv⟩ := hfinite e hlast
    exact he v hv
  | unready h hnone => exact (hready.elim h fun hcalled => hcalled hnone).elim

end Opens

/-! ## 3. Steps -/

variable {σ κ β γ : Type} {n : ℕ}

/-- The objective was called for these points and answered. -/
structure Called (done : List (Point α n)) (c : Course σ α n κ) : Prop where
  points : c.ledger.trace.map (·.1) = done
  evaluations : c.ledger.evaluations = done.length

/-- From the points `done` the step leads on to an account that begins with the points `xs`, or it is
the end of a search that opens with them. -/
def Opening (ready : Prop) (xs done : List (Point α n)) (m : SearchM σ α n κ β) : Prop :=
  SearchM.Triple (Called done) m (fun _ c => xs <+: c.ledger.trace.map (·.1)) fun _ c =>
    Opens ready xs c.ledger.trace

namespace Opening

variable {ready : Prop} {xs done : List (Point α n)}

/-- With no points any search opens. -/
theorem of_nil (m : SearchM σ α n κ β) : Opening ready [] done m := by
  intro c _
  rcases m.run c with ⟨e | b, d⟩
  · exact .throughout List.nil_prefix
  · exact List.nil_prefix

theorem draw_bind {φ : β → Prop} {m : StateM σ β} {f : β → SearchM σ α n κ γ} (hm : Gives φ m)
    (hf : ∀ b, φ b → Opening ready xs done (f b)) : Opening ready xs done (SearchM.draw m >>= f) :=
  fun c hc => hf _ (hm c.draws) { c with draws := (m c.draws).2 } ⟨hc.points, hc.evaluations⟩

/-- A choice before the first call fails only where the search is not ready. -/
theorem drawOr_bind {φ : β → Prop} {m : ChoiceM σ α β} {f : β → SearchM σ α n κ γ}
    (hm : Meets φ (fun _ => ¬ready) m) (hf : ∀ b, φ b → Opening ready xs [] (f b)) :
    Opening ready xs [] (SearchM.drawOr m >>= f) :=
  SearchM.Triple.drawOr_bind hm (fun _ _ hc => ⟨hc.points, hc.evaluations⟩) hf fun _ he _ _ hc =>
    .unready he (List.map_eq_nil_iff.mp hc.points)

theorem use_bind {q : Usable α β} {f : β → SearchM σ α n κ γ} (hq : ready → q.IsNumber)
    (hf : ∀ v, Opening ready xs [] (f v)) : Opening ready xs [] (SearchM.use q >>= f) := by
  cases q with
  | ok v => exact hf v
  | error e =>
    refine fun c hc => .unready (fun hready => ?_) (List.map_eq_nil_iff.mp hc.points)
    obtain ⟨v, hv⟩ := hq hready
    exact nomatch hv

theorem modifyOwn_bind {g : κ → κ} {f : Unit → SearchM σ α n κ γ}
    (hf : Opening ready xs done (f ())) : Opening ready xs done (SearchM.modifyOwn g >>= f) :=
  fun c hc => hf { c with own := g c.own } ⟨hc.points, hc.evaluations⟩

theorem setOwn_bind {k : κ} {f : Unit → SearchM σ α n κ γ} (hf : Opening ready xs done (f ())) :
    Opening ready xs done (SearchM.setOwn k >>= f) :=
  fun c hc => hf { c with own := k } ⟨hc.points, hc.evaluations⟩

/-- A remark on the account is no call. -/
theorem report_bind {e : Event α} {f : Unit → SearchM σ α n κ γ} (hf : Opening ready xs done (f ())) :
    Opening ready xs done (SearchM.report e >>= f) :=
  fun c hc => hf { c with ledger := c.ledger.report e } ⟨hc.points, hc.evaluations⟩

/-! ## 4. Replies -/

variable {x : Point α n} {next : List (Point α n)}

/-- A reply that is no finite cost breaks off a search at one of the points, or comes after them. -/
theorem opens_of_reply {calls : List (Point α n × Option (Cost α))} {reply : Option (Cost α)}
    (hxs : xs <+: calls.map (·.1) ++ x :: next) (hreply : ∀ v, reply ≠ some (.finite v)) :
    Opens ready xs (calls ++ [(x, reply)]) := by
  have hpoints : (calls ++ [(x, reply)]).map (·.1) <+: calls.map (·.1) ++ x :: next := by
    rw [List.map_append, List.map_singleton, List.prefix_append_right_inj]
    exact ⟨next, rfl⟩
  rcases List.prefix_or_prefix_of_prefix hxs hpoints with h | h
  · exact .throughout h
  · exact .brokenOff (List.mem_append_right _ (List.mem_singleton_self _)) hreply h

theorem prefix_of_not_mem (hxs : xs <+: done ++ x :: next) (hx : x ∉ xs) : xs <+: done := by
  rcases List.prefix_or_prefix_of_prefix hxs (List.prefix_append done _) with h | ⟨others, rfl⟩
  · exact h
  · cases others with
    | nil => rw [List.append_nil]
    | cons y others =>
      obtain ⟨rfl, -⟩ := List.cons_prefix_cons.mp ((List.prefix_append_right_inj done).mp hxs)
      exact absurd (List.mem_append_right _ List.mem_cons_self) hx

/-- The last call was for `x`, and it was answered with `k`. -/
structure Answered (done : List (Point α n)) (x : Point α n) (k : Cost α) (c : Course σ α n κ) :
    Prop where
  calls : ∃ earlier, earlier.map (·.1) = done ∧ c.ledger.trace = earlier ++ [(x, some k)]
  evaluations : c.ledger.evaluations = done.length + 1

theorem requireFinite_called (hxs : xs <+: done ++ x :: next) (k : Cost α) :
    SearchM.Triple (Answered done x k) (SearchM.requireFinite k : SearchM σ α n κ α)
      (fun _ => Called (done ++ [x])) fun _ c => Opens ready xs c.ledger.trace := by
  apply SearchM.Triple.requireFinite
  · rintro v rfl c ⟨⟨earlier, rfl, hcalls⟩, hevaluations⟩
    refine ⟨?_, ?_⟩
    · rw [hcalls, List.map_append]
      rfl
    · rw [hevaluations, List.length_append]
      rfl
  · rintro c ⟨⟨earlier, rfl, hcalls⟩, -⟩ hk
    show Opens ready xs c.ledger.trace
    rw [hcalls]
    exact opens_of_reply hxs fun v hv => hk v (Option.some.inj hv)

/-! ## 5. Calls -/

variable [Scalar α] {t : Task α n}

/-- What is called later does not change what was called first. -/
theorem later {m : SearchM σ α n κ β} (hm : Orderly t m) :
    SearchM.Triple (fun c => xs <+: c.ledger.trace.map (·.1)) m
      (fun _ c => xs <+: c.ledger.trace.map (·.1)) fun _ c => Opens ready xs c.ledger.trace := by
  intro c hc
  have hpoints := hc.trans ((hm.isPrefix c).map _)
  rcases hr : m.run c with ⟨e | b, d⟩ <;> rw [hr] at hpoints
  · exact .throughout hpoints
  · exact hpoints

theorem rest {m : SearchM σ α n κ β} (hm : Orderly t m) (hxs : xs <+: done) :
    Opening ready xs done m := by
  intro c hc
  rw [← hc.points] at hxs
  exact later hm c hxs

theorem bind_rest {m : SearchM σ α n κ β} {f : β → SearchM σ α n κ γ} (hm : Opening ready xs done m)
    (hf : ∀ b, Orderly t (f b)) : Opening ready xs done (m >>= f) :=
  SearchM.Triple.bind hm fun b => later (hf b)

/-- The budget is spent only after the points that it allows. -/
theorem requireBudget_bind {f : Unit → SearchM σ α n κ γ}
    (hxs : xs <+: done ++ next) (hbudget : xs.length ≤ t.budget)
    (hf : Opening ready xs done (f ())) :
    Opening ready xs done (SearchM.requireBudget t >>= f) := by
  apply SearchM.Triple.bind (Q := fun _ => Called done)
  · apply SearchM.Triple.requireBudget
    · exact fun c hc _ => hc
    · intro c hc hspent
      rw [hc.evaluations, not_lt] at hspent
      rw [← hc.points] at hspent hxs
      exact .throughout (List.prefix_of_prefix_length_le hxs (List.prefix_append _ _)
        (hbudget.trans hspent))
  · exact fun _ => hf

variable (haccepted : ∀ x ∈ xs, t.checked = true → t.region.check x = .ok ())

include haccepted

/-- The points are not refused. -/
theorem evaluate_answered (hxs : xs <+: done ++ x :: next) :
    SearchM.Triple (Called done) (SearchM.evaluate t x : SearchM σ α n κ (Cost α)) (Answered done x)
      fun _ c => Opens ready xs c.ledger.trace := by
  intro c hc
  obtain rfl := hc.points
  rw [SearchM.run_evaluate]
  cases hcheck : (if t.checked then t.region.check x else .ok ()) with
  | error e =>
    refine .throughout (prefix_of_not_mem hxs fun hx => ?_)
    have hok := haccepted x hx
    split at hcheck
    · exact nomatch (hok ‹_›).symm.trans hcheck
    · exact nomatch hcheck
  | ok u =>
    cases t.objective x (c.ledger.calls + 1) with
    | error failure => exact opens_of_reply hxs nofun
    | ok k => exact ⟨⟨c.ledger.trace, rfl, rfl⟩, congrArg (· + 1) hc.evaluations⟩

theorem trial_bind {f : α → SearchM σ α n κ γ} (hxs : xs <+: done ++ x :: next)
    (hf : ∀ v, Opening ready xs (done ++ [x]) (f v)) :
    Opening ready xs done (SearchM.trial t x >>= f) :=
  have htrial := SearchM.Triple.bind (evaluate_answered haccepted hxs) (requireFinite_called hxs)
  SearchM.Triple.bind htrial hf

/-- An answer may be kept before it is looked at. -/
theorem keep_bind {keep : Cost α → κ → κ} {f : α → SearchM σ α n κ γ}
    (hxs : xs <+: done ++ x :: next) (hf : ∀ v, Opening ready xs (done ++ [x]) (f v)) :
    Opening ready xs done (do
      let c ← SearchM.evaluate t x
      SearchM.modifyOwn (keep c)
      let v ← SearchM.requireFinite c
      f v) := by
  apply SearchM.Triple.bind (evaluate_answered haccepted hxs)
  intro k
  apply SearchM.Triple.bind (Q := fun _ => Answered done x k)
    (.modifyOwn fun c hc => ⟨hc.calls, hc.evaluations⟩)
  exact fun _ => SearchM.Triple.bind (requireFinite_called hxs k) hf

/-- The points of a population are evaluated in their order. -/
theorem evaluateAll (hbudget : xs.length ≤ t.budget) (keep : Sample α n → κ → κ)
    (ys : List (Point α n)) (hxs : xs <+: done ++ ys) :
    Opening ready xs done (Population.evaluateAll t keep ys : SearchM σ α n κ Unit) := by
  induction ys generalizing done with
  | nil => exact rest (t := t) .pure (List.append_nil done ▸ hxs)
  | cons y ys ih =>
    apply requireBudget_bind hxs hbudget
    apply keep_bind haccepted hxs
    exact fun _ => ih (List.append_cons done y ys ▸ hxs)

end Opening

/-- How the calls of a whole run begin. -/
theorem Opens.solve [Scalar α] {ready : Prop} {t : Task α n} {xs : List (Point α n)}
    {body : SearchM σ α n κ Unit} {draws : σ} {own : κ}
    (h : SearchM.Outcome (fun _ c => xs <+: c.ledger.trace.map (·.1))
      (fun _ c => Opens ready xs c.ledger.trace) (body.run (Course.started t draws own))) :
    Opens ready xs (Course.solve t body ⟨{}, draws, own⟩).2.ledger.trace := by
  obtain ⟨d, hd, hsolve⟩ | ⟨d, hd, hsolve⟩ | ⟨e, d, hd, hsolve⟩ :=
    Course.solve_cases (c := ⟨{}, draws, own⟩) rfl h <;> rw [hsolve]
  · exact (Account.trace_close d.ledger).symm ▸ .throughout hd
  · exact (Account.trace_close d.ledger).symm ▸ hd
  · exact hd

theorem Called.started [Scalar α] (t : Task α n) (draws : σ) (own : κ) :
    Called [] (Course.started t draws own) := ⟨rfl, rfl⟩

end BoxSearch
