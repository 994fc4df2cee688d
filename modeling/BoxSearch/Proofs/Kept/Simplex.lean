import Mathlib
import BoxSearch.Proofs.Account.Methods
import BoxSearch.Proofs.Feasible.Solve
import BoxSearch.Proofs.Simplex.Rounds

/-!
# The best vertex

Whenever a simplex search looks at its budget, the vertices are ranked by the costs that the objective
answered for them, and the first of them is the best point of the whole search.  A round evaluates more
points than it keeps; what it throws away is never better than the best vertex.
-/

namespace BoxSearch

open Account SearchM

namespace Simplex

variable {σ α : Type} [Scalar α] {n : ℕ} {t : Task α n} {p : Params α} {L : Ledger α n}
  {v : Vertices α n}

/-! ## 1. Kept vertices -/

/-- The costs of the vertices were answered for them, and the best answer of the search is among the
first `k` of them. -/
structure IsKept (t : Task α n) (k : ℕ) (L : Ledger α n) (v : Vertices α n) : Prop where
  balanced : L.Balanced t.objective
  listed : ∀ s ∈ v, (s.point, some s.cost) ∈ L.trace
  finite : ∀ s ∈ v, s.cost.IsFinite
  best : IsBest ((v.take k).map Sample.answer) L.best

/-- What holds of the vertices between two rounds. -/
structure IsRanked (t : Task α n) (L : Ledger α n) (v : Vertices α n) : Prop where
  balanced : L.Balanced t.objective
  listed : ∀ s ∈ v, (s.point, some s.cost) ∈ L.trace
  finite : ∀ s ∈ v, s.cost.IsFinite
  length : v.length = n + 1
  ordered : v.Pairwise fun s s' => s.cost.notAfter s'.cost = true
  best : ∃ b others, L.best = some b ∧ v = ⟨b.point, .finite b.cost⟩ :: others

omit [Scalar α] in
theorem answers_take_set {k : ℕ} (hk : k < v.length) (s : Sample α n) :
    ((v.set k s).take (k + 1)).map Sample.answer = (v.take k).map Sample.answer ++ [s.answer] := by
  rw [List.take_add_one, List.take_set_of_le le_rfl, List.getElem?_set_self hk, List.map_append]
  rfl

theorem IsRanked.length_replaceWorst (h : IsRanked t L v) (s : Sample α n) :
    (v.replaceWorst s).length = n + 1 :=
  (List.length_set ..).trans h.length

theorem IsRanked.isKept (h : IsRanked t L v) {k : ℕ} (hk : 0 < k) : IsKept t k L v := by
  obtain ⟨b, others, hb, rfl⟩ := h.best
  obtain ⟨k, rfl⟩ := Nat.exists_eq_add_one_of_ne_zero hk.ne'
  refine ⟨h.balanced, h.listed, h.finite, ?_⟩
  rw [hb]
  refine ⟨[], (others.take k).map Sample.answer, rfl, List.forall_mem_nil _, ?_⟩
  intro a ha w hw hlt
  obtain ⟨s, hs, rfl⟩ := List.mem_map.mp ha
  -- the first vertex is not after this one
  have hfirst : (Cost.finite b.cost).notAfter s.cost = true :=
    List.rel_of_pairwise_cons h.ordered (List.mem_of_mem_take hs)
  rw [show s.cost = .finite w from hw] at hfirst
  simp [Cost.notAfter, Cost.before, Cost.below, hlt] at hfirst

section

variable [Scalar.Ordered α]

/-- No vertex is cheaper than the best point. -/
theorem IsRanked.not_lt (h : IsRanked t L v) {b : Best α (Point α n)} (hb : L.best = some b)
    {s : Sample α n} (hs : s ∈ v) {w : α} (hw : s.cost = .finite w) : ¬w < b.cost := by
  have hbest := (h.isKept (Nat.succ_pos n)).best
  rw [hb, List.take_of_length_le h.length.le] at hbest
  exact hbest.not_lt (List.mem_map_of_mem hs) hw

variable (hf : t.objective.IsProper) {k j : ℕ} {x : Point α n} {w : α}

include hf

/-- One more answer is entered, and the vertices are replaced by some of them and the new one. -/
theorem IsKept.enter (h : IsKept t k L v) (hx : t.objective x (L.calls + 1) = .ok (.finite w))
    {v' : Vertices α n} (hv' : ∀ s ∈ v', s ∈ v ∨ s = ⟨x, .finite w⟩)
    (hbest : IsBest ((v'.take j).map Sample.answer) (improve L.best x (.finite w))) :
    IsKept t j (L.enter x (.finite w)) v' where
  balanced := h.balanced.enter hf hx
  listed s hs := by
    rcases hv' s hs with hold | rfl
    · exact List.mem_append_left _ (h.listed s hold)
    · exact List.mem_append_right L.trace List.mem_cons_self
  finite s hs := by
    rcases hv' s hs with hold | rfl
    · exact h.finite s hold
    · exact ⟨w, rfl⟩
  best := hbest

theorem IsKept.improve (h : IsKept t k L v) (x : Point α n) (c : Cost α) :
    IsBest ((v.take k).map Sample.answer ++ [(x, c)]) (improve L.best x c) := by
  apply h.best.improve
  intro a ha
  obtain ⟨s, hs, rfl⟩ := List.mem_map.mp ha
  exact h.balanced.isProper_of_listed hf (h.listed s (List.mem_of_mem_take hs))

/-- The vertex behind the first `k` gives way to an evaluated point. -/
theorem IsKept.set (h : IsKept t k L v) (hk : k < v.length)
    (hx : t.objective x (L.calls + 1) = .ok (.finite w)) :
    IsKept t (k + 1) (L.enter x (.finite w)) (v.set k ⟨x, .finite w⟩) := by
  apply h.enter hf hx
  · intro s hs
    exact List.mem_or_eq_of_mem_set hs
  · rw [answers_take_set hk]
    exact h.improve hf x _

theorem IsKept.append (h : IsKept t v.length L v)
    (hx : t.objective x (L.calls + 1) = .ok (.finite w)) :
    IsKept t (v.length + 1) (L.enter x (.finite w)) (v ++ [⟨x, .finite w⟩]) := by
  apply h.enter hf hx
  · intro s hs
    rcases List.mem_append.mp hs with hs | hs
    · exact .inl hs
    · exact .inr (List.mem_singleton.mp hs)
  · have hbest := h.improve hf x (.finite w)
    rw [List.take_length] at hbest
    rw [List.take_of_length_le (by simp), List.map_append]
    exact hbest

/-- A point that is not better than the best is evaluated and thrown away. -/
theorem IsKept.discard (h : IsKept t k L v) (hx : t.objective x (L.calls + 1) = .ok (.finite w))
    {b : Best α (Point α n)} (hb : L.best = some b) (hw : ¬w < b.cost) :
    IsKept t k (L.enter x (.finite w)) v := by
  apply h.enter hf hx fun s hs => .inl hs
  have hkept : Account.improve L.best x (.finite w) = L.best := by
    rw [hb]
    exact if_neg hw
  rw [hkept]
  exact h.best

/-- Ranking brings the best point to the front. -/
theorem IsKept.ranked (h : IsKept t v.length L v) (hv : v.length = n + 1) :
    IsRanked t L v.ranked := by
  have hmem : ∀ s ∈ v.ranked, s ∈ v := fun s hs => (Cost.rank_perm _ v).mem_iff.mp hs
  have hproper : ∀ s ∈ v, s.cost.IsProper :=
    fun s hs => h.balanced.isProper_of_listed hf (h.listed s hs)
  have hbest := h.best
  rw [List.take_length] at hbest
  refine ⟨h.balanced, fun s hs => h.listed s (hmem s hs), fun s hs => h.finite s (hmem s hs),
    (Cost.length_rank _ v).trans hv, Cost.pairwise_rank hproper, ?_⟩
  cases hb : L.best with
  | none =>
    -- some vertex is there, and its cost is finite
    rw [hb] at hbest
    cases v with
    | nil => exact nomatch hv
    | cons s others => exact absurd (h.finite s List.mem_cons_self) (hbest _ List.mem_cons_self)
  | some b =>
    rw [hb] at hbest
    obtain ⟨⟨y, c⟩, rest, hrank, rfl, rfl⟩ := hbest.rank_eq_cons hproper h.finite
    exact ⟨b, rest, rfl, hrank⟩

end

/-! ## 2. Steps on known vertices -/

/-- The course has the account `L` and the vertices `v`. -/
def At (L : Ledger α n) (v : Vertices α n) (c : Course σ α n (State α n)) : Prop :=
  c.ledger = L ∧ c.own.vertices = v

namespace At

variable {γ : Type} {R : γ → Course σ α n (State α n) → Prop}

section

omit [Scalar α]

theorem vertices_bind {f : Vertices α n → SearchM σ α n (State α n) γ}
    (hf : Answers (At L v) (f v) R) : Answers (At L v) (vertices >>= f) R := by
  have hvertices : Answers (At L v) (vertices : SearchM σ α n (State α n) (Vertices α n))
      fun w c => w = v ∧ At L v c := by
    apply Triple.bind (Q := fun s c => s.vertices = v ∧ At L v c)
      (.own fun c hc => ⟨hc.2, hc⟩)
    intro s
    cases hs : s.vertices with
    | nil => exact .throw fun _ _ => trivial
    | cons first others => exact .pure fun c hc => hc
  apply hvertices.bind
  rintro w c ⟨rfl, hc⟩
  exact hf c hc

theorem note_bind (move : Move) {f : Unit → SearchM σ α n (State α n) γ}
    (hf : Answers (At L v) (f ()) R) : Answers (At L v) (note move >>= f) R :=
  Triple.bind (Q := fun _ => At L v) (.modifyOwn fun _ hc => hc) fun _ => hf

theorem modifyVertices_bind (g : Vertices α n → Vertices α n)
    {f : Unit → SearchM σ α n (State α n) γ} (hf : Answers (At L (g v)) (f ()) R) :
    Answers (At L v) (modifyVertices g >>= f) R := by
  apply Triple.bind (Q := fun _ => At L (g v)) _ fun _ => hf
  exact .modifyOwn fun c hc => ⟨hc.1, congrArg g hc.2⟩

theorem use_bind {β : Type} {b : Usable α β} {f : β → SearchM σ α n (State α n) γ}
    (hf : ∀ u, Answers (At L v) (f u) R) : Answers (At L v) (SearchM.use b >>= f) R :=
  Triple.use_bind (fun u _ => hf u) fun _ _ _ => trivial

end

theorem trial_bind {x : Point α n} {f : α → SearchM σ α n (State α n) γ}
    (hf : ∀ w, t.objective x (L.calls + 1) = .ok (.finite w) →
      Answers (At (L.enter x (.finite w)) v) (f w) R) :
    Answers (At L v) (SearchM.trial t x >>= f) R := by
  have htrial : Answers (At L v) (SearchM.trial t x : SearchM σ α n (State α n) α) fun w c =>
      t.objective x (L.calls + 1) = .ok (.finite w) ∧ At (L.enter x (.finite w)) v c := by
    apply Answers.trial
    rintro w c ⟨rfl, rfl⟩ hx
    exact ⟨hx, rfl, rfl⟩
  exact htrial.bind fun w c hc => hf w hc.1 c hc.2

/-- A vertex that is kept before its cost is looked at. -/
theorem keep_bind {x : Point α n} (g : Cost α → Vertices α n → Vertices α n)
    {f : α → SearchM σ α n (State α n) γ}
    (hf : ∀ w, t.objective x (L.calls + 1) = .ok (.finite w) →
      Answers (At (L.enter x (.finite w)) (g (.finite w) v)) (f w) R) :
    Answers (At L v) (do
      let c ← SearchM.evaluate t x
      modifyVertices (g c)
      let w ← SearchM.requireFinite c
      f w) R := by
  apply Answers.keep_bind (Q := fun w c => t.objective x (L.calls + 1) = .ok (.finite w) ∧
    At (L.enter x (.finite w)) (g (.finite w) v) c)
  · rintro w c ⟨rfl, rfl⟩ hx
    exact ⟨hx, rfl, rfl⟩
  · exact fun w c hc => hf w hc.1 c hc.2

end At

/-! ## 3. Rounds -/

/-- There are `k` vertices, and all that was evaluated is no better than the best of them. -/
def Holds (t : Task α n) (k : ℕ) (c : Course σ α n (State α n)) : Prop :=
  IsKept t k c.ledger c.own.vertices ∧ c.own.vertices.length = k

theorem At.pure_holds {k : ℕ} (h : IsKept t k L v) (hv : v.length = k) :
    Answers (At L v) (pure () : SearchM σ α n (State α n) Unit) fun _ => Holds t k := by
  apply Triple.pure
  rintro c ⟨rfl, rfl⟩
  exact ⟨h, hv⟩

theorem At.modifyVertices_holds {k : ℕ} {g : Vertices α n → Vertices α n}
    (h : IsKept t k L (g v)) (hv : (g v).length = k) :
    Answers (At L v) (modifyVertices g : SearchM σ α n (State α n) Unit) fun _ => Holds t k := by
  apply Triple.modifyOwn
  rintro c ⟨rfl, rfl⟩
  exact ⟨h, hv⟩

omit [Scalar α] in
/-- A search that ends because of a tie does not go on with its round. -/
theorem endDegenerate_answers (fr : α) :
    Answers (fun _ => True) (endDegenerate fr : SearchM σ α n (State α n) Unit)
      fun _ _ => False :=
  fun _ _ => True.intro

omit [Scalar α] in
theorem corners_mem {corners : Corners α n} (h : v.corners? = some corners) {s : Sample α n}
    {others : Vertices α n} (hfirst : v = s :: others) :
    corners.best = s ∧ corners.worst ∈ v := by
  obtain ⟨best, hbest, h⟩ := Option.bind_eq_some_iff.mp h
  obtain ⟨secondWorst, -, h⟩ := Option.bind_eq_some_iff.mp h
  obtain ⟨worst, hworst, h⟩ := Option.bind_eq_some_iff.mp h
  obtain rfl := Option.some.inj h
  rw [hfirst] at hbest
  exact ⟨(Option.some.inj hbest).symm, List.mem_of_getElem? hworst⟩

section

variable [Scalar.Ordered α] (hf : t.objective.IsProper)

include hf

/-- Vertex by vertex, those up to the present one hold the best that was evaluated. -/
theorem shrinkAt_holds (best : Point α n) (m : ℕ) {k : ℕ} (hk : k + m = n + 1)
    (h : IsKept t k L v) (hv : v.length = n + 1) :
    Answers (At L v)
      (shrinkAt t p best (List.range' k m) : SearchM σ α n (State α n) Unit)
      fun _ => Holds t (n + 1) := by
  induction m generalizing k L v with
  | zero =>
    obtain rfl : k = n + 1 := hk
    exact At.pure_holds h hv
  | succ m ih =>
    have hlt : k < v.length := by omega
    rw [List.range'_succ]
    apply At.vertices_bind
    rw [List.getElem?_eq_getElem hlt]
    apply At.use_bind
    intro shrinkage
    apply At.modifyVertices_bind
    apply At.keep_bind
    intro w hx
    rw [List.set_set]
    exact ih (by omega) (h.set hf hlt hx) (by rwa [List.length_set])

theorem shrink_holds (h : IsKept t 1 L v) (hv : v.length = n + 1) :
    Answers (At L v) (shrink t p : SearchM σ α n (State α n) Unit) fun _ => Holds t (n + 1) := by
  apply At.vertices_bind
  cases v with
  | nil => exact nomatch hv
  | cons best others =>
    show Answers _ (shrinkAt t p best.point ((List.range n).map (· + 1))) _
    rw [range_map_succ]
    exact shrinkAt_holds hf best.point n (Nat.add_comm 1 n) h hv

theorem expand_holds (h : IsRanked t L v) {b : Best α (Point α n)} (hb : L.best = some b)
    (middle : Point α n) {xr : Point α n} {fr : α}
    (hx : t.objective xr (L.calls + 1) = .ok (.finite fr)) (hfr : fr < b.cost) :
    Answers (At (L.enter xr (.finite fr)) v)
      (expand t p middle xr fr : SearchM σ α n (State α n) Unit) fun _ => Holds t (n + 1) := by
  have hkept : IsKept t n L v := h.isKept t.region.nonempty
  have hlast : n < v.length := by rw [h.length]; exact Nat.lt_succ_self n
  -- the reflected point is the best so far
  have hreflected : (L.enter xr (.finite fr)).best = some ⟨xr, fr⟩ := by
    show improve L.best xr (.finite fr) = _
    rw [hb]
    exact if_pos hfr
  apply At.note_bind
  apply At.use_bind
  intro expansion
  let xe := towards t.region middle expansion xr
  apply At.trial_bind
  intro fe (hxe : t.objective xe _ = _)
  have hset := hkept.set hf hlast hx
  apply Triple.ite
  · -- the point further out is better still, and takes the place of the reflected one
    intro hfe
    have hbest : improve (L.enter xr (.finite fr)).best xe (.finite fe) =
        improve L.best xe (.finite fe) := by
      rw [hreflected, hb]
      show (if fe < fr then _ else _) = if fe < b.cost then _ else _
      rw [if_pos hfe, if_pos (Scalar.Ordered.lt_trans hfe hfr)]
    have hplace : IsKept t (n + 1) ((L.enter xr (.finite fr)).enter xe (.finite fe))
        (v.set n ⟨xe, .finite fe⟩) := by
      have hset_set : (v.set n ⟨xr, .finite fr⟩).set n ⟨xe, .finite fe⟩ =
          v.set n ⟨xe, .finite fe⟩ := List.set_set _
      rw [← hset_set]
      apply hset.enter hf hxe fun s hs => List.mem_or_eq_of_mem_set hs
      rw [hset_set, answers_take_set hlast, hbest]
      exact hkept.improve hf xe _
    exact At.modifyVertices_holds hplace (h.length_replaceWorst _)
  · intro hfe
    exact At.modifyVertices_holds (hset.discard hf hxe hreflected hfe) (h.length_replaceWorst _)

theorem contract_holds (h : IsRanked t L v) {b : Best α (Point α n)} (hb : L.best = some b)
    {worst : Sample α n} (hworst : worst ∈ v) (middle : Point α n) {xr : Point α n} {fr : α}
    (hx : t.objective xr (L.calls + 1) = .ok (.finite fr)) (hfr : ¬fr < b.cost) :
    Answers (At (L.enter xr (.finite fr)) v)
      (contract t p worst middle xr fr : SearchM σ α n (State α n) Unit)
      fun _ => Holds t (n + 1) := by
  have hlast : n < v.length := by rw [h.length]; exact Nat.lt_succ_self n
  -- the reflected point is thrown away, unless the contraction starts from it
  have hdiscard {k : ℕ} (hk : 0 < k) : IsKept t k (L.enter xr (.finite fr)) v :=
    (h.isKept hk).discard hf hx hb hfr
  have hreflected : (L.enter xr (.finite fr)).best = some b := by
    show improve L.best xr (.finite fr) = _
    rw [hb]
    exact if_neg hfr
  unfold contract
  apply At.note_bind
  generalize hbase : (if (Cost.finite fr).below worst.cost then (⟨xr, .finite fr⟩ : Sample α n)
    else worst) = base
  obtain ⟨u, hu, hfinite, hub⟩ : ∃ u, base.cost = .finite u ∧ Scalar.isFinite u = true ∧
      ¬u < b.cost := by
    subst hbase
    split
    · exact ⟨fr, rfl, hf _ _ _ hx fr rfl, hfr⟩
    · obtain ⟨u, hu⟩ := h.finite worst hworst
      have hproper := h.balanced.isProper_of_listed hf (h.listed worst hworst)
      exact ⟨u, hu, hproper u hu, h.not_lt hb hworst hu⟩
  apply At.use_bind
  intro contraction
  apply At.trial_bind
  intro fc hxc
  rw [hu]
  apply Triple.ite
  · intro _
    exact At.modifyVertices_holds ((hdiscard t.region.nonempty).set hf hlast hxc)
      (h.length_replaceWorst _)
  · intro hfc
    -- what does not beat the base does not beat the best vertex either
    have hfcb : ¬fc < b.cost := by
      intro hlt
      rcases Scalar.Ordered.lt_or_lt hfinite hlt with hlt | hlt
      · exact hfc (decide_eq_true hlt)
      · exact hub hlt
    apply At.note_bind
    exact shrink_holds hf ((hdiscard Nat.one_pos).discard hf hxc hreflected hfcb) h.length

/-- At the end of a round the vertices are ranked. -/
theorem endRound_ranked :
    Answers (Holds t (n + 1)) (do
      modifyVertices (·.ranked)
      SearchM.endRound : SearchM σ α n (State α n) Unit)
      fun _ c => IsRanked t c.ledger c.own.vertices := by
  apply Triple.bind (Q := fun _ c => IsRanked t c.ledger c.own.vertices)
  · apply Triple.modifyOwn
    rintro c ⟨h, hv⟩
    rw [← hv] at h
    exact h.ranked hf hv
  · intro _
    apply Triple.modifyLedger
    rintro c ⟨hbalanced, hlisted, hfinite, hlength, hordered, hbest⟩
    exact ⟨hbalanced.aside _ _ _, hlisted, hfinite, hlength, hordered, hbest⟩

theorem round_ranked (h : IsRanked t L v) :
    Answers (At L v) (round t p : SearchM σ α n (State α n) Unit)
      fun _ c => IsRanked t c.ledger c.own.vertices := by
  obtain ⟨b, others, hb, hfirst⟩ := h.best
  have hlast : n < v.length := by rw [h.length]; exact Nat.lt_succ_self n
  apply At.vertices_bind
  cases hcorners : v.corners? with
  | none => exact .throw fun _ _ => trivial
  | some corners =>
    obtain ⟨hcost, hworst⟩ := corners_mem hcorners hfirst
    apply At.use_bind
    intro reflection
    apply At.trial_bind
    intro fr hx
    dsimp only
    rw [hcost]
    apply Triple.ite
    · -- the reflected point takes the place of the worst vertex
      intro _
      apply At.note_bind
      apply Triple.bind (Q := fun _ => Holds t (n + 1)) _ fun _ => endRound_ranked hf
      exact At.modifyVertices_holds ((h.isKept t.region.nonempty).set hf hlast hx)
        (h.length_replaceWorst _)
    · intro _
      apply Triple.ite
      · intro hbelow
        exact (expand_holds hf h hb _ hx (of_decide_eq_true hbelow)).bind fun _ =>
          endRound_ranked hf
      · intro hbelow
        have hfr : ¬fr < b.cost := fun hlt => hbelow (decide_eq_true hlt)
        apply Triple.ite
        · intro _
          exact (contract_holds hf h hb hworst _ hx hfr).bind fun _ => endRound_ranked hf
        · -- a tie ends the search
          intro _
          exact Triple.bind (fun c _ => endDegenerate_answers fr c trivial) fun _ _ hc => hc.elim

/-! ## 4. The whole search -/

theorem addVertex_holds (x : Point α n) (k : ℕ) :
    Answers (Holds t k) (addVertex t x : SearchM σ α n (State α n) Unit) fun _ => Holds t (k + 1) := by
  rintro c ⟨h, hv⟩
  rw [← hv] at h ⊢
  have hadd : Answers (At c.ledger c.own.vertices)
      (addVertex t x : SearchM σ α n (State α n) Unit)
      fun _ => Holds t (c.own.vertices.length + 1) := by
    apply At.keep_bind (x := x)
    intro w hx
    exact At.pure_holds (h.append hf hx) List.length_append
  exact hadd c ⟨rfl, rfl⟩

variable [DrawSource σ α]

theorem foundAround_holds (first : Point α n) (m k : ℕ) :
    Answers (Holds t k) (foundAround t p first m : SearchM σ α n (State α n) Unit)
      fun _ => Holds t (k + m) := by
  induction m generalizing k with
  | zero => exact .pure fun _ hc => hc
  | succ m ih =>
    apply Answers.drawOr_bind fun _ _ hc => hc
    intro x
    rw [Nat.add_comm m 1, ← Nat.add_assoc]
    exact (addVertex_holds hf x k).bind fun _ => ih (k + 1)

theorem found_ranked :
    Answers (fun c => c.ledger.Balanced t.objective ∧ c.ledger.best = none)
      (found t p : SearchM σ α n (State α n) Unit)
      fun _ c => IsRanked t c.ledger c.own.vertices := by
  apply Answers.drawOr_bind fun _ _ hc => hc
  intro first
  apply Triple.bind (Q := fun _ => Holds t 0)
  · apply Triple.modifyOwn
    rintro c ⟨hbalanced, hnone⟩
    refine ⟨⟨hbalanced, List.forall_mem_nil _, List.forall_mem_nil _, ?_⟩, rfl⟩
    rw [hnone]
    exact .nil
  · intro _
    apply (addVertex_holds hf first 0).bind
    intro _
    apply (foundAround_holds hf first n (0 + 1)).bind
    intro _
    apply Triple.modifyOwn
    rintro c ⟨h, hv⟩
    rw [← hv] at h
    exact h.ranked hf (by omega)

end

/-! ## 5. Looking at the budget -/

variable [DrawSource σ α]

/-- The search with at most `k` rounds: it answers where it looks at its budget for another one. -/
def upTo (t : Task α n) (p : Params α) (k : ℕ) : SearchM σ α n (State α n) Unit := do
  found t p
  SearchM.roundsWithin t (round t p) k

theorem upTo_budget : (upTo t p t.budget : SearchM σ α n (State α n) Unit) = run t p := rfl

theorem run_upTo_add (k l : ℕ) (c : Course σ α n (State α n)) :
    (upTo t p (k + l)).run c =
      (upTo t p k >>= fun _ => SearchM.roundsWithin t (round t p) l).run c := by
  show (found t p >>= fun _ => SearchM.roundsWithin t (round t p) (k + l)).run c =
    ((found t p >>= fun _ => SearchM.roundsWithin t (round t p) k) >>= _).run c
  rw [bind_assoc, run_bind, run_bind]
  rcases (found t p).run c with ⟨_ | _, d⟩
  · rfl
  · exact run_roundsWithin_add t (round t p) k l d

theorem upTo_ranked [Scalar.Ordered α] (hf : t.objective.IsProper) (k : ℕ) :
    Answers (fun c => c.ledger.Balanced t.objective ∧ c.ledger.best = none)
      (upTo t p k : SearchM σ α n (State α n) Unit)
      fun _ c => IsRanked t c.ledger c.own.vertices :=
  (found_ranked hf).bind fun _ =>
    .roundsWithin (fun c hc => round_ranked hf hc c ⟨rfl, rfl⟩) k

/-- From round to round the best vertex does not become worse. -/
theorem upTo_succ_not_before [Scalar.Ordered α] (hf : t.objective.IsProper) {k : ℕ}
    {c d e : Course σ α n (State α n)} (hc : c.ledger.Balanced t.objective ∧ c.ledger.best = none)
    (hd : (upTo t p k).run c = (.ok (), d)) (he : (upTo t p (k + 1)).run c = (.ok (), e)) :
    ∀ s ∈ d.own.vertices.head?, ∀ s' ∈ e.own.vertices.head?, s.cost.before s'.cost = false := by
  have hranked (k : ℕ) (d : Course σ α n (State α n)) (hd : (upTo t p k).run c = (.ok (), d)) :
      IsRanked t d.ledger d.own.vertices := by
    have hrun := upTo_ranked (p := p) hf k c hc
    rwa [hd] at hrun
  obtain ⟨b, others, hb, hfirst⟩ := (hranked k d hd).best
  obtain ⟨b', others', hb', hfirst'⟩ := (hranked (k + 1) e he).best
  rw [run_upTo_add, run_bind_of_ok hd] at he
  have hgoes := Orderly.roundsWithin (round_orderly (t := t) (p := p)) 1 d.ledger d .refl
  rw [he] at hgoes
  obtain ⟨b'', hb'', hle⟩ := GoesOn.best_not_lt hgoes hb
  obtain rfl : b' = b'' := Option.some.inj (hb'.symm.trans hb'')
  rw [hfirst, hfirst']
  rintro s hs s' hs'
  rw [← Option.some.inj hs, ← Option.some.inj hs']
  exact decide_eq_false hle

/-- Whenever a search that was just started looks at its budget, it has `n + 1` vertices, each with the
cost that the objective answered for it, in the order of their costs; the first one is the first point
that attained the least cost of all that were answered, and it does not become worse. -/
theorem vertices_ranked [Scalar.Ordered α] (t : Task α n) (p : Params α)
    (hf : t.objective.IsProper) (draws : σ) (own : State α n) (k : ℕ)
    (d : Course σ α n (State α n)) (hd : (upTo t p k).run (.started t draws own) = (.ok (), d)) :
    d.own.vertices.length = n + 1 ∧
      (∀ s ∈ d.own.vertices, ∃ i, d.ledger.trace[i]? = some (s.point, some s.cost) ∧
        t.objective s.point (i + 1) = .ok s.cost) ∧
      d.own.vertices.Pairwise (fun s s' => s.cost.notAfter s'.cost = true) ∧
      (∃ b others, d.ledger.best = some b ∧
        d.own.vertices = ⟨b.point, .finite b.cost⟩ :: others) ∧
      IsBest d.ledger.answers d.ledger.best ∧
      ∀ e, (upTo t p (k + 1)).run (.started t draws own) = (.ok (), e) →
        ∀ s ∈ d.own.vertices.head?, ∀ s' ∈ e.own.vertices.head?,
          s.cost.before s'.cost = false := by
  have hstart : (Course.started t draws own).ledger.Balanced t.objective ∧
      (Course.started t draws own).ledger.best = none :=
    ⟨Course.balanced_started t draws own, rfl⟩
  have hranked : IsRanked t d.ledger d.own.vertices := by
    have hrun := upTo_ranked (p := p) hf k _ hstart
    rwa [hd] at hrun
  refine ⟨hranked.length, ?_, hranked.ordered, hranked.best, hranked.balanced.best, ?_⟩
  · intro s hs
    obtain ⟨i, hi⟩ := List.getElem?_of_mem (hranked.listed s hs)
    exact ⟨i, hi, hranked.balanced.eq_ok_of_getElem? hi⟩
  · exact fun e he => upTo_succ_not_before hf hstart hd he

/-- Steps as they are usually made. -/
noncomputable def usual : Params ℝ := ⟨.ok 1, .ok 2.0, .ok 0.5, .ok 0.5, .ok 0.1⟩

/-- The first three costs increase, and every later one is below all costs before. -/
noncomputable def falling : Task ℝ 2 :=
  { Run.leastOnSquare with
    objective := fun _ call => .ok (.finite (if call < 4 then (call : ℝ) else 4 - call)) }

theorem falling_replies (x : Point ℝ 2) (call : ℕ) : falling.Replies x call
    (.ok (.finite (if call < 4 then (call : ℝ) else 4 - call))) := ⟨(nomatch ·), rfl⟩

/-- The first vertices are ranked as they were made. -/
theorem found_falling : ∃ (d : Course (Tape ℝ) ℝ 2 (State ℝ 2)) (x : Fin 3 → Point ℝ 2),
    (upTo falling usual 0).run (.started falling Run.climb.draws {}) = (.ok (), d) ∧
      d.ledger.calls = 3 ∧ d.ledger.evaluations = 3 ∧ d.ledger.rounds = 0 ∧
      d.own.vertices = List.ofFn fun k => ⟨x k, .finite ((k.val + 1 : ℕ) : ℝ)⟩ := by
  have hrun : ∃ d x₁ x₂ x₃,
      (upTo falling usual 0).run (.started falling Run.climb.draws {}) = (.ok (), d) ∧
        d.ledger.calls = 3 ∧ d.ledger.evaluations = 3 ∧ d.ledger.rounds = 0 ∧
        d.own.vertices = Vertices.ranked [⟨x₁, .finite ((1 : ℕ) : ℝ)⟩, ⟨x₂, .finite ((2 : ℕ) : ℝ)⟩,
          ⟨x₃, .finite ((3 : ℕ) : ℝ)⟩] :=
    ⟨_, _, _, _, rfl, rfl, rfl, rfl, rfl⟩
  obtain ⟨d, x₁, x₂, x₃, hd, hcalls, hevaluations, hrounds, hvertices⟩ := hrun
  refine ⟨d, ![x₁, x₂, x₃], hd, hcalls, hevaluations, hrounds, ?_⟩
  rw [hvertices]
  apply List.mergeSort_of_pairwise
  norm_num [Cost.notAfter, Cost.before, Cost.below]

/-- The reflection of the worst vertex beats all others, and going further still is better. -/
theorem round_falling {d : Course (Tape ℝ) ℝ 2 (State ℝ 2)} {x : Fin 3 → Point ℝ 2}
    (hcalls : d.ledger.calls = 3)
    (hv : d.own.vertices = List.ofFn fun k => ⟨x k, .finite ((k.val + 1 : ℕ) : ℝ)⟩) :
    ∃ e xr xe, (round falling usual).run d = (.ok (), e) ∧
      e.ledger.rounds = d.ledger.rounds + 1 ∧ e.own.lastMove = .expand ∧
      e.ledger.best = improve (improve d.ledger.best xr (.finite 0)) xe (.finite (-1)) := by
  have hreflected (y : Point ℝ 2) : falling.Replies y (d.ledger.calls + 1) (.ok (.finite 0)) := by
    have h := falling_replies y 4
    rw [hcalls]
    norm_num at h
    exact h
  have hexpanded (y : Point ℝ 2) : falling.Replies y (d.ledger.calls + 1 + 1) (.ok (.finite (-1))) := by
    have h := falling_replies y 5
    rw [hcalls]
    norm_num at h
    exact h
  have hround := run_round_expand (c := d) (p := usual) hv (corners_ofFn rfl) rfl rfl (hreflected _)
    (by norm_num) (by norm_num)
  exact ⟨_, _, _, hround.trans (run_expand_of_finite rfl rfl (hexpanded _)), rfl, rfl, rfl⟩

/-- A round that keeps a point beyond the reflected one makes the best vertex better. -/
theorem vertices_ranked_falling :
    falling.objective.IsProper ∧
      ∃ d e, (upTo falling usual 0).run (.started falling Run.climb.draws {}) = (.ok (), d) ∧
        (upTo falling usual 1).run (.started falling Run.climb.draws {}) = (.ok (), e) ∧
        e.ledger.rounds = 1 ∧ e.own.lastMove = .expand ∧ e.own.vertices.length = 3 ∧
        IsBest e.ledger.answers e.ledger.best ∧
        ∃ s ∈ d.own.vertices.head?, ∃ s' ∈ e.own.vertices.head?,
          s.cost = .finite 1 ∧ s'.cost = .finite (-1) ∧ s.cost.before s'.cost = false := by
  have hf : falling.objective.IsProper := fun _ _ c _ => Cost.isProper_real c
  obtain ⟨d, x, hd, hcalls, hevaluations, hrounds, hvertices⟩ := found_falling
  obtain ⟨e, xr, xe, hround, hcount, hmove, hbetter⟩ := round_falling hcalls hvertices
  have hless : d.ledger.evaluations < falling.budget := hevaluations.trans_lt (by decide)
  have he : (upTo falling usual 1).run (.started falling Run.climb.draws {}) = (.ok (), e) := by
    rw [run_upTo_add 0 1, run_bind_of_ok hd, run_roundsWithin_of_lt _ _ hless, run_bind_of_ok hround]
    rfl
  obtain ⟨-, -, -, ⟨b, others, hb, hfirst⟩, -, hworse⟩ :=
    vertices_ranked falling usual hf Run.climb.draws {} 0 d hd
  obtain ⟨hlength, -, -, ⟨b', others', hb', hfirst'⟩, hbest, -⟩ :=
    vertices_ranked falling usual hf Run.climb.draws {} 1 e he
  have hcost : b.cost = 1 := by
    have hsame := congrArg Sample.cost (List.cons.inj (hvertices.symm.trans hfirst)).1
    simpa using (Cost.finite.inj hsame).symm
  have hcost' : b'.cost = -1 := by
    have hleast : e.ledger.best = some ⟨xe, -1⟩ := by
      rw [hbetter, hb]
      norm_num [improve, hcost]
    exact congrArg Best.cost (Option.some.inj (hb'.symm.trans hleast))
  refine ⟨hf, d, e, hd, he, hcount.trans (congrArg (· + 1) hrounds), hmove, hlength, hbest,
    _, congrArg List.head? hfirst, _, congrArg List.head? hfirst', ?_, ?_, ?_⟩
  · exact congrArg Cost.finite hcost
  · exact congrArg Cost.finite hcost'
  · exact hworse e he _ (congrArg List.head? hfirst) _ (congrArg List.head? hfirst')

end Simplex

end BoxSearch
