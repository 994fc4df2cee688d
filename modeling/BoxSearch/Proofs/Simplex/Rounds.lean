import Mathlib
import BoxSearch.Proofs.Account.Methods
import BoxSearch.Proofs.Search.Replies

/-!
# Rounds with known replies

A round evaluates the reflected point, one more point at most, and if that does not help all vertices
but the best, pulled towards it.  With the replies to these points it is known what a round leaves.  A
vertex that is kept in place of the worst one has a lower cost, so that none of the ranked costs
increases.
-/

namespace BoxSearch

/-- A vertex as an answer of the objective. -/
def Sample.answer {α : Type} {n : ℕ} (s : Sample α n) : Point α n × Cost α := (s.point, s.cost)

namespace Simplex

variable {σ α : Type} [Scalar α] {n : ℕ} {t : Task α n} {p : Params α}

/-! ## 1. Rounds with known replies -/

section

variable {c : Course σ α n (State α n)} {v : Vertices α n}

omit [Scalar α] in
theorem run_vertices (hv : c.own.vertices = v) (hne : v ≠ []) :
    (vertices : SearchM σ α n (State α n) (Vertices α n)).run c = (.ok v, c) := by
  unfold vertices
  rw [SearchM.run_own_bind, hv]
  cases v with
  | nil => exact absurd rfl hne
  | cons s others => rfl

/-- What a round ends with if it goes on to its end. -/
def finish : SearchM σ α n (State α n) Unit := do
  modifyVertices (·.ranked)
  SearchM.endRound

/-- The course of a round that has replaced the worst vertex. -/
def replaced (c : Course σ α n (State α n)) (L : Ledger α n) (move : Move) (s : Sample α n) :
    Course σ α n (State α n) :=
  ⟨{ L with rounds := L.rounds + 1 }, c.draws, ⟨(c.own.vertices.replaceWorst s).ranked, move⟩⟩

/-- The course of a round that has stopped before it changed a vertex. -/
def stopped (c : Course σ α n (State α n)) (L : Ledger α n) (move : Move) :
    Course σ α n (State α n) :=
  ⟨L, c.draws, { c.own with lastMove := move }⟩

variable {x₀ x₁ xₙ xr : Point α n} {f₀ f₁ fₙ fr : α} {reflection : α}
  (hv : c.own.vertices = v)
  (hcorners : v.corners? = some ⟨⟨x₀, .finite f₀⟩, ⟨x₁, .finite f₁⟩, ⟨xₙ, .finite fₙ⟩⟩)
  (hreflection : p.reflection = .ok reflection)
  (hxr : xr = reflected t.region reflection v.centroid xₙ)

include hv hcorners hreflection hxr

/-- A round starts with a trial of the reflected point. -/
theorem run_round : (round t p : SearchM σ α n (State α n) Unit).run c =
    (SearchM.trial t xr >>= fun fr => do
      if decide (f₀ < fr) && decide (fr < f₁) then do
        note .reflect
        modifyVertices (·.replaceWorst ⟨xr, .finite fr⟩)
      else if decide (fr < f₀) then expand t p v.centroid xr fr
      else if decide (f₁ < fr) then contract t p ⟨xₙ, .finite fₙ⟩ v.centroid xr fr
      else endDegenerate fr
      finish : SearchM σ α n (State α n) Unit).run c := by
  have hne : v ≠ [] := by
    rintro rfl
    exact nomatch hcorners
  unfold round
  refine (run_bind_of_ok (run_vertices hv hne)).trans ?_
  rw [hcorners, hreflection, hxr]
  rfl

theorem run_round_of_breaksOff {reply : Except Failure (Cost α)}
    (hr : t.Replies xr (c.ledger.calls + 1) reply) (hbreak : BreaksOff reply) :
    (round t p : SearchM σ α n (State α n) Unit).run c =
      (.error (c.ledger.breakOff xr reply).1,
        { c with ledger := (c.ledger.breakOff xr reply).2 }) := by
  rw [run_round hv hcorners hreflection hxr]
  exact SearchM.run_trial_bind_of_breaksOff hr hbreak

section

variable (hr : t.Replies xr (c.ledger.calls + 1) (.ok (.finite fr)))

include hr

theorem run_round_reflect (h : f₀ < fr) (h' : fr < f₁) :
    (round t p : SearchM σ α n (State α n) Unit).run c =
      (.ok (), replaced c (c.ledger.enter xr (.finite fr)) .reflect ⟨xr, .finite fr⟩) := by
  rw [run_round hv hcorners hreflection hxr, SearchM.run_trial_bind_of_finite hr]
  dsimp only
  rw [if_pos (by rw [decide_eq_true h, decide_eq_true h', Bool.and_self])]
  rfl

theorem run_round_degenerate (hreflect : ¬(f₀ < fr ∧ fr < f₁)) (hexpand : ¬fr < f₀)
    (hcontract : ¬f₁ < fr) :
    let L := c.ledger.enter xr (.finite fr)
    let phase := Phase.degenerate fr L.evaluations
    (round t p : SearchM σ α n (State α n) Unit).run c =
      (.error .ended, stopped c ({ L with phase }.report (.tied phase)) .degenerate) := by
  rw [run_round hv hcorners hreflection hxr, SearchM.run_trial_bind_of_finite hr]
  dsimp only
  rw [if_neg (by simpa using hreflect), if_neg (by simpa using hexpand),
    if_neg (by simpa using hcontract)]
  rfl

theorem run_round_expand (hreflect : ¬(f₀ < fr ∧ fr < f₁)) (hexpand : fr < f₀) :
    (round t p : SearchM σ α n (State α n) Unit).run c =
      (expand t p v.centroid xr fr >>= fun _ => finish).run
        { c with ledger := c.ledger.enter xr (.finite fr) } := by
  rw [run_round hv hcorners hreflection hxr, SearchM.run_trial_bind_of_finite hr]
  dsimp only
  rw [if_neg (by simpa using hreflect), if_pos (by simpa using hexpand)]

theorem run_round_contract (hreflect : ¬(f₀ < fr ∧ fr < f₁)) (hexpand : ¬fr < f₀)
    (hcontract : f₁ < fr) :
    (round t p : SearchM σ α n (State α n) Unit).run c =
      (contract t p ⟨xₙ, .finite fₙ⟩ v.centroid xr fr >>= fun _ => finish).run
        { c with ledger := c.ledger.enter xr (.finite fr) } := by
  rw [run_round hv hcorners hreflection hxr, SearchM.run_trial_bind_of_finite hr]
  dsimp only
  rw [if_neg (by simpa using hreflect), if_neg (by simpa using hexpand),
    if_pos (by simpa using hcontract)]

end

end

section

variable {d : Course σ α n (State α n)} {middle xr xe : Point α n} {fr : α} {expansion : α}
  (hexpansion : p.expansion = .ok expansion) (hxe : xe = towards t.region middle expansion xr)

include hexpansion hxe

theorem run_expand_of_finite {fe : α} (he : t.Replies xe (d.ledger.calls + 1) (.ok (.finite fe))) :
    (expand t p middle xr fr >>= fun _ => finish : SearchM σ α n (State α n) Unit).run d =
      (.ok (), replaced d (d.ledger.enter xe (.finite fe)) .expand
        (if fe < fr then ⟨xe, .finite fe⟩ else ⟨xr, .finite fr⟩)) := by
  subst hxe
  have hexpand : (expand t p middle xr fr : SearchM σ α n (State α n) Unit).run d =
      (.ok (), { d with
        ledger := d.ledger.enter (towards t.region middle expansion xr) (.finite fe)
        own := ⟨d.own.vertices.replaceWorst (if fe < fr then
          ⟨towards t.region middle expansion xr, .finite fe⟩ else ⟨xr, .finite fr⟩), .expand⟩ }) := by
    unfold expand
    rw [hexpansion]
    refine (SearchM.run_modifyOwn_bind d _ _).trans
      ((SearchM.run_use_bind _ rfl _).trans
        ((SearchM.run_trial_bind_of_finite (c := stopped d d.ledger .expand) he).trans ?_))
    split <;> rfl
  exact run_bind_of_ok hexpand

theorem run_expand_of_breaksOff {reply : Except Failure (Cost α)}
    (he : t.Replies xe (d.ledger.calls + 1) reply) (hbreak : BreaksOff reply) :
    (expand t p middle xr fr >>= fun _ => finish : SearchM σ α n (State α n) Unit).run d =
      (.error (d.ledger.breakOff xe reply).1, stopped d (d.ledger.breakOff xe reply).2 .expand) := by
  subst hxe
  unfold expand
  rw [hexpansion]
  refine run_bind_of_error ?_
  exact (SearchM.run_modifyOwn_bind d _ _).trans
    ((SearchM.run_use_bind _ rfl _).trans
      (SearchM.run_trial_bind_of_breaksOff (c := stopped d d.ledger .expand) he hbreak))

end

section

variable {d : Course σ α n (State α n)} {middle xₙ xr xc : Point α n} {fₙ fr : α} {contraction : α}

/-- What a contraction starts from: the better of the worst vertex and its reflection. -/
def base (worst reflected : Point α n × α) : Point α n × α :=
  if reflected.2 < worst.2 then reflected else worst

/-- On which side of the middle a contraction looks. -/
def sideOf (fₙ fr : α) : Move := if fr < fₙ then .contractOutside else .contractInside

variable (hcontraction : p.contraction = .ok contraction)
  (hxc : xc = towards t.region middle contraction (base (xₙ, fₙ) (xr, fr)).1)

include hcontraction hxc

theorem run_contract :
    (contract t p ⟨xₙ, .finite fₙ⟩ middle xr fr : SearchM σ α n (State α n) Unit).run d =
    (SearchM.trial t xc >>= fun fc =>
      if decide (fc < (base (xₙ, fₙ) (xr, fr)).2) then modifyVertices (·.replaceWorst ⟨xc, .finite fc⟩)
      else do
        note .shrink
        shrink t p : SearchM σ α n (State α n) Unit).run (stopped d d.ledger (sideOf fₙ fr)) := by
  have hside : (Cost.finite fr).below (.finite fₙ) = decide (fr < fₙ) := rfl
  subst hxc
  unfold contract base sideOf
  rw [hcontraction]
  dsimp only
  rw [hside]
  by_cases h : fr < fₙ
  · rw [decide_eq_true h, if_pos h, if_pos h]
    rfl
  · rw [decide_eq_false h, if_neg h, if_neg h]
    rfl

theorem run_contract_of_breaksOff {reply : Except Failure (Cost α)}
    (hc : t.Replies xc (d.ledger.calls + 1) reply) (hbreak : BreaksOff reply) :
    (contract t p ⟨xₙ, .finite fₙ⟩ middle xr fr >>= fun _ => finish :
        SearchM σ α n (State α n) Unit).run d =
      (.error (d.ledger.breakOff xc reply).1,
        stopped d (d.ledger.breakOff xc reply).2 (sideOf fₙ fr)) := by
  apply run_bind_of_error
  rw [run_contract hcontraction hxc]
  exact SearchM.run_trial_bind_of_breaksOff (c := stopped d d.ledger (sideOf fₙ fr)) hc hbreak

variable {fc : α} (hc : t.Replies xc (d.ledger.calls + 1) (.ok (.finite fc)))

include hc

theorem run_contract_of_lt (h : fc < (base (xₙ, fₙ) (xr, fr)).2) :
    (contract t p ⟨xₙ, .finite fₙ⟩ middle xr fr >>= fun _ => finish :
        SearchM σ α n (State α n) Unit).run d =
      (.ok (), replaced d (d.ledger.enter xc (.finite fc)) (sideOf fₙ fr) ⟨xc, .finite fc⟩) := by
  have hcontract : (contract t p ⟨xₙ, .finite fₙ⟩ middle xr fr : SearchM σ α n (State α n) Unit).run d =
      (.ok (), { d with
        ledger := d.ledger.enter xc (.finite fc)
        own := ⟨d.own.vertices.replaceWorst ⟨xc, .finite fc⟩, sideOf fₙ fr⟩ }) := by
    rw [run_contract hcontraction hxc]
    refine (SearchM.run_trial_bind_of_finite (c := stopped d d.ledger (sideOf fₙ fr)) hc).trans ?_
    rw [if_pos (decide_eq_true h)]
    rfl
  exact run_bind_of_ok hcontract

theorem run_contract_of_not_lt (h : ¬fc < (base (xₙ, fₙ) (xr, fr)).2) :
    (contract t p ⟨xₙ, .finite fₙ⟩ middle xr fr : SearchM σ α n (State α n) Unit).run d =
      (shrink t p).run (stopped d (d.ledger.enter xc (.finite fc)) .shrink) := by
  rw [run_contract hcontraction hxc]
  refine (SearchM.run_trial_bind_of_finite (c := stopped d d.ledger (sideOf fₙ fr)) hc).trans ?_
  rw [if_neg (by simpa using h)]
  rfl

end

/-! ## 2. Shrinking -/

/-- The places that are shrunk. -/
theorem range_map_succ (n : ℕ) : (List.range n).map (· + 1) = List.range' 1 n := by
  rw [List.range'_eq_map_range]
  exact List.map_congr_left fun k _ => Nat.add_comm k 1

/-- Vertices that are pulled towards the best one get these points and costs. -/
def pulled (r : Region α n) (best : Point α n) (shrinkage : α) (rest : Vertices α n)
    (costs : List α) : Vertices α n :=
  List.zipWith (fun s u => ⟨towards r best shrinkage s.point, .finite u⟩) rest costs

section

variable {shrinkage : α} (hshrinkage : p.shrinkage = .ok shrinkage)

include hshrinkage

/-- One vertex is pulled. -/
theorem run_shrinkAt_cons (best : Point α n) {d : Course σ α n (State α n)} {k : ℕ}
    {s : Sample α n} (hs : d.own.vertices[k]? = some s) {u : α}
    (hu : t.Replies (towards t.region best shrinkage s.point) (d.ledger.calls + 1)
      (.ok (.finite u))) (places : List ℕ) :
    let x := towards t.region best shrinkage s.point
    (shrinkAt t p best (k :: places) : SearchM σ α n (State α n) Unit).run d =
      (shrinkAt t p best places).run { d with
        ledger := d.ledger.enter x (.finite u)
        own := { d.own with vertices := d.own.vertices.set k ⟨x, .finite u⟩ } } := by
  intro x
  have hne : d.own.vertices ≠ [] := by
    intro hnil
    rw [hnil] at hs
    exact nomatch hs
  let e : Course σ α n (State α n) :=
    { d with own := { d.own with vertices := d.own.vertices.set k { s with point := x } } }
  have hset : d.own.vertices.set k ⟨x, .finite u⟩ = e.own.vertices.set k ⟨x, .finite u⟩ :=
    (List.set_set _).symm
  rw [hset, shrinkAt]
  refine (run_bind_of_ok (run_vertices rfl hne)).trans ?_
  rw [hs, hshrinkage]
  exact (SearchM.run_use_bind d rfl _).trans
    ((SearchM.run_modifyOwn_bind d _ _).trans
      ((run_bind_of_ok (SearchM.run_evaluate_of_ok (c := e) hu)).trans rfl))

theorem run_shrinkAt (best : Point α n) {d : Course σ α n (State α n)} {done rest : Vertices α n}
    {costs : List α} (hlength : costs.length = rest.length) (hd : d.own.vertices = done ++ rest)
    (hreplies : ∀ j s u, rest[j]? = some s → costs[j]? = some u →
      t.Replies (towards t.region best shrinkage s.point) (d.ledger.calls + j + 1)
        (.ok (.finite u))) :
    let moved := pulled t.region best shrinkage rest costs
    (shrinkAt t p best (List.range' done.length rest.length) :
        SearchM σ α n (State α n) Unit).run d =
      (.ok (), { d with
        ledger := d.ledger.enterAll (moved.map Sample.answer)
        own := { d.own with vertices := done ++ moved } }) := by
  -- Induction on the vertices that are not pulled yet.
  induction rest generalizing done costs d with
  | nil =>
    obtain rfl := List.eq_nil_of_length_eq_zero hlength
    show _ = (Except.ok (), { d with own := { d.own with vertices := done ++ [] } })
    rw [← hd]
    rfl
  | cons s rest ih =>
    obtain ⟨u, costs, rfl⟩ := List.exists_cons_of_length_eq_add_one hlength
    have hs : d.own.vertices[done.length]? = some s := by
      rw [hd, List.getElem?_append_right le_rfl, Nat.sub_self]
      rfl
    intro moved
    rw [List.length_cons, List.range'_succ,
      run_shrinkAt_cons hshrinkage best hs (hreplies 0 s u rfl rfl)]
    let x := towards t.region best shrinkage s.point
    have hset : d.own.vertices.set done.length ⟨x, .finite u⟩ = (done ++ [⟨x, .finite u⟩]) ++ rest := by
      rw [hd, List.set_append_right _ _ le_rfl, Nat.sub_self, List.append_assoc]
      rfl
    have hlater (j : ℕ) (s' : Sample α n) (u' : α) (hs' : rest[j]? = some s')
        (hu' : costs[j]? = some u') : t.Replies (towards t.region best shrinkage s'.point)
          (d.ledger.calls + 1 + j + 1) (.ok (.finite u')) := by
      rw [Nat.add_right_comm d.ledger.calls 1 j]
      exact hreplies (j + 1) s' u' hs' hu'
    have hrest := ih
      (d := { d with
        ledger := d.ledger.enter x (.finite u)
        own := { d.own with vertices := d.own.vertices.set done.length ⟨x, .finite u⟩ } })
      (Nat.succ.inj hlength) hset hlater
    rw [List.length_append] at hrest
    refine hrest.trans ?_
    rw [List.append_assoc]
    rfl

theorem run_shrink {d : Course σ α n (State α n)} {best : Sample α n} {rest : Vertices α n}
    {costs : List α} (hrest : rest.length = n) (hcosts : costs.length = n)
    (hd : d.own.vertices = best :: rest)
    (hreplies : ∀ j s u, rest[j]? = some s → costs[j]? = some u →
      t.Replies (towards t.region best.point shrinkage s.point) (d.ledger.calls + j + 1)
        (.ok (.finite u))) :
    let moved := pulled t.region best.point shrinkage rest costs
    (shrink t p : SearchM σ α n (State α n) Unit).run d =
      (.ok (), { d with
        ledger := d.ledger.enterAll (moved.map Sample.answer)
        own := { d.own with vertices := best :: moved } }) := by
  have hsplit : d.own.vertices = [best] ++ rest := hd
  have hrun := run_shrinkAt hshrinkage best.point (hcosts.trans hrest.symm) hsplit hreplies
  rw [hrest, List.length_singleton, ← range_map_succ] at hrun
  exact (run_bind_of_ok (run_vertices hd (List.cons_ne_nil _ _))).trans hrun

end

/-- A contraction that does not help gives way to `n` more evaluations. -/
theorem exists_run_contract_of_not_lt {shrinkage contraction : α}
    (hshrinkage : p.shrinkage = .ok shrinkage) (hcontraction : p.contraction = .ok contraction)
    {d : Course σ α n (State α n)} {points : Fin (n + 1) → Point α n} {f : Fin (n + 1) → α}
    (hv : d.own.vertices = List.ofFn fun k => ⟨points k, .finite (f k)⟩)
    {middle xₙ xr xc : Point α n} {fₙ fr fc : α}
    (hxc : xc = towards t.region middle contraction (base (xₙ, fₙ) (xr, fr)).1)
    (hc : t.Replies xc (d.ledger.calls + 1) (.ok (.finite fc)))
    (h : ¬fc < (base (xₙ, fₙ) (xr, fr)).2) {costs : Fin n → α}
    (hreplies : ∀ j : Fin n, t.Replies (towards t.region (points 0) shrinkage (points j.succ))
      (d.ledger.calls + 2 + j) (.ok (.finite (costs j)))) :
    ∃ e, (contract t p ⟨xₙ, .finite fₙ⟩ middle xr fr >>= fun _ => finish :
        SearchM σ α n (State α n) Unit).run d = (.ok (), e) ∧
      e.ledger.rounds = d.ledger.rounds + 1 ∧
      e.ledger.evaluations = d.ledger.evaluations + (n + 1) := by
  rw [List.ofFn_succ] at hv
  let rest : Vertices α n := List.ofFn fun k : Fin n => ⟨points k.succ, .finite (f k.succ)⟩
  let e := stopped d (d.ledger.enter xc (.finite fc)) .shrink
  have hlater : ∀ j s u, rest[j]? = some s → (List.ofFn costs)[j]? = some u →
      t.Replies (towards t.region (points 0) shrinkage s.point) (e.ledger.calls + j + 1)
        (.ok (.finite u)) := by
    intro j s u hs hu
    rw [List.getElem?_ofFn] at hs hu
    by_cases hj : j < n
    · rw [dif_pos hj] at hs hu
      obtain rfl := Option.some.inj hs
      obtain rfl := Option.some.inj hu
      have hcalls : e.ledger.calls + j + 1 = d.ledger.calls + 2 + j := by
        show d.ledger.calls + 1 + j + 1 = _
        omega
      rw [hcalls]
      exact hreplies ⟨j, hj⟩
    · rw [dif_neg hj] at hs
      exact nomatch hs
  have hshrink := run_shrink hshrinkage List.length_ofFn List.length_ofFn (d := e) hv hlater
  refine ⟨_, run_bind_of_ok ((run_contract_of_not_lt hcontraction hxc hc h).trans hshrink), ?_, ?_⟩
  · exact congrArg (· + 1) (Account.rounds_enterAll _ _)
  · have hlength : ((pulled t.region (points 0) shrinkage rest (List.ofFn costs)).map
        Sample.answer).length = n := by
      unfold pulled
      rw [List.length_map, List.length_zipWith, List.length_ofFn, List.length_ofFn, Nat.min_self]
    refine (Account.evaluations_enterAll _ _).trans ?_
    rw [hlength]
    show d.ledger.evaluations + 1 + n = d.ledger.evaluations + (n + 1)
    omega

/-! ## 3. Costs after a replacement -/

/-- If more than `k` of some ranked costs are not above a finite cost, then that of rank `k` is not. -/
theorem not_below_of_countP [Scalar.Ordered α] {costs : List (Cost α)} {u : α}
    (hproper : ∀ c ∈ costs, c.IsProper) (hranked : costs.Pairwise fun c c' => c.notAfter c' = true)
    {k : ℕ} (hcount : k < costs.countP fun c => !(Cost.finite u).before c) {c : Cost α}
    (hc : costs[k]? = some c) : (Cost.finite u).before c = false := by
  by_contra hbefore
  rw [Bool.not_eq_false] at hbefore
  obtain ⟨hk, rfl⟩ := List.getElem?_eq_some_iff.mp hc
  -- those that are ranked from `k` on are above the finite cost
  have hafter : ∀ c ∈ costs.drop k, ¬(!(Cost.finite u).before c) = true := by
    intro c hc
    have hsorted : (costs.drop k).Pairwise fun c c' => c.notAfter c' = true :=
      hranked.sublist (List.drop_sublist k costs)
    rw [List.drop_eq_getElem_cons hk] at hc hsorted
    rcases List.mem_cons.mp hc with rfl | hlater
    · simp [hbefore]
    · have hnot : c.before costs[k] = false := by
        simpa [Cost.notAfter] using List.rel_of_pairwise_cons hsorted hlater
      rcases Cost.before_or_before (hproper c (List.mem_of_mem_drop hlater)) hbefore with h | h
      · simp [h]
      · rw [hnot] at h
        exact absurd h Bool.false_ne_true
  rw [← List.take_append_drop k costs, List.countP_append, List.countP_eq_zero.mpr hafter] at hcount
  have hle := List.countP_le_length (p := fun c => !(Cost.finite u).before c) (l := costs.take k)
  rw [List.length_take] at hle
  omega

/-- If the first entries of a table up to `k` have a property, then more than `k` of them have it. -/
theorem lt_countP_ofFn {β : Type} {m : ℕ} {g : Fin m → β} {q : β → Bool} {k : Fin m}
    (h : ∀ i ≤ k, q (g i) = true) : k.val < (List.ofFn g).countP q := by
  have hfirst : ∀ b ∈ (List.ofFn g).take (k.val + 1), q b = true := by
    intro b hb
    obtain ⟨i, hi, rfl⟩ := List.mem_take_iff_getElem.mp hb
    rw [List.length_ofFn] at hi
    rw [List.getElem_ofFn]
    exact h _ (Fin.mk_le_of_le_val (by omega))
  calc k.val < ((List.ofFn g).take (k.val + 1)).length := by
        rw [List.length_take, List.length_ofFn]
        omega
    _ = ((List.ofFn g).take (k.val + 1)).countP q := (List.countP_eq_length.mpr hfirst).symm
    _ ≤ _ := (List.take_sublist _ _).countP_le

section

variable [Scalar.Linear α] {points : Fin (n + 1) → Point α n} {f : Fin (n + 1) → α} {v : Vertices α n}
  (hv : v = List.ofFn fun k => ⟨points k, .finite (f k)⟩)

omit [Scalar α] [Scalar.Linear α] in
include hv in
theorem costs_replaceWorst (x : Point α n) (w : α) :
    (v.replaceWorst ⟨x, .finite w⟩).map (·.cost) =
      List.ofFn fun k => .finite (Function.update f (Fin.last n) w k) := by
  subst hv
  unfold Vertices.replaceWorst
  apply List.ext_getElem (by simp)
  intro k hk _
  rw [List.getElem_map, List.getElem_set, List.getElem_ofFn, List.getElem_ofFn]
  by_cases h : n = k
  · subst h
    rw [if_pos rfl]
    exact congrArg Cost.finite (Function.update_self (Fin.last n) w f).symm
  · rw [if_neg h, Function.update_of_ne (fun hlast => h (congrArg Fin.val hlast).symm)]

variable (hfinite : ∀ k, Scalar.isFinite (f k) = true) (hascending : ∀ i j, i ≤ j → f i ≤ f j)

omit [Scalar.Linear α] in
include hfinite in
theorem isFinite_update {w : α} (hw : Scalar.isFinite w = true) (k : Fin (n + 1)) :
    Scalar.isFinite (Function.update f (Fin.last n) w k) = true := by
  rw [Function.update_apply]
  split
  · exact hw
  · exact hfinite k

include hascending in
/-- A cheaper cost in the last place is not above those that were there up to a rank. -/
theorem not_lt_update {w : α} (hlt : w < f (Fin.last n)) {i k : Fin (n + 1)} (hik : i ≤ k) :
    ¬f k < Function.update f (Fin.last n) w i := by
  rw [Function.update_apply]
  split
  · rename_i hlast
    obtain rfl : k = Fin.last n := le_antisymm (Fin.le_last k) (hlast ▸ hik)
    exact fun h => Scalar.Ordered.lt_irrefl _ (Scalar.Ordered.lt_trans hlt h)
  · exact Scalar.Linear.not_lt_of_le (hascending i k hik)

include hv hfinite hascending in
/-- No ranked cost increases when the worst vertex gives way to a cheaper one. -/
theorem ranked_replaceWorst {x : Point α n} {w : α} (hw : Scalar.isFinite w = true)
    (hlt : w < f (Fin.last n)) :
    let v' := (v.replaceWorst ⟨x, .finite w⟩).ranked
    (v'.map (·.cost)).Perm (List.ofFn fun k => .finite (Function.update f (Fin.last n) w k)) ∧
      v'.Pairwise (fun s s' => s.cost.notAfter s'.cost = true) ∧
      ∀ (k : Fin (n + 1)) s, v'[k.val]? = some s → (Cost.finite (f k)).before s.cost = false := by
  intro v'
  let g : Fin (n + 1) → α := Function.update f (Fin.last n) w
  have hcosts : (v.replaceWorst ⟨x, .finite w⟩).map (·.cost) = List.ofFn fun k => .finite (g k) :=
    costs_replaceWorst hv x w
  have hproper : ∀ s ∈ v.replaceWorst ⟨x, .finite w⟩, s.cost.IsProper := by
    intro s hs
    have hcost : s.cost ∈ (v.replaceWorst ⟨x, .finite w⟩).map (·.cost) := List.mem_map_of_mem hs
    rw [hcosts] at hcost
    obtain ⟨k, hk⟩ := List.mem_ofFn.mp hcost
    rw [← hk]
    rintro u hu
    obtain rfl : g k = u := Cost.finite.inj hu
    exact isFinite_update hfinite hw k
  have hperm : (v'.map (·.cost)).Perm (List.ofFn fun k => .finite (g k)) :=
    ((Cost.rank_perm _ _).map _).trans (.of_eq hcosts)
  have hranked : v'.Pairwise fun s s' => s.cost.notAfter s'.cost = true := Cost.pairwise_rank hproper
  refine ⟨hperm, hranked, fun k s hs => ?_⟩
  have hproper' : ∀ c ∈ v'.map (·.cost), c.IsProper := by
    intro c hc
    obtain ⟨s, hs, rfl⟩ := List.mem_map.mp hc
    exact hproper s ((Cost.rank_perm _ _).mem_iff.mp hs)
  apply not_below_of_countP hproper' (List.pairwise_map.mpr hranked) (k := k.val)
  · -- the first `k + 1` of the costs before the ranking are not above that of rank `k`
    rw [hperm.countP_eq]
    apply lt_countP_ofFn
    intro i hik
    show (!decide (f k < g i)) = true
    rw [decide_eq_false (not_lt_update hascending hlt hik)]
    rfl
  · rw [List.getElem?_map, hs]
    rfl

end

/-- The rank of the worst vertex but one. -/
def beforeLast (n : ℕ) : Fin (n + 1) := ⟨n - 1, Nat.lt_succ_of_le (n.sub_le 1)⟩

omit [Scalar α] in
theorem corners_ofFn {points : Fin (n + 1) → Point α n} {f : Fin (n + 1) → α}
    {v : Vertices α n} (hv : v = List.ofFn fun k => ⟨points k, .finite (f k)⟩) :
    v.corners? = some ⟨⟨points 0, .finite (f 0)⟩,
      ⟨points (beforeLast n), .finite (f (beforeLast n))⟩,
      ⟨points (Fin.last n), .finite (f (Fin.last n))⟩⟩ := by
  have hget (k : Fin (n + 1)) : v[k.val]? = some ⟨points k, .finite (f k)⟩ := by
    rw [hv, List.getElem?_ofFn, dif_pos k.isLt]
  have hfirst := hget 0
  have hsecond : v[n - 1]? = _ := hget (beforeLast n)
  have hlast := hget (Fin.last n)
  unfold Vertices.corners?
  rw [Fin.val_zero] at hfirst
  rw [Fin.val_last] at hlast
  rw [hfirst, hsecond, hlast]
  rfl

end Simplex

end BoxSearch
