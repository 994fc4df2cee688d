import BoxSearch.Proofs.Order.Mirror
import BoxSearch.Simplex

/-!
# A simplex looks at the order of costs only

The branches of a round compare the reflected cost with the corners.  A tie is where neither of two
costs is below the other, so that ties are kept as well.
-/

namespace BoxSearch.Simplex

open SearchM

variable {σ α : Type} [Scalar α] [DrawSource σ α] {n : Nat} {t : Task α n} {p : Params α}
  {g : Cost α → Cost α}

/-! ## 1. Vertices -/

section

omit [Scalar α] [DrawSource σ α]

/-- A simplex with finite costs, next to the rescaled one. -/
def Alike (g : Cost α → Cost α) (s s' : State α n) : Prop := Sample.Alike g s.vertices s'.vertices

def Corners.rescale (g : Cost α → Cost α) (c : Corners α n) : Corners α n :=
  ⟨c.best.rescale g, c.secondWorst.rescale g, c.worst.rescale g⟩

structure Corners.IsFinite (c : Corners α n) : Prop where
  best : c.best.cost.IsFinite
  secondWorst : c.secondWorst.cost.IsFinite
  worst : c.worst.cost.IsFinite

theorem modifyVertices_mirrors {S : State α n → State α n → Prop}
    {f f' : Vertices α n → Vertices α n}
    (hf : ∀ s s', S s s' → Sample.Alike g (f s.vertices) (f' s'.vertices)) :
    Mirrors g S (modifyVertices f : SearchM σ α n (State α n) Unit) (modifyVertices f')
      fun _ _ => Alike g :=
  .modifyOwn hf

theorem note_mirrors (move : Move) :
    Mirrors g (Alike g) (note move : SearchM σ α n (State α n) Unit) (note move)
      fun _ _ => Alike g :=
  .modifyOwn fun _ _ h => h

theorem vertices_bind {β β' : Type} {f : Vertices α n → SearchM σ α n (State α n) β}
    {f' : Vertices α n → SearchM σ α n (State α n) β'} {Q : β → β' → State α n → State α n → Prop}
    (hf : ∀ v v' : Vertices α n, Sample.Alike g v v' → Mirrors g (Alike g) (f v) (f' v') Q) :
    Mirrors g (Alike g) (vertices >>= f) (vertices >>= f') Q := by
  unfold vertices
  rw [bind_assoc, bind_assoc]
  apply Mirrors.own_bind
  intro s s' h
  obtain ⟨hmapped, hfinite⟩ := h
  rw [hmapped]
  cases hv : s.vertices with
  | nil => exact .throw _
  | cons best rest =>
    rw [hv] at hfinite
    exact hf _ _ ⟨rfl, hfinite⟩

end

omit [DrawSource σ α] [Scalar α] in
theorem corners_rescale (v : Vertices α n) :
    Vertices.corners? (v.map (Sample.rescale g)) = v.corners?.map (Corners.rescale g) := by
  unfold Vertices.corners?
  rw [List.getElem?_map, List.getElem?_map, List.getElem?_map]
  cases v[0]? with
  | none => rfl
  | some best =>
    cases v[n - 1]? with
    | none => rfl
    | some secondWorst => cases v[n]? <;> rfl

omit [DrawSource σ α] [Scalar α] in
theorem isFinite_corners {v : Vertices α n} (hv : ∀ s ∈ v, s.cost.IsFinite) {c : Corners α n}
    (hc : v.corners? = some c) : c.IsFinite := by
  unfold Vertices.corners? at hc
  obtain ⟨best, hbest, hc⟩ := Option.bind_eq_some_iff.mp hc
  obtain ⟨secondWorst, hsecond, hc⟩ := Option.bind_eq_some_iff.mp hc
  obtain ⟨worst, hworst, hc⟩ := Option.bind_eq_some_iff.mp hc
  obtain rfl := Option.some.inj hc
  exact ⟨hv _ (List.mem_of_getElem? hbest), hv _ (List.mem_of_getElem? hsecond),
    hv _ (List.mem_of_getElem? hworst)⟩

omit [DrawSource σ α] in
theorem centroid_rescale (v : Vertices α n) :
    Vertices.centroid (v.map (Sample.rescale g)) = v.centroid := by
  unfold Vertices.centroid
  rw [← List.map_take, Sample.points_rescale]

omit [DrawSource σ α] in
theorem ranked_mirrors (hg : Cost.KeepsOrder g) :
    Mirrors g (Alike g) (modifyVertices (·.ranked) : SearchM σ α n (State α n) Unit)
      (modifyVertices (·.ranked)) fun _ _ => Alike g :=
  modifyVertices_mirrors fun _ _ h => h.rank hg fun _ => rfl

omit [DrawSource σ α] in
/-- The sample with the given point and value replaces the worst vertex. -/
theorem replaceWorst_mirrors (hg : Cost.KeepsOrder g) (x : Point α n) (v : α) :
    Mirrors g (Alike g)
      (modifyVertices (·.replaceWorst ⟨x, .finite v⟩) : SearchM σ α n (State α n) Unit)
      (modifyVertices (·.replaceWorst ⟨x, .finite (Cost.onValue g v)⟩)) fun _ _ => Alike g := by
  rw [← Sample.rescale_finite hg]
  exact modifyVertices_mirrors fun _ _ h => h.set n ⟨v, rfl⟩

/-! ## 2. A round -/

section

omit [DrawSource σ α]

theorem shrinkAt_mirrors (hg : Cost.KeepsOrder g) (best : Point α n) (places : List Nat) :
    Mirrors g (Alike g) (shrinkAt t p best places : SearchM σ α n (State α n) Unit)
      (shrinkAt (t.rescale g) p best places) fun _ _ => Alike g := by
  induction places with
  | nil => exact .pure fun _ _ hk => hk
  | cons k rest ih =>
    apply vertices_bind
    rintro v _ ⟨rfl, hv⟩
    rw [List.getElem?_map]
    cases hs : v[k]? with
    | none => exact .throw _
    | some s =>
      have hfinite : s.cost.IsFinite := hv s (List.mem_of_getElem? hs)
      apply Mirrors.bind_same (.use p.shrinkage)
      intro shrinkage
      -- The vertex has its new point already while that is evaluated.
      have hmoved (x : Point α n) : Mirrors g (Alike g)
          (modifyVertices (·.set k ⟨x, s.cost⟩) : SearchM σ α n (State α n) Unit)
          (modifyVertices (·.set k ⟨x, g s.cost⟩)) fun _ _ => Alike g :=
        modifyVertices_mirrors fun _ _ h => h.set k (b := ⟨x, s.cost⟩) hfinite
      apply Mirrors.seq (hmoved (towards t.region best shrinkage s.point))
      have hevaluated (x : Point α n) (w : α) (own own' : State α n) (h : Alike g own own') :
          Alike g { own with vertices := own.vertices.set k ⟨x, .finite w⟩ }
            { own' with vertices := own'.vertices.set k ⟨x, .finite (Cost.onValue g w)⟩ } := by
        rw [← Sample.rescale_finite hg]
        exact h.set k ⟨w, rfl⟩
      exact .keep_bind hg _ (hevaluated _) fun _ => ih

theorem shrink_mirrors (hg : Cost.KeepsOrder g) :
    Mirrors g (Alike g) (shrink t p : SearchM σ α n (State α n) Unit) (shrink (t.rescale g) p)
      fun _ _ => Alike g := by
  apply vertices_bind
  rintro v _ ⟨rfl, -⟩
  cases v with
  | nil => exact .throw _
  | cons best rest => exact shrinkAt_mirrors hg best.point _

theorem expand_mirrors (hg : Cost.KeepsOrder g) (middle xr : Point α n) (fr : α) :
    Mirrors g (Alike g) (expand t p middle xr fr : SearchM σ α n (State α n) Unit)
      (expand (t.rescale g) p middle xr (Cost.onValue g fr)) fun _ _ => Alike g := by
  apply Mirrors.seq (note_mirrors _)
  apply Mirrors.bind_same (.use p.expansion)
  intro expansion
  apply Mirrors.trial_bind hg
  intro fe
  apply Mirrors.ite (hg.onValue_lt_iff fe fr)
  · exact replaceWorst_mirrors hg _ fe
  · exact replaceWorst_mirrors hg xr fr

theorem contract_mirrors (hg : Cost.KeepsOrder g) {worst : Sample α n} (hworst : worst.cost.IsFinite)
    (middle xr : Point α n) (fr : α) :
    Mirrors g (Alike g) (contract t p worst middle xr fr : SearchM σ α n (State α n) Unit)
      (contract (t.rescale g) p (worst.rescale g) middle xr (Cost.onValue g fr))
      fun _ _ => Alike g := by
  have hbelow (v : α) {s : Sample α n} (hs : s.cost.IsFinite) :
      (Cost.finite (Cost.onValue g v)).below (s.rescale g).cost =
        (Cost.finite v).below s.cost := by
    rw [← hg.apply_finite]
    exact hg.below_apply ⟨v, rfl⟩ hs
  unfold contract
  dsimp only
  rw [hbelow fr hworst, ← Sample.rescale_finite hg]
  apply Mirrors.seq (note_mirrors _)
  -- The base is a vertex of finite cost on either side of the centroid.
  have hbase : (if (Cost.finite fr).below worst.cost = true then (⟨xr, .finite fr⟩ : Sample α n)
      else worst).cost.IsFinite := by
    split
    · exact ⟨fr, rfl⟩
    · exact hworst
  rw [← apply_ite (Sample.rescale g)]
  apply Mirrors.bind_same (.use p.contraction)
  intro contraction
  apply Mirrors.trial_bind hg
  intro fc
  apply Mirrors.ite (by rw [hbelow fc hbase])
  · exact replaceWorst_mirrors hg _ fc
  · exact .seq (note_mirrors _) (shrink_mirrors hg)

omit [Scalar α] in
theorem endDegenerate_mirrors (fr : α) :
    Mirrors g (Alike g) (endDegenerate fr : SearchM σ α n (State α n) Unit)
      (endDegenerate (Cost.onValue g fr)) fun _ _ => Alike g := by
  apply Mirrors.seq (note_mirrors _)
  apply Mirrors.ledger_bind
  intro L
  apply Mirrors.seq (.stop rfl)
  apply Mirrors.seq (.report rfl)
  exact .throw _

theorem round_mirrors (hg : Cost.KeepsOrder g) :
    Mirrors g (Alike g) (round t p : SearchM σ α n (State α n) Unit) (round (t.rescale g) p)
      fun _ _ => Alike g := by
  apply vertices_bind
  rintro v _ ⟨rfl, hv⟩
  rw [corners_rescale, centroid_rescale]
  cases hc : Vertices.corners? v with
  | none => exact .throw _
  | some c =>
    have hfinite : c.IsFinite := isFinite_corners hv hc
    apply Mirrors.bind_same (.use p.reflection)
    intro reflection
    apply Mirrors.trial_bind hg
    intro fr
    have hbelow {a b : Cost α} (ha : a.IsFinite) (hb : b.IsFinite) :
        (g a).below (g b) = true ↔ a.below b = true := by
      rw [hg.below_apply ha hb]
    have hfr : (Cost.finite fr).IsFinite := ⟨fr, rfl⟩
    have hend : Mirrors g (Alike g)
        (do modifyVertices (·.ranked); SearchM.endRound : SearchM σ α n (State α n) Unit)
        (do modifyVertices (·.ranked); SearchM.endRound) fun _ _ => Alike g :=
      .seq (ranked_mirrors hg) .endRound
    rw [← hg.apply_finite]
    apply Mirrors.ite
    · show ((g c.best.cost).below (g (.finite fr)) &&
        (g (.finite fr)).below (g c.secondWorst.cost)) = true ↔ _
      rw [hg.below_apply hfinite.best hfr, hg.below_apply hfr hfinite.secondWorst]
    · apply Mirrors.seq (note_mirrors _)
      rw [hg.apply_finite]
      exact .seq (replaceWorst_mirrors hg _ fr) hend
    · apply Mirrors.ite (hbelow hfr hfinite.best)
      · exact .seq (expand_mirrors hg _ _ fr) hend
      · apply Mirrors.ite (hbelow hfinite.secondWorst hfr)
        · exact .seq (contract_mirrors hg hfinite.worst _ _ fr) hend
        · exact .seq (endDegenerate_mirrors fr) hend

/-! ## 3. The whole search -/

theorem addVertex_mirrors (hg : Cost.KeepsOrder g) (x : Point α n) :
    Mirrors g (Alike g) (addVertex t x : SearchM σ α n (State α n) Unit)
      (addVertex (t.rescale g) x) fun _ _ => Alike g := by
  have hadded (v : α) (own own' : State α n) (h : Alike g own own') :
      Alike g { own with vertices := own.vertices ++ [⟨x, .finite v⟩] }
        { own' with vertices := own'.vertices ++ [⟨x, .finite (Cost.onValue g v)⟩] } := by
    rw [← Sample.rescale_finite hg]
    exact h.append (.singleton ⟨v, rfl⟩)
  exact .keep_bind hg x hadded fun _ => .pure fun _ _ hk => hk

end

theorem foundAround_mirrors (hg : Cost.KeepsOrder g) (first : Point α n) (k : Nat) :
    Mirrors g (Alike g) (foundAround t p first k : SearchM σ α n (State α n) Unit)
      (foundAround (t.rescale g) p first k) fun _ _ => Alike g := by
  induction k with
  | zero => exact .pure fun _ _ hk => hk
  | succ k ih =>
    apply Mirrors.bind_same (.drawOr (Draw.normalPoint t.region first p.spread))
    intro x
    exact .seq (addVertex_mirrors hg x) ih

theorem found_mirrors (hg : Cost.KeepsOrder g) (S : State α n → State α n → Prop) :
    Mirrors g S (found t p : SearchM σ α n (State α n) Unit) (found (t.rescale g) p)
      fun _ _ => Alike g := by
  apply Mirrors.bind_same (.drawOr (firstVertex t p))
  intro first
  apply Mirrors.seq (modifyVertices_mirrors fun _ _ _ => Cost.Alike.nil)
  apply Mirrors.seq (addVertex_mirrors hg first)
  apply Mirrors.seq (foundAround_mirrors hg first n)
  exact ranked_mirrors hg

theorem run_mirrors (hg : Cost.KeepsOrder g) (S : State α n → State α n → Prop) :
    Mirrors g S (run t p : SearchM σ α n (State α n) Unit) (run (t.rescale g) p)
      fun _ _ => Alike g :=
  .seq (found_mirrors hg S) (.roundsWithin (round_mirrors hg) t.budget)

end BoxSearch.Simplex
