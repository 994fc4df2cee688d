import BoxSearch.Ledger
import BoxSearch.Report

/-!
# Rescaled costs

A function on costs that keeps the order of the finite ones, and what is finite and what is not,
rescales everything that an account records: the best cost, the history, the answers, the phase and
the events.  Every entry into an account commutes with it, because the best is found by comparisons
alone.
-/

namespace BoxSearch

variable {α : Type}

/-! ## 1. Functions on costs -/

namespace Cost

/-- A cost that is finite. -/
def IsFinite (c : Cost α) : Prop := ∃ v, c = .finite v

/-- The function keeps the order of finite costs, which stay finite, and no other cost becomes
finite. -/
structure KeepsOrder [LT α] (g : Cost α → Cost α) : Prop where
  finite : ∀ v, (g (.finite v)).IsFinite
  onlyFinite : ∀ c, (g c).IsFinite → c.IsFinite
  lt_iff : ∀ v w v' w', g (.finite v) = .finite v' → g (.finite w) = .finite w' → (v' < w' ↔ v < w)

/-- What the function does to the value of a finite cost. -/
def onValue (g : Cost α → Cost α) (v : α) : α :=
  match g (.finite v) with
  | .finite w => w
  | _ => v

namespace KeepsOrder

variable {g : Cost α → Cost α}

theorem apply_finite [LT α] (hg : KeepsOrder g) (v : α) : g (.finite v) = .finite (onValue g v) := by
  obtain ⟨w, hw⟩ := hg.finite v
  unfold onValue
  rw [hw]

theorem onValue_lt_iff [LT α] (hg : KeepsOrder g) (v w : α) :
    onValue g v < onValue g w ↔ v < w :=
  hg.lt_iff v w _ _ (hg.apply_finite v) (hg.apply_finite w)

/-- A cost that is not finite stays none. -/
theorem apply_ne_finite [LT α] (hg : KeepsOrder g) {c : Cost α} (hc : ¬c.IsFinite) (w : α) :
    g c ≠ .finite w :=
  fun h => hc (hg.onlyFinite c ⟨w, h⟩)

variable [Scalar α] (hg : KeepsOrder g)

include hg

theorem below_apply {c d : Cost α} (hc : c.IsFinite) (hd : d.IsFinite) :
    (g c).below (g d) = c.below d := by
  obtain ⟨v, rfl⟩ := hc
  obtain ⟨w, rfl⟩ := hd
  rw [hg.apply_finite, hg.apply_finite]
  exact decide_eq_decide.mpr (hg.onValue_lt_iff v w)

theorem notAfter_apply {c d : Cost α} (hc : c.IsFinite) (hd : d.IsFinite) :
    (g c).notAfter (g d) = c.notAfter d := by
  have h := hg.below_apply hd hc
  obtain ⟨v, rfl⟩ := hc
  obtain ⟨w, rfl⟩ := hd
  rw [hg.apply_finite, hg.apply_finite] at h ⊢
  exact congrArg (!·) h

end KeepsOrder

/-- A ranking depends on the costs only by which of them come after which. -/
theorem map_rank_of_notAfter {α' β γ : Type} [Scalar α] [Scalar α'] {cost : β → Cost α}
    {cost' : γ → Cost α'} {f : β → γ} {items : List β}
    (h : ∀ a ∈ items, ∀ b ∈ items,
      (cost' (f a)).notAfter (cost' (f b)) = (cost a).notAfter (cost b)) :
    (rank cost items).map f = rank cost' (items.map f) := by
  unfold rank
  apply List.map_mergeSort
  intro a ha b hb
  exact (h a ha b hb).symm

/-- A ranking of finite costs is the ranking of the rescaled ones. -/
theorem map_rank [Scalar α] {g : Cost α → Cost α} (hg : KeepsOrder g) {β γ : Type}
    {cost : β → Cost α} {cost' : γ → Cost α} {f : β → γ} {items : List β}
    (hcost : ∀ b ∈ items, cost' (f b) = g (cost b)) (hfinite : ∀ b ∈ items, (cost b).IsFinite) :
    (rank cost items).map f = rank cost' (items.map f) := by
  apply map_rank_of_notAfter
  intro a ha b hb
  rw [hcost a ha, hcost b hb, hg.notAfter_apply (hfinite a ha) (hfinite b hb)]

theorem rankedPlaces_map_of_notAfter {α' : Type} [Scalar α] [Scalar α'] {g : Cost α → Cost α'}
    {costs : List (Cost α)}
    (h : ∀ a ∈ costs, ∀ b ∈ costs, (g a).notAfter (g b) = a.notAfter b) :
    rankedPlaces (costs.map g) = rankedPlaces costs := by
  have hrank : (rank (fun item => item.1) costs.zipIdx).map (Prod.map g id) =
      rank (fun item => item.1) (costs.zipIdx.map (Prod.map g id)) :=
    map_rank_of_notAfter fun a ha b hb =>
      h a.1 (List.fst_mem_of_mem_zipIdx ha) b.1 (List.fst_mem_of_mem_zipIdx hb)
  unfold rankedPlaces
  rw [List.zipIdx_map, ← hrank, List.map_map]
  rfl

/-- Items of finite cost, next to what `f` makes of them. -/
structure Alike {β : Type} (cost : β → Cost α) (f : β → β) (items items' : List β) : Prop where
  mapped : items' = items.map f
  finite : ∀ b ∈ items, (cost b).IsFinite

namespace Alike

variable {β : Type} {cost : β → Cost α} {f : β → β} {items items' others others' : List β}

theorem nil : Alike cost f [] [] :=
  ⟨rfl, fun _ hb => absurd hb List.not_mem_nil⟩

theorem singleton {b : β} (hb : (cost b).IsFinite) : Alike cost f [b] [f b] := by
  constructor
  · rfl
  · intro b' hb'
    rw [List.mem_singleton.mp hb']
    exact hb

theorem append (h : Alike cost f items items') (ho : Alike cost f others others') :
    Alike cost f (items ++ others) (items' ++ others') := by
  constructor
  · rw [h.mapped, ho.mapped, List.map_append]
  · intro b hb
    rcases List.mem_append.mp hb with hb | hb
    · exact h.finite b hb
    · exact ho.finite b hb

theorem take (h : Alike cost f items items') (k : Nat) :
    Alike cost f (items.take k) (items'.take k) := by
  constructor
  · rw [h.mapped, List.map_take]
  · intro b hb
    exact h.finite b (List.mem_of_mem_take hb)

theorem set (h : Alike cost f items items') (k : Nat) {b : β} (hb : (cost b).IsFinite) :
    Alike cost f (items.set k b) (items'.set k (f b)) := by
  constructor
  · rw [h.mapped, List.map_set]
  · intro b' hb'
    rcases List.mem_or_eq_of_mem_set hb' with hold | rfl
    · exact h.finite b' hold
    · exact hb

theorem rank [Scalar α] {g : Cost α → Cost α} (hg : KeepsOrder g)
    (hcost : ∀ b, cost (f b) = g (cost b)) (h : Alike cost f items items') :
    Alike cost f (Cost.rank cost items) (Cost.rank cost items') := by
  constructor
  · rw [h.mapped, map_rank hg (fun b _ => hcost b) h.finite]
  · intro b hb
    exact h.finite b ((rank_perm cost items).mem_iff.mp hb)

end Alike

end Cost

/-! ## 2. Accounts -/

/-- The phase with the cost that ended the search rescaled. -/
def Phase.rescale (g : Cost α → Cost α) : Phase α → Phase α
  | .nonFinite c k => .nonFinite (g c) k
  | .degenerate v k => .degenerate (Cost.onValue g v) k
  | p => p

/-- The event with the costs that it tells rescaled. -/
def Event.rescale (g : Cost α → Cost α) : Event α → Event α
  | .finished phase k best => .finished (phase.rescale g) k (best.map (Cost.onValue g))
  | .keptBest phase best => .keptBest (phase.rescale g) (best.map (Cost.onValue g))
  | .tied phase => .tied (phase.rescale g)
  | e => e

def Best.rescale {P : Type} (g : Cost α → Cost α) (b : Best α P) : Best α P :=
  { b with cost := Cost.onValue g b.cost }

/-- The account with every cost in it rescaled. -/
def Account.rescale {P : Type} (g : Cost α → Cost α) (L : Account α P) : Account α P :=
  { L with
    best := L.best.map (Best.rescale g)
    history := L.history.map fun e => (e.1, e.2.map (Cost.onValue g))
    trace := L.trace.map fun e => (e.1, e.2.map g)
    phase := L.phase.rescale g
    events := L.events.map (Event.rescale g) }

theorem Phase.status_rescale (g : Cost α → Cost α) (p : Phase α) :
    (p.rescale g).status = p.status := by
  cases p <;> rfl

theorem Phase.isOver_rescale (g : Cost α → Cost α) (p : Phase α) :
    (p.rescale g).isOver = p.isOver := by
  cases p <;> rfl

theorem Phase.rescale_eq_notStarted (g : Cost α → Cost α) (p : Phase α) :
    p.rescale g = .notStarted ↔ p = .notStarted := by
  cases p with
  | notStarted => exact ⟨fun _ => rfl, fun _ => rfl⟩
  | _ => exact ⟨(nomatch ·), (nomatch ·)⟩

namespace Account

variable {P : Type} {g : Cost α → Cost α}

theorem bestCost_rescale (g : Cost α → Cost α) (L : Account α P) :
    (L.rescale g).bestCost = L.bestCost.map (Cost.onValue g) := by
  unfold bestCost rescale
  rw [Option.map_map, Option.map_map]
  rfl

theorem rescale_report (g : Cost α → Cost α) (L : Account α P) (e : Event α) :
    (L.report e).rescale g = (L.rescale g).report (e.rescale g) := by
  unfold report rescale
  rw [List.map_append]
  rfl

theorem rescale_enterFailure (g : Cost α → Cost α) (L : Account α P) (x : P) :
    (L.enterFailure x).rescale g = (L.rescale g).enterFailure x := by
  unfold enterFailure rescale
  rw [List.map_append]
  rfl

theorem rescale_stopNonFinite (g : Cost α → Cost α) (L : Account α P) (c : Cost α) :
    (L.stopNonFinite c).rescale g = (L.rescale g).stopNonFinite (g c) := by
  unfold stopNonFinite
  rw [rescale_report, bestCost_rescale]
  rfl

theorem rescale_start (g : Cost α → Cost α) (L : Account α P) (dimension budget : Nat) :
    (L.start dimension budget).rescale g = (L.rescale g).start dimension budget :=
  rescale_report g _ _

theorem rescale_markRunning (g : Cost α → Cost α) (L : Account α P) :
    L.markRunning.rescale g = (L.rescale g).markRunning := by
  obtain ⟨calls, evaluations, rounds, best, history, trace, phase, events⟩ := L
  cases phase <;> rfl

theorem rescale_close (g : Cost α → Cost α) (L : Account α P) :
    L.close.rescale g = (L.rescale g).close := by
  have hreport (L : Account α P) :
      (L.report (.finished L.phase L.evaluations L.bestCost)).rescale g =
        (L.rescale g).report
          (.finished (L.rescale g).phase (L.rescale g).evaluations (L.rescale g).bestCost) := by
    rw [rescale_report, bestCost_rescale]
    rfl
  obtain ⟨calls, evaluations, rounds, best, history, trace, phase, events⟩ := L
  cases phase <;> exact hreport _

variable [Scalar α]

theorem improve_rescale (hg : Cost.KeepsOrder g) (best : Option (Best α P)) (x : P) (c : Cost α) :
    improve (best.map (Best.rescale g)) x (g c) = (improve best x c).map (Best.rescale g) := by
  -- A finite cost is compared with the best one; any other leaves the best as it is.
  by_cases hc : c.IsFinite
  · obtain ⟨v, rfl⟩ := hc
    rw [hg.apply_finite]
    cases best with
    | none => rfl
    | some b =>
      show (if Cost.onValue g v < Cost.onValue g b.cost then _ else _) =
        (if v < b.cost then _ else _ : Option (Best α P)).map (Best.rescale g)
      by_cases hlt : v < b.cost
      · rw [if_pos hlt, if_pos ((hg.onValue_lt_iff v b.cost).mpr hlt)]
        rfl
      · rw [if_neg hlt, if_neg (mt (hg.onValue_lt_iff v b.cost).mp hlt)]
        rfl
  · have hkeep (d : Cost α) (hd : ∀ w, d ≠ .finite w) (o : Option (Best α P)) :
        improve o x d = o := by
      cases d with
      | finite w => exact absurd rfl (hd w)
      | _ => rfl
    rw [hkeep _ (hg.apply_ne_finite hc), hkeep c fun w h => hc ⟨w, h⟩]

theorem rescale_enter (hg : Cost.KeepsOrder g) (L : Account α P) (x : P) (c : Cost α) :
    (L.enter x c).rescale g = (L.rescale g).enter x (g c) := by
  obtain ⟨calls, evaluations, rounds, best, history, trace, phase, events⟩ := L
  unfold enter rescale
  dsimp only
  rw [improve_rescale hg, List.map_append, List.map_append, Option.map_map]
  simp only [List.map_cons, List.map_nil, Option.map_map, Option.map_some]
  rfl

end Account

end BoxSearch
