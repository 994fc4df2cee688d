import Mathlib
import BoxSearch.Evolution
import BoxSearch.Genetic
import BoxSearch.HillClimb
import BoxSearch.Proofs.Feasible.Region
import BoxSearch.Proofs.Search.Triple
import BoxSearch.Rotation
import BoxSearch.Simplex
import BoxSearch.Swarm

/-!
# Random choices stay in the region

Every random choice that ends in a point to be evaluated ends in a feasible point, whatever the draws
are, and whatever fault it meets on the way is none that a check of a point would raise.  What a
method has to know of its own points is only that the integer variables of parents are whole.  Most
choices meet no fault at all if the settings are numbers: these are stated for any `F` of a fault.
-/

namespace BoxSearch

/-- Any fault but the two that say that a point is not in its region. -/
def Fault.IsOrdinary {α : Type} : Fault α → Prop
  | .outside _ => False
  | .fractional _ => False
  | _ => True

/-- A setting that is a number, not a fault that waits for its use. -/
def Usable.IsNumber {α β : Type} (q : Usable α β) : Prop := ∃ v, q = .ok v

variable {σ : Type} {n : ℕ}

namespace Meets

variable {α β γ : Type} {F : Fault α → Prop}

theorem useNumber {q : Usable α β} (h : q.IsNumber) :
    Meets (fun _ => True) F (ChoiceM.use q : ChoiceM σ α β) := by
  obtain ⟨v, rfl⟩ := h
  exact .use (fun _ _ => trivial) fun f hf => nomatch hf

theorem useOk {q : Usable α β} {v : β} (h : q = .ok v) :
    Meets (fun w => v = w) F (ChoiceM.use q : ChoiceM σ α β) := by
  subst h
  exact .use (fun _ hw => Except.ok.inj hw) fun _ hf => nomatch hf

/-- What is missing gives the fault that was named for it. -/
theorem useOption {f : Fault α} {o : Option β} (h : F f) :
    Meets (fun b => o = some b) F (ChoiceM.use (.ofOption f o) : ChoiceM σ α β) := by
  cases o with
  | none => exact .use (fun _ hv => nomatch hv) fun _ hf => Except.error.inj hf ▸ h
  | some b => exact .use (fun _ hv => congrArg some (Except.ok.inj hv)) fun _ hf => nomatch hf

end Meets

/-- In exact arithmetic every scalar has a nearest integer. -/
theorem Usable.finite_real (x : ℝ) : Usable.finite x = .ok x := rfl

variable [DrawSource σ ℝ] {F : Fault ℝ → Prop}

/-! ## 1. Points from nowhere and from given ones -/

namespace Draw

omit [DrawSource σ ℝ] in
/-- A range is refused for one reason, if at all. -/
theorem checkRange_meets {α : Type} [DrawSource σ α] {F : Fault α → Prop} {good : Bool} {f : Fault α}
    (h : good = false → F f) : Meets (fun _ => True) F (checkRange good f : ChoiceM σ α Unit) := by
  cases good with
  | true =>
    rw [checkRange_true]
    exact .pure trivial
  | false =>
    apply Meets.use (fun _ _ => trivial)
    intro e he
    split at he
    · exact Except.error.inj he ▸ h rfl
    · exact nomatch he

theorem between_meets (a b : ℝ) : Meets (fun _ => True) F (between a b : ChoiceM σ ℝ ℝ) := by
  rw [between_real]
  exact .bind (.draw (.trivial _)) fun _ _ => .pure trivial

theorem below_meets {m : ℤ} (h : m ≤ 0 → F .emptyRange) :
    Meets (fun _ => True) F (below m : ChoiceM σ ℝ ℤ) := by
  apply Meets.bind (checkRange_meets fun hm => h (not_lt.mp (of_decide_eq_false hm)))
  intro _ _
  apply Meets.bind (.draw (.trivial _))
  intro u _
  rw [Usable.finite_real]
  exact .bind (.useNumber ⟨_, rfl⟩) fun x _ => .pure trivial

theorem choose_meets (k : ℕ) (pool : List ℕ) :
    Meets (fun _ => True) Fault.IsOrdinary (choose k pool : ChoiceM σ ℝ (List ℕ)) := by
  refine .bind (.foldlM (φ := fun _ => True) _ (fun pool i _ _ => ?_) trivial) fun _ _ => .pure trivial
  apply Meets.bind (below_meets fun _ => trivial)
  intro k _
  apply Meets.bind (.mono (.useOption trivial) fun _ _ => trivial)
  intro j _
  exact .pure trivial

theorem uniformPoint_gives (r : Region ℝ n) :
    Gives r.Feasible (uniformPoint r : StateM σ (Point ℝ n)) :=
  .bind (.trivial _) fun _ _ => .pure (r.feasible_repair _)

omit [DrawSource σ ℝ] in
/-- A normal step with a spread that is a number ends in a point that was brought into the region. -/
theorem normalPoint_repaired {α : Type} [Scalar α] [DrawSource σ α] {F : Fault α → Prop}
    (r : Region α n) (center : Point α n) {spread : Quantity α} (h : spread.IsNumber) :
    Meets (fun x => ∃ y, r.repair y = x) F (normalPoint r center spread : ChoiceM σ α (Point α n)) := by
  apply Meets.bind (.draw (.trivial _))
  intro z _
  apply Meets.bind (.useNumber h)
  intro c _
  exact .pure ⟨_, rfl⟩

theorem normalPoint_meets (r : Region ℝ n) (center : Point ℝ n) {spread : Quantity ℝ}
    (h : spread.IsNumber) :
    Meets r.Feasible F (normalPoint r center spread : ChoiceM σ ℝ (Point ℝ n)) := by
  apply (normalPoint_repaired r center h).mono
  rintro _ ⟨y, rfl⟩
  exact r.feasible_repair y

omit [DrawSource σ ℝ] in
theorem normalsWhere_gives {α : Type} [Scalar α] [DrawSource σ α] (flags : Vector Bool n)
    (x : Point α n) (f : Fin n → α → α) :
    Gives (fun v => ∀ i, flags.get i = false → v.get i = x.get i)
      (normalsWhere flags x f : StateM σ (Point α n)) := by
  -- Coordinate by coordinate: there is nothing to show of a flagged one.
  refine .ofFnM (φ := fun i v => flags.get i = false → v = x.get i) fun i => .ite ?_ ?_
  · intro h
    refine .bind (.trivial _) fun z _ => .pure fun hfalse => ?_
    rw [h] at hfalse
    exact nomatch hfalse
  · intro _
    exact .pure fun _ => rfl

end Draw

namespace Population

theorem samplePoint_meets (t : Task ℝ n) (sampling : Sampling) (base : Point ℝ n)
    {spread : Quantity ℝ} (h : spread.IsNumber) :
    Meets t.region.Feasible F
      (samplePoint t sampling spread base : ChoiceM σ ℝ (Point ℝ n)) := by
  cases sampling with
  | uniform => exact .draw (Draw.uniformPoint_gives t.region)
  | gaussian => exact Draw.normalPoint_meets t.region base h

/-- The points of a first population are feasible if the given ones are. -/
theorem points_meets {t : Task ℝ n} (hstarts : ∀ x ∈ t.starts, t.region.Feasible x) (size : ℕ)
    (sampling : Sampling) {spread : Quantity ℝ} (h : spread.IsNumber) :
    Meets (fun xs => ∀ x ∈ xs, t.region.Feasible x) F
      (points t size sampling spread : ChoiceM σ ℝ (List (Point ℝ n))) := by
  apply Meets.bind (.draw (.trivial _))
  intro center _
  apply Meets.bind (.times (samplePoint_meets t sampling center h) _)
  intro others ho
  apply Meets.pure
  intro x hx
  rcases List.mem_append.mp hx with hgiven | hother
  · exact hstarts x (List.mem_of_mem_take hgiven)
  · exact ho x hother

end Population

namespace HillClimb

theorem start_gives {t : Task ℝ n} (hstarts : ∀ x ∈ t.starts, t.region.Feasible x) :
    Gives t.region.Feasible (start t : StateM σ (Point ℝ n)) := by
  unfold start
  split
  · rename_i x rest h
    exact .pure (hstarts x (by rw [h]; exact List.mem_cons_self))
  · exact Draw.uniformPoint_gives t.region

theorem neighbour_gives (t : Task ℝ n) (stepSize : ℝ) (x : Point ℝ n) :
    Gives t.region.Feasible (neighbour t stepSize x : StateM σ (Point ℝ n)) :=
  .bind (.trivial _) fun _ _ => .pure (t.region.feasible_repair _)

end HillClimb

theorem Simplex.firstVertex_meets {t : Task ℝ n} (hstarts : ∀ x ∈ t.starts, t.region.Feasible x)
    {p : Simplex.Params ℝ} (h : p.spread.IsNumber) :
    Meets t.region.Feasible F (firstVertex t p : ChoiceM σ ℝ (Point ℝ n)) := by
  -- A given start point is feasible, and a drawn one is brought into the region.
  unfold firstVertex
  split
  · rename_i x rest hx
    exact .pure (hstarts x (by rw [hx]; exact List.mem_cons_self))
  · exact Draw.normalPoint_meets t.region t.region.center h

omit [DrawSource σ ℝ] in
/-- Whatever the arithmetic, there is a first vertex. -/
theorem Simplex.firstVertex_total {α : Type} [Scalar α] [DrawSource σ α] {F : Fault α → Prop}
    {t : Task α n} {p : Simplex.Params α} (h : p.spread.IsNumber) :
    Meets (fun _ => True) F (firstVertex t p : ChoiceM σ α (Point α n)) := by
  unfold firstVertex
  split
  · exact .pure trivial
  · exact (Draw.normalPoint_repaired t.region t.region.center h).mono fun _ _ => trivial

theorem Rotation.start_meets {t : Task ℝ n} (hstarts : ∀ x ∈ t.starts, t.region.Feasible x)
    {p : Rotation.Params ℝ} (h : p.stepSize.IsNumber) :
    Meets t.region.Feasible F (start t p : ChoiceM σ ℝ (Point ℝ n)) := by
  unfold start
  split
  · rename_i x rest hx
    exact .pure (hstarts x (by rw [hx]; exact List.mem_cons_self))
  · exact Draw.normalPoint_meets t.region t.region.center h

end BoxSearch
