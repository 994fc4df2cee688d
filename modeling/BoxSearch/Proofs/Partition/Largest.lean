import Mathlib
import BoxSearch.Proofs.Faultless.Methods
import BoxSearch.Proofs.Partition.Aborted
import BoxSearch.Proofs.Partition.Optimality

/-!
# The largest cells

No cell is larger than the largest ones, so that any rate of change could favour the cheapest of them,
and a large enough rate does.  The selection does not look at every rate: where there are no larger
cells it stops at a bound.  The first of the cheapest among the largest cells is therefore selected
exactly if the costs of smaller cells do not fall below its own by more than the bound allows.  Where it
is selected it comes first, and an iteration divides it.
-/

namespace BoxSearch.Hull

variable {cells : List (Sighting ℝ)} {i : ℕ} {c : Sighting ℝ}

/-! ## 1. The first of the cheapest among the largest -/

/-- At a place stands the first of the cheapest among the largest cells. -/
structure IsFirstOfLargest (cells : List (Sighting ℝ)) (i : ℕ) (c : Sighting ℝ) : Prop where
  cell : cells[i]? = some c
  largest : ∀ d ∈ cells, c.level ≤ d.level
  cheapest : ∀ j d, cells[j]? = some d → d.level = c.level →
    c.cost ≤ d.cost ∧ (d.cost = c.cost → i ≤ j)

theorem isFirstOfLargest_of_candidates_eq_cons {first : ℕ × Sighting ℝ}
    {rest : List (ℕ × Sighting ℝ)} (h : candidates cells = first :: rest) :
    IsFirstOfLargest cells first.1 first.2 := by
  obtain ⟨hbest, hlevel⟩ := isBestOf_of_candidates_eq_cons h
  refine ⟨(mem_members.mp hbest.mem).1, hlevel, fun j d hd hsame => ?_⟩
  have hle := hbest.le (j, d) (mem_members.mpr ⟨hd, hsame⟩)
  refine ⟨cost_le_of_rankOf_le hle, fun hcost => ?_⟩
  rcases Prod.Lex.toLex_le_toLex.mp hle with hlt | ⟨-, hplace⟩
  · exact absurd hcost hlt.ne'
  · exact hplace

/-- There is only one such place. -/
theorem IsFirstOfLargest.place_eq {j : ℕ} {d : Sighting ℝ} (hc : IsFirstOfLargest cells i c)
    (hd : IsFirstOfLargest cells j d) : i = j := by
  have hlevel : d.level = c.level := le_antisymm
    (hd.largest c (List.mem_of_getElem? hc.cell)) (hc.largest d (List.mem_of_getElem? hd.cell))
  obtain ⟨hcd, hij⟩ := hc.cheapest j d hd.cell hlevel
  obtain ⟨hdc, hji⟩ := hd.cheapest i c hc.cell hlevel.symm
  have hcost := le_antisymm hcd hdc
  exact le_antisymm (hij hcost.symm) (hji hcost)

theorem IsFirstOfLargest.candidates_eq (h : IsFirstOfLargest cells i c) :
    ∃ rest, candidates cells = (i, c) :: rest := by
  cases hcandidates : candidates cells with
  | nil =>
    have hne : cells ≠ [] := List.ne_nil_of_mem (List.mem_of_getElem? h.cell)
    exact absurd hcandidates (candidates_ne_nil hne)
  | cons first rest =>
    have hfirst := isFirstOfLargest_of_candidates_eq_cons hcandidates
    have hplace : i = first.1 := h.place_eq hfirst
    have hcell : c = first.2 := by
      have := h.cell
      rw [hplace, hfirst.cell] at this
      exact (Option.some.inj this).symm
    exact ⟨rest, by rw [hplace, hcell]⟩

/-- If it is promising, it is the first that is. -/
theorem IsFirstOfLargest.head?_promising (h : IsFirstOfLargest cells i c) {ep : ℝ}
    (hmem : i ∈ promising ep cells) : (promising ep cells).head? = some i := by
  obtain ⟨rest, hcandidates⟩ := h.candidates_eq
  have hplaces := candidates_pairwise cells
  rw [hcandidates, List.pairwise_cons] at hplaces
  unfold promising at hmem ⊢
  rw [hcandidates] at hmem ⊢
  dsimp only at hmem ⊢
  rw [List.filter_cons] at hmem ⊢
  split
  · rfl
  · rename_i hnot
    rw [if_neg hnot] at hmem
    obtain ⟨d, hd, hplace⟩ := List.mem_map.mp hmem
    exact absurd hplace.symm (hplaces.1 d (List.mem_of_mem_filter hd)).1

/-! ## 2. When it is selected -/

/-- The costs of smaller cells do not fall below that of `c` by more than the bound on rates allows. -/
def IsWithinBound (cells : List (Sighting ℝ)) (c : Sighting ℝ) : Prop :=
  ∀ d ∈ cells, c.level < d.level → c.cost - d.cost ≤ 1.976e14 * (c.size - d.size)

/-- The bound favours the cell. -/
theorem IsFirstOfLargest.favours (h : IsFirstOfLargest cells i c) (hbound : IsWithinBound cells c) :
    Favours cells c 1.976e14 where
  le_others d hd hne := by
    have := hbound d hd ((h.largest d hd).lt_of_ne' hne)
    linarith
  le_above _ := le_rfl
  below_le _ := by norm_num

/-- A rate that favours another cell is within the bound, and promises no more than the bound does. -/
theorem IsFirstOfLargest.isPotentiallyOptimal (h : IsFirstOfLargest cells i c)
    (hgraded : Graded cells) (hbound : IsWithinBound cells c) {ep least : ℝ} {e : Sighting ℝ}
    (he : e ∈ cells) (hoptimal : IsPotentiallyOptimal ep least cells e) :
    IsPotentiallyOptimal ep least cells c := by
  have hc : c ∈ cells := List.mem_of_getElem? h.cell
  obtain ⟨rate, hfavours, himproves⟩ := hoptimal.favoured
  have hpromise : c.cost - 1.976e14 * c.size ≤ e.cost - rate * e.size := by
    rcases (h.largest e he).eq_or_lt with hlevel | hlevel
    · -- A cell of the same level, which is no cheaper.
      obtain ⟨j, hj⟩ := List.mem_iff_getElem?.mp he
      have hcost := (h.cheapest j e hj hlevel.symm).1
      have hrate := hfavours.le_above fun d hd => hlevel ▸ h.largest d hd
      have hsize := mul_le_mul_of_nonneg_right hrate (hgraded.size_pos c hc).le
      rw [hgraded.size_eq e he c hc hlevel.symm]
      linarith
    · have hsize := hgraded.size_lt c hc e he hlevel
      have hothers := hfavours.le_others c hc hlevel.ne
      have hwithin := hbound e he hlevel
      have hrate : rate ≤ 1.976e14 := by
        have hgap : rate * (c.size - e.size) ≤ 1.976e14 * (c.size - e.size) := by linarith
        exact le_of_mul_le_mul_right hgap (sub_pos.mpr hsize)
      have hsmall := mul_le_mul_of_nonneg_right hrate (hgraded.size_pos e he).le
      linarith
  refine ⟨fun d hd hsame => ?_, 1.976e14, h.favours hbound, hpromise.trans himproves⟩
  obtain ⟨j, hj⟩ := List.mem_iff_getElem?.mp hd
  have hcost := (h.cheapest j d hj hsame).1
  have htolerance : (0 : ℝ) ≤ 1e-13 := by norm_num
  linarith

/-- A rate that favours one of the largest cells exceeds no bound, so that the bound favours the first
of the cheapest among them. -/
theorem IsFirstOfLargest.isWithinBound (h : IsFirstOfLargest cells i c) (hgraded : Graded cells)
    {ep least : ℝ} {e : Sighting ℝ} (he : e ∈ cells) (hsame : e.level = c.level)
    (hoptimal : IsPotentiallyOptimal ep least cells e) : IsWithinBound cells c := by
  intro d hd hlevel
  have hc : c ∈ cells := List.mem_of_getElem? h.cell
  obtain ⟨rate, hfavours, -⟩ := hoptimal.favoured
  obtain ⟨j, hj⟩ := List.mem_iff_getElem?.mp he
  have hcost := (h.cheapest j e hj hsame).1
  have hsize := hgraded.size_lt c hc d hd hlevel
  have hothers := hfavours.le_others d hd (hsame ▸ hlevel.ne')
  have habove := hfavours.le_above fun d hd => hsame ▸ h.largest d hd
  have hrate := mul_le_mul_of_nonneg_right habove (sub_nonneg.mpr hsize.le)
  rw [hgraded.size_eq e he c hc hsame] at hothers
  linarith

theorem exists_isLeast (hc : c ∈ cells) : ∃ least, IsLeast {v | ∃ c ∈ cells, c.cost = v} least := by
  obtain ⟨a, ha, hmin⟩ := Set.exists_min_image {c | c ∈ cells} (·.cost) (List.finite_toSet cells)
    ⟨c, hc⟩
  refine ⟨a.cost, ⟨a, ha, rfl⟩, ?_⟩
  rintro v ⟨d, hd, rfl⟩
  exact hmin d hd

/-- If no cost is negative and all costs on the only other level are equal, a cell of no cost is
promising. -/
theorem promising_ne_nil {m : Sighting ℝ} (hgraded : Graded cells) (hm : m ∈ cells) (hc : c ∈ cells)
    (hmcost : m.cost = 0) (hlevel : c.level < m.level)
    (hothers : ∀ d ∈ cells, 0 ≤ d.cost ∧ (d.level = m.level ∨ d.level = c.level ∧ d.cost = c.cost))
    (ep : ℝ) : promising ep cells ≠ [] := by
  have hgap := sub_pos.mpr (hgraded.size_lt c hc m hm hlevel)
  have hrate : 0 ≤ c.cost / (c.size - m.size) := div_nonneg (hothers c hc).1 hgap.le
  have hfavours : Favours cells m (c.cost / (c.size - m.size)) := by
    refine ⟨fun d hd hne => ?_, fun hall => absurd (hall c hc) hlevel.not_ge, fun _ => ?_⟩
    · obtain ⟨hsame, hcost⟩ := (hothers d hd).2.resolve_left hne
      have hrise : c.cost / (c.size - m.size) * (c.size - m.size) = c.cost :=
        div_mul_cancel₀ _ hgap.ne'
      rw [hmcost, hcost, hgraded.size_eq d hd c hc hsame]
      linarith
    · exact le_trans (by norm_num) hrate
  have hleast : IsLeast {v | ∃ d ∈ cells, d.cost = v} 0 := by
    refine ⟨⟨m, hm, hmcost⟩, ?_⟩
    rintro v ⟨d, hd, rfl⟩
    exact (hothers d hd).1
  have hoptimal : IsPotentiallyOptimal ep 0 cells m := by
    refine ⟨fun d hd _ => ?_, _, hfavours, ?_⟩
    · have htolerance : (0 : ℝ) ≤ 1e-13 := by norm_num
      rw [hmcost]
      exact add_nonneg (hothers d hd).1 htolerance
    · have hpromise := mul_nonneg hrate (hgraded.size_pos m hm).le
      rw [hmcost, abs_zero]
      linarith
  obtain ⟨i, hi⟩ := List.mem_iff_getElem?.mp hm
  exact List.ne_nil_of_mem ((mem_promising_iff hgraded hleast).mpr ⟨m, hi, hoptimal⟩)

/-- The first of the cheapest among the largest cells is selected if it is within the bound on rates, or
if nothing is promising.  Then it comes first.  Otherwise no cell of its size is selected. -/
theorem IsFirstOfLargest.selectFor_eq (h : IsFirstOfLargest cells i c) (hgraded : Graded cells)
    (ep : ℝ) :
    ∃ places fallback, selectFor (.ok ep) cells = .ok (places, fallback) ∧ places.Nodup ∧
      (i ∈ places ↔ promising ep cells = [] ∨ IsWithinBound cells c) ∧
      (i ∈ places → places.head? = some i) ∧
      (i ∉ places → ∀ j ∈ places, ∀ d, cells[j]? = some d → c.level < d.level) := by
  obtain ⟨rest, hcandidates⟩ := h.candidates_eq
  obtain ⟨least, hleast⟩ := exists_isLeast (List.mem_of_getElem? h.cell)
  have hmem (j : ℕ) : j ∈ promising ep cells ↔
      ∃ c, cells[j]? = some c ∧ IsPotentiallyOptimal ep least cells c :=
    mem_promising_iff hgraded hleast
  have hhead : i ∈ promising ep cells → (promising ep cells).head? = some i := h.head?_promising
  have hpairwise := promising_pairwise ep cells
  cases hplaces : promising ep cells with
  | nil =>
    refine ⟨[i], true, ?_, List.nodup_singleton i, iff_of_true (List.mem_singleton_self i) (.inl rfl),
      fun _ => rfl, fun hnot => absurd (List.mem_singleton_self i) hnot⟩
    unfold selectFor select
    simp only [hcandidates, hplaces, Usable.ofOption]
  | cons j others =>
    rw [hplaces] at hmem hhead hpairwise
    have hbound : i ∈ j :: others ↔ IsWithinBound cells c := by
      rw [hmem i]
      constructor
      · rintro ⟨c', hc', hoptimal⟩
        obtain rfl : c' = c := Option.some.inj (hc'.symm.trans h.cell)
        exact h.isWithinBound hgraded (List.mem_of_getElem? hc') rfl hoptimal
      · intro hbound
        obtain ⟨e, he, hoptimal⟩ := (hmem j).mp List.mem_cons_self
        exact ⟨c, h.cell, h.isPotentiallyOptimal hgraded hbound (List.mem_of_getElem? he) hoptimal⟩
    refine ⟨j :: others, false, ?_, hpairwise.imp fun hne => hne.1, ?_, hhead, ?_⟩
    · unfold selectFor select
      simp only [hcandidates, hplaces, Usable.ofOption]
    · rw [hbound, or_iff_right (List.cons_ne_nil _ _)]
    · intro hnot k hk d hd
      obtain ⟨e, he, hoptimal⟩ := (hmem k).mp hk
      obtain rfl : e = d := Option.some.inj (he.symm.trans hd)
      have hcell : e ∈ cells := List.mem_of_getElem? he
      refine (h.largest e hcell).lt_of_ne fun hsame => hnot (hbound.mpr ?_)
      exact h.isWithinBound hgraded hcell hsame.symm hoptimal

end BoxSearch.Hull

/-! ## 3. What an iteration divides -/

namespace BoxSearch.Partition

variable {σ : Type} {n : ℕ} {t : Task ℝ n} {p : Params ℝ}

/-- A division leaves the cells at other places alone. -/
theorem divide_elsewhere {place j : ℕ} (hne : place ≠ j) (c : Cell ℝ n) :
    SearchM.Triple (fun d => d.own.cells[j]? = some c)
      (divide t place : SearchM σ ℝ n (State ℝ n) Unit) (fun _ d => d.own.cells[j]? = some c)
      EndsNonFinite := by
  intro d hd
  refine SearchM.Triple.weaken (divide_cuts d.own place) ?_ (fun _ _ he => he.2) d rfl
  rintro - e ⟨b, probes, -, -, -, hown⟩
  have hlength := (List.getElem?_eq_some_iff.mp hd).1
  show e.own.cells[j]? = some c
  rw [hown]
  dsimp only
  rw [List.getElem?_append_left (by rwa [List.length_set]), List.getElem?_set_ne hne, hd]

/-- The cell at its place is cut along its longest sides. -/
theorem divide_there {place : ℕ} (c : Cell ℝ n) :
    SearchM.Triple (fun d => d.own.cells[place]? = some c)
      (divide t place : SearchM σ ℝ n (State ℝ n) Unit)
      (fun _ d => d.own.cells[place]? = some { c with cuts := c.cutsAlong c.longestSides })
      EndsNonFinite := by
  intro d hd
  refine SearchM.Triple.weaken (divide_cuts d.own place) ?_ (fun _ _ he => he.2) d rfl
  rintro - e ⟨b, probes, hb, hperm, -, hown⟩
  obtain rfl : b = c := Option.some.inj (hb.symm.trans hd)
  have hdimensions : probes.map (·.dimension) = [] ++ probes.map (·.dimension) := rfl
  have hcut := cut_eq b hdimensions (hperm.nodup_iff.mpr b.nodup_longestSides)
  have hlength := (List.getElem?_eq_some_iff.mp hd).1
  rw [b.cutsAlong_nil, b.cutsAlong_perm hperm] at hcut
  show e.own.cells[place]? = _
  rw [hown, hcut]
  dsimp only
  rw [List.getElem?_append_left (by rwa [List.length_set]), List.getElem?_set_self hlength]

/-- Cells that are not selected are left alone. -/
theorem divideAll_elsewhere {places : List ℕ} {j : ℕ} (hj : j ∉ places) (c : Cell ℝ n) :
    SearchM.Triple (fun d => d.own.cells[j]? = some c)
      (divideAll t places : SearchM σ ℝ n (State ℝ n) Unit) (fun _ d => d.own.cells[j]? = some c)
      EndsNonFinite := by
  induction places with
  | nil => exact .pure fun _ hd => hd
  | cons place rest ih =>
    obtain ⟨hne, hrest⟩ := not_or.mp (List.mem_cons.not.mp hj)
    apply SearchM.Triple.bind (Q := fun _ d => d.own.cells[j]? = some c)
    · exact .withinBudget fun _ hd => hd
    · exact fun _ => .ite (fun _ => .bind (divide_elsewhere (Ne.symm hne) c) fun _ => ih hrest)
        fun _ => .pure fun _ hd => hd

/-- Within the budget the first of the selected cells is divided. -/
theorem divideAll_first {i : ℕ} {rest : List ℕ} (hi : i ∉ rest) (c : Cell ℝ n) :
    SearchM.Triple (fun d => d.own.cells[i]? = some c ∧ d.ledger.evaluations < t.budget)
      (divideAll t (i :: rest) : SearchM σ ℝ n (State ℝ n) Unit)
      (fun _ d => d.own.cells[i]? = some { c with cuts := c.cutsAlong c.longestSides })
      EndsNonFinite := by
  apply SearchM.Triple.bind (Q := fun b d => b = true ∧ d.own.cells[i]? = some c)
  · exact .withinBudget fun _ hd => ⟨decide_eq_true hd.2, hd.1⟩
  · rintro b d ⟨rfl, hd⟩
    have hdivisions : SearchM.Triple (fun d => d.own.cells[i]? = some c)
        (divide t i >>= fun _ => divideAll t rest : SearchM σ ℝ n (State ℝ n) Unit)
        (fun _ d => d.own.cells[i]? = some { c with cuts := c.cutsAlong c.longestSides })
        EndsNonFinite :=
      .bind (divide_there c) fun _ => divideAll_elsewhere hi _
    exact hdivisions d hd

section

variable {d : Course σ ℝ n (State ℝ n)} {places : List ℕ} {fallback : Bool}
  (hselected : Hull.selectFor p.ep (d.own.cells.map Cell.sighting) = .ok (places, fallback))

include hselected

theorem run_select : (select p : SearchM σ ℝ n (State ℝ n) (List ℕ)).run d = (.ok places, { d with
    ledger := if fallback then d.ledger.report (.nonePromising (places.headD 0)) else d.ledger }) := by
  unfold select
  rw [SearchM.run_own_bind]
  refine (SearchM.run_use_bind d hselected _).trans ?_
  cases fallback <;> rfl

/-- An iteration that is not idle makes the selected divisions, and leaves their cells alone. -/
theorem iterate_of_selectFor (hover : d.ledger.phase.isOver = false)
    (hbudget : d.ledger.evaluations < t.budget) {I : List (Cell ℝ n) → Prop}
    (hdivideAll : SearchM.Triple (fun e => e.own = d.own ∧ e.ledger.evaluations < t.budget)
      (divideAll t places : SearchM σ ℝ n (State ℝ n) Unit) (fun _ e => I e.own.cells)
      EndsNonFinite) :
    SearchM.Outcome (fun _ e => I e.own.cells) EndsNonFinite
      ((iterate t p : SearchM σ ℝ n (State ℝ n) Bool).run d) := by
  unfold iterate
  rw [SearchM.run_own_bind]
  cases d.own.initialized with
  | false => exact (nomatch ·)
  | true =>
    rw [SearchM.run_require_bind d rfl, SearchM.run_ledger_bind, SearchM.run_withinBudget_bind, hover,
      decide_eq_true hbudget]
    rw [if_neg (by decide), run_bind_of_ok (run_select hselected)]
    refine divideAll_bind_keeps (fun _ _ _ => (nomatch ·)) hdivideAll _ ⟨rfl, ?_⟩
    cases fallback <;> exact hbudget

end

/-! ## 4. A search driven by hand -/

/-- A step that answers did what is known of it, or the search ended. -/
theorem outcome_of_advance [DrawSource σ ℝ] {d : Course σ ℝ n (State ℝ n)} {b : Bool}
    {r : Run σ ℝ n} {Q : Bool → Course σ ℝ n (State ℝ n) → Prop}
    {E : Halt ℝ → Course σ ℝ n (State ℝ n) → Prop}
    (h : (ofCourse p d).advance t = some (.ok b, r))
    (hrun : SearchM.Outcome Q E ((iterate t p).run d)) :
    ∃ e, r = ofCourse p e ∧ (Q b e ∨ E .ended e) := by
  have hstep := Option.some.inj h
  unfold Run.carry Course.carry at hstep
  rcases hr : (iterate t p).run d with ⟨(_ | _) | b', e⟩
  all_goals
    have hcourse : (iterate t p).run ⟨(ofCourse p d).ledger, (ofCourse p d).draws, d.own⟩ = _ := hr
    rw [hr] at hrun
    rw [hcourse] at hstep
  · exact ⟨e, (congrArg Prod.snd hstep).symm, .inr hrun⟩
  · exact nomatch congrArg Prod.fst hstep
  · obtain rfl : b' = b := Except.ok.inj (congrArg Prod.fst hstep)
    exact ⟨e, (congrArg Prod.snd hstep).symm, .inl hrun⟩

variable [DrawSource σ ℝ]

section

variable {d : Course σ ℝ n (State ℝ n)} {r' : Run σ ℝ n} {i : ℕ} {c : Cell ℝ n} {places : List ℕ}
  {fallback b : Bool}
  (hselected : Hull.selectFor p.ep (d.own.cells.map Cell.sighting) = .ok (places, fallback))
  (hover : d.ledger.phase.isOver = false) (hbudget : d.ledger.evaluations < t.budget)
  (hadvance : (ofCourse p d).advance t = some (.ok b, r'))
  (hfinite : r'.ledger.phase.status ≠ .nonFinite) (hc : d.own.cells[i]? = some c)

include hselected hover hbudget hadvance hfinite hc

/-- The first of the selected cells is divided. -/
theorem cells_advance_of_first (hnodup : places.Nodup) (hi : places.head? = some i) :
    r'.cells[i]? = some { c with cuts := c.cutsAlong c.longestSides } := by
  obtain ⟨rest, rfl⟩ := List.head?_eq_some_iff.mp hi
  have hdivisions : SearchM.Triple (fun e => e.own = d.own ∧ e.ledger.evaluations < t.budget)
      (divideAll t (i :: rest) : SearchM σ ℝ n (State ℝ n) Unit)
      (fun _ e => e.own.cells[i]? = some { c with cuts := c.cutsAlong c.longestSides })
      EndsNonFinite := by
    rintro e ⟨hown, hwithin⟩
    exact divideAll_first (List.nodup_cons.mp hnodup).1 c e ⟨by rw [hown, hc], hwithin⟩
  obtain ⟨e, rfl, hcell | hended⟩ := outcome_of_advance hadvance
    (iterate_of_selectFor hselected hover hbudget
      (I := fun cells => cells[i]? = some { c with cuts := c.cutsAlong c.longestSides }) hdivisions)
  · exact hcell
  · exact absurd (hended rfl) hfinite

/-- A cell that is not selected stays as it is. -/
theorem cells_advance_of_not_mem (hi : i ∉ places) : r'.cells[i]? = some c := by
  have hdivisions : SearchM.Triple (fun e => e.own = d.own ∧ e.ledger.evaluations < t.budget)
      (divideAll t places : SearchM σ ℝ n (State ℝ n) Unit) (fun _ e => e.own.cells[i]? = some c)
      EndsNonFinite := by
    rintro e ⟨hown, -⟩
    have hcell : e.own.cells[i]? = some c := by rw [hown, hc]
    exact divideAll_elsewhere hi c e hcell
  obtain ⟨e, rfl, hcell | hended⟩ := outcome_of_advance hadvance
    (iterate_of_selectFor hselected hover hbudget (I := fun cells => cells[i]? = some c) hdivisions)
  · exact hcell
  · exact absurd (hended rfl) hfinite

end

theorem Reached.confines (hp : p.IsNumeric) {r : Run σ ℝ n} (hr : Reached t p r) :
    t.region.Confines r.ledger := by
  have hfirst (draws : σ) :
      t.region.Confines ((Partition.setUp t p).run ⟨{}, draws, {}⟩).2.ledger :=
    (setUp_confined hp).keeps.run fun _ he => nomatch he
  obtain ⟨d, rfl, hd⟩ := hr.invariant (I := fun d => t.region.Confines d.ledger) hfirst
    (fun place => (divide_confined place).keeps) (iterate_confined hp).keeps
  exact hd

theorem Reached.exists_initialized {r : Run σ ℝ n} (hr : Reached t p r) :
    ∃ d, r = ofCourse p d ∧ d.own.initialized = true := by
  have hfirst (draws : σ) : IsPast false true ((Partition.setUp t p).run ⟨{}, draws, {}⟩).2 :=
    run_setUp_isPast (b := false) ⟨(nomatch ·), (nomatch ·)⟩
  obtain ⟨d, hd, hpast⟩ := hr.invariant hfirst divide_isPast iterate_isPast
  exact ⟨d, hd, hpast.initialized rfl⟩

/-- An iteration answers. -/
theorem Reached.exists_advance {r : Run σ ℝ n} (hr : Reached t p r) (hcells : r.cells ≠ [])
    (ht : t.objective.Answers) (hp : p.IsNumeric) : ∃ b r', r.advance t = some (.ok b, r') := by
  have hconfines := hr.confines hp
  obtain ⟨d, rfl, hsetUp⟩ := hr.exists_initialized
  have hfaultless := iterate_faultless ht hp d ⟨hsetUp, hcells, fun _ hq => nomatch hq⟩
  have hconfined := iterate_confined hp d ⟨hconfines, True.intro⟩
  unfold Run.advance Run.carry Course.carry ofCourse
  dsimp only
  rcases hr : (iterate t p).run d with ⟨(_ | f) | b, e⟩ <;> rw [hr] at hfaultless hconfined
  · exact ⟨false, _, rfl⟩
  · exact absurd hconfined.2 hfaultless
  · exact ⟨b, _, rfl⟩

/-- Of the largest cells the first of the cheapest is selected, and comes first, if the costs of smaller
cells do not fall below its cost faster than the bound on rates allows, or if nothing is promising.
Otherwise no cell of its size is selected.  An iteration divides it exactly if it is selected, and
leaves all cells of its size as they are if it is not. -/
theorem selects_first_of_largest {r : Run σ ℝ n} (hr : Reached t p r) (hcells : r.cells ≠ [])
    {ep : ℝ} (hep : p.ep = .ok ep) :
    ∃ i c places fallback, r.cells[i]? = some c ∧
      Hull.IsFirstOfLargest (r.cells.map Cell.sighting) i c.sighting ∧
      Hull.selectFor p.ep (r.cells.map Cell.sighting) = .ok (places, fallback) ∧
      (i ∈ places ↔ Hull.promising ep (r.cells.map Cell.sighting) = [] ∨
        ∀ d ∈ r.cells, c.level < d.level → c.cost - d.cost ≤ 1.976e14 * (c.size - d.size)) ∧
      (i ∈ places → places.head? = some i) ∧
      (i ∉ places → ∀ j ∈ places, ∀ d : Cell ℝ n, r.cells[j]? = some d → c.level < d.level) ∧
      (r.ledger.phase.isOver = false → r.ledger.evaluations < t.budget →
        (t.objective.Answers → p.IsNumeric → ∃ b r', r.advance t = some (.ok b, r')) ∧
        ∀ b r', r.advance t = some (.ok b, r') → r'.ledger.phase.status ≠ .nonFinite →
          (i ∈ places → r'.cells[i]? = some { c with cuts := c.cutsAlong c.longestSides }) ∧
          (i ∉ places → ∀ (j : ℕ) (d : Cell ℝ n), r.cells[j]? = some d → d.level = c.level →
            r'.cells[j]? = some d)) := by
  have hgraded := hr.graded t.region.nonempty
  have hanswers := hr.exists_advance hcells
  obtain ⟨d, rfl, -⟩ := hr.exists_initialized
  have hne : d.own.cells.map Cell.sighting ≠ [] := List.map_eq_nil_iff.not.mpr hcells
  obtain ⟨first, rest, hcandidates⟩ := List.exists_cons_of_ne_nil (Hull.candidates_ne_nil hne)
  obtain ⟨i, seen⟩ := first
  have hfirst : Hull.IsFirstOfLargest _ i seen :=
    Hull.isFirstOfLargest_of_candidates_eq_cons hcandidates
  obtain ⟨c, hc, rfl⟩ : ∃ c, d.own.cells[i]? = some c ∧ c.sighting = seen := by
    simpa using hfirst.cell
  obtain ⟨places, fallback, hselected, hnodup, hmem, hhead, hothers⟩ :=
    hfirst.selectFor_eq hgraded ep
  rw [← hep] at hselected
  refine ⟨i, c, places, fallback, hc, hfirst, hselected, ?_, hhead, ?_, ?_⟩
  · rw [hmem]
    unfold Hull.IsWithinBound
    rw [List.forall_mem_map]
    rfl
  · intro hnot j hj e he
    exact hothers hnot j hj e.sighting (List.getElem?_map.trans (congrArg _ he))
  · intro hover hbudget
    refine ⟨hanswers, fun b r' hadvance hfinite => ⟨fun hi => ?_, fun hnot j e he hsame => ?_⟩⟩
    · exact cells_advance_of_first hselected hover hbudget hadvance hfinite hc hnodup (hhead hi)
    · have hseen : (d.own.cells.map Cell.sighting)[j]? = some e.sighting :=
        List.getElem?_map.trans (congrArg _ he)
      have hj : j ∉ places := fun hj => (hothers hnot j hj e.sighting hseen).ne' hsame
      exact cells_advance_of_not_mem hselected hover hbudget hadvance hfinite he hj

/-- The cost is zero at first and large ever after. -/
noncomputable def steep : Task ℝ 1 :=
  { Run.leastOfFour with
    objective := fun _ call => .ok (.finite (if call = 1 then 0 else 1e17))
    checked := false }

theorem exists_divide_steep {d : Course (Tape ℝ) ℝ 1 (State ℝ 1)} {c : Cell ℝ 1}
    (hc : d.own.cells[0]? = some c) (hcalls : d.ledger.calls ≠ 0) :
    ∃ e x y, (ofCourse openEnded d).divide steep 0 = some (.ok true, ofCourse openEnded e) ∧
      e.ledger.calls ≠ 0 ∧
      e.own.cells = d.own.cells.set 0 { c with cuts := c.cutsAlong [0] } ++
        [c.cutOff [0] 0 x 1e17, c.cutOff [0] 0 y 1e17] := by
  let costs : Fin 1 → ℝ := fun _ => 1e17
  have hsides : c.longestSides = [0] := by
    refine (Cell.eq_longestSides (List.pairwise_singleton _ _) fun i => ?_).symm
    have hall (j : Fin 1) : j = 0 := Subsingleton.elim _ _
    simp [hall]
  have hreplies (x : Point ℝ 1) (i : Fin 1) {k : ℕ} (hk : k ≠ 1) :
      steep.Replies x k (.ok (.finite (costs i))) := by
    refine ⟨(nomatch ·), ?_⟩
    show Except.ok (Cost.finite (if k = 1 then (0 : ℝ) else 1e17)) = _
    rw [if_neg hk]
  have hrun := run_divide (t := steep) hc rfl
    fun k i _ => ⟨hreplies _ i (by omega), hreplies _ i (by omega)⟩
  obtain ⟨order, hperm, -, hcut⟩ :=
    exists_cut c (Scalar.thirds (c.fewestCuts + 1)) costs costs c.nodup_longestSides
  dsimp only at hrun
  rw [hcut, hsides] at hrun
  rw [hsides, List.perm_singleton] at hperm
  subst hperm
  refine ⟨_, _, _, divide_of_run (r := ofCourse openEnded d) rfl hrun, ?_, rfl⟩
  rw [Account.calls_enterAll]
  omega

/-- The cell around the first point is divided twice. -/
theorem exists_reached_steep : ∃ r : Run (Tape ℝ) ℝ 1, Reached steep openEnded r ∧
    (∃ m ∈ r.cells, m.level = 2 ∧ m.cost = 0) ∧ (∃ a ∈ r.cells, a.level = 1) ∧
    ∀ e ∈ r.cells, 0 ≤ e.cost ∧ (e.level = 2 ∨ e.level = 1 ∧ e.cost = 1e17) := by
  let d₀ : Course (Tape ℝ) ℝ 1 (State ℝ 1) :=
    ((setUp steep openEnded).run ⟨{}, ⟨fun _ => 0, fun _ => 0⟩, {}⟩).2
  have hsetUp : Run.setUp ⟨{}, ⟨fun _ => 0, fun _ => 0⟩, .partition openEnded {}⟩ steep =
      some (.ok true, ofCourse openEnded d₀) := rfl
  have hcells₀ : d₀.own.cells = [Cell.whole 0] := rfl
  obtain ⟨d₁, x₁, y₁, hdivide₁, hcalls₁, hcells₁⟩ :=
    exists_divide_steep (d := d₀) (c := Cell.whole 0) rfl (by decide)
  rw [hcells₀] at hcells₁
  obtain ⟨d₂, x₂, y₂, hdivide₂, -, hcells₂⟩ :=
    exists_divide_steep (d := d₁) (by rw [hcells₁]; rfl) hcalls₁
  rw [hcells₁] at hcells₂
  have hlarge : (0 : ℝ) ≤ 1e17 := by norm_num
  refine ⟨ofCourse openEnded d₂, ((Reached.setUp hsetUp).divide hdivide₁).divide hdivide₂, ?_⟩
  show (∃ m ∈ d₂.own.cells, _) ∧ (∃ a ∈ d₂.own.cells, _) ∧ ∀ e ∈ d₂.own.cells, _
  rw [hcells₂]
  refine ⟨⟨_, List.mem_cons_self, rfl, rfl⟩, ⟨_, List.mem_cons_of_mem _ List.mem_cons_self, rfl⟩, ?_⟩
  exact List.forall_mem_cons.mpr ⟨⟨le_rfl, .inl rfl⟩, List.forall_mem_cons.mpr
    ⟨⟨hlarge, .inr ⟨rfl, rfl⟩⟩, List.forall_mem_cons.mpr ⟨⟨hlarge, .inr ⟨rfl, rfl⟩⟩,
      List.forall_mem_cons.mpr ⟨⟨hlarge, .inl rfl⟩, List.forall_mem_singleton.mpr
        ⟨hlarge, .inl rfl⟩⟩⟩⟩⟩

/-- The small cell in the middle is the only one of no cost.  The larger cells are so much worse that
none of them is selected. -/
theorem selects_first_of_largest_steep :
    ∃ (r : Run (Tape ℝ) ℝ 1) (i : ℕ) (c : Cell ℝ 1) (places : List ℕ) (fallback : Bool),
      Reached steep openEnded r ∧ r.cells[i]? = some c ∧
      Hull.IsFirstOfLargest (r.cells.map Cell.sighting) i c.sighting ∧
      Hull.selectFor openEnded.ep (r.cells.map Cell.sighting) = .ok (places, fallback) ∧
      ∀ j ∈ places, ∀ d : Cell ℝ 1, r.cells[j]? = some d → c.level < d.level := by
  obtain ⟨r, hreached, ⟨m, hm, hmlevel, hmcost⟩, ⟨a, ha, halevel⟩, hcosts⟩ := exists_reached_steep
  have hgraded := hreached.graded steep.region.nonempty
  obtain ⟨i, c, places, fallback, hc, hfirst, hselected, hmem, -, hothers, -⟩ :=
    selects_first_of_largest hreached (List.ne_nil_of_mem hm) rfl
  refine ⟨r, i, c, places, fallback, hreached, hc, hfirst, hselected, hothers (hmem.not.mpr ?_)⟩
  have hcmem : c ∈ r.cells := List.mem_of_getElem? hc
  have hsmall : c.level ≤ a.level := hfirst.largest _ (List.mem_map_of_mem ha)
  obtain ⟨hlevel, hcost⟩ := (hcosts c hcmem).2.resolve_left (by omega)
  have hlt : c.level < m.level := by omega
  rintro (hnone | hwithin)
  · refine Hull.promising_ne_nil hgraded (List.mem_map_of_mem hm) (List.mem_map_of_mem hcmem) hmcost hlt
      (List.forall_mem_map.mpr fun e he => ⟨(hcosts e he).1, ?_⟩) _ hnone
    show e.level = m.level ∨ e.level = c.level ∧ e.cost = c.cost
    rw [hmlevel, hlevel, hcost]
    exact (hcosts e he).2
  · have hbound : c.size ≤ 1 := by
      have hcuts : c.spread = 9 ^ (-c.level) := by
        rw [Cell.level_eq_sum_cuts, Fin.sum_univ_one]
        exact Fin.sum_univ_one _
      have hroot : √c.spread ≤ 1 := Real.sqrt_le_one.mpr (by rw [hcuts, hlevel]; norm_num)
      rw [Cell.size_eq_sqrt_spread]
      linarith
    have hrise := hwithin m hm hlt
    have hpos := m.size_pos Nat.one_pos
    rw [hcost, hmcost] at hrise
    linarith

end BoxSearch.Partition
