import Mathlib
import BoxSearch.Proofs.Ranking

/-!
# The best answer

An account keeps the first point that attained the least finite cost.  `IsBest` says so of a list of
answers, and entering one more answer keeps it true.  An account is balanced if everything in it
follows from its calls: every call is listed with the answer of the objective, the completed ones are
counted, and after each of them the best one so far stands in the history.
-/

namespace BoxSearch.Account

variable {α P : Type}

/-! ## 1. The first of the cheapest -/

/-- The answers of the calls that completed, with the points they were given for. -/
def answers (A : Account α P) : List (P × Cost α) :=
  A.trace.filterMap fun e => e.2.map fun c => (e.1, c)

variable [Scalar α]

theorem improve_eq_self (best : Option (Best α P)) (x : P) {c : Cost α} (hc : ¬c.IsFinite) :
    improve best x c = best := by
  cases c with
  | finite v => exact absurd ⟨v, rfl⟩ hc
  | _ => rfl

/-- The first answer of the least finite cost, if any cost is finite. -/
def IsBest (answers : List (P × Cost α)) : Option (Best α P) → Prop
  | none => ∀ a ∈ answers, ¬a.2.IsFinite
  | some b => ∃ before after, answers = before ++ (b.point, .finite b.cost) :: after ∧
      (∀ a ∈ before, ∀ v, a.2 = .finite v → b.cost < v) ∧
      ∀ a ∈ after, ∀ v, a.2 = .finite v → ¬v < b.cost

namespace IsBest

variable {answers : List (P × Cost α)}

theorem nil : IsBest ([] : List (P × Cost α)) none := fun _ ha => nomatch ha

theorem mem {b : Best α P} (h : IsBest answers (some b)) : (b.point, .finite b.cost) ∈ answers := by
  obtain ⟨before, after, rfl, -, -⟩ := h
  exact List.mem_append_right before List.mem_cons_self

theorem isSome_iff {best : Option (Best α P)} (h : IsBest answers best) :
    best.isSome = true ↔ ∃ a ∈ answers, a.2.IsFinite := by
  cases best with
  | none =>
    constructor
    · exact fun hb => nomatch hb
    · rintro ⟨a, ha, hfinite⟩
      exact absurd hfinite (h a ha)
  | some b => exact ⟨fun _ => ⟨_, h.mem, b.cost, rfl⟩, fun _ => rfl⟩

/-- One more answer that is not cheaper leaves the best as it is. -/
theorem concat_of_not_lt {b : Best α P} (h : IsBest answers (some b)) (x : P) {c : Cost α}
    (hc : ∀ v, c = .finite v → ¬v < b.cost) : IsBest (answers ++ [(x, c)]) (some b) := by
  obtain ⟨before, after, rfl, hbefore, hafter⟩ := h
  refine ⟨before, after ++ [(x, c)], by simp, hbefore, fun a ha v hv => ?_⟩
  rcases List.mem_append.mp ha with ha | ha
  · exact hafter a ha v hv
  · obtain rfl := List.mem_singleton.mp ha
    exact hc v hv

/-- Of two places where the best can stand, neither is before the other. -/
theorem eq_of_split {b b' : Best α P} {before after before' after' : List (P × Cost α)}
    (hsplit : before ++ (b.point, .finite b.cost) :: after =
      before' ++ (b'.point, .finite b'.cost) :: after')
    (hafter : ∀ a ∈ after, ∀ v, a.2 = .finite v → ¬v < b.cost)
    (hbefore' : ∀ a ∈ before', ∀ v, a.2 = .finite v → b'.cost < v) :
    before'.length ≤ before.length := by
  by_contra hlt
  rcases List.append_eq_append_iff.mp hsplit with ⟨as, rfl, has⟩ | ⟨bs, rfl, -⟩
  · cases as with
    | nil => simp at hlt
    | cons a as =>
      obtain ⟨rfl, rfl⟩ := List.cons.inj has
      refine hafter (b'.point, .finite b'.cost) (by simp) b'.cost rfl ?_
      exact hbefore' (b.point, .finite b.cost) (by simp) b.cost rfl
  · simp at hlt

/-- The best is determined by the answers. -/
theorem unique {best best' : Option (Best α P)} (h : IsBest answers best)
    (h' : IsBest answers best') : best = best' := by
  cases best with
  | none =>
    cases best' with
    | none => rfl
    | some b' => exact absurd ⟨_, rfl⟩ (h _ (IsBest.mem h'))
  | some b =>
    cases best' with
    | none => exact absurd ⟨_, rfl⟩ (h' _ (IsBest.mem h))
    | some b' =>
      obtain ⟨x, v⟩ := b
      obtain ⟨x', v'⟩ := b'
      obtain ⟨before, after, rfl, hbefore, hafter⟩ := h
      obtain ⟨before', after', hsplit, hbefore', hafter'⟩ := h'
      have hlength : before.length = before'.length :=
        le_antisymm (eq_of_split hsplit.symm hafter' hbefore)
          (eq_of_split hsplit hafter hbefore')
      obtain ⟨rfl, hcost⟩ := Prod.mk.inj (List.cons.inj (List.append_inj hsplit hlength).2).1
      obtain rfl := Cost.finite.inj hcost
      rfl

variable [Scalar.Ordered α]

/-- No answer is cheaper than the best. -/
theorem not_lt {b : Best α P} (h : IsBest answers (some b)) {a : P × Cost α} (ha : a ∈ answers)
    {v : α} (hv : a.2 = .finite v) : ¬v < b.cost := by
  obtain ⟨before, after, rfl, hbefore, hafter⟩ := h
  rcases List.mem_append.mp ha with ha | ha
  · exact fun hlt => Scalar.Ordered.lt_irrefl _ (Scalar.Ordered.lt_trans hlt (hbefore a ha v hv))
  · rcases List.mem_cons.mp ha with rfl | ha
    · obtain rfl := Cost.finite.inj hv
      exact Scalar.Ordered.lt_irrefl _
    · exact hafter a ha v hv

/-- What comes strictly before the best comes strictly before every answer. -/
theorem lt_of_lt {b : Best α P} (h : IsBest answers (some b))
    (hproper : ∀ a ∈ answers, a.2.IsProper) {u : α} (hu : u < b.cost) {a : P × Cost α}
    (ha : a ∈ answers) {v : α} (hv : a.2 = .finite v) : u < v :=
  (Scalar.Ordered.lt_or_lt (hproper a ha v hv) hu).resolve_right (h.not_lt ha hv)

/-- One more answer is entered. -/
theorem improve {best : Option (Best α P)} (h : IsBest answers best)
    (hproper : ∀ a ∈ answers, a.2.IsProper) (x : P) (c : Cost α) :
    IsBest (answers ++ [(x, c)]) (improve best x c) := by
  by_cases hc : c.IsFinite
  · obtain ⟨v, rfl⟩ := hc
    cases best with
    | none => exact ⟨answers, [], rfl, fun a ha w hw => absurd ⟨w, hw⟩ (h a ha), by simp⟩
    | some b =>
      show IsBest _ (if v < b.cost then some ⟨x, v⟩ else some b)
      by_cases hlt : v < b.cost
      · -- the new answer is strictly cheaper than all before it
        rw [if_pos hlt]
        exact ⟨answers, [], rfl, fun a ha w hw => h.lt_of_lt hproper hlt ha hw, by simp⟩
      · rw [if_neg hlt]
        apply h.concat_of_not_lt
        rintro w hw
        exact Cost.finite.inj hw ▸ hlt
  · rw [improve_eq_self best x hc]
    cases best with
    | none =>
      intro a ha
      rcases List.mem_append.mp ha with ha | ha
      · exact h a ha
      · rw [List.mem_singleton.mp ha]
        exact hc
    | some b => exact h.concat_of_not_lt x fun w hw => absurd ⟨w, hw⟩ hc

/-- The best of finite answers comes first in their ranking. -/
theorem rank_eq_cons {β : Type} {point : β → P} {cost : β → Cost α} {items : List β} {b : Best α P}
    (h : IsBest (items.map fun e => (point e, cost e)) (some b))
    (hproper : ∀ e ∈ items, (cost e).IsProper) (hfinite : ∀ e ∈ items, (cost e).IsFinite) :
    ∃ e rest, Cost.rank cost items = e :: rest ∧ point e = b.point ∧ cost e = .finite b.cost := by
  obtain ⟨before, after, hsplit, hbefore, hafter⟩ := h
  obtain ⟨first, rest, rfl, rfl, hrest⟩ := List.map_eq_append_iff.mp hsplit
  obtain ⟨e, last, rfl, he, rfl⟩ := List.map_eq_cons_iff.mp hrest
  obtain ⟨hpoint, hcost⟩ := Prod.mk.inj he
  have hfirst : ∀ e' ∈ first, (cost e).before (cost e') = true := by
    intro e' he'
    obtain ⟨v, hv⟩ := hfinite e' (List.mem_append_left _ he')
    rw [hcost, hv]
    exact decide_eq_true (hbefore _ (List.mem_map_of_mem he') v hv)
  have hlast : ∀ e' ∈ last, (cost e').before (cost e) = false := by
    intro e' he'
    obtain ⟨v, hv⟩ := hfinite e' (List.mem_append_right _ (List.mem_cons_of_mem e he'))
    rw [hcost, hv]
    exact decide_eq_false (hafter _ (List.mem_map_of_mem he') v hv)
  obtain ⟨others, hothers⟩ := Cost.rank_of_first hproper hfirst hlast
  exact ⟨e, others, hothers, hpoint, hcost⟩

end IsBest

/-! ## 2. Balanced accounts -/

@[simp] theorem answers_enter (A : Account α P) (x : P) (c : Cost α) :
    (A.enter x c).answers = A.answers ++ [(x, c)] := by
  simp [answers, enter]

omit [Scalar α] in
@[simp] theorem answers_enterFailure (A : Account α P) (x : P) :
    (A.enterFailure x).answers = A.answers := by
  simp [answers, enterFailure]

/-- The account with other remarks on how the search stands. -/
def aside (A : Account α P) (rounds : ℕ) (phase : Phase α) (events : List (Event α)) :
    Account α P :=
  { A with rounds, phase, events }

omit [Scalar α] in
/-- The end of a run is a remark aside. -/
theorem exists_close_eq_aside (A : Account α P) :
    ∃ phase events, A.close = A.aside A.rounds phase events := by
  unfold close
  cases A.phase <;> exact ⟨_, _, rfl⟩

/-- Everything in an account follows from the calls that were made of the objective `f`. -/
structure Balanced (f : P → ℕ → Except Failure (Cost α)) (A : Account α P) : Prop where
  calls : A.calls = A.trace.length
  -- Every call is listed, with the answer if there was one.
  listed : ∀ i x o, A.trace[i]? = some (x, o) → o = (f x (i + 1)).toOption
  evaluations : A.evaluations = A.answers.length
  best : IsBest A.answers A.best
  -- The entry of an evaluation has the cost that was the least by then.
  length_history : A.history.length = A.answers.length
  history : ∀ i < A.answers.length, ∃ best, IsBest (A.answers.take (i + 1)) best ∧
    A.history[i]? = some (i + 1, best.map (·.cost))

namespace Balanced

variable {f : P → ℕ → Except Failure (Cost α)} {A : Account α P}

theorem empty : Balanced f ({} : Account α P) where
  calls := rfl
  listed _ _ _ h := nomatch h
  evaluations := rfl
  best := .nil
  length_history := rfl
  history _ h := nomatch h

theorem aside (h : A.Balanced f) (rounds : ℕ) (phase : Phase α) (events : List (Event α)) :
    (A.aside rounds phase events).Balanced f :=
  ⟨h.calls, h.listed, h.evaluations, h.best, h.length_history, h.history⟩

theorem close (h : A.Balanced f) : A.close.Balanced f := by
  obtain ⟨phase, events, hclose⟩ := A.exists_close_eq_aside
  rw [hclose]
  exact h.aside _ _ _

/-- One more call is listed. -/
theorem listed_append (h : A.Balanced f) {x : P} {o : Option (Cost α)}
    (ho : o = (f x (A.calls + 1)).toOption) (i : ℕ) (y : P) (o' : Option (Cost α))
    (hi : (A.trace ++ [(x, o)])[i]? = some (y, o')) : o' = (f y (i + 1)).toOption := by
  rcases lt_trichotomy i A.trace.length with hlt | rfl | hgt
  · rw [List.getElem?_append_left hlt] at hi
    exact h.listed i y o' hi
  · rw [List.getElem?_concat_length] at hi
    obtain ⟨rfl, rfl⟩ := Prod.mk.inj (Option.some.inj hi)
    rw [ho, h.calls]
  · rw [List.getElem?_eq_none (by simp; omega)] at hi
    exact nomatch hi

theorem enterFailure (h : A.Balanced f) {x : P} {failure : Failure}
    (hx : f x (A.calls + 1) = .error failure) : (A.enterFailure x).Balanced f where
  calls := by simp [Account.enterFailure, h.calls]
  listed := h.listed_append (by rw [hx]; rfl)
  evaluations := by rw [answers_enterFailure]; exact h.evaluations
  best := by rw [answers_enterFailure]; exact h.best
  length_history := by rw [answers_enterFailure]; exact h.length_history
  history := by rw [answers_enterFailure]; exact h.history

theorem eq_ok_of_getElem? (h : A.Balanced f) {i : ℕ} {x : P} {c : Cost α}
    (hi : A.trace[i]? = some (x, some c)) : f x (i + 1) = .ok c := by
  have hlisted := h.listed i x _ hi
  cases hx : f x (i + 1) with
  | error failure =>
    rw [hx] at hlisted
    exact nomatch hlisted
  | ok c' =>
    rw [hx] at hlisted
    rw [Option.some.inj hlisted]

theorem isProper_of_listed (hf : ∀ x k c, f x k = .ok c → c.IsProper) (h : A.Balanced f) {x : P}
    {c : Cost α} (hx : (x, some c) ∈ A.trace) : c.IsProper := by
  obtain ⟨i, hi⟩ := List.getElem?_of_mem hx
  exact hf _ _ _ (h.eq_ok_of_getElem? hi)

/-- What was answered was answered by the objective. -/
theorem exists_eq_ok (h : A.Balanced f) {a : P × Cost α} (ha : a ∈ A.answers) :
    ∃ k, f a.1 k = .ok a.2 := by
  obtain ⟨⟨x, o⟩, he, hmap⟩ := List.mem_filterMap.mp ha
  obtain ⟨c, rfl, rfl⟩ := Option.map_eq_some_iff.mp hmap
  obtain ⟨i, hi⟩ := List.getElem?_of_mem he
  exact ⟨i + 1, h.eq_ok_of_getElem? hi⟩

theorem isProper_of_mem (hf : ∀ x k c, f x k = .ok c → c.IsProper) (h : A.Balanced f)
    {a : P × Cost α} (ha : a ∈ A.answers) : a.2.IsProper := by
  obtain ⟨k, hk⟩ := h.exists_eq_ok ha
  exact hf _ _ _ hk

/-- The last entry of the history has the cost of the best point. -/
theorem getLast?_history (h : A.Balanced f) (hne : A.answers ≠ []) :
    A.history.getLast? = some (A.evaluations, A.bestCost) := by
  have hpos : 0 < A.answers.length := List.length_pos_of_ne_nil hne
  have hsucc : A.answers.length - 1 + 1 = A.answers.length := by omega
  obtain ⟨best, hbest, hget⟩ := h.history (A.answers.length - 1) (by omega)
  rw [hsucc, List.take_length] at hbest
  rw [List.getLast?_eq_getElem?, h.length_history, hget, hsucc, h.evaluations, hbest.unique h.best]
  rfl

variable [Scalar.Ordered α]

theorem enter (hf : ∀ x k c, f x k = .ok c → c.IsProper) (h : A.Balanced f) {x : P} {c : Cost α}
    (hx : f x (A.calls + 1) = .ok c) : (A.enter x c).Balanced f := by
  have hbest : IsBest (A.answers ++ [(x, c)]) (improve A.best x c) :=
    h.best.improve (fun _ ha => h.isProper_of_mem hf ha) x c
  constructor
  · simp [Account.enter, h.calls]
  · exact h.listed_append (by rw [hx]; rfl)
  · rw [answers_enter, List.length_append]
    exact congrArg (· + 1) h.evaluations
  · rw [answers_enter]
    exact hbest
  · rw [answers_enter, List.length_append]
    simp [Account.enter, h.length_history]
  · rw [answers_enter]
    intro i hi
    rw [List.length_append, List.length_singleton] at hi
    rcases Nat.lt_succ_iff_lt_or_eq.mp hi with hlt | rfl
    · -- an older entry stands as it was
      obtain ⟨best, htake, hget⟩ := h.history i hlt
      refine ⟨best, ?_, ?_⟩
      · rwa [List.take_append_of_le_length hlt]
      · show (A.history ++ [_])[i]? = _
        rwa [List.getElem?_append_left (by rwa [h.length_history])]
    · refine ⟨improve A.best x c, ?_, ?_⟩
      · rwa [List.take_of_length_le (by simp)]
      · show (A.history ++ [(A.evaluations + 1, _)])[A.answers.length]? = _
        rw [← h.length_history, List.getElem?_concat_length, h.evaluations, h.length_history]

end Balanced

/-! ## 3. Individuals -/

/-- Every call of the account is one of some individuals, in order: it was answered, with a finite
cost. -/
structure Roll {β : Type} (f : P → ℕ → Except Failure (Cost α)) (point : β → P) (cost : β → Cost α)
    (born : List β) (A : Account α P) : Prop where
  balanced : A.Balanced f
  trace : A.trace = born.map fun b => (point b, some (cost b))
  finite : ∀ b ∈ born, (cost b).IsFinite

namespace Roll

variable {β : Type} {f : P → ℕ → Except Failure (Cost α)} {point : β → P} {cost : β → Cost α}
  {born : List β} {A : Account α P}

theorem aside (h : Roll f point cost born A) (rounds : ℕ) (phase : Phase α)
    (events : List (Event α)) : Roll f point cost born (A.aside rounds phase events) :=
  ⟨h.balanced.aside _ _ _, h.trace, h.finite⟩

theorem answers_eq (h : Roll f point cost born A) :
    A.answers = born.map fun b => (point b, cost b) := by
  unfold answers
  rw [h.trace, List.filterMap_map]
  exact congrFun (List.filterMap_eq_map (f := fun b => (point b, cost b))) born

theorem eq_ok (h : Roll f point cost born A) {i : ℕ} {b : β} (hb : born[i]? = some b) :
    f (point b) (i + 1) = .ok (cost b) := by
  apply h.balanced.eq_ok_of_getElem?
  rw [h.trace, List.getElem?_map, hb]
  rfl

theorem isProper (hf : ∀ x k c, f x k = .ok c → c.IsProper) (h : Roll f point cost born A) :
    ∀ b ∈ born, (cost b).IsProper := by
  intro b hb
  obtain ⟨i, hi⟩ := List.getElem?_of_mem hb
  exact hf _ _ _ (h.eq_ok hi)

variable [Scalar.Ordered α] (hf : ∀ x k c, f x k = .ok c → c.IsProper)

include hf

/-- One more individual is evaluated. -/
theorem enter (h : Roll f point cost born A) (b : β) {v : α} (hv : cost b = .finite v)
    (hb : f (point b) (A.calls + 1) = .ok (.finite v)) :
    Roll f point cost (born ++ [b]) (A.enter (point b) (.finite v)) where
  balanced := h.balanced.enter hf hb
  trace := by
    rw [List.map_append, ← h.trace, List.map_singleton, hv]
    rfl
  finite b' hb' := by
    rcases List.mem_append.mp hb' with hold | hnew
    · exact h.finite b' hold
    · rw [List.mem_singleton.mp hnew, hv]
      exact ⟨v, rfl⟩

/-- The best individual comes first in the ranking of all. -/
theorem rank_eq_cons (h : Roll f point cost born A) (hsome : born ≠ []) :
    ∃ b first others, A.best = some b ∧ Cost.rank cost born = first :: others ∧
      point first = b.point ∧ cost first = .finite b.cost := by
  have hbest := h.balanced.best
  rw [h.answers_eq] at hbest
  obtain ⟨m, hm⟩ := List.exists_mem_of_ne_nil born hsome
  have hfinite : A.best.isSome = true :=
    hbest.isSome_iff.mpr ⟨(point m, cost m), List.mem_map_of_mem hm, h.finite m hm⟩
  obtain ⟨b, hb⟩ := Option.isSome_iff_exists.mp hfinite
  rw [hb] at hbest
  obtain ⟨first, others, hrank, hpoint, hcost⟩ := hbest.rank_eq_cons (h.isProper hf) h.finite
  exact ⟨b, first, others, hb, hrank, hpoint, hcost⟩

end Roll

end BoxSearch.Account
