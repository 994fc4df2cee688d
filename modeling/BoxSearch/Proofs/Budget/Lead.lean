import BoxSearch.Ledger

/-!
# Accounts that go on from others

`L.Leads L'` says that `L'` has the calls of `L`, in the same order, and then others, and that its
best is what these others make of the best of `L`.  `L.Rests L'` says that no call was added at all.
-/

namespace BoxSearch.Account

variable {α P : Type} [Scalar α] {L L₁ L₂ L₃ : Account α P}

/-- The best after one more call, which may have failed. -/
def improveBy (best : Option (Best α P)) (call : P × Option (Cost α)) : Option (Best α P) :=
  match call.2 with
  | some c => improve best call.1 c
  | none => best

/-- The second account goes on from the first. -/
def Leads (L L' : Account α P) : Prop :=
  ∃ calls, L'.trace = L.trace ++ calls ∧ L'.best = calls.foldl improveBy L.best

omit [Scalar α] in
/-- The second account has the calls of the first and no others. -/
structure Rests (L L' : Account α P) : Prop where
  trace : L'.trace = L.trace
  best : L'.best = L.best
  evaluations : L'.evaluations = L.evaluations

/-! ## 1. Accounts that rest -/

namespace Rests

omit [Scalar α]

theorem refl (L : Account α P) : Rests L L := ⟨rfl, rfl, rfl⟩

theorem trans (h : Rests L₁ L₂) (h' : Rests L₂ L₃) : Rests L₁ L₃ :=
  ⟨h'.trace.trans h.trace, h'.best.trans h.best, h'.evaluations.trans h.evaluations⟩

theorem report (L : Account α P) (e : Event α) : Rests L (L.report e) := ⟨rfl, rfl, rfl⟩

theorem stopNonFinite (L : Account α P) (c : Cost α) : Rests L (L.stopNonFinite c) := ⟨rfl, rfl, rfl⟩

theorem markRunning (L : Account α P) : Rests L L.markRunning := by
  unfold Account.markRunning
  cases L.phase <;> exact ⟨rfl, rfl, rfl⟩

end Rests

/-! ## 2. Accounts that go on -/

namespace Leads

theorem of_rests (h : Rests L₁ L₂) : Leads L₁ L₂ :=
  ⟨[], h.trace.trans (List.append_nil _).symm, h.best⟩

theorem refl (L : Account α P) : Leads L L := of_rests (.refl L)

theorem trans (h : Leads L₁ L₂) (h' : Leads L₂ L₃) : Leads L₁ L₃ := by
  obtain ⟨calls, htrace, hbest⟩ := h
  obtain ⟨calls', htrace', hbest'⟩ := h'
  refine ⟨calls ++ calls', ?_, ?_⟩
  · rw [htrace', htrace, List.append_assoc]
  · rw [hbest', hbest, List.foldl_append]

/-- An account that rested is behind another one as far as before. -/
theorem of_rests_left (h : Rests L₁ L₂) (h' : Leads L₁ L₃) : Leads L₂ L₃ := by
  obtain ⟨calls, htrace, hbest⟩ := h'
  rw [← h.trace] at htrace
  rw [← h.best] at hbest
  exact ⟨calls, htrace, hbest⟩

theorem enter (L : Account α P) (x : P) (c : Cost α) : Leads L (L.enter x c) :=
  ⟨[(x, some c)], rfl, rfl⟩

theorem enterFailure (L : Account α P) (x : P) : Leads L (L.enterFailure x) :=
  ⟨[(x, none)], rfl, rfl⟩

theorem isPrefix (h : Leads L₁ L₂) : L₁.trace <+: L₂.trace := by
  obtain ⟨calls, htrace, -⟩ := h
  rw [htrace]
  exact List.prefix_append _ _

end Leads

/-! ## 3. The best -/

theorem improveBy_eq_or_lt (b : Best α P) (call : P × Option (Cost α)) :
    ∃ b', improveBy (some b) call = some b' ∧ (b' = b ∨ b'.cost < b.cost) := by
  obtain ⟨x, c⟩ := call
  cases c with
  | none => exact ⟨b, rfl, .inl rfl⟩
  | some c =>
    cases c with
    | finite v =>
      show ∃ b', (if v < b.cost then some ⟨x, v⟩ else some b) = some b' ∧ _
      by_cases h : v < b.cost
      · rw [if_pos h]
        exact ⟨⟨x, v⟩, rfl, .inr h⟩
      · rw [if_neg h]
        exact ⟨b, rfl, .inl rfl⟩
    | _ => exact ⟨b, rfl, .inl rfl⟩

theorem foldl_improveBy_eq_or_lt (htrans : ∀ a b c : α, a < b → b < c → a < c)
    (calls : List (P × Option (Cost α))) (b : Best α P) :
    ∃ b', calls.foldl improveBy (some b) = some b' ∧ (b' = b ∨ b'.cost < b.cost) := by
  -- Induction on the calls, for any best to begin with: each call may replace it.
  induction calls generalizing b with
  | nil => exact ⟨b, rfl, .inl rfl⟩
  | cons call calls ih =>
    obtain ⟨b₁, hb₁, h₁⟩ := improveBy_eq_or_lt b call
    obtain ⟨b₂, hb₂, h₂⟩ := ih b₁
    rw [List.foldl_cons, hb₁, hb₂]
    rcases h₁ with rfl | h₁
    · exact ⟨b₂, rfl, h₂⟩
    · rcases h₂ with rfl | h₂
      · exact ⟨b₂, rfl, .inr h₁⟩
      · exact ⟨b₂, rfl, .inr (htrans _ _ _ h₂ h₁)⟩

theorem Leads.bestCost (htrans : ∀ a b c : α, a < b → b < c → a < c) (h : Leads L₁ L₂) {v : α}
    (hv : L₁.bestCost = some v) : ∃ w, L₂.bestCost = some w ∧ (w = v ∨ w < v) := by
  -- The calls that the second account adds go on from the best of the first one.
  obtain ⟨calls, -, hbest⟩ := h
  obtain ⟨b, hb, rfl⟩ := Option.map_eq_some_iff.mp hv
  obtain ⟨b', hb', h'⟩ := foldl_improveBy_eq_or_lt htrans calls b
  have hcost : L₂.bestCost = some b'.cost := by
    unfold Account.bestCost
    rw [hbest, hb, hb']
    rfl
  exact ⟨b'.cost, hcost, h'.imp (congrArg Best.cost) id⟩

end BoxSearch.Account
