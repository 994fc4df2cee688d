import Mathlib
import BoxSearch.Proofs.Account.Methods

/-!
# Two runs abreast

A step is made twice, from accounts of the same calls and on the same draws, for two objectives of
which only finite answers are known.  `Abreast k S m m' Q` says that both runs then call the objective
for the same points in the same order: what the methods keep is related by `S` before and, with the
answers, by `Q` afterwards.  The calls that count are those after the first `k`; one that fails or
has an answer that is not finite ends the comparison.
-/

namespace BoxSearch

/-- The task with another objective. -/
def Task.answeredBy {α : Type} [Scalar α] {n : ℕ} (t : Task α n) (f : Objective α n) : Task α n :=
  { t with objective := f }

/-! ## 1. Accounts of the same calls -/

namespace Account

variable {α P : Type}

/-- The calls after the first `k` were answered with finite costs. -/
def IsFiniteFrom (k : ℕ) (L : Account α P) : Prop :=
  ∀ e ∈ L.trace.drop k, ∃ v, e.2 = some (.finite v)

/-- The same points were evaluated in the same order. -/
structure SameCalls (L L' : Account α P) : Prop where
  evaluations : L'.evaluations = L.evaluations
  points : L'.trace.map (·.1) = L.trace.map (·.1)

theorem SameCalls.refl (L : Account α P) : SameCalls L L := ⟨rfl, rfl⟩

theorem SameCalls.enter [Scalar α] {L L' : Account α P} (h : SameCalls L L') (x : P) (c c' : Cost α) :
    SameCalls (L.enter x c) (L'.enter x c') where
  evaluations := congrArg (· + 1) h.evaluations
  points := by
    unfold Account.enter
    rw [List.map_append, List.map_append, h.points]
    rfl

theorem IsFiniteFrom.of_prefix {k : ℕ} {L L' : Account α P} (h : L'.IsFiniteFrom k)
    (htrace : L.trace <+: L'.trace) : L.IsFiniteFrom k :=
  fun e he => h e ((htrace.drop k).subset he)

/-- Where the last call counts, it was answered with a finite cost. -/
theorem IsFiniteFrom.last {k : ℕ} {L : Account α P} {e : P × Option (Cost α)}
    {earlier : List (P × Option (Cost α))} (h : L.IsFiniteFrom k) (htrace : L.trace = earlier ++ [e])
    (hk : k ≤ earlier.length) : ∃ v, e.2 = some (.finite v) := by
  apply h
  rw [htrace, List.drop_append_of_le_length hk]
  exact List.mem_append_right _ (List.mem_singleton_self e)

variable [Scalar α] {f : P → ℕ → Except Failure (Cost α)} {A B : Account α P}

theorem GoesOn.exists_added (h : GoesOn f A B) :
    ∃ added, B.trace = A.trace ++ added ∧ ∀ e ∈ added, ∃ v, e.2 = some (.finite v) := by
  induction h with
  | refl => exact ⟨[], (List.append_nil _).symm, fun e he => nomatch he⟩
  | @enter B x v _ _ ih =>
    obtain ⟨added, htrace, hfinite⟩ := ih
    refine ⟨added ++ [(x, some (.finite v))], ?_, fun e he => ?_⟩
    · show B.trace ++ _ = _
      rw [htrace, List.append_assoc]
    · rcases List.mem_append.mp he with he | he
      · exact hfinite e he
      · rw [List.mem_singleton.mp he]
        exact ⟨v, rfl⟩
  | aside _ _ _ _ ih => exact ih

theorem GoesOn.isPrefix (h : GoesOn f A B) : A.trace <+: B.trace := by
  obtain ⟨added, htrace, -⟩ := h.exists_added
  exact ⟨added, htrace.symm⟩

theorem Ends.isPrefix {e : Halt α} (h : Ends f A e B) : A.trace <+: B.trace := by
  cases h with
  | ofItself h => exact h.isPrefix
  | failed h _ => exact h.isPrefix.trans (List.prefix_append _ _)
  | nonFinite h _ _ => exact h.isPrefix.trans (List.prefix_append _ _)

theorem isSome_improve (best : Option (Best α P)) (x : P) (v : α) :
    (improve best x (.finite v)).isSome := by
  cases best with
  | none => rfl
  | some b =>
    show (if v < b.cost then some ⟨x, v⟩ else some b : Option (Best α P)).isSome
    split <;> rfl

/-- A search that has a best point keeps one. -/
theorem GoesOn.isSome_best (h : GoesOn f A B) (hA : A.best.isSome) : B.best.isSome := by
  induction h with
  | refl => exact hA
  | @enter B x v _ _ _ => exact isSome_improve B.best x v
  | aside _ _ _ _ ih => exact ih

theorem GoesOn.isFiniteFrom (h : GoesOn f A B) : B.IsFiniteFrom A.trace.length := by
  obtain ⟨added, htrace, hfinite⟩ := h.exists_added
  unfold IsFiniteFrom
  rw [htrace, List.drop_left]
  exact hfinite

theorem Ends.isFiniteFrom (hf : ∀ x j, ∃ v, f x j = .ok (.finite v)) {e : Halt α}
    (h : Ends f A e B) : B.IsFiniteFrom A.trace.length := by
  cases h with
  | ofItself h => exact h.isFiniteFrom
  | failed _ hx =>
    obtain ⟨v, hv⟩ := hf _ _
    exact nomatch hv.symm.trans hx
  | nonFinite _ hx hc =>
    obtain ⟨v, hv⟩ := hf _ _
    exact absurd ⟨v, Except.ok.inj (hx.symm.trans hv)⟩ hc

end Account

namespace Orderly

variable {σ α κ β : Type} [Scalar α] {n : ℕ} {t : Task α n} {m : SearchM σ α n κ β}

theorem isPrefix (h : Orderly t m) (c : Course σ α n κ) :
    c.ledger.trace <+: (m.run c).2.ledger.trace := by
  apply SearchM.Triple.after (S := fun d => c.ledger.trace <+: d.ledger.trace) (h c.ledger) .refl
  · exact fun _ _ hd => hd.isPrefix
  · exact fun _ _ hd => hd.isPrefix

theorem answers_best (h : Orderly t m) :
    SearchM.Answers (fun c => c.ledger.best.isSome) m fun _ c => c.ledger.best.isSome := by
  intro c hc
  exact SearchM.Triple.weaken (h c.ledger) (fun _ _ hd => hd.isSome_best hc) (fun _ _ _ => trivial)
    c .refl

/-- An objective that always has a finite cost is no less than finite during a step. -/
theorem isFiniteFrom (h : Orderly t m) (hf : ∀ x j, ∃ v, t.objective x j = .ok (.finite v))
    (c : Course σ α n κ) : (m.run c).2.ledger.IsFiniteFrom c.ledger.trace.length := by
  apply SearchM.Triple.after (S := fun d => d.ledger.IsFiniteFrom c.ledger.trace.length) (h c.ledger)
    .refl
  · exact fun _ _ hd => Account.GoesOn.isFiniteFrom hd
  · exact fun _ _ hd => Account.Ends.isFiniteFrom hf hd

end Orderly

open Account

namespace SearchM

variable {σ α κ β β' γ γ' : Type} {n : ℕ}

/-! ## 2. Steps abreast -/

/-- Two courses with the same calls, at least `k` of them, and the same draws. -/
structure Level (k : ℕ) (S : κ → κ → Prop) (c c' : Course σ α n κ) : Prop where
  begun : k ≤ c.ledger.trace.length
  calls : c.ledger.SameCalls c'.ledger
  draws : c'.draws = c.draws
  own : S c.own c'.own

/-- The outcomes of two steps that made the same calls. -/
def Alongside (k : ℕ) (Q : β → β' → κ → κ → Prop) :
    Except (Halt α) β × Course σ α n κ → Except (Halt α) β' × Course σ α n κ → Prop
  | (.ok b, c), (.ok b', c') => Level k (Q b b') c c'
  | (.error e, c), (.error e', c') => e' = e ∧ c.ledger.SameCalls c'.ledger
  | _, _ => False

/-- The second step does what the first one does, and neither calls the objective. -/
def Parallel (k : ℕ) (S : κ → κ → Prop) (m : SearchM σ α n κ β) (m' : SearchM σ α n κ β')
    (Q : β → β' → κ → κ → Prop) : Prop :=
  ∀ c c', Level k S c c' → Alongside k Q (m.run c) (m'.run c')

/-- The second step makes the calls of the first one, where both have finite answers. -/
def Abreast (k : ℕ) (S : κ → κ → Prop) (m : SearchM σ α n κ β) (m' : SearchM σ α n κ β')
    (Q : β → β' → κ → κ → Prop) : Prop :=
  ∀ c c', Level k S c c' → (m.run c).2.ledger.IsFiniteFrom k →
    (m'.run c').2.ledger.IsFiniteFrom k → Alongside k Q (m.run c) (m'.run c')

section

variable {k : ℕ} {S T : κ → κ → Prop} {Q : β → β' → κ → κ → Prop} {R : γ → γ' → κ → κ → Prop}
  {m : SearchM σ α n κ β} {m' : SearchM σ α n κ β'} {f : β → SearchM σ α n κ γ}
  {f' : β' → SearchM σ α n κ γ'}

namespace Parallel

theorem modifyOwn {f f' : κ → κ} (h : ∀ s s', S s s' → T (f s) (f' s')) :
    Parallel k S (SearchM.modifyOwn f : SearchM σ α n κ Unit) (SearchM.modifyOwn f')
      fun _ _ => T :=
  fun _ _ hc => ⟨hc.begun, hc.calls, hc.draws, h _ _ hc.own⟩

theorem setOwn {s s' : κ} (h : T s s') :
    Parallel k S (SearchM.setOwn s : SearchM σ α n κ Unit) (SearchM.setOwn s') fun _ _ => T :=
  fun _ _ hc => ⟨hc.begun, hc.calls, hc.draws, h⟩

theorem endRound :
    Parallel k S (SearchM.endRound : SearchM σ α n κ Unit) SearchM.endRound fun _ _ => S :=
  fun _ _ hc => ⟨hc.begun, ⟨hc.calls.evaluations, hc.calls.points⟩, hc.draws, hc.own⟩

end Parallel

/-- Where the first steps went alongside each other, what follows on them does too. -/
theorem Alongside.bind {c c' : Course σ α n κ} (h : Alongside k Q (m.run c) (m'.run c'))
    (hf : ∀ b b', Abreast k (Q b b') (f b) (f' b') R)
    (hfinite : ((m >>= f).run c).2.ledger.IsFiniteFrom k)
    (hfinite' : ((m' >>= f').run c').2.ledger.IsFiniteFrom k) :
    Alongside k R ((m >>= f).run c) ((m' >>= f').run c') := by
  rw [run_bind] at hfinite hfinite' ⊢
  rw [run_bind]
  rcases hr : m.run c with ⟨e | b, d⟩ <;> rcases hr' : m'.run c' with ⟨e' | b', d'⟩ <;>
    rw [hr, hr'] at h <;> rw [hr] at hfinite <;> rw [hr'] at hfinite'
  · exact h
  · exact False.elim h
  · exact False.elim h
  · exact hf b b' d d' h hfinite hfinite'

namespace Abreast

theorem bind_parallel (hm : Parallel k S m m' Q) (hf : ∀ b b', Abreast k (Q b b') (f b) (f' b') R) :
    Abreast k S (m >>= f) (m' >>= f') R := by
  intro c c' hc hfinite hfinite'
  exact (hm c c' hc).bind hf hfinite hfinite'

/-- A step on which another one follows is finite if both are together. -/
theorem isFiniteFrom_of_bind [Scalar α] {t : Task α n} (hf : ∀ b, Orderly t (f b))
    {c : Course σ α n κ} (h : ((m >>= f).run c).2.ledger.IsFiniteFrom k) :
    (m.run c).2.ledger.IsFiniteFrom k := by
  rw [run_bind] at h
  rcases hr : m.run c with ⟨e | b, d⟩ <;> rw [hr] at h
  · exact h
  · exact h.of_prefix ((hf b).isPrefix d)

theorem bind [Scalar α] {t u : Task α n} (hm : Abreast k S m m' Q) (ho : ∀ b, Orderly t (f b))
    (ho' : ∀ b, Orderly u (f' b)) (hf : ∀ b b', Abreast k (Q b b') (f b) (f' b') R) :
    Abreast k S (m >>= f) (m' >>= f') R := by
  intro c c' hc hfinite hfinite'
  have h := hm c c' hc (isFiniteFrom_of_bind ho hfinite) (isFiniteFrom_of_bind ho' hfinite')
  exact h.bind hf hfinite hfinite'

theorem of_parallel (h : Parallel k S m m' Q) : Abreast k S m m' Q := fun c c' hc _ _ => h c c' hc

/-- Steps that are compared under a fact which the kept states imply. -/
theorem assume {p : Prop} (hp : ∀ s s', S s s' → p) (h : p → Abreast k S m m' Q) :
    Abreast k S m m' Q :=
  fun c c' hc => h (hp _ _ hc.own) c c' hc

/-- Less is asked of what is kept afterwards, and more before. -/
theorem mono {Q' : β → β' → κ → κ → Prop} (h : Abreast k S m m' Q)
    (hS : ∀ s s', T s s' → S s s') (hQ : ∀ b b' s s', Q b b' s s' → Q' b b' s s') :
    Abreast k T m m' Q' := by
  intro c c' hc hfinite hfinite'
  have hrun := h c c' ⟨hc.begun, hc.calls, hc.draws, hS _ _ hc.own⟩ hfinite hfinite'
  rcases hr : m.run c with ⟨e | b, d⟩ <;> rcases hr' : m'.run c' with ⟨e' | b', d'⟩ <;>
    rw [hr, hr'] at hrun
  · exact hrun
  · exact hrun
  · exact hrun
  · exact ⟨hrun.begun, hrun.calls, hrun.draws, hQ _ _ _ _ hrun.own⟩

theorem pure {b : β} {b' : β'} (h : ∀ s s', S s s' → Q b b' s s') :
    Abreast k S (pure b : SearchM σ α n κ β) (pure b' : SearchM σ α n κ β') Q :=
  fun _ _ hc _ _ => ⟨hc.begun, hc.calls, hc.draws, h _ _ hc.own⟩

theorem throw (e : Halt α) :
    Abreast k S (throw e : SearchM σ α n κ β) (throw e : SearchM σ α n κ β') Q :=
  fun _ _ hc _ _ => ⟨rfl, hc.calls⟩

theorem ite {p : Prop} [Decidable p] {m₁ m₂ : SearchM σ α n κ β} {m₁' m₂' : SearchM σ α n κ β'}
    (h₁ : Abreast k S m₁ m₁' Q) (h₂ : Abreast k S m₂ m₂' Q) :
    Abreast k S (if p then m₁ else m₂) (if p then m₁' else m₂') Q := by
  split
  · exact h₁
  · exact h₂

/-! ## 3. Steps that make no call -/

theorem own_bind {f : κ → SearchM σ α n κ γ} {f' : κ → SearchM σ α n κ γ'}
    (hf : ∀ s s', S s s' → Abreast k S (f s) (f' s') R) :
    Abreast k S (SearchM.own >>= f) (SearchM.own >>= f') R :=
  fun c c' hc => hf _ _ hc.own c c' hc

/-- Both steps start with the same draws. -/
theorem draw_bind {f : β → SearchM σ α n κ γ} {f' : β → SearchM σ α n κ γ'} (m : StateM σ β)
    (hf : ∀ b, Abreast k S (f b) (f' b) R) :
    Abreast k S (SearchM.draw m >>= f) (SearchM.draw m >>= f') R := by
  apply bind_parallel (Q := fun b b' s s' => b' = b ∧ S s s')
  · rintro c c' ⟨hbegun, hcalls, hdraws, hown⟩
    have hm : m c'.draws = m c.draws := by rw [hdraws]
    exact ⟨hbegun, hcalls, congrArg Prod.snd hm, congrArg Prod.fst hm, hown⟩
  · intro b b'
    apply assume (fun _ _ h => h.1)
    rintro rfl
    exact (hf b').mono (fun _ _ h => h.2) fun _ _ _ _ h => h

theorem use_bind {f : β → SearchM σ α n κ γ} {f' : β → SearchM σ α n κ γ'} (b : Usable α β)
    (hf : ∀ b, Abreast k S (f b) (f' b) R) :
    Abreast k S (SearchM.use b >>= f) (SearchM.use b >>= f') R := by
  cases b with
  | ok v => exact hf v
  | error e => exact throw _

theorem drawOr_bind {f : β → SearchM σ α n κ γ} {f' : β → SearchM σ α n κ γ'} (m : ChoiceM σ α β)
    (hf : ∀ b, Abreast k S (f b) (f' b) R) :
    Abreast k S (SearchM.drawOr m >>= f) (SearchM.drawOr m >>= f') R := by
  unfold SearchM.drawOr
  rw [bind_assoc, bind_assoc]
  exact draw_bind m.run fun b => use_bind b hf

variable [Scalar α] {t : Task α n} {o : Objective α n}

/-- The budget is looked at in the same account. -/
theorem withinBudget_bind {f : Bool → SearchM σ α n κ γ} {f' : Bool → SearchM σ α n κ γ'}
    (hf : ∀ b, Abreast k S (f b) (f' b) R) :
    Abreast k S (SearchM.withinBudget t >>= f) (SearchM.withinBudget (t.answeredBy o) >>= f') R := by
  apply bind_parallel (Q := fun b b' s s' => b' = b ∧ S s s')
  · rintro c c' ⟨hbegun, hcalls, hdraws, hown⟩
    have hwithin : decide (c'.ledger.evaluations < (t.answeredBy o).budget) =
        decide (c.ledger.evaluations < t.budget) := by
      rw [hcalls.evaluations]
      rfl
    exact ⟨hbegun, hcalls, hdraws, hwithin, hown⟩
  · intro b b'
    apply assume (fun _ _ h => h.1)
    rintro rfl
    exact (hf b').mono (fun _ _ h => h.2) fun _ _ _ _ h => h

theorem requireBudget_bind {f : Unit → SearchM σ α n κ γ} {f' : Unit → SearchM σ α n κ γ'}
    (hf : Abreast k S (f ()) (f' ()) R) :
    Abreast k S (SearchM.requireBudget t >>= f) (SearchM.requireBudget (t.answeredBy o) >>= f') R := by
  unfold SearchM.requireBudget
  rw [bind_assoc, bind_assoc]
  apply withinBudget_bind
  intro b
  cases b with
  | true => exact hf
  | false => exact throw _

/-! ## 4. Calls -/

/-- A trial whose answer is kept before it is looked at, where finite answers count: the point is
refused, or what follows goes on with a finite answer. -/
theorem keep_run (x : Point α n) {keep : Cost α → κ → κ} {f : α → SearchM σ α n κ γ}
    {c : Course σ α n κ} (hk : k ≤ c.ledger.trace.length) {m : SearchM σ α n κ γ} (hm : m = do
      let d ← SearchM.evaluate t x
      SearchM.modifyOwn (keep d)
      let v ← SearchM.requireFinite d
      f v)
    (hfinite : (m.run c).2.ledger.IsFiniteFrom k) :
    match (if t.checked then t.region.check x else .ok ()) with
    | .error e => m.run c = (.error (.fault e), c)
    | .ok () => ∃ v, m.run c = (f v).run
        { c with ledger := c.ledger.enter x (.finite v), own := keep (.finite v) c.own } := by
  subst hm
  rw [run_bind, run_evaluate] at hfinite ⊢
  revert hfinite
  cases (if t.checked then t.region.check x else .ok ()) with
  | error e => exact fun _ => rfl
  | ok u =>
    dsimp only
    cases t.objective x (c.ledger.calls + 1) with
    | error failure =>
      intro hfinite
      obtain ⟨v, hv⟩ := IsFiniteFrom.last hfinite rfl hk
      exact nomatch hv
    | ok d =>
      have hlast (hd : ∀ v, d ≠ .finite v) (L : Ledger α n)
          (htrace : L.trace = c.ledger.trace ++ [(x, some d)]) (hL : L.IsFiniteFrom k) : False := by
        obtain ⟨v, hv⟩ := IsFiniteFrom.last hL htrace hk
        exact hd v (Option.some.inj hv)
      cases d with
      | finite v => exact fun _ => ⟨v, rfl⟩
      | posInf => exact fun hfinite => (hlast nofun _ rfl hfinite).elim
      | negInf => exact fun hfinite => (hlast nofun _ rfl hfinite).elim
      | undefined => exact fun hfinite => (hlast nofun _ rfl hfinite).elim

/-- A trial that goes on with its cost, which is kept before it is looked at. -/
theorem keep_bind (x : Point α n) {keep keep' : Cost α → κ → κ}
    (hkeep : ∀ v v' s s', S s s' → T (keep (.finite v) s) (keep' (.finite v') s'))
    {f : α → SearchM σ α n κ γ} {f' : α → SearchM σ α n κ γ'}
    (hf : ∀ v v', Abreast k T (f v) (f' v') R) :
    Abreast k S
      (do
        let c ← SearchM.evaluate t x
        SearchM.modifyOwn (keep c)
        let v ← SearchM.requireFinite c
        f v)
      (do
        let c ← SearchM.evaluate (t.answeredBy o) x
        SearchM.modifyOwn (keep' c)
        let v ← SearchM.requireFinite c
        f' v) R := by
  intro c c' hc hfinite hfinite'
  have hbegun' : k ≤ c'.ledger.trace.length := by
    have hpoints := congrArg List.length hc.calls.points
    rw [List.length_map, List.length_map] at hpoints
    exact hpoints ▸ hc.begun
  have hrun := keep_run x hc.begun rfl hfinite
  have hrun' := keep_run x hbegun' rfl hfinite'
  have hcheck : (if (t.answeredBy o).checked then (t.answeredBy o).region.check x else .ok ()) =
      if t.checked then t.region.check x else .ok () := rfl
  rw [hcheck] at hrun'
  cases hx : (if t.checked then t.region.check x else .ok ()) with
  | error e =>
    rw [hx] at hrun hrun'
    rw [hrun, hrun']
    exact ⟨rfl, hc.calls⟩
  | ok u =>
    rw [hx] at hrun hrun'
    obtain ⟨v, hrun⟩ := hrun
    obtain ⟨v', hrun'⟩ := hrun'
    rw [hrun] at hfinite ⊢
    rw [hrun'] at hfinite' ⊢
    refine hf v v' _ _ ⟨?_, hc.calls.enter x _ _, hc.draws, hkeep v v' _ _ hc.own⟩ hfinite hfinite'
    show k ≤ (c.ledger.trace ++ [_]).length
    rw [List.length_append]
    exact hc.begun.trans (Nat.le_add_right _ _)

theorem trial_bind (x : Point α n) {f : α → SearchM σ α n κ γ} {f' : α → SearchM σ α n κ γ'}
    (hf : ∀ v v', Abreast k S (f v) (f' v') R) :
    Abreast k S (SearchM.trial t x >>= f) (SearchM.trial (t.answeredBy o) x >>= f') R := by
  -- Nothing is kept.
  have hkeep : Abreast k S
      (do
        let c ← SearchM.evaluate t x
        SearchM.modifyOwn fun s => s
        let v ← SearchM.requireFinite c
        f v)
      (do
        let c ← SearchM.evaluate (t.answeredBy o) x
        SearchM.modifyOwn fun s => s
        let v ← SearchM.requireFinite c
        f' v) R := keep_bind x (fun _ _ _ _ h => h) hf
  unfold SearchM.trial
  rw [bind_assoc, bind_assoc]
  exact hkeep

end Abreast

end

end SearchM

end BoxSearch
