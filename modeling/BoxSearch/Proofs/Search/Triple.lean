import BoxSearch.Population

/-!
# Triple — what choices and steps keep

`Gives φ m` says that the draws of `m` always end in a value with `φ`.  `Meets φ F m` says the same
of a choice that may meet a fault, whose faults then have `F`.  `Triple P m Q E` is about a step of a
search: started on any course with `P` it answers with `Q` or halts with `E`, and both speak about
the course that it leaves.  Each primitive step has one rule, and so has each way of putting steps
together; a proof about a search applies the rules along its text.
-/

namespace BoxSearch

/-- A computation after another one sees the answer and the state of the first, unless that fails. -/
theorem run_bind {ε τ β γ : Type} (m : ExceptT ε (StateM τ) β) (f : β → ExceptT ε (StateM τ) γ)
    (s : τ) : (m >>= f).run s = match m.run s with
      | (.ok b, s) => (f b).run s
      | (.error e, s) => (.error e, s) := by
  show ExceptT.bindCont f (m.run s).1 (m.run s).2 = _
  rcases m.run s with ⟨_ | _, s⟩ <;> rfl

theorem run_bind_of_ok {ε τ β γ : Type} {m : ExceptT ε (StateM τ) β}
    {f : β → ExceptT ε (StateM τ) γ} {s s' : τ} {b : β} (h : m.run s = (.ok b, s')) :
    (m >>= f).run s = (f b).run s' := by
  rw [run_bind, h]

theorem run_bind_of_error {ε τ β γ : Type} {m : ExceptT ε (StateM τ) β}
    {f : β → ExceptT ε (StateM τ) γ} {s s' : τ} {e : ε} (h : m.run s = (.error e, s')) :
    (m >>= f).run s = (.error e, s') := by
  rw [run_bind, h]

/-! ## 1. Draws -/

/-- Every value that is drawn has `φ`. -/
def Gives {σ β : Type} (φ : β → Prop) (m : StateM σ β) : Prop := ∀ s, φ (m s).1

namespace Gives

variable {σ β γ : Type} {φ : β → Prop} {ψ : γ → Prop}

theorem trivial (m : StateM σ β) : Gives (fun _ => True) m := fun _ => True.intro

theorem pure {b : β} (h : φ b) : Gives φ (pure b : StateM σ β) := fun _ => h

theorem bind {m : StateM σ β} {f : β → StateM σ γ} (hm : Gives φ m)
    (hf : ∀ b, φ b → Gives ψ (f b)) : Gives ψ (m >>= f) :=
  fun s => hf _ (hm s) _

theorem ite {p : Prop} [Decidable p] {m m' : StateM σ β} (h : p → Gives φ m)
    (h' : ¬p → Gives φ m') : Gives φ (if p then m else m') := by
  split
  · exact h ‹_›
  · exact h' ‹_›

theorem length_times (m : StateM σ β) (k : Nat) :
    Gives (fun bs => bs.length = k) (Draw.times k m) := by
  induction k with
  | zero => exact .pure rfl
  | succ k ih => exact .bind (trivial m) fun b _ => .bind ih fun bs hbs => .pure (congrArg (· + 1) hbs)

theorem ofFnM {n : Nat} {φ : Fin n → β → Prop} {f : Fin n → StateM σ β}
    (h : ∀ i, Gives (φ i) (f i)) : Gives (fun v => ∀ i, φ i (v.get i)) (Vector.ofFnM f) := by
  -- Induction on the length: the last coordinate is drawn after all the others.
  induction n with
  | zero => exact fun _ i => i.elim0
  | succ n ih =>
    rw [Vector.ofFnM_succ]
    refine .bind (ih fun i => h i.castSucc) fun v hv => .bind (h (Fin.last n)) fun b hb => .pure ?_
    intro i
    cases i using Fin.lastCases with
    | last => rwa [Point.get_push_last]
    | cast i => rw [Point.get_push_castSucc]; exact hv i

end Gives

/-! ## 2. Choices -/

namespace ChoiceM

variable {σ α β γ : Type}

theorem use_ok_bind (v : β) (f : β → ChoiceM σ α γ) : (use (.ok v) : ChoiceM σ α β) >>= f = f v := rfl

theorem draw_bind (m : StateM σ β) (f : β → StateM σ γ) :
    (draw (m >>= f) : ChoiceM σ α γ) = draw m >>= fun b => draw (f b) := rfl

end ChoiceM

/-- Every value that is chosen has `φ`, and every fault that is met has `F`. -/
def Meets {σ α β : Type} (φ : β → Prop) (F : Fault α → Prop) (m : ChoiceM σ α β) : Prop :=
  ∀ s, match (m.run s).1 with
    | .ok b => φ b
    | .error f => F f

namespace Meets

variable {σ α β γ : Type} {φ : β → Prop} {ψ : γ → Prop} {F : Fault α → Prop}

/-- What is chosen is what the choice makes of some draws. -/
theorem attained (m : ChoiceM σ α β) :
    Meets (fun b => ∃ s s', m.run s = (.ok b, s')) (fun _ => True) m := by
  intro s
  rcases hr : m.run s with ⟨_ | _, s'⟩
  · exact True.intro
  · exact ⟨s, s', hr⟩

theorem pure {b : β} (h : φ b) : Meets φ F (pure b : ChoiceM σ α β) := fun _ => h

theorem bind {m : ChoiceM σ α β} {f : β → ChoiceM σ α γ} (hm : Meets φ F m)
    (hf : ∀ b, φ b → Meets ψ F (f b)) : Meets ψ F (m >>= f) := by
  intro s
  have h := hm s
  rw [run_bind]
  rcases hr : m.run s with ⟨e | b, s'⟩
  · rw [hr] at h
    exact h
  · rw [hr] at h
    exact hf b h s'

theorem mono {φ' : β → Prop} {m : ChoiceM σ α β} (h : Meets φ F m) (hφ : ∀ b, φ b → φ' b) :
    Meets φ' F m := by
  intro s
  have hs := h s
  rcases hr : m.run s with ⟨e | b, s'⟩
  · rw [hr] at hs
    exact hs
  · rw [hr] at hs
    exact hφ b hs

theorem mono_fault {G : Fault α → Prop} {m : ChoiceM σ α β} (h : Meets φ F m)
    (hF : ∀ f, F f → G f) : Meets φ G m := by
  intro s
  have hs := h s
  rcases hr : m.run s with ⟨e | b, s'⟩
  · rw [hr] at hs
    exact hF e hs
  · rw [hr] at hs
    exact hs

theorem and {ψ : β → Prop} {G : Fault α → Prop} {m : ChoiceM σ α β} (h : Meets φ F m)
    (h' : Meets ψ G m) : Meets (fun b => φ b ∧ ψ b) F m := by
  intro s
  have hs := h s
  have hs' := h' s
  rcases hr : m.run s with ⟨e | b, s'⟩ <;> rw [hr] at hs hs'
  · exact hs
  · exact ⟨hs, hs'⟩

theorem draw {m : StateM σ β} (h : Gives φ m) : Meets φ F (ChoiceM.draw m : ChoiceM σ α β) :=
  fun s => h s

/-- A value that may be unusable is used. -/
theorem use {b : Usable α β} (hok : ∀ v, b = .ok v → φ v) (herr : ∀ f, b = .error f → F f) :
    Meets φ F (ChoiceM.use b : ChoiceM σ α β) := by
  intro s
  cases b with
  | ok v => exact hok v rfl
  | error f => exact herr f rfl

theorem ite {p : Prop} [Decidable p] {m m' : ChoiceM σ α β} (h : p → Meets φ F m)
    (h' : ¬p → Meets φ F m') : Meets φ F (if p then m else m') := by
  split
  · exact h ‹_›
  · exact h' ‹_›

theorem ofFnM {n : Nat} {φ : Fin n → β → Prop} {f : Fin n → ChoiceM σ α β}
    (h : ∀ i, Meets (φ i) F (f i)) : Meets (fun v => ∀ i, φ i (v.get i)) F (Vector.ofFnM f) := by
  -- Induction on the length: the last coordinate is chosen after all the others.
  induction n with
  | zero =>
    rw [Vector.ofFnM_zero]
    exact .pure fun i => i.elim0
  | succ n ih =>
    rw [Vector.ofFnM_succ]
    refine .bind (ih fun i => h i.castSucc) fun v hv => .bind (h (Fin.last n)) fun b hb => .pure ?_
    intro i
    cases i using Fin.lastCases with
    | last => rwa [Point.get_push_last]
    | cast i => rw [Point.get_push_castSucc]; exact hv i

theorem times {m : ChoiceM σ α β} (h : Meets φ F m) (k : Nat) :
    Meets (fun bs => ∀ b ∈ bs, φ b) F (Draw.times k m) := by
  induction k with
  | zero => exact .pure fun b hb => nomatch hb
  | succ k ih =>
    refine .bind h fun b hb => .bind ih fun bs hbs => .pure fun b' hb' => ?_
    rcases List.mem_cons.mp hb' with rfl | hmem
    · exact hb
    · exact hbs b' hmem

theorem length_times (m : ChoiceM σ α β) (k : Nat) :
    Meets (fun bs => bs.length = k) (fun _ => True) (Draw.times k m) := by
  induction k with
  | zero => exact .pure rfl
  | succ k ih =>
    refine .bind (attained m) fun b _ => .bind ih fun bs hbs => .pure ?_
    rw [List.length_cons, hbs]

/-- A choice made for one item after the other keeps what each makes of it keeps. -/
theorem foldlM {δ : Type} {φ : δ → Prop} {f : δ → β → ChoiceM σ α δ} (bs : List β)
    (h : ∀ d, ∀ b ∈ bs, φ d → Meets φ F (f d b)) {d : δ} (hd : φ d) :
    Meets φ F (bs.foldlM f d) := by
  induction bs generalizing d with
  | nil => exact .pure hd
  | cons b bs ih =>
    exact .bind (h d b List.mem_cons_self hd) fun d' hd' =>
      ih (fun d b hb => h d b (List.mem_cons_of_mem _ hb)) hd'

end Meets

/-- A population starts from as many points as it has places. -/
theorem Population.length_points {σ α : Type} [Scalar α] [DrawSource σ α] {n : Nat} (t : Task α n)
    (size : Nat) (sampling : Sampling) (spread : Quantity α) :
    Meets (fun xs => xs.length = size) (fun _ => True)
      (points t size sampling spread : ChoiceM σ α (List (Point α n))) := by
  apply Meets.bind (.attained _)
  intro center _
  apply Meets.bind (.length_times _ _)
  intro others hothers
  apply Meets.pure
  have hgiven : (t.starts.take size).length ≤ size := List.length_take_le _ _
  rw [List.length_append, hothers]
  omega

/-! ## 3. Steps -/

namespace SearchM

variable {σ α κ β γ : Type} {n : Nat}

/-- What a step leaves: `Q` of an answer and its course, `E` of a halt and its course. -/
def Outcome (Q : β → Course σ α n κ → Prop) (E : Halt α → Course σ α n κ → Prop) :
    Except (Halt α) β × Course σ α n κ → Prop
  | (.ok b, c) => Q b c
  | (.error h, c) => E h c

/-- On a course with `P` the step answers with `Q` or halts with `E`. -/
def Triple (P : Course σ α n κ → Prop) (m : SearchM σ α n κ β)
    (Q : β → Course σ α n κ → Prop) (E : Halt α → Course σ α n κ → Prop) : Prop :=
  ∀ c, P c → Outcome Q E (m.run c)

/-! ## 4. What the primitive steps do -/

/-- A choice is made on the draws of the course; a fault of the choice halts the step. -/
theorem run_drawOr (m : ChoiceM σ α β) (c : Course σ α n κ) :
    (drawOr m : SearchM σ α n κ β).run c =
      ((m.run c.draws).1.mapError .fault, { c with draws := (m.run c.draws).2 }) := by
  show (draw m.run >>= use).run c = _
  rw [run_bind]
  show (use (m.run c.draws).1).run { c with draws := (m.run c.draws).2 } = _
  cases (m.run c.draws).1 <;> rfl

section

variable [Scalar α]

theorem run_requireBudget (t : Task α n) (c : Course σ α n κ) :
    (requireBudget t : SearchM σ α n κ Unit).run c =
      (if c.ledger.evaluations < t.budget then .ok () else .error .ended, c) := by
  show (withinBudget t >>= fun b => if b then pure () else throw .ended :
    SearchM σ α n κ Unit).run c = _
  rw [run_bind]
  show (if decide (c.ledger.evaluations < t.budget) = true then pure () else throw .ended :
    SearchM σ α n κ Unit).run c = _
  by_cases h : c.ledger.evaluations < t.budget
  · rw [if_pos h, if_pos (decide_eq_true h)]
    rfl
  · rw [if_neg h, if_neg (by simpa using h)]
    rfl

/-- An evaluation checks the point if the task says so, then calls the objective, and enters its
answer or its failure. -/
theorem run_evaluate (t : Task α n) (x : Point α n) (c : Course σ α n κ) :
    (evaluate t x : SearchM σ α n κ (Cost α)).run c =
      match (if t.checked then t.region.check x else .ok ()) with
      | .error f => (.error (.fault f), c)
      | .ok () =>
        match t.objective x (c.ledger.calls + 1) with
        | .error failure =>
          (.error (.fault (.failed failure)), { c with ledger := c.ledger.enterFailure x })
        | .ok k => (.ok k, { c with ledger := c.ledger.enter x k }) := by
  -- The call is the same whether the point was checked or not.
  have hcall : (do
      match t.objective x ((← ledger).calls + 1) with
      | .error failure =>
        modifyLedger (·.enterFailure x)
        throw (.fault (.failed failure))
      | .ok k =>
        modifyLedger (·.enter x k)
        return k : SearchM σ α n κ (Cost α)).run c =
      match t.objective x (c.ledger.calls + 1) with
      | .error failure =>
        (.error (.fault (.failed failure)), { c with ledger := c.ledger.enterFailure x })
      | .ok k => (.ok k, { c with ledger := c.ledger.enter x k }) := by
    rw [run_bind]
    show (match t.objective x (c.ledger.calls + 1) with
      | .error failure => _
      | .ok k => _ : SearchM σ α n κ (Cost α)).run c = _
    cases t.objective x (c.ledger.calls + 1) <;> rfl
  unfold evaluate
  cases t.checked with
  | false => exact hcall
  | true =>
    rw [if_pos rfl, if_pos rfl]
    cases t.region.check x with
    | error f => rfl
    | ok u => exact hcall

theorem run_roundsWithin_of_lt {t : Task α n} (round : SearchM σ α n κ Unit) (fuel : Nat)
    {c : Course σ α n κ} (h : c.ledger.evaluations < t.budget) :
    (roundsWithin t round (fuel + 1)).run c = (round >>= fun _ => roundsWithin t round fuel).run c := by
  show (if decide (c.ledger.evaluations < t.budget) = true then _ else _ :
    SearchM σ α n κ Unit).run c = _
  rw [if_pos (decide_eq_true h)]

theorem run_roundsWithin_of_not_lt {t : Task α n} (round : SearchM σ α n κ Unit) (fuel : Nat)
    {c : Course σ α n κ} (h : ¬c.ledger.evaluations < t.budget) :
    (roundsWithin t round fuel).run c = (.ok (), c) := by
  cases fuel with
  | zero => rfl
  | succ fuel =>
    show (if decide (c.ledger.evaluations < t.budget) = true then _ else _ :
      SearchM σ α n κ Unit).run c = _
    rw [if_neg (by simpa using h)]
    rfl

/-- Rounds can be carried out in two parts. -/
theorem run_roundsWithin_add (t : Task α n) (round : SearchM σ α n κ Unit) (k l : Nat)
    (c : Course σ α n κ) :
    (roundsWithin t round (k + l)).run c =
      (roundsWithin t round k >>= fun _ => roundsWithin t round l).run c := by
  induction k generalizing c with
  | zero =>
    rw [Nat.zero_add]
    rfl
  | succ k ih =>
    rw [Nat.succ_add]
    by_cases h : c.ledger.evaluations < t.budget
    · rw [run_roundsWithin_of_lt round _ h, run_bind, run_bind, run_roundsWithin_of_lt round _ h,
        run_bind]
      rcases round.run c with ⟨_ | _, d⟩
      · rfl
      · exact (ih d).trans (run_bind ..)
    · rw [run_roundsWithin_of_not_lt round _ h,
        run_bind_of_ok (run_roundsWithin_of_not_lt round _ h), run_roundsWithin_of_not_lt round _ h]

end

/-! ## 5. Rules -/

namespace Triple

variable {P : Course σ α n κ → Prop} {Q : β → Course σ α n κ → Prop}
  {R : γ → Course σ α n κ → Prop} {E : Halt α → Course σ α n κ → Prop}

theorem bind {m : SearchM σ α n κ β} {f : β → SearchM σ α n κ γ} (hm : Triple P m Q E)
    (hf : ∀ b, Triple (Q b) (f b) R E) : Triple P (m >>= f) R E := by
  intro c hc
  have h := hm c hc
  rcases hr : m.run c with ⟨e | b, d⟩
  · rw [hr] at h
    rw [run_bind_of_error hr]
    exact h
  · rw [hr] at h
    rw [run_bind_of_ok hr]
    exact hf b d h

/-- Less may be known after a step than it gives. -/
theorem weaken {Q' : β → Course σ α n κ → Prop} {E' : Halt α → Course σ α n κ → Prop}
    {m : SearchM σ α n κ β} (h : Triple P m Q E) (hQ : ∀ b c, Q b c → Q' b c)
    (hE : ∀ e c, E e c → E' e c) : Triple P m Q' E' := by
  intro c hc
  have hrun := h c hc
  rcases hr : m.run c with ⟨e | b, d⟩ <;> rw [hr] at hrun
  · exact hE e d hrun
  · exact hQ b d hrun

/-- What a step leaves however it ends. -/
theorem after {S : Course σ α n κ → Prop} {m : SearchM σ α n κ β} (h : Triple P m Q E)
    {c : Course σ α n κ} (hc : P c) (hQ : ∀ b d, Q b d → S d) (hE : ∀ e d, E e d → S d) :
    S (m.run c).2 := by
  have hrun := h c hc
  rcases hr : m.run c with ⟨e | b, d⟩ <;> rw [hr] at hrun
  · exact hE e d hrun
  · exact hQ b d hrun

theorem run {S : Course σ α n κ → Prop} {m : SearchM σ α n κ β}
    (h : Triple P m (fun _ => S) fun _ => S) {c : Course σ α n κ} (hc : P c) : S (m.run c).2 :=
  h.after hc (fun _ _ hd => hd) fun _ _ hd => hd

theorem pure {b : β} (h : ∀ c, P c → Q b c) : Triple P (pure b) Q E := fun c hc => h c hc

theorem throw {e : Halt α} (h : ∀ c, P c → E e c) :
    Triple P (throw e : SearchM σ α n κ β) Q E := fun c hc => h c hc

theorem ite {p : Prop} [Decidable p] {m m' : SearchM σ α n κ β} (h : p → Triple P m Q E)
    (h' : ¬p → Triple P m' Q E) : Triple P (if p then m else m') Q E := by
  split
  · exact h ‹_›
  · exact h' ‹_›

/-- What the method keeps is read, and the course stays as it is. -/
theorem own {Q : κ → Course σ α n κ → Prop} (h : ∀ c, P c → Q c.own c) :
    Triple P SearchM.own Q E := fun c hc => h c hc

theorem ledger {Q : Ledger α n → Course σ α n κ → Prop} (h : ∀ c, P c → Q c.ledger c) :
    Triple P SearchM.ledger Q E := fun c hc => h c hc

theorem modifyOwn {f : κ → κ} {Q : Unit → Course σ α n κ → Prop}
    (h : ∀ c, P c → Q () { c with own := f c.own }) : Triple P (SearchM.modifyOwn f) Q E :=
  fun c hc => h c hc

theorem setOwn {k : κ} {Q : Unit → Course σ α n κ → Prop}
    (h : ∀ c, P c → Q () { c with own := k }) : Triple P (SearchM.setOwn k) Q E :=
  fun c hc => h c hc

theorem modifyLedger {f : Ledger α n → Ledger α n} {Q : Unit → Course σ α n κ → Prop}
    (h : ∀ c, P c → Q () { c with ledger := f c.ledger }) :
    Triple P (SearchM.modifyLedger f) Q E := fun c hc => h c hc

theorem use {b : Usable α β} (hok : ∀ v, b = .ok v → ∀ c, P c → Q v c)
    (herr : ∀ f, b = .error f → ∀ c, P c → E (.fault f) c) : Triple P (SearchM.use b) Q E := by
  intro c hc
  cases b with
  | ok v => exact hok v rfl c hc
  | error f => exact herr f rfl c hc

/-- A step that starts with what the method keeps, when that is known. -/
theorem own_bind {f : κ → SearchM σ α n κ γ} {k : κ} (hk : ∀ c, P c → c.own = k)
    (h : Triple P (f k) R E) : Triple P (SearchM.own >>= f) R E := by
  intro c hc
  obtain rfl := hk c hc
  exact h c hc

/-- A step that starts with a value that may be unusable. -/
theorem use_bind {b : Usable α β} {f : β → SearchM σ α n κ γ}
    (hok : ∀ v, b = .ok v → Triple P (f v) R E) (herr : ∀ e c, P c → E (.fault e) c) :
    Triple P (SearchM.use b >>= f) R E := by
  cases b with
  | ok v => exact hok v rfl
  | error e => exact fun c hc => herr e c hc

/-- A draw changes nothing but the draws. -/
theorem draw {m : StateM σ β} (h : ∀ b c s, P c → Q b { c with draws := s }) :
    Triple P (SearchM.draw m) Q E := fun c hc => h _ c _ hc

theorem drawOr {φ : β → Prop} {F : Fault α → Prop} {m : ChoiceM σ α β} (hm : Meets φ F m)
    (hok : ∀ b, φ b → ∀ c, P c → ∀ s, Q b { c with draws := s })
    (herr : ∀ f, F f → ∀ c, P c → ∀ s, E (.fault f) { c with draws := s }) :
    Triple P (SearchM.drawOr m) Q E := by
  -- A choice reads the draws only and changes nothing else.
  intro c hc
  have h := hm c.draws
  rw [run_drawOr]
  cases hr : (m.run c.draws).1 with
  | ok b =>
    rw [hr] at h
    exact hok b h c hc _
  | error f =>
    rw [hr] at h
    exact herr f h c hc _

/-- A step that starts with a choice, where the draws do not matter. -/
theorem drawOr_bind {φ : β → Prop} {F : Fault α → Prop} {m : ChoiceM σ α β}
    {f : β → SearchM σ α n κ γ} (hm : Meets φ F m) (hP : ∀ c s, P c → P { c with draws := s })
    (hf : ∀ b, φ b → Triple P (f b) R E)
    (herr : ∀ e, F e → ∀ c s, P c → E (.fault e) { c with draws := s }) :
    Triple P (SearchM.drawOr m >>= f) R E := by
  apply bind (Q := fun b c => φ b ∧ P c)
  · exact drawOr hm (fun b hb c hc s => ⟨hb, hP c s hc⟩) fun e he c hc s => herr e he c s hc
  · exact fun b c hc => hf b hc.1 c hc.2

theorem requireFinite {k : Cost α} {Q : α → Course σ α n κ → Prop}
    (hok : ∀ v, k = .finite v → ∀ c, P c → Q v c)
    (hend : ∀ c, P c → (∀ v, k ≠ .finite v) →
      E .ended { c with ledger := c.ledger.stopNonFinite k }) :
    Triple P (SearchM.requireFinite k) Q E := by
  -- The three kinds of costs that are not finite end the search alike.
  intro c hc
  cases k with
  | finite v => exact hok v rfl c hc
  | posInf => exact hend c hc fun _ h => nomatch h
  | negInf => exact hend c hc fun _ h => nomatch h
  | undefined => exact hend c hc fun _ h => nomatch h

/-- An invariant of a step is an invariant of its repetition. -/
theorem repeatWhile {step : SearchM σ α n κ Bool} (h : Triple P step (fun _ => P) E) (fuel : Nat) :
    Triple P (SearchM.repeatWhile step fuel) (fun _ => P) E := by
  induction fuel with
  | zero => exact .pure fun _ hc => hc
  | succ fuel ih => exact .bind h fun b => .ite (fun _ => ih) fun _ => .pure fun _ hc => hc

variable [Scalar α]

theorem withinBudget {t : Task α n} {Q : Bool → Course σ α n κ → Prop}
    (h : ∀ c, P c → Q (decide (c.ledger.evaluations < t.budget)) c) :
    Triple P (SearchM.withinBudget t) Q E := fun c hc => h c hc

/-- An invariant of a round is an invariant of any number of rounds. -/
theorem roundsWithin {t : Task α n} {round : SearchM σ α n κ Unit}
    (h : Triple P round (fun _ => P) E) (fuel : Nat) :
    Triple P (SearchM.roundsWithin t round fuel) (fun _ => P) E := by
  induction fuel with
  | zero => exact .pure fun _ hc => hc
  | succ fuel ih =>
    have hbudget : Triple P (SearchM.withinBudget t) (fun _ => P) E := withinBudget fun _ hc => hc
    apply hbudget.bind
    intro b
    exact .ite (fun _ => .bind h fun _ => ih) fun _ => .pure fun _ hc => hc

theorem requireBudget {t : Task α n} {Q : Unit → Course σ α n κ → Prop}
    (hok : ∀ c, P c → c.ledger.evaluations < t.budget → Q () c)
    (hend : ∀ c, P c → ¬c.ledger.evaluations < t.budget → E .ended c) :
    Triple P (SearchM.requireBudget t) Q E := by
  intro c hc
  rw [run_requireBudget]
  by_cases h : c.ledger.evaluations < t.budget
  · rw [if_pos h]
    exact hok c hc h
  · rw [if_neg h]
    exact hend c hc h

theorem evaluate {t : Task α n} {x : Point α n} {Q : Cost α → Course σ α n κ → Prop}
    (hcheck : ∀ f, t.region.check x = .error f → ∀ c, P c → E (.fault f) c)
    (hfail : ∀ failure c, P c → t.objective x (c.ledger.calls + 1) = .error failure →
      E (.fault (.failed failure)) { c with ledger := c.ledger.enterFailure x })
    (hok : ∀ k c, P c → t.objective x (c.ledger.calls + 1) = .ok k →
      Q k { c with ledger := c.ledger.enter x k }) :
    Triple P (SearchM.evaluate t x) Q E := by
  intro c hc
  rw [run_evaluate]
  cases hr : (if t.checked then t.region.check x else .ok ()) with
  | error f =>
    have hf : t.region.check x = .error f := by
      by_cases hchecked : t.checked = true
      · rwa [if_pos hchecked] at hr
      · rw [if_neg hchecked] at hr
        exact nomatch hr
    exact hcheck f hf c hc
  | ok u =>
    cases hanswer : t.objective x (c.ledger.calls + 1) with
    | error failure => exact hfail failure c hc hanswer
    | ok k => exact hok k c hc hanswer

theorem trial {t : Task α n} {x : Point α n} {Q : α → Course σ α n κ → Prop}
    (hcheck : ∀ f, t.region.check x = .error f → ∀ c, P c → E (.fault f) c)
    (hfail : ∀ failure c, P c → t.objective x (c.ledger.calls + 1) = .error failure →
      E (.fault (.failed failure)) { c with ledger := c.ledger.enterFailure x })
    (hend : ∀ k c, P c → t.objective x (c.ledger.calls + 1) = .ok k → (∀ v, k ≠ .finite v) →
      E .ended { c with ledger := (c.ledger.enter x k).stopNonFinite k })
    (hok : ∀ v c, P c → t.objective x (c.ledger.calls + 1) = .ok (.finite v) →
      Q v { c with ledger := c.ledger.enter x (.finite v) }) :
    Triple P (SearchM.trial t x) Q E := by
  apply bind (Q := fun k d => ∃ c, P c ∧ t.objective x (c.ledger.calls + 1) = .ok k ∧
    d = { c with ledger := c.ledger.enter x k })
  · exact evaluate hcheck hfail fun k c hc hk => ⟨c, hc, hk, rfl⟩
  · intro k
    apply requireFinite
    · rintro v rfl _ ⟨c, hc, hv, rfl⟩
      exact hok v c hc hv
    · rintro _ ⟨c, hc, hk, rfl⟩ hinfinite
      exact hend k c hc hk hinfinite

end Triple

/-! ## 6. Answers -/

/-- On a course with `P` the step answers with `Q`, unless it halts. -/
abbrev Answers (P : Course σ α n κ → Prop) (m : SearchM σ α n κ β)
    (Q : β → Course σ α n κ → Prop) : Prop :=
  Triple P m Q fun _ _ => True

/-- What a step leaves and what it answers are shown one by one. -/
theorem Triple.and_answers {P P' : Course σ α n κ → Prop} {m : SearchM σ α n κ β}
    {Q Q' : β → Course σ α n κ → Prop} {E : Halt α → Course σ α n κ → Prop} (h : Triple P m Q E)
    (h' : Answers P' m Q') :
    Triple (fun c => P c ∧ P' c) m (fun b c => Q b c ∧ Q' b c) E := by
  intro c hc
  have hrun := h c hc.1
  have hrun' := h' c hc.2
  rcases hr : m.run c with ⟨e | b, d⟩ <;> rw [hr] at hrun hrun'
  · exact hrun
  · exact ⟨hrun, hrun'⟩

namespace Answers

variable {P : Course σ α n κ → Prop} {R : γ → Course σ α n κ → Prop}

/-- A step that starts with a choice. -/
theorem drawOr_bind_of {φ : β → Prop} {m : ChoiceM σ α β} {f : β → SearchM σ α n κ γ}
    (hm : Meets φ (fun _ => True) m) (hP : ∀ c s, P c → P { c with draws := s })
    (hf : ∀ b, φ b → Answers P (f b) R) : Answers P (SearchM.drawOr m >>= f) R :=
  Triple.drawOr_bind hm hP hf fun _ _ _ _ _ => True.intro

/-- A step that starts with a choice of any kind. -/
theorem drawOr_bind {m : ChoiceM σ α β} {f : β → SearchM σ α n κ γ}
    (hP : ∀ c s, P c → P { c with draws := s }) (hf : ∀ b, Answers P (f b) R) :
    Answers P (SearchM.drawOr m >>= f) R :=
  drawOr_bind_of (.attained m) hP fun b _ => hf b

variable [Scalar α] {t : Task α n} {x : Point α n} {Q : α → Course σ α n κ → Prop}

/-- An answer that is not finite goes no further. -/
theorem evaluate (h : ∀ v c, P c → t.objective x (c.ledger.calls + 1) = .ok (.finite v) →
    Q v { c with ledger := c.ledger.enter x (.finite v) }) :
    Answers P (SearchM.evaluate t x) fun k c => ∀ v, k = .finite v → Q v c := by
  apply Triple.evaluate
  · exact fun _ _ _ _ => True.intro
  · exact fun _ _ _ _ => True.intro
  · rintro k c hc hk v rfl
    exact h v c hc hk

omit [Scalar α] in
theorem requireFinite (k : Cost α) :
    Answers (fun c : Course σ α n κ => ∀ v, k = .finite v → Q v c) (SearchM.requireFinite k) Q :=
  Triple.requireFinite (fun v hv _ hc => hc v hv) fun _ _ _ => True.intro

theorem trial (h : ∀ v c, P c → t.objective x (c.ledger.calls + 1) = .ok (.finite v) →
    Q v { c with ledger := c.ledger.enter x (.finite v) }) :
    Answers P (SearchM.trial t x) Q :=
  Triple.bind (evaluate h) requireFinite

/-- A trial whose answer is kept before it is looked at. -/
theorem keep_bind {keep : Cost α → κ → κ} {f : α → SearchM σ α n κ γ}
    (h : ∀ v c, P c → t.objective x (c.ledger.calls + 1) = .ok (.finite v) →
      Q v { c with ledger := c.ledger.enter x (.finite v), own := keep (.finite v) c.own })
    (hf : ∀ v, Answers (Q v) (f v) R) :
    Answers P (do
      let c ← SearchM.evaluate t x
      SearchM.modifyOwn (keep c)
      let v ← SearchM.requireFinite c
      f v) R := by
  apply Triple.bind (evaluate (Q := fun v c => Q v { c with own := keep (.finite v) c.own }) h)
  intro k
  apply Triple.bind (Q := fun _ c => ∀ v, k = .finite v → Q v c)
  · apply Triple.modifyOwn
    rintro c hc v rfl
    exact hc v rfl
  · intro _
    exact Triple.bind (requireFinite k) hf

end Answers

/-! ## 7. Invariants -/

/-- However the step ends, `I` holds of the course afterwards if it holds before. -/
def Keeps (I : Course σ α n κ → Prop) (m : SearchM σ α n κ β) : Prop :=
  Triple I m (fun _ => I) fun _ => I

namespace Keeps

variable {I : Course σ α n κ → Prop}

theorem of_run {m : SearchM σ α n κ β} (h : ∀ c, I c → I (m.run c).2) : Keeps I m := by
  intro c hc
  have hrun := h c hc
  rcases hr : m.run c with ⟨e | b, d⟩ <;> rw [hr] at hrun
  · exact hrun
  · exact hrun

theorem run {m : SearchM σ α n κ β} (h : Keeps I m) {c : Course σ α n κ} (hc : I c) :
    I (m.run c).2 := Triple.run h hc

theorem bind {m : SearchM σ α n κ β} {f : β → SearchM σ α n κ γ} (hm : Keeps I m)
    (hf : ∀ b, Keeps I (f b)) : Keeps I (m >>= f) := Triple.bind hm hf

theorem pure {b : β} : Keeps I (pure b : SearchM σ α n κ β) := Triple.pure fun _ hc => hc

theorem throw {e : Halt α} : Keeps I (throw e : SearchM σ α n κ β) := Triple.throw fun _ hc => hc

theorem ite {p : Prop} [Decidable p] {m m' : SearchM σ α n κ β} (h : Keeps I m)
    (h' : Keeps I m') : Keeps I (if p then m else m') :=
  Triple.ite (fun _ => h) fun _ => h'

theorem repeatWhile {step : SearchM σ α n κ Bool} (h : Keeps I step) (fuel : Nat) :
    Keeps I (SearchM.repeatWhile step fuel) := Triple.repeatWhile h fuel

theorem own : Keeps I SearchM.own := Triple.own fun _ hc => hc

theorem ledger : Keeps I SearchM.ledger := Triple.ledger fun _ hc => hc

theorem modifyOwn {f : κ → κ} (h : ∀ c, I c → I { c with own := f c.own }) :
    Keeps I (SearchM.modifyOwn f) := Triple.modifyOwn h

theorem modifyLedger {f : Ledger α n → Ledger α n}
    (h : ∀ c, I c → I { c with ledger := f c.ledger }) : Keeps I (SearchM.modifyLedger f) :=
  Triple.modifyLedger h

theorem use {b : Usable α β} : Keeps I (SearchM.use b) :=
  Triple.use (fun _ _ _ hc => hc) fun _ _ _ hc => hc

theorem requireFinite {k : Cost α}
    (h : ∀ c, I c → I { c with ledger := c.ledger.stopNonFinite k }) :
    Keeps I (SearchM.requireFinite k) := Triple.requireFinite (fun _ _ _ hc => hc) fun c hc _ => h c hc

theorem require {b : Bool} {f : Fault α} : Keeps I (SearchM.require b f) := ite pure throw

variable [Scalar α]

theorem withinBudget {t : Task α n} : Keeps I (SearchM.withinBudget t) :=
  Triple.withinBudget fun _ hc => hc

theorem roundsWithin {t : Task α n} {round : SearchM σ α n κ Unit} (h : Keeps I round)
    (fuel : Nat) : Keeps I (SearchM.roundsWithin t round fuel) :=
  Triple.roundsWithin h fuel

theorem evaluate {t : Task α n} {x : Point α n}
    (hfail : ∀ c, I c → I { c with ledger := c.ledger.enterFailure x })
    (hok : ∀ c k, I c → I { c with ledger := c.ledger.enter x k }) :
    Keeps I (SearchM.evaluate t x) :=
  Triple.evaluate (fun _ _ _ hc => hc) (fun _ c hc _ => hfail c hc) fun k c hc _ => hok c k hc

end Keeps

end SearchM

/-! ## 8. Whole runs -/

namespace Course

variable {σ α κ : Type} [Scalar α] {n : Nat} {t : Task α n} {body : SearchM σ α n κ Unit}

/-- A run enters its start, does what it consists of, and enters its end unless there is a fault. -/
theorem solve_of_notStarted {c : Course σ α n κ} (h : c.ledger.phase = .notStarted) :
    c.solve t body = match body.run { c with ledger := c.ledger.start n t.budget } with
      | (.ok _, d) => (.ok (), d.close)
      | (.error .ended, d) => (.ok (), d.close)
      | (.error (.fault f), d) => (.error f, d) := by
  unfold solve carry
  rw [h]
  rcases body.run { c with ledger := c.ledger.start n t.budget } with ⟨(_ | _) | _, _⟩ <;> rfl

/-- A run returns where what it consists of is done or ends it, and raises the fault that this meets. -/
theorem solve_cases {c : Course σ α n κ} {Q : Unit → Course σ α n κ → Prop}
    {E : Halt α → Course σ α n κ → Prop} (hphase : c.ledger.phase = .notStarted)
    (h : SearchM.Outcome Q E (body.run { c with ledger := c.ledger.start n t.budget })) :
    (∃ d, Q () d ∧ c.solve t body = (.ok (), d.close)) ∨
      (∃ d, E .ended d ∧ c.solve t body = (.ok (), d.close)) ∨
      ∃ f d, E (.fault f) d ∧ c.solve t body = (.error f, d) := by
  rw [solve_of_notStarted hphase]
  rcases hr : body.run { c with ledger := c.ledger.start n t.budget } with ⟨(_ | f) | _, d⟩ <;>
    rw [hr] at h
  · exact .inr (.inl ⟨d, h, rfl⟩)
  · exact .inr (.inr ⟨f, d, h, rfl⟩)
  · exact .inl ⟨d, h, rfl⟩

/-- A run raises no fault but those that it meets in what it consists of. -/
theorem exists_of_solve_eq_error {c : Course σ α n κ} {Q : Unit → Course σ α n κ → Prop}
    {E : Halt α → Course σ α n κ → Prop} (hphase : c.ledger.phase = .notStarted)
    (h : SearchM.Outcome Q E (body.run { c with ledger := c.ledger.start n t.budget })) {f : Fault α}
    (hf : (c.solve t body).1 = .error f) : ∃ d, E (.fault f) d := by
  obtain ⟨d, -, hsolve⟩ | ⟨d, -, hsolve⟩ | ⟨g, d, hg, hsolve⟩ := solve_cases hphase h <;>
    rw [hsolve] at hf
  · exact nomatch hf
  · exact nomatch hf
  · exact ⟨d, Except.error.inj hf ▸ hg⟩

/-- What holds after the body of a run, and still after the end of a run, holds after the run. -/
theorem solve_keeps {c : Course σ α n κ} {I : Course σ α n κ → Prop}
    (hphase : c.ledger.phase = .notStarted)
    (h : I (body.run { c with ledger := c.ledger.start n t.budget }).2)
    (hclose : ∀ d, I d → I d.close) : I (c.solve t body).2 := by
  rw [solve_of_notStarted hphase]
  rcases hr : body.run { c with ledger := c.ledger.start n t.budget } with ⟨(_ | f) | _, d⟩ <;>
    rw [hr] at h
  · exact hclose d h
  · exact h
  · exact hclose d h

theorem solve_of_started {c : Course σ α n κ} (h : c.ledger.phase ≠ .notStarted) :
    c.solve t body = (.error .alreadySolved, c) := by
  unfold solve
  cases hphase : c.ledger.phase with
  | notStarted => exact absurd hphase h
  | _ => rfl

end Course

end BoxSearch
