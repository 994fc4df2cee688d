import Mathlib
import BoxSearch.Proofs.Counts.Methods
import BoxSearch.Proofs.Faultless.Choices
import BoxSearch.Proofs.Synchrony.Generations

/-!
# What particles remember

The particles of a swarm are evaluated in turn, so the visits of a particle are every `m`-th answer of
a swarm of `m` particles.  A particle that was refreshed remembers the first of its positions that
attained its least cost; one that was moved and not refreshed yet remembers this of its visits before
the last one.
-/

namespace BoxSearch

open Account SearchM

/-! ## 1. Visits -/

namespace Swarm

variable {P α : Type} {m j : ℕ}

/-- Of answers that are numbered from `start` on, those of the particle at place `j` of `m`. -/
def visitsFrom (m j start : ℕ) (answers : List (P × Cost α)) : List (P × Cost α) :=
  ((answers.zipIdx start).filter fun a => a.2 % m = j).map (·.1)

/-- The answers for the positions of the particle at place `j` of `m`, in order. -/
def visits (m j : ℕ) (answers : List (P × Cost α)) : List (P × Cost α) := visitsFrom m j 0 answers

theorem visitsFrom_append (start : ℕ) (before after : List (P × Cost α)) :
    visitsFrom m j start (before ++ after) =
      visitsFrom m j start before ++ visitsFrom m j (start + before.length) after := by
  simp [visitsFrom, List.zipIdx_append]

theorem visitsFrom_cons_self {start : ℕ} (hstart : start % m = j) (a : P × Cost α)
    (after : List (P × Cost α)) :
    visitsFrom m j start (a :: after) = a :: visitsFrom m j (start + 1) after := by
  simp [visitsFrom, hstart]

theorem visits_concat (answers : List (P × Cost α)) (a : P × Cost α) :
    visits m j (answers ++ [a]) =
      if answers.length % m = j then visits m j answers ++ [a] else visits m j answers := by
  unfold visits
  rw [visitsFrom_append]
  by_cases h : answers.length % m = j <;> simp [visitsFrom, h]

theorem mem_of_mem_visitsFrom {start : ℕ} {answers : List (P × Cost α)} {a : P × Cost α}
    (h : a ∈ visitsFrom m j start answers) : a ∈ answers := by
  obtain ⟨b, hb, rfl⟩ := List.mem_map.mp h
  exact List.fst_mem_of_mem_zipIdx (List.mem_filter.mp hb).1

theorem mem_of_mem_visits {answers : List (P × Cost α)} {a : P × Cost α}
    (h : a ∈ visits m j answers) : a ∈ answers :=
  mem_of_mem_visitsFrom h

/-- Before the second round every particle has one visit. -/
theorem visits_of_length_le {answers : List (P × Cost α)} (h : answers.length ≤ m) (hj : j < m) :
    visits m j answers = answers[j]?.toList := by
  induction answers using List.reverseRecOn with
  | nil => rfl
  | append_singleton answers a ih =>
    rw [List.length_append, List.length_singleton] at h
    rw [visits_concat, ih (by omega), Nat.mod_eq_of_lt (by omega : answers.length < m)]
    by_cases hlast : answers.length = j
    · subst hlast
      simp
    · rw [if_neg hlast]
      by_cases hlt : j < answers.length
      · rw [List.getElem?_append_left hlt]
      · rw [List.getElem?_eq_none (by omega), List.getElem?_eq_none (by simp; omega)]

variable [Scalar α]

/-- The best of all answers is the best of the visits of some particle. -/
theorem exists_isBest_visits (hm : 0 < m) {answers : List (P × Cost α)} {b : Best α P}
    (h : IsBest answers (some b)) : ∃ j < m, IsBest (visits m j answers) (some b) := by
  obtain ⟨before, after, rfl, hbefore, hafter⟩ := h
  refine ⟨before.length % m, Nat.mod_lt _ hm, visitsFrom m (before.length % m) 0 before,
    visitsFrom m (before.length % m) (0 + before.length + 1) after, ?_, ?_, ?_⟩
  · unfold visits
    rw [visitsFrom_append, visitsFrom_cons_self (by rw [Nat.zero_add])]
  · exact fun a ha => hbefore a (mem_of_mem_visitsFrom ha)
  · exact fun a ha => hafter a (mem_of_mem_visitsFrom ha)

/-! ## 2. A particle -/

variable {n : ℕ} {answers : List (Point α n × Cost α)} {q : Particle α n}

/-- The particle was evaluated last where it is, and remembers the best of its visits. -/
structure Kept (m : ℕ) (answers : List (Point α n × Cost α)) (j : ℕ) (q : Particle α n) :
    Prop where
  last : (visits m j answers).getLast? = some (q.point, q.cost)
  finite : q.cost.IsFinite
  best : ∃ v, q.bestCost = .finite v ∧ IsBest (visits m j answers) (some ⟨q.bestPoint, v⟩)

/-- The particle was moved, and remembers the best of its visits before that. -/
structure Pending (m : ℕ) (answers : List (Point α n × Cost α)) (j : ℕ) (q : Particle α n) :
    Prop where
  finite : q.cost.IsFinite
  best : ∃ earlier v, visits m j answers = earlier ++ [(q.point, q.cost)] ∧
    q.bestCost = .finite v ∧ IsBest earlier (some ⟨q.bestPoint, v⟩)

theorem Kept.moved (h : Kept m answers j q) (hj : answers.length % m = j) (velocity x : Point α n)
    (v : α) :
    Pending m (answers ++ [(x, .finite v)]) j (q.moved velocity x (.finite v)) := by
  obtain ⟨w, hw, hbest⟩ := h.best
  refine ⟨⟨v, rfl⟩, visits m j answers, w, ?_, hw, hbest⟩
  rw [visits_concat, if_pos hj]
  rfl

/-- The visits of a particle are the same when another one is moved. -/
theorem Kept.other (h : Kept m answers j q) (hj : answers.length % m ≠ j)
    (a : Point α n × Cost α) : Kept m (answers ++ [a]) j q := by
  have hsame : visits m j (answers ++ [a]) = visits m j answers := by
    rw [visits_concat, if_neg hj]
  exact ⟨hsame ▸ h.last, h.finite, hsame ▸ h.best⟩

theorem Pending.other (h : Pending m answers j q) (hj : answers.length % m ≠ j)
    (a : Point α n × Cost α) : Pending m (answers ++ [a]) j q := by
  have hsame : visits m j (answers ++ [a]) = visits m j answers := by
    rw [visits_concat, if_neg hj]
  exact ⟨h.finite, hsame ▸ h.best⟩

/-- Where a particle started it is best, and was evaluated once. -/
theorem kept_starting {answers : List (Point α n × Cost α)} (h : answers.length ≤ m) (hj : j < m)
    {x : Point α n} {v : α} (hx : answers[j]? = some (x, .finite v)) (velocity : Point α n) :
    Kept m answers j (.starting x (.finite v) velocity) := by
  have hone : visits m j answers = [(x, .finite v)] := by
    rw [visits_of_length_le h hj, hx]
    rfl
  refine ⟨?_, ⟨v, rfl⟩, v, rfl, ?_⟩
  · rw [hone]
    rfl
  · rw [hone]
    exact ⟨[], [], rfl, List.forall_mem_nil _, List.forall_mem_nil _⟩

variable [Scalar.Ordered α]

/-- A refreshed particle remembers its last visit if that was strictly cheaper. -/
theorem Pending.refresh (hproper : ∀ a ∈ answers, a.2.IsProper) (h : Pending m answers j q) :
    Kept m answers j q.refresh := by
  obtain ⟨w, hw⟩ := h.finite
  obtain ⟨earlier, v, hvisits, hv, hbest⟩ := h.best
  have hearlier : ∀ a ∈ earlier, a.2.IsProper := by
    intro a ha
    apply hproper a
    apply mem_of_mem_visits (m := m) (j := j)
    rw [hvisits]
    exact List.mem_append_left _ ha
  have hnew := hbest.improve hearlier q.point q.cost
  rw [← hvisits, hw] at hnew
  have hlast : (visits m j answers).getLast? = some (q.point, q.cost) := by
    rw [hvisits, List.getLast?_append_of_ne_nil _ (List.cons_ne_nil _ _)]
    rfl
  have hbelow : q.cost.below q.bestCost = decide (w < v) := by
    rw [hw, hv]
    rfl
  unfold Particle.refresh
  by_cases hlt : w < v
  · rw [if_pos (by rw [hbelow]; exact decide_eq_true hlt)]
    refine ⟨hlast, h.finite, w, hw, ?_⟩
    simpa [Account.improve, hlt] using hnew
  · rw [if_neg (by rw [hbelow]; simpa using hlt)]
    refine ⟨hlast, h.finite, v, hv, ?_⟩
    simpa [Account.improve, hlt] using hnew

theorem Kept.not_below (h : Kept m answers j q) : q.cost.below q.bestCost = false := by
  obtain ⟨w, hw⟩ := h.finite
  obtain ⟨v, hv, hbest⟩ := h.best
  have hmem : (q.point, q.cost) ∈ visits m j answers := List.mem_of_getLast? h.last
  rw [hw, hv]
  exact decide_eq_false (hbest.not_lt hmem hw)

/-- Refreshing a particle that was not moved changes nothing. -/
theorem Kept.refresh (h : Kept m answers j q) : q.refresh = q := by
  unfold Particle.refresh
  rw [h.not_below]
  rfl

/-! ## 3. A sweep -/

variable {σ : Type} {t : Task α n} {p : Params α} {L : Ledger α n} {swarm : List (Particle α n)}

omit [Scalar.Ordered α] in
/-- There were `k` evaluations, and the particles at some places are due to be refreshed. -/
structure Swarming (t : Task α n) (p : Params α) (due : ℕ → Prop) (k : ℕ) (L : Ledger α n)
    (swarm : List (Particle α n)) : Prop where
  balanced : L.Balanced t.objective
  evaluations : L.answers.length = k
  length : swarm.length = p.size
  pending : ∀ j q, swarm[j]? = some q → due j → Pending p.size L.answers j q
  kept : ∀ j q, swarm[j]? = some q → ¬due j → Kept p.size L.answers j q

namespace Swarming

variable {due : ℕ → Prop} {i k : ℕ}

omit [Scalar.Ordered α] in
theorem congr {due' : ℕ → Prop} (h : Swarming t p due k L swarm) (hdue : ∀ j, due' j ↔ due j) :
    Swarming t p due' k L swarm := by
  have hsame : due' = due := funext fun j => propext (hdue j)
  rw [hsame]
  exact h

omit [Scalar.Ordered α] in
theorem isProper (hf : t.objective.IsProper) (h : Swarming t p due k L swarm) :
    ∀ a ∈ L.answers, a.2.IsProper :=
  fun _ ha => h.balanced.isProper_of_mem hf ha

omit [Scalar.Ordered α] in
theorem aside (h : Swarming t p due k L swarm) (rounds : ℕ) (phase : Phase α)
    (events : List (Event α)) : Swarming t p due k (L.aside rounds phase events) swarm :=
  ⟨h.balanced.aside _ _ _, h.evaluations, h.length, h.pending, h.kept⟩

/-- The particle whose turn it is is moved. -/
theorem moved (hf : t.objective.IsProper) (h : Swarming t p due k L swarm)
    (hi : k % p.size = i) (hnot : ¬due i) {q : Particle α n} (hq : swarm[i]? = some q)
    (velocity : Point α n) {x : Point α n} {v : α}
    (hx : t.objective x (L.calls + 1) = .ok (.finite v)) :
    Swarming t p (fun j => due j ∨ j = i) (k + 1) (L.enter x (.finite v))
      (swarm.set i (q.moved velocity x (.finite v))) := by
  have hturn : L.answers.length % p.size = i := by rw [h.evaluations, hi]
  have hlt : i < swarm.length := (List.getElem?_eq_some_iff.mp hq).1
  have hanswers : (L.enter x (.finite v)).answers = L.answers ++ [(x, .finite v)] :=
    answers_enter L x _
  constructor
  · exact h.balanced.enter hf hx
  · rw [hanswers, List.length_append, h.evaluations]
    rfl
  · rw [List.length_set, h.length]
  · intro j q' hq' hdue
    rw [hanswers]
    by_cases hj : j = i
    · subst hj
      rw [List.getElem?_set_self hlt] at hq'
      rw [← Option.some.inj hq']
      exact (h.kept j q hq hnot).moved hturn velocity x v
    · rw [List.getElem?_set_ne (Ne.symm hj)] at hq'
      exact (h.pending j q' hq' (hdue.resolve_right hj)).other (by omega) _
  · intro j q' hq' hkept
    have hj : j ≠ i := fun hj => hkept (.inr hj)
    rw [hanswers]
    rw [List.getElem?_set_ne (Ne.symm hj)] at hq'
    exact (h.kept j q' hq' fun hdue => hkept (.inl hdue)).other (by omega) _

/-- The particle that was moved is refreshed. -/
theorem refreshed (hf : t.objective.IsProper)
    (h : Swarming t p (fun j => due j ∨ j = i) k L swarm) (hnot : ¬due i) :
    Swarming t p due k L (swarm.modify i Particle.refresh) := by
  constructor
  · exact h.balanced
  · exact h.evaluations
  · rw [List.length_modify, h.length]
  · intro j q hq hdue
    have hj : j ≠ i := fun hj => hnot (hj ▸ hdue)
    rw [List.getElem?_modify_ne _ _ (Ne.symm hj)] at hq
    exact h.pending j q hq (.inl hdue)
  · intro j q hq hkept
    by_cases hj : j = i
    · subst hj
      rw [List.getElem?_modify_eq] at hq
      obtain ⟨q', hq', rfl⟩ := Option.map_eq_some_iff.mp hq
      exact (h.pending j q' hq' (.inr rfl)).refresh (h.isProper hf)
    · rw [List.getElem?_modify_ne _ _ (Ne.symm hj)] at hq
      exact h.kept j q hq (by simp [hkept, hj])

/-- All particles are refreshed. -/
theorem allRefreshed (hf : t.objective.IsProper) (h : Swarming t p due k L swarm) :
    Swarming t p (fun _ => False) k L (swarm.map Particle.refresh) := by
  constructor
  · exact h.balanced
  · exact h.evaluations
  · rw [List.length_map, h.length]
  · exact fun _ _ _ hfalse => hfalse.elim
  · intro j q hq _
    rw [List.getElem?_map] at hq
    obtain ⟨q', hq', rfl⟩ := Option.map_eq_some_iff.mp hq
    by_cases hdue : due j
    · exact (h.pending j q' hq' hdue).refresh (h.isProper hf)
    · have hkept := h.kept j q' hq' hdue
      rw [hkept.refresh]
      exact hkept

end Swarming

/-- After the first `i` moves of a sweep, the moved particles are due to be refreshed unless they are
refreshed at once. -/
def SweptTo (t : Task α n) (p : Params α) (i : ℕ) (c : Course σ α n (State α n)) : Prop :=
  Swarming t p (fun j => p.refresh = .afterSweep ∧ j < i) ((c.ledger.rounds + 1) * p.size + i)
    c.ledger c.own.particles

omit [Scalar.Ordered α] in
theorem sweptTo_zero {c : Course σ α n (State α n)}
    (h : Swarming t p (fun _ => False) ((c.ledger.rounds + 1) * p.size) c.ledger c.own.particles) :
    SweptTo t p 0 c :=
  h.congr fun j => by simp

variable [DrawSource σ α] {i : ℕ}

theorem moveParticle_sweptTo (hf : t.objective.IsProper) (hi : i < p.size) {q : Particle α n}
    (hq : swarm[i]? = some q) (target : Point α n) :
    Answers (fun c => c.own.particles = swarm ∧ SweptTo t p i c)
      (moveParticle t p swarm i q target : SearchM σ α n (State α n) Unit)
      fun _ => SweptTo t p (i + 1) := by
  have hturn (r : ℕ) : ((r + 1) * p.size + i) % p.size = i := by
    rw [Nat.add_comm, Nat.add_mul_mod_self_right, Nat.mod_eq_of_lt hi]
  apply Triple.use_bind _ fun _ _ _ => trivial
  intro s _
  apply Answers.drawOr_bind fun _ _ hc => hc
  intro move
  apply Answers.keep_bind (Q := fun _ c => Swarming t p
    (fun j => (p.refresh = .afterSweep ∧ j < i) ∨ j = i)
    ((c.ledger.rounds + 1) * p.size + i + 1) c.ledger c.own.particles)
  · intro v c hc hx
    exact hc.2.moved hf (hturn _) (fun hdue => absurd hdue.2 (lt_irrefl i)) (hc.1.symm ▸ hq) move.1 hx
  · intro v
    apply Triple.ite
    · intro hmode
      apply Triple.modifyOwn
      intro c hc
      apply (hc.refreshed hf fun hdue => absurd hdue.2 (lt_irrefl i)).congr
      simp [hmode]
    · intro hmode
      apply Triple.pure
      intro c hc
      have hsweep : p.refresh = .afterSweep := by
        cases hrefresh : p.refresh with
        | afterSweep => rfl
        | afterMove => exact absurd hrefresh hmode
      apply hc.congr
      intro j
      simp only [hsweep, true_and]
      omega

theorem advance_sweptTo (hf : t.objective.IsProper) (hi : i < p.size) (best : Option (Point α n)) :
    Answers (SweptTo t p i) (advance t p best i : SearchM σ α n (State α n) Unit)
      fun _ => SweptTo t p (i + 1) := by
  apply Triple.bind (Q := fun _ => SweptTo t p i)
    (.requireBudget (fun _ hc _ => hc) fun _ _ _ => trivial)
  intro _
  apply Triple.bind (Q := fun s c => c.own.particles = s.particles ∧ SweptTo t p i c)
    (.own fun _ hc => ⟨rfl, hc⟩)
  intro s
  dsimp only
  cases hq : s.particles[i]? with
  | none => exact .throw fun _ _ => trivial
  | some q =>
    cases best with
    | some target => exact moveParticle_sweptTo hf hi hq target
    | none =>
      apply Triple.bind (Q := fun _ c => c.own.particles = s.particles ∧ SweptTo t p i c)
      · exact .bind (.ledger fun _ hc => hc) fun _ => .pure fun _ hc => hc
      · exact fun target => moveParticle_sweptTo hf hi hq target

theorem advanceAll_sweptTo (hf : t.objective.IsProper) (best : Option (Point α n)) (m : ℕ)
    (hm : i + m ≤ p.size) :
    Answers (SweptTo t p i)
      (advanceAll t p best (List.range' i m) : SearchM σ α n (State α n) Unit)
      fun _ => SweptTo t p (i + m) := by
  induction m generalizing i with
  | zero => exact .pure fun _ hc => hc
  | succ m ih =>
    rw [List.range'_succ, Nat.add_comm m 1, ← Nat.add_assoc]
    apply (advance_sweptTo hf (by omega) best).bind
    intro _
    exact ih (by omega)

omit [Scalar.Ordered α] in
theorem advanceAll_append (best : Option (Point α n)) (places others : List ℕ) :
    (advanceAll t p best (places ++ others) : SearchM σ α n (State α n) Unit) =
      advanceAll t p best places >>= fun _ => advanceAll t p best others := by
  induction places with
  | nil => simp [advanceAll]
  | cons i rest ih => simp [advanceAll, ih]

omit [Scalar.Ordered α] in
/-- A sweep of a swarm that refreshes after every move is one move after the other. -/
theorem run_sweep_afterMove (hp : p.refresh = .afterMove) (c : Course σ α n (State α n)) :
    (sweep t p).run c =
      (advanceAll t p none (List.range c.own.particles.length) >>= fun _ => SearchM.endRound).run
        c := by
  unfold sweep
  rw [hp]
  rfl

/-- A completed sweep leaves no particle that is due to be refreshed. -/
theorem sweep_sweptTo (hf : t.objective.IsProper) :
    Answers (SweptTo t p 0) (sweep t p : SearchM σ α n (State α n) Unit)
      fun _ => SweptTo t p 0 := by
  have hround : Answers
      (fun c => Swarming t p (fun _ => False) ((c.ledger.rounds + 1) * p.size + p.size) c.ledger
        c.own.particles)
      (SearchM.endRound : SearchM σ α n (State α n) Unit) fun _ => SweptTo t p 0 := by
    apply Triple.modifyLedger
    intro c hc
    apply sweptTo_zero
    show Swarming t p (fun _ => False) ((c.ledger.rounds + 1 + 1) * p.size) _ _
    rw [Nat.succ_mul (c.ledger.rounds + 1)]
    exact hc.aside (c.ledger.rounds + 1) c.ledger.phase c.ledger.events
  have hmoves (best : Option (Point α n)) : Answers (SweptTo t p 0)
      (advanceAll t p best (List.range p.size) : SearchM σ α n (State α n) Unit)
      fun _ => SweptTo t p p.size := by
    have hall := advanceAll_sweptTo (σ := σ) (p := p) (i := 0) hf best p.size (Nat.zero_add _).le
    rw [← List.range_eq_range', Nat.zero_add] at hall
    exact hall
  intro c hc
  cases hmode : p.refresh with
  | afterSweep =>
    rw [run_sweep hmode, hc.length]
    apply (hmoves _).bind _ c hc
    intro _
    apply Triple.bind (Q := fun _ c => Swarming t p (fun _ => False)
      ((c.ledger.rounds + 1) * p.size + p.size) c.ledger c.own.particles)
    · exact .modifyOwn fun _ hd => hd.allRefreshed hf
    · exact fun _ => hround
  | afterMove =>
    rw [run_sweep_afterMove hmode, hc.length]
    apply (hmoves _).bind _ c hc
    exact fun _ d hd => hround d (Swarming.congr hd fun j => by simp [hmode])

/-! ## 4. The start -/

/-- The first positions up to some were evaluated, and their costs are kept. -/
structure Launching (t : Task α n) (done : List (Point α n)) (c : Course σ α n (State α n)) :
    Prop where
  balanced : c.ledger.Balanced t.objective
  rounds : c.ledger.rounds = 0
  length : c.own.costs.length = done.length
  answers : c.ledger.answers = done.zip c.own.costs
  finite : ∀ cost ∈ c.own.costs, cost.IsFinite

omit [DrawSource σ α] in
theorem evaluateAll_launching (hf : t.objective.IsProper) (done points : List (Point α n)) :
    Answers (Launching t done)
      (Population.evaluateAll t (fun s own => { own with costs := own.costs ++ [s.cost] }) points :
        SearchM σ α n (State α n) Unit)
      fun _ => Launching t (done ++ points) := by
  induction points generalizing done with
  | nil => exact .pure fun _ hc => by rwa [List.append_nil]
  | cons x rest ih =>
    apply Triple.bind (Q := fun _ => Launching t done)
      (.requireBudget (fun _ hc _ => hc) fun _ _ _ => trivial)
    intro _
    apply Answers.keep_bind (Q := fun _ => Launching t (done ++ [x]))
    · intro v c hc hx
      refine ⟨hc.balanced.enter hf hx, hc.rounds, ?_, ?_, ?_⟩
      · rw [List.length_append, List.length_append, hc.length]
        rfl
      · show (c.ledger.enter x (.finite v)).answers = _
        rw [answers_enter, hc.answers, List.zip_append hc.length.symm]
        rfl
      · intro cost hcost
        rcases List.mem_append.mp hcost with hcost | hcost
        · exact hc.finite cost hcost
        · rw [List.mem_singleton.mp hcost]
          exact ⟨v, rfl⟩
    · intro v
      rw [List.append_cons done x rest]
      exact ih (done ++ [x])

omit [DrawSource σ α] [Scalar.Ordered α] in
/-- The particles start where they were evaluated. -/
theorem Launching.swarming {points velocities : List (Point α n)} {c : Course σ α n (State α n)}
    (h : Launching t points c) (hpoints : points.length = p.size)
    (hvelocities : velocities.length = points.length) :
    Swarming t p (fun _ => False) p.size c.ledger
      (List.zipWith (fun (x, cost) v => Particle.starting x cost v) (points.zip c.own.costs)
        velocities) := by
  have hlength : c.ledger.answers.length = p.size := by
    rw [h.answers, List.length_zip, h.length, hpoints, Nat.min_self]
  constructor
  · exact h.balanced
  · exact hlength
  · rw [← h.answers, List.length_zipWith, hlength, hvelocities, hpoints, Nat.min_self]
  · exact fun _ _ _ hfalse => hfalse.elim
  · intro j q hq _
    rw [← h.answers] at hq
    obtain ⟨⟨x, cost⟩, velocity, hx, -, rfl⟩ := List.getElem?_zipWith_eq_some.mp hq
    have hcost : cost ∈ c.own.costs := by
      have hpair : (x, cost) ∈ points.zip c.own.costs := by
        rw [← h.answers]
        exact List.mem_of_getElem? hx
      exact (List.of_mem_zip hpair).2
    obtain ⟨v, rfl⟩ := h.finite cost hcost
    have hj : j < p.size := hlength ▸ (List.getElem?_eq_some_iff.mp hx).1
    exact kept_starting hlength.le hj hx velocity

theorem launch_sweptTo (hf : t.objective.IsProper) :
    Answers (fun c => c.ledger.Balanced t.objective ∧ c.ledger.rounds = 0 ∧ c.ledger.trace = [])
      (launch t p : SearchM σ α n (State α n) Unit) fun _ => SweptTo t p 0 := by
  apply Answers.drawOr_bind_of (Population.length_points t p.size p.sampling p.spread)
    fun _ _ hc => hc
  intro points hpoints
  apply Triple.bind (Q := fun _ => Launching t [])
  · apply Triple.setOwn
    intro c hc
    refine ⟨hc.1, hc.2.1, rfl, ?_, List.forall_mem_nil _⟩
    unfold answers
    rw [hc.2.2]
    rfl
  · intro _
    apply (evaluateAll_launching hf [] points).bind
    intro _
    apply Triple.bind (Q := fun s c => c.own = s ∧ Launching t points c) (.own fun _ hc => ⟨rfl, hc⟩)
    intro s
    apply Answers.drawOr_bind_of (length_launchVelocities t p points.length)
      fun _ _ hc => ⟨hc.1, hc.2.balanced, hc.2.rounds, hc.2.length, hc.2.answers, hc.2.finite⟩
    intro velocities hvelocities
    apply Triple.bind (Q := fun _ => SweptTo t p 0)
    · apply Triple.modifyOwn
      rintro c ⟨rfl, hc⟩
      apply sweptTo_zero
      show Swarming t p _ ((c.ledger.rounds + 1) * p.size) _ _
      rw [hc.rounds, Nat.zero_add, Nat.one_mul]
      exact hc.swarming hpoints hvelocities
    · exact fun _ => .modifyLedger fun c hc => hc.aside c.ledger.rounds c.ledger.phase _

/-! ## 5. What is remembered -/

/-- Every particle remembers the first of its positions that attained the least of the costs it was
given, and the best of these is the best point of the search.  The first `i` particles were moved since
the last sweep. -/
structure Remembers (p : Params α) (i : ℕ) (L : Ledger α n) (swarm : List (Particle α n)) : Prop where
  length : swarm.length = p.size
  evaluations : L.answers.length = (L.rounds + 1) * p.size + i
  last : ∀ j q, swarm[j]? = some q →
    (visits p.size j L.answers).getLast? = some (q.point, q.cost)
  best : ∀ j q, swarm[j]? = some q → ∃ v, q.bestCost = .finite v ∧
    IsBest (visits p.size j L.answers) (some ⟨q.bestPoint, v⟩)
  notAbove : ∀ q ∈ swarm, q.cost.below q.bestCost = false
  whole : ∃ b, L.best = some b ∧ IsBest L.answers (some b) ∧
    (∃ q ∈ swarm, q.bestPoint = b.point ∧ q.bestCost = .finite b.cost) ∧
    ∀ q ∈ swarm, ∀ v, q.bestCost = .finite v → ¬v < b.cost

omit [DrawSource σ α] in
theorem Swarming.remembers (hsize : 0 < p.size)
    (h : Swarming t p (fun _ => False) ((L.rounds + 1) * p.size + i) L swarm) :
    Remembers p i L swarm := by
  have hkept (j : ℕ) (q : Particle α n) (hq : swarm[j]? = some q) : Kept p.size L.answers j q :=
    h.kept j q hq not_false
  have hmember (q : Particle α n) (hq : q ∈ swarm) : ∃ (j : ℕ) (v : α), swarm[j]? = some q ∧
      q.bestCost = .finite v ∧ (q.bestPoint, .finite v) ∈ L.answers := by
    obtain ⟨j, hj⟩ := List.getElem?_of_mem hq
    obtain ⟨v, hv, hbest⟩ := (hkept j q hj).best
    exact ⟨j, v, hj, hv, mem_of_mem_visits hbest.mem⟩
  refine ⟨h.length, h.evaluations, fun j q hq => (hkept j q hq).last,
    fun j q hq => (hkept j q hq).best, ?_, ?_⟩
  · intro q hq
    obtain ⟨j, -, hj, -⟩ := hmember q hq
    exact (hkept j q hj).not_below
  · have hbest := h.balanced.best
    obtain ⟨q, hq⟩ := List.exists_mem_of_length_pos (h.length.symm ▸ hsize)
    obtain ⟨-, v, -, -, hanswer⟩ := hmember q hq
    obtain ⟨b, hb⟩ := Option.isSome_iff_exists.mp (hbest.isSome_iff.mpr ⟨_, hanswer, v, rfl⟩)
    rw [hb] at hbest
    refine ⟨b, hb, hbest, ?_, ?_⟩
    · -- The best answer was given to some particle, which remembers the best of its visits.
      obtain ⟨j, hj, hvisits⟩ := exists_isBest_visits hsize hbest
      have hlt : j < swarm.length := by rw [h.length]; exact hj
      obtain ⟨w, hw, hown⟩ := (hkept j _ (List.getElem?_eq_getElem hlt)).best
      have hsame := Option.some.inj (hown.unique hvisits)
      refine ⟨swarm[j], List.getElem_mem hlt, ?_, ?_⟩
      · rw [← hsame]
      · rw [hw, ← hsame]
    · intro q hq w hw
      obtain ⟨-, v, -, hv, hanswer⟩ := hmember q hq
      obtain rfl := Cost.finite.inj (hv.symm.trans hw)
      exact hbest.not_lt hanswer rfl

theorem upTo_sweptTo (hf : t.objective.IsProper) (k : ℕ) :
    Answers (fun c => c.ledger.Balanced t.objective ∧ c.ledger.rounds = 0 ∧ c.ledger.trace = [])
      (upTo t p k : SearchM σ α n (State α n) Unit) fun _ => SweptTo t p 0 :=
  (launch_sweptTo hf).bind fun _ => .roundsWithin (sweep_sweptTo hf) k

/-- When a swarm was set going and after every sweep, every particle remembers the first of its
positions that attained the least of its costs, and the best of them is the best point of the search.
If particles are refreshed after their moves, this holds after every single move as well: a sweep is made
of its moves one after the other. -/
theorem particles_remember_best (t : Task α n) (p : Params α) (hsize : 0 < p.size)
    (hf : t.objective.IsProper) (draws : σ) (own : State α n) :
    (∀ k d, (upTo t p k).run (.started t draws own) = (.ok (), d) →
      Remembers p 0 d.ledger d.own.particles) ∧
    (p.refresh = .afterMove → ∀ i ≤ p.size,
      (∀ k d, (upTo t p k >>= fun _ => advanceAll t p none (List.range i)).run
          (.started t draws own) = (.ok (), d) →
        Remembers p i d.ledger d.own.particles) ∧
      ∀ c : Course σ α n (State α n), c.own.particles.length = p.size →
        (sweep t p).run c =
          (advanceAll t p none (List.range i) >>= fun _ =>
            advanceAll t p none (List.range' i (p.size - i)) >>= fun _ =>
              SearchM.endRound).run c) := by
  have hstart : (Course.started t draws own).ledger.Balanced t.objective ∧
      (Course.started t draws own).ledger.rounds = 0 ∧
      (Course.started t draws own).ledger.trace = [] :=
    ⟨Course.balanced_started t draws own, rfl, rfl⟩
  constructor
  · intro k d hd
    have hrun := upTo_sweptTo (p := p) hf k _ hstart
    rw [hd] at hrun
    exact (Swarming.congr hrun fun j => by simp).remembers hsize
  · intro hmode i hi
    constructor
    · intro k d hd
      have hmoves := advanceAll_sweptTo (σ := σ) (p := p) (i := 0) hf none i (by omega)
      rw [← List.range_eq_range', Nat.zero_add] at hmoves
      have hrun := (upTo_sweptTo (p := p) hf k).bind (fun _ => hmoves) _ hstart
      rw [hd] at hrun
      exact (Swarming.congr hrun fun j => by simp [hmode]).remembers hsize
    · intro c hc
      have hparts : List.range p.size = List.range i ++ List.range' i (p.size - i) := by
        have happend := List.range'_append_1 (s := 0) (m := i) (n := p.size - i)
        rw [Nat.zero_add, Nat.add_sub_cancel' hi] at happend
        rw [List.range_eq_range', List.range_eq_range', happend]
      rw [run_sweep_afterMove hmode, hc, hparts, advanceAll_append, bind_assoc]

/-- Two particles that are refreshed after their moves. -/
noncomputable def alert : Params ℝ := { pair with refresh := .afterMove }

/-- The first of two particles was moved in its second sweep. -/
theorem particles_remember_best_alert :
    0 < alert.size ∧ Run.leastOnSquare.objective.IsProper ∧
      ∃ d, (upTo Run.leastOnSquare alert 1 >>= fun _ =>
          advanceAll Run.leastOnSquare alert none (List.range 1)).run
            (.started Run.leastOnSquare Run.climb.draws {}) = (.ok (), d) ∧
        d.ledger.rounds = 1 ∧ Remembers alert 1 d.ledger d.own.particles := by
  have hf : Run.leastOnSquare.objective.IsProper := fun _ _ c _ => Cost.isProper_real c
  have hsize : 0 < alert.size := Nat.two_pos
  let m : SearchM (Tape ℝ) ℝ 2 (State ℝ 2) Unit := upTo Run.leastOnSquare alert 1 >>= fun _ =>
    advanceAll Run.leastOnSquare alert none (List.range 1)
  let c : Course (Tape ℝ) ℝ 2 (State ℝ 2) := .started Run.leastOnSquare Run.climb.draws {}
  have hok : (m.run c).1.isOk = true := by decide +kernel
  have hrounds : (m.run c).2.ledger.rounds = 1 := by decide +kernel
  rcases hd : m.run c with ⟨e | _, d⟩
  · rw [hd] at hok
    exact nomatch hok
  · rw [hd] at hrounds
    have hmoves := (particles_remember_best Run.leastOnSquare alert hsize hf Run.climb.draws {}).2 rfl 1
      one_le_two
    exact ⟨hsize, hf, d, rfl, hrounds, hmoves.1 1 d hd⟩

end Swarm

end BoxSearch
