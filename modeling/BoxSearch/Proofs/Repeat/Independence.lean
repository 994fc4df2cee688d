import Mathlib
import BoxSearch.Proofs.Counts.Solve
import BoxSearch.Proofs.Repeat.Summary

/-!
# Repeated runs are independent

A search is run afresh for every seed, and only the objective could tell one run from another.  If its
answers depend on nothing but the point, each run comes to what it would come to alone: the costs of a
list of seeds are those of its parts, and seeds in another order lead to the same costs in that order.
-/

namespace BoxSearch

/-- The answers of the objective depend on the point only. -/
def Objective.PointOnly {α : Type} {n : ℕ} (f : Objective α n) : Prop := ∀ x k l, f x k = f x l

/-! ## 1. Readings and their log -/

namespace Reporting

variable {β γ ε : Type} {m : Reporting β} {f : β → Reporting γ}

/-- What the reading answers does not depend on the log. -/
def IsSteady (m : Reporting β) : Prop := ∀ log log', (m.run log).1 = (m.run log').1

theorem IsSteady.pure (b : β) : IsSteady (pure b : Reporting β) := fun _ _ => rfl

theorem IsSteady.throw (r : Refusal) : IsSteady (throw r : Reporting β) := fun _ _ => rfl

theorem IsSteady.note (records : List LogRecord) : IsSteady (note records) := fun _ _ => rfl

theorem IsSteady.quiet (wrap : ε → Refusal) (e : Except ε β) : IsSteady (quiet wrap e) := by
  cases e <;> exact fun _ _ => rfl

theorem IsSteady.bind (hm : IsSteady m) (hf : ∀ b, IsSteady (f b)) : IsSteady (m >>= f) := by
  intro log log'
  have hanswer := hm log log'
  rw [run_bind, run_bind]
  rcases hrun : m.run log with ⟨_ | b, _⟩ <;> rcases hrun' : m.run log' with ⟨_ | b', _⟩ <;>
    rw [hrun, hrun'] at hanswer
  · exact congrArg Except.error (Except.error.inj hanswer)
  · exact nomatch hanswer
  · exact nomatch hanswer
  · obtain rfl := Except.ok.inj hanswer
    exact hf b _ _

/-- A reading in two parts answers if both of them do. -/
theorem bind_answers_iff {log : List LogRecord} {c : γ} : ((m >>= f).run log).1 = .ok c ↔
    ∃ b, (m.run log).1 = .ok b ∧ ((f b).run (m.run log).2).1 = .ok c := by
  rw [run_bind]
  rcases m.run log with ⟨_ | b, _⟩
  · exact ⟨nofun, fun ⟨_, h, _⟩ => nomatch h⟩
  · exact ⟨fun h => ⟨b, rfl, h⟩, fun ⟨_, hb, h⟩ => Except.ok.inj hb ▸ h⟩

theorem quiet_bind_answers_iff {wrap : ε → Refusal} {e : Except ε β} {log : List LogRecord} {c : γ} :
    ((quiet wrap e >>= f).run log).1 = .ok c ↔ ∃ b, e = .ok b ∧ ((f b).run log).1 = .ok c := by
  cases e with
  | error _ => exact ⟨nofun, fun ⟨_, h, _⟩ => nomatch h⟩
  | ok b => exact ⟨fun h => ⟨b, rfl, h⟩, fun ⟨_, hb, h⟩ => Except.ok.inj hb ▸ h⟩

theorem note_bind_answers_iff {records log : List LogRecord} {f : Unit → Reporting γ} {c : γ} :
    ((note records >>= f).run log).1 = .ok c ↔ ((f ()).run (log ++ records)).1 = .ok c := Iff.rfl

theorem mapM_quiet (wrap : ε → Refusal) (g : γ → Except ε β) (items : List γ) :
    (items.mapM fun item => quiet wrap (g item)) = quiet wrap (items.mapM g) := by
  induction items with
  | nil => rfl
  | cons item rest ih =>
    rw [List.mapM_cons, List.mapM_cons, ih]
    cases g item with
    | error _ => rfl
    | ok b => cases rest.mapM g <;> rfl

end Reporting

section

open Reporting

theorem ProblemForm.read_isSteady (p : ProblemForm) : IsSteady p.read := by
  apply IsSteady.bind (.quiet _ _)
  intro lower
  apply IsSteady.bind (.quiet _ _)
  intro upper
  apply IsSteady.bind (.quiet _ _)
  intro flags
  cases p.objective with
  | none => exact .throw _
  | some f => exact .bind (.quiet _ _) fun _ => .pure _

/-- What is read of a problem answers like its objective. -/
theorem ProblemForm.isProper_of_read {p : ProblemForm} {log : List LogRecord} {n : ℕ}
    {problem : Problem n} (h : (p.read.run log).1 = .ok ⟨n, problem⟩) :
    problem.objective.IsProper := by
  unfold ProblemForm.read at h
  rw [quiet_bind_answers_iff] at h
  obtain ⟨lower, -, h⟩ := h
  rw [quiet_bind_answers_iff] at h
  obtain ⟨upper, -, h⟩ := h
  rw [quiet_bind_answers_iff] at h
  obtain ⟨flags, -, h⟩ := h
  cases hobjective : p.objective with
  | none =>
    rw [hobjective] at h
    exact nomatch h
  | some f =>
    rw [hobjective] at h
    simp only [quiet_bind_answers_iff] at h
    obtain ⟨⟨n', region⟩, -, h⟩ := h
    obtain ⟨rfl, heq⟩ := Sigma.mk.inj (Except.ok.inj h)
    rw [← eq_of_heq heq]
    exact Family.objective_isProper f n'

theorem Lookup.read_isSteady (l : Lookup) : IsSteady l.read := by
  unfold Lookup.read
  split
  · split
    · exact .pure _
    · exact .throw _
  · exact .throw _
  · split
    · exact .pure _
    · exact .throw _
  · exact .throw _

theorem Method.readRecord_isSteady (m : Method) (s : Settings) : IsSteady (m.readRecord s) := by
  unfold Method.readRecord
  split
  · exact .throw _
  · exact .quiet _ _

theorem ConfigGiven.readAhead_isSteady (c : ConfigGiven) : IsSteady c.readAhead := by
  cases c with
  | settings s => exact .pure _
  | record l s => exact .bind l.read_isSteady fun m => .bind (m.readRecord_isSteady s) fun _ => .pure _

theorem Request.plan_isSteady (r : BoxSearch.Request) : IsSteady r.plan := by
  unfold Request.plan
  cases r.problem with
  | other s =>
    apply IsSteady.bind r.config.readAhead_isSteady
    intro _
    exact .bind r.method.read_isSteady fun _ => .throw _
  | form p =>
    apply IsSteady.bind p.read_isSteady
    rintro ⟨n, problem⟩
    apply IsSteady.bind r.config.readAhead_isSteady
    intro ahead
    apply IsSteady.bind r.method.read_isSteady
    intro m
    apply IsSteady.bind
    · apply IsSteady.bind (.quiet _ _)
      intro k
      split
      · exact .throw _
      · exact .pure _
    · intro budget
      apply IsSteady.bind _ fun _ => .pure _
      cases ahead with
      | none => exact .bind (.note _) fun _ => .quiet _ _
      | some c =>
        unfold Request.readConfig
        dsimp only
        split
        · exact .pure _
        · exact .throw _

/-- Where a plan is read, its problem is. -/
theorem Request.read_of_plan {r : BoxSearch.Request} {p : ProblemForm} (hp : r.problem = .form p)
    {log : List LogRecord} {n : ℕ} {plan : Plan n} (h : (r.plan.run log).1 = .ok ⟨n, plan⟩) :
    (p.read.run log).1 = .ok ⟨n, plan.problem⟩ := by
  unfold Request.plan at h
  rw [hp] at h
  obtain ⟨⟨n', problem⟩, hread, h⟩ := bind_answers_iff.mp h
  obtain ⟨ahead, -, h⟩ := bind_answers_iff.mp h
  obtain ⟨m, -, h⟩ := bind_answers_iff.mp h
  obtain ⟨budget, -, h⟩ := bind_answers_iff.mp h
  obtain ⟨config, -, h⟩ := bind_answers_iff.mp h
  obtain ⟨rfl, heq⟩ := Sigma.mk.inj (Except.ok.inj h)
  rw [← eq_of_heq heq]
  exact hread

end

namespace Repeat

/-! ## 2. One run after another -/

section

variable {σ α : Type} [Scalar α] {n : ℕ} {t : Task α n}

/-- An objective that answers to points only does not notice earlier calls. -/
theorem laterTask_eq (ht : t.objective.PointOnly) (calls : ℕ) : laterTask t calls = t := by
  have hobjective : (fun x k => t.objective x (calls + k)) = t.objective :=
    funext fun x => funext fun k => ht x (calls + k) k
  unfold laterTask
  rw [hobjective]

variable [DrawSource σ α]

/-- A search of its own, with the draws of one seed. -/
def fresh (t : Task α n) (engine : Engine α n) (source : ℕ → σ) (seed : ℕ) :
    Except (Fault α) Unit × Run σ α n :=
  (⟨{}, source seed, engine⟩ : Run σ α n).solve t

/-- The best point that the search of a seed comes to. -/
def best (t : Task α n) (engine : Engine α n) (source : ℕ → σ) (seed : ℕ) :
    Option (Best α (Point α n)) :=
  (fresh t engine source seed).2.ledger.best

/-- What the searches of several seeds come to, unless one of them is broken off. -/
def summarize (t : Task α n) (engine : Engine α n) (source : ℕ → σ) (seeds : List ℕ) :
    Option (Summary α (Point α n)) :=
  let outcomes := solveEach t engine source 0 seeds
  match outcomes.findSome? (·.fault) with
  | some _ => none
  | none => some (Summary.ofBests (outcomes.map (·.ledger.best)))

/-- How often the objective is called in the searches of several seeds. -/
def totalCalls (t : Task α n) (engine : Engine α n) (source : ℕ → σ) (seeds : List ℕ) : ℕ :=
  (solveEach t engine source 0 seeds).foldl (fun k o => k + o.ledger.calls) 0

variable {engine : Engine α n} {source : ℕ → σ} {seeds : List ℕ}

theorem best_solveOne (seed : ℕ) :
    (solveOne t engine source seed).ledger.best = best t engine source seed := by
  unfold solveOne best fresh
  split <;> rename_i h <;> rw [h]

theorem fault_solveOne (seed : ℕ) :
    (solveOne t engine source seed).fault = none ↔ (fresh t engine source seed).1 = .ok () := by
  unfold solveOne fresh
  split <;> rename_i h <;> rw [h]
  · exact iff_of_true rfl rfl
  · exact iff_of_false nofun nofun

/-- The runs come to what each of them comes to alone, up to the first that is broken off. -/
theorem solveEach_eq (ht : t.objective.PointOnly) (engine : Engine α n) (source : ℕ → σ)
    (seeds : List ℕ) (calls : ℕ) :
    (solveEach t engine source calls seeds).findSome? (·.fault) =
        (seeds.map (solveOne t engine source)).findSome? (·.fault) ∧
      ((∀ seed ∈ seeds, (solveOne t engine source seed).fault = none) →
        solveEach t engine source calls seeds = seeds.map (solveOne t engine source)) := by
  induction seeds generalizing calls with
  | nil => exact ⟨rfl, fun _ => rfl⟩
  | cons seed rest ih =>
    unfold solveEach
    rw [laterTask_eq ht]
    cases hfault : (solveOne t engine source seed).fault with
    | some f => simp [hfault]
    | none =>
      obtain ⟨hfaults, hruns⟩ := ih (calls + (solveOne t engine source seed).ledger.calls)
      constructor
      · simp [hfault, hfaults]
      · intro hall
        simp [hfault, hruns fun seed hseed => hall seed (List.mem_cons_of_mem _ hseed)]

/-- The summary is that of searches each of which is run on its own. -/
theorem summarize_eq_some_iff (ht : t.objective.PointOnly) {s : Summary α (Point α n)} :
    summarize t engine source seeds = some s ↔
      (∀ seed ∈ seeds, (fresh t engine source seed).1 = .ok ()) ∧
        s = .ofBests (seeds.map (best t engine source)) := by
  obtain ⟨hfaults, hruns⟩ := solveEach_eq ht engine source seeds 0
  have hnone : (seeds.map (solveOne t engine source)).findSome? (·.fault) = none ↔
      ∀ seed ∈ seeds, (fresh t engine source seed).1 = .ok () := by
    rw [List.findSome?_eq_none_iff, List.forall_mem_map]
    exact forall₂_congr fun seed _ => fault_solveOne seed
  unfold summarize
  dsimp only
  cases hfault : (seeds.map (solveOne t engine source)).findSome? (·.fault) with
  | some f =>
    rw [hfault] at hfaults
    rw [hfaults]
    refine iff_of_false nofun fun h => ?_
    exact nomatch hfault.symm.trans (hnone.mpr h.1)
  | none =>
    have hall := hnone.mp hfault
    rw [hfault] at hfaults
    rw [hfaults, hruns fun seed hseed => (fault_solveOne seed).mpr (hall seed hseed), List.map_map]
    have hbests : (fun o : Outcome α n => o.ledger.best) ∘ solveOne t engine source =
        best t engine source := funext best_solveOne
    rw [hbests]
    exact ⟨fun h => ⟨hall, (Option.some.inj h).symm⟩, fun h => congrArg some h.2.symm⟩

/-- The best cost of a search is a finite scalar. -/
theorem isFinite_best [Scalar.Ordered α] (hf : t.objective.IsProper) (seed : ℕ) :
    ∀ b ∈ best t engine source seed, Scalar.isFinite b.cost = true := by
  intro b hb
  have hbalanced := ((⟨{}, source seed, engine⟩ : Run σ α n).solve_closes t rfl).balanced hf
    (Account.Balanced.empty.aside _ _ _)
  have hbest := hbalanced.best
  have hb : ((⟨{}, source seed, engine⟩ : Run σ α n).solve t).2.ledger.best = some b := hb
  rw [hb] at hbest
  exact hbalanced.isProper_of_mem hf hbest.mem b.cost rfl

end

/-! ## 3. Requests -/

section

open Reporting

variable {n : ℕ} {r : Request} {p : Plan n}

/-- All seeds can be used if none of them is below zero. -/
theorem eq_map_ofNat_iff {seeds : List ℤ} {ks : List ℕ} :
    seeds = ks.map Int.ofNat ↔
      (seeds.takeWhile fun k => decide (0 ≤ k)).map Int.toNat = ks ∧ ks.length = seeds.length := by
  constructor
  · rintro rfl
    refine ⟨?_, (List.length_map _).symm⟩
    have hall : (ks.map Int.ofNat).takeWhile (fun k => decide (0 ≤ k)) = ks.map Int.ofNat :=
      List.takeWhile_eq_self_iff.mpr fun k hk => by
        obtain ⟨m, -, rfl⟩ := List.mem_map.mp hk
        exact decide_eq_true (Int.natCast_nonneg m)
    rw [hall, List.map_map]
    exact List.map_id ks
  · rintro ⟨rfl, hlength⟩
    rw [List.length_map] at hlength
    have hall := (List.takeWhile_prefix fun k : ℤ => decide (0 ≤ k)).eq_of_length hlength
    rw [hall, List.map_map]
    refine (List.map_id seeds).symm.trans (List.map_congr_left fun k hk => ?_)
    have hk := List.takeWhile_eq_self_iff.mp hall k hk
    exact (Int.toNat_of_nonneg (of_decide_eq_true hk)).symm

theorem requireAll_bind_answers_iff {β : Type} {m : Method} {outcomes : List (Outcome Float n)}
    {f : Unit → Reporting β} {log : List LogRecord} {c : β} :
    ((Request.requireAll m outcomes >>= f).run log).1 = .ok c ↔
      outcomes.findSome? (·.fault) = none ∧ ((f ()).run log).1 = .ok c := by
  unfold Request.requireAll
  cases outcomes.findSome? (·.fault) with
  | some f => exact ⟨nofun, fun h => nomatch h.1⟩
  | none => exact ⟨fun h => ⟨rfl, h⟩, fun h => h.2⟩

/-- A plan is run for seeds that can be used, and answers with what the searches come to. -/
theorem runPlan_answers_iff {ignored : List LogRecord} {seeds : List ℤ} {log : List LogRecord}
    {a : Answer} :
    ((r.runPlan p ignored seeds).run log).1 = .ok a ↔
      ∃ engine ks s, seeds = ks.map Int.ofNat ∧ ks ≠ [] ∧
        p.config.engine p.problem.region = .ok engine ∧ Capacity.engine engine = .ok () ∧
        summarize (p.task [] false) engine WordStream.ofSeed ks = some s ∧
        a = ⟨ks, n, s, totalCalls (p.task [] false) engine WordStream.ofSeed ks⟩ := by
  have hseeds (ks : List ℕ) := @eq_map_ofNat_iff seeds ks
  unfold Request.runPlan
  dsimp only
  revert hseeds
  generalize (seeds.takeWhile fun k => decide (0 ≤ k)).map Int.toNat = usable
  intro hseeds
  by_cases hempty : usable.isEmpty = true
  · rw [if_pos hempty]
    refine iff_of_false nofun ?_
    rintro ⟨engine, ks, s, hks, hsome, -⟩
    exact hsome (((hseeds ks).mp hks).1 ▸ List.isEmpty_iff.mp hempty)
  · rw [if_neg hempty]
    unfold Plan.engine
    simp only [quiet_bind_answers_iff, requireAll_bind_answers_iff, note_bind_answers_iff]
    constructor
    · rintro ⟨engine, hengine, u, hcapacity, hfault, ha⟩
      split at ha
      · rename_i hlength
        refine ⟨engine, usable, _, (hseeds usable).mpr ⟨rfl, hlength⟩,
          fun h => hempty (List.isEmpty_iff.mpr h), hengine, hcapacity, ?_, (Except.ok.inj ha).symm⟩
        unfold summarize
        dsimp only
        rw [hfault]
      · exact nomatch ha
    · rintro ⟨engine, ks, s, hks, -, hengine, hcapacity, hs, rfl⟩
      obtain ⟨rfl, hlength⟩ := (hseeds ks).mp hks
      refine ⟨engine, hengine, (), hcapacity, ?_⟩
      unfold summarize at hs
      dsimp only at hs
      split at hs
      · exact nomatch hs
      · rename_i hfault
        refine ⟨hfault, ?_⟩
        rw [if_pos hlength, ← Option.some.inj hs]
        rfl

theorem readSeeds_answers_iff {items : List Setting} (hitems : r.seeds = .list items)
    {log : List LogRecord} {seeds : List ℤ} :
    (r.readSeeds.run log).1 = .ok seeds ↔
      items.mapM Setting.toInteger = .ok seeds ∧ seeds ≠ [] := by
  unfold Request.readSeeds
  rw [hitems]
  simp only [quiet_bind_answers_iff, mapM_quiet]
  constructor
  · rintro ⟨_, hlist, seeds', hread, hseeds⟩
    obtain rfl := Except.ok.inj hlist
    split at hseeds
    · exact nomatch hseeds
    · rename_i hsome
      obtain rfl := Except.ok.inj hseeds
      exact ⟨hread, fun h => hsome (List.isEmpty_iff.mpr h)⟩
  · rintro ⟨hread, hsome⟩
    refine ⟨items, rfl, seeds, hread, ?_⟩
    rw [if_neg fun h => hsome (List.isEmpty_iff.mp h)]
    rfl

/-- A repeated search answers with what the searches of its seeds come to. -/
theorem solve_answers_iff (hplan : r.single.plan.outcome.1 = .ok ⟨n, p⟩) {items : List Setting}
    (hitems : r.seeds = .list items) {a : Answer} :
    r.solve.outcome.1 = .ok a ↔
      ∃ engine ks s, items.mapM Setting.toInteger = .ok (ks.map Int.ofNat) ∧ ks ≠ [] ∧
        p.config.engine p.problem.region = .ok engine ∧ Capacity.engine engine = .ok () ∧
        summarize (p.task [] false) engine WordStream.ofSeed ks = some s ∧
        a = ⟨ks, n, s, totalCalls (p.task [] false) engine WordStream.ofSeed ks⟩ := by
  have hsteady := r.single.plan_isSteady
  unfold Request.solve Reporting.outcome
  rw [bind_answers_iff]
  constructor
  · rintro ⟨_, -, h⟩
    obtain ⟨seeds, hseeds, h⟩ := bind_answers_iff.mp h
    obtain ⟨hread, -⟩ := (readSeeds_answers_iff hitems).mp hseeds
    obtain ⟨before, -, h⟩ := bind_answers_iff.mp h
    obtain ⟨x, hx, h⟩ := bind_answers_iff.mp h
    obtain rfl : x = ⟨n, p⟩ := Except.ok.inj (hx.symm.trans ((hsteady _ []).trans hplan))
    obtain ⟨now, -, h⟩ := bind_answers_iff.mp h
    obtain ⟨engine, ks, s, rfl, hanswer⟩ := runPlan_answers_iff.mp h
    exact ⟨engine, ks, s, hread, hanswer⟩
  · rintro ⟨engine, ks, s, hread, hsome, h⟩
    refine ⟨_, Request.read_of_plan rfl hplan, bind_answers_iff.mpr ⟨ks.map Int.ofNat, ?_, ?_⟩⟩
    · exact (readSeeds_answers_iff hitems).mpr ⟨hread, fun hnone => hsome (List.map_eq_nil_iff.mp hnone)⟩
    · refine bind_answers_iff.mpr ⟨_, rfl, bind_answers_iff.mpr ⟨⟨n, p⟩, ?_, ?_⟩⟩
      · exact (hsteady _ []).trans hplan
      · refine bind_answers_iff.mpr ⟨_, rfl, ?_⟩
        exact runPlan_answers_iff.mpr ⟨engine, ks, s, rfl, hsome, h⟩

end

/-! ## 4. Independence -/

section

variable {σ α : Type} [Scalar α] [DrawSource σ α] {n : ℕ} {t : Task α n} {engine : Engine α n}
  {source : ℕ → σ} (ht : t.objective.PointOnly) {seeds others : List ℕ} {s u : Summary α (Point α n)}

include ht

theorem tells_of_summarize [Scalar.Ordered α] (hf : t.objective.IsProper)
    (hs : summarize t engine source seeds = some s) : s.Tells (best t engine source) seeds := by
  rw [((summarize_eq_some_iff ht).mp hs).2]
  exact Summary.ofBests_tells (isFinite_best hf)

/-- The costs of a list of seeds are those of its parts. -/
theorem summarize_append (hs : summarize t engine source seeds = some s)
    (hu : summarize t engine source others = some u) :
    ∃ c, summarize t engine source (seeds ++ others) = some c ∧ c.costs = s.costs ++ u.costs := by
  obtain ⟨hseeds, rfl⟩ := (summarize_eq_some_iff ht).mp hs
  obtain ⟨hothers, rfl⟩ := (summarize_eq_some_iff ht).mp hu
  refine ⟨_, (summarize_eq_some_iff ht).mpr ⟨fun seed hseed => ?_, rfl⟩, ?_⟩
  · exact (List.mem_append.mp hseed).elim (hseeds seed) (hothers seed)
  · show List.map _ (List.map _ (seeds ++ others)) = _
    rw [List.map_append, List.map_append]
    rfl

/-- The seeds can be taken in any order. -/
theorem summarize_perm (hperm : seeds.Perm others)
    (hs : summarize t engine source seeds = some s) :
    summarize t engine source others = some (.ofBests (others.map (best t engine source))) :=
  (summarize_eq_some_iff ht).mpr
    ⟨fun seed hseed => ((summarize_eq_some_iff ht).mp hs).1 seed (hperm.mem_iff.mpr hseed), rfl⟩

end

/-- In exact arithmetic the seeds can be taken in any order without a change of the statistics. -/
theorem statistics_perm {σ : Type} [DrawSource σ ℝ] {n : ℕ} {t : Task ℝ n} {engine : Engine ℝ n}
    {source : ℕ → σ} (ht : t.objective.PointOnly) {seeds others : List ℕ} (hperm : seeds.Perm others)
    {s u : Summary ℝ (Point ℝ n)} (hs : summarize t engine source seeds = some s)
    (hu : summarize t engine source others = some u) :
    s.best.map (·.cost) = u.best.map (·.cost) ∧ s.mean = u.mean ∧ s.median = u.median ∧
      s.deviation = u.deviation := by
  have hf : t.objective.IsProper := fun _ _ c _ => Cost.isProper_real c
  have htells := tells_of_summarize ht hf hs
  have htells' := tells_of_summarize ht hf hu
  constructor
  · have hsame (b b' : Best ℝ (Point ℝ n)) (h : Scalar.same b.cost b'.cost = true) :
        b.cost = b'.cost := by
      obtain ⟨hle, hge⟩ := Bool.and_eq_true_iff.mp h
      exact le_antisymm (of_decide_eq_true hle) (of_decide_eq_true hge)
    cases hb : s.best with
    | some b =>
      obtain ⟨b', hb', h⟩ := htells.best_perm htells' hperm b hb
      rw [Option.mem_def.mp hb']
      exact congrArg some (hsame b b' h)
    | none =>
      cases hb' : u.best with
      | none => rfl
      | some b' =>
        obtain ⟨b, hb'', -⟩ := htells'.best_perm htells hperm.symm b' hb'
        exact nomatch hb.symm.trans hb''
  · rw [((summarize_eq_some_iff ht).mp hs).2, ((summarize_eq_some_iff ht).mp hu).2]
    exact Summary.ofBests_perm (hperm.map _)

/-- In any arithmetic, runs with several seeds have a summary exactly if each search returns on its own,
and then the summary tells their best costs; those of a list of seeds are those of its parts, and another
order of the seeds leads to the same best cost.  In exact arithmetic it leads to the same statistics as
well, and those of doubles are undefined if no cost is finite or the sum of the finite costs is
undefined.  A repeated search answers with such a summary. -/
theorem runs_are_independent (n : ℕ) :
    (∀ (σ α : Type) [Scalar α] [Scalar.Total α] [DrawSource σ α] (t : Task α n)
      (engine : Engine α n) (source : ℕ → σ), t.objective.PointOnly → t.objective.IsProper →
      (∀ seeds, (∃ s, summarize t engine source seeds = some s) ↔
        ∀ seed ∈ seeds, (fresh t engine source seed).1 = .ok ()) ∧
      (∀ seeds s, summarize t engine source seeds = some s → s.Tells (best t engine source) seeds) ∧
      (∀ seeds others s u, summarize t engine source seeds = some s →
        summarize t engine source others = some u →
        ∃ c, summarize t engine source (seeds ++ others) = some c ∧ c.costs = s.costs ++ u.costs) ∧
      ∀ seeds others s, seeds.Perm others → summarize t engine source seeds = some s →
        ∃ u, summarize t engine source others = some u ∧
          ∀ b ∈ s.best, ∃ b' ∈ u.best, Scalar.same b.cost b'.cost = true) ∧
    (∀ (σ : Type) [DrawSource σ ℝ] (t : Task ℝ n) (engine : Engine ℝ n) (source : ℕ → σ),
      t.objective.PointOnly → ∀ seeds others s u, seeds.Perm others →
      summarize t engine source seeds = some s → summarize t engine source others = some u →
      s.best.map (·.cost) = u.best.map (·.cost) ∧ s.mean = u.mean ∧ s.median = u.median ∧
        s.deviation = u.deviation) ∧
    (∀ (σ : Type) [DrawSource σ Float] (t : Task Float n) (engine : Engine Float n) (source : ℕ → σ),
      t.objective.PointOnly → t.objective.IsProper → ∀ seeds s, seeds.length ≤ 2 ^ 52 →
      summarize t engine source seeds = some s → s.IsShown) ∧
    ∀ (r : Request) (p : Plan n), r.single.plan.outcome.1 = .ok ⟨n, p⟩ →
      p.problem.objective.IsProper ∧ ∀ (items : List Setting) (a : Answer),
        ({ r with seeds := .list items } : Request).solve.outcome.1 = .ok a ↔
          ∃ engine ks s, items.mapM Setting.toInteger = .ok (ks.map Int.ofNat) ∧ ks ≠ [] ∧
            p.config.engine p.problem.region = .ok engine ∧ Capacity.engine engine = .ok () ∧
            summarize (p.task [] false) engine WordStream.ofSeed ks = some s ∧
            a = ⟨ks, n, s, totalCalls (p.task [] false) engine WordStream.ofSeed ks⟩ := by
  refine ⟨?_, ?_, ?_, ?_⟩
  · intro σ α _ _ _ t engine source ht hf
    refine ⟨fun seeds => ?_, fun seeds s hs => tells_of_summarize ht hf hs,
      fun seeds others s u hs hu => summarize_append ht hs hu, fun seeds others s hperm hs => ?_⟩
    · constructor
      · exact fun ⟨s, hs⟩ => ((summarize_eq_some_iff ht).mp hs).1
      · exact fun hall => ⟨_, (summarize_eq_some_iff ht).mpr ⟨hall, rfl⟩⟩
    · have hu := summarize_perm ht hperm hs
      exact ⟨_, hu, (tells_of_summarize ht hf hs).best_perm (tells_of_summarize ht hf hu) hperm⟩
  · intro σ _ t engine source ht seeds others s u hperm hs hu
    exact statistics_perm ht hperm hs hu
  · intro σ _ t engine source ht hf seeds s hcount hs
    have hfinite := (tells_of_summarize ht hf hs).finite
    obtain ⟨-, rfl⟩ := (summarize_eq_some_iff ht).mp hs
    exact Summary.ofBests_isShown hfinite (by rwa [List.length_map])
  · intro r p hplan
    exact ⟨ProblemForm.isProper_of_read (Request.read_of_plan rfl hplan), fun items a =>
      solve_answers_iff (r := { r with seeds := .list items }) hplan rfl⟩

/-- A climb over the unit interval, on which the objective is one everywhere, with two seeds. -/
def climbs : Request :=
  ⟨.text "hillclimber", ⟨.list [.whole 0], .list [.whole 1], .null, some { form := .const 1.0 }⟩,
    .whole 1, [], .list [.whole 3, .whole 5]⟩

/-- The runs of both seeds are those of their own searches, and their statistics are defined if one of
them finds a cost.  In exact arithmetic the seeds of climbs on the unit square can be taken in either
order. -/
theorem runs_are_independent_climbs :
    (∃ (p : Plan 1) (engine : Engine Float 1) (s : Summary Float (Point Float 1)) (calls : ℕ),
      climbs.single.plan.outcome.1 = .ok ⟨1, p⟩ ∧ p.problem.objective.PointOnly ∧
        climbs.solve.outcome.1 = .ok ⟨[3, 5], 1, s, calls⟩ ∧
        s.Tells (best (p.task [] false) engine WordStream.ofSeed) [3, 5] ∧
        (Scalar.isUndefined (statistic s.mean) = true ↔ ∀ c ∈ s.costs, c = none)) ∧
      ∃ s u : Summary ℝ (Point ℝ 2),
        summarize Run.leastOnSquare (.hillClimb ⟨.ok 0.5⟩) (fun _ => Run.zeroDraws) [0, 1] = some s ∧
          summarize Run.leastOnSquare (.hillClimb ⟨.ok 0.5⟩) (fun _ => Run.zeroDraws) [1, 0] = some u ∧
          s.mean = u.mean := by
  constructor
  · obtain ⟨hany, -, hdoubles, hrequests⟩ := runs_are_independent 1
    obtain ⟨p, hplan, hpoint⟩ : ∃ p : Plan 1, climbs.single.plan.outcome.1 = .ok ⟨1, p⟩ ∧
        p.problem.objective.PointOnly := ⟨_, rfl, fun _ _ _ => rfl⟩
    obtain ⟨a, ha, hseeds⟩ : ∃ a, climbs.solve.outcome.1 = .ok a ∧ a.seeds = [3, 5] := ⟨_, rfl, rfl⟩
    obtain ⟨hproper, hanswers⟩ := hrequests climbs p hplan
    obtain ⟨engine, ks, s, -, -, -, -, hs, rfl⟩ := (hanswers [.whole 3, .whole 5] a).mp ha
    obtain rfl : ks = [3, 5] := hseeds
    obtain ⟨-, htells, -⟩ := hany _ _ (p.task [] false) engine WordStream.ofSeed hpoint hproper
    have hshown := hdoubles _ (p.task [] false) engine WordStream.ofSeed hpoint hproper [3, 5] s
      (by norm_num) hs
    have hfew : (s.costs.filterMap id).length < 8 := by
      refine (List.length_filterMap_le _ _).trans_lt ?_
      rw [(htells _ _ hs).costs, List.length_map]
      norm_num
    exact ⟨p, engine, s, _, hplan, hpoint, ha, htells _ _ hs, (hshown.undefined_iff (.inl hfew)).1⟩
  · obtain ⟨hany, hreal, -⟩ := runs_are_independent 2
    have hpoint : Run.leastOnSquare.objective.PointOnly := fun _ _ _ => rfl
    have hproper : Run.leastOnSquare.objective.IsProper := fun _ _ c _ => Cost.isProper_real c
    have hreturns (seed : ℕ) : (fresh Run.leastOnSquare (.hillClimb ⟨.ok 0.5⟩)
        (fun _ => Run.zeroDraws) seed).1 = .ok () :=
      Run.solve_returns (t := Run.leastOnSquare) (fun x _ => ⟨.finite (x.get 0), rfl⟩)
        unitDraws_unitTape (fun _ hx => nomatch hx) rfl trivial
        (HillClimb.Params.IsNumeric.mk ⟨_, rfl⟩)
    obtain ⟨hgiven, -, -, hperm⟩ := hany _ _ Run.leastOnSquare (.hillClimb ⟨.ok 0.5⟩)
      (fun _ => Run.zeroDraws) hpoint hproper
    obtain ⟨s, hs⟩ := (hgiven [0, 1]).mpr fun seed _ => hreturns seed
    obtain ⟨u, hu, -⟩ := hperm [0, 1] [1, 0] s (.swap 1 0 []) hs
    exact ⟨s, u, hs, hu, (hreal _ _ _ _ hpoint _ _ s u (.swap 1 0 []) hs hu).2.1⟩

end Repeat

end BoxSearch
