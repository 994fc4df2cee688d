import BoxSearch.Proofs.Doubles.Values
import BoxSearch.Proofs.Settings.Reading

/-!
# Ranges of accepted settings

Every number of an accepted configuration lies in a range: above zero, between zero and one, or not
below zero.  The first two are checked by comparisons that have to hold, so that an undefined number is
refused.  The last is checked by one that must not hold, and an undefined number is not below zero: the
numbers that are checked in this way lie in their ranges exactly if they are defined
(`MethodConfig.accepted_ranges`).
-/

namespace BoxSearch

/-! ## 1. Numbers -/

namespace Number

/-- What a number stands for, if it is defined. -/
noncomputable def value : Number → Option EReal
  | whole k => some ((k : ℝ) : EReal)
  | real x => Double.value x
  | flag b => some (if b then 1 else 0)

def IsDefined (x : Number) : Prop := ∃ v, v ∈ x.value

/-- A number is defined and lies in a range. -/
def LiesIn (x : Number) (range : Set EReal) : Prop := ∃ v ∈ x.value, v ∈ range

theorem isPositive_iff (x : Number) : x.isPositive = true ↔ x.LiesIn (Set.Ioi 0) := by
  cases x with
  | whole k => simp [isPositive, LiesIn, value]
  | real x => simp [isPositive, LiesIn, value, Double.lt_iff_value, Double.value_zero]
  | flag b => cases b <;> simp [isPositive, LiesIn, value]

theorem isNegative_iff (x : Number) : x.isNegative = true ↔ x.LiesIn (Set.Iio 0) := by
  cases x with
  | whole k => simp [isNegative, LiesIn, value]
  | real x => simp [isNegative, LiesIn, value, Double.lt_iff_value, Double.value_zero]
  | flag b => cases b <;> simp [isNegative, LiesIn, value]

theorem isProbability_iff (x : Number) : x.isProbability = true ↔ x.LiesIn (Set.Icc 0 1) := by
  cases x with
  | whole k =>
    have hone : ((k : ℝ) : EReal) ≤ 1 ↔ k ≤ 1 := by exact_mod_cast Iff.rfl
    simp [isProbability, LiesIn, value, hone]
  | real x =>
    simp only [isProbability, LiesIn, value, decide_eq_true_iff, Double.le_iff_value,
      Double.value_zero, Double.value_one, Option.mem_some_iff, exists_eq_left', Set.mem_Icc]
    constructor
    · rintro ⟨⟨v, hv, hlo⟩, w, hw, hhi⟩
      obtain rfl := Option.mem_unique hv hw
      exact ⟨v, hv, hlo, hhi⟩
    · rintro ⟨v, hv, hlo, hhi⟩
      exact ⟨⟨v, hv, hlo⟩, v, hv, hhi⟩
  | flag b => cases b <;> simp [isProbability, LiesIn, value]

/-- What is known of a number that was checked not to be below zero. -/
def NotBelowZero (x : Number) : Prop := ¬x.LiesIn (Set.Iio 0)

theorem liesIn_Ici_iff (x : Number) : x.LiesIn (Set.Ici 0) ↔ x.NotBelowZero ∧ x.IsDefined := by
  constructor
  · rintro ⟨v, hv, hnonneg⟩
    refine ⟨fun ⟨w, hw, hneg⟩ => ?_, v, hv⟩
    obtain rfl := Option.mem_unique hv hw
    exact (Set.mem_Iio.mp hneg).not_ge (Set.mem_Ici.mp hnonneg)
  · rintro ⟨hnonneg, v, hv⟩
    exact ⟨v, hv, Set.mem_Ici.mpr (not_lt.mp fun hneg => hnonneg ⟨v, hv, hneg⟩)⟩

end Number

namespace Config

variable {setting : String} {v : Setting} {x : Number}

theorem liesIn_of_positive (h : positive setting v = .ok x) : x.LiesIn (Set.Ioi 0) :=
  x.isPositive_iff.mp (isPositive_of_positive h)

theorem liesIn_of_probability (h : probability setting v = .ok x) : x.LiesIn (Set.Icc 0 1) := by
  obtain ⟨y, -, h⟩ := exists_of_bind_eq_ok h
  split_ifs at h with hprobability
  rw [← Except.ok.inj h]
  exact y.isProbability_iff.mp hprobability

theorem notBelowZero_of_notNegative (h : notNegative setting v = .ok x) : x.NotBelowZero := by
  unfold Number.NotBelowZero
  rw [← x.isNegative_iff, isNegative_of_notNegative h]
  exact Bool.false_ne_true

end Config

/-! ## 2. Methods -/

section

-- What it takes for a number not to be negative.
variable (nonNegative : Number → Prop)

structure HillClimb.Config.Ranges (c : Config) : Prop where
  stepSize : c.stepSize.LiesIn (Set.Ioi 0)

structure Swarm.Config.Ranges (c : Config) : Prop where
  -- Four particles at least have neighbours on a torus.
  count : (if c.rule = .informed then 4 else 1) ≤ c.count
  damping : c.damping.LiesIn (Set.Ioi 0)
  mutation : c.mutation.LiesIn (Set.Icc 0 1)
  launch : nonNegative c.launch
  spread : nonNegative c.spread
  mutationSpread : nonNegative c.mutationSpread

structure Genetic.Config.Ranges (c : Config) : Prop where
  size : 2 ≤ c.size
  elite : 0 ≤ c.elite ∧ c.elite < c.size
  generations : 1 ≤ c.generations
  crossing : c.crossing.LiesIn (Set.Icc 0 1)
  mutation : c.mutation.LiesIn (Set.Icc 0 1)
  reach : nonNegative c.reach
  mutationRange : nonNegative c.mutationRange
  precision : nonNegative c.precision

structure Evolution.Config.Ranges (c : Config) : Prop where
  size : 1 ≤ c.size
  children : 1 ≤ c.children
  parents : 1 ≤ c.parents ∧ c.parents ≤ c.size
  stepSize : c.stepSize.LiesIn (Set.Ioi 0)
  spread : c.spread.LiesIn (Set.Ioi 0)
  learning : c.learning.LiesIn (Set.Ioi 0)
  mutation : c.mutation.LiesIn (Set.Icc 0 1)

structure Simplex.Config.Ranges (c : Config) : Prop where
  reflection : c.reflection.LiesIn (Set.Ioi 0)
  expansion : c.expansion.LiesIn (Set.Ioi 0)
  contraction : c.contraction.LiesIn (Set.Ioi 0)
  shrinkage : c.shrinkage.LiesIn (Set.Ioi 0)
  spread : c.spread.LiesIn (Set.Ioi 0)

structure Rotation.Config.Ranges (c : Config) : Prop where
  stretch : c.stretch.LiesIn (Set.Ioi 0)
  shorten : c.shorten.LiesIn (Set.Ioi 0)
  stepSize : c.stepSize.LiesIn (Set.Ioi 0)

structure Partition.Config.Ranges (c : Config) : Prop where
  ep : nonNegative c.ep
  iterations : ∀ cap ∈ c.iterations, 1 ≤ cap
  tolerance : c.tolerance.LiesIn (Set.Ioi 0)

end

theorem HillClimb.Config.ranges {s : Settings} {c : Config} (h : ofSettings s = .ok c) : c.Ranges := by
  obtain ⟨stepSize, hstep, h⟩ := exists_of_bind_eq_ok h
  rw [← Except.ok.inj h]
  exact ⟨BoxSearch.Config.liesIn_of_positive hstep⟩

theorem Swarm.Config.ranges {s : Settings} {c : Config} (h : ofSettings s = .ok c) :
    c.Ranges Number.NotBelowZero := by
  obtain ⟨rule, -, h⟩ := exists_of_bind_eq_ok h
  obtain ⟨refresh, -, h⟩ := exists_of_bind_eq_ok h
  obtain ⟨sampling, -, h⟩ := exists_of_bind_eq_ok h
  obtain ⟨count, hcount, h⟩ := exists_of_bind_eq_ok h
  obtain ⟨damping, hdamping, h⟩ := exists_of_bind_eq_ok h
  obtain ⟨mutation, hmutation, h⟩ := exists_of_bind_eq_ok h
  obtain ⟨launch, hlaunch, h⟩ := exists_of_bind_eq_ok h
  obtain ⟨spread, hspread, h⟩ := exists_of_bind_eq_ok h
  obtain ⟨mutationSpread, hmutationSpread, h⟩ := exists_of_bind_eq_ok h
  have hleast : (if rule = .informed then 4 else 1) ≤ count := by
    have hcount := leastCount_le hcount
    cases rule <;> exact Int.ofNat_le.mp hcount
  rw [← Except.ok.inj h]
  exact ⟨hleast, BoxSearch.Config.liesIn_of_positive hdamping,
    BoxSearch.Config.liesIn_of_probability hmutation,
    BoxSearch.Config.notBelowZero_of_notNegative hlaunch,
    BoxSearch.Config.notBelowZero_of_notNegative hspread,
    BoxSearch.Config.notBelowZero_of_notNegative hmutationSpread⟩

theorem Genetic.Config.ranges {s : Settings} {c : Config} (h : ofSettings s = .ok c) :
    c.Ranges Number.NotBelowZero := by
  obtain ⟨size, -, h⟩ := exists_of_bind_eq_ok h
  obtain ⟨generations, -, h⟩ := exists_of_bind_eq_ok h
  obtain ⟨elite, -, h⟩ := exists_of_bind_eq_ok h
  obtain ⟨hsize, h⟩ := passes_of_eq_ok h
  obtain ⟨helite, h⟩ := fits_of_eq_ok h
  obtain ⟨hgenerations, h⟩ := fits_of_eq_ok h
  obtain ⟨crossing, hcrossing, h⟩ := exists_of_bind_eq_ok h
  obtain ⟨mutation, hmutation, h⟩ := exists_of_bind_eq_ok h
  obtain ⟨reach, hreach, h⟩ := exists_of_bind_eq_ok h
  obtain ⟨mutationRange, hrange, h⟩ := exists_of_bind_eq_ok h
  obtain ⟨precision, hprecision, h⟩ := exists_of_bind_eq_ok h
  have hleast : 2 ≤ size.toNat := by omega
  have hbelow : elite.toNat < size.toNat := by omega
  have hone : 1 ≤ generations.toNat := by omega
  rw [← Except.ok.inj h]
  exact ⟨hleast, ⟨Nat.zero_le _, hbelow⟩, hone, BoxSearch.Config.liesIn_of_probability hcrossing,
    BoxSearch.Config.liesIn_of_probability hmutation,
    BoxSearch.Config.notBelowZero_of_notNegative hreach,
    BoxSearch.Config.notBelowZero_of_notNegative hrange,
    BoxSearch.Config.notBelowZero_of_notNegative hprecision⟩

theorem Evolution.Config.ranges {s : Settings} {c : Config} (h : ofSettings s = .ok c) : c.Ranges := by
  obtain ⟨size, hsize, h⟩ := exists_of_bind_eq_ok h
  obtain ⟨children, hchildren, h⟩ := exists_of_bind_eq_ok h
  obtain ⟨parents, hparents, h⟩ := exists_of_bind_eq_ok h
  obtain ⟨marriage, -, h⟩ := exists_of_bind_eq_ok h
  obtain ⟨sampling, -, h⟩ := exists_of_bind_eq_ok h
  obtain ⟨stepSize, hstep, h⟩ := exists_of_bind_eq_ok h
  obtain ⟨spread, hspread, h⟩ := exists_of_bind_eq_ok h
  obtain ⟨learning, hlearning, h⟩ := exists_of_bind_eq_ok h
  obtain ⟨mutation, hmutation, h⟩ := exists_of_bind_eq_ok h
  have hone : 1 ≤ size := BoxSearch.Config.le_of_atLeast hsize
  have hsome : 1 ≤ parents := BoxSearch.Config.le_of_atLeast hparents
  have hborn : 1 ≤ children := one_le_of_readChildren hchildren
  have hmembers : 1 ≤ size.toNat := by omega
  have hlitter : 1 ≤ children.toNat := by omega
  have hfamily : 1 ≤ (min parents size).toNat ∧ (min parents size).toNat ≤ size.toNat := by omega
  rw [← Except.ok.inj h]
  exact ⟨hmembers, hlitter, hfamily, BoxSearch.Config.liesIn_of_positive hstep,
    BoxSearch.Config.liesIn_of_positive hspread, BoxSearch.Config.liesIn_of_positive hlearning,
    BoxSearch.Config.liesIn_of_probability hmutation⟩

theorem Simplex.Config.ranges {s : Settings} {c : Config} (h : ofSettings s = .ok c) : c.Ranges := by
  obtain ⟨reflection, hreflection, h⟩ := exists_of_bind_eq_ok h
  obtain ⟨expansion, hexpansion, h⟩ := exists_of_bind_eq_ok h
  obtain ⟨contraction, hcontraction, h⟩ := exists_of_bind_eq_ok h
  obtain ⟨shrinkage, hshrinkage, h⟩ := exists_of_bind_eq_ok h
  obtain ⟨spread, hspread, h⟩ := exists_of_bind_eq_ok h
  rw [← Except.ok.inj h]
  exact ⟨BoxSearch.Config.liesIn_of_positive hreflection,
    BoxSearch.Config.liesIn_of_positive hexpansion, BoxSearch.Config.liesIn_of_positive hcontraction,
    BoxSearch.Config.liesIn_of_positive hshrinkage, BoxSearch.Config.liesIn_of_positive hspread⟩

theorem Rotation.Config.ranges {s : Settings} {c : Config} (h : ofSettings s = .ok c) : c.Ranges := by
  obtain ⟨stretch, hstretch, h⟩ := exists_of_bind_eq_ok h
  obtain ⟨shorten, hshorten, h⟩ := exists_of_bind_eq_ok h
  obtain ⟨stepSize, hstep, h⟩ := exists_of_bind_eq_ok h
  rw [← Except.ok.inj h]
  exact ⟨BoxSearch.Config.liesIn_of_positive hstretch, BoxSearch.Config.liesIn_of_positive hshorten,
    BoxSearch.Config.liesIn_of_positive hstep⟩

theorem Partition.Config.ranges {s : Settings} {c : Config} (h : ofSettings s = .ok c) :
    c.Ranges Number.NotBelowZero := by
  obtain ⟨ep, -, h⟩ := exists_of_bind_eq_ok h
  obtain ⟨hep, h⟩ := passes_of_eq_ok h
  obtain ⟨iterations, hiterations, h⟩ := exists_of_bind_eq_ok h
  obtain ⟨tolerance, htolerance, h⟩ := exists_of_bind_eq_ok h
  rw [ep.isNegative_iff] at hep
  obtain rfl := Except.ok.inj h
  refine ⟨hep, ?_, BoxSearch.Config.liesIn_of_positive htolerance⟩
  rintro cap (rfl : iterations = some cap)
  exact pos_of_readIterations hiterations

theorem Swarm.Config.Ranges.leastCount_le {nonNegative : Number → Prop} {c : Config}
    (h : c.Ranges nonNegative) : leastCount c.rule ≤ c.count := by
  have hcount := h.count
  cases hrule : c.rule <;> rw [hrule] at hcount <;> exact Int.ofNat_le.mpr hcount

/-! ## 3. Configurations -/

namespace MethodConfig

/-- Every number of a configuration lies in its range. -/
def Ranges (nonNegative : Number → Prop) : MethodConfig → Prop
  | hillClimb c => c.Ranges
  | swarm c => c.Ranges nonNegative
  | genetic c => c.Ranges nonNegative
  | evolution c => c.Ranges
  | simplex c => c.Ranges
  | rotation c => c.Ranges
  | partition c => c.Ranges nonNegative

/-- The numbers of which nothing is asked but that they are not negative. -/
def unsigned : MethodConfig → List Number
  | swarm c => [c.launch, c.spread, c.mutationSpread]
  | genetic c => [c.reach, c.mutationRange, c.precision]
  | partition c => [c.ep]
  | _ => []

theorem ranges {m : Method} {s : Settings} {c : MethodConfig} (h : m.configure s = .ok c) :
    c.Ranges Number.NotBelowZero := by
  cases m with
  | hillClimb =>
    obtain ⟨b, hb, rfl⟩ := exists_of_map_eq_ok h
    exact HillClimb.Config.ranges hb
  | swarm =>
    obtain ⟨b, hb, rfl⟩ := exists_of_map_eq_ok h
    exact Swarm.Config.ranges hb
  | genetic =>
    obtain ⟨b, hb, rfl⟩ := exists_of_map_eq_ok h
    exact Genetic.Config.ranges hb
  | evolution =>
    obtain ⟨b, hb, rfl⟩ := exists_of_map_eq_ok h
    exact Evolution.Config.ranges hb
  | simplex =>
    obtain ⟨b, hb, rfl⟩ := exists_of_map_eq_ok h
    exact Simplex.Config.ranges hb
  | rotation =>
    obtain ⟨b, hb, rfl⟩ := exists_of_map_eq_ok h
    exact Rotation.Config.ranges hb
  | partition =>
    obtain ⟨b, hb, rfl⟩ := exists_of_map_eq_ok h
    exact Partition.Config.ranges hb

variable {c : MethodConfig} {P Q : Number → Prop}

theorem Ranges.unsigned (h : c.Ranges P) : ∀ x ∈ c.unsigned, P x := by
  cases c with
  | swarm c =>
    simp only [MethodConfig.unsigned, List.forall_mem_cons]
    exact ⟨h.launch, h.spread, h.mutationSpread, List.forall_mem_nil _⟩
  | genetic c =>
    simp only [MethodConfig.unsigned, List.forall_mem_cons]
    exact ⟨h.reach, h.mutationRange, h.precision, List.forall_mem_nil _⟩
  | partition c =>
    simp only [MethodConfig.unsigned, List.forall_mem_cons]
    exact ⟨h.ep, List.forall_mem_nil _⟩
  | _ => exact List.forall_mem_nil _

theorem Ranges.imp (h : c.Ranges P) (hPQ : ∀ x ∈ c.unsigned, P x → Q x) : c.Ranges Q := by
  cases c with
  | swarm c =>
    simp only [MethodConfig.unsigned, List.forall_mem_cons] at hPQ
    obtain ⟨hlaunch, hspread, hmutation, -⟩ := hPQ
    exact { h with
      launch := hlaunch h.launch
      spread := hspread h.spread
      mutationSpread := hmutation h.mutationSpread }
  | genetic c =>
    simp only [MethodConfig.unsigned, List.forall_mem_cons] at hPQ
    obtain ⟨hreach, hrange, hprecision, -⟩ := hPQ
    exact { h with
      reach := hreach h.reach
      mutationRange := hrange h.mutationRange
      precision := hprecision h.precision }
  | partition c =>
    simp only [MethodConfig.unsigned, List.forall_mem_cons] at hPQ
    exact { h with ep := hPQ.1 h.ep }
  | _ => exact h

/-- Every number of an accepted configuration lies in its range, but for undefined numbers among those
that are only checked not to be negative. -/
theorem accepted_ranges {m : Method} {s : Settings} (h : m.configure s = .ok c) :
    c.Ranges Number.NotBelowZero ∧
      (c.Ranges (·.LiesIn (Set.Ici 0)) ↔ ∀ x ∈ c.unsigned, x.IsDefined) := by
  have hranges := ranges h
  refine ⟨hranges, fun hlies x hx => ?_, fun hdefined => ?_⟩
  · exact ((x.liesIn_Ici_iff).mp (hlies.unsigned x hx)).2
  · exact hranges.imp fun x hx hnonneg => (x.liesIn_Ici_iff).mpr ⟨hnonneg, hdefined x hx⟩

/-- A genetic search takes an undefined reach, which is not below zero and lies nowhere. -/
theorem accepted_ranges_undefined :
    ∃ c, Method.genetic.configure [("popsize", .real 7.9), ("d", .real (0.0 / 0.0))] = .ok c ∧
      c.Ranges Number.NotBelowZero ∧ ¬c.Ranges (·.LiesIn (Set.Ici 0)) := by
  refine ⟨.genetic ⟨7, 100, .real 0.7, .real 0.3, 1, .real (0.0 / 0.0), .real 0.1, .real 16.0⟩, rfl, ?_⟩
  obtain ⟨hranges, hdocumented⟩ := accepted_ranges (m := .genetic)
    (s := [("popsize", .real 7.9), ("d", .real (0.0 / 0.0))])
    (c := .genetic ⟨7, 100, .real 0.7, .real 0.3, 1, .real (0.0 / 0.0), .real 0.1, .real 16.0⟩) rfl
  refine ⟨hranges, fun h => ?_⟩
  obtain ⟨v, hv⟩ := hdocumented.mp h (.real (0.0 / 0.0)) List.mem_cons_self
  have hreading : Reading.ofFloat (0.0 / 0.0) = .undefined := by decide +kernel
  change v ∈ (Reading.ofFloat (0.0 / 0.0)).value at hv
  rw [hreading] at hv
  exact nomatch hv

end MethodConfig

end BoxSearch
