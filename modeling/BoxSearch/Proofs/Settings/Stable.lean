import BoxSearch.Proofs.Settings.Ranges

/-!
# Settings that amount to the same

A configuration is read field by field, and of several entries for one field only the last one is
read.  So entries that name no field may come and go, entries for different fields may change places,
and an entry that another one for its field follows may be left out: what remains is one entry for each
field that is given.  The settings of an accepted configuration are accepted as they are: each of them
lies in the range that it is checked against, and reads back as itself.
-/

namespace BoxSearch

/-! ## 1. Last entries -/

namespace Schema

variable (s : Schema) (settings settings' before after : Settings) (field : String)

/-- The value of the last entry for a field. -/
def last? : Option Setting :=
  ((settings.filter fun entry => s.field? entry.1 == some field).getLast?).map Prod.snd

/-- The entries that name fields. -/
def known : Settings := settings.filter fun entry => (s.field? entry.1).isSome

/-- The fields that are given, each under its own name and with the value of its last entry. -/
def lasting : Settings :=
  s.fields.filterMap fun field => (s.last? settings field).map fun value => (field, value)

theorem valueOf_eq (default : Setting) :
    s.valueOf settings field default = (s.last? settings field).getD default := by
  unfold valueOf last?
  rw [← List.head?_filter, List.filter_reverse, List.head?_reverse]
  cases (settings.filter fun entry => s.field? entry.1 == some field).getLast? <;> rfl

theorem last?_known : s.last? (s.known settings) field = s.last? settings field := by
  have hnames : ∀ entry : String × Setting,
      (s.field? entry.1 == some field && (s.field? entry.1).isSome) =
        (s.field? entry.1 == some field) := by
    intro entry
    cases s.field? entry.1 <;> simp
  simp only [last?, known, List.filter_filter, hnames]

theorem last?_append :
    s.last? (before ++ after) field = (s.last? after field).or (s.last? before field) := by
  simp only [last?, List.filter_append, List.getLast?_append, Option.map_or]

variable {entry entry' : String × Setting}

theorem last?_cons : s.last? (entry :: after) field =
    (s.last? after field).or (if s.field? entry.1 = some field then some entry.2 else none) := by
  have hfirst : s.last? [entry] field =
      if s.field? entry.1 = some field then some entry.2 else none := by
    by_cases h : s.field? entry.1 = some field <;> simp [last?, h]
  rw [← List.singleton_append, last?_append, hfirst]

theorem last?_eq_none (h : ∀ entry ∈ settings, s.field? entry.1 ≠ some field) :
    s.last? settings field = none := by
  rw [last?, Option.map_eq_none_iff, List.getLast?_eq_none_iff, List.filter_eq_nil_iff]
  exact fun entry hentry => mt beq_iff_eq.mp (h entry hentry)

theorem last?_eq_none_of_not_mem (h : field ∉ s.fields) : s.last? settings field = none := by
  refine s.last?_eq_none settings field fun entry _ hfield => h ?_
  unfold field? at hfield
  dsimp only at hfield
  split_ifs at hfield with hmem
  exact Option.some.inj hfield ▸ List.contains_iff_mem.mp hmem

theorem last?_isSome (h : ∃ entry ∈ settings, s.field? entry.1 = some field) :
    (s.last? settings field).isSome := by
  obtain ⟨entry, hentry, hfield⟩ := h
  rw [last?, Option.isSome_map, Option.isSome_iff_ne_none, Ne, List.getLast?_eq_none_iff]
  exact List.ne_nil_of_mem (List.mem_filter.mpr ⟨hentry, beq_iff_eq.mpr hfield⟩)

theorem last?_swap (h : s.field? entry.1 ≠ s.field? entry'.1) :
    s.last? (before ++ entry :: entry' :: after) field =
      s.last? (before ++ entry' :: entry :: after) field := by
  simp only [last?_append, last?_cons]
  by_cases hfield : s.field? entry.1 = some field
  · rw [if_neg (hfield ▸ h.symm), Option.or_none, Option.or_none]
  · rw [if_neg hfield, Option.or_none, Option.or_none]

theorem last?_superseded (h : ∃ later ∈ after, s.field? later.1 = s.field? entry.1) :
    s.last? (before ++ entry :: after) field = s.last? (before ++ after) field := by
  obtain ⟨later, hlater, hsame⟩ := h
  rw [last?_append, last?_append, last?_cons]
  by_cases hfield : s.field? entry.1 = some field
  · have hsome := s.last?_isSome after field ⟨later, hlater, hsame.trans hfield⟩
    rw [Option.or_of_isSome hsome]
  · rw [if_neg hfield, Option.or_none]

/-- What is read for a field is the value of the last entry that names it. -/
theorem valueOf_of_last (default : Setting) (hentry : s.field? entry.1 = some field)
    (hafter : ∀ later ∈ after, s.field? later.1 ≠ some field) :
    s.valueOf (before ++ entry :: after) field default = entry.2 := by
  rw [valueOf_eq, last?_append, last?_cons, s.last?_eq_none after field hafter, if_pos hentry]
  rfl

/-- Every field goes by its own name. -/
structure IsProper : Prop where
  nodup : s.fields.Nodup
  named : ∀ field ∈ s.fields, s.field? field = some field

variable {s} in
/-- The lasting entries of some fields have the same last values for these fields. -/
theorem IsProper.last?_filterMap (hs : s.IsProper) {fields : List String} (hfields : fields.Nodup)
    (hmem : ∀ field ∈ fields, field ∈ s.fields) :
    s.last? (fields.filterMap fun name => (s.last? settings name).map fun value => (name, value))
      field = if field ∈ fields then s.last? settings field else none := by
  induction fields with
  | nil => rfl
  | cons name rest ih =>
    obtain ⟨hname, hrest⟩ := List.nodup_cons.mp hfields
    have hown := hs.named name (hmem name List.mem_cons_self)
    have hothers := ih hrest fun field hfield => hmem field (List.mem_cons_of_mem name hfield)
    by_cases hfield : field = name
    · subst hfield
      rw [if_neg hname] at hothers
      rw [if_pos List.mem_cons_self]
      cases hvalue : s.last? settings field with
      | none => rw [List.filterMap_cons_none (by rw [hvalue]; rfl), hothers]
      | some value =>
        rw [List.filterMap_cons_some (by rw [hvalue]; rfl), last?_cons, hothers, if_pos hown]
        rfl
    · have hsame : field ∈ name :: rest ↔ field ∈ rest := by
        rw [List.mem_cons, or_iff_right hfield]
      rw [if_congr hsame rfl rfl, ← hothers]
      cases hvalue : s.last? settings name with
      | none => rw [List.filterMap_cons_none (by rw [hvalue]; rfl)]
      | some value =>
        rw [List.filterMap_cons_some (by rw [hvalue]; rfl), last?_cons, hown,
          if_neg fun heq => hfield (Option.some.inj heq).symm, Option.or_none]

variable {s} in
theorem IsProper.last?_lasting (hs : s.IsProper) :
    s.last? (s.lasting settings) field = s.last? settings field := by
  unfold lasting
  rw [hs.last?_filterMap settings field hs.nodup fun _ hfield => hfield]
  split_ifs with hfield
  · rfl
  · exact (s.last?_eq_none_of_not_mem settings field hfield).symm

end Schema

theorem Method.schema_isProper (m : Method) : m.schema.IsProper := by
  cases m
  all_goals exact ⟨by decide, by decide⟩

/-- Settings with the same last entries amount to the same. -/
theorem Method.configure_congr (m : Method) {s s' : Settings}
    (h : ∀ field, m.schema.last? s field = m.schema.last? s' field) :
    m.configure s = m.configure s' := by
  have hvalue : m.schema.valueOf s = m.schema.valueOf s' := by
    funext field default
    rw [Schema.valueOf_eq, Schema.valueOf_eq, h]
  -- Every method reads its settings by `valueOf` alone.
  cases m <;> dsimp only [schema] at hvalue
  · simp only [configure, HillClimb.Config.ofSettings, hvalue]
  · simp only [configure, Swarm.Config.ofSettings, hvalue]
  · simp only [configure, Genetic.Config.ofSettings, hvalue]
  · simp only [configure, Evolution.Config.ofSettings, hvalue]
  · simp only [configure, Simplex.Config.ofSettings, hvalue]
  · simp only [configure, Rotation.Config.ofSettings, hvalue]
  · simp only [configure, Partition.Config.ofSettings, hvalue]

/-! ## 2. Numbers and modes -/

namespace Config

variable (setting : String) {x : Number}

theorem number_toSetting : number x.toSetting = .ok x := by
  cases x <;> rfl

theorem positive_toSetting (h : x.LiesIn (Set.Ioi 0)) : positive setting x.toSetting = .ok x := by
  unfold positive
  rw [number_toSetting]
  exact if_pos (x.isPositive_iff.mpr h)

theorem probability_toSetting (h : x.LiesIn (Set.Icc 0 1)) :
    probability setting x.toSetting = .ok x := by
  unfold probability
  rw [number_toSetting]
  exact if_pos (x.isProbability_iff.mpr h)

theorem notNegative_toSetting (h : x.NotBelowZero) : notNegative setting x.toSetting = .ok x := by
  unfold notNegative
  rw [number_toSetting]
  exact if_neg (mt x.isNegative_iff.mp h)

theorem atLeast_whole {least k : ℤ} (h : least ≤ k) : atLeast setting least (.whole k) = .ok k :=
  if_neg h.not_gt

end Config

theorem Sampling.mode_modeName (setting : String) (b : Sampling) :
    Config.mode table setting (.text (Config.modeName table b)) = .ok b := by
  cases b <;> rfl

theorem Swarm.Rule.mode_modeName (setting : String) (b : Rule) :
    Config.mode table setting (.text (Config.modeName table b)) = .ok b := by
  cases b <;> rfl

theorem Swarm.Refresh.mode_modeName (setting : String) (b : Refresh) :
    Config.mode table setting (.text (Config.modeName table b)) = .ok b := by
  cases b <;> rfl

theorem Evolution.Marriage.mode_modeName (setting : String) (b : Marriage) :
    Config.mode table setting (.text (Config.modeName table b)) = .ok b := by
  cases b <;> rfl

/-! ## 3. Methods -/

theorem HillClimb.Config.ofSettings_toSettings {c : Config} (h : c.Ranges) :
    ofSettings c.toSettings = .ok c :=
  bind_eq_ok (BoxSearch.Config.positive_toSetting _ h.stepSize) rfl

theorem Swarm.Config.ofSettings_toSettings {c : Config} (h : c.Ranges Number.NotBelowZero) :
    ofSettings c.toSettings = .ok c := by
  have hcount : readCount c.rule (.whole c.count) = .ok c.count := if_neg h.leastCount_le.not_gt
  refine bind_eq_ok (Rule.mode_modeName _ _) ?_
  refine bind_eq_ok (Refresh.mode_modeName _ _) ?_
  refine bind_eq_ok (Sampling.mode_modeName _ _) ?_
  refine bind_eq_ok hcount ?_
  refine bind_eq_ok (BoxSearch.Config.positive_toSetting _ h.damping) ?_
  refine bind_eq_ok (BoxSearch.Config.probability_toSetting _ h.mutation) ?_
  refine bind_eq_ok (BoxSearch.Config.notNegative_toSetting _ h.launch) ?_
  refine bind_eq_ok (BoxSearch.Config.notNegative_toSetting _ h.spread) ?_
  refine bind_eq_ok (BoxSearch.Config.notNegative_toSetting _ h.mutationSpread) ?_
  rfl

theorem Genetic.Config.ofSettings_toSettings {c : Config} (h : c.Ranges Number.NotBelowZero) :
    ofSettings c.toSettings = .ok c := by
  have hsize : ¬((c.size : ℤ) < 2) := by
    have hsize := h.size
    omega
  have helite : 0 ≤ (c.elite : ℤ) ∧ (c.elite : ℤ) < c.size := by
    have helite := h.elite
    omega
  have hgenerations : 0 < (c.generations : ℤ) := by
    have hgenerations := h.generations
    omega
  refine bind_eq_ok rfl ?_
  refine bind_eq_ok rfl ?_
  refine bind_eq_ok rfl ?_
  refine (if_neg hsize).trans ?_
  refine (if_pos helite).trans ?_
  refine (if_pos hgenerations).trans ?_
  refine bind_eq_ok (BoxSearch.Config.probability_toSetting _ h.crossing) ?_
  refine bind_eq_ok (BoxSearch.Config.probability_toSetting _ h.mutation) ?_
  refine bind_eq_ok (BoxSearch.Config.notNegative_toSetting _ h.reach) ?_
  refine bind_eq_ok (BoxSearch.Config.notNegative_toSetting _ h.mutationRange) ?_
  refine bind_eq_ok (BoxSearch.Config.notNegative_toSetting _ h.precision) ?_
  rfl

theorem Evolution.Config.ofSettings_toSettings {c : Config} (h : c.Ranges) :
    ofSettings c.toSettings = .ok c := by
  have hsize : 1 ≤ (c.size : ℤ) := Int.ofNat_le.mpr h.size
  have hchildren : 1 ≤ (c.children : ℤ) := Int.ofNat_le.mpr h.children
  have hparents : 1 ≤ (c.parents : ℤ) := Int.ofNat_le.mpr h.parents.1
  have hfamily : (min (c.parents : ℤ) c.size).toNat = c.parents := by
    have hfew := h.parents.2
    omega
  refine bind_eq_ok (BoxSearch.Config.atLeast_whole _ hsize) ?_
  refine bind_eq_ok (BoxSearch.Config.atLeast_whole _ hchildren) ?_
  refine bind_eq_ok (BoxSearch.Config.atLeast_whole _ hparents) ?_
  refine bind_eq_ok (Marriage.mode_modeName _ _) ?_
  refine bind_eq_ok (Sampling.mode_modeName _ _) ?_
  refine bind_eq_ok (BoxSearch.Config.positive_toSetting _ h.stepSize) ?_
  refine bind_eq_ok (BoxSearch.Config.positive_toSetting _ h.spread) ?_
  refine bind_eq_ok (BoxSearch.Config.positive_toSetting _ h.learning) ?_
  refine bind_eq_ok (BoxSearch.Config.probability_toSetting _ h.mutation) ?_
  rw [hfamily]
  rfl

theorem Simplex.Config.ofSettings_toSettings {c : Config} (h : c.Ranges) :
    ofSettings c.toSettings = .ok c := by
  refine bind_eq_ok (BoxSearch.Config.positive_toSetting _ h.reflection) ?_
  refine bind_eq_ok (BoxSearch.Config.positive_toSetting _ h.expansion) ?_
  refine bind_eq_ok (BoxSearch.Config.positive_toSetting _ h.contraction) ?_
  refine bind_eq_ok (BoxSearch.Config.positive_toSetting _ h.shrinkage) ?_
  refine bind_eq_ok (BoxSearch.Config.positive_toSetting _ h.spread) ?_
  rfl

theorem Rotation.Config.ofSettings_toSettings {c : Config} (h : c.Ranges) :
    ofSettings c.toSettings = .ok c := by
  refine bind_eq_ok (BoxSearch.Config.positive_toSetting _ h.stretch) ?_
  refine bind_eq_ok (BoxSearch.Config.positive_toSetting _ h.shorten) ?_
  refine bind_eq_ok (BoxSearch.Config.positive_toSetting _ h.stepSize) ?_
  rfl

theorem Partition.Config.ofSettings_toSettings {c : Config} (h : c.Ranges Number.NotBelowZero) :
    ofSettings c.toSettings = .ok c := by
  have hep : ¬(c.ep.isNegative = true) := mt c.ep.isNegative_iff.mp h.ep
  refine bind_eq_ok BoxSearch.Config.number_toSetting ?_
  refine (if_neg hep).trans ?_
  obtain ⟨ep, iterations, target, tolerance⟩ := c
  have hiterations : readIterations (schema.valueOf (toSettings ⟨ep, iterations, target, tolerance⟩)
      "maxits" .null) = .ok iterations := by
    cases iterations with
    | none => rfl
    | some cap => exact if_pos (Int.natCast_pos.mpr (h.iterations cap rfl))
  refine bind_eq_ok hiterations ?_
  refine bind_eq_ok (BoxSearch.Config.positive_toSetting _ h.tolerance) ?_
  rfl

theorem MethodConfig.configure_toSettings {m : Method} {s : Settings} {c : MethodConfig}
    (h : m.configure s = .ok c) : m.configure c.toSettings = .ok c := by
  cases m with
  | hillClimb =>
    obtain ⟨b, hb, rfl⟩ := exists_of_map_eq_ok h
    have hb := HillClimb.Config.ofSettings_toSettings (HillClimb.Config.ranges hb)
    exact congrArg (hillClimb <$> ·) hb
  | swarm =>
    obtain ⟨b, hb, rfl⟩ := exists_of_map_eq_ok h
    have hb := Swarm.Config.ofSettings_toSettings (Swarm.Config.ranges hb)
    exact congrArg (swarm <$> ·) hb
  | genetic =>
    obtain ⟨b, hb, rfl⟩ := exists_of_map_eq_ok h
    have hb := Genetic.Config.ofSettings_toSettings (Genetic.Config.ranges hb)
    exact congrArg (genetic <$> ·) hb
  | evolution =>
    obtain ⟨b, hb, rfl⟩ := exists_of_map_eq_ok h
    have hb := Evolution.Config.ofSettings_toSettings (Evolution.Config.ranges hb)
    exact congrArg (evolution <$> ·) hb
  | simplex =>
    obtain ⟨b, hb, rfl⟩ := exists_of_map_eq_ok h
    have hb := Simplex.Config.ofSettings_toSettings (Simplex.Config.ranges hb)
    exact congrArg (simplex <$> ·) hb
  | rotation =>
    obtain ⟨b, hb, rfl⟩ := exists_of_map_eq_ok h
    have hb := Rotation.Config.ofSettings_toSettings (Rotation.Config.ranges hb)
    exact congrArg (rotation <$> ·) hb
  | partition =>
    obtain ⟨b, hb, rfl⟩ := exists_of_map_eq_ok h
    have hb := Partition.Config.ofSettings_toSettings (Partition.Config.ranges hb)
    exact congrArg (partition <$> ·) hb

theorem MethodConfig.keys_toSettings {m : Method} {s : Settings} {c : MethodConfig}
    (h : m.configure s = .ok c) : c.toSettings.map Prod.fst = m.schema.fields := by
  cases m <;> obtain ⟨b, -, rfl⟩ := exists_of_map_eq_ok h <;> rfl

/-- The settings of an accepted configuration name each field once, and amount to it again. Entries that
name no field do not matter, nor does the order of entries for different fields, nor an entry that a
later one for the same field follows.  What is read for a field is the value of the last entry that names
it, and the default if there is none, so that settings amount to the same as one entry for each field. -/
theorem Method.configure_stable (m : Method) :
    (∀ s c, m.configure s = .ok c →
      c.toSettings.map Prod.fst = m.schema.fields ∧ m.configure c.toSettings = .ok c) ∧
    (∀ s s', m.schema.known s = m.schema.known s' → m.configure s = m.configure s') ∧
    (∀ before entry entry' after, m.schema.field? entry.1 ≠ m.schema.field? entry'.1 →
      m.configure (before ++ entry :: entry' :: after) =
        m.configure (before ++ entry' :: entry :: after)) ∧
    (∀ before entry after, (∃ later ∈ after, m.schema.field? later.1 = m.schema.field? entry.1) →
      m.configure (before ++ entry :: after) = m.configure (before ++ after)) ∧
    (∀ before entry after field default, m.schema.field? entry.1 = some field →
      (∀ later ∈ after, m.schema.field? later.1 ≠ some field) →
        m.schema.valueOf (before ++ entry :: after) field default = entry.2) ∧
    (∀ s field default, (∀ entry ∈ s, m.schema.field? entry.1 ≠ some field) →
      m.schema.valueOf s field default = default) ∧
    ∀ s, m.configure s = m.configure (m.schema.lasting s) := by
  refine ⟨fun s c h => ?_, fun s s' h => ?_, fun before entry entry' after h => ?_,
    fun before entry after h => ?_, fun before entry after field default h hafter => ?_,
    fun s field default h => ?_, fun s => ?_⟩
  · exact ⟨MethodConfig.keys_toSettings h, MethodConfig.configure_toSettings h⟩
  · refine m.configure_congr fun field => ?_
    rw [← Schema.last?_known, h, Schema.last?_known]
  · exact m.configure_congr fun field => m.schema.last?_swap before after field h
  · exact m.configure_congr fun field => m.schema.last?_superseded before after field h
  · exact m.schema.valueOf_of_last before after field default h hafter
  · rw [Schema.valueOf_eq, m.schema.last?_eq_none s field h]
    rfl
  · exact m.configure_congr fun field => (m.schema_isProper.last?_lasting s field).symm

/-- An evolution of seven whose children are given twice, the second time by another key, and whose
children have more parents than there are members. -/
theorem Method.configure_stable_evolution :
    let given : Settings := [("lambda", .whole 3), ("roh", .real 9.5), ("seed", .whole 1),
      ("lambda_", .flag true), ("selmode", .text "RANDOM"), ("popsize", .real 7.9)]
    let read : MethodConfig :=
      .evolution ⟨7, 1, 7, .random, .real 0.5, .real 0.5, .real 1.0, .real 0.5, .uniform⟩
    Method.evolution.configure given = .ok read ∧
      Method.evolution.configure read.toSettings = .ok read ∧
      Method.evolution.configure [("roh", .real 9.5), ("lambda_", .flag true),
        ("popsize", .real 7.9), ("selmode", .text "RANDOM")] = .ok read ∧
      Method.evolution.schema.valueOf given "lambda_" .null = .flag true ∧
      Method.evolution.schema.valueOf given "tauc" (.real 1.0) = .real 1.0 ∧
      Method.evolution.configure [("popsize", .real 7.9), ("lambda_", .flag true),
        ("roh", .real 9.5), ("selmode", .text "RANDOM")] = .ok read := by
  intro given read
  obtain ⟨hown, hknown, hswap, hsuperseded, hlast, hdefault, hlasting⟩ :=
    Method.configure_stable .evolution
  have haccepted : Method.evolution.configure given = .ok read := rfl
  have hdropped := hsuperseded [] ("lambda", .whole 3) [("roh", .real 9.5), ("seed", .whole 1),
    ("lambda_", .flag true), ("selmode", .text "RANDOM"), ("popsize", .real 7.9)]
    ⟨("lambda_", .flag true), by simp, rfl⟩
  have hunknown := hknown [("roh", .real 9.5), ("seed", .whole 1), ("lambda_", .flag true),
    ("selmode", .text "RANDOM"), ("popsize", .real 7.9)] [("roh", .real 9.5), ("lambda_", .flag true),
    ("selmode", .text "RANDOM"), ("popsize", .real 7.9)] rfl
  have hswapped := hswap [("roh", .real 9.5), ("lambda_", .flag true)] ("selmode", .text "RANDOM")
    ("popsize", .real 7.9) [] (by decide)
  refine ⟨haccepted, (hown _ _ haccepted).2,
    hswapped.symm.trans (hunknown.symm.trans (hdropped.symm.trans haccepted)), ?_, ?_,
    (hlasting given).symm.trans haccepted⟩
  · exact hlast [("lambda", .whole 3), ("roh", .real 9.5), ("seed", .whole 1)]
      ("lambda_", .flag true) [("selmode", .text "RANDOM"), ("popsize", .real 7.9)] "lambda_" .null
      (by decide) (by decide)
  · exact hdefault given "tauc" (.real 1.0) (by decide)

end BoxSearch
