import Mathlib
import BoxSearch.Method

/-!
# Reading settings

A configuration is read one value after the other, and each is checked on the way: what was accepted has
passed its check.
-/

namespace BoxSearch

/-! ## 1. One after the other -/

/-- A reading gives what its parts give. -/
theorem bind_eq_ok {ε β γ : Type} {x : Except ε β} {f : β → Except ε γ} {b : β} {c : γ}
    (hx : x = .ok b) (hf : f b = .ok c) : x >>= f = .ok c := by
  rw [hx]
  exact hf

/-- What a reading gives, its first part gave before. -/
theorem exists_of_bind_eq_ok {ε β γ : Type} {x : Except ε β} {f : β → Except ε γ} {c : γ}
    (h : x >>= f = .ok c) : ∃ b, x = .ok b ∧ f b = .ok c := by
  cases x with
  | error e => exact nomatch h
  | ok b => exact ⟨b, rfl, h⟩

theorem exists_of_map_eq_ok {ε β γ : Type} {x : Except ε β} {f : β → γ} {c : γ}
    (h : f <$> x = .ok c) : ∃ b, x = .ok b ∧ f b = c := by
  cases x with
  | error e => exact nomatch h
  | ok b => exact ⟨b, rfl, Except.ok.inj h⟩

/-- A reading that goes on behind a check was not refused by it. -/
theorem passes_of_eq_ok {ε γ : Type} {p : Prop} [Decidable p] {e : ε} {f : Unit → Except ε γ} {c : γ}
    (h : (if p then (throw e >>= f) else f ()) = .ok c) : ¬p ∧ f () = .ok c := by
  split_ifs at h with hp
  · exact nomatch h
  · exact ⟨hp, h⟩

theorem fits_of_eq_ok {ε γ : Type} {p : Prop} [Decidable p] {e : ε} {f : Unit → Except ε γ} {c : γ}
    (h : (if p then f () else (throw e >>= f)) = .ok c) : p ∧ f () = .ok c := by
  split_ifs at h with hp
  · exact ⟨hp, h⟩
  · exact nomatch h

/-! ## 2. Checks -/

theorem Config.le_of_atLeast {setting : String} {least : ℤ} {v : Setting} {k : ℤ}
    (h : Config.atLeast setting least v = .ok k) : least ≤ k := by
  obtain ⟨j, -, h⟩ := exists_of_bind_eq_ok h
  split_ifs at h with hless
  rw [← Except.ok.inj h]
  exact not_lt.mp hless

theorem Config.isNegative_of_notNegative {settings : String} {v : Setting} {x : Number}
    (h : Config.notNegative settings v = .ok x) : x.isNegative = false := by
  obtain ⟨y, -, h⟩ := exists_of_bind_eq_ok h
  split_ifs at h with hnegative
  rw [← Except.ok.inj h]
  exact Bool.eq_false_iff.mpr hnegative

theorem Config.isPositive_of_positive {setting : String} {v : Setting} {x : Number}
    (h : Config.positive setting v = .ok x) : x.isPositive = true := by
  obtain ⟨y, -, h⟩ := exists_of_bind_eq_ok h
  split_ifs at h with hpositive
  rwa [← Except.ok.inj h]

theorem Swarm.Config.leastCount_le {rule : Rule} {v : Setting} {k : ℕ}
    (h : readCount rule v = .ok k) : leastCount rule ≤ k := by
  obtain ⟨j, -, h⟩ := exists_of_bind_eq_ok h
  split_ifs at h with hless
  rw [← Except.ok.inj h]
  exact (not_lt.mp hless).trans (Int.self_le_toNat j)

theorem Evolution.Config.one_le_of_readChildren {size : ℤ} {v : Setting} {k : ℤ}
    (h : readChildren size v = .ok k) : 1 ≤ k := by
  unfold readChildren at h
  split at h <;> exact BoxSearch.Config.le_of_atLeast h

theorem Partition.Config.pos_of_readIterations {v : Setting} {cap : ℕ}
    (h : readIterations v = .ok (some cap)) : 0 < cap := by
  unfold readIterations at h
  split at h
  · exact nomatch Except.ok.inj h
  · obtain ⟨k, -, h⟩ := exists_of_bind_eq_ok h
    split_ifs at h with hpos
    rw [← Option.some.inj (Except.ok.inj h)]
    exact Int.pos_iff_toNat_pos.mp hpos

end BoxSearch
