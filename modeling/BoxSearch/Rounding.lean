/-!
# Rounding — quotients to the nearest integer

A quotient of integers is rounded to the nearest integer, and a quotient half-way between two
integers goes to the even one. Every rounding of the library goes through `roundQuot`: the digits
of a printed number, the integer variables of a point, the rows of a grid.
-/

namespace BoxSearch

/-- The integer nearest to `num / den`; a tie goes to the even neighbour. -/
def roundQuot (num den : Nat) : Nat :=
  let q := num / den
  let r := num % den
  if 2 * r < den then q
  else if den < 2 * r then q + 1
  else q + q % 2

/-! ## 1. Rounding stays within half a unit -/

theorem two_mul_roundQuot_le (num den : Nat) (h : 0 < den) :
    2 * (den * roundQuot num den) ≤ 2 * num + den := by
  have hdiv := Nat.div_add_mod num den
  have hmod := Nat.mod_lt num h
  unfold roundQuot
  simp only
  generalize num / den = q at *
  generalize num % den = r at *
  split
  · omega
  · split
    · rw [Nat.mul_add]; omega
    · rcases Nat.mod_two_eq_zero_or_one q with hq | hq
      · rw [hq]; simp only [Nat.add_zero]; omega
      · rw [hq, Nat.mul_add]; omega

theorem le_two_mul_roundQuot (num den : Nat) (h : 0 < den) :
    2 * num ≤ 2 * (den * roundQuot num den) + den := by
  have hdiv := Nat.div_add_mod num den
  have hmod := Nat.mod_lt num h
  unfold roundQuot
  simp only
  generalize num / den = q at *
  generalize num % den = r at *
  split
  · omega
  · split
    · rw [Nat.mul_add]; omega
    · rcases Nat.mod_two_eq_zero_or_one q with hq | hq
      · rw [hq]; simp only [Nat.add_zero]; omega
      · rw [hq, Nat.mul_add]; omega

end BoxSearch
