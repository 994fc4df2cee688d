import Mathlib
import BoxSearch.Proofs.Faultless.Axes

/-!
# A basis along a direction

The rows of a basis are a row for every dimension, and the first one follows the direction unless next to
nothing is left of it.  A basis that is made from the rows of a basis is that basis: its first row is there
when it comes up again and is skipped, and every other row is orthogonal to those before it and accepted as
it is.
-/

namespace BoxSearch

variable {n : ℕ}

namespace Point

theorem norm_eq_one {q : Point ℝ n} (hq : dot q q = 1) : norm q = 1 := by
  show Real.sqrt _ = 1
  rw [hq, Real.sqrt_one]

theorem sub_scale_zero (v q : Point ℝ n) : sub v (scale 0 q) = v := by
  apply ext_get
  intro i
  rw [sub, get_ofFn, scale, get_ofFn, zero_mul, sub_zero]

theorem shrink_one (v : Point ℝ n) : shrink v 1 = v := by
  apply ext_get
  intro i
  rw [shrink, get_ofFn, div_one]

end Point

namespace Orthonormal

open Point

variable {rows rest : List (Point ℝ n)} {q : Point ℝ n} {tolerance : ℝ}

/-! ## 1. Rows that come up again -/

/-- Nothing is taken out of a vector that is orthogonal to the rows. -/
theorem residual_of_orthogonal {v : Point ℝ n} (hv : ∀ q ∈ rows, dot v q = 0) :
    residual rows v = v := by
  induction rows with
  | nil => rfl
  | cons q rows ih =>
    show residual rows (sub v (scale (dot v q) q)) = v
    rw [hv q List.mem_cons_self, sub_scale_zero]
    exact ih fun p hp => hv p (List.mem_cons_of_mem q hp)

/-- The next one of some orthonormal rows is accepted as it is. -/
theorem IsOrthonormal.accept_next (h : IsOrthonormal (rows ++ q :: rest)) (hlt : tolerance < 1) :
    Orthonormal.accept tolerance rows q = rows ++ [q] := by
  have horthogonal : ∀ p ∈ rows, dot q p = 0 := fun p hp =>
    (dot_comm q p).trans ((List.pairwise_append.mp h.orthogonal).2.2 p hp q List.mem_cons_self)
  have hnorm : norm q = 1 :=
    norm_eq_one (h.unit q (List.mem_append_right rows List.mem_cons_self))
  rw [accept_eq, residual_of_orthogonal horthogonal, hnorm, max_self, mul_one, if_pos hlt,
    shrink_one]

/-- A row that is there already is skipped. -/
theorem accept_again (hq : dot q q = 1) (htolerance : 0 ≤ tolerance) :
    Orthonormal.accept tolerance [q] q = [q] := by
  have hrow : IsOrthonormal [q] :=
    ⟨fun p hp => List.mem_singleton.mp hp ▸ hq, List.pairwise_singleton _ _⟩
  have hcoverage : coverage [q] q = 1 := by
    unfold coverage
    rw [List.map_singleton, List.sum_singleton, hq, mul_one]
  have hnothing : norm (residual [q] q) = 0 := by
    show Real.sqrt _ = 0
    rw [hrow.dot_residual_self, hq, hcoverage, sub_self, Real.sqrt_zero]
  rw [accept_eq, hnothing, if_neg (bar_nonneg htolerance q).not_gt]

/-! ## 2. A basis as a list of candidates -/

theorem collect_cons (v : Point ℝ n) (candidates rows : List (Point ℝ n)) :
    collect tolerance (v :: candidates) rows =
      if (Orthonormal.accept tolerance rows v).length = n then Orthonormal.accept tolerance rows v
      else collect tolerance candidates (Orthonormal.accept tolerance rows v) :=
  rfl

theorem along_eq (direction : Point ℝ n) (basis : List (Point ℝ n)) :
    along tolerance direction basis =
      if (Orthonormal.accept tolerance [] direction).length = n then
        Orthonormal.accept tolerance [] direction
      else collect tolerance (basis ++ unitVectors n) (Orthonormal.accept tolerance [] direction) :=
  rfl

/-- The rows of a basis are accepted one after the other, and no candidate after them is looked at. -/
theorem collect_rows (hlt : tolerance < 1) (others : List (Point ℝ n))
    (h : IsOrthonormal (rows ++ q :: rest)) (hn : (rows ++ q :: rest).length = n) :
    collect tolerance (q :: rest ++ others) rows = rows ++ q :: rest := by
  induction rest generalizing q rows with
  | nil =>
    rw [List.cons_append, collect_cons, h.accept_next hlt]
    exact if_pos hn
  | cons p rest ih =>
    have hmore : (rows ++ [q]).length ≠ n := by
      simp only [List.length_append, List.length_cons, List.length_nil] at hn ⊢
      omega
    have hsplit : rows ++ q :: p :: rest = rows ++ [q] ++ p :: rest :=
      List.append_cons rows q (p :: rest)
    rw [List.cons_append, collect_cons, h.accept_next hlt, if_neg hmore, hsplit]
    exact ih (hsplit ▸ h) (hsplit ▸ hn)

theorem along_rows (htolerance : 0 ≤ tolerance) (hlt : tolerance < 1)
    (h : IsOrthonormal (q :: rest)) (hn : (q :: rest).length = n) :
    along tolerance q (q :: rest) = q :: rest := by
  have hnone : IsOrthonormal ([] ++ q :: rest) := h
  have hfirst : Orthonormal.accept tolerance [] q = [q] := hnone.accept_next hlt
  rw [along_eq, hfirst]
  cases rest with
  | nil => exact if_pos hn
  | cons p rest =>
    have hone : [q].length ≠ n := by
      simp only [List.length_cons, List.length_nil] at hn ⊢
      omega
    rw [if_neg hone, List.cons_append, collect_cons,
      accept_again (h.unit q List.mem_cons_self) htolerance, if_neg hone]
    have hrows : IsOrthonormal ([q] ++ p :: rest) := h
    exact collect_rows hlt (unitVectors n) hrows hn

/-! ## 3. The first row -/

theorem head?_along (htolerance : 0 ≤ tolerance) {direction : Point ℝ n}
    (hlong : tolerance * max 1 (norm direction) < norm direction) (basis : List (Point ℝ n)) :
    (along tolerance direction basis).head? = some (shrink direction (norm direction)) := by
  have hnone : IsOrthonormal ([] : List (Point ℝ n)) := ⟨(fun _ hq => nomatch hq), .nil⟩
  have haccept : Orthonormal.accept tolerance [] direction = [shrink direction (norm direction)] := by
    rw [accept_eq]
    exact if_pos hlong
  obtain ⟨-, ⟨more, hmore⟩, -⟩ :=
    (hnone.accept htolerance direction).collect htolerance (basis ++ unitVectors n)
  rw [along_eq]
  split_ifs with hn
  · rw [haccept]
    rfl
  · rw [hmore, haccept]
    rfl

/-- With a small enough tolerance, a basis along any direction, made from any rows, has a row for every
dimension, each of length one and orthogonal to the others.  The first row follows the direction if the
direction is long enough for the tolerance, and a basis made from the rows and along the first of them is
the same. -/
theorem along_isBasis (hn : 0 < n) (htolerance : 0 ≤ tolerance) (hsmall : n * tolerance ^ 2 < 1)
    (direction : Point ℝ n) (basis : List (Point ℝ n)) :
    let rows := along tolerance direction basis
    (rows.length = n ∧ (∀ q ∈ rows, norm q = 1) ∧ rows.Pairwise fun p q => dot p q = 0) ∧
      (tolerance * max 1 (norm direction) < norm direction →
        rows.head? = some (shrink direction (norm direction))) ∧
      ∃ first rest, rows = first :: rest ∧ along tolerance first rows = rows := by
  intro rows
  have hlt : tolerance < 1 := by
    have hone : (1 : ℝ) ≤ n := by exact_mod_cast hn
    nlinarith
  obtain ⟨hrows, hlength⟩ : IsOrthonormal rows ∧ rows.length = n :=
    along_complete htolerance (pow_two tolerance ▸ hsmall) direction basis
  refine ⟨⟨hlength, fun q hq => norm_eq_one (hrows.unit q hq), hrows.orthogonal⟩,
    fun hlong => head?_along htolerance hlong basis, ?_⟩
  obtain ⟨first, rest, hsplit⟩ := List.exists_cons_of_length_pos (hlength.symm ▸ hn : 0 < rows.length)
  refine ⟨first, rest, hsplit, ?_⟩
  rw [hsplit] at hrows hlength ⊢
  exact along_rows htolerance hlt hrows hlength

/-- In the plane, a zero row and a row along the direction are skipped, and a unit vector fills in. -/
theorem along_isBasis_plane :
    0 < 2 ∧ (0 : ℝ) ≤ 1e-12 ∧ ((2 : ℕ) : ℝ) * 1e-12 ^ 2 < 1 ∧
      (along (1e-12 : ℝ) #v[3, 4] [#v[0, 0], #v[6, 8]]).length = 2 ∧
      (along (1e-12 : ℝ) #v[3, 4] [#v[0, 0], #v[6, 8]]).head? = some (shrink #v[3, 4] 5) := by
  have hn : 0 < 2 := two_pos
  have htolerance : (0 : ℝ) ≤ 1e-12 := by norm_num
  have hsmall : ((2 : ℕ) : ℝ) * 1e-12 ^ 2 < 1 := by norm_num
  have hnorm : norm (#v[3, 4] : Point ℝ 2) = 5 := by
    have hdot : dot (#v[3, 4] : Point ℝ 2) #v[3, 4] = 5 * 5 := by
      rw [dot_eq_sum, Fin.sum_univ_two]
      show (3 * 3 + 4 * 4 : ℝ) = 5 * 5
      norm_num
    show Real.sqrt _ = 5
    rw [hdot, Real.sqrt_mul_self (by norm_num)]
  obtain ⟨⟨hlength, -, -⟩, hhead, -⟩ :=
    along_isBasis hn htolerance hsmall #v[3, 4] [#v[0, 0], #v[6, 8]]
  refine ⟨hn, htolerance, hsmall, hlength, hnorm ▸ hhead ?_⟩
  rw [hnorm]
  norm_num

end Orthonormal

end BoxSearch
