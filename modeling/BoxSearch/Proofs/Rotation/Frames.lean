import Mathlib
import BoxSearch.Rotation
import BoxSearch.Proofs.Rotation.Basis

/-!
# Frames and trials

Moves are tried in turn, so the axis of a trial is seen from its number.  A move is its axis at the length of
a step, stretched for every success along it and shortened and reversed for every failure; the flags say of
which there was any.  `Frame.After` says this of a frame after some trials.  It holds after a turn, and one
more trial keeps it.
-/

namespace BoxSearch

variable {n : ℕ}

theorem Point.scale_scale (a b : ℝ) (x : Point ℝ n) : scale a (scale b x) = scale (a * b) x := by
  apply ext_get
  intro i
  rw [scale, get_ofFn, scale, get_ofFn, scale, get_ofFn, mul_assoc]

namespace Rotation

open Point

/-! ## 1. Trials -/

/-- How many of the trials along axis `d` of `n` had the given outcome. -/
def tally (n d : ℕ) (outcome : Bool) (trials : List Bool) : ℕ :=
  trials.zipIdx.countP fun (o, i) => o == outcome && i % n == d

theorem tally_concat (d : ℕ) (outcome : Bool) (trials : List Bool) (last : Bool) :
    tally n d outcome (trials ++ [last]) =
      tally n d outcome trials + if last = outcome ∧ trials.length % n = d then 1 else 0 := by
  unfold tally
  rw [List.zipIdx_append, List.countP_append]
  simp [List.countP_cons]

/-- A trial does not count for the other outcome. -/
theorem tally_other (d : ℕ) {outcome last : Bool} (h : last ≠ outcome) (trials : List Bool) :
    tally n d outcome (trials ++ [last]) = tally n d outcome trials := by
  rw [tally_concat, if_neg (fun hlast => h hlast.1), Nat.add_zero]

/-! ## 2. What the flags and the moves say -/

/-- A frame after some trials along its axes, with these factors and this length of a step. -/
structure Frame.After (stretch shorten stepSize : ℝ) (trials : List Bool) (f : Frame ℝ n) :
    Prop where
  raised : f.raised = f.succeeded.count true + f.failed.count true
  direction : f.direction = trials.length % n
  succeeded : ∀ d : Fin n, f.succeeded.get d = true ↔ 0 < tally n d true trials
  failed : ∀ d : Fin n, f.failed.get d = true ↔ 0 < tally n d false trials
  moves : ∃ axes : Fin n → Point ℝ n, (∀ d, dot (axes d) (axes d) = 1) ∧
    (∀ d e, d ≠ e → dot (axes d) (axes e) = 0) ∧
    f.moves = List.ofFn fun d : Fin n =>
      scale (stepSize * stretch ^ tally n d true trials * (-shorten) ^ tally n d false trials)
        (axes d)

namespace Frame.After

variable {stretch shorten stepSize : ℝ} {trials : List Bool} {f : Frame ℝ n}

theorem raised_le (h : f.After stretch shorten stepSize trials) : f.raised ≤ 2 * n := by
  have hsucceeded : f.succeeded.count true ≤ n := Vector.count_le_size
  have hfailed : f.failed.count true ≤ n := Vector.count_le_size
  rw [h.raised]
  omega

/-- As many flags are raised as there are if every axis has seen a success and a failure. -/
theorem isExhausted_iff (h : f.After stretch shorten stepSize trials) :
    f.isExhausted = true ↔ ∀ d : Fin n, f.succeeded.get d = true ∧ f.failed.get d = true := by
  have hsucceeded : f.succeeded.count true ≤ n := Vector.count_le_size
  have hfailed : f.failed.count true ≤ n := Vector.count_le_size
  have hall (flags : Vector Bool n) : flags.count true = n ↔ ∀ d : Fin n, flags.get d = true := by
    rw [Vector.count_eq_size]
    constructor
    · exact fun hmem d => (hmem _ (Vector.getElem_mem d.isLt)).symm
    · intro hget b hb
      obtain ⟨i, hi, rfl⟩ := Vector.mem_iff_getElem.mp hb
      exact (hget ⟨i, hi⟩).symm
  unfold isExhausted
  rw [beq_iff_eq, h.raised, forall_and, ← hall, ← hall]
  omega

/-- No move is zero, and the moves are orthogonal to each other. -/
theorem orthogonal (h : f.After stretch shorten stepSize trials) (hstretch : 0 < stretch)
    (hshorten : 0 < shorten) (hstep : 0 < stepSize) :
    (∀ x ∈ f.moves, norm x ≠ 0) ∧ f.moves.Pairwise fun x y => dot x y = 0 := by
  obtain ⟨axes, hunit, horthogonal, hmoves⟩ := h.moves
  rw [hmoves]
  constructor
  · intro x hx
    obtain ⟨d, rfl⟩ := (List.mem_ofFn' _ _).mp hx
    have hfactor : stepSize * stretch ^ tally n d true trials * (-shorten) ^ tally n d false trials ≠
        0 :=
      mul_ne_zero (mul_pos hstep (pow_pos hstretch _)).ne' (pow_ne_zero _ (neg_ne_zero.mpr hshorten.ne'))
    have hsquare : norm (scale (stepSize * stretch ^ tally n d true trials *
        (-shorten) ^ tally n d false trials) (axes d)) ^ 2 ≠ 0 := by
      rw [pow_two, norm_mul_self, dot_scale, dot_comm, dot_scale, hunit d, mul_one]
      exact mul_self_ne_zero.mpr hfactor
    exact fun hzero => hsquare (by rw [hzero, zero_pow two_ne_zero])
  · rw [List.pairwise_ofFn]
    intro d e hlt
    rw [dot_scale, dot_comm, dot_scale, horthogonal e d hlt.ne', mul_zero, mul_zero]

/-- The moves of a frame pass the check. -/
theorem check (h : f.After stretch shorten stepSize trials) (hstretch : 0 < stretch)
    (hshorten : 0 < shorten) (hstep : 0 < stepSize) {tolerance : ℝ} (htolerance : 0 ≤ tolerance) :
    Orthonormal.check tolerance f.moves = .ok () := by
  obtain ⟨hlong, horthogonal⟩ := h.orthogonal hstretch hshorten hstep
  exact Orthonormal.check_of_orthogonal hlong horthogonal htolerance

end Frame.After

/-! ## 3. After a turn -/

section

variable {stretch shorten stepSize : ℝ}

/-- A frame with lowered flags whose moves are an orthonormal basis at the length of a step. -/
theorem Frame.lowered_after {rows : List (Point ℝ n)} (hrows : Orthonormal.IsOrthonormal rows)
    (hlength : rows.length = n) (origin : Point ℝ n) :
    (Frame.lowered (rows.map (scale stepSize)) origin).After stretch shorten stepSize [] := by
  have hcount : (Vector.ofFn fun _ : Fin n => false).count true = 0 := by
    rw [Vector.count_eq_zero, Vector.mem_ofFn]
    exact fun ⟨_, hd⟩ => nomatch hd
  constructor
  · show 0 = _
    rw [lowered, hcount]
  · exact (Nat.zero_mod n).symm
  · intro d
    rw [lowered, get_ofFn]
    exact iff_of_false Bool.false_ne_true (Nat.lt_irrefl 0)
  · intro d
    rw [lowered, get_ofFn]
    exact iff_of_false Bool.false_ne_true (Nat.lt_irrefl 0)
  · refine ⟨fun d => rows.get (d.cast hlength.symm), fun d => hrows.unit _ (List.get_mem _ _), ?_, ?_⟩
    · intro d e hne
      have hval : d.val ≠ e.val := fun heq => hne (Fin.ext heq)
      exact (hrows.dot_getElem _ _).trans (if_neg hval)
    · have hfactor (d : ℕ) :
          stepSize * stretch ^ tally n d true [] * (-shorten) ^ tally n d false [] = stepSize := by
        show stepSize * stretch ^ 0 * (-shorten) ^ 0 = stepSize
        rw [pow_zero, pow_zero, mul_one, mul_one]
      simp only [hfactor]
      apply List.ext_getElem
      · rw [lowered, List.length_map, List.length_ofFn, hlength]
      · intro i hi hi'
        simp only [lowered, List.getElem_map, List.getElem_ofFn, List.get_eq_getElem, Fin.val_cast]

theorem isOrthonormal_unitVectors (n : ℕ) :
    Orthonormal.IsOrthonormal (Orthonormal.unitVectors n : List (Point ℝ n)) := by
  constructor
  · intro q hq
    obtain ⟨i, hi, rfl⟩ := List.mem_map.mp hq
    exact Orthonormal.dot_axis_self ⟨i, List.mem_range.mp hi⟩
  · unfold Orthonormal.unitVectors
    rw [List.pairwise_map]
    refine List.pairwise_lt_range.imp_of_mem fun {i j} _ hj hlt => ?_
    rw [dot_axis _ ⟨j, List.mem_range.mp hj⟩, axis, get_ofFn, if_neg hlt.ne']
    norm_num

theorem Frame.upright_after (origin : Point ℝ n) :
    (Frame.upright stepSize origin).After stretch shorten stepSize [] :=
  lowered_after (isOrthonormal_unitVectors n)
    ((List.length_map _).trans List.length_range) origin

theorem Frame.turn_after (hn : n < 10 ^ 24) (f : Frame ℝ n) (best : Point ℝ n) :
    (f.turn stepSize best).lower.After stretch shorten stepSize [] := by
  obtain ⟨hrows, hlength⟩ := Orthonormal.along_complete_of_lt hn (Point.sub f.origin best) f.moves
  exact lowered_after hrows hlength best

end

/-! ## 4. After one more trial -/

section

variable {flags : Vector Bool n} {i : ℕ}

theorem count_raise (hi : i < n) :
    (flags.setIfInBounds i true).count true =
      if flags[i]? = some false then flags.count true + 1 else flags.count true := by
  have hset : flags.setIfInBounds i true = flags.set i true hi := by
    apply Vector.ext
    intro j hj
    rw [Vector.getElem_setIfInBounds, Vector.getElem_set]
  rw [hset, Vector.count_set, Vector.getElem?_eq_getElem hi]
  cases hflag : flags[i] with
  | true =>
    have hmem : true ∈ flags := hflag ▸ Vector.getElem_mem hi
    have hpos := Vector.one_le_count_iff.mpr hmem
    simp
    omega
  | false => simp

theorem get_raise_iff (d : Fin n) :
    (flags.setIfInBounds i true).get d = true ↔ flags.get d = true ∨ i = d := by
  have hget : (flags.setIfInBounds i true).get d = if i = d then true else flags.get d :=
    Vector.getElem_setIfInBounds d.isLt
  rw [hget]
  split_ifs with h <;> simp [h]

theorem modify_ofFn {c c' : Fin n → ℝ} {k : ℝ} (axes : Fin n → Point ℝ n)
    (hc : ∀ d : Fin n, c' d = if i = d then k * c d else c d) :
    (List.ofFn fun d : Fin n => scale (c d) (axes d)).modify i (scale k) =
      List.ofFn fun d : Fin n => scale (c' d) (axes d) := by
  apply List.ext_getElem
  · rw [List.length_modify, List.length_ofFn, List.length_ofFn]
  · intro j hj hj'
    rw [List.getElem_modify, List.getElem_ofFn, List.getElem_ofFn, hc]
    split_ifs
    · exact scale_scale _ _ _
    · rfl

end

namespace Frame.After

variable {stretch shorten stepSize : ℝ} {trials : List Bool} {f : Frame ℝ n}

theorem direction_lt (h : f.After stretch shorten stepSize trials) (hn : 0 < n) :
    f.direction < n := by
  rw [h.direction]
  exact Nat.mod_lt _ hn

theorem direction_lt_length (h : f.After stretch shorten stepSize trials) (hn : 0 < n) :
    f.direction < f.moves.length := by
  obtain ⟨axes, -, -, hmoves⟩ := h.moves
  rw [hmoves, List.length_ofFn]
  exact h.direction_lt hn

theorem direction_advance (h : f.After stretch shorten stepSize trials) (last : Bool) :
    (f.direction + 1) % n = (trials ++ [last]).length % n := by
  rw [h.direction, List.length_append, List.length_singleton, Nat.mod_add_mod]

/-- A trial counts for its outcome, along the axis whose turn it was. -/
theorem tally_same (h : f.After stretch shorten stepSize trials) (d : ℕ) (last : Bool) :
    tally n d last (trials ++ [last]) =
      tally n d last trials + if f.direction = d then 1 else 0 := by
  rw [tally_concat, h.direction]
  simp only [true_and]

/-- The flag of an axis is raised if it was raised before or by one more trial. -/
theorem flag_iff (h : f.After stretch shorten stepSize trials) {flags : Vector Bool n} {last : Bool}
    (hflags : ∀ d : Fin n, flags.get d = true ↔ 0 < tally n d last trials) (d : Fin n) :
    (flags.setIfInBounds f.direction true).get d = true ↔ 0 < tally n d last (trials ++ [last]) := by
  rw [h.tally_same, Nat.add_pos_iff_pos_or_pos, ← hflags d]
  refine (get_raise_iff d).trans (or_congr_right ?_)
  split_ifs with hd <;> simp [hd]

theorem succeed (h : f.After stretch shorten stepSize trials) (hn : 0 < n) :
    (f.succeed stretch).advance.After stretch shorten stepSize (trials ++ [true]) := by
  obtain ⟨axes, hunit, horthogonal, hmoves⟩ := h.moves
  have hfailures (d : ℕ) : tally n d false (trials ++ [true]) = tally n d false trials :=
    tally_other d Bool.noConfusion trials
  constructor
  · show (if f.succeeded[f.direction]? = some false then f.raised + 1 else f.raised) =
      (f.succeeded.setIfInBounds f.direction true).count true + f.failed.count true
    rw [count_raise (h.direction_lt hn), h.raised]
    split_ifs
    · exact Nat.add_right_comm _ _ _
    · rfl
  · exact h.direction_advance true
  · exact h.flag_iff h.succeeded
  · intro d
    rw [hfailures]
    exact h.failed d
  · refine ⟨axes, hunit, horthogonal, ?_⟩
    show f.moves.modify f.direction (scale stretch) = _
    rw [hmoves]
    apply modify_ofFn
    intro d
    rw [h.tally_same, hfailures]
    split_ifs
    · rw [pow_succ]
      ring
    · rfl

theorem fail (h : f.After stretch shorten stepSize trials) (hn : 0 < n) :
    (f.fail shorten).advance.After stretch shorten stepSize (trials ++ [false]) := by
  obtain ⟨axes, hunit, horthogonal, hmoves⟩ := h.moves
  have hsuccesses (d : ℕ) : tally n d true (trials ++ [false]) = tally n d true trials :=
    tally_other d Bool.noConfusion trials
  constructor
  · show (if f.failed[f.direction]? = some false then f.raised + 1 else f.raised) =
      f.succeeded.count true + (f.failed.setIfInBounds f.direction true).count true
    rw [count_raise (h.direction_lt hn), h.raised]
    split_ifs <;> rfl
  · exact h.direction_advance false
  · intro d
    rw [hsuccesses]
    exact h.succeeded d
  · exact h.flag_iff h.failed
  · refine ⟨axes, hunit, horthogonal, ?_⟩
    show f.moves.modify f.direction (scale (-shorten)) = _
    rw [hmoves]
    apply modify_ofFn
    intro d
    rw [hsuccesses, h.tally_same]
    split_ifs
    · rw [pow_succ]
      ring
    · rfl

end Frame.After

end Rotation

end BoxSearch
