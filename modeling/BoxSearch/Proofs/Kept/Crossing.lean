import Mathlib
import BoxSearch.Proofs.Counts.Genetic
import BoxSearch.Proofs.Faultless.Populations

/-!
# Crossing by bits

An integer variable is crossed by cutting the rows of bits of two parents at one place and joining the
parts crosswise.  At every place the children have the two bits that the parents have there, so that as
numbers they have the sum of their parents; only flips of bits and the cap at the upper bound change
that.  Every member of every population is feasible, so that its integer variables have rows of bits.
-/

namespace BoxSearch

/-! ## 1. Rows of bits -/

namespace BitCode

theorem length_bits (length k : ℕ) : (bits length k).length = length := by
  induction length with
  | zero => rfl
  | succ length ih => exact congrArg (· + 1) ih

theorem foldl_eq_add (bs : List Bool) (v : ℕ) :
    bs.foldl (fun v b => 2 * v + b.toNat) v = v * 2 ^ bs.length + value bs := by
  unfold value
  induction bs generalizing v with
  | nil => simp
  | cons b bs ih =>
    rw [List.foldl_cons, ih, List.foldl_cons, ih (2 * 0 + b.toNat), List.length_cons, pow_succ]
    ring

/-- The first bit of a row counts most. -/
theorem value_cons (b : Bool) (bs : List Bool) :
    value (b :: bs) = b.toNat * 2 ^ bs.length + value bs := by
  show bs.foldl (fun v b => 2 * v + b.toNat) (2 * 0 + b.toNat) = _
  rw [foldl_eq_add, Nat.mul_zero, Nat.zero_add]

/-- A row of bits holds what is left of a number without its higher bits. -/
theorem value_bits (length k : ℕ) : value (bits length k) = k % 2 ^ length := by
  induction length with
  | zero =>
    rw [pow_zero, Nat.mod_one]
    rfl
  | succ length ih =>
    rw [bits, value_cons, length_bits, ih, Nat.toNat_testBit, Nat.mod_pow_succ]
    ring

/-- At every place the rows `x` and `y` have the two bits that `a` and `b` have there. -/
def SameBits (x y a b : List Bool) : Prop :=
  ∀ j : ℕ, x[j]? = a[j]? ∧ y[j]? = b[j]? ∨ x[j]? = b[j]? ∧ y[j]? = a[j]?

namespace SameBits

variable {x y a b : List Bool}

theorem length_eq (h : SameBits x y a b) (hlength : a.length = b.length) :
    x.length = a.length ∧ y.length = a.length := by
  have hend (j : ℕ) : (x.length ≤ j ↔ a.length ≤ j) ∧ (y.length ≤ j ↔ a.length ≤ j) := by
    rcases h j with ⟨hx, hy⟩ | ⟨hx, hy⟩
    all_goals
      simp only [← List.getElem?_eq_none_iff, hx, hy]
      simp only [List.getElem?_eq_none_iff, hlength, and_self]
  have ha := hend a.length
  have hx := (hend x.length).1
  have hy := (hend y.length).2
  omega

/-- As numbers the two rows have the same sum, because the places count the same in all of them. -/
theorem value_add (h : SameBits x y a b) (hlength : a.length = b.length) :
    value x + value y = value a + value b := by
  obtain ⟨hx, hy⟩ := h.length_eq hlength
  induction a generalizing b x y with
  | nil =>
    rw [List.length_nil] at hx hy hlength
    rw [List.length_eq_zero_iff.mp hx, List.length_eq_zero_iff.mp hy,
      List.length_eq_zero_iff.mp hlength.symm]
  | cons bitA a ih =>
    obtain ⟨bitX, x, rfl⟩ := List.exists_cons_of_length_eq_add_one hx
    obtain ⟨bitY, y, rfl⟩ := List.exists_cons_of_length_eq_add_one hy
    obtain ⟨bitB, b, rfl⟩ := List.exists_cons_of_length_eq_add_one hlength.symm
    have hrest := ih (fun j => h (j + 1)) (Nat.succ.inj hlength) (Nat.succ.inj hx) (Nat.succ.inj hy)
    have hfirst : bitX.toNat + bitY.toNat = bitA.toNat + bitB.toNat := by
      rcases h 0 with ⟨hx, hy⟩ | ⟨hx, hy⟩
      · rw [Option.some.inj hx, Option.some.inj hy]
      · rw [Option.some.inj hx, Option.some.inj hy, Nat.add_comm]
    simp only [value_cons]
    rw [Nat.succ.inj hx, Nat.succ.inj hy, ← Nat.succ.inj hlength]
    linear_combination 2 ^ a.length * hfirst + hrest

theorem eq_of_same (h : SameBits x y a a) : x = a ∧ y = a := by
  constructor
  · exact List.ext_getElem? fun j => (h j).elim (·.1) (·.1)
  · exact List.ext_getElem? fun j => (h j).elim (·.2) (·.2)

/-- Before the cut each child has the bits of its own parent, and from there on those of the other. -/
theorem exchange (cut : ℕ) (hlength : a.length = b.length) :
    SameBits (Genetic.exchange cut a b).1 (Genetic.exchange cut a b).2 a b := by
  intro j
  unfold Genetic.exchange
  by_cases hj : j < cut
  · left
    grind
  · right
    grind

end SameBits

/-- Flips of no bit leave a row as it is. -/
theorem zipWith_xor_replicate {bs : List Bool} {length : ℕ} (h : bs.length = length) :
    List.zipWith (· ^^ ·) bs (List.replicate length false) = bs := by
  subst h
  induction bs with
  | nil => rfl
  | cons b bs ih =>
    rw [List.length_cons, List.replicate_succ, List.zipWith_cons_cons, ih, Bool.xor_false]

end BitCode

namespace Genetic

/-! ## 2. Cuts and flips -/

section

variable {σ α : Type} [Scalar α] [DrawSource σ α] {n : ℕ} {r : Region α n} {i : Fin n}
  {length : ℕ}

/-- Whether a bit is flipped is drawn. -/
def drawFlip (p : Params α) : StateM σ Bool := do
  let u ← DrawSource.uniform
  pure (decide (u ≤ p.mutation))

/-- Which bits are flipped does not depend on the bits. -/
theorem flipBits_eq (p : Params α) (bits : List Bool) :
    (flipBits p bits : StateM σ (List Bool)) =
      (List.zipWith (· ^^ ·) bits ·) <$> Draw.times bits.length (drawFlip p) := by
  unfold flipBits
  induction bits with
  | nil => rfl
  | cons b bits ih =>
    rw [List.mapM_cons, ih]
    rfl

theorem length_exchange {a b : List Bool} (cut : ℕ) (h : a.length = b.length) :
    (exchange cut a b).1.length = a.length ∧ (exchange cut a b).2.length = a.length :=
  (BitCode.SameBits.exchange cut h).length_eq h

/-- What is drawn to cross two rows of bits: the place of the cut, and which bits of the one and of the
other child are flipped. -/
structure Crossover where
  cut : ℤ
  first : List Bool
  second : List Bool

namespace Crossover

def draw (p : Params α) (length : ℕ) : ChoiceM σ α Crossover := do
  let cut ← Draw.below length
  let first ← .draw (Draw.times length (drawFlip p))
  let second ← .draw (Draw.times length (drawFlip p))
  pure ⟨cut, first, second⟩

/-- The rows of the two children. -/
def rows (d : Crossover) (a b : List Bool) : List Bool × List Bool :=
  let exchanged := exchange (Place.ofCut a.length d.cut) a b
  (List.zipWith (· ^^ ·) exchanged.1 d.first, List.zipWith (· ^^ ·) exchanged.2 d.second)

/-- No bit is flipped. -/
def IsPlain (length : ℕ) (d : Crossover) : Prop :=
  d.first = List.replicate length false ∧ d.second = List.replicate length false

theorem sameBits_rows {d : Crossover} {a b : List Bool} (hlength : a.length = b.length)
    (h : d.IsPlain a.length) : BitCode.SameBits (d.rows a b).1 (d.rows a b).2 a b := by
  obtain ⟨hx, hy⟩ := length_exchange (Place.ofCut a.length d.cut) hlength
  have hrows : d.rows a b = exchange (Place.ofCut a.length d.cut) a b := by
    unfold rows
    dsimp only
    rw [h.1, h.2, BitCode.zipWith_xor_replicate hx, BitCode.zipWith_xor_replicate hy]
  rw [hrows]
  exact .exchange _ hlength

end Crossover

/-- All draws can be made before the parents are looked at. -/
theorem crossBits_eq (p : Params α) {a b : α} {codeA codeB : List Bool}
    (ha : encodeCoordinate r i length a = .ok codeA) (hb : encodeCoordinate r i length b = .ok codeB)
    (hlengthA : codeA.length = length) (hlengthB : codeB.length = length) :
    (crossBits r p i length (.ok a) (.ok b) : ChoiceM σ α (α × α)) =
      (fun d : Crossover =>
        Prod.map (decodeCoordinate r i) (decodeCoordinate r i) (d.rows codeA codeB)) <$>
        Crossover.draw p length := by
  have hlengths (cut : ℕ) := length_exchange cut (hlengthA.trans hlengthB.symm)
  unfold crossBits Crossover.draw Crossover.rows
  rw [map_eq_pure_bind, bind_assoc]
  refine bind_congr fun cut => ?_
  simp only [ChoiceM.use_ok_bind, ha, hb, flipBits_eq, hlengths, hlengthA]
  rfl

end

/-! ## 3. Genes -/

variable {σ : Type} [DrawSource σ ℝ] {n : ℕ} {r : Region ℝ n} {p : Params ℝ} {i : Fin n}
  {length : ℕ}

omit [DrawSource σ ℝ] in
/-- Any bits stand for an integer between the bounds: no bits count less than nothing, and no integer
is above the cap. -/
theorem isGene_decodeCoordinate (h : r.integral.get i = true) (bits : List Bool) :
    IsGene r i (decodeCoordinate r i bits) := by
  refine ⟨isWhole_decodeCoordinate h bits, ?_, ?_⟩
  · unfold decodeCoordinate
    rw [Scalar.least_real, Scalar.ofNat_real]
    exact le_min (le_add_of_nonneg_left (Nat.cast_nonneg _)) (r.ordered i)
  · unfold decodeCoordinate
    rw [Scalar.least_real]
    exact min_le_right _ _

omit [DrawSource σ ℝ] in
/-- The row of a gene is as long as it should be, and stands for it. -/
theorem CodedAs.value_eq {v : ℝ} {k : ℕ} (h : CodedAs r i length v k) :
    (BitCode.value (BitCode.bits length k) : ℝ) + r.lower.get i = v := by
  rw [BitCode.value_bits, Nat.mod_eq_of_lt h.fits]
  exact h.eq.symm

omit [DrawSource σ ℝ] in
theorem CodedAs.decode_eq {v : ℝ} {k : ℕ} (h : CodedAs r i length v k) (hv : IsGene r i v) :
    decodeCoordinate r i (BitCode.bits length k) = v := by
  unfold decodeCoordinate
  rw [Scalar.least_real, Scalar.ofNat_real, h.value_eq]
  exact min_eq_left hv.upper

theorem Crossover.draw_chooses (p : Params ℝ) (hlength : 0 < length) :
    Chooses (fun _ => True) (Crossover.draw p length : ChoiceM σ ℝ Crossover) :=
  .bind (Draw.below_meets fun hnone => absurd hnone (by omega)) fun _ _ =>
    .bind (.draw (.trivial _)) fun _ _ => .bind (.draw (.trivial _)) fun _ _ => .pure trivial

/-- How two integers between the bounds of a variable are crossed: as rows of bits, by what is drawn. -/
structure Crosses (σ : Type) [DrawSource σ ℝ] (r : Region ℝ n) (p : Params ℝ) (i : Fin n)
    (length : ℕ) (a b : ℝ) (codeA codeB : List Bool) : Prop where
  -- The cut and the flips are all that is drawn, and drawing them meets no fault.
  drawn : Chooses (fun _ => True) (Crossover.draw p length : ChoiceM σ ℝ Crossover)
  children : (crossBits r p i length (.ok a) (.ok b) : ChoiceM σ ℝ (ℝ × ℝ)) =
    (fun d : Crossover =>
      Prod.map (decodeCoordinate r i) (decodeCoordinate r i) (d.rows codeA codeB)) <$>
      Crossover.draw p length
  -- Wherever the rows are cut, without flips nothing is lost before the cap.
  bits (d : Crossover) : d.IsPlain length →
    BitCode.SameBits (d.rows codeA codeB).1 (d.rows codeA codeB).2 codeA codeB
  sum (d : Crossover) : d.IsPlain length →
    (BitCode.value (d.rows codeA codeB).1 + r.lower.get i) +
      (BitCode.value (d.rows codeA codeB).2 + r.lower.get i) = a + b
  same (d : Crossover) : d.IsPlain length → a = b →
    decodeCoordinate r i (d.rows codeA codeB).1 = a ∧ decodeCoordinate r i (d.rows codeA codeB).2 = b
  -- Whatever is flipped, the children are integers between the bounds.
  genes (d : Crossover) : IsGene r i (decodeCoordinate r i (d.rows codeA codeB).1) ∧
    IsGene r i (decodeCoordinate r i (d.rows codeA codeB).2)

theorem crosses_of_codedAs (hi : r.integral.get i = true) (hpos : 0 < length)
    (hshort : length ≤ longestCode) {a b : ℝ}
    (ha : IsGene r i a) {j k : ℕ} (hj : CodedAs r i length a j) (hk : CodedAs r i length b k) :
    Crosses σ r p i length a b (BitCode.bits length j) (BitCode.bits length k) := by
  have hlengths : (BitCode.bits length j).length = (BitCode.bits length k).length := by
    rw [BitCode.length_bits, BitCode.length_bits]
  have hbits (d : Crossover) (hd : d.IsPlain length) :
      BitCode.SameBits (d.rows (BitCode.bits length j) (BitCode.bits length k)).1
        (d.rows (BitCode.bits length j) (BitCode.bits length k)).2 (BitCode.bits length j)
        (BitCode.bits length k) := by
    apply Crossover.sameBits_rows hlengths
    rwa [BitCode.length_bits]
  refine ⟨Crossover.draw_chooses p hpos, ?_, hbits, ?_, ?_, fun d =>
    ⟨isGene_decodeCoordinate hi _, isGene_decodeCoordinate hi _⟩⟩
  · apply crossBits_eq p
    · rw [hj.encode, if_pos hshort]
    · rw [hk.encode, if_pos hshort]
    · exact BitCode.length_bits length j
    · exact BitCode.length_bits length k
  · intro d hd
    have hsum := congrArg (Nat.cast (R := ℝ)) ((hbits d hd).value_add hlengths)
    push_cast at hsum
    rw [← hj.value_eq, ← hk.value_eq]
    linear_combination hsum
  · rintro d hd rfl
    obtain rfl : j = k := by
      have heq := hj.eq.symm.trans hk.eq
      exact_mod_cast add_right_cancel heq
    obtain ⟨hx, hy⟩ := (hbits d hd).eq_of_same
    rw [hx, hy]
    exact ⟨hj.decode_eq ha, hj.decode_eq ha⟩

/-! ## 4. Parents -/

theorem upTo_confined {t : Task ℝ n} (hstarts : ∀ x ∈ t.starts, t.region.Feasible x)
    (hp : p.IsNumeric) (lengths : Vector ℕ n) (k : ℕ) :
    Confined t (fun _ => True) (upTo t p lengths k : SearchM σ ℝ n (List (Sample ℝ n)) Unit)
      fun _ => Settled t.region := by
  have hempty : Settled t.region [] := fun s hs => nomatch hs
  apply Confined.bind (.setOwn hempty)
  intro _
  apply Confined.bind (found_confined _ hstarts)
  intro _
  exact .bind (.report _) fun _ => .roundsWithin (generation_confined hp lengths) k

/-- Whoever may be drawn as a parent has integers between the bounds that fit their rows of bits, so that
only the objective fails as long as no row is beyond the longest code.  Two such integers are crossed
without a loss, and their children are integers between the bounds. -/
theorem crossing_is_lossless (σ : Type) [DrawSource σ ℝ] {n : ℕ} (t : Task ℝ n) (p : Params ℝ)
    (lengths : Vector ℕ n) (hp : p.IsNumeric) (hsize : 0 < p.size)
    (hlengths : codeLengths t.region = .ok lengths) (hstarts : ∀ x ∈ t.starts, t.region.Feasible x)
    (draws : σ) (own : List (Sample ℝ n)) :
    (∀ k d, (upTo t p lengths k).run (.started t draws own) = (.ok (), d) →
      ∀ s ∈ Cost.rank (·.cost) d.own, t.region.Feasible s.point ∧
        ∀ i, t.region.integral.get i = true → IsGene t.region i (s.point.get i) ∧
          ∃ v, CodedAs t.region i (lengths.get i) (s.point.get i) v) ∧
    ((∀ i, lengths.get i ≤ longestCode) →
      (∀ a b, t.region.Feasible a → t.region.Feasible b →
        Chooses (fun q => t.region.Feasible q.1 ∧ t.region.Feasible q.2)
          (breed t.region p lengths a b : ChoiceM σ ℝ (Point ℝ n × Point ℝ n))) ∧
      ∀ f, ((⟨{}, draws, .genetic p lengths own⟩ : Run σ ℝ n).solve t).1 = .error f →
        t.Ends (.fault f)) ∧
    ∀ i, t.region.integral.get i = true → lengths.get i ≤ longestCode →
      ∀ a b, IsGene t.region i a → IsGene t.region i b → ∃ codeA codeB,
        encodeCoordinate t.region i (lengths.get i) a = .ok codeA ∧
        encodeCoordinate t.region i (lengths.get i) b = .ok codeB ∧
        Crosses σ t.region p i (lengths.get i) a b codeA codeB := by
  refine ⟨?_, fun hshort => ⟨?_, ?_⟩, ?_⟩
  · intro k d hd s hs
    have hrun := upTo_confined hstarts hp lengths k (.started t draws own)
      ⟨List.forall_mem_nil _, trivial⟩
    rw [hd] at hrun
    have hfeasible := hrun.2 s ((Cost.rank_perm _ d.own).mem_iff.mp hs)
    refine ⟨hfeasible, fun i hi => ?_⟩
    have hgene := isGene_of_feasible hfeasible hi
    exact ⟨hgene, exists_codedAs hlengths hi hgene⟩
  · exact fun a b ha hb => breed_meets hp (inherits_of_feasible hlengths hshort ha)
      (inherits_of_feasible hlengths hshort hb)
  · intro f hf
    exact (run_flawless hp hlengths hshort hstarts hsize).solve (c := ⟨{}, draws, own⟩) rfl trivial
      hf
  · intro i hi hshort a b ha hb
    obtain ⟨j, hj⟩ := exists_codedAs hlengths hi ha
    obtain ⟨k, hk⟩ := exists_codedAs hlengths hi hb
    refine ⟨_, _, ?_, ?_, crosses_of_codedAs hi (codeLengths_pos hlengths hi) hshort ha hj hk⟩
    · rw [hj.encode, if_pos hshort]
    · rw [hk.encode, if_pos hshort]

/-- One and two are crossed to numbers with the sum three, wherever their two bits are cut; and a search
with such crossings returns. -/
theorem crossing_is_lossless_brood :
    Run.brood.IsNumeric ∧ 0 < Run.brood.size ∧
      codeLengths Run.leastOfFour.region = .ok (.ofFn fun _ => 2) ∧
      ((⟨{}, Run.zeroDraws, .genetic Run.brood (.ofFn fun _ => 2) []⟩ : Run UnitTape ℝ 1).solve
        Run.leastOfFour).1 = .ok () ∧
      ∃ codeA codeB,
        encodeCoordinate Run.leastOfFour.region 0 2 1 = .ok codeA ∧
        encodeCoordinate Run.leastOfFour.region 0 2 2 = .ok codeB ∧
        ∀ cut, BitCode.value (Crossover.rows ⟨cut, [false, false], [false, false]⟩ codeA codeB).1 +
          BitCode.value (Crossover.rows ⟨cut, [false, false], [false, false]⟩ codeA codeB).2 = 3 := by
  have hnumeric : Run.brood.IsNumeric := ⟨⟨_, rfl⟩, ⟨_, rfl⟩, ⟨_, rfl⟩⟩
  have hsize : 0 < Run.brood.size := by decide
  have hlengths : codeLengths Run.leastOfFour.region = .ok (.ofFn fun _ => 2) :=
    codeLengths_integers (by decide)
  have hshort (i : Fin 1) : (Vector.ofFn fun _ : Fin 1 => 2).get i ≤ longestCode :=
    (Point.get_ofFn _ i).trans_le (by decide)
  have hlower : Run.leastOfFour.region.lower.get 0 = 0 :=
    (Point.get_ofFn (fun _ => ((0 : ℤ) : ℝ)) 0).trans Int.cast_zero
  have hupper : Run.leastOfFour.region.upper.get 0 = 3 :=
    (Point.get_ofFn (fun _ => ((3 : ℤ) : ℝ)) 0).trans (Int.cast_ofNat 3)
  have hone : IsGene Run.leastOfFour.region 0 1 := by
    refine ⟨⟨1, Int.cast_one.symm⟩, ?_, ?_⟩
    · rw [hlower]
      norm_num
    · rw [hupper]
      norm_num
  have htwo : IsGene Run.leastOfFour.region 0 2 := by
    refine ⟨⟨2, by norm_num⟩, ?_, ?_⟩
    · rw [hlower]
      norm_num
    · rw [hupper]
      norm_num
  obtain ⟨-, hsafe, hcrosses⟩ := crossing_is_lossless UnitTape Run.leastOfFour Run.brood
    (.ofFn fun _ => 2) hnumeric hsize hlengths (List.forall_mem_nil _) Run.zeroDraws []
  refine ⟨hnumeric, hsize, hlengths, ?_, ?_⟩
  · cases hanswer : ((⟨{}, Run.zeroDraws, .genetic Run.brood (.ofFn fun _ => 2) []⟩ :
        Run UnitTape ℝ 1).solve Run.leastOfFour).1 with
    | ok u => rfl
    | error f =>
      obtain ⟨x, k, failure, hfailed, -⟩ := (hsafe hshort).2 f hanswer
      exact nomatch hfailed
  · obtain ⟨codeA, codeB, hA, hB, hcross⟩ := hcrosses 0 (Point.get_ofFn ..) (hshort 0) 1 2 hone htwo
    rw [show (Vector.ofFn fun _ : Fin 1 => 2).get 0 = 2 from Point.get_ofFn ..] at hA hB hcross
    refine ⟨codeA, codeB, hA, hB, fun cut => ?_⟩
    have hsum := hcross.sum ⟨cut, [false, false], [false, false]⟩ ⟨rfl, rfl⟩
    rw [hlower] at hsum
    have hcast : ((BitCode.value (Crossover.rows ⟨cut, [false, false], [false, false]⟩ codeA codeB).1 +
      BitCode.value (Crossover.rows ⟨cut, [false, false], [false, false]⟩ codeA codeB).2 : ℕ) : ℝ) =
        (3 : ℕ) := by
      push_cast
      linear_combination hsum
    exact_mod_cast hcast

end Genetic

end BoxSearch
