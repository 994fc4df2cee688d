import Mathlib
import BoxSearch.Proofs.Compare

/-!
# Rankings

A ranking is stable: items of equal cost stay in their order.  So items can be ranked one after the
other, each put behind those that come no later, and whoever is not among the first `k` of a ranking
never comes back (`rank_take_append`): to keep the `k` best of a growing list it is enough to keep the
`k` best so far.
-/

namespace BoxSearch

/-! ## 1. Lists in a total order with ties -/

namespace Ranking

variable {β : Type} {le : β → β → Bool}

/-- The item put behind all that come no later. -/
def insertBehind (le : β → β → Bool) (x : β) : List β → List β
  | [] => [x]
  | b :: rest => if le b x then b :: insertBehind le x rest else x :: b :: rest

theorem take_insertBehind (x : β) (items : List β) (k : ℕ) :
    (insertBehind le x (items.take k)).take k = (insertBehind le x items).take k := by
  induction items generalizing k with
  | nil => rw [List.take_nil]
  | cons b rest ih =>
    cases k with
    | zero => rfl
    | succ k =>
      rw [List.take_succ_cons]
      unfold insertBehind
      split
      · rw [List.take_succ_cons, List.take_succ_cons, ih]
      · rw [List.take_succ_cons, List.take_succ_cons]
        cases k with
        | zero => rfl
        | succ k => rw [List.take_succ_cons, List.take_succ_cons, List.take_take, Nat.min_eq_left
            (Nat.le_succ k)]

variable (trans : ∀ a b c, le a b = true → le b c = true → le a c = true)
  (total : ∀ a b, (le a b || le b a) = true)

include trans total

/-- Putting one item in front of its equals and another one behind them can be done in any order. -/
theorem orderedInsert_insertBehind (a x : β) (items : List β) :
    (insertBehind le x items).orderedInsert (le · · = true) a =
      insertBehind le x (items.orderedInsert (le · · = true) a) := by
  induction items with
  | nil =>
    by_cases h : le a x = true <;> simp [insertBehind, h]
  | cons b rest ih =>
    by_cases hab : le a b = true
    · by_cases hbx : le b x = true
      · have hax : le a x = true := trans a b x hab hbx
        simp [insertBehind, hab, hbx, hax]
      · by_cases hax : le a x = true <;> simp [insertBehind, hab, hbx, hax]
    · by_cases hbx : le b x = true
      · simp [insertBehind, hab, hbx, ih]
      · -- `x` comes before `b` and `b` before `a`
        have hxb : le x b = true := by
          have h := total x b
          rwa [Bool.eq_false_of_not_eq_true hbx, Bool.or_false] at h
        have hax : ¬le a x = true := fun h => hab (trans a x b h hxb)
        simp [insertBehind, hab, hbx, hax]

theorem mergeSort_cons_eq_orderedInsert (a : β) (items : List β) :
    (a :: items).mergeSort le = (items.mergeSort le).orderedInsert (le · · = true) a := by
  obtain ⟨before, after, hcons, hitems, hbefore⟩ := List.mergeSort_cons trans total a items
  have hsorted := List.pairwise_mergeSort trans total (a :: items)
  rw [hcons] at hsorted
  rw [hcons, hitems]
  clear hcons hitems
  induction before with
  | nil =>
    cases after with
    | nil => rfl
    | cons b after =>
      have hab : le a b = true := List.rel_of_pairwise_cons hsorted List.mem_cons_self
      exact (List.orderedInsert_cons_of_le (le · · = true) after hab).symm
  | cons b before ih =>
    have hab : ¬le a b = true := by simpa using hbefore b List.mem_cons_self
    rw [List.cons_append, List.cons_append, List.orderedInsert_of_not_le (le · · = true) _ hab,
      ← ih (fun c hc => hbefore c (List.mem_cons_of_mem b hc)) hsorted.of_cons]

theorem mergeSort_concat (items : List β) (x : β) :
    (items ++ [x]).mergeSort le = insertBehind le x (items.mergeSort le) := by
  induction items with
  | nil => simp [insertBehind]
  | cons a items ih =>
    rw [List.cons_append, mergeSort_cons_eq_orderedInsert trans total, ih,
      orderedInsert_insertBehind trans total, mergeSort_cons_eq_orderedInsert trans total]

theorem take_mergeSort_append (items others : List β) (k : ℕ) :
    (((items.mergeSort le).take k ++ others).mergeSort le).take k =
      ((items ++ others).mergeSort le).take k := by
  -- The others are added one by one; what was cut off before would be cut off again.
  induction others using List.reverseRecOn with
  | nil =>
    have hsorted : ((items.mergeSort le).take k).Pairwise (le · · = true) :=
      (List.pairwise_mergeSort trans total items).sublist (List.take_sublist k _)
    rw [List.append_nil, List.append_nil, List.mergeSort_of_pairwise hsorted, List.take_take,
      Nat.min_self]
  | append_singleton others x ih =>
    rw [← List.append_assoc, ← List.append_assoc, mergeSort_concat trans total,
      mergeSort_concat trans total, ← take_insertBehind, ih, take_insertBehind]

/-- An item that comes strictly before those in front of it, and not after those behind it, is the
first. -/
theorem mergeSort_of_first {e : β} {before after : List β} (hbefore : ∀ b ∈ before, ¬le b e = true)
    (hafter : ∀ b ∈ after, le e b = true) :
    ∃ rest, (before ++ e :: after).mergeSort le = e :: rest := by
  induction before with
  | nil =>
    rw [List.nil_append, mergeSort_cons_eq_orderedInsert trans total]
    cases hs : after.mergeSort le with
    | nil => exact ⟨[], rfl⟩
    | cons b rest =>
      have hfirst : b ∈ after.mergeSort le := hs ▸ List.mem_cons_self
      have hb : b ∈ after := List.mem_mergeSort.mp hfirst
      exact ⟨b :: rest, List.orderedInsert_cons_of_le _ _ (hafter b hb)⟩
  | cons a before ih =>
    obtain ⟨rest, hrest⟩ := ih fun b hb => hbefore b (List.mem_cons_of_mem a hb)
    rw [List.cons_append, mergeSort_cons_eq_orderedInsert trans total, hrest]
    exact ⟨_, List.orderedInsert_of_not_le _ _ (hbefore a List.mem_cons_self)⟩

end Ranking

/-! ## 2. Ranked items -/

namespace Cost

variable {α β : Type} [Scalar α] {cost : β → Cost α}

/-- A ranking by proper costs compares by a total order with ties. -/
theorem rank_eq_mergeSort {items : List β} (h : ∀ b ∈ items, (cost b).IsProper) :
    rank cost items = items.mergeSort fun a b => (cost a).proper.notAfter (cost b).proper := by
  have hmap := List.map_mergeSort (f := id) (l := items) (r := fun a b => (cost a).notAfter (cost b))
    (s := fun a b => (cost a).proper.notAfter (cost b).proper) fun a ha b hb => by
      rw [id, id, (h a ha).proper_eq, (h b hb).proper_eq]
  rwa [List.map_id, List.map_id] at hmap

variable [Scalar.Ordered α]

theorem notAfter_proper_trans (cost : β → Cost α) (a b c : β)
    (hab : (cost a).proper.notAfter (cost b).proper = true)
    (hbc : (cost b).proper.notAfter (cost c).proper = true) :
    (cost a).proper.notAfter (cost c).proper = true :=
  notAfter_trans (isProper_proper _) hab hbc

theorem notAfter_proper_total (cost : β → Cost α) (a b : β) :
    ((cost a).proper.notAfter (cost b).proper || (cost b).proper.notAfter (cost a).proper) = true :=
  notAfter_total _ _

theorem pairwise_rank {items : List β} (h : ∀ b ∈ items, (cost b).IsProper) :
    (rank cost items).Pairwise fun a b => (cost a).notAfter (cost b) = true := by
  have hsorted := List.pairwise_mergeSort (notAfter_proper_trans cost) (notAfter_proper_total cost)
    items
  rw [← rank_eq_mergeSort h] at hsorted
  apply hsorted.imp_of_mem
  intro a b ha hb hab
  rwa [(h a ((rank_perm cost items).mem_iff.mp ha)).proper_eq,
    (h b ((rank_perm cost items).mem_iff.mp hb)).proper_eq] at hab

/-- Whoever is not among the first `k` of some items is not among the first `k` of more items. -/
theorem rank_take_append {items others : List β} (h : ∀ b ∈ items ++ others, (cost b).IsProper)
    (k : ℕ) :
    (rank cost ((rank cost items).take k ++ others)).take k = (rank cost (items ++ others)).take k := by
  have hitems : ∀ b ∈ items, (cost b).IsProper := fun b hb => h b (List.mem_append_left others hb)
  have htake : ∀ b ∈ (rank cost items).take k ++ others, (cost b).IsProper := by
    intro b hb
    rcases List.mem_append.mp hb with hb | hb
    · exact hitems b ((rank_perm cost items).mem_iff.mp (List.mem_of_mem_take hb))
    · exact h b (List.mem_append_right items hb)
  rw [rank_eq_mergeSort htake, rank_eq_mergeSort hitems, rank_eq_mergeSort h]
  exact Ranking.take_mergeSort_append (notAfter_proper_trans cost) (notAfter_proper_total cost) ..

theorem rank_of_first {e : β} {before after : List β}
    (h : ∀ b ∈ before ++ e :: after, (cost b).IsProper)
    (hbefore : ∀ b ∈ before, (cost e).before (cost b) = true)
    (hafter : ∀ b ∈ after, (cost b).before (cost e) = false) :
    ∃ rest, rank cost (before ++ e :: after) = e :: rest := by
  have he : (cost e).IsProper := h e (List.mem_append_right before List.mem_cons_self)
  rw [rank_eq_mergeSort h]
  apply Ranking.mergeSort_of_first (notAfter_proper_trans cost) (notAfter_proper_total cost)
  · intro b hb
    rw [he.proper_eq, (h b (List.mem_append_left _ hb)).proper_eq]
    simp [notAfter, hbefore b hb]
  · intro b hb
    rw [he.proper_eq, (h b (List.mem_append_right before (List.mem_cons_of_mem e hb))).proper_eq]
    simp [notAfter, hafter b hb]

/-! ## 3. Numbered items -/

/-- The first of two numbered items has the earlier cost, or none is earlier and its number is
smaller. -/
def Precedes (cost : β → Cost α) (a b : β × ℕ) : Prop :=
  (cost a.1).before (cost b.1) = true ∨ (cost a.1).notAfter (cost b.1) = true ∧ a.2 < b.2

theorem Precedes.asymm {a b : β × ℕ} (h : Precedes cost a b) :
    ¬Precedes cost b a := by
  rintro (hba | ⟨hba, hnumber'⟩)
  · rcases h with hab | ⟨hab, -⟩
    · rw [before_asymm hab] at hba
      exact nomatch hba
    · rw [notAfter, hba] at hab
      exact nomatch hab
  · rcases h with hab | ⟨-, hnumber⟩
    · rw [notAfter, hab] at hba
      exact nomatch hba
    · exact hnumber.not_gt hnumber'

omit [Scalar.Ordered α] in
theorem precedes_of_zipIdxLE {a b : β × ℕ} (ha : (cost a.1).IsProper) (hb : (cost b.1).IsProper)
    (hab : List.zipIdxLE (fun a b => (cost a).proper.notAfter (cost b).proper) a b = true)
    (hne : a.2 ≠ b.2) : Precedes cost a b := by
  simp only [List.zipIdxLE, ha.proper_eq, hb.proper_eq] at hab
  split at hab
  · rename_i hle
    split at hab
    · exact .inr ⟨hle, lt_of_le_of_ne (of_decide_eq_true hab) hne⟩
    · rename_i hge
      exact .inl (by simpa [notAfter] using hge)
  · exact nomatch hab

/-- A ranking puts the items in the order of their costs and then of their numbers. -/
theorem rank_eq_map_order {items : List β} (h : ∀ b ∈ items, (cost b).IsProper) :
    ∃ order : List (β × ℕ), order.Perm items.zipIdx ∧ order.Pairwise (Precedes cost) ∧
      rank cost items = order.map (·.1) := by
  have hperm := List.mergeSort_perm items.zipIdx
    (List.zipIdxLE fun a b => (cost a).proper.notAfter (cost b).proper)
  have hsorted := List.pairwise_mergeSort (List.zipIdxLE_trans (notAfter_proper_trans cost))
    (List.zipIdxLE_total (notAfter_proper_total cost)) items.zipIdx
  have hnumbers := (hperm.map (·.2)).nodup_iff.mpr (List.nodup_zipIdx_map_snd items)
  refine ⟨_, hperm, ?_, ?_⟩
  · apply (hsorted.and (List.pairwise_map.mp hnumbers)).imp_of_mem
    rintro a b ha hb ⟨hab, hne⟩
    have hproper {c : β × ℕ} (hc : c ∈ items.zipIdx) : (cost c.1).IsProper :=
      h c.1 (List.fst_mem_of_mem_zipIdx hc)
    exact precedes_of_zipIdxLE (hproper (hperm.mem_iff.mp ha)) (hproper (hperm.mem_iff.mp hb)) hab
      hne
  · rw [rank_eq_mergeSort h, ← List.mergeSort_zipIdx]

end Cost

end BoxSearch
