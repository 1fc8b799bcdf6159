import CallFlow.Cell
import Mathlib.Data.List.Dedup
import Mathlib.Order.Nat

/-!
# Positions of elements

An element is appended one past the last position (`Positions.past`).  Positions are words, so
behind the greatest word the first position comes round; this is what `Positions.next` adds.  It
can happen only to a list with gaps.

`Positions.Fits` says that it does not happen for a number of appends.  A list without gaps has
room for any number (`Positions.fits_nil`), and a position that is written has room for as many as
there are words behind it (`Positions.Fits.write`).
-/

namespace CallFlow

namespace Positions

variable {ps ps' : List Nat} {i n : Nat}

/-- One past the largest of the positions. -/
def past (ps : List Nat) : Nat := ps.foldr (fun i n => max (i + 1) n) 0

/-- The position of an element that is appended: one past the largest.  Positions are words, so that
the first one comes behind the greatest word.  Positions without gaps do not get there, as they
would be those of an element for each word. -/
def next (ps : List Nat) : Nat :=
  if past ps < UInt64.size ∨ past ps ≤ ps.dedup.length then past ps else 0

theorem past_le_iff : past ps ≤ n ↔ ∀ i ∈ ps, i < n := by
  induction ps with
  | nil => simp [past]
  | cons i ps ih =>
      rw [List.forall_mem_cons, ← ih]
      show max (i + 1) (past ps) ≤ n ↔ _
      rw [Nat.max_le, Nat.succ_le_iff]

theorem lt_past (h : i ∈ ps) : i < past ps := past_le_iff.1 (Nat.le_refl _) i h

theorem past_congr (h : ∀ i, i ∈ ps ↔ i ∈ ps') : past ps = past ps' := by
  refine eq_of_forall_ge_iff fun n => ?_
  simp only [past_le_iff, h]

/-- Which position is next depends only on which are taken. -/
theorem next_congr (h : ∀ i, i ∈ ps ↔ i ∈ ps') : next ps = next ps' := by
  have hperm : ps.dedup.Perm ps'.dedup :=
    (List.perm_ext_iff_of_nodup (List.nodup_dedup _) (List.nodup_dedup _)).2 (by simpa using h)
  rw [next, next, past_congr h, hperm.length_eq]

/-- Before the words end, elements are appended one past the largest position. -/
theorem next_of_lt (h : past ps < UInt64.size) : next ps = past ps := if_pos (.inl h)

/-- Behind the greatest word the positions come round. -/
example : next [UInt64.size - 2, UInt64.size - 1] = 0 := by decide

theorem next_of_dense (h : past ps ≤ ps.dedup.length) : next ps = past ps := if_pos (.inr h)

/-- The largest of decreasing positions is the first one. -/
theorem past_of_decreasing (h : (i :: ps).Pairwise (· > ·)) : past (i :: ps) = i + 1 := by
  refine Nat.max_eq_left (past_le_iff.2 fun j hj => ?_)
  exact Nat.lt_succ_of_lt (List.rel_of_pairwise_cons h hj)

/-- The positions of a list without gaps, the last one first. -/
theorem next_range (n : Nat) : next (List.range n).reverse = n := by
  have hpast : past (List.range n).reverse = n := by
    refine eq_of_forall_ge_iff fun m => ?_
    simp only [past_le_iff, List.mem_reverse, List.mem_range]
    exact ⟨fun h => Nat.le_of_not_lt fun hlt => Nat.lt_irrefl m (h m hlt),
      fun h i hi => Nat.lt_of_lt_of_le hi h⟩
  have hnodup : (List.range n).reverse.Nodup := List.nodup_reverse.2 List.nodup_range
  rw [next_of_dense, hpast]
  simp [hpast, hnodup.dedup]

/-! ## Room for appends -/

/-- Elements can be appended before the words end, or there is no gap. -/
def Fits (ps : List Nat) (count : Nat) : Prop :=
  past ps + count ≤ UInt64.size ∨ past ps ≤ ps.dedup.length

theorem fits_nil (n : Nat) : Fits [] n := .inr (Nat.le_refl 0)

theorem Fits.next_eq (h : Fits ps (n + 1)) : next ps = past ps := by
  rcases h with hroom | hdense
  · exact next_of_lt (by omega)
  · exact next_of_dense hdense

/-- One append leaves room for the others. -/
theorem Fits.append (h : Fits ps (n + 1)) : Fits (past ps :: ps) n := by
  have hpast : past (past ps :: ps) = past ps + 1 := Nat.max_eq_left (Nat.le_succ _)
  have hnew : past ps ∉ ps := fun hmem => Nat.lt_irrefl _ (lt_past hmem)
  rw [Fits, hpast, List.dedup_cons_of_notMem hnew, List.length_cons]
  exact h.imp (by omega) (by omega)

/-- A write of a position leaves room if there are words enough behind it. -/
theorem Fits.write (h : Fits ps n) (hroom : i + 1 + n ≤ UInt64.size) : Fits (i :: ps) n := by
  have hpast : past (i :: ps) = max (i + 1) (past ps) := rfl
  rcases Nat.le_total (past ps) (i + 1) with hle | hle
  · rw [Fits, hpast, Nat.max_eq_left hle]
    exact .inl hroom
  · have hdedup : ps.dedup.length ≤ (i :: ps).dedup.length := by
      by_cases hi : i ∈ ps
      · exact Nat.le_of_eq (by rw [List.dedup_cons_of_mem hi])
      · rw [List.dedup_cons_of_notMem hi]
        exact Nat.le_succ _
    rw [Fits, hpast, Nat.max_eq_right hle]
    exact h.imp_right fun hdense => Nat.le_trans hdense hdedup

end Positions

/-- The next position of a list is that of its positions. -/
theorem Cell.nextPosition_list {items : List (Nat × Value)}
    (h : (Assoc.keys items).Pairwise (· > ·)) :
    nextPosition (.list items) = Positions.next (Assoc.keys items) := by
  cases items with
  | nil => rfl
  | cons entry earlier =>
      obtain ⟨last, v⟩ := entry
      have hkeys : Assoc.keys ((last, v) :: earlier) = last :: Assoc.keys earlier := rfl
      rw [hkeys] at h ⊢
      have hnodup : (last :: Assoc.keys earlier).Nodup := h.imp fun hlater => Nat.ne_of_gt hlater
      have hlength : (last :: Assoc.keys earlier).dedup.length = earlier.length + 1 := by
        rw [hnodup.dedup, List.length_cons, Assoc.keys, List.length_map]
      simp only [nextPosition, Positions.next, Positions.past_of_decreasing h, hlength,
        Nat.add_le_add_iff_right]

end CallFlow
