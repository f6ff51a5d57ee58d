import Mathlib.Algebra.BigOperators.Intervals
import Mathlib.Algebra.Order.BigOperators.Group.Finset
import Mathlib.Data.Set.Function
import Mathlib.Order.CompletePartialOrder
import Mathlib.Order.Interval.Set.Disjoint

/-!
# Blocks one after the other

Blocks of given sizes, numbered from some number on, are laid out one after the other.  The block
`n` consists of the positions `Set.Ico (offset …) (offset … + size n)`.
-/

/-- Where a block starts, if the first block, of number `m`, starts at `start`. -/
def offset (start m : ℕ) (size : ℕ → ℕ) (n : ℕ) : ℕ :=
  start + ∑ i ∈ Finset.Ico m n, size i

namespace Layout

variable {start m n k : ℕ} {size : ℕ → ℕ}

@[simp]
theorem offset_first :
  offset start m size m = start
  := by
  rw [offset, Finset.Ico_self, Finset.sum_empty, Nat.add_zero]

theorem offset_succ (h : m ≤ n) :
  offset start m size (n + 1) = offset start m size n + size n
  := by
  rw [offset, offset, Finset.sum_Ico_succ_top h, Nat.add_assoc]

/-- The blocks behind the first one start where it ends. -/
theorem offset_of_lt (h : m < n) :
  offset start m size n = offset (start + size m) (m + 1) size n
  := by
  rw [offset, offset, Finset.sum_eq_sum_Ico_succ_bot h, Nat.add_assoc]

theorem offset_mono (h : n ≤ k) :
  offset start m size n ≤ offset start m size k
  := by
  apply Nat.add_le_add_left
  apply Finset.sum_le_sum_of_subset
  apply Finset.Ico_subset_Ico_right h

theorem start_le_offset :
  start ≤ offset start m size n
  := Nat.le_add_right _ _

/-- A block ends before the following ones start. -/
theorem offset_add_le (hm : m ≤ n) (h : n < k) :
  offset start m size n + size n ≤ offset start m size k
  := by
  rw [← offset_succ hm]
  apply offset_mono h

/-- Different blocks are disjoint. -/
theorem disjoint_blocks (hn : m ≤ n) (hk : m ≤ k) (h : n ≠ k) :
  Disjoint (Set.Ico (offset start m size n) (offset start m size n + size n))
    (Set.Ico (offset start m size k) (offset start m size k + size k))
  := by
  rw [Set.Ico_disjoint_Ico]
  rcases lt_or_gt_of_ne h with h | h
  · apply min_le_of_left_le
    apply le_max_of_le_right
    apply offset_add_le hn h
  · apply min_le_of_right_le
    apply le_max_of_le_left
    apply offset_add_le hk h

/-- A position is in one of the blocks. -/
theorem exists_block {a : ℕ} (hmk : m ≤ k) (hge : start ≤ a) (hlt : a < offset start m size k) :
  ∃ n, m ≤ n ∧ n < k ∧ offset start m size n ≤ a ∧ a < offset start m size n + size n
  := by
  induction k, hmk using Nat.le_induction with
  | base =>
      rw [offset_first] at hlt
      omega
  | succ k hmk ih =>
      by_cases hbefore : a < offset start m size k
      · obtain ⟨n, hn, hnk, hmem⟩ := ih hbefore
        exact ⟨n, hn, Nat.lt_succ_of_lt hnk, hmem⟩
      · rw [offset_succ hmk] at hlt
        exact ⟨k, hmk, Nat.lt_succ_self k, Nat.not_lt.mp hbefore, hlt⟩

/-- The first positions of a block, as many as there are, lie in it if it is so long. -/
theorem Ico_subset_iff {a length length' : ℕ} (h : 0 < length) :
  Set.Ico a (a + length) ⊆ Set.Ico a (a + length') ↔ length ≤ length'
  := by
  rw [Set.Ico_subset_Ico_iff (Nat.lt_add_of_pos_right h), Nat.add_le_add_iff_left]
  apply and_iff_right le_rfl

end Layout
