import Mathlib.Tactic.Common
import Mathlib.Data.Nat.Notation

/-!
# How long something has been so

`streak P n` is the number of positions directly before `n` at which `P` holds without an
interruption, as a loop counts them that starts again from zero each time `P` fails.
-/

/-- The length of the run of positions with `P` that ends before `n`. -/
def streak (P : ℕ → Prop) [DecidablePred P] : ℕ → ℕ
  | 0 => 0
  | n + 1 => if P n then streak P n + 1 else 0

namespace Streak

variable {P : ℕ → Prop} [DecidablePred P] {n k : ℕ}

theorem succ_of_holds (h : P n) :
  streak P (n + 1) = streak P n + 1
  := if_pos h

theorem succ_of_not (h : ¬ P n) :
  streak P (n + 1) = 0
  := if_neg h

/-- A run has some length when `P` holds at so many positions before its end. -/
theorem le_iff :
  k ≤ streak P n ↔ k ≤ n ∧ ∀ i, n - k ≤ i → i < n → P i
  := by
  induction n generalizing k with
  | zero =>
      rw [streak]
      constructor
      · intro hk
        refine ⟨hk, ?_⟩
        intro i _ hi
        exact absurd hi (Nat.not_lt_zero i)
      · rintro ⟨hk, -⟩
        apply hk
  | succ n ih =>
      cases k with
      | zero =>
          apply iff_of_true (Nat.zero_le _)
          refine ⟨Nat.zero_le _, ?_⟩
          intro i hni hi
          omega
      | succ k =>
          by_cases h : P n
          · rw [succ_of_holds h, Nat.succ_le_succ_iff, Nat.succ_le_succ_iff, ih,
              Nat.succ_sub_succ]
            apply and_congr_right
            intro _
            constructor
            · intro hrun i hni hi
              rcases Nat.lt_succ_iff_lt_or_eq.mp hi with hi | rfl
              · apply hrun i hni hi
              · apply h
            · intro hrun i hni hi
              apply hrun i hni (Nat.lt_succ_of_lt hi)
          · rw [succ_of_not h]
            apply iff_of_false (Nat.not_succ_le_zero k)
            rintro ⟨_, hrun⟩
            apply h
            apply hrun n _ (Nat.lt_succ_self n)
            omega

/-- The last positions of a run. -/
theorem holds (h : k ≤ streak P n) {i : ℕ} (hni : n - k ≤ i) (hi : i < n) :
  P i
  := (le_iff.mp h).2 i hni hi

/-- A run of more than a length ends at some position, if `P` holds at so many successive
positions. -/
theorem exceeds_iff :
  (∃ m ≤ n, k < streak P m) ↔ ∃ m, m + (k + 1) ≤ n ∧ ∀ i, m ≤ i → i < m + (k + 1) → P i
  := by
  constructor
  · rintro ⟨m, hmn, hm⟩
    obtain ⟨hk, hrun⟩ := le_iff.mp hm
    refine ⟨m - (k + 1), ?_, ?_⟩
    · omega
    · intro i hmi hi
      apply hrun i hmi
      omega
  · rintro ⟨m, hmn, hrun⟩
    refine ⟨m + (k + 1), hmn, ?_⟩
    apply le_iff.mpr
    refine ⟨Nat.le_add_left _ _, ?_⟩
    intro i hmi hi
    apply hrun i _ hi
    omega

end Streak
