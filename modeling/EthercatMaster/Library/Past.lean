import Mathlib.Order.Lattice
import Mathlib.Data.Nat.Notation

/-!
# What has been so since

A property of the positions of a run holds since another one: there is an earlier position at
which the other one held, and between it and now the property has always held.
-/

/-- `P` has held since `Q` did, at some position before `i`. -/
def Since (P Q : ℕ → Prop) (i : ℕ) : Prop :=
  ∃ j < i, Q j ∧ ∀ k, j < k → k < i → P k

namespace Since

variable {P Q : ℕ → Prop} {i : ℕ}

@[simp]
theorem zero :
  ¬ Since P Q 0
  := by
  rintro ⟨j, hlt, -⟩
  omega

/-- One position later, `Q` has just held, or `P` has just held and did so since `Q`. -/
theorem succ :
  Since P Q (i + 1) ↔ Q i ∨ (P i ∧ Since P Q i)
  := by
  constructor
  · rintro ⟨j, hlt, hj, hafter⟩
    rcases Nat.lt_succ_iff_lt_or_eq.mp hlt with hlt | rfl
    · right
      refine ⟨hafter i hlt (Nat.lt_succ_self i), j, hlt, hj, ?_⟩
      intro k hjk hki
      apply hafter k hjk (Nat.lt_succ_of_lt hki)
    · left
      apply hj
  · rintro (hi | ⟨hi, j, hlt, hj, hafter⟩)
    · refine ⟨i, Nat.lt_succ_self i, hi, ?_⟩
      intro k hik hki
      omega
    · refine ⟨j, Nat.lt_succ_of_lt hlt, hj, ?_⟩
      intro k hjk hki
      rcases Nat.lt_succ_iff_lt_or_eq.mp hki with hki | rfl
      · apply hafter k hjk hki
      · apply hi

/-- `Q` has just held. -/
theorem now (h : Q i) :
  Since P Q (i + 1)
  := succ.mpr (Or.inl h)

/-- It goes on. -/
theorem keep (hP : P i) (h : Since P Q i) :
  Since P Q (i + 1)
  := succ.mpr (Or.inr ⟨hP, h⟩)

/-- It is over if neither of the two has just held. -/
theorem ended (hP : ¬ P i) (hQ : ¬ Q i) :
  ¬ Since P Q (i + 1)
  := by
  rw [succ]
  rintro (h | ⟨h, -⟩)
  · apply hQ h
  · apply hP h

/-- Nothing has changed if `P` has just held and `Q` has not. -/
theorem same (hP : P i) (hQ : ¬ Q i) :
  Since P Q (i + 1) ↔ Since P Q i
  := by
  rw [succ]
  constructor
  · rintro (h | ⟨-, h⟩)
    · contradiction
    · apply h
  · intro h
    exact Or.inr ⟨hP, h⟩

instance [DecidablePred P] [DecidablePred Q] : Decidable (Since P Q i) :=
  inferInstanceAs (Decidable (∃ j < i, Q j ∧ ∀ k, j + 1 ≤ k → k < i → P k))

end Since
