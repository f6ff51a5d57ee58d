import Mathlib.Algebra.Order.Archimedean.Real.Basic
import Mathlib.Data.Int.ConditionallyCompleteOrder
import Mathlib.Tactic.Linarith

/-!
# Rounding to the nearest integer

A number is rounded to the nearest integer, and halves are rounded away from zero.  The rounding
is monotone and keeps integers, so that it keeps a number between two integers between them.
-/

/-- The nearest integer, away from zero for halves. -/
noncomputable def roundHalfAway (x : ℝ) : ℤ :=
  if 0 ≤ x then ⌊x + 0.5⌋ else ⌈x - 0.5⌉

theorem roundHalfAway_of_nonneg {x : ℝ} (h : 0 ≤ x) :
  roundHalfAway x = ⌊x + 1 / 2⌋
  := by
  rw [roundHalfAway, if_pos h, show (0.5 : ℝ) = 1 / 2 by norm_num]

theorem roundHalfAway_of_neg {x : ℝ} (h : x < 0) :
  roundHalfAway x = ⌈x - 1 / 2⌉
  := by
  rw [roundHalfAway, if_neg (not_le.mpr h), show (0.5 : ℝ) = 1 / 2 by norm_num]

/-- The rounding goes by at most one half, and by one half only away from zero. -/
theorem roundHalfAway_nearest (x : ℝ) :
  |(roundHalfAway x : ℝ) - x| ≤ 1 / 2
    ∧ (|(roundHalfAway x : ℝ) - x| = 1 / 2 → |x| ≤ |(roundHalfAway x : ℝ)|)
  := by
  rcases le_or_gt 0 x with hx | hx
  · rw [roundHalfAway_of_nonneg hx]
    have hle := Int.floor_le (x + 1 / 2)
    have hlt := Int.lt_floor_add_one (x + 1 / 2)
    have habs : |(⌊x + 1 / 2⌋ : ℝ) - x| ≤ 1 / 2 := by
      rw [abs_le]
      constructor <;> linarith
    refine ⟨habs, ?_⟩
    intro hhalf
    rcases abs_choice ((⌊x + 1 / 2⌋ : ℝ) - x) with hsign | hsign
    · rw [abs_of_nonneg hx]
      apply le_trans _ (le_abs_self _)
      linarith
    · linarith
  · rw [roundHalfAway_of_neg hx]
    have hle := Int.le_ceil (x - 1 / 2)
    have hlt := Int.ceil_lt_add_one (x - 1 / 2)
    have habs : |(⌈x - 1 / 2⌉ : ℝ) - x| ≤ 1 / 2 := by
      rw [abs_le]
      constructor <;> linarith
    refine ⟨habs, ?_⟩
    intro hhalf
    rcases abs_choice ((⌈x - 1 / 2⌉ : ℝ) - x) with hsign | hsign
    · linarith
    · rw [abs_of_neg hx]
      apply le_trans _ (neg_le_abs _)
      linarith

/-- Integers are kept. -/
@[simp]
theorem roundHalfAway_intCast (n : ℤ) :
  roundHalfAway n = n
  := by
  rcases le_or_gt 0 (n : ℝ) with hn | hn
  · rw [roundHalfAway_of_nonneg hn, Int.floor_eq_iff]
    constructor <;> linarith
  · rw [roundHalfAway_of_neg hn, Int.ceil_eq_iff]
    constructor <;> linarith

theorem roundHalfAway_mono {x y : ℝ} (h : x ≤ y) :
  roundHalfAway x ≤ roundHalfAway y
  := by
  rcases le_or_gt 0 x with hx | hx
  · rw [roundHalfAway_of_nonneg hx, roundHalfAway_of_nonneg (hx.trans h)]
    apply Int.floor_mono
    linarith
  rw [roundHalfAway_of_neg hx]
  rcases le_or_gt 0 y with hy | hy
  · rw [roundHalfAway_of_nonneg hy]
    have hnonpos : ⌈x - 1 / 2⌉ ≤ 0 := by
      rw [Int.ceil_le, Int.cast_zero]
      linarith
    have hnonneg : 0 ≤ ⌊y + 1 / 2⌋ := by
      rw [Int.le_floor, Int.cast_zero]
      linarith
    apply hnonpos.trans hnonneg
  · rw [roundHalfAway_of_neg hy]
    apply Int.ceil_mono
    linarith

/-- A number between two integers stays between them. -/
theorem roundHalfAway_mem_Icc {m n : ℤ} {x : ℝ} (hm : m ≤ x) (hn : x ≤ n) :
  roundHalfAway x ∈ Set.Icc m n
  := by
  constructor
  · rw [← roundHalfAway_intCast m]
    apply roundHalfAway_mono hm
  · rw [← roundHalfAway_intCast n]
    apply roundHalfAway_mono hn

/-- The rounded values of two numbers are apart by at most one more than the numbers. -/
theorem abs_roundHalfAway_sub_le (x y : ℝ) :
  |(roundHalfAway y - roundHalfAway x : ℝ)| ≤ |y - x| + 1
  := by
  have hx := (abs_le.mp (roundHalfAway_nearest x).1)
  have hy := (abs_le.mp (roundHalfAway_nearest y).1)
  have hlow := neg_abs_le (y - x)
  have hhigh := le_abs_self (y - x)
  rw [abs_le]
  constructor <;> linarith
