import Mathlib.Algebra.Order.Field.Basic
import Mathlib.Logic.Function.Iterate
import Mathlib.Tactic.FieldSimp
import Mathlib.Tactic.Linarith
import Mathlib.Tactic.Positivity
import Mathlib.Tactic.Ring

/-!
# Newton's iteration for roots

A Newton step for the square root squares the ratio of the difference from the root and the sum
with it, so that the distance after any number of steps is known exactly.  A Newton step for the
cube root ends above the root, and from there on it squares the relative error.
-/

namespace NewtonRoots

variable {α : Type*} [Field α]

/-- The Newton step for the square root of `y ^ 2`. -/
def IsSqrtStep [LT α] (y : α) (f : α → α) : Prop :=
  ∀ e, 0 < e → f e + f e = e + y * y / e

/-- The Newton step for the cube root of `y ^ 3`. -/
def IsCbrtStep [LT α] (y : α) (f : α → α) : Prop :=
  ∀ e, 0 < e → f e + f e + f e = e + e + y * y * y / (e * e)

variable [LinearOrder α] [IsStrictOrderedRing α] {y e : α} {f : α → α}

/-! ### Square roots -/

namespace IsSqrtStep

theorem eq (h : IsSqrtStep y f) (he : 0 < e) :
  f e = (e + y * y / e) / 2
  := by
  have := h e he
  linarith

theorem pos (h : IsSqrtStep y f) (he : 0 < e) :
  0 < f e
  := by
  have hsquare := mul_self_nonneg y
  rw [h.eq he]
  positivity

theorem iterate_pos (h : IsSqrtStep y f) (he : 0 < e) (n : ℕ) :
  0 < f^[n] e
  := by
  induction n with
  | zero => exact he
  | succ n ih =>
      rw [Function.iterate_succ_apply']
      apply h.pos ih

/-- A step squares the ratio of the difference from the root and the sum with it. -/
theorem ratio (h : IsSqrtStep y f) (he : 0 < e) :
  (f e - y) / (f e + y) = ((e - y) / (e + y)) ^ 2
  := by
  have hdiff : f e - y = (e - y) ^ 2 / (2 * e) := by
    rw [h.eq he]
    field_simp
    ring
  have hsum : f e + y = (e + y) ^ 2 / (2 * e) := by
    rw [h.eq he]
    field_simp
    ring
  rw [hdiff, hsum, div_pow, div_div_div_cancel_right₀ (by positivity)]

theorem iterate_ratio (h : IsSqrtStep y f) (he : 0 < e) (n : ℕ) :
  (f^[n] e - y) / (f^[n] e + y) = ((e - y) / (e + y)) ^ 2 ^ n
  := by
  induction n with
  | zero => rw [Function.iterate_zero_apply, pow_zero, pow_one]
  | succ n ih =>
      rw [Function.iterate_succ_apply', h.ratio (h.iterate_pos he n), ih, ← pow_mul, pow_succ]

/-- Above the root, the steps go down towards it. -/
theorem iterate_mem (h : IsSqrtStep y f) (hy : 0 < y) (he : y ≤ e) (n : ℕ) :
  y ≤ f^[n] e ∧ f^[n] e ≤ e
  := by
  induction n with
  | zero => exact ⟨he, le_rfl⟩
  | succ n ih =>
      obtain ⟨hlow, hhigh⟩ := ih
      have hpos : 0 < f^[n] e := hy.trans_le hlow
      rw [Function.iterate_succ_apply', h.eq hpos]
      constructor
      · rw [le_div_iff₀ two_pos, ← sub_nonneg]
        have hsquare : f^[n] e + y * y / f^[n] e - y * 2 = (f^[n] e - y) ^ 2 / f^[n] e := by
          field_simp
          ring
        rw [hsquare]
        positivity
      · apply le_trans _ hhigh
        have hquotient : y * y / f^[n] e ≤ f^[n] e := by
          rw [div_le_iff₀ hpos]
          apply mul_self_le_mul_self hy.le hlow
        linarith

/-- A step at most halves. -/
theorem le_iterate (h : IsSqrtStep y f) (he : 0 < e) (n : ℕ) :
  e / 2 ^ n ≤ f^[n] e
  := by
  induction n with
  | zero => rw [pow_zero, div_one, Function.iterate_zero_apply]
  | succ n ih =>
      have hpos := h.iterate_pos he n
      have hquotient : 0 ≤ y * y / f^[n] e := div_nonneg (mul_self_nonneg y) hpos.le
      rw [Function.iterate_succ_apply', h.eq hpos, pow_succ, ← div_div]
      linarith

end IsSqrtStep

/-- How far a number is above the root, in terms of the ratio. -/
theorem le_mul_iff_ratio {k : α} (hy : 0 < y) (he : 0 < e) (hk : 0 < k) :
  e ≤ k * y ↔ (e - y) / (e + y) ≤ (k - 1) / (k + 1)
  := by
  rw [div_le_div_iff₀ (by positivity) (by positivity)]
  constructor
  · intro h
    linarith
  · intro h
    linarith

/-! ### Cube roots -/

namespace IsCbrtStep

theorem eq (h : IsCbrtStep y f) (he : 0 < e) :
  f e = (2 * e + y * y * y / (e * e)) / 3
  := by
  have := h e he
  linarith

/-- A step ends above the root. -/
theorem root_le (h : IsCbrtStep y f) (hy : 0 < y) (he : 0 < e) :
  y ≤ f e
  := by
  have hgap : (2 * e + y * y * y / (e * e)) - y * 3 = (e - y) ^ 2 * (2 * e + y) / (e * e) := by
    field_simp
    ring
  rw [h.eq he, le_div_iff₀ three_pos, ← sub_nonneg, hgap]
  positivity

/-- Above the root, a step squares the relative error. -/
theorem error_le (h : IsCbrtStep y f) (hy : 0 < y) (he : y ≤ e) :
  y * (f e - y) ≤ (e - y) ^ 2
  := by
  have hpos : 0 < e := hy.trans_le he
  have hgap : f e - y = (e - y) ^ 2 * (2 * e + y) / (3 * (e * e)) := by
    rw [h.eq hpos]
    field_simp
    ring
  have hweight : y * (2 * e + y) ≤ 3 * (e * e) := by
    have hsquare := mul_self_le_mul_self hy.le he
    have hproduct := mul_le_mul_of_nonneg_right he hpos.le
    linarith
  rw [hgap, mul_div_assoc', div_le_iff₀ (by positivity)]
  calc y * ((e - y) ^ 2 * (2 * e + y)) = (e - y) ^ 2 * (y * (2 * e + y)) := by ring
    _ ≤ (e - y) ^ 2 * (3 * (e * e)) := mul_le_mul_of_nonneg_left hweight (sq_nonneg _)

/-- From within a factor of two, one step comes within two thirds. -/
theorem le_of_near (h : IsCbrtStep y f) (hy : 0 < y) (hlow : y ≤ 2 * e) (hhigh : e ≤ 2 * y) :
  f e ≤ y * (1 + 2 / 3)
  := by
  have he : 0 < e := by linarith
  have hfactor : 2 * e * (e * e) + y * y * y - 5 * y * (e * e)
      = (2 * e - y) * (e * (e - 2 * y) - y * y) := by ring
  have hneg : (2 * e - y) * (e * (e - 2 * y) - y * y) ≤ 0 := by
    apply mul_nonpos_of_nonneg_of_nonpos
    · linarith
    · have := mul_nonpos_of_nonneg_of_nonpos he.le (sub_nonpos.mpr hhigh)
      have := mul_self_nonneg y
      linarith
  have hquotient : y * y * y / (e * e) ≤ 5 * y - 2 * e := by
    rw [div_le_iff₀ (by positivity)]
    linarith
  rw [h.eq he]
  linarith

/-- Above the root, the relative error after some steps is a power of the first one. -/
theorem iterate_mem (h : IsCbrtStep y f) (hy : 0 < y) {d : α} (hlow : y ≤ e)
    (hhigh : e ≤ y * (1 + d)) (n : ℕ) :
  y ≤ f^[n] e ∧ f^[n] e ≤ y * (1 + d ^ 2 ^ n)
  := by
  induction n with
  | zero =>
      rw [Function.iterate_zero_apply, pow_zero, pow_one]
      exact ⟨hlow, hhigh⟩
  | succ n ih =>
      obtain ⟨hlow, hhigh⟩ := ih
      rw [Function.iterate_succ_apply']
      refine ⟨h.root_le hy (hy.trans_le hlow), ?_⟩
      have herror : f^[n] e - y ≤ y * d ^ 2 ^ n := by linarith
      have hsquare : (f^[n] e - y) ^ 2 ≤ (y * d ^ 2 ^ n) ^ 2 :=
        pow_le_pow_left₀ (sub_nonneg.mpr hlow) herror 2
      have hstep := (h.error_le hy hlow).trans hsquare
      have hcancel : y * (f (f^[n] e) - y) ≤ y * (y * d ^ 2 ^ (n + 1)) := by
        calc y * (f (f^[n] e) - y) ≤ (y * d ^ 2 ^ n) ^ 2 := hstep
          _ = y * (y * d ^ 2 ^ (n + 1)) := by ring
      have := le_of_mul_le_mul_left hcancel hy
      linarith

end IsCbrtStep

end NewtonRoots
