import EthercatMaster.Library.NewtonRoots
import EthercatMaster.Motion.Profile

/-!
# The root routines

What `motion_positive_sqrt` and `motion_positive_cbrt` compute over the rationals.  24 Newton steps
for the square root start at the value or at one, which may be far away from the root; how far the
result is from the root is known exactly, and for values far from one it is far.  The cube root is
scaled first, so that 16 steps come as close as can be.
-/

namespace EthercatMaster

open FloatArith NewtonRoots

/-! ### Square roots -/

/-- The part of the distance from the root that 24 Newton steps leave. -/
noncomputable def sqrtResidue (x : ℚ) : ℝ :=
  ((√x - 1) / (√x + 1)) ^ 2 ^ 24

/-- 24 Newton steps come within a factor of the square of the root. -/
def Settles (η x : ℚ) : Prop :=
  sqrtResidue x ≤ (√(1 + η : ℚ) - 1) / (√(1 + η : ℚ) + 1)

/-- The result of 24 Newton steps. -/
noncomputable def newtonSqrt (x : ℚ) : ℝ :=
  √x * ((1 + sqrtResidue x) / (1 - sqrtResidue x))

theorem sqrtResidue_nonneg (x : ℚ) :
  0 ≤ sqrtResidue x
  := Even.pow_nonneg (Nat.even_pow.mpr ⟨even_two, by decide⟩) _

/-- A sequence of rational numbers and one of real numbers, with the same steps. -/
theorem cast_iterate {f : ℚ → ℚ} {g : ℝ → ℝ} (h : ∀ e, ((f e : ℚ) : ℝ) = g e) (n : ℕ) (e : ℚ) :
  ((f^[n] e : ℚ) : ℝ) = g^[n] e
  := by
  have hsemiconj : Function.Semiconj (Rat.cast : ℚ → ℝ) f g := h
  apply hsemiconj.iterate_right n e

/-- The step of the source is the Newton step for the root. -/
theorem isSqrtStep (x : ℚ) (hx : 0 < x) :
  IsSqrtStep √(x : ℝ) fun e => (0.5 : ℚ) * (e + x / e)
  := by
  intro e _
  have hcast : (0 : ℝ) ≤ x := by exact_mod_cast hx.le
  rw [Real.mul_self_sqrt hcast]
  push_cast
  ring

/-- The square root of the source, as an iteration. -/
theorem motionPositiveSqrt_eq {x : ℚ} (hx : 0 < x) :
  ((motionPositiveSqrt x : ℚ) : ℝ)
    = (fun e : ℝ => (0.5 : ℚ) * (e + x / e))^[24] ((max x 1 : ℚ) : ℝ)
  := by
  have hstart : (if lt (lit 1) x then x else lit 1 : ℚ) = max x 1 := by
    split
    · rename_i h
      rw [lt_rat, lit_rat] at h
      exact (max_eq_left h.le).symm
    · rename_i h
      rw [lt_rat, lit_rat, not_lt] at h
      exact (max_eq_right h).symm
  have hnot : ¬ le x (lit 0) = true := by
    rw [le_rat, lit_rat]
    apply not_le.mpr hx
  rw [motionPositiveSqrt, if_neg hnot, hstart]
  apply cast_iterate
  intro e
  push_cast [lit_rat]
  rfl

theorem motionPositiveSqrt_pos {x : ℚ} (hx : 0 < x) :
  0 < motionPositiveSqrt x
  := by
  have hstart : (0 : ℝ) < ((max x 1 : ℚ) : ℝ) := by
    exact_mod_cast lt_max_of_lt_right one_pos
  have := (isSqrtStep x hx).iterate_pos hstart 24
  rw [← motionPositiveSqrt_eq hx] at this
  exact_mod_cast this

/-- Below one, the square root of the source starts at one and is at most halved by each step. -/
theorem motionPositiveSqrt_mem {x : ℚ} (hx : 0 < x) (hone : x ≤ 1) :
  1 / 2 ^ 24 ≤ motionPositiveSqrt x ∧ motionPositiveSqrt x ≤ 1
  := by
  have hcast : (0 : ℝ) < x := by exact_mod_cast hx
  have hstep := isSqrtStep x hx
  have hroot : √(x : ℝ) ≤ ((max x 1 : ℚ) : ℝ) := by
    rw [max_eq_right hone, Rat.cast_one, Real.sqrt_le_one]
    exact_mod_cast hone
  have hhigh := (hstep.iterate_mem (Real.sqrt_pos.mpr hcast) hroot 24).2
  have hlow := hstep.le_iterate ((Real.sqrt_pos.mpr hcast).trans_le hroot) 24
  rw [← motionPositiveSqrt_eq hx, max_eq_right hone, Rat.cast_one] at hhigh hlow
  constructor
  · have hbound : ((1 / 2 ^ 24 : ℚ) : ℝ) ≤ motionPositiveSqrt x := by
      push_cast
      exact hlow
    exact_mod_cast hbound
  · exact_mod_cast hhigh

/-- How far the square root of the source is from the root. -/
theorem motionPositiveSqrt_ratio {x : ℚ} (hx : 0 < x) :
  (motionPositiveSqrt x - √x) / (motionPositiveSqrt x + √x) = sqrtResidue x
  := by
  have hcast : (0 : ℝ) < x := by exact_mod_cast hx
  have hroot : 0 < √(x : ℝ) := Real.sqrt_pos.mpr hcast
  have hsquare : √(x : ℝ) * √x = x := Real.mul_self_sqrt hcast.le
  have hstart : (0 : ℝ) < ((max x 1 : ℚ) : ℝ) := by
    exact_mod_cast lt_max_of_lt_right one_pos
  rw [motionPositiveSqrt_eq hx, (isSqrtStep x hx).iterate_ratio hstart, sqrtResidue]
  rcases le_total x 1 with h | h
  · have hneg : ((1 : ℝ) - √x) / (1 + √x) = -((√x - 1) / (√x + 1)) := by
      rw [← neg_div, neg_sub, add_comm]
    rw [max_eq_right h, Rat.cast_one, hneg]
    apply Even.neg_pow (Nat.even_pow.mpr ⟨even_two, by decide⟩) _
  · congr 1
    rw [max_eq_left h, div_eq_div_iff (by positivity) (by positivity)]
    linear_combination -2 * hsquare

/-- The square root of the source is at least the root. -/
theorem sqrt_le_motionPositiveSqrt {x : ℚ} (hx : 0 < x) :
  √x ≤ motionPositiveSqrt x
  := by
  have hpos : (0 : ℝ) < motionPositiveSqrt x := by exact_mod_cast motionPositiveSqrt_pos hx
  have hratio := sqrtResidue_nonneg x
  rw [← motionPositiveSqrt_ratio hx] at hratio
  have hsum : 0 < motionPositiveSqrt x + √(x : ℝ) := by positivity
  have := mul_nonneg hratio hsum.le
  rw [div_mul_cancel₀ _ hsum.ne'] at this
  linarith

/-- The square of the square root of the source is at least the value. -/
theorem le_motionPositiveSqrt_sq {x : ℚ} (hx : 0 < x) :
  x ≤ motionPositiveSqrt x ^ 2
  := by
  have hcast : (0 : ℝ) ≤ x := by exact_mod_cast hx.le
  have := pow_le_pow_left₀ (Real.sqrt_nonneg _) (sqrt_le_motionPositiveSqrt hx) 2
  rw [Real.sq_sqrt hcast] at this
  exact_mod_cast this

theorem motionPositiveSqrt_cast {x : ℚ} (hx : 0 < x) :
  ((motionPositiveSqrt x : ℚ) : ℝ) = newtonSqrt x
  := by
  have hpos : (0 : ℝ) < motionPositiveSqrt x := by exact_mod_cast motionPositiveSqrt_pos hx
  have hroot : 0 < √(x : ℝ) := Real.sqrt_pos.mpr (by exact_mod_cast hx)
  have hsum : (0 : ℝ) < motionPositiveSqrt x + √(x : ℝ) := by positivity
  have hnumerator : 1 + sqrtResidue x
      = 2 * motionPositiveSqrt x / (motionPositiveSqrt x + √(x : ℝ)) := by
    rw [← motionPositiveSqrt_ratio hx, eq_div_iff hsum.ne', add_mul, div_mul_cancel₀ _ hsum.ne']
    ring
  have hdenominator : 1 - sqrtResidue x
      = 2 * √(x : ℝ) / (motionPositiveSqrt x + √(x : ℝ)) := by
    rw [← motionPositiveSqrt_ratio hx, eq_div_iff hsum.ne', sub_mul, div_mul_cancel₀ _ hsum.ne']
    ring
  rw [newtonSqrt, hnumerator, hdenominator, div_div_div_cancel_right₀ hsum.ne',
    mul_div_mul_left _ _ two_ne_zero, mul_div_cancel₀ _ hroot.ne']

/-- The square root of the source is near the root exactly if 24 steps settle. -/
theorem motionPositiveSqrt_sq_le_iff {η x : ℚ} (hη : 0 < 1 + η) (hx : 0 < x) :
  motionPositiveSqrt x ^ 2 ≤ (1 + η) * x ↔ Settles η x
  := by
  have hcast : (0 : ℝ) < x := by exact_mod_cast hx
  have hfactor : (0 : ℝ) < (1 + η : ℚ) := by exact_mod_cast hη
  have hpos : (0 : ℝ) < motionPositiveSqrt x := by exact_mod_cast motionPositiveSqrt_pos hx
  have hroot : 0 < √(x : ℝ) := Real.sqrt_pos.mpr hcast
  rw [Settles, ← motionPositiveSqrt_ratio hx,
    ← le_mul_iff_ratio hroot hpos (Real.sqrt_pos.mpr hfactor), ← Real.sqrt_mul hfactor.le,
    Real.le_sqrt' hpos]
  norm_cast

/-! ### Scaling for cube roots -/

/-- The condition of the first scaling loop compares with the cube root. -/
theorem lt_div_div_iff {value estimate : ℚ} (h : 0 < estimate) :
  estimate < value / estimate / estimate ↔ estimate ^ 3 < value
  := by
  rw [lt_div_iff₀ h, lt_div_iff₀ h]
  ring_nf

/-- The condition of the second scaling loop compares with the cube root. -/
theorem div_div_lt_iff {value estimate : ℚ} (h : 0 < estimate) :
  value / estimate / estimate < estimate ↔ value < estimate ^ 3
  := by
  rw [div_lt_iff₀ h, div_lt_iff₀ h]
  ring_nf

/-- Doubling ends above the cube root, or after as many rounds as there is fuel, and not further
than needed. -/
theorem cbrtScaleUp_spec (value : ℚ) (fuel : ℕ) {estimate : ℚ} (h : 0 < estimate) :
  0 < cbrtScaleUp value fuel estimate
    ∧ (value ≤ cbrtScaleUp value fuel estimate ^ 3
      ∨ cbrtScaleUp value fuel estimate = estimate * 2 ^ fuel)
    ∧ (cbrtScaleUp value fuel estimate = estimate
      ∨ cbrtScaleUp value fuel estimate ^ 3 < 8 * value)
  := by
  induction fuel generalizing estimate with
  | zero => exact ⟨h, .inr (mul_one _).symm, .inl rfl⟩
  | succ fuel ih =>
      rw [cbrtScaleUp]
      split
      · rename_i hscale
        rw [lt_rat, lt_div_div_iff h] at hscale
        obtain ⟨hpos, hend, hstart⟩ := ih (mul_pos h (two_pos (α := ℚ)))
        rw [lit_rat]
        refine ⟨hpos, ?_, ?_⟩
        · rcases hend with hend | hend
          · exact .inl hend
          · right
            rw [hend, mul_assoc, pow_succ']
        · right
          rcases hstart with hstart | hstart
          · rw [hstart]
            linarith
          · exact hstart
      · rename_i hscale
        rw [lt_rat, lt_div_div_iff h, not_lt] at hscale
        exact ⟨h, .inl hscale, .inl rfl⟩

/-- Halving ends below the cube root, or after as many rounds as there is fuel, and not further
than needed. -/
theorem cbrtScaleDown_spec (value : ℚ) (fuel : ℕ) {estimate : ℚ} (h : 0 < estimate) :
  0 < cbrtScaleDown value fuel estimate
    ∧ (cbrtScaleDown value fuel estimate ^ 3 ≤ value
      ∨ cbrtScaleDown value fuel estimate * 2 ^ fuel = estimate)
    ∧ (cbrtScaleDown value fuel estimate = estimate
      ∨ value < 8 * cbrtScaleDown value fuel estimate ^ 3)
  := by
  induction fuel generalizing estimate with
  | zero => exact ⟨h, .inr (mul_one _), .inl rfl⟩
  | succ fuel ih =>
      rw [cbrtScaleDown]
      split
      · rename_i hscale
        rw [lt_rat, div_div_lt_iff h] at hscale
        obtain ⟨hpos, hend, hstart⟩ := ih (show 0 < estimate * lit 0.5 by
          rw [lit_rat]
          positivity)
        refine ⟨hpos, ?_, ?_⟩
        · rcases hend with hend | hend
          · exact .inl hend
          · right
            rw [pow_succ, ← mul_assoc, hend, lit_rat]
            ring
        · right
          rcases hstart with hstart | hstart
          · rw [hstart, lit_rat]
            linarith
          · exact hstart
      · rename_i hscale
        rw [lt_rat, div_div_lt_iff h, not_lt] at hscale
        exact ⟨h, .inl hscale, .inl rfl⟩

/-- Once doubling has come above the cube root, more fuel changes nothing. -/
theorem cbrtScaleUp_of_le {value : ℚ} {fuel fuel' : ℕ} {estimate : ℚ} (h : 0 < estimate)
    (hend : value ≤ cbrtScaleUp value fuel estimate ^ 3) (hfuel : fuel ≤ fuel') :
  cbrtScaleUp value fuel' estimate = cbrtScaleUp value fuel estimate
  := by
  induction fuel generalizing fuel' estimate with
  | zero =>
      cases fuel' with
      | zero => rfl
      | succ fuel' =>
          rw [cbrtScaleUp, cbrtScaleUp, if_neg]
          rw [lt_rat, lt_div_div_iff h, not_lt]
          apply hend
  | succ fuel ih =>
      cases fuel' with
      | zero => omega
      | succ fuel' =>
          rw [cbrtScaleUp] at hend ⊢
          rw [cbrtScaleUp]
          split
          · rename_i hscale
            rw [if_pos hscale] at hend
            apply ih (mul_pos h (two_pos (α := ℚ))) hend
            omega
          · rfl

/-- Once halving has come below the cube root, more fuel changes nothing. -/
theorem cbrtScaleDown_of_le {value : ℚ} {fuel fuel' : ℕ} {estimate : ℚ} (h : 0 < estimate)
    (hend : cbrtScaleDown value fuel estimate ^ 3 ≤ value) (hfuel : fuel ≤ fuel') :
  cbrtScaleDown value fuel' estimate = cbrtScaleDown value fuel estimate
  := by
  induction fuel generalizing fuel' estimate with
  | zero =>
      cases fuel' with
      | zero => rfl
      | succ fuel' =>
          rw [cbrtScaleDown, cbrtScaleDown, if_neg]
          rw [lt_rat, div_div_lt_iff h, not_lt]
          apply hend
  | succ fuel ih =>
      cases fuel' with
      | zero => omega
      | succ fuel' =>
          rw [cbrtScaleDown] at hend ⊢
          rw [cbrtScaleDown]
          split
          · rename_i hscale
            rw [if_pos hscale] at hend
            apply ih _ hend
            · omega
            · rw [lit_rat]
              positivity
          · rfl

/-- A positive rational number is at most two to its number of bits, and so is its inverse. -/
theorem le_two_pow_bits {x : ℚ} (hx : 0 < x) :
  x ≤ 2 ^ (x.num.natAbs.log2 + x.den.log2 + 1) ∧ 1 ≤ x * 2 ^ (x.num.natAbs.log2 + x.den.log2 + 1)
  := by
  have hden : (0 : ℚ) < x.den := by exact_mod_cast x.den_pos
  have hnum : ((x.num.natAbs : ℕ) : ℚ) = x * x.den := by
    rw [Rat.mul_den_eq_num, Nat.cast_natAbs, abs_of_pos (Rat.num_pos.mpr hx)]
  have hone : (1 : ℚ) ≤ x.den := by exact_mod_cast x.den_pos
  have hone' : (1 : ℚ) ≤ x * x.den := by
    rw [← hnum]
    exact_mod_cast Int.natAbs_pos.mpr (Rat.num_pos.mpr hx).ne'
  have hpow : ∀ {m n : ℕ}, m ≤ n → (2 : ℚ) ^ m ≤ 2 ^ n :=
    fun h => pow_le_pow_right₀ one_le_two h
  constructor
  · have hbits : ((x.num.natAbs : ℕ) : ℚ) < 2 ^ (x.num.natAbs.log2 + 1) := by
      exact_mod_cast Nat.lt_log2_self
    rw [hnum] at hbits
    have := hpow (show x.num.natAbs.log2 + 1 ≤ x.num.natAbs.log2 + x.den.log2 + 1 by omega)
    have := le_mul_of_one_le_right hx.le hone
    linarith
  · have hbits : (x.den : ℚ) < 2 ^ (x.den.log2 + 1) := by
      exact_mod_cast Nat.lt_log2_self
    have hle := hpow (show x.den.log2 + 1 ≤ x.num.natAbs.log2 + x.den.log2 + 1 by omega)
    apply hone'.trans
    apply mul_le_mul_of_nonneg_left _ hx.le
    linarith

/-- The start of the Newton steps for the cube root. -/
def cbrtStart (fuel : ℕ) (value : ℚ) : ℚ :=
  if lt (lit 1) value then cbrtScaleUp value fuel (lit 1) else cbrtScaleDown value fuel (lit 1)

/-- The condition on which the scaling loop for a value goes on. -/
def CbrtScales (value estimate : ℚ) : Prop :=
  if 1 < value then estimate < value / estimate / estimate
  else value / estimate / estimate < estimate

/-- With enough fuel, doubling ends above the cube root. -/
theorem le_cbrtScaleUp_cube {x : ℚ} (hone : 1 < x) {fuel : ℕ} (hfuel : x ≤ 2 ^ fuel) :
  x ≤ cbrtScaleUp x fuel 1 ^ 3
  := by
  obtain ⟨-, hend, -⟩ := cbrtScaleUp_spec x fuel (one_pos (α := ℚ))
  rcases hend with hend | hend
  · exact hend
  · rw [one_mul] at hend
    rw [hend]
    apply hfuel.trans (le_self_pow₀ (hone.le.trans hfuel) three_ne_zero)

/-- With enough fuel, halving ends below the cube root. -/
theorem cbrtScaleDown_cube_le {x : ℚ} (hone : x ≤ 1) {fuel : ℕ} (hfuel : 1 ≤ x * 2 ^ fuel) :
  cbrtScaleDown x fuel 1 ^ 3 ≤ x
  := by
  obtain ⟨hpos, hend, -⟩ := cbrtScaleDown_spec x fuel (one_pos (α := ℚ))
  rcases hend with hend | hend
  · exact hend
  · have hle : cbrtScaleDown x fuel 1 ≤ x := by
      apply le_of_mul_le_mul_right _ (pow_pos (two_pos (α := ℚ)) fuel)
      rw [hend]
      apply hfuel
    exact (pow_le_of_le_one hpos.le (hle.trans hone) three_ne_zero).trans hle

/-- The scaling comes within a factor of two of the cube root. -/
theorem cbrtStart_spec {x : ℚ} (hx : 0 < x) {fuel : ℕ} (hlow : x ≤ 2 ^ fuel)
    (hhigh : 1 ≤ x * 2 ^ fuel) :
  0 < cbrtStart fuel x ∧ x ≤ 8 * cbrtStart fuel x ^ 3 ∧ cbrtStart fuel x ^ 3 ≤ 8 * x
  := by
  rw [cbrtStart]
  split
  · rename_i hone
    rw [lt_rat, lit_rat] at hone
    have hcube := le_cbrtScaleUp_cube hone hlow
    obtain ⟨hpos, -, hstart⟩ := cbrtScaleUp_spec x fuel (one_pos (α := ℚ))
    rw [lit_rat]
    generalize cbrtScaleUp x fuel 1 = e at hpos hcube hstart
    refine ⟨hpos, ?_, ?_⟩
    · linarith
    · rcases hstart with rfl | hstart
      · linarith
      · exact hstart.le
  · rename_i hone
    rw [lt_rat, lit_rat, not_lt] at hone
    have hcube := cbrtScaleDown_cube_le hone hhigh
    obtain ⟨hpos, -, hstart⟩ := cbrtScaleDown_spec x fuel (one_pos (α := ℚ))
    rw [lit_rat]
    generalize cbrtScaleDown x fuel 1 = e at hpos hcube hstart
    refine ⟨hpos, ?_, ?_⟩
    · rcases hstart with rfl | hstart
      · linarith
      · exact hstart.le
    · linarith

/-- With enough fuel, the scaling loop ends by its own condition, and more fuel changes nothing. -/
theorem cbrtStart_ends {x : ℚ} {fuel : ℕ} (hlow : x ≤ 2 ^ fuel) (hhigh : 1 ≤ x * 2 ^ fuel) :
  ¬ CbrtScales x (cbrtStart fuel x)
    ∧ ∀ fuel', fuel ≤ fuel' → cbrtStart fuel' x = cbrtStart fuel x
  := by
  rw [CbrtScales]
  simp only [cbrtStart, lt_rat, lit_rat]
  split
  · rename_i hone
    have hcube := le_cbrtScaleUp_cube hone hlow
    obtain ⟨hpos, -⟩ := cbrtScaleUp_spec x fuel (one_pos (α := ℚ))
    constructor
    · rw [lt_div_div_iff hpos, not_lt]
      apply hcube
    · intro fuel' hfuel
      apply cbrtScaleUp_of_le one_pos hcube hfuel
  · rename_i hone
    have hcube := cbrtScaleDown_cube_le (not_lt.mp hone) hhigh
    obtain ⟨hpos, -⟩ := cbrtScaleDown_spec x fuel (one_pos (α := ℚ))
    constructor
    · rw [div_div_lt_iff hpos, not_lt]
      apply hcube
    · intro fuel' hfuel
      apply cbrtScaleDown_of_le one_pos hcube hfuel

/-! ### Cube roots -/

/-- The step of the source is the Newton step for the cube root. -/
theorem isCbrtStep {x : ℚ} {y : ℝ} (hy : y ^ 3 = x) :
  IsCbrtStep y fun e => ((2 : ℚ) * e + x / e / e) / (3 : ℚ)
  := by
  intro e _
  simp only [← hy, div_div]
  push_cast
  ring

/-- The cube root of the source, as an iteration. -/
theorem motionPositiveCbrt_eq {x : ℚ} (hx : 0 < x) (fuel : ℕ) :
  ((motionPositiveCbrt fuel x : ℚ) : ℝ)
    = (fun e : ℝ => ((2 : ℚ) * e + x / e / e) / (3 : ℚ))^[16] ((cbrtStart fuel x : ℚ) : ℝ)
  := by
  have hnot : ¬ le x (lit 0) = true := by
    rw [le_rat, lit_rat]
    apply not_le.mpr hx
  rw [motionPositiveCbrt, if_neg hnot, ← cbrtStart]
  apply cast_iterate
  intro e
  push_cast [lit_rat]
  rfl

/-- What remains of the relative error of two thirds after 15 more steps is negligible. -/
theorem residue_le :
  (1 + (2 / 3 : ℝ) ^ 2 ^ 15) ^ 3 ≤ 1 + 1 / 2 ^ 66
  := by
  have hpow : (2 / 3 : ℝ) ^ 2 ^ 15 ≤ (2 / 3) ^ 2 ^ 7 := by
    apply pow_le_pow_of_le_one
    · norm_num
    · norm_num
    · apply pow_le_pow_right₀ one_le_two (by norm_num)
  have hsmall : (2 / 3 : ℝ) ^ 2 ^ 7 ≤ 1 / 2 ^ 70 := by norm_num
  have hnonneg : (0 : ℝ) ≤ (2 / 3 : ℝ) ^ 2 ^ 15 := by positivity
  generalize (2 / 3 : ℝ) ^ 2 ^ 15 = d at hpow hnonneg
  calc (1 + d) ^ 3 ≤ (1 + 1 / 2 ^ 70) ^ 3 := by
        apply pow_le_pow_left₀
        · linarith
        · linarith
    _ ≤ 1 + 1 / 2 ^ 66 := by norm_num

/-- The cube root of the source is the cube root, up to a negligible excess. -/
theorem motionPositiveCbrt_spec {x : ℚ} (hx : 0 < x) {fuel : ℕ} (hlow : x ≤ 2 ^ fuel)
    (hhigh : 1 ≤ x * 2 ^ fuel) :
  0 < (motionPositiveCbrt fuel x : ℚ) ∧ x ≤ (motionPositiveCbrt fuel x : ℚ) ^ 3
    ∧ (motionPositiveCbrt fuel x : ℚ) ^ 3 ≤ x * (1 + 1 / 2 ^ 66)
  := by
  obtain ⟨hpos, hlow, hhigh⟩ := cbrtStart_spec hx hlow hhigh
  have heq := motionPositiveCbrt_eq hx fuel
  generalize cbrtStart fuel x = e at hpos hlow hhigh heq
  generalize (motionPositiveCbrt fuel x : ℚ) = c at heq ⊢
  obtain ⟨hy, hcube⟩ := cube_rpow (x := x) (by exact_mod_cast hx)
  generalize (x : ℝ) ^ (1 / 3 : ℝ) = y at hy hcube
  have hstep := isCbrtStep hcube
  rw [Function.iterate_succ_apply] at heq
  have he : (0 : ℝ) < e := by exact_mod_cast hpos
  have hnear : y ≤ 2 * e ∧ (e : ℝ) ≤ 2 * y := by
    constructor
    · apply le_of_pow_le_pow_left₀ three_ne_zero (by positivity)
      rw [mul_pow, hcube]
      have : (x : ℝ) ≤ 8 * e ^ 3 := by exact_mod_cast hlow
      linarith
    · apply le_of_pow_le_pow_left₀ three_ne_zero (by positivity)
      rw [mul_pow, hcube]
      have : (e : ℝ) ^ 3 ≤ 8 * x := by exact_mod_cast hhigh
      linarith
  obtain ⟨hroot, herror⟩ := hstep.iterate_mem hy (hstep.root_le hy he)
    (hstep.le_of_near hy hnear.1 hnear.2) 15
  rw [← heq] at hroot herror
  have hc : (0 : ℝ) < c := hy.trans_le hroot
  refine ⟨by exact_mod_cast hc, ?_, ?_⟩
  · have := pow_le_pow_left₀ hy.le hroot 3
    rw [hcube] at this
    exact_mod_cast this
  · have hpow := pow_le_pow_left₀ hc.le herror 3
    rw [mul_pow, hcube] at hpow
    have hle := mul_le_mul_of_nonneg_left residue_le (show (0 : ℝ) ≤ x by exact_mod_cast hx.le)
    have := hpow.trans hle
    have hcast : ((c ^ 3 : ℚ) : ℝ) ≤ ((x * (1 + 1 / 2 ^ 66) : ℚ) : ℝ) := by
      push_cast
      exact this
    exact_mod_cast hcast

/-- The number of bits of a value is enough fuel. -/
theorem positiveCbrt_spec {x : ℚ} (hx : 0 < x) :
  0 < (PositiveRoots.positiveCbrt x : ℚ)
    ∧ x ≤ (PositiveRoots.positiveCbrt x : ℚ) ^ 3
    ∧ (PositiveRoots.positiveCbrt x : ℚ) ^ 3 ≤ x * (1 + 1 / 2 ^ 66)
  := by
  apply motionPositiveCbrt_spec hx (le_two_pow_bits hx).1 (le_two_pow_bits hx).2

/-- For every positive value the scaling loop ends by its condition, within a factor of two of the
cube root, and the steps that follow come close to it. -/
theorem motionPositiveCbrt_near {value : ℚ} (h : 0 < value) :
  ∃ (rounds : ℕ) (estimate : ℚ), ¬ CbrtScales value estimate
    ∧ estimate / 2 ≤ (value : ℝ) ^ (1 / 3 : ℝ) ∧ (value : ℝ) ^ (1 / 3 : ℝ) ≤ 2 * estimate
    ∧ ∀ fuel, rounds ≤ fuel →
      cbrtStart fuel value = estimate
        ∧ |motionPositiveCbrt fuel value ^ 3 - value| ≤ 1 / 2 ^ 20 * value
  := by
  have hbits := le_two_pow_bits h
  generalize value.num.natAbs.log2 + value.den.log2 + 1 = rounds at hbits
  obtain ⟨hends, hfuel⟩ := cbrtStart_ends hbits.1 hbits.2
  obtain ⟨hpos, hlow, hhigh⟩ := cbrtStart_spec h hbits.1 hbits.2
  have hcast : (0 : ℝ) < value := by exact_mod_cast h
  obtain ⟨hy, hcube⟩ := cube_rpow hcast
  have he : (0 : ℝ) < cbrtStart rounds value := by exact_mod_cast hpos
  refine ⟨rounds, cbrtStart rounds value, hends, ?_, ?_, ?_⟩
  · apply le_of_pow_le_pow_left₀ three_ne_zero hy.le
    rw [div_pow, hcube]
    have : (cbrtStart rounds value : ℝ) ^ 3 ≤ 8 * value := by exact_mod_cast hhigh
    linarith
  · apply le_of_pow_le_pow_left₀ three_ne_zero (by positivity)
    rw [mul_pow, hcube]
    have : (value : ℝ) ≤ 8 * cbrtStart rounds value ^ 3 := by exact_mod_cast hlow
    linarith
  · intro fuel hle
    have hpow : (2 : ℚ) ^ rounds ≤ 2 ^ fuel := pow_le_pow_right₀ one_le_two hle
    have hmul := mul_le_mul_of_nonneg_left hpow h.le
    obtain ⟨-, hroot, herror⟩ :=
      motionPositiveCbrt_spec h (hbits.1.trans hpow) (hbits.2.trans hmul)
    use hfuel fuel hle
    rw [abs_of_nonneg (sub_nonneg.mpr hroot)]
    linarith

/-- The cube root of ten. -/
theorem motionPositiveCbrt_near_ten :
  (0 : ℚ) < 10 ∧ ∃ rounds, ∀ fuel, rounds ≤ fuel →
    |motionPositiveCbrt fuel (10 : ℚ) ^ 3 - 10| ≤ 1 / 2 ^ 20 * 10
  := by
  have h : (0 : ℚ) < 10 := by norm_num
  obtain ⟨rounds, estimate, -, -, -, hnear⟩ := motionPositiveCbrt_near h
  use h, rounds
  intro fuel hle
  apply (hnear fuel hle).2

end EthercatMaster
