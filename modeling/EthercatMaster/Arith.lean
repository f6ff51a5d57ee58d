import Mathlib.Data.Rat.Floor

/-!
# Single-precision arithmetic

The motion module computes in `float`.  `FloatArith F` is what it uses of that arithmetic:
the four operations, the comparisons, the literals, the conversions from and to the integer
types, and the test for finite values.  No law is assumed of an instance, so that a result
about every instance holds of the arithmetic of the target, with its rounding, its infinities
and its NaNs.  `PositiveRoots F` are the two root routines, `motion_positive_sqrt` and
`motion_positive_cbrt`.

Rational arithmetic, with the root routines as the source iterates them, is an exact instance.
-/

namespace EthercatMaster

/-- The `float` operations of the motion module. -/
class FloatArith (F : Type) extends Add F, Sub F, Mul F, Div F where
  /-- The literal of a decimal constant. -/
  lit : ℚ → F
  /-- Conversion from an integer type. -/
  ofInt : ℤ → F
  /-- The comparison `<`. -/
  lt : F → F → Bool
  /-- The comparison `<=`. -/
  le : F → F → Bool
  /-- The comparison of a value with `FLT_MAX` and `-FLT_MAX`. -/
  isFinite : F → Bool
  /-- The conversion to `int32_t`. -/
  toInt32 : F → Int32
  /-- The conversion to `uint32_t`. -/
  toUInt32 : F → UInt32
  /-- The constant `(float) INT32_MAX`. -/
  int32Max : F
  /-- The constant `(float) INT32_MIN`. -/
  int32Min : F
  /-- The constant `(float) UINT32_MAX`. -/
  uint32Max : F

/-- The root routines of the planner. -/
class PositiveRoots (F : Type) where
  positiveSqrt : F → F
  positiveCbrt : F → F

open FloatArith

variable {F : Type} [FloatArith F]

/-- `motion_float_is_finite`: whether a value is neither infinite nor NaN. -/
def motionFloatIsFinite (value : F) : Bool :=
  isFinite value

/-- `motion_float_is_positive`: whether a value is finite and greater than zero. -/
def motionFloatIsPositive (value : F) : Bool :=
  motionFloatIsFinite value && lt (lit 0) value

/-! ### The root routines of the source -/

/-- `motion_positive_sqrt`: 24 Newton steps from the larger of the value and one. -/
def motionPositiveSqrt (value : F) : F :=
  if le value (lit 0) then
    lit 0
  else
    let start := if lt (lit 1) value then value else lit 1
    (fun estimate => lit 0.5 * (estimate + value / estimate))^[24] start

/-- The first loop of `motion_positive_cbrt`, doubling the estimate. -/
def cbrtScaleUp (value : F) : ℕ → F → F
  | 0, estimate => estimate
  | fuel + 1, estimate =>
      if lt estimate (value / estimate / estimate) then
        cbrtScaleUp value fuel (estimate * lit 2)
      else
        estimate

/-- The second loop of `motion_positive_cbrt`, halving the estimate. -/
def cbrtScaleDown (value : F) : ℕ → F → F
  | 0, estimate => estimate
  | fuel + 1, estimate =>
      if lt (value / estimate / estimate) estimate then
        cbrtScaleDown value fuel (estimate * lit 0.5)
      else
        estimate

/-- `motion_positive_cbrt`: the estimate is scaled by powers of two, and then refined by 16
Newton steps.  The scaling loops are given `fuel` rounds. -/
def motionPositiveCbrt (fuel : ℕ) (value : F) : F :=
  if le value (lit 0) then
    lit 0
  else
    let start :=
      if lt (lit 1) value then cbrtScaleUp value fuel (lit 1)
      else cbrtScaleDown value fuel (lit 1)
    (fun estimate => (lit 2 * estimate + value / estimate / estimate) / lit 3)^[16] start

/-! ### Exact rational arithmetic -/

/-- Truncation of a rational number towards zero. -/
def truncate (q : ℚ) : ℤ :=
  q.num.tdiv q.den

theorem truncate_of_nonneg {q : ℚ} (h : 0 ≤ q) :
  truncate q = ⌊q⌋
  := by
  rw [truncate, Rat.floor_def', Int.tdiv_eq_ediv_of_nonneg (Rat.num_nonneg.mpr h)]

theorem truncate_neg (q : ℚ) :
  truncate (-q) = -truncate q
  := by
  rw [truncate, truncate, Rat.num_neg_eq_neg_num, Rat.den_neg_eq_den, Int.neg_tdiv]

theorem truncate_of_nonpos {q : ℚ} (h : q ≤ 0) :
  truncate q = ⌈q⌉
  := by
  rw [← neg_neg q, truncate_neg, truncate_of_nonneg (neg_nonneg.mpr h), Int.ceil_neg]

/-- Exact rational arithmetic.  The constants are those of the target: `INT32_MAX` and
`UINT32_MAX` are not representable and become the next powers of two. -/
instance : FloatArith ℚ where
  lit q := q
  ofInt n := n
  lt x y := decide (x < y)
  le x y := decide (x ≤ y)
  isFinite _ := true
  toInt32 q := Int32.ofInt (truncate q)
  toUInt32 q := UInt32.ofNat (truncate q).toNat
  int32Max := 2 ^ 31
  int32Min := - 2 ^ 31
  uint32Max := 2 ^ 32

@[simp]
theorem lit_rat (q : ℚ) :
  (lit q : ℚ) = q
  := rfl

@[simp]
theorem lt_rat (x y : ℚ) :
  lt x y = true ↔ x < y
  := decide_eq_true_iff

@[simp]
theorem le_rat (x y : ℚ) :
  le x y = true ↔ x ≤ y
  := decide_eq_true_iff

@[simp]
theorem motionFloatIsPositive_rat (q : ℚ) :
  motionFloatIsPositive q = true ↔ 0 < q
  := by
  rw [motionFloatIsPositive, Bool.and_eq_true, lt_rat, lit_rat]
  exact and_iff_right rfl

/-- The root routines of the source over the rationals.  The number of bits of the numerator
and of the denominator bounds the rounds of the scaling loops. -/
instance : PositiveRoots ℚ where
  positiveSqrt := motionPositiveSqrt
  positiveCbrt q := motionPositiveCbrt (q.num.natAbs.log2 + q.den.log2 + 1) q

end EthercatMaster
