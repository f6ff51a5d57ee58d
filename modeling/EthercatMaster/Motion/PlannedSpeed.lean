import EthercatMaster.Motion.Roots
import EthercatMaster.Motion.System

/-!
# The planned speed with the root routines

The planner over the rationals, with the root routines as the source iterates them.  The stored
segments keep to the limit of the speed and cover the distance, both up to one part in `2 ^ 10`,
exactly if the square roots that the planner takes settle in 24 steps.
-/

namespace EthercatMaster

open FloatArith ConstantJerk

/-! ### The durations -/

/-- One part in `2 ^ 10`. -/
def profileTolerance : ℚ := 1 / 2 ^ 10

theorem profileTolerance_pos :
  0 < profileTolerance
  := by
  rw [profileTolerance]
  norm_num

/-- The highest speed of the seven segments. -/
def ProfileTimes.peak (times : ProfileTimes ℚ) (maxJerk : ℚ) : ℚ :=
  maxJerk * times.timeJerk * (times.timeJerk + times.timeConstantAcceleration)

/-- The distance that the seven segments cover. -/
def ProfileTimes.distance (times : ProfileTimes ℚ) (maxJerk : ℚ) : ℚ :=
  times.peak maxJerk
    * (2 * times.timeJerk + times.timeConstantAcceleration + times.timeConstantVelocity)

/-- Durations keep to a limit of the speed and cover a distance, up to the tolerance. -/
structure ProfileTimes.Keeps (times : ProfileTimes ℚ) (distance maxVelocity maxJerk : ℚ) :
    Prop where
  peak_le : times.peak maxJerk ≤ maxVelocity * (1 + profileTolerance)
  distance_near : |times.distance maxJerk - distance| ≤ distance * profileTolerance

section Regimes

variable {D V A J : ℚ}

/-- A long motion with a jerk duration `T` that is to reach the velocity `V`: the speed and the
distance are too large by the same factor. -/
theorem keeps_cruise_iff {T : ℚ} (hD : 0 < D) (hV : 0 < V) (hlow : V ≤ J * T ^ 2) :
  (ProfileTimes.mk T 0 ((D - V * (2 * T + 0)) / V)).Keeps D V J
    ↔ J * T ^ 2 ≤ V * (1 + profileTolerance)
  := by
  have hpeak : (ProfileTimes.mk T 0 ((D - V * (2 * T + 0)) / V)).peak J = J * T ^ 2 := by
    rw [ProfileTimes.peak]
    ring
  have hdistance : (ProfileTimes.mk T 0 ((D - V * (2 * T + 0)) / V)).distance J - D
      = (J * T ^ 2 - V) * (D / V) := by
    rw [ProfileTimes.distance, hpeak]
    field_simp
    ring
  constructor
  · intro h
    rw [← hpeak]
    exact h.peak_le
  · intro h
    constructor
    · rwa [hpeak]
    · rw [hdistance, abs_of_nonneg (mul_nonneg (sub_nonneg.mpr hlow) (by positivity)),
        mul_div_assoc', div_le_iff₀ hV]
      have := mul_le_mul_of_nonneg_right h hD.le
      linarith

/-- A long motion that reaches the acceleration `A` keeps to the velocity exactly. -/
theorem keeps_linear (hD : 0 < D) (hV : 0 < V) (hA : 0 < A) (hJ : 0 < J) :
  (ProfileTimes.mk (A / J) (V / A - A / J)
    ((D - V * (2 * (A / J) + (V / A - A / J))) / V)).Keeps D V J
  := by
  have htolerance := profileTolerance_pos
  have hpeak : (ProfileTimes.mk (A / J) (V / A - A / J)
      ((D - V * (2 * (A / J) + (V / A - A / J))) / V)).peak J = V := by
    rw [ProfileTimes.peak]
    field_simp
    ring
  constructor
  · rw [hpeak]
    have := mul_pos hV htolerance
    linarith
  · rw [ProfileTimes.distance, hpeak]
    dsimp only
    rw [mul_add, mul_div_cancel₀ _ hV.ne', add_sub_cancel, sub_self, abs_zero]
    positivity

/-- A motion that reaches the acceleration `A` but no cruising speed, with a root `s`. -/
theorem keeps_steady_iff {s : ℚ} (hA : 0 < A) (hJ : 0 < J)
    (hs : A / J * (A / J) + 4 * D / A ≤ s ^ 2) :
  (ProfileTimes.mk (A / J) ((s - 3 * (A / J)) / 2) 0).Keeps D V J
    ↔ s ≤ A / J + 2 * (V / A) * (1 + profileTolerance)
      ∧ s ^ 2 ≤ A / J * (A / J) + 4 * D / A + profileTolerance * (4 * D / A)
  := by
  have hpeak : (ProfileTimes.mk (A / J) ((s - 3 * (A / J)) / 2) 0).peak J
      = A * (s - A / J) / 2 := by
    rw [ProfileTimes.peak]
    field_simp
    ring
  have hdistance : (ProfileTimes.mk (A / J) ((s - 3 * (A / J)) / 2) 0).distance J - D
      = A * (s ^ 2 - (A / J * (A / J) + 4 * D / A)) / 4 := by
    rw [ProfileTimes.distance, hpeak]
    field_simp
    ring
  have hspeed : A * (s - A / J) / 2 ≤ V * (1 + profileTolerance)
      ↔ s ≤ A / J + 2 * (V / A) * (1 + profileTolerance) := by
    rw [← sub_nonneg, ← sub_nonneg (b := s)]
    have hscale : V * (1 + profileTolerance) - A * (s - A / J) / 2
        = A / 2 * (A / J + 2 * (V / A) * (1 + profileTolerance) - s) := by
      field_simp
      ring
    rw [hscale]
    apply mul_nonneg_iff_of_pos_left (by positivity)
  have hcover : A * (s ^ 2 - (A / J * (A / J) + 4 * D / A)) / 4 ≤ D * profileTolerance
      ↔ s ^ 2 ≤ A / J * (A / J) + 4 * D / A + profileTolerance * (4 * D / A) := by
    rw [← sub_nonneg, ← sub_nonneg (b := s ^ 2)]
    have hscale : D * profileTolerance - A * (s ^ 2 - (A / J * (A / J) + 4 * D / A)) / 4
        = A / 4 * (A / J * (A / J) + 4 * D / A + profileTolerance * (4 * D / A) - s ^ 2) := by
      field_simp
      ring
    rw [hscale]
    apply mul_nonneg_iff_of_pos_left (by positivity)
  have hnonneg : 0 ≤ A * (s ^ 2 - (A / J * (A / J) + 4 * D / A)) / 4 := by
    have := mul_nonneg hA.le (sub_nonneg.mpr hs)
    linarith
  rw [← hspeed, ← hcover]
  constructor
  · intro h
    refine ⟨hpeak ▸ h.peak_le, ?_⟩
    rw [← hdistance]
    exact (le_abs_self _).trans h.distance_near
  · rintro ⟨hlimit, hnear⟩
    constructor
    · rwa [hpeak]
    · rwa [hdistance, abs_of_nonneg hnonneg]

/-- A short motion, with the root `c`. -/
theorem keeps_short_iff {c : ℚ} (hD : 0 < D) (hJ : 0 < J) (hlow : D / (2 * J) ≤ c ^ 3)
    (hhigh : c ^ 3 ≤ D / (2 * J) * (1 + 1 / 2 ^ 66)) :
  (ProfileTimes.mk c 0 0).Keeps D V J ↔ J * c ^ 2 ≤ V * (1 + profileTolerance)
  := by
  have hpeak : (ProfileTimes.mk c 0 0).peak J = J * c ^ 2 := by
    rw [ProfileTimes.peak]
    ring
  have hdistance : (ProfileTimes.mk c 0 0).distance J = 2 * J * c ^ 3 := by
    rw [ProfileTimes.distance, hpeak]
    ring
  have hscale : 2 * J * (D / (2 * J)) = D := mul_div_cancel₀ _ (by positivity)
  have hlow' := mul_le_mul_of_nonneg_left hlow (show 0 ≤ 2 * J by positivity)
  have hhigh' := mul_le_mul_of_nonneg_left hhigh (show 0 ≤ 2 * J by positivity)
  rw [hscale] at hlow'
  rw [← mul_assoc, hscale] at hhigh'
  constructor
  · intro h
    apply hpeak ▸ h.peak_le
  · intro h
    constructor
    · rwa [hpeak]
    · rw [hdistance, abs_of_nonneg (sub_nonneg.mpr hlow'), profileTolerance]
      have hsmall : D * (1 / 2 ^ 66) ≤ D * (1 / 2 ^ 10) := by
        apply mul_le_mul_of_nonneg_left _ hD.le
        norm_num
      linarith

/-! ### The condition -/

/-- The square of the time whose root a motion with a steady acceleration takes. -/
def steadySquare (distance maxAcceleration maxJerk : ℚ) : ℚ :=
  maxAcceleration / maxJerk * (maxAcceleration / maxJerk) + 4 * distance / maxAcceleration

/-- The square roots that the planner takes settle in 24 steps, each up to what its motion allows.

A motion that reaches the velocity limit takes the root of `V / J`.  A motion that is too short
for the velocity computed with this root, but too long for the limit, exceeds the limit by itself.
A motion with a steady acceleration takes the root of its `steadySquare`, and if both accelerations
meet, the velocity computed with the first root bounds the second. -/
structure RootsSettle (D V A J : ℚ) : Prop where
  cruise : V ≤ A * A / J → newtonSqrt (V / J) ≤ (D / (2 * V) : ℚ) →
    Settles profileTolerance (V / J)
  short : V < A * A / J → (D / (2 * V) : ℚ) < newtonSqrt (V / J) →
    D ^ 2 * J ≤ 4 * (V * (1 + profileTolerance)) ^ 3
      ∧ (4 * (V * (1 + profileTolerance)) ^ 3 < D ^ 2 * J * (1 + 1 / 2 ^ 64) →
        PositiveRoots.positiveCbrt (D / (2 * J)) ^ 2 ≤ (1 + profileTolerance) * (V / J))
  steady : A * A / J < V → 2 * A * A * A / (J * J) ≤ D → D < V * (A / J + V / A) →
    Settles (profileTolerance * (4 * D / A) / steadySquare D A J) (steadySquare D A J)
  corner : A * A / J = V → 2 * A * A * A / (J * J) ≤ D →
    (D / (2 * V) : ℚ) < newtonSqrt (V / J) →
    Settles (profileTolerance * (4 * D / A) / steadySquare D A J) (steadySquare D A J)
      ∧ Settles (((3 + 2 * profileTolerance) * (A / J)) ^ 2 / steadySquare D A J - 1)
        (steadySquare D A J)

/-- The planner over the rationals. -/
theorem planProfileTimes_rat (D V A J : ℚ) :
  planProfileTimes D V A J
    = if V ≤ A * A / J then
        if V * (2 * motionPositiveSqrt (V / J) + 0) ≤ D then
          ⟨motionPositiveSqrt (V / J), 0, (D - V * (2 * motionPositiveSqrt (V / J) + 0)) / V⟩
        else if A * A / J ≤ V ∧ 2 * A * A * A / (J * J) ≤ D then
          ⟨A / J,
            if (motionPositiveSqrt (steadySquare D A J) - 3 * (A / J)) / 2 < 0 then 0
            else (motionPositiveSqrt (steadySquare D A J) - 3 * (A / J)) / 2, 0⟩
        else ⟨PositiveRoots.positiveCbrt (D / (2 * J)), 0, 0⟩
      else
        if V * (2 * (A / J) + (V / A - A / J)) ≤ D then
          ⟨A / J, V / A - A / J, (D - V * (2 * (A / J) + (V / A - A / J))) / V⟩
        else if A * A / J ≤ V ∧ 2 * A * A * A / (J * J) ≤ D then
          ⟨A / J,
            if (motionPositiveSqrt (steadySquare D A J) - 3 * (A / J)) / 2 < 0 then 0
            else (motionPositiveSqrt (steadySquare D A J) - 3 * (A / J)) / 2, 0⟩
        else ⟨PositiveRoots.positiveCbrt (D / (2 * J)), 0, 0⟩
  := by
  simp only [planProfileTimes, lit_rat, le_rat, lt_rat, Bool.and_eq_true]
  split
  · rfl
  · rfl

/-! ### The regimes -/

/-- The planner compares the distance with the velocity that it computed with its own root. -/
theorem reaches_velocity_iff (hV : 0 < V) (hJ : 0 < J) :
  V * (2 * motionPositiveSqrt (V / J) + 0) ≤ D ↔ newtonSqrt (V / J) ≤ (D / (2 * V) : ℚ)
  := by
  rw [← motionPositiveSqrt_cast (div_pos hV hJ), Rat.cast_le, le_div_iff₀ (by positivity)]
  ring_nf

/-- The root of a motion that reaches the velocity settles if the speed is near the limit. -/
theorem cruise_speed_iff (hV : 0 < V) (hJ : 0 < J) :
  J * motionPositiveSqrt (V / J) ^ 2 ≤ V * (1 + profileTolerance)
    ↔ Settles profileTolerance (V / J)
  := by
  have htolerance := profileTolerance_pos
  rw [← motionPositiveSqrt_sq_le_iff (by linarith) (div_pos hV hJ), mul_div_assoc', le_div_iff₀ hJ,
    mul_comm J, mul_comm V]

/-- A speed that is planned with a root is at least the limit. -/
theorem le_cruise_speed (hV : 0 < V) (hJ : 0 < J) :
  V ≤ J * motionPositiveSqrt (V / J) ^ 2
  := by
  have := le_motionPositiveSqrt_sq (div_pos hV hJ)
  rwa [div_le_iff₀' hJ] at this

/-- The distance that lets a motion reach its acceleration bounds the root from below. -/
theorem three_mul_le_root (hA : 0 < A) (hJ : 0 < J) (hD : 2 * A * A * A / (J * J) ≤ D) :
  0 < steadySquare D A J
    ∧ 3 * (A / J) ≤ motionPositiveSqrt (steadySquare D A J)
  := by
  have hratio : 0 < A / J := div_pos hA hJ
  have height : 8 * (A / J * (A / J)) ≤ 4 * D / A := by
    rw [le_div_iff₀ hA]
    have hcube : 8 * (A / J * (A / J)) * A = 4 * (2 * A * A * A / (J * J)) := by
      field_simp
      ring
    linarith
  have hsquare := mul_pos hratio hratio
  have hpos : 0 < steadySquare D A J := by
    rw [steadySquare]
    linarith
  refine ⟨hpos, ?_⟩
  apply le_of_sq_le_sq _ (motionPositiveSqrt_pos hpos).le
  apply le_trans _ (le_motionPositiveSqrt_sq hpos)
  rw [steadySquare]
  linarith

/-- The distance of a motion with a steady acceleration is near if its root settles. -/
theorem steady_distance_iff (hD : 0 < D) (hA : 0 < A) (hq : 0 < steadySquare D A J) :
  motionPositiveSqrt (steadySquare D A J) ^ 2
      ≤ A / J * (A / J) + 4 * D / A + profileTolerance * (4 * D / A)
    ↔ Settles (profileTolerance * (4 * D / A) / steadySquare D A J) (steadySquare D A J)
  := by
  have htolerance := profileTolerance_pos
  rw [← motionPositiveSqrt_sq_le_iff (by positivity) hq, add_mul, div_mul_cancel₀ _ hq.ne', one_mul,
    ← steadySquare]

/-- Below the velocity limit, a motion with a steady acceleration that covers its distance keeps to
the limit as well. -/
theorem steady_speed_le (hD : D < V * (A / J + V / A)) (hV : 0 < V) (hA : 0 < A) (hJ : 0 < J)
    {s : ℚ} (hs : s ^ 2 ≤ A / J * (A / J) + 4 * D / A + profileTolerance * (4 * D / A)) :
  s ≤ A / J + 2 * (V / A) * (1 + profileTolerance)
  := by
  have htolerance := profileTolerance_pos
  have hdistance : 4 * D / A ≤ 4 * (V / A) * (A / J + V / A) := by
    rw [div_le_iff₀ hA]
    have hcancel : 4 * (V / A) * (A / J + V / A) * A = 4 * (V * (A / J + V / A)) := by
      field_simp
    linarith
  have ha : 0 < A / J := div_pos hA hJ
  have hb : 0 < V / A := div_pos hV hA
  generalize A / J = a at hs hdistance ha ⊢
  generalize V / A = b at hdistance hb ⊢
  generalize 4 * D / A = d at hs hdistance
  generalize profileTolerance = ε at hs htolerance ⊢
  apply le_of_sq_le_sq _ (by positivity)
  have hscaled := mul_le_mul_of_nonneg_left hdistance (show 0 ≤ 1 + ε by linarith)
  have hextra : 0 ≤ 4 * b ^ 2 * ε * (1 + ε) := by positivity
  calc s ^ 2 ≤ a * a + (1 + ε) * d := by linarith
    _ ≤ a * a + (1 + ε) * (4 * b * (a + b)) := by linarith
    _ ≤ (a + 2 * b * (1 + ε)) ^ 2 := by linarith

/-- If the two accelerations meet, the speed is near the limit if its root settles. -/
theorem corner_speed_iff (hcorner : A * A / J = V) (hA : 0 < A) (hJ : 0 < J)
    (hq : 0 < steadySquare D A J) :
  motionPositiveSqrt (steadySquare D A J) ≤ A / J + 2 * (V / A) * (1 + profileTolerance)
    ↔ Settles (((3 + 2 * profileTolerance) * (A / J)) ^ 2 / steadySquare D A J - 1)
      (steadySquare D A J)
  := by
  have htolerance := profileTolerance_pos
  have hbound : A / J + 2 * (V / A) * (1 + profileTolerance)
      = (3 + 2 * profileTolerance) * (A / J) := by
    rw [← hcorner]
    field_simp
    ring
  rw [hbound]
  have hpos : 0 < (3 + 2 * profileTolerance) * (A / J) := by positivity
  rw [← motionPositiveSqrt_sq_le_iff _ hq, add_sub_cancel, div_mul_cancel₀ _ hq.ne',
    sq_le_sq₀ (motionPositiveSqrt_pos hq).le hpos.le]
  rw [add_sub_cancel]
  positivity

/-- A short motion that ends before the jerk reaches a speed within the limit. -/
theorem keeps_short {T : ℚ} (hD : 0 < D) (hJ : 0 < J) (hT : 0 < T) (hV : 0 < V)
    (hless : D ≤ 2 * J * T ^ 3) (hspeed : J * T ^ 2 ≤ V) :
  (ProfileTimes.mk (PositiveRoots.positiveCbrt (D / (2 * J))) 0 0).Keeps D V J
  := by
  obtain ⟨hpos, hlow, hhigh⟩ := positiveCbrt_spec (show 0 < D / (2 * J) by positivity)
  rw [keeps_short_iff hD hJ hlow hhigh]
  have hcube : D / (2 * J) ≤ T ^ 3 := by
    rw [div_le_iff₀ (by positivity)]
    linarith
  have hroot : PositiveRoots.positiveCbrt (D / (2 * J)) ≤ T * (1 + 1 / 2 ^ 66) := by
    apply le_of_pow_le_pow_left₀ three_ne_zero (by positivity)
    rw [mul_pow]
    apply hhigh.trans
    apply mul_le_mul hcube _ (by norm_num) (by positivity)
    norm_num
  have hsquare := pow_le_pow_left₀ hpos.le hroot 2
  calc J * PositiveRoots.positiveCbrt (D / (2 * J)) ^ 2 ≤ J * (T * (1 + 1 / 2 ^ 66)) ^ 2 :=
        mul_le_mul_of_nonneg_left hsquare hJ.le
    _ = J * T ^ 2 * (1 + 1 / 2 ^ 66) ^ 2 := by ring
    _ ≤ V * (1 + profileTolerance) := by
        apply mul_le_mul hspeed _ (by positivity) hV.le
        rw [profileTolerance]
        norm_num

/-- The speed of a short motion in terms of its distance. -/
theorem short_speed_iff {c W : ℚ} (hD : 0 < D) (hJ : 0 < J) (hW : 0 < W) (hc : 0 < c)
    (hlow : D / (2 * J) ≤ c ^ 3) (hhigh : c ^ 3 ≤ D / (2 * J) * (1 + 1 / 2 ^ 66)) :
  J * c ^ 2 ≤ W ↔
    D ^ 2 * J ≤ 4 * W ^ 3 ∧ (4 * W ^ 3 < D ^ 2 * J * (1 + 1 / 2 ^ 64) → J * c ^ 2 ≤ W)
  := by
  have hscale : 4 * J ^ 3 * (D / (2 * J)) ^ 2 = D ^ 2 * J := by
    field_simp
    ring
  have hx : 0 < D / (2 * J) := by positivity
  constructor
  · intro h
    refine ⟨?_, fun _ => h⟩
    have hcube := pow_le_pow_left₀ (by positivity) h 3
    have hsquare := mul_le_mul_of_nonneg_left (pow_le_pow_left₀ hx.le hlow 2)
      (show 0 ≤ 4 * J ^ 3 by positivity)
    rw [hscale] at hsquare
    linarith
  · rintro ⟨-, h⟩
    rcases le_or_gt (D ^ 2 * J * (1 + 1 / 2 ^ 64)) (4 * W ^ 3) with hfar | hnear
    · apply le_of_pow_le_pow_left₀ three_ne_zero hW.le
      have hsquare := mul_le_mul_of_nonneg_left (pow_le_pow_left₀ (by positivity) hhigh 2)
        (show 0 ≤ 4 * J ^ 3 by positivity)
      have hsplit : 4 * J ^ 3 * (D / (2 * J) * (1 + 1 / 2 ^ 66)) ^ 2
          = D ^ 2 * J * (1 + 1 / 2 ^ 66) ^ 2 := by
        rw [← hscale]
        ring
      rw [hsplit] at hsquare
      have hband : D ^ 2 * J * (1 + 1 / 2 ^ 66) ^ 2 ≤ D ^ 2 * J * (1 + 1 / 2 ^ 64) := by
        apply mul_le_mul_of_nonneg_left _ (by positivity)
        norm_num
      linarith
    · apply h hnear

/-- The durations of a motion with a steady acceleration. -/
theorem steady_durations (hA : 0 < A) (hJ : 0 < J) (hD : 2 * A * A * A / (J * J) ≤ D) :
  (if (motionPositiveSqrt (steadySquare D A J) - 3 * (A / J)) / 2 < 0 then 0
    else (motionPositiveSqrt (steadySquare D A J) - 3 * (A / J)) / 2)
    = (motionPositiveSqrt (steadySquare D A J) - 3 * (A / J)) / 2
  := by
  have := (three_mul_le_root hA hJ hD).2
  rw [if_neg]
  linarith

/-- A motion that is too short for its acceleration keeps to a velocity that is not. -/
theorem keeps_short_of_lt (hD : 0 < D) (hV : 0 < V) (hA : 0 < A) (hJ : 0 < J)
    (hcase : A * A / J ≤ V) (hdistance : D < 2 * A * A * A / (J * J)) :
  (ProfileTimes.mk (PositiveRoots.positiveCbrt (D / (2 * J))) 0 0).Keeps D V J
  := by
  apply keeps_short hD hJ (div_pos hA hJ) hV
  · have hequal : 2 * J * (A / J) ^ 3 = 2 * A * A * A / (J * J) := by field_simp
    linarith
  · apply le_trans _ hcase
    apply le_of_eq
    field_simp

/-! ### The condition in each regime -/

/-- A motion that reaches a velocity below the acceleration takes one root. -/
theorem rootsSettle_iff_cruise (hcase : V ≤ A * A / J)
    (hlong : newtonSqrt (V / J) ≤ (D / (2 * V) : ℚ)) :
  RootsSettle D V A J ↔ Settles profileTolerance (V / J)
  := by
  constructor
  · intro h
    apply h.cruise hcase hlong
  · intro h
    constructor
    · exact fun _ _ => h
    · exact fun _ hshort => absurd hlong (not_le.mpr hshort)
    · exact fun hless => absurd hcase (not_le.mpr hless)
    · exact fun _ _ hshort => absurd hlong (not_le.mpr hshort)

/-- A short motion with a velocity below the acceleration is bounded by itself. -/
theorem rootsSettle_iff_short (hcase : V < A * A / J)
    (hshort : (D / (2 * V) : ℚ) < newtonSqrt (V / J)) :
  RootsSettle D V A J ↔
    D ^ 2 * J ≤ 4 * (V * (1 + profileTolerance)) ^ 3
      ∧ (4 * (V * (1 + profileTolerance)) ^ 3 < D ^ 2 * J * (1 + 1 / 2 ^ 64) →
        PositiveRoots.positiveCbrt (D / (2 * J)) ^ 2 ≤ (1 + profileTolerance) * (V / J))
  := by
  constructor
  · intro h
    apply h.short hcase hshort
  · intro h
    constructor
    · exact fun _ hlong => absurd hshort (not_lt.mpr hlong)
    · exact fun _ _ => h
    · exact fun hless => absurd hcase (not_lt.mpr hless.le)
    · exact fun hcorner => absurd hcorner hcase.ne'

/-- A short motion for which both accelerations meet takes the second root if it is long enough. -/
theorem rootsSettle_iff_corner (hcorner : A * A / J = V)
    (hshort : (D / (2 * V) : ℚ) < newtonSqrt (V / J)) :
  RootsSettle D V A J ↔
    (2 * A * A * A / (J * J) ≤ D →
      Settles (profileTolerance * (4 * D / A) / steadySquare D A J) (steadySquare D A J)
        ∧ Settles (((3 + 2 * profileTolerance) * (A / J)) ^ 2 / steadySquare D A J - 1)
          (steadySquare D A J))
  := by
  constructor
  · intro h hdistance
    apply h.corner hcorner hdistance hshort
  · intro h
    constructor
    · exact fun _ hlong => absurd hshort (not_lt.mpr hlong)
    · exact fun hless => absurd hcorner hless.ne'
    · exact fun hless => absurd hcorner hless.ne
    · exact fun _ hdistance _ => h hdistance

/-- A motion with a velocity above the acceleration takes a root if it does not reach it. -/
theorem rootsSettle_iff_steady (hcase : A * A / J < V) :
  RootsSettle D V A J ↔
    (2 * A * A * A / (J * J) ≤ D → D < V * (A / J + V / A) →
      Settles (profileTolerance * (4 * D / A) / steadySquare D A J) (steadySquare D A J))
  := by
  constructor
  · intro h
    apply h.steady hcase
  · intro h
    constructor
    · exact fun hle => absurd hcase (not_lt.mpr hle)
    · exact fun hless => absurd hcase (not_lt.mpr hless.le)
    · exact fun _ => h
    · exact fun hcorner => absurd hcorner hcase.ne

/-- The motions that the velocity computed with the root of `V / J` bounds. -/
theorem planProfileTimes_keeps_iff_of_le (hD : 0 < D) (hV : 0 < V) (hA : 0 < A) (hJ : 0 < J)
    (hcase : V ≤ A * A / J) :
  (planProfileTimes D V A J).Keeps D V J ↔ RootsSettle D V A J
  := by
  have htolerance := profileTolerance_pos
  rw [planProfileTimes_rat, if_pos hcase]
  split
  · rename_i hlong
    rw [keeps_cruise_iff hD hV (le_cruise_speed hV hJ), cruise_speed_iff hV hJ]
    rw [reaches_velocity_iff hV hJ] at hlong
    rw [rootsSettle_iff_cruise hcase hlong]
  rename_i hshort
  rw [reaches_velocity_iff hV hJ, not_le] at hshort
  split
  · -- both accelerations meet, and the distance is between the two computed with their roots
    rename_i hlimits
    obtain ⟨hlimit, hdistance⟩ := hlimits
    have hcorner : A * A / J = V := le_antisymm hlimit hcase
    obtain ⟨hq, -⟩ := three_mul_le_root hA hJ hdistance
    rw [steady_durations hA hJ hdistance,
      keeps_steady_iff (s := motionPositiveSqrt (steadySquare D A J)) hA hJ
        (le_motionPositiveSqrt_sq hq), steady_distance_iff hD hA hq,
      corner_speed_iff hcorner hA hJ hq, rootsSettle_iff_corner hcorner hshort,
      forall_prop_of_true hdistance]
    apply and_comm
  · rename_i hlimits
    rcases hcase.eq_or_lt with hcorner | hless
    · have hdistance : D < 2 * A * A * A / (J * J) := by
        by_contra hge
        apply hlimits ⟨hcorner.ge, not_lt.mp hge⟩
      apply iff_of_true (keeps_short_of_lt hD hV hA hJ hcorner.ge hdistance)
      rw [rootsSettle_iff_corner hcorner.symm hshort]
      intro hlong
      apply absurd hdistance (not_lt.mpr hlong)
    · obtain ⟨hpos, hlow, hhigh⟩ := positiveCbrt_spec (show 0 < D / (2 * J) by positivity)
      have hclause : J * PositiveRoots.positiveCbrt (D / (2 * J)) ^ 2 ≤ V * (1 + profileTolerance)
          ↔ PositiveRoots.positiveCbrt (D / (2 * J)) ^ 2 ≤ (1 + profileTolerance) * (V / J) := by
        rw [mul_div_assoc', le_div_iff₀ hJ, mul_comm J, mul_comm V]
      rw [keeps_short_iff hD hJ hlow hhigh,
        short_speed_iff hD hJ (by positivity) hpos hlow hhigh, hclause,
        rootsSettle_iff_short hless hshort]

/-- The motions that reach the acceleration before the velocity. -/
theorem planProfileTimes_keeps_iff_of_lt (hD : 0 < D) (hV : 0 < V) (hA : 0 < A) (hJ : 0 < J)
    (hcase : A * A / J < V) :
  (planProfileTimes D V A J).Keeps D V J ↔ RootsSettle D V A J
  := by
  have hreach : V * (2 * (A / J) + (V / A - A / J)) = V * (A / J + V / A) := by ring
  rw [planProfileTimes_rat, if_neg (not_le.mpr hcase), rootsSettle_iff_steady hcase]
  split
  · rename_i hlong
    apply iff_of_true (keeps_linear hD hV hA hJ)
    intro _ hless
    rw [hreach] at hlong
    apply absurd hlong (not_le.mpr hless)
  rename_i hshort
  rw [hreach, not_le] at hshort
  split
  · rename_i hlimits
    obtain ⟨hq, -⟩ := three_mul_le_root hA hJ hlimits.2
    rw [steady_durations hA hJ hlimits.2,
      keeps_steady_iff (s := motionPositiveSqrt (steadySquare D A J)) hA hJ
        (le_motionPositiveSqrt_sq hq)]
    constructor
    · rintro ⟨-, hnear⟩ _ _
      apply (steady_distance_iff hD hA hq).mp hnear
    · intro h
      have hnear := (steady_distance_iff hD hA hq).mpr (h hlimits.2 hshort)
      exact ⟨steady_speed_le hshort hV hA hJ hnear, hnear⟩
  · rename_i hlimits
    have hdistance : D < 2 * A * A * A / (J * J) := by
      by_contra hge
      apply hlimits ⟨hcase.le, not_lt.mp hge⟩
    apply iff_of_true (keeps_short_of_lt hD hV hA hJ hcase.le hdistance)
    intro hlong
    apply absurd hdistance (not_lt.mpr hlong)

/-- The planned durations keep to the limit and cover the distance exactly if the roots settle. -/
theorem planProfileTimes_keeps_iff (hD : 0 < D) (hV : 0 < V) (hA : 0 < A) (hJ : 0 < J) :
  (planProfileTimes D V A J).Keeps D V J ↔ RootsSettle D V A J
  := by
  rcases le_or_gt V (A * A / J) with hcase | hcase
  · apply planProfileTimes_keeps_iff_of_le hD hV hA hJ hcase
  · apply planProfileTimes_keeps_iff_of_lt hD hV hA hJ hcase

end Regimes

/-! ### The stored profile -/

section Profile

/-- A segment of rational numbers as one of real numbers. -/
noncomputable def S7Segment.real (segment : S7Segment ℚ) : S7Segment ℝ where
  startTimeS := segment.startTimeS
  durationS := segment.durationS
  startPositionCounts := segment.startPositionCounts
  startVelocityCountsS := segment.startVelocityCountsS
  startAccelerationCountsS2 := segment.startAccelerationCountsS2
  jerkCountsS3 := segment.jerkCountsS3

noncomputable def SegmentStart.real (x : SegmentStart ℚ) : SegmentStart ℝ :=
  ⟨x.startTime, x.position, x.velocity, x.acceleration⟩

noncomputable def ProfileTimes.real (times : ProfileTimes ℚ) : ProfileTimes ℝ :=
  ⟨times.timeJerk, times.timeConstantAcceleration, times.timeConstantVelocity⟩

theorem next_real (x : SegmentStart ℚ) (jerk duration : ℚ) :
  (x.next jerk duration).real = x.real.next jerk duration
  := by
  simp only [SegmentStart.next, SegmentStart.real, lit_rat, lit_real, SegmentStart.mk.injEq]
  push_cast
  exact ⟨rfl, rfl, rfl, rfl⟩

/-- The integration over the rationals is the one over the real numbers. -/
theorem integrateSegments_real (x : SegmentStart ℚ) (steps : List (ℚ × ℚ)) :
  (integrateSegments x steps).1.map S7Segment.real
    = (integrateSegments x.real (steps.map fun step => ((step.1 : ℝ), (step.2 : ℝ)))).1
  := by
  induction steps generalizing x with
  | nil => rfl
  | cons step steps ih =>
      obtain ⟨jerk, duration⟩ := step
      have hrest := ih (x.next jerk duration)
      rw [next_real] at hrest
      rw [integrateSegments]
      dsimp only
      rw [List.map_cons, hrest]
      rfl

theorem profileSteps_rat (σ J : ℚ) (times : ProfileTimes ℚ) :
  (profileSteps σ J times).map (fun step => ((step.1 : ℝ), (step.2 : ℝ)))
    = profileSteps (σ : ℝ) (J : ℝ) times.real
  := by
  rw [profileSteps_real]
  simp [profileSteps, jerkSign, ProfileTimes.segmentDuration, ProfileTimes.real]

theorem segments_real (σ J : ℚ) (times : ProfileTimes ℚ) :
  (integrateSegments SegmentStart.rest (profileSteps σ J times)).1.map S7Segment.real
    = (integrateSegments SegmentStart.rest (profileSteps (σ : ℝ) (J : ℝ) times.real)).1
  := by
  rw [integrateSegments_real, profileSteps_rat]
  rfl

/-- At the end of its acceleration a profile has its highest speed. -/
theorem profileVelocity_peak {times : ProfileTimes ℝ} {D V A J : ℝ} (h : times.Fits D V A J)
    (σ : ℝ) :
  0 ≤ times.timeJerk + times.timeConstantAcceleration + times.timeJerk
    ∧ times.timeJerk + times.timeConstantAcceleration + times.timeJerk
      ≤ profileTime (integrateSegments SegmentStart.rest (profileSteps σ J times)).1
    ∧ profileVelocity (integrateSegments SegmentStart.rest (profileSteps σ J times)).1
        (times.timeJerk + times.timeConstantAcceleration + times.timeJerk)
      = σ * (J * times.timeJerk * (times.timeJerk + times.timeConstantAcceleration))
  := by
  obtain ⟨T, B, C⟩ := times
  obtain ⟨hT, hB, hC, -⟩ := h
  dsimp only at hT hB hC ⊢
  refine ⟨by positivity, ?_, ?_⟩
  · rw [profileTime, durations_integrateSegments, profileSteps_real]
    simp only [List.map_cons, List.map_nil, List.sum_cons, List.sum_nil]
    linarith
  · rw [profileVelocity, observeSegments, profileSteps_real]
    simp only [integrateSegments, List.map_cons, along, SegmentStart.segment, S7Segment.piece]
    have hfirst : ¬ T + B + T ≤ T := by linarith
    have hsecond : ¬ T + B + T - T ≤ B := by linarith
    have hthird : T + B + T - T - B ≤ T := by linarith
    rw [if_neg hfirst, if_neg hsecond, if_pos hthird]
    simp only [Piece.velocityAt, next_velocity, next_acceleration, SegmentStart.rest, lit_real,
      Rat.cast_zero]
    ring

/-- The stored segments keep to a limit of the speed at every time and end near a displacement. -/
structure NearProfile (segments : List (S7Segment ℚ)) (displacement maxVelocity : ℚ) : Prop where
  velocity_le : ∀ t, 0 ≤ t → t ≤ profileTime (segments.map S7Segment.real) →
    |profileVelocity (segments.map S7Segment.real) t|
      ≤ (maxVelocity * (1 + profileTolerance) : ℚ)
  position_near :
    |profilePosition (segments.map S7Segment.real) (profileTime (segments.map S7Segment.real))
        - displacement|
      ≤ (|displacement| * profileTolerance : ℚ)

/-- The segments of valid durations are near the limit and the displacement exactly if the
durations keep to the limit and the distance. -/
theorem nearProfile_iff_keeps {times : ProfileTimes ℚ} {σ D V J : ℚ} (hσ : σ = 1 ∨ σ = -1)
    (hD : 0 < D) (hJ : 0 < J) (hT : 0 < times.timeJerk)
    (hB : 0 ≤ times.timeConstantAcceleration) (hC : 0 ≤ times.timeConstantVelocity) :
  NearProfile (integrateSegments SegmentStart.rest (profileSteps σ J times)).1 (σ * D) V
    ↔ times.Keeps D V J
  := by
  have hpeak : 0 ≤ times.peak J := by
    rw [ProfileTimes.peak]
    positivity
  have hdistance : 0 ≤ times.distance J := by
    rw [ProfileTimes.distance]
    positivity
  have hT' : (0 : ℝ) < times.timeJerk := by exact_mod_cast hT
  have hB' : (0 : ℝ) ≤ times.timeConstantAcceleration := by exact_mod_cast hB
  have hC' : (0 : ℝ) ≤ times.timeConstantVelocity := by exact_mod_cast hC
  have hfits : times.real.Fits (times.distance J : ℚ) (times.peak J : ℚ)
      ((J : ℝ) * times.timeJerk) J := by
    constructor
    · exact hT'
    · exact hB'
    · exact hC'
    · exact le_rfl
    · rw [ProfileTimes.peak]
      push_cast
      exact le_rfl
    · rw [ProfileTimes.distance, ProfileTimes.peak]
      push_cast
      rfl
  have hσ' : (σ : ℝ) = 1 ∨ (σ : ℝ) = -1 := by
    rcases hσ with rfl | rfl
    · exact .inl Rat.cast_one
    · right
      norm_num
  have habs : |(σ : ℝ)| = 1 := (abs_eq zero_le_one).mpr hσ'
  have habs' : |σ| = 1 := (abs_eq zero_le_one).mpr hσ
  have hprofile := hfits.isProfile (σ := σ) (by exact_mod_cast hdistance) (by exact_mod_cast hpeak)
    (by exact_mod_cast hJ) hσ'
  have hend : |(σ : ℝ) * (times.distance J : ℚ) - (σ * D : ℚ)|
        ≤ (|σ * D| * profileTolerance : ℚ)
      ↔ |times.distance J - D| ≤ D * profileTolerance := by
    rw [abs_mul, habs', one_mul, abs_of_pos hD, Rat.cast_mul σ, ← mul_sub, abs_mul, habs, one_mul]
    norm_cast
  constructor
  · intro h
    constructor
    · obtain ⟨hzero, hle, hvelocity⟩ := profileVelocity_peak hfits σ
      have hlimit := h.velocity_le
      rw [segments_real] at hlimit
      have hreached := hlimit _ hzero hle
      rw [hvelocity, abs_mul, habs, one_mul] at hreached
      have hcast : ((times.peak J : ℚ) : ℝ) ≤ (V * (1 + profileTolerance) : ℚ) := by
        apply le_trans _ ((le_abs_self _).trans hreached)
        rw [ProfileTimes.peak]
        push_cast
        exact le_rfl
      exact_mod_cast hcast
    · rw [← hend]
      have hnear := h.position_near
      rwa [segments_real, hprofile.stop.1] at hnear
  · intro h
    constructor
    · intro t ht hle
      rw [segments_real] at hle ⊢
      apply (hprofile.velocity_le t ht hle).trans
      exact_mod_cast h.peak_le
    · rw [segments_real, hprofile.stop.1, hend]
      exact h.distance_near

end Profile

/-! ### The planner -/

theorem ProfileTimes.valid_rat (times : ProfileTimes ℚ) :
  times.valid = true ↔ 0 < times.timeJerk ∧ 0 ≤ times.timeConstantAcceleration
    ∧ 0 ≤ times.timeConstantVelocity
  := by
  have hfinite : ∀ q : ℚ, motionFloatIsFinite q = true := fun _ => rfl
  simp only [ProfileTimes.valid, hfinite, Bool.and_true, Bool.and_eq_true,
    motionFloatIsPositive_rat, Bool.not_eq_true', ← Bool.not_eq_true, lt_rat, lit_rat, not_lt,
    and_assoc]

/-- The direction and the distance between two positions. -/
theorem direction_mul_distance_rat {delta : ℤ} (h : delta ≠ 0) :
  ((if 0 < delta then lit 1 else lit (-1) : ℚ) = 1 ∨ (if 0 < delta then lit 1 else lit (-1) : ℚ) = -1)
    ∧ (if 0 < delta then ofInt delta else ofInt (-delta) : ℚ) = (|delta| : ℤ)
    ∧ (if 0 < delta then lit 1 else lit (-1) : ℚ) * (|delta| : ℤ) = delta
  := by
  rcases lt_or_ge 0 delta with hpos | hle
  · rw [if_pos hpos, if_pos hpos, abs_of_pos hpos]
    exact ⟨.inl rfl, rfl, one_mul _⟩
  · have hneg : delta < 0 := lt_of_le_of_ne hle h
    rw [if_neg (not_lt.mpr hle), if_neg (not_lt.mpr hle), abs_of_neg hneg, lit_rat, Int.cast_neg,
      neg_mul_neg, one_mul]
    exact ⟨.inr rfl, Int.cast_neg _, rfl⟩

/-- When the planner accepts a way, the limits are positive, and it has stored the segments of the
planned durations, which are valid. -/
theorem motionTrajectoryStart_ok_rat {s : Motion ℚ} {startCounts targetCounts : Int32}
    {velocityMmS accelerationMmS2 jerkMmS3 : ℚ}
    (hdelta : targetCounts.toInt - startCounts.toInt ≠ 0)
    (hok : (motionTrajectoryStart startCounts targetCounts velocityMmS accelerationMmS2 jerkMmS3
      s).1 = .ok) :
  (0 < velocityMmS * motionCountsPerMmGet s.motorParams
      ∧ 0 < accelerationMmS2 * motionCountsPerMmGet s.motorParams
      ∧ 0 < jerkMmS3 * motionCountsPerMmGet s.motorParams)
    ∧ ∃ (σ : ℚ) (times : ProfileTimes ℚ), (σ = 1 ∨ σ = -1)
      ∧ σ * ((|targetCounts.toInt - startCounts.toInt| : ℤ) : ℚ)
        = (targetCounts.toInt - startCounts.toInt : ℤ)
      ∧ times = planProfileTimes ((|targetCounts.toInt - startCounts.toInt| : ℤ) : ℚ)
        (velocityMmS * motionCountsPerMmGet s.motorParams)
        (accelerationMmS2 * motionCountsPerMmGet s.motorParams)
        (jerkMmS3 * motionCountsPerMmGet s.motorParams)
      ∧ times.valid = true
      ∧ (motionTrajectoryStart startCounts targetCounts velocityMmS accelerationMmS2 jerkMmS3
          s).2.trajectory.segment
        = (integrateSegments SegmentStart.rest
            (profileSteps σ (jerkMmS3 * motionCountsPerMmGet s.motorParams) times)).1
  := by
  obtain ⟨hσ, hdistance, hproduct⟩ := direction_mul_distance_rat hdelta
  revert hok
  rw [motionTrajectoryStart, if_neg hdelta]
  extract_lets direction distance maxVelocity maxAcceleration maxJerk times
  split
  · rintro ⟨⟩
  split
  · rintro ⟨⟩
  split
  · rintro ⟨⟩
  rename_i hpositive _ hvalid
  dsimp only
  split
  · rintro ⟨⟩
  split
  · rintro ⟨⟩
  intro _
  simp only [Bool.or_eq_true, Bool.not_eq_true', not_or, Bool.not_eq_false,
    motionFloatIsPositive_rat] at hpositive hvalid
  refine ⟨⟨hpositive.1.1, hpositive.1.2, hpositive.2⟩, direction, times, hσ, ?_, ?_, hvalid, rfl⟩
  · exact hproduct
  · rw [← hdistance]

/-- The planner stores a profile that keeps to the limit of the speed and ends at the distance, up
to one part in `2 ^ 10`, exactly if its square roots settle. -/
theorem nearProfile_iff {s : Motion ℚ} {startCounts targetCounts : Int32}
    {velocityMmS accelerationMmS2 jerkMmS3 : ℚ} (hne : startCounts ≠ targetCounts)
    (hok : (motionTrajectoryStart startCounts targetCounts velocityMmS accelerationMmS2 jerkMmS3
      s).1 = .ok) :
  NearProfile (motionTrajectoryStart startCounts targetCounts velocityMmS accelerationMmS2 jerkMmS3
      s).2.trajectory.segment (targetCounts.toInt - startCounts.toInt : ℤ)
      (velocityMmS * motionCountsPerMmGet s.motorParams)
    ↔ RootsSettle (|targetCounts.toInt - startCounts.toInt| : ℤ)
      (velocityMmS * motionCountsPerMmGet s.motorParams)
      (accelerationMmS2 * motionCountsPerMmGet s.motorParams)
      (jerkMmS3 * motionCountsPerMmGet s.motorParams)
  := by
  have hdelta := delta_ne_zero hne
  obtain ⟨⟨hV, hA, hJ⟩, σ, times, hσ, hproduct, htimes, hvalid, hsegments⟩ :=
    motionTrajectoryStart_ok_rat hdelta hok
  have hD : (0 : ℚ) < (|targetCounts.toInt - startCounts.toInt| : ℤ) := by
    exact_mod_cast abs_pos.mpr hdelta
  rw [times.valid_rat] at hvalid
  rw [hsegments, ← hproduct,
    nearProfile_iff_keeps hσ hD hJ hvalid.1 hvalid.2.1 hvalid.2.2, htimes,
    planProfileTimes_keeps_iff hD hV hA hJ]

/-- An axis with one count in a millimetre. -/
def restingAxis : Motion ℚ :=
  { (Motion.init : Motion ℚ) with motorParams := System.unitMotorParams }

theorem nearProfile_restingAxis :
  NearProfile (motionTrajectoryStart 0 2 1 1 1 restingAxis).2.trajectory.segment
    (Int32.toInt 2 - Int32.toInt 0 : ℤ) (1 * motionCountsPerMmGet restingAxis.motorParams)
  := by
  have hcounts : motionCountsPerMmGet restingAxis.motorParams = 1 := by decide +kernel
  have hdelta : ((|Int32.toInt 2 - Int32.toInt 0| : ℤ) : ℚ) = 2 := by decide +kernel
  have hresidue : sqrtResidue 1 = 0 := by
    rw [sqrtResidue, Rat.cast_one, Real.sqrt_one, sub_self, zero_div]
    apply zero_pow (by positivity)
  rw [nearProfile_iff (by decide) (by decide +kernel), hcounts, hdelta, mul_one]
  constructor
  · intro _ _
    rw [div_one, Settles, hresidue]
    have hroot : 1 ≤ √((1 + profileTolerance : ℚ) : ℝ) := by
      rw [Real.one_le_sqrt]
      have := profileTolerance_pos
      exact_mod_cast (by linarith : (1 : ℚ) ≤ 1 + profileTolerance)
    apply div_nonneg
    · linarith
    · linarith
  · norm_num
  · norm_num
  · intro _ _ hless
    rw [div_one, newtonSqrt, hresidue, Rat.cast_one, Real.sqrt_one] at hless
    norm_num at hless

/-- The time of the seven segments. -/
theorem startTime_profile (σ J : ℚ) (times : ProfileTimes ℚ) :
  (integrateSegments SegmentStart.rest (profileSteps σ J times)).2.startTime
    = 4 * times.timeJerk + 2 * times.timeConstantAcceleration + times.timeConstantVelocity
  := by
  simp only [profileSteps, jerkSign, ProfileTimes.segmentDuration, List.map_cons, List.map_nil,
    List.zip_cons_cons, List.zip_nil_right, integrateSegments, SegmentStart.next,
    SegmentStart.rest, lit_rat]
  ring

/-- The two derived limits are positive. -/
theorem transitionsValid_rat {A J : ℚ} (hA : 0 < A) (hJ : 0 < J) :
  transitionsValid A J = true
  := by
  rw [transitionsValid, Bool.and_eq_true, motionFloatIsPositive_rat, motionFloatIsPositive_rat,
    lit_rat]
  constructor
  · positivity
  · positivity

/-- The planner accepts a way if its durations are valid and its time can be counted. -/
theorem motionTrajectoryStart_accepts {s : Motion ℚ} {startCounts targetCounts : Int32}
    {velocityMmS accelerationMmS2 jerkMmS3 : ℚ} {times : ProfileTimes ℚ}
    (hdelta : targetCounts.toInt - startCounts.toInt ≠ 0)
    (hV : 0 < velocityMmS * motionCountsPerMmGet s.motorParams)
    (hA : 0 < accelerationMmS2 * motionCountsPerMmGet s.motorParams)
    (hJ : 0 < jerkMmS3 * motionCountsPerMmGet s.motorParams)
    (htimes : planProfileTimes ((|targetCounts.toInt - startCounts.toInt| : ℤ) : ℚ)
      (velocityMmS * motionCountsPerMmGet s.motorParams)
      (accelerationMmS2 * motionCountsPerMmGet s.motorParams)
      (jerkMmS3 * motionCountsPerMmGet s.motorParams) = times)
    (hvalid : times.valid = true)
    (htime : (4 * times.timeJerk + 2 * times.timeConstantAcceleration + times.timeConstantVelocity)
      / 0.002 < 2 ^ 32) :
  (motionTrajectoryStart startCounts targetCounts velocityMmS accelerationMmS2 jerkMmS3 s).1 = .ok
  := by
  have hcheck := times.valid_rat.mp hvalid
  have hpositive : 0 < 4 * times.timeJerk + 2 * times.timeConstantAcceleration
      + times.timeConstantVelocity := by linarith
  rw [← (direction_mul_distance_rat hdelta).2.1] at htimes
  rw [motionTrajectoryStart, if_neg hdelta]
  dsimp only
  rw [(motionFloatIsPositive_rat _).mpr hV, (motionFloatIsPositive_rat _).mpr hA,
    (motionFloatIsPositive_rat _).mpr hJ, transitionsValid_rat hA hJ, htimes, hvalid,
    startTime_profile, (motionFloatIsPositive_rat _).mpr hpositive]
  simp only [Bool.not_true, Bool.or_false, Bool.false_eq_true, if_false]
  split
  · rename_i hcycles
    rw [Bool.or_eq_true, le_rat] at hcycles
    rcases hcycles with hfinite | hcycles
    · cases hfinite
    · exact absurd htime (not_lt.mpr hcycles)
  · rfl

/-- A jerk that is large against the speed: the root of `V / J` has not settled after 24 steps, and
the speed is some thousand times the limit. -/
theorem not_nearProfile_restingAxis :
  (motionTrajectoryStart 0 2 1 (2 ^ 31) (2 ^ 60) restingAxis).1 = .ok
    ∧ ¬ NearProfile
      (motionTrajectoryStart 0 2 1 (2 ^ 31) (2 ^ 60) restingAxis).2.trajectory.segment 2 1
  := by
  have hcounts : motionCountsPerMmGet restingAxis.motorParams = 1 := by decide +kernel
  have hdelta : ((|Int32.toInt 2 - Int32.toInt 0| : ℤ) : ℚ) = 2 := by decide +kernel
  have hne : Int32.toInt 2 - Int32.toInt 0 ≠ 0 := by decide
  obtain ⟨hlow, hhigh⟩ := motionPositiveSqrt_mem (x := 1 / 2 ^ 60) (by norm_num) (by norm_num)
  have htimes : planProfileTimes (2 : ℚ) 1 (2 ^ 31) (2 ^ 60)
      = ⟨motionPositiveSqrt (1 / 2 ^ 60), 0, 2 - 2 * motionPositiveSqrt (1 / 2 ^ 60)⟩ := by
    rw [planProfileTimes_rat, if_pos (by norm_num), if_pos (by linarith), div_one, one_mul, add_zero]
  have hok : (motionTrajectoryStart 0 2 1 (2 ^ 31) (2 ^ 60) restingAxis).1 = .ok := by
    refine motionTrajectoryStart_accepts hne ?_ ?_ ?_ (Eq.trans ?_ htimes) ?_ ?_
    · rw [hcounts]
      norm_num
    · rw [hcounts]
      norm_num
    · rw [hcounts]
      norm_num
    · rw [hcounts, hdelta, mul_one, mul_one, mul_one]
    · rw [ProfileTimes.valid_rat]
      refine ⟨?_, le_rfl, ?_⟩
      · linarith
      · linarith
    · dsimp only
      rw [div_lt_iff₀ (by norm_num)]
      linarith
  refine ⟨hok, ?_⟩
  obtain ⟨⟨-, -, hJ⟩, σ, times, hσ, hproduct, hplan, hvalid, hsegments⟩ :=
    motionTrajectoryStart_ok_rat hne hok
  rw [hcounts, mul_one] at hJ
  rw [hcounts, hdelta, mul_one, mul_one, mul_one, htimes] at hplan
  rw [times.valid_rat] at hvalid
  have hend : ((Int32.toInt 2 - Int32.toInt 0 : ℤ) : ℚ) = 2 := by decide +kernel
  rw [hdelta, hend] at hproduct
  have hiff := nearProfile_iff_keeps (V := 1) hσ two_pos hJ hvalid.1 hvalid.2.1 hvalid.2.2
  rw [hproduct] at hiff
  rw [hsegments, hcounts, mul_one, hiff, hplan]
  intro h
  have hpeak := h.peak_le
  rw [ProfileTimes.peak, profileTolerance] at hpeak
  dsimp only at hpeak
  have hsquare := mul_self_le_mul_self (by norm_num) hlow
  norm_num at hpeak hsquare
  linarith

end EthercatMaster
