import EthercatMaster.Library.ConstantJerk
import EthercatMaster.Motion.Trajectory
import Mathlib.Analysis.SpecialFunctions.Pow.Real
import Mathlib.Tactic.FieldSimp

/-!
# The planned profile

In exact real arithmetic with exact roots, the seven segments that `motion_trajectory_start`
stores are a motion from rest to rest over the distance asked for, within the limits of
velocity, acceleration and jerk.  The planner chooses between several regimes; each of them is
shown to fit the distance and the limits, and the rest of the argument is the same for all.
-/

namespace EthercatMaster

open FloatArith PositiveRoots ConstantJerk

/-! ### Exact arithmetic -/

open Classical in
/-- Exact real arithmetic, in which the conversions of the integer constants are exact as
well. -/
noncomputable instance : FloatArith ℝ where
  lit q := q
  ofInt n := n
  lt x y := decide (x < y)
  le x y := decide (x ≤ y)
  isFinite _ := true
  toInt32 x := Int32.ofInt (if 0 ≤ x then ⌊x⌋ else ⌈x⌉)
  toUInt32 x := UInt32.ofNat ⌊x⌋.toNat
  int32Max := (2 ^ 31 - 1 : ℤ)
  int32Min := (- 2 ^ 31 : ℤ)
  uint32Max := (2 ^ 32 - 1 : ℤ)

/-- The roots themselves. -/
noncomputable instance : PositiveRoots ℝ where
  positiveSqrt := Real.sqrt
  positiveCbrt x := x ^ (1 / 3 : ℝ)

@[simp]
theorem lit_real (q : ℚ) :
  (lit q : ℝ) = (q : ℝ)
  := rfl

@[simp]
theorem ofInt_real (n : ℤ) :
  (ofInt n : ℝ) = (n : ℝ)
  := rfl

@[simp]
theorem lt_real (x y : ℝ) :
  lt x y = true ↔ x < y
  := decide_eq_true_iff

@[simp]
theorem le_real (x y : ℝ) :
  le x y = true ↔ x ≤ y
  := decide_eq_true_iff

@[simp]
theorem motionFloatIsPositive_real (x : ℝ) :
  motionFloatIsPositive x = true ↔ 0 < x
  := by
  rw [motionFloatIsPositive, Bool.and_eq_true, lt_real, lit_real, Rat.cast_zero]
  exact and_iff_right rfl

/-! ### The durations -/

/-- Durations that cover a distance within limits of velocity, acceleration and jerk, when the
jerk is applied to its limit. -/
structure ProfileTimes.Fits (times : ProfileTimes ℝ) (distance maxVelocity maxAcceleration
    maxJerk : ℝ) : Prop where
  jerk_pos : 0 < times.timeJerk
  acceleration_nonneg : 0 ≤ times.timeConstantAcceleration
  velocity_nonneg : 0 ≤ times.timeConstantVelocity
  acceleration_le : maxJerk * times.timeJerk ≤ maxAcceleration
  velocity_le :
    maxJerk * times.timeJerk * (times.timeJerk + times.timeConstantAcceleration) ≤ maxVelocity
  distance_eq :
    maxJerk * times.timeJerk * (times.timeJerk + times.timeConstantAcceleration)
      * (2 * times.timeJerk + times.timeConstantAcceleration + times.timeConstantVelocity)
      = distance

section Regimes

variable {D V A J : ℝ}

/-- The acceleration phase reaches the velocity limit before the acceleration limit. -/
theorem reaches_velocity_sqrt (hV : 0 < V) (hA : 0 < A) (hJ : 0 < J) (h : V ≤ A * A / J) :
  0 < √(V / J) ∧ J * √(V / J) ≤ A ∧ J * √(V / J) * √(V / J) = V
  := by
  have hpos : 0 < V / J := div_pos hV hJ
  have hsquare : √(V / J) * √(V / J) = V / J := Real.mul_self_sqrt hpos.le
  refine ⟨Real.sqrt_pos.mpr hpos, ?_, ?_⟩
  · apply abs_le_of_sq_le_sq' _ hA.le |>.2
    rw [le_div_iff₀ hJ] at h
    calc (J * √(V / J)) ^ 2 = J ^ 2 * (√(V / J) * √(V / J)) := by ring
      _ = V * J := by rw [hsquare]; field_simp
      _ ≤ A * A := h
      _ = A ^ 2 := by ring
  · rw [mul_assoc, hsquare]
    field_simp

/-- The acceleration phase reaches the acceleration limit. -/
theorem reaches_velocity_linear (hA : 0 < A) (hJ : 0 < J) (h : A * A / J < V) :
  0 < A / J ∧ 0 ≤ V / A - A / J ∧ J * (A / J) = A ∧ J * (A / J) * (A / J + (V / A - A / J)) = V
  := by
  refine ⟨div_pos hA hJ, ?_, ?_, ?_⟩
  · rw [sub_nonneg, le_div_iff₀ hA]
    calc A / J * A = A * A / J := by ring
      _ ≤ V := h.le
  · field_simp
  · field_simp
    ring

/-- A cruise at the velocity limit makes up the rest of the distance. -/
theorem fits_cruise {timeJerk timeAcceleration : ℝ} (hV : 0 < V) (hj : 0 < timeJerk)
    (ha : 0 ≤ timeAcceleration) (hacceleration : J * timeJerk ≤ A)
    (hvelocity : J * timeJerk * (timeJerk + timeAcceleration) = V)
    (h : V * (2 * timeJerk + timeAcceleration) ≤ D) :
  (ProfileTimes.mk timeJerk timeAcceleration
    ((D - V * (2 * timeJerk + timeAcceleration)) / V)).Fits D V A J
  := by
  constructor
  · apply hj
  · apply ha
  · apply div_nonneg _ hV.le
    linarith
  · apply hacceleration
  · apply hvelocity.le
  · dsimp only
    rw [hvelocity]
    field_simp
    ring

/-- The distance allows the acceleration limit but not the velocity limit. -/
theorem fits_acceleration (hD : 0 < D) (hV : 0 < V) (hA : 0 < A) (hJ : 0 < J)
    (hdistance : 2 * A * A * A / (J * J) ≤ D) (hless : D < V * (A / J + V / A)) :
  (ProfileTimes.mk (A / J)
    ((√(A / J * (A / J) + 4 * D / A) - 3 * (A / J)) / 2) 0).Fits D V A J
  := by
  set T := A / J with hT
  have hTpos : 0 < T := div_pos hA hJ
  have hnonneg : 0 ≤ T * T + 4 * D / A := by positivity
  set R := √(T * T + 4 * D / A) with hR
  have hsquare : R * R = T * T + 4 * D / A := Real.mul_self_sqrt hnonneg
  have hJT : J * T = A := by
    rw [hT]
    field_simp
  -- the root is at least three jerk times
  have hroot : 3 * T ≤ R := by
    apply Real.le_sqrt_of_sq_le
    have hlimit : 2 * A * (T * T) ≤ D := by
      calc 2 * A * (T * T) = 2 * A * A * A / (J * J) := by
            rw [hT]
            field_simp
        _ ≤ D := hdistance
    have hdiv : 8 * (T * T) ≤ 4 * D / A := by
      rw [le_div_iff₀ hA]
      linarith
    linarith [hdiv]
  -- the velocity reached is below the limit, since the distance is
  have hpeak : (R - T) / 2 < V / A := by
    have hproduct : (R - T) / 2 * ((R - T) / 2 + T) = D / A := by
      calc (R - T) / 2 * ((R - T) / 2 + T) = (R * R - T * T) / 4 := by ring
        _ = D / A := by
          rw [hsquare]
          ring
    have hbound : D / A < V / A * (V / A + T) := by
      rw [div_lt_iff₀ hA]
      calc D < V * (T + V / A) := hless
        _ = V / A * (V / A + T) * A := by
          field_simp
          ring
    by_contra hge
    push Not at hge
    have hVA : 0 < V / A := div_pos hV hA
    have hmul : V / A * (V / A + T) ≤ (R - T) / 2 * ((R - T) / 2 + T) := by
      apply mul_le_mul hge
      · linarith
      · linarith
      · linarith
    linarith
  have hsum : T + (R - 3 * T) / 2 = (R - T) / 2 := by ring
  constructor
  · apply hTpos
  · dsimp only
    linarith
  · rfl
  · apply hJT.le
  · dsimp only
    rw [hJT, hsum]
    have := mul_le_mul_of_nonneg_left hpeak.le hA.le
    rw [mul_div_cancel₀ _ hA.ne'] at this
    apply this
  · dsimp only
    rw [hJT, hsum]
    calc A * ((R - T) / 2) * (2 * T + (R - 3 * T) / 2 + 0) = A * ((R * R - T * T) / 4) := by ring
      _ = D := by
        rw [hsquare]
        field_simp
        ring

/-- A profile of jerk alone, whose jerk time is below that of the limits. -/
theorem fits_jerk {T : ℝ} (hT : 0 < T) (hdistance : 2 * J * T ^ 3 = D)
    (hacceleration : J * T ≤ A) (hvelocity : J * T * T ≤ V) :
  (ProfileTimes.mk T 0 0).Fits D V A J
  := by
  constructor
  · apply hT
  · rfl
  · rfl
  · apply hacceleration
  · dsimp only
    rw [add_zero]
    apply hvelocity
  · dsimp only
    rw [← hdistance]
    ring

/-- The cube root of the source, exactly. -/
theorem cube_rpow {x : ℝ} (hx : 0 < x) :
  0 < x ^ (1 / 3 : ℝ) ∧ (x ^ (1 / 3 : ℝ)) ^ 3 = x
  := by
  refine ⟨Real.rpow_pos_of_pos hx _, ?_⟩
  rw [← Real.rpow_natCast, ← Real.rpow_mul hx.le]
  norm_num

/-- The jerk time of a profile of jerk alone is below another one, if the distance is below that
of the other one. -/
theorem cube_lt {T : ℝ} (hD : 0 < D) (hJ : 0 < J) (hT : 0 < T) (h : D < 2 * J * T ^ 3) :
  (D / (2 * J)) ^ (1 / 3 : ℝ) < T
  := by
  have hx : 0 < D / (2 * J) := by positivity
  apply lt_of_pow_lt_pow_left₀ 3 hT.le
  rw [(cube_rpow hx).2, div_lt_iff₀ (by positivity)]
  linarith

/-- The distance is too short for the acceleration limit or the velocity limit. -/
theorem fits_short {T : ℝ} (hD : 0 < D) (hJ : 0 < J) (hT : 0 < T) (h : D < 2 * J * T ^ 3)
    (hacceleration : J * T ≤ A) (hvelocity : J * T * T ≤ V) :
  (ProfileTimes.mk ((D / (2 * J)) ^ (1 / 3 : ℝ)) 0 0).Fits D V A J
  := by
  have hx : 0 < D / (2 * J) := by positivity
  obtain ⟨hpos, hcube⟩ := cube_rpow hx
  have hlt := cube_lt hD hJ hT h
  have hjerk := mul_le_mul_of_nonneg_left hlt.le hJ.le
  apply fits_jerk hpos
  · rw [hcube]
    field_simp
  · linarith
  · calc J * (D / (2 * J)) ^ (1 / 3 : ℝ) * (D / (2 * J)) ^ (1 / 3 : ℝ)
        ≤ J * T * T := by
          apply mul_le_mul hjerk hlt.le hpos.le
          positivity
      _ ≤ V := hvelocity

/-- The times of the acceleration phase that reaches the velocity limit. -/
noncomputable def accelerationPhase (V A J : ℝ) : ℝ × ℝ :=
  if V ≤ A * A / J then (√(V / J), 0) else (A / J, V / A - A / J)

/-- The planner in exact arithmetic. -/
theorem planProfileTimes_real (D V A J : ℝ) :
  planProfileTimes D V A J
    = if V * (2 * (accelerationPhase V A J).1 + (accelerationPhase V A J).2) ≤ D then
        ⟨(accelerationPhase V A J).1, (accelerationPhase V A J).2,
          (D - V * (2 * (accelerationPhase V A J).1 + (accelerationPhase V A J).2)) / V⟩
      else if A * A / J ≤ V ∧ 2 * A * A * A / (J * J) ≤ D then
        ⟨A / J,
          if (√(A / J * (A / J) + 4 * D / A) - 3 * (A / J)) / 2 < 0 then 0
          else (√(A / J * (A / J) + 4 * D / A) - 3 * (A / J)) / 2, 0⟩
      else ⟨(D / (2 * J)) ^ (1 / 3 : ℝ), 0, 0⟩
  := by
  simp only [planProfileTimes, accelerationPhase, lit_real, le_real, lt_real, Bool.and_eq_true,
    Rat.cast_ofNat, Rat.cast_zero]
  rfl

/-- In every regime the durations cover the distance within the limits. -/
theorem planProfileTimes_fits (hD : 0 < D) (hV : 0 < V) (hA : 0 < A) (hJ : 0 < J) :
  (planProfileTimes D V A J).Fits D V A J
  := by
  rw [planProfileTimes_real]
  by_cases hcase : V ≤ A * A / J
  · obtain ⟨hpos, hacceleration, hvelocity⟩ := reaches_velocity_sqrt hV hA hJ hcase
    rw [accelerationPhase, if_pos hcase]
    dsimp only
    split
    · rename_i hlong
      apply fits_cruise hV hpos le_rfl hacceleration _ hlong
      rw [add_zero]
      apply hvelocity
    rename_i hshort
    have hless : D < 2 * J * √(V / J) ^ 3 := by
      calc D < V * (2 * √(V / J) + 0) := not_le.mp hshort
        _ = J * √(V / J) * √(V / J) * (2 * √(V / J) + 0) := by rw [hvelocity]
        _ = 2 * J * √(V / J) ^ 3 := by ring
    split
    · -- at the boundary of the two acceleration phases, the distances agree as well
      rename_i hlimits
      obtain ⟨hlimit, hdistance⟩ := hlimits
      have hroot : √(V / J) = A / J := by
        rw [le_antisymm hcase hlimit, show A * A / J / J = (A / J) ^ 2 by field_simp]
        apply Real.sqrt_sq
        positivity
      rw [hroot] at hless
      have hequal : 2 * J * (A / J) ^ 3 = 2 * A * A * A / (J * J) := by field_simp
      linarith
    · apply fits_short hD hJ hpos hless hacceleration hvelocity.le
  · push Not at hcase
    obtain ⟨hpos, hnonneg, hacceleration, hvelocity⟩ := reaches_velocity_linear hA hJ hcase
    rw [accelerationPhase, if_neg (not_le.mpr hcase)]
    dsimp only
    split
    · rename_i hlong
      apply fits_cruise hV hpos hnonneg hacceleration.le hvelocity hlong
    rename_i hshort
    have hless : D < V * (A / J + V / A) := by
      calc D < V * (2 * (A / J) + (V / A - A / J)) := not_le.mp hshort
        _ = V * (A / J + V / A) := by ring
    split
    · rename_i hlimits
      have hfits := fits_acceleration hD hV hA hJ hlimits.2 hless
      rw [if_neg (not_lt.mpr hfits.acceleration_nonneg)]
      apply hfits
    · rename_i hlimits
      have hdistance : D < 2 * J * (A / J) ^ 3 := by
        have hlt : D < 2 * A * A * A / (J * J) := by
          by_contra hge
          exact hlimits ⟨hcase.le, not_lt.mp hge⟩
        have hequal : 2 * J * (A / J) ^ 3 = 2 * A * A * A / (J * J) := by field_simp
        linarith
      apply fits_short hD hJ hpos hdistance hacceleration.le
      rw [hacceleration]
      calc A * (A / J) = A * A / J := by ring
        _ ≤ V := hcase.le

end Regimes

/-! ### The integration of the segments -/

/-- The piece of constant jerk a segment stands for. -/
def S7Segment.piece (segment : S7Segment ℝ) : Piece where
  duration := segment.durationS
  jerk := segment.jerkCountsS3
  position := segment.startPositionCounts
  velocity := segment.startVelocityCountsS
  acceleration := segment.startAccelerationCountsS2

section Integration

variable (x : SegmentStart ℝ) (jerk duration : ℝ)

theorem next_acceleration :
  (x.next jerk duration).acceleration = x.acceleration + jerk * duration
  := rfl

theorem next_velocity :
  (x.next jerk duration).velocity
    = x.velocity + x.acceleration * duration + jerk * duration ^ 2 / 2
  := by
  simp only [SegmentStart.next, lit_real]
  norm_num
  ring

theorem next_position :
  (x.next jerk duration).position
    = x.position + x.velocity * duration + x.acceleration * duration ^ 2 / 2
      + jerk * duration ^ 3 / 6
  := by
  simp only [SegmentStart.next, lit_real]
  norm_num
  ring

/-- What is observed of a piece at its start and at its end, in terms of the states the
integration goes through. -/
structure Observes (f : Piece → ℝ → ℝ) (g : SegmentStart ℝ → ℝ) : Prop where
  start : ∀ (x : SegmentStart ℝ) (jerk duration : ℝ),
    f (x.segment jerk duration).piece 0 = g x
  stop : ∀ (x : SegmentStart ℝ) (jerk duration : ℝ),
    f (x.segment jerk duration).piece duration = g (x.next jerk duration)

theorem observes_acceleration :
  Observes Piece.accelerationAt SegmentStart.acceleration
  := by
  constructor
  · intro x jerk duration
    rw [Piece.accelerationAt, mul_zero, add_zero]
    rfl
  · intro x jerk duration
    rw [next_acceleration]
    rfl

theorem observes_velocity :
  Observes Piece.velocityAt SegmentStart.velocity
  := by
  constructor
  · intro x jerk duration
    simp only [Piece.velocityAt, SegmentStart.segment, S7Segment.piece]
    ring
  · intro x jerk duration
    rw [next_velocity]
    rfl

theorem observes_position :
  Observes Piece.positionAt SegmentStart.position
  := by
  constructor
  · intro x jerk duration
    simp only [Piece.positionAt, SegmentStart.segment, S7Segment.piece]
    ring
  · intro x jerk duration
    rw [next_position]
    rfl

variable {f : Piece → ℝ → ℝ} {g : SegmentStart ℝ → ℝ} {x}

/-- The pieces stored by the integration. -/
noncomputable def piecesOf (x : SegmentStart ℝ) (steps : List (ℝ × ℝ)) : List Piece :=
  (integrateSegments x steps).1.map S7Segment.piece

theorem piecesOf_cons (x : SegmentStart ℝ) (jerk duration : ℝ) (steps : List (ℝ × ℝ)) :
  piecesOf x ((jerk, duration) :: steps)
    = (x.segment jerk duration).piece :: piecesOf (x.next jerk duration) steps
  := rfl

/-- The integration joins the pieces. -/
theorem Observes.joins (h : Observes f g) (x : SegmentStart ℝ) (steps : List (ℝ × ℝ)) :
  Joins Piece.duration f (piecesOf x steps)
  := by
  induction steps generalizing x with
  | nil => apply List.IsChain.nil
  | cons step steps ih =>
      obtain ⟨jerk, duration⟩ := step
      rw [piecesOf_cons]
      cases steps with
      | nil => apply List.IsChain.singleton
      | cons step' steps =>
          obtain ⟨jerk', duration'⟩ := step'
          have hjoins := ih (x.next jerk duration)
          rw [piecesOf_cons] at hjoins ⊢
          apply List.isChain_cons_cons.mpr ⟨_, hjoins⟩
          rw [h.start, ← h.stop]
          rfl

/-- What is observed at the end of the last piece. -/
theorem Observes.getLast (h : Observes f g) (x : SegmentStart ℝ) {steps : List (ℝ × ℝ)}
    (hne : piecesOf x steps ≠ []) :
  f ((piecesOf x steps).getLast hne) ((piecesOf x steps).getLast hne).duration
    = g (integrateSegments x steps).2
  := by
  induction steps generalizing x with
  | nil => contradiction
  | cons step steps ih =>
      obtain ⟨jerk, duration⟩ := step
      cases steps with
      | nil => apply h.stop
      | cons step' steps =>
          have hlast := ih (x.next jerk duration) (List.cons_ne_nil _ _)
          rw [show (integrateSegments x ((jerk, duration) :: step' :: steps)).2
            = (integrateSegments (x.next jerk duration) (step' :: steps)).2 from rfl, ← hlast]
          rfl

/-- The durations are stored as they are. -/
theorem durations_integrateSegments (x : SegmentStart ℝ) (steps : List (ℝ × ℝ)) :
  (integrateSegments x steps).1.map S7Segment.durationS = steps.map Prod.snd
  := by
  induction steps generalizing x with
  | nil => rfl
  | cons step steps ih =>
      obtain ⟨jerk, duration⟩ := step
      apply congrArg (duration :: ·)
      apply ih

/-- The segments follow each other in time. -/
theorem startTime_integrateSegments (x : SegmentStart ℝ) (steps : List (ℝ × ℝ)) {i : ℕ}
    {segment : S7Segment ℝ} (h : (integrateSegments x steps).1[i]? = some segment) :
  segment.startTimeS = x.startTime + ((steps.take i).map Prod.snd).sum
  := by
  induction steps generalizing x i with
  | nil => cases h
  | cons step steps ih =>
      obtain ⟨jerk, duration⟩ := step
      cases i with
      | zero =>
          cases h
          rw [List.take_zero, List.map_nil, List.sum_nil, add_zero]
          rfl
      | succ i =>
          rw [ih (x.next jerk duration) h, List.take_succ_cons, List.map_cons, List.sum_cons,
            ← add_assoc]
          rfl

/-- The time at the end of the integration. -/
theorem startTime_last (x : SegmentStart ℝ) (steps : List (ℝ × ℝ)) :
  (integrateSegments x steps).2.startTime = x.startTime + (steps.map Prod.snd).sum
  := by
  induction steps generalizing x with
  | nil =>
      rw [List.map_nil, List.sum_nil, add_zero]
      rfl
  | cons step steps ih =>
      obtain ⟨jerk, duration⟩ := step
      rw [List.map_cons, List.sum_cons, ← add_assoc]
      apply ih (x.next jerk duration)

end Integration

/-! ### The limits -/

/-- Every step of the integration from `x` keeps the velocity in one set and the acceleration in
another, with an acceleration that does not change its sign within the step. -/
def Within (velocities accelerations : Set ℝ) (maxJerk : ℝ) :
    SegmentStart ℝ → List (ℝ × ℝ) → Prop
  | _, [] => True
  | x, (jerk, duration) :: steps =>
      0 ≤ duration ∧ |jerk| ≤ maxJerk
        ∧ (x.velocity ∈ velocities ∧ (x.next jerk duration).velocity ∈ velocities)
        ∧ (x.acceleration ∈ accelerations ∧ (x.next jerk duration).acceleration ∈ accelerations)
        ∧ ((0 ≤ x.acceleration ∧ 0 ≤ (x.next jerk duration).acceleration)
          ∨ (x.acceleration ≤ 0 ∧ (x.next jerk duration).acceleration ≤ 0))
        ∧ Within velocities accelerations maxJerk (x.next jerk duration) steps

/-- The limits hold at every time of every piece. -/
theorem Within.piece {velocities accelerations : Set ℝ} [velocities.OrdConnected]
    [accelerations.OrdConnected] {maxJerk : ℝ} {x : SegmentStart ℝ} {steps : List (ℝ × ℝ)}
    (h : Within velocities accelerations maxJerk x steps) {p : Piece} (hp : p ∈ piecesOf x steps) :
  0 ≤ p.duration ∧ |p.jerk| ≤ maxJerk
    ∧ ∀ t, 0 ≤ t → t ≤ p.duration → p.velocityAt t ∈ velocities ∧ p.accelerationAt t ∈ accelerations
  := by
  induction steps generalizing x with
  | nil => cases hp
  | cons step steps ih =>
      obtain ⟨jerk, duration⟩ := step
      obtain ⟨hduration, hjerk, ⟨hv, hv'⟩, ⟨ha, ha'⟩, hsign, hsteps⟩ := h
      rw [piecesOf_cons] at hp
      rcases List.mem_cons.mp hp with rfl | hp
      · refine ⟨hduration, hjerk, ?_⟩
        intro t ht hle
        have hstop := observes_velocity.stop x jerk duration
        constructor
        · apply Piece.velocityAt_mem ht hle hsign hv
          rw [show (x.segment jerk duration).piece.duration = duration from rfl, hstop]
          apply hv'
        · apply Piece.accelerationAt_mem ht hle ha ha'
      · apply ih hsteps hp

section Profile

variable {times : ProfileTimes ℝ} {D V A J σ : ℝ}

/-- The jerks and durations of the profile in exact arithmetic. -/
theorem profileSteps_real (σ J : ℝ) (times : ProfileTimes ℝ) :
  profileSteps σ J times
    = [(σ * J, times.timeJerk), (0, times.timeConstantAcceleration),
        (-(σ * J), times.timeJerk), (0, times.timeConstantVelocity),
        (-(σ * J), times.timeJerk), (0, times.timeConstantAcceleration),
        (σ * J, times.timeJerk)]
  := by
  simp [profileSteps, jerkSign, ProfileTimes.segmentDuration]

/-- A value between zero and a limit, in a direction. -/
theorem mem_uIcc_of_direction (hσ : σ = 1 ∨ σ = -1) {v : ℝ} (hv : 0 ≤ v) (hle : v ≤ V) :
  σ * v ∈ Set.uIcc 0 (σ * V)
  := by
  rw [Set.mem_uIcc]
  rcases hσ with rfl | rfl
  · left
    constructor
    · linarith
    · linarith
  · right
    constructor
    · linarith
    · linarith

/-- The velocity and the acceleration of a state, in a direction. -/
def Moves (σ v a : ℝ) (x : SegmentStart ℝ) : Prop :=
  x.velocity = σ * v ∧ x.acceleration = σ * a

/-- A step of the integration, in a direction. -/
theorem Moves.next {v a : ℝ} {x : SegmentStart ℝ} (h : Moves σ v a x) {jerk j v' a' : ℝ}
    (duration : ℝ) (hjerk : jerk = σ * j) (hv : v + a * duration + j * duration ^ 2 / 2 = v')
    (ha : a + j * duration = a') :
  Moves σ v' a' (x.next jerk duration)
  := by
  constructor
  · rw [next_velocity, h.1, h.2, hjerk, ← hv]
    ring
  · rw [next_acceleration, h.2, hjerk, ← ha]
    ring

theorem moves_rest :
  Moves σ 0 0 SegmentStart.rest
  := by
  constructor
  · simp [SegmentStart.rest]
  · simp [SegmentStart.rest]

/-- A step within the limits, in a direction. -/
theorem Within.cons {x : SegmentStart ℝ} {jerk j duration v a v' a' : ℝ}
    {steps : List (ℝ × ℝ)} (hσ : σ = 1 ∨ σ = -1) (hduration : 0 ≤ duration)
    (hjerk : jerk = σ * j) (hj : |j| ≤ J) (hx : Moves σ v a x)
    (hv : v + a * duration + j * duration ^ 2 / 2 = v') (ha : a + j * duration = a')
    (hvelocity : (0 ≤ v ∧ v ≤ V) ∧ 0 ≤ v' ∧ v' ≤ V)
    (hacceleration : (0 ≤ a ∧ a ≤ A ∧ 0 ≤ a' ∧ a' ≤ A) ∨ (-A ≤ a ∧ a ≤ 0 ∧ -A ≤ a' ∧ a' ≤ 0))
    (hsteps : ∀ y, Moves σ v' a' y → Within (Set.uIcc 0 (σ * V)) (Set.Icc (-A) A) J y steps) :
  Within (Set.uIcc 0 (σ * V)) (Set.Icc (-A) A) J x ((jerk, duration) :: steps)
  := by
  have hnext := hx.next duration hjerk hv ha
  obtain ⟨⟨hv0, hv1⟩, hv0', hv1'⟩ := hvelocity
  refine ⟨hduration, ?_, ⟨?_, ?_⟩, ?_, ?_, hsteps _ hnext⟩
  · rw [hjerk, abs_mul]
    rcases hσ with rfl | rfl
    · simpa using hj
    · simpa using hj
  · rw [hx.1]
    apply mem_uIcc_of_direction hσ hv0 hv1
  · rw [hnext.1]
    apply mem_uIcc_of_direction hσ hv0' hv1'
  · rw [hx.2, hnext.2, Set.mem_Icc, Set.mem_Icc]
    rcases hσ with rfl | rfl <;> rcases hacceleration with ⟨h1, h2, h3, h4⟩ | ⟨h1, h2, h3, h4⟩
    all_goals refine ⟨⟨?_, ?_⟩, ?_, ?_⟩ <;> linarith
  · rw [hx.2, hnext.2]
    rcases hσ with rfl | rfl <;> rcases hacceleration with ⟨h1, -, h3, -⟩ | ⟨-, h2, -, h4⟩
    · left
      constructor <;> linarith
    · right
      constructor <;> linarith
    · right
      constructor <;> linarith
    · left
      constructor <;> linarith

/-- The profile is within the limits. -/
theorem ProfileTimes.Fits.within (h : times.Fits D V A J) (hJ : 0 < J) (hσ : σ = 1 ∨ σ = -1) :
  Within (Set.uIcc 0 (σ * V)) (Set.Icc (-A) A) J SegmentStart.rest (profileSteps σ J times)
  := by
  obtain ⟨T, B, C⟩ := times
  obtain ⟨hT, hB, hC, hA, hV, -⟩ := h
  dsimp only at hT hB hC hA hV
  have hgain : 0 ≤ J * T ^ 2 / 2 := by positivity
  have hlinear : 0 ≤ J * T * B := by positivity
  have hpeak : J * T * (T + B) = 2 * (J * T ^ 2 / 2) + J * T * B := by ring
  have hJT : 0 ≤ J * T := by positivity
  have habs : |J| ≤ J := by rw [abs_of_pos hJ]
  have habs' : |-J| ≤ J := by rw [abs_neg, abs_of_pos hJ]
  have habs0 : |(0 : ℝ)| ≤ J := by rw [abs_zero]; exact hJ.le
  rw [profileSteps_real]
  dsimp only
  have hvel : ∀ {v v' : ℝ}, 0 ≤ v → v ≤ J * T * (T + B) → 0 ≤ v' → v' ≤ J * T * (T + B) →
      (0 ≤ v ∧ v ≤ V) ∧ 0 ≤ v' ∧ v' ≤ V :=
    fun h1 h2 h3 h4 => ⟨⟨h1, h2.trans hV⟩, h3, h4.trans hV⟩
  -- the acceleration builds up, stays, and goes down
  apply Within.cons hσ hT.le rfl habs moves_rest
    (show 0 + 0 * T + J * T ^ 2 / 2 = J * T ^ 2 / 2 by ring) (show 0 + J * T = J * T by ring)
  · apply hvel <;> linarith
  · left
    refine ⟨?_, ?_, ?_, ?_⟩ <;> linarith
  intro x₁ h₁
  apply Within.cons hσ hB (mul_zero σ).symm habs0 h₁
    (show J * T ^ 2 / 2 + J * T * B + 0 * B ^ 2 / 2 = J * T ^ 2 / 2 + J * T * B by ring)
    (show J * T + 0 * B = J * T by ring)
  · apply hvel <;> linarith
  · left
    refine ⟨?_, ?_, ?_, ?_⟩ <;> linarith
  intro x₂ h₂
  apply Within.cons hσ hT.le (mul_neg σ J).symm habs' h₂
    (show J * T ^ 2 / 2 + J * T * B + J * T * T + -J * T ^ 2 / 2 = J * T * (T + B) by ring)
    (show J * T + -J * T = 0 by ring)
  · apply hvel <;> linarith
  · left
    refine ⟨?_, ?_, ?_, ?_⟩ <;> linarith
  intro x₃ h₃
  -- the velocity stays
  apply Within.cons hσ hC (mul_zero σ).symm habs0 h₃
    (show J * T * (T + B) + 0 * C + 0 * C ^ 2 / 2 = J * T * (T + B) by ring)
    (show (0 : ℝ) + 0 * C = 0 by ring)
  · apply hvel <;> linarith
  · left
    refine ⟨?_, ?_, ?_, ?_⟩ <;> linarith
  intro x₄ h₄
  -- the deceleration builds up, stays, and goes down
  apply Within.cons hσ hT.le (mul_neg σ J).symm habs' h₄
    (show J * T * (T + B) + 0 * T + -J * T ^ 2 / 2 = J * T ^ 2 / 2 + J * T * B by ring)
    (show 0 + -J * T = -(J * T) by ring)
  · apply hvel <;> linarith
  · right
    refine ⟨?_, ?_, ?_, ?_⟩ <;> linarith
  intro x₅ h₅
  apply Within.cons hσ hB (mul_zero σ).symm habs0 h₅
    (show J * T ^ 2 / 2 + J * T * B + -(J * T) * B + 0 * B ^ 2 / 2 = J * T ^ 2 / 2 by ring)
    (show -(J * T) + 0 * B = -(J * T) by ring)
  · apply hvel <;> linarith
  · right
    refine ⟨?_, ?_, ?_, ?_⟩ <;> linarith
  intro x₆ h₆
  apply Within.cons hσ hT.le rfl habs h₆
    (show J * T ^ 2 / 2 + -(J * T) * T + J * T ^ 2 / 2 = 0 by ring)
    (show -(J * T) + J * T = 0 by ring)
  · apply hvel <;> linarith
  · right
    refine ⟨?_, ?_, ?_, ?_⟩ <;> linarith
  intro x₇ h₇
  trivial

/-- The profile ends at rest, after the distance. -/
theorem ProfileTimes.Fits.last (h : times.Fits D V A J) (σ : ℝ) :
  (integrateSegments SegmentStart.rest (profileSteps σ J times)).2.acceleration = 0
    ∧ (integrateSegments SegmentStart.rest (profileSteps σ J times)).2.velocity = 0
    ∧ (integrateSegments SegmentStart.rest (profileSteps σ J times)).2.position = σ * D
  := by
  rw [profileSteps_real, ← h.distance_eq]
  simp only [integrateSegments, next_acceleration, next_velocity, next_position,
    SegmentStart.rest, lit_real, Rat.cast_zero]
  refine ⟨?_, ?_, ?_⟩
  · ring
  · ring
  · ring

end Profile

/-! ### The stored profile -/

/-- What is observed of the stored segments at a time. -/
noncomputable def observeSegments (f : Piece → ℝ → ℝ) (segments : List (S7Segment ℝ)) (t : ℝ) :
    ℝ :=
  match segments.map S7Segment.piece with
  | [] => 0
  | p :: rest => along Piece.duration f p rest t

/-- The displacement from the start. -/
noncomputable def profilePosition : List (S7Segment ℝ) → ℝ → ℝ :=
  observeSegments Piece.positionAt

noncomputable def profileVelocity : List (S7Segment ℝ) → ℝ → ℝ :=
  observeSegments Piece.velocityAt

noncomputable def profileAcceleration : List (S7Segment ℝ) → ℝ → ℝ :=
  observeSegments Piece.accelerationAt

noncomputable def profileJerk : List (S7Segment ℝ) → ℝ → ℝ :=
  observeSegments Piece.jerkAt

/-- The time the stored segments take. -/
noncomputable def profileTime (segments : List (S7Segment ℝ)) : ℝ :=
  (segments.map S7Segment.durationS).sum

section Observations

variable {f : Piece → ℝ → ℝ} {g : SegmentStart ℝ → ℝ} {x : SegmentStart ℝ}
  {steps : List (ℝ × ℝ)}

theorem profileTime_eq_total (x : SegmentStart ℝ) (steps : List (ℝ × ℝ)) :
  profileTime (integrateSegments x steps).1 = total Piece.duration (piecesOf x steps)
  := by
  rw [profileTime, total, piecesOf, List.map_map]
  rfl

/-- What is observed of stored segments is continuous. -/
theorem Observes.continuous (h : Observes f g) (hf : ∀ p, Continuous (f p))
    (hduration : ∀ p ∈ piecesOf x steps, 0 ≤ p.duration) :
  Continuous (observeSegments f (integrateSegments x steps).1)
  := by
  have hjoins := h.joins x steps
  cases steps with
  | nil => apply continuous_const
  | cons step steps => apply continuous_along hf hjoins hduration

theorem Observes.start_eq (h : Observes f g) (hne : steps ≠ [])
    (hduration : ∀ p ∈ piecesOf x steps, 0 ≤ p.duration) :
  observeSegments f (integrateSegments x steps).1 0 = g x
  := by
  cases steps with
  | nil => contradiction
  | cons step steps =>
      rw [← h.start x step.1 step.2]
      apply along_zero
      apply hduration
      exact List.mem_cons_self

theorem Observes.stop_eq (h : Observes f g) (hne : steps ≠ [])
    (hduration : ∀ p ∈ piecesOf x steps, 0 ≤ p.duration) :
  observeSegments f (integrateSegments x steps).1 (profileTime (integrateSegments x steps).1)
    = g (integrateSegments x steps).2
  := by
  rw [profileTime_eq_total]
  have hjoins := h.joins x steps
  cases steps with
  | nil => contradiction
  | cons step steps =>
      have hpieces : piecesOf x (step :: steps) ≠ [] := List.cons_ne_nil _ _
      rw [← h.getLast x hpieces]
      apply along_total hjoins hduration

/-- What holds at every time of every piece holds of what is observed at every time. -/
theorem observeSegments_induction {P : ℝ → Prop} (hne : steps ≠ [])
    (h : ∀ p ∈ piecesOf x steps, ∀ t, 0 ≤ t → t ≤ p.duration → P (f p t)) {t : ℝ} (ht : 0 ≤ t)
    (hle : t ≤ profileTime (integrateSegments x steps).1) :
  P (observeSegments f (integrateSegments x steps).1 t)
  := by
  rw [profileTime_eq_total] at hle
  cases steps with
  | nil => contradiction
  | cons step steps => apply along_induction h ht hle

end Observations

/-- The segments are a motion from rest to rest over a displacement, within limits of velocity,
acceleration and jerk. -/
structure IsProfile (segments : List (S7Segment ℝ)) (displacement maxVelocity maxAcceleration
    maxJerk : ℝ) : Prop where
  continuous_position : Continuous (profilePosition segments)
  continuous_velocity : Continuous (profileVelocity segments)
  continuous_acceleration : Continuous (profileAcceleration segments)
  start : profilePosition segments 0 = 0 ∧ profileVelocity segments 0 = 0
    ∧ profileAcceleration segments 0 = 0
  stop : profilePosition segments (profileTime segments) = displacement
    ∧ profileVelocity segments (profileTime segments) = 0
    ∧ profileAcceleration segments (profileTime segments) = 0
  direction : ∀ t, 0 ≤ t → t ≤ profileTime segments →
    0 ≤ displacement * profileVelocity segments t
  velocity_le : ∀ t, 0 ≤ t → t ≤ profileTime segments →
    |profileVelocity segments t| ≤ maxVelocity
  acceleration_le : ∀ t, 0 ≤ t → t ≤ profileTime segments →
    |profileAcceleration segments t| ≤ maxAcceleration
  jerk_le : ∀ t, 0 ≤ t → t ≤ profileTime segments → |profileJerk segments t| ≤ maxJerk

/-- Durations that fit give a profile. -/
theorem ProfileTimes.Fits.isProfile {times : ProfileTimes ℝ} {D V A J σ : ℝ}
    (h : times.Fits D V A J) (hD : 0 ≤ D) (hV : 0 ≤ V) (hJ : 0 < J) (hσ : σ = 1 ∨ σ = -1) :
  IsProfile (integrateSegments SegmentStart.rest (profileSteps σ J times)).1 (σ * D) V A J
  := by
  have hwithin := h.within hJ hσ
  have hne : profileSteps σ J times ≠ [] := by
    rw [profileSteps_real]
    apply List.cons_ne_nil
  have hduration : ∀ p ∈ piecesOf SegmentStart.rest (profileSteps σ J times), 0 ≤ p.duration :=
    fun p hp => (hwithin.piece hp).1
  obtain ⟨hacceleration, hvelocity, hposition⟩ := h.last σ
  have hmem : ∀ t, 0 ≤ t →
      t ≤ profileTime (integrateSegments SegmentStart.rest (profileSteps σ J times)).1 →
      profileVelocity (integrateSegments SegmentStart.rest (profileSteps σ J times)).1 t
        ∈ Set.uIcc 0 (σ * V) := by
    intro t ht hle
    apply observeSegments_induction hne _ ht hle
    intro p hp t ht hle
    apply ((hwithin.piece hp).2.2 t ht hle).1
  constructor
  · apply observes_position.continuous Piece.continuous_positionAt hduration
  · apply observes_velocity.continuous Piece.continuous_velocityAt hduration
  · apply observes_acceleration.continuous Piece.continuous_accelerationAt hduration
  · refine ⟨(observes_position.start_eq hne hduration).trans ?_,
      (observes_velocity.start_eq hne hduration).trans ?_,
      (observes_acceleration.start_eq hne hduration).trans ?_⟩
    · exact Rat.cast_zero
    · exact Rat.cast_zero
    · exact Rat.cast_zero
  · exact ⟨(observes_position.stop_eq hne hduration).trans hposition,
      (observes_velocity.stop_eq hne hduration).trans hvelocity,
      (observes_acceleration.stop_eq hne hduration).trans hacceleration⟩
  · intro t ht hle
    have hv := hmem t ht hle
    rw [Set.mem_uIcc] at hv
    rcases hσ with rfl | rfl
    · apply mul_nonneg
      · linarith
      · rcases hv with ⟨h1, -⟩ | ⟨h1, -⟩ <;> linarith
    · apply mul_nonneg_of_nonpos_of_nonpos
      · linarith
      · rcases hv with ⟨-, h1⟩ | ⟨-, h1⟩ <;> linarith
  · intro t ht hle
    have hv := hmem t ht hle
    rw [Set.mem_uIcc] at hv
    rw [abs_le]
    rcases hσ with rfl | rfl
    · rcases hv with ⟨h1, h2⟩ | ⟨h1, h2⟩ <;> constructor <;> linarith
    · rcases hv with ⟨h1, h2⟩ | ⟨h1, h2⟩ <;> constructor <;> linarith
  · intro t ht hle
    apply observeSegments_induction (P := fun a => |a| ≤ A) hne _ ht hle
    intro p hp t ht hle
    apply abs_le.mpr ((hwithin.piece hp).2.2 t ht hle).2
  · intro t ht hle
    apply observeSegments_induction (P := fun j => |j| ≤ J) hne _ ht hle
    intro p hp t _ _
    apply (hwithin.piece hp).2.1

/-- The direction and the distance between two positions. -/
theorem direction_mul_distance {delta : ℤ} (h : delta ≠ 0) :
  ((if 0 < delta then lit 1 else lit (-1) : ℝ) = 1 ∨ (if 0 < delta then lit 1 else lit (-1) : ℝ) = -1)
    ∧ 0 < (if 0 < delta then ofInt delta else ofInt (-delta) : ℝ)
    ∧ (if 0 < delta then lit 1 else lit (-1) : ℝ)
      * (if 0 < delta then ofInt delta else ofInt (-delta) : ℝ) = delta
  := by
  by_cases hpos : 0 < delta
  · simp [hpos]
  · have hneg : delta < 0 := by omega
    simp [hpos, hneg]

/-- Durations that fit pass the checks of the planner. -/
theorem ProfileTimes.Fits.valid {times : ProfileTimes ℝ} {D V A J : ℝ}
    (h : times.Fits D V A J) :
  times.valid = true
  := by
  have hacceleration : lt times.timeConstantAcceleration (lit 0) = false := by
    rw [Bool.eq_false_iff, Ne, lt_real, lit_real, Rat.cast_zero, not_lt]
    apply h.acceleration_nonneg
  have hvelocity : lt times.timeConstantVelocity (lit 0) = false := by
    rw [Bool.eq_false_iff, Ne, lt_real, lit_real, Rat.cast_zero, not_lt]
    apply h.velocity_nonneg
  rw [ProfileTimes.valid, (motionFloatIsPositive_real _).mpr h.jerk_pos, hacceleration, hvelocity]
  rfl

/-- The two derived limits are positive in exact arithmetic. -/
theorem transitionsValid_real {A J : ℝ} (hA : 0 < A) (hJ : 0 < J) :
  transitionsValid A J = true
  := by
  rw [transitionsValid, Bool.and_eq_true, motionFloatIsPositive_real, motionFloatIsPositive_real,
    lit_real, Rat.cast_ofNat]
  constructor
  · positivity
  · positivity

/-- Two positions that differ are apart. -/
theorem delta_ne_zero {startCounts targetCounts : Int32} (h : startCounts ≠ targetCounts) :
  targetCounts.toInt - startCounts.toInt ≠ 0
  := by
  intro hzero
  apply h
  apply Int32.toInt_inj.mp
  omega

section Planner

variable (s : Motion ℝ) {startCounts targetCounts : Int32}
  {velocityMmS accelerationMmS2 jerkMmS3 : ℝ}

/-- The segments the planner stores, in exact arithmetic: those of some durations that fit the
distance and the limits. -/
theorem motionTrajectoryStart_segment (hne : targetCounts.toInt - startCounts.toInt ≠ 0)
    (hV : 0 < velocityMmS * motionCountsPerMmGet s.motorParams)
    (hA : 0 < accelerationMmS2 * motionCountsPerMmGet s.motorParams)
    (hJ : 0 < jerkMmS3 * motionCountsPerMmGet s.motorParams) :
  ∃ (times : ProfileTimes ℝ) (σ D : ℝ), (σ = 1 ∨ σ = -1) ∧ 0 < D
    ∧ σ * D = (targetCounts.toInt - startCounts.toInt : ℤ)
    ∧ times.Fits D (velocityMmS * motionCountsPerMmGet s.motorParams)
      (accelerationMmS2 * motionCountsPerMmGet s.motorParams)
      (jerkMmS3 * motionCountsPerMmGet s.motorParams)
    ∧ (motionTrajectoryStart startCounts targetCounts velocityMmS accelerationMmS2 jerkMmS3
        s).2.trajectory.segment
      = (integrateSegments SegmentStart.rest
          (profileSteps σ (jerkMmS3 * motionCountsPerMmGet s.motorParams) times)).1
  := by
  obtain ⟨hσ, hD, hdistance⟩ := direction_mul_distance hne
  have hfits := planProfileTimes_fits hD hV hA hJ
  refine ⟨_, _, _, hσ, hD, hdistance, hfits, ?_⟩
  rw [motionTrajectoryStart, if_neg hne]
  dsimp only
  rw [(motionFloatIsPositive_real _).mpr hV, (motionFloatIsPositive_real _).mpr hA,
    (motionFloatIsPositive_real _).mpr hJ, transitionsValid_real hA hJ, hfits.valid]
  simp only [Bool.not_true, Bool.or_false, Bool.false_eq_true, if_false]
  split_ifs
  all_goals rfl

/-- The seven segments the planner stores are a motion from rest to rest over the distance asked
for, within the limits. -/
theorem trajectory_profile (hne : startCounts ≠ targetCounts)
    (hV : 0 < velocityMmS * motionCountsPerMmGet s.motorParams)
    (hA : 0 < accelerationMmS2 * motionCountsPerMmGet s.motorParams)
    (hJ : 0 < jerkMmS3 * motionCountsPerMmGet s.motorParams) :
  let segments := (motionTrajectoryStart startCounts targetCounts velocityMmS accelerationMmS2
    jerkMmS3 s).2.trajectory.segment
  (∃ Tj Ta Tv : ℝ, 0 < Tj ∧ 0 ≤ Ta ∧ 0 ≤ Tv
      ∧ segments.map S7Segment.durationS = [Tj, Ta, Tj, Tv, Tj, Ta, Tj])
    ∧ (∀ i segment, segments[i]? = some segment →
        segment.startTimeS = profileTime (segments.take i))
    ∧ IsProfile segments (targetCounts.toInt - startCounts.toInt : ℤ)
        (velocityMmS * motionCountsPerMmGet s.motorParams)
        (accelerationMmS2 * motionCountsPerMmGet s.motorParams)
        (jerkMmS3 * motionCountsPerMmGet s.motorParams)
  := by
  have hdelta := delta_ne_zero hne
  obtain ⟨times, σ, D, hσ, hD, hdistance, hfits, hsegments⟩ :=
    motionTrajectoryStart_segment s hdelta hV hA hJ
  dsimp only
  rw [hsegments, ← hdistance]
  refine ⟨⟨_, _, _, hfits.jerk_pos, hfits.acceleration_nonneg, hfits.velocity_nonneg, ?_⟩, ?_, ?_⟩
  · rw [durations_integrateSegments, profileSteps_real]
    rfl
  · intro i segment hi
    rw [startTime_integrateSegments _ _ hi, profileTime, List.map_take, List.map_take,
      durations_integrateSegments]
    simp [SegmentStart.rest]
  · apply hfits.isProfile hD.le hV.le hJ hσ

end Planner

/-- An axis with one count in a millimetre. -/
noncomputable def unitAxis : Motion ℝ :=
  { Motion.init with motorParams := ⟨1, 1, 1, 1, 60⟩ }

theorem motionCountsPerMmGet_unitAxis :
  motionCountsPerMmGet unitAxis.motorParams = 1
  := by
  simp [motionCountsPerMmGet, unitAxis]

theorem trajectory_profile_short :
  IsProfile (motionTrajectoryStart 0 2 1 1 2 unitAxis).2.trajectory.segment
    (Int32.toInt 2 - Int32.toInt 0 : ℤ) (1 * motionCountsPerMmGet unitAxis.motorParams)
    (1 * motionCountsPerMmGet unitAxis.motorParams)
    (2 * motionCountsPerMmGet unitAxis.motorParams)
  := by
  have hcounts := motionCountsPerMmGet_unitAxis
  apply (trajectory_profile unitAxis _ _ _ _).2.2
  · decide
  · rw [hcounts]
    norm_num
  · rw [hcounts]
    norm_num
  · rw [hcounts]
    norm_num

end EthercatMaster
