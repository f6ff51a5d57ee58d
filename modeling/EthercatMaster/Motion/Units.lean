import EthercatMaster.Motion.Types

/-!
# Units, targets and the request slot

Conversion between millimetres and encoder counts, the target position of a request, the
validation of a request, and the submission to and removal from the request slot.
-/

namespace EthercatMaster

open FloatArith

variable {F : Type} [FloatArith F]

/-! ### Units -/

/-- `motion_counts_per_mm_get`. -/
def motionCountsPerMmGet (p : MotorParams F) : F :=
  (p.encoderCountsPerMotorRev * p.gearRatio * p.reducerRatio) / p.leadMmPerScrewRev

/-- `motion_max_linear_velocity_mm_s_get`. -/
def motionMaxLinearVelocityMmSGet (p : MotorParams F) : F :=
  let screwRps := (p.maxMotorRpm / lit 60) / (p.gearRatio * p.reducerRatio)
  screwRps * p.leadMmPerScrewRev

/-- `motion_mm_to_counts`: the counts of a position or offset, or the error returned. -/
def motionMmToCounts (p : MotorParams F) (positionMm : F) : Except MotionResult Int32 :=
  if !motionFloatIsFinite positionMm then
    .error .errParam
  else
    let countsFloat := positionMm * motionCountsPerMmGet p
    if lt int32Max countsFloat || lt countsFloat int32Min then
      .error .errLimit
    else if le (lit 0) countsFloat then
      .ok (toInt32 (countsFloat + lit 0.5))
    else
      .ok (toInt32 (countsFloat - lit 0.5))

/-- The result of a 64-bit sum of counts: the sum if it is an `int32_t`, or the error
`ETHERCAT_MOTION_ERR_LIMIT`. -/
def countsOfInt64 (sum : ℤ) : Except MotionResult Int32 :=
  if Int32.maxValue.toInt < sum ∨ sum < Int32.minValue.toInt then
    .error .errLimit
  else
    .ok (Int32.ofInt sum)

/-- `motion_position_target_get`: the absolute target of a move.  The scheduler has already
checked that `input1s` is not null. -/
def motionPositionTargetGet (input : PdoInput) (s : Motion F) (mode : MotionMode)
    (absoluteReference : AbsoluteReference) (positionMm : F) : Except MotionResult Int32 :=
  if mode ≠ .moveAbs ∧ mode ≠ .moveRel ∧ mode ≠ .jog then
    .error .errParam
  else
    match motionMmToCounts s.motorParams positionMm with
    | .error result => .error result
    | .ok offsetCounts =>
        if mode = .moveAbs then
          match absoluteReference with
          | .softwareZero => countsOfInt64 (s.softwareZeroCounts.toInt + offsetCounts.toInt)
          | .encoderZero => countsOfInt64 offsetCounts.toInt
        else
          countsOfInt64 (input.currentPosition.toInt + offsetCounts.toInt)

/-! ### The request slot -/

/-- `motion_request_validate`. -/
def motionRequestValidate (s : Motion F) (mode : MotionMode)
    (velocityMmS accelerationMmS2 jerkMmS3 : F) : MotionResult :=
  if !s.motorParamsReady then
    .errNotReady
  else if mode ≠ .moveAbs ∧ mode ≠ .moveRel ∧ mode ≠ .jog ∧ mode ≠ .recip then
    .errParam
  else if !motionFloatIsPositive velocityMmS || !motionFloatIsPositive accelerationMmS2
      || !motionFloatIsPositive jerkMmS3 then
    .errParam
  else if lt (motionMaxLinearVelocityMmSGet s.motorParams) velocityMmS then
    .errLimit
  else
    .ok

/-- `motion_request_submit`: the critical section that fills the slot. -/
def motionRequestSubmit {F : Type} (request : MotionRequest F) (s : Motion F) :
    MotionResult × Motion F :=
  if s.request.pending || (s.control.busy && !s.control.paused) then
    (.errBusy, s)
  else
    (.ok, { s with request := { request with pending := true } })

/-- `motion_request_fetch`: the critical section that empties the slot. -/
def motionRequestFetch {F : Type} (s : Motion F) : Option (MotionRequest F) × Motion F :=
  if s.request.pending then
    (some s.request, { s with request := { s.request with pending := false } })
  else
    (none, s)

end EthercatMaster
