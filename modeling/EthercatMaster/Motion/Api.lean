import EthercatMaster.Motion.Process

/-!
# The public interface of the motion module

The functions the application tasks call.  A function that starts a motion first validates its
arguments, outside any critical section, and then submits a request; `StartCall` are the calls
of these functions.  The other functions are one critical section each.
-/

namespace EthercatMaster

open FloatArith

variable {F : Type} [FloatArith F]

/-- `ethercat_motion_motor_params_set`. -/
def ethercatMotionMotorParamsSet (p : MotorParams F) (s : Motion F) : MotionResult × Motion F :=
  if !motionFloatIsPositive p.encoderCountsPerMotorRev
      || !motionFloatIsPositive p.leadMmPerScrewRev || !motionFloatIsPositive p.gearRatio
      || !motionFloatIsPositive p.reducerRatio || !motionFloatIsPositive p.maxMotorRpm then
    (.errParam, s)
  else if !motionFloatIsPositive (motionCountsPerMmGet p)
      || !motionFloatIsPositive (motionMaxLinearVelocityMmSGet p) then
    (.errLimit, s)
  else if s.control.busy || s.request.pending then
    (.errBusy, s)
  else
    (.ok, { s with motorParams := p, motorParamsReady := true })

/-- `ethercat_motion_software_zero_set`. -/
def ethercatMotionSoftwareZeroSet {F : Type} (area : PdoArea) (s : Motion F) :
    MotionResult × Motion F :=
  match area.input1s, area.output1s with
  | some input, some _ =>
      if !s.motionInitialized || !input.servoReady then
        (.errNotReady, s)
      else if s.request.pending || s.control.busy then
        (.errBusy, s)
      else
        (.ok, { s with softwareZeroCounts := input.currentPosition })
  | _, _ => (.errNotReady, s)

/-- `ethercat_motion_stop`. -/
def ethercatMotionStop {F : Type} (s : Motion F) : MotionResult × Motion F :=
  if s.request.pending then
    (.errBusy, s)
  else if !s.control.busy || s.control.paused then
    (.errState, s)
  else
    (.ok, { s with
      request := { s.request with action := .actionPause, mode := .stop, pending := true } })

/-- `ethercat_motion_continue`. -/
def ethercatMotionContinue {F : Type} (s : Motion F) : MotionResult × Motion F :=
  if s.request.pending then
    (.errBusy, s)
  else if !s.control.busy || !s.control.paused then
    (.errState, s)
  else
    (.ok, { s with
      request := { s.request with action := .actionContinue, mode := .stop, pending := true } })

/-- `ethercat_motion_abort`. -/
def ethercatMotionAbort {F : Type} (s : Motion F) : MotionResult × Motion F :=
  if !s.request.pending && !s.control.busy then
    (.errState, s)
  else
    (.ok, { s with
      request := { s.request with action := .actionAbort, mode := .stop, pending := true } })

/-! ### Calls that start a motion -/

/-- `ETHERCAT_MOTION_ZERO_RETURN_VELOCITY_MM_S`. -/
def zeroReturnVelocityMmS : F := lit 10

/-- `ETHERCAT_MOTION_ZERO_RETURN_ACCELERATION_MM_S2`. -/
def zeroReturnAccelerationMmS2 : F := lit 10

/-- `ETHERCAT_MOTION_ZERO_RETURN_JERK_MM_S3`. -/
def zeroReturnJerkMmS3 : F := lit 500

/-- A call of `ethercat_motion_command_set`, `ethercat_motion_mechanical_zero_return` or
`ethercat_motion_recip_start`, with its arguments. -/
inductive StartCall (F : Type) where
  | commandSet (mode : MotionMode) (positionMm velocityMmS accelerationMmS2 jerkMmS3 : F)
  | mechanicalZeroReturn
  | recipStart (offsetMm velocityMmS accelerationMmS2 jerkMmS3 : F)
      (firstIntervalMs secondIntervalMs repeatCount : UInt32)

/-- The checks a call makes before it submits its request. -/
def StartCall.validate (s : Motion F) : StartCall F → MotionResult
  | .commandSet mode _ velocityMmS accelerationMmS2 jerkMmS3 =>
      match motionRequestValidate s mode velocityMmS accelerationMmS2 jerkMmS3 with
      | .ok => if mode ≠ .moveAbs ∧ mode ≠ .moveRel ∧ mode ≠ .jog then .errParam else .ok
      | result => result
  | .mechanicalZeroReturn =>
      motionRequestValidate s .moveAbs zeroReturnVelocityMmS zeroReturnAccelerationMmS2
        zeroReturnJerkMmS3
  | .recipStart _ velocityMmS accelerationMmS2 jerkMmS3 _ _ _ =>
      motionRequestValidate s .recip velocityMmS accelerationMmS2 jerkMmS3

/-- The request a call submits. -/
def StartCall.request : StartCall F → MotionRequest F
  | .commandSet mode positionMm velocityMmS accelerationMmS2 jerkMmS3 =>
      { (MotionRequest.zero : MotionRequest F) with
        action := .actionStart
        mode := mode
        absoluteReference := .softwareZero
        positionMm := positionMm
        velocityMmS := velocityMmS
        accelerationMmS2 := accelerationMmS2
        jerkMmS3 := jerkMmS3 }
  | .mechanicalZeroReturn =>
      { (MotionRequest.zero : MotionRequest F) with
        action := .actionStart
        mode := .moveAbs
        absoluteReference := .encoderZero
        positionMm := lit 0
        velocityMmS := zeroReturnVelocityMmS
        accelerationMmS2 := zeroReturnAccelerationMmS2
        jerkMmS3 := zeroReturnJerkMmS3 }
  | .recipStart offsetMm velocityMmS accelerationMmS2 jerkMmS3 firstIntervalMs secondIntervalMs
      repeatCount =>
      { (MotionRequest.zero : MotionRequest F) with
        mode := .recip
        positionMm := offsetMm
        velocityMmS := velocityMmS
        accelerationMmS2 := accelerationMmS2
        jerkMmS3 := jerkMmS3
        firstIntervalMs := firstIntervalMs
        secondIntervalMs := secondIntervalMs
        repeatCount := repeatCount }

/-- A call that is not interrupted between its checks and its submission. -/
def StartCall.execute (call : StartCall F) (s : Motion F) : MotionResult × Motion F :=
  match call.validate s with
  | .ok => motionRequestSubmit call.request s
  | result => (result, s)

/-- `ethercat_motion_command_set`. -/
def ethercatMotionCommandSet (mode : MotionMode)
    (positionMm velocityMmS accelerationMmS2 jerkMmS3 : F) (s : Motion F) :
    MotionResult × Motion F :=
  (StartCall.commandSet mode positionMm velocityMmS accelerationMmS2 jerkMmS3).execute s

/-- `ethercat_motion_mechanical_zero_return`. -/
def ethercatMotionMechanicalZeroReturn (s : Motion F) : MotionResult × Motion F :=
  StartCall.mechanicalZeroReturn.execute s

/-- `ethercat_motion_software_zero_return`: a command to the position zero. -/
def ethercatMotionSoftwareZeroReturn (s : Motion F) : MotionResult × Motion F :=
  ethercatMotionCommandSet .moveAbs (lit 0) zeroReturnVelocityMmS zeroReturnAccelerationMmS2
    zeroReturnJerkMmS3 s

/-- `ethercat_motion_recip_start`. -/
def ethercatMotionRecipStart (offsetMm velocityMmS accelerationMmS2 jerkMmS3 : F)
    (firstIntervalMs secondIntervalMs repeatCount : UInt32) (s : Motion F) :
    MotionResult × Motion F :=
  (StartCall.recipStart offsetMm velocityMmS accelerationMmS2 jerkMmS3 firstIntervalMs
    secondIntervalMs repeatCount).execute s

end EthercatMaster
