import EthercatMaster.Arith
import EthercatMaster.Pdo

/-!
# The state of the motion module

The types and the static variables of `ethercat_motion.c`: the single-slot request, the
trajectory of the current segment, the control state the public interface reports, the
reciprocation state, and the motor parameters.
-/

namespace EthercatMaster

/-- `ethercat_motion_result_t`. -/
inductive MotionResult where
  | ok
  | errParam
  | errBusy
  | errNotReady
  | errLimit
  | errState
deriving DecidableEq, Repr

/-- `ethercat_motion_mode_t`. -/
inductive MotionMode where
  | idle
  | moveAbs
  | moveRel
  | jog
  | recip
  | stop
deriving DecidableEq, Repr

/-- `motion_segment_result_t`. -/
inductive SegmentResult where
  | running
  | done
  | error
deriving DecidableEq, Repr

/-- `motion_request_action_t`. -/
inductive RequestAction where
  | actionStart
  | actionPause
  | actionContinue
  | actionAbort
deriving DecidableEq, Repr

/-- `motion_absolute_reference_t`. -/
inductive AbsoluteReference where
  | softwareZero
  | encoderZero
deriving DecidableEq, Repr

/-- `recip_stage_t`. -/
inductive RecipStage where
  | idle
  | moveOut
  | waitFirst
  | moveBack
  | waitSecond
deriving DecidableEq, Repr

/-- `motion_request_t`: the slot through which the application tasks hand a command to the
PDO task. -/
structure MotionRequest (F : Type) where
  pending : Bool
  action : RequestAction
  mode : MotionMode
  absoluteReference : AbsoluteReference
  positionMm : F
  velocityMmS : F
  accelerationMmS2 : F
  jerkMmS3 : F
  firstIntervalMs : UInt32
  secondIntervalMs : UInt32
  repeatCount : UInt32
deriving DecidableEq

/-- `motion_s7_segment_t`: the state at the start of a segment of constant jerk. -/
structure S7Segment (F : Type) where
  startTimeS : F
  durationS : F
  startPositionCounts : F
  startVelocityCountsS : F
  startAccelerationCountsS2 : F
  jerkCountsS3 : F
deriving DecidableEq

/-- `motion_trajectory_t`: the trajectory of the current motion segment. -/
structure MotionTrajectory (F : Type) where
  running : Bool
  waitingActual : Bool
  cycleIndex : UInt32
  totalCycles : UInt32
  actualStableCycles : UInt32
  startCounts : Int32
  targetCounts : Int32
  commandCounts : Int32
  totalTimeS : F
  segment : List (S7Segment F)
deriving DecidableEq

/-- `motion_control_t`: the control state. -/
structure MotionControl where
  mode : MotionMode
  busy : Bool
  done : Bool
  error : Bool
  paused : Bool
  commandCounts : Int32
  targetCounts : Int32
deriving DecidableEq, Repr

/-- `motion_recip_t`: the state of a reciprocation. -/
structure MotionRecip (F : Type) where
  active : Bool
  stage : RecipStage
  startCounts : Int32
  endCounts : Int32
  velocityMmS : F
  accelerationMmS2 : F
  jerkMmS3 : F
  firstIntervalCycles : UInt32
  secondIntervalCycles : UInt32
  waitCycles : UInt32
  repeatCount : UInt32
  completedCount : UInt32
deriving DecidableEq

/-- `motion_motor_params_t`. -/
structure MotorParams (F : Type) where
  encoderCountsPerMotorRev : F
  leadMmPerScrewRev : F
  gearRatio : F
  reducerRatio : F
  maxMotorRpm : F
deriving DecidableEq

/-- The static variables of the motion module. -/
structure Motion (F : Type) where
  motorParams : MotorParams F
  motorParamsReady : Bool
  motionInitialized : Bool
  softwareZeroCounts : Int32
  request : MotionRequest F
  trajectory : MotionTrajectory F
  control : MotionControl
  recip : MotionRecip F
deriving DecidableEq

/-- `MOTION_MS_TO_CYCLES`: milliseconds as cycles of 2 ms, rounded up. -/
def motionMsToCycles (ms : UInt32) : UInt32 :=
  ms / 2 + (if ms % 2 ≠ 0 then 1 else 0)

/-! ### Initial values -/

section Initial

variable {F : Type} [FloatArith F]

open FloatArith

/-- The initializer `{0}` of a request. -/
def MotionRequest.zero : MotionRequest F where
  pending := false
  action := .actionStart
  mode := .idle
  absoluteReference := .softwareZero
  positionMm := lit 0
  velocityMmS := lit 0
  accelerationMmS2 := lit 0
  jerkMmS3 := lit 0
  firstIntervalMs := 0
  secondIntervalMs := 0
  repeatCount := 0

/-- A segment with all fields zero. -/
def S7Segment.zero : S7Segment F where
  startTimeS := lit 0
  durationS := lit 0
  startPositionCounts := lit 0
  startVelocityCountsS := lit 0
  startAccelerationCountsS2 := lit 0
  jerkCountsS3 := lit 0

/-- The static variables after power-up. -/
def Motion.init : Motion F where
  motorParams := ⟨lit 0, lit 0, lit 0, lit 0, lit 0⟩
  motorParamsReady := false
  motionInitialized := false
  softwareZeroCounts := 0
  request := MotionRequest.zero
  trajectory :=
    { running := false
      waitingActual := false
      cycleIndex := 0
      totalCycles := 0
      actualStableCycles := 0
      startCounts := 0
      targetCounts := 0
      commandCounts := 0
      totalTimeS := lit 0
      segment := List.replicate 7 S7Segment.zero }
  control :=
    { mode := .idle
      busy := false
      done := false
      error := false
      paused := false
      commandCounts := 0
      targetCounts := 0 }
  recip :=
    { active := false
      stage := .idle
      startCounts := 0
      endCounts := 0
      velocityMmS := lit 0
      accelerationMmS2 := lit 0
      jerkMmS3 := lit 0
      firstIntervalCycles := 0
      secondIntervalCycles := 0
      waitCycles := 0
      repeatCount := 0
      completedCount := 0 }

end Initial

end EthercatMaster
