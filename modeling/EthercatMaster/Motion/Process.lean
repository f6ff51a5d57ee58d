import EthercatMaster.Motion.Trajectory

/-!
# The motion scheduler

`ethercat_motion_process`, which the PDO task calls in every cycle: it takes a request from
the slot, applies it, advances the current motion by one cycle and writes the target position.
-/

namespace EthercatMaster

variable {F : Type} [FloatArith F] [PositiveRoots F]

/-! ### Ends of a motion -/

/-- `motion_abort_apply`. -/
def motionAbortApply {F : Type} (input : PdoInput) (s : Motion F) : Motion F :=
  { s with
    trajectory := { s.trajectory with running := false, waitingActual := false }
    recip := { s.recip with active := false, stage := .idle }
    control :=
      { mode := .stop
        commandCounts := input.currentPosition
        targetCounts := input.currentPosition
        busy := false
        done := true
        error := false
        paused := false } }

/-- `motion_finish_success`. -/
def motionFinishSuccess {F : Type} (s : Motion F) : Motion F :=
  { s with
    control :=
      { s.control with
        mode := .idle, busy := false, done := true, error := false, paused := false } }

/-- `motion_finish_error`. -/
def motionFinishError {F : Type} (input : PdoInput) (s : Motion F) : Motion F :=
  { s with
    trajectory := { s.trajectory with running := false, waitingActual := false }
    recip := { s.recip with active := false, stage := .idle }
    control :=
      { mode := .stop
        commandCounts := input.currentPosition
        targetCounts := input.currentPosition
        busy := false
        done := false
        error := true
        paused := false } }

/-! ### Starts of a motion -/

/-- The control state of a motion that has just been started. -/
def MotionControl.begin (c : MotionControl) (mode : MotionMode) : MotionControl :=
  { c with mode := mode, busy := true, done := false, error := false, paused := false }

/-- `motion_single_start`. -/
def motionSingleStart (input : PdoInput) (request : MotionRequest F) (s : Motion F) :
    MotionResult × Motion F :=
  match motionPositionTargetGet input s request.mode request.absoluteReference
      request.positionMm with
  | .error result => (result, s)
  | .ok targetCounts =>
      match motionTrajectoryStart s.control.commandCounts targetCounts request.velocityMmS
          request.accelerationMmS2 request.jerkMmS3 s with
      | (.ok, s) => (.ok, { s with control := s.control.begin request.mode })
      | (result, s) => (result, s)

/-- `motion_recip_move_start`: one leg of a reciprocation, from the commanded position. -/
def motionRecipMoveStart (targetCounts : Int32) (s : Motion F) : MotionResult × Motion F :=
  motionTrajectoryStart s.control.commandCounts targetCounts s.recip.velocityMmS
    s.recip.accelerationMmS2 s.recip.jerkMmS3 s

/-- The reciprocation state a request sets up, from the actual position to an end. -/
def MotionRecip.ofRequest {F : Type} (request : MotionRequest F)
    (startCounts endCounts : Int32) : MotionRecip F where
  active := true
  stage := .moveOut
  startCounts := startCounts
  endCounts := endCounts
  velocityMmS := request.velocityMmS
  accelerationMmS2 := request.accelerationMmS2
  jerkMmS3 := request.jerkMmS3
  firstIntervalCycles := motionMsToCycles request.firstIntervalMs
  secondIntervalCycles := motionMsToCycles request.secondIntervalMs
  waitCycles := 0
  repeatCount := request.repeatCount
  completedCount := 0

/-- `motion_recip_start_internal`. -/
def motionRecipStartInternal (input : PdoInput) (request : MotionRequest F) (s : Motion F) :
    MotionResult × Motion F :=
  match motionMmToCounts s.motorParams request.positionMm with
  | .error result => (result, s)
  | .ok offsetCounts =>
      if offsetCounts = 0 then
        (.errParam, s)
      else
        match countsOfInt64 (input.currentPosition.toInt + offsetCounts.toInt) with
        | .error result => (result, s)
        | .ok endCounts =>
            let s := { s with
              recip := MotionRecip.ofRequest request input.currentPosition endCounts }
            match motionRecipMoveStart endCounts s with
            | (.ok, s) => (.ok, { s with control := s.control.begin .recip })
            | (result, s) =>
                (result, { s with recip := { s.recip with active := false, stage := .idle } })

/-! ### Reciprocation -/

/-- A leg is started and the stage entered; a failure ends the motion. -/
def motionRecipLeg (input : PdoInput) (targetCounts : Int32) (stage : RecipStage)
    (s : Motion F) : Motion F :=
  match motionRecipMoveStart targetCounts s with
  | (.ok, s) => { s with recip := { s.recip with stage := stage } }
  | (_, s) => motionFinishError input s

/-- The dwell after a leg: a wait of so many cycles, or the next leg at once. -/
def motionRecipDwell (input : PdoInput) (cycles : UInt32) (wait : RecipStage)
    (targetCounts : Int32) (next : RecipStage) (s : Motion F) : Motion F :=
  if 0 < cycles then
    { s with recip := { s.recip with waitCycles := cycles, stage := wait } }
  else
    motionRecipLeg input targetCounts next s

/-- One cycle of a wait: the next leg starts when no cycles are left. -/
def motionRecipWait (input : PdoInput) (targetCounts : Int32) (next : RecipStage)
    (s : Motion F) : Motion F :=
  let left := if 0 < s.recip.waitCycles then s.recip.waitCycles - 1 else s.recip.waitCycles
  let s := { s with recip := { s.recip with waitCycles := left } }
  if left = 0 then motionRecipLeg input targetCounts next s else s

/-- `motion_recip_process`: one cycle of a reciprocation. -/
def motionRecipProcess (input : PdoInput) (s : Motion F) : Motion F :=
  match s.recip.stage with
  | .moveOut =>
      match motionSegmentProcess input s with
      | (.done, s) =>
          motionRecipDwell input s.recip.firstIntervalCycles .waitFirst s.recip.startCounts
            .moveBack s
      | (_, s) => s
  | .waitFirst => motionRecipWait input s.recip.startCounts .moveBack s
  | .moveBack =>
      match motionSegmentProcess input s with
      | (.done, s) =>
          let s := { s with
            recip := { s.recip with completedCount := s.recip.completedCount + 1 } }
          -- a repeat count of zero stands for `ETHERCAT_MOTION_RECIP_FOREVER`
          if s.recip.repeatCount ≠ 0 ∧ s.recip.repeatCount ≤ s.recip.completedCount then
            motionFinishSuccess { s with recip := { s.recip with active := false, stage := .idle } }
          else
            motionRecipDwell input s.recip.secondIntervalCycles .waitSecond s.recip.endCounts
              .moveOut s
      | (_, s) => s
  | .waitSecond => motionRecipWait input s.recip.endCounts .moveOut s
  | .idle => motionFinishError input s

/-! ### Requests -/

/-- A start that comes while a motion is paused gives that motion up; the commanded position
stays. -/
def motionDropPaused {F : Type} (s : Motion F) : Motion F :=
  if s.control.paused then
    { s with
      trajectory := { s.trajectory with running := false, waitingActual := false }
      recip := { s.recip with active := false, stage := .idle }
      control := { s.control with paused := false } }
  else s

/-- The start of the motion a request describes. -/
def motionStart (input : PdoInput) (request : MotionRequest F) (s : Motion F) :
    MotionResult × Motion F :=
  if request.mode = .recip then motionRecipStartInternal input request s
  else motionSingleStart input request s

/-- `motion_request_apply`. -/
def motionRequestApply (input : PdoInput) (request : MotionRequest F) (s : Motion F) :
    Motion F :=
  match request.action with
  | .actionPause =>
      if s.control.busy then
        { s with
          control :=
            { s.control with busy := true, paused := true, done := false, error := false } }
      else
        motionAbortApply input s
  | .actionContinue =>
      if s.control.busy && s.control.paused then
        { s with
          control :=
            { s.control with busy := true, paused := false, done := false, error := false } }
      else s
  | .actionAbort => motionAbortApply input s
  | .actionStart =>
      match motionStart input request (motionDropPaused s) with
      | (.ok, s) => s
      | (_, s) => motionFinishError input s

/-! ### The scheduler -/

/-- `motion_closed_loop_correction_get`: the axis runs in open loop. -/
def motionClosedLoopCorrectionGet : Int32 := 0

/-- `motion_target_output_write`: the sum of command and correction, limited to the range of
`int32_t`. -/
def motionTargetOutputWrite {F : Type} (s : Motion F) (output : PdoOutput) : PdoOutput :=
  let target := s.control.commandCounts.toInt + motionClosedLoopCorrectionGet.toInt
  let target :=
    if Int32.maxValue.toInt < target then Int32.maxValue.toInt
    else if target < Int32.minValue.toInt then Int32.minValue.toInt
    else target
  { output with targetPos := Int32.ofInt target }

/-- The first call takes over the actual position as commanded position. -/
def motionAlign {F : Type} (input : PdoInput) (s : Motion F) : Motion F :=
  if s.motionInitialized then s
  else
    { s with
      control :=
        { s.control with
          commandCounts := input.currentPosition, targetCounts := input.currentPosition }
      motionInitialized := true }

/-- The request in the slot is taken out and applied. -/
def motionServe (input : PdoInput) (s : Motion F) : Motion F :=
  match motionRequestFetch s with
  | (some request, s) => motionRequestApply input request s
  | (none, s) => s

/-- A motion that is busy and not paused advances by one cycle. -/
def motionAdvance (input : PdoInput) (s : Motion F) : Motion F :=
  if s.control.busy && !s.control.paused then
    if s.control.mode = .recip then
      motionRecipProcess input s
    else
      match motionSegmentProcess input s with
      | (.done, s) => motionFinishSuccess s
      | (.error, s) => motionFinishError input s
      | (.running, s) => s
  else s

/-- The state a call of the scheduler leaves, from the areas of the first axis. -/
def motionUpdate (input : PdoInput) (s : Motion F) : Motion F :=
  if input.servoReady then
    motionAdvance input (motionServe input (motionAlign input s))
  else
    motionAlign input s

/-- `ethercat_motion_process`. -/
def ethercatMotionProcess (area : PdoArea) (s : Motion F) : PdoArea × Motion F :=
  match area.input1s, area.output1s with
  | some input, some output =>
      let s := motionUpdate input s
      let output := { output with opModeSet := 8, targetVelocity := 0 }
      ({ area with output1s := some (motionTargetOutputWrite s output) }, s)
  | _, _ => (area, s)

end EthercatMaster
