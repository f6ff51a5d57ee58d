import EthercatMaster.Motion.Units

/-!
# Trajectories

The planner `motion_trajectory_start`, which stores a profile of seven segments of constant
jerk, and `motion_segment_process`, which advances the current motion segment by one PDO cycle
and then waits for the actual position to settle.
-/

namespace EthercatMaster

open FloatArith PositiveRoots

variable {F : Type} [FloatArith F]

/-- `MOTION_PDO_PERIOD_S`. -/
def motionPdoPeriodS : F := lit 0.002

/-- `MOTION_POSITION_TOLERANCE_COUNTS`. -/
def motionPositionToleranceCounts : ℤ := 500

/-- `MOTION_POSITION_STABLE_CYCLES`. -/
def motionPositionStableCycles : UInt32 := 10

/-! ### The planner -/

/-- `jerk_sign`: the sign of the jerk in each of the seven segments. -/
def jerkSign : List F := [lit 1, lit 0, lit (-1), lit 0, lit (-1), lit 0, lit 1]

/-- The durations the planner computes. -/
structure ProfileTimes (F : Type) where
  timeJerk : F
  timeConstantAcceleration : F
  timeConstantVelocity : F

/-- The seven durations, `segment_duration`. -/
def ProfileTimes.segmentDuration {F : Type} (t : ProfileTimes F) : List F :=
  [t.timeJerk, t.timeConstantAcceleration, t.timeJerk, t.timeConstantVelocity,
    t.timeJerk, t.timeConstantAcceleration, t.timeJerk]

/-- The check of the durations before the segments are filled in. -/
def ProfileTimes.valid (t : ProfileTimes F) : Bool :=
  motionFloatIsPositive t.timeJerk && motionFloatIsFinite t.timeConstantAcceleration
    && motionFloatIsFinite t.timeConstantVelocity
    && !lt t.timeConstantAcceleration (lit 0) && !lt t.timeConstantVelocity (lit 0)

/-- The state at a segment boundary while the segments are integrated. -/
structure SegmentStart (F : Type) where
  startTime : F
  position : F
  velocity : F
  acceleration : F

/-- One round of the integration loop: the segment stored, with the jerk and the duration. -/
def SegmentStart.segment {F : Type} (x : SegmentStart F) (jerk duration : F) :
    S7Segment F where
  startTimeS := x.startTime
  durationS := duration
  startPositionCounts := x.position
  startVelocityCountsS := x.velocity
  startAccelerationCountsS2 := x.acceleration
  jerkCountsS3 := jerk

/-- One round of the integration loop: the state at the end of the segment. -/
def SegmentStart.next (x : SegmentStart F) (jerk duration : F) : SegmentStart F :=
  let duration2 := duration * duration
  let duration3 := duration2 * duration
  { startTime := x.startTime + duration
    position := x.position + (x.velocity * duration + lit 0.5 * x.acceleration * duration2
      + jerk * duration3 / lit 6)
    velocity := x.velocity + (x.acceleration * duration + lit 0.5 * jerk * duration2)
    acceleration := x.acceleration + jerk * duration }

/-- The integration loop over the jerks and durations of the segments: the segments stored
and the state at the end. -/
def integrateSegments : SegmentStart F → List (F × F) → List (S7Segment F) × SegmentStart F
  | x, [] => ([], x)
  | x, (jerk, duration) :: rest =>
      let (segments, last) := integrateSegments (x.next jerk duration) rest
      (x.segment jerk duration :: segments, last)

/-- The jerk and the duration of each segment. -/
def profileSteps (direction maxJerk : F) (t : ProfileTimes F) : List (F × F) :=
  List.zip (jerkSign.map fun sign => direction * sign * maxJerk) t.segmentDuration

/-- The state before the first segment. -/
def SegmentStart.rest : SegmentStart F := ⟨lit 0, lit 0, lit 0, lit 0⟩

/-- The number of PDO cycles that cover a time, at least one. -/
def totalCyclesOf (startTime : F) : UInt32 :=
  let totalCycles := toUInt32 (startTime / motionPdoPeriodS)
  let totalCycles :=
    if lt (ofInt totalCycles.toNat * motionPdoPeriodS) startTime then totalCycles + 1
    else totalCycles
  if totalCycles = 0 then 1 else totalCycles

section Roots

variable [PositiveRoots F]

/-- The durations for a distance under limits of velocity, acceleration and jerk. -/
def planProfileTimes (distance maxVelocity maxAcceleration maxJerk : F) : ProfileTimes F :=
  let transitionVelocity := (maxAcceleration * maxAcceleration) / maxJerk
  let transitionDistance :=
    (lit 2 * maxAcceleration * maxAcceleration * maxAcceleration) / (maxJerk * maxJerk)
  -- the acceleration phase that reaches the velocity limit
  let (timeJerk, timeConstantAcceleration) :=
    if le maxVelocity transitionVelocity then
      (positiveSqrt (maxVelocity / maxJerk), lit 0)
    else
      (maxAcceleration / maxJerk, maxVelocity / maxAcceleration - maxAcceleration / maxJerk)
  let velocityProfileDistance :=
    maxVelocity * (lit 2 * timeJerk + timeConstantAcceleration)
  if le velocityProfileDistance distance then
    ⟨timeJerk, timeConstantAcceleration, (distance - velocityProfileDistance) / maxVelocity⟩
  else if le transitionVelocity maxVelocity && le transitionDistance distance then
    -- the distance allows the acceleration limit but not the velocity limit
    let timeJerk := maxAcceleration / maxJerk
    let timeConstantAcceleration :=
      (positiveSqrt (timeJerk * timeJerk + lit 4 * distance / maxAcceleration)
        - lit 3 * timeJerk) / lit 2
    ⟨timeJerk,
      if lt timeConstantAcceleration (lit 0) then lit 0 else timeConstantAcceleration, lit 0⟩
  else
    ⟨positiveCbrt (distance / (lit 2 * maxJerk)), lit 0, lit 0⟩

/-- The two derived limits are positive. -/
def transitionsValid (maxAcceleration maxJerk : F) : Bool :=
  motionFloatIsPositive ((maxAcceleration * maxAcceleration) / maxJerk)
    && motionFloatIsPositive
      ((lit 2 * maxAcceleration * maxAcceleration * maxAcceleration) / (maxJerk * maxJerk))

/-- `motion_trajectory_start`: a segment of no length only waits for the actual position;
otherwise the seven segments are stored and the trajectory starts running.  The segments are
stored before the last two checks, so that an error may leave them changed. -/
def motionTrajectoryStart (startCounts targetCounts : Int32)
    (velocityMmS accelerationMmS2 jerkMmS3 : F) (s : Motion F) : MotionResult × Motion F :=
  let delta := targetCounts.toInt - startCounts.toInt
  if delta = 0 then
    (.ok,
      { s with
        trajectory :=
          { s.trajectory with
            running := false
            waitingActual := true
            actualStableCycles := 0
            startCounts := startCounts
            targetCounts := targetCounts
            commandCounts := targetCounts
            totalTimeS := lit 0 }
        control :=
          { s.control with commandCounts := targetCounts, targetCounts := targetCounts } })
  else
    let direction : F := if 0 < delta then lit 1 else lit (-1)
    let distance : F := if 0 < delta then ofInt delta else ofInt (-delta)
    let maxVelocity := velocityMmS * motionCountsPerMmGet s.motorParams
    let maxAcceleration := accelerationMmS2 * motionCountsPerMmGet s.motorParams
    let maxJerk := jerkMmS3 * motionCountsPerMmGet s.motorParams
    if !motionFloatIsPositive maxVelocity || !motionFloatIsPositive maxAcceleration
        || !motionFloatIsPositive maxJerk then
      (.errLimit, s)
    else if !transitionsValid maxAcceleration maxJerk then
      (.errLimit, s)
    else
      let times := planProfileTimes distance maxVelocity maxAcceleration maxJerk
      if !times.valid then
        (.errLimit, s)
      else
        let (segments, last) :=
          integrateSegments SegmentStart.rest (profileSteps direction maxJerk times)
        let s := { s with trajectory := { s.trajectory with segment := segments } }
        let startTime := last.startTime
        let cyclesFloat := startTime / motionPdoPeriodS
        if !motionFloatIsPositive startTime then
          (.errLimit, s)
        else if !motionFloatIsFinite cyclesFloat || le uint32Max cyclesFloat then
          (.errLimit, s)
        else
          (.ok,
            { s with
              trajectory :=
                { s.trajectory with
                  running := true
                  waitingActual := false
                  cycleIndex := 0
                  totalCycles := totalCyclesOf startTime
                  actualStableCycles := 0
                  startCounts := startCounts
                  targetCounts := targetCounts
                  commandCounts := startCounts
                  totalTimeS := startTime }
              control :=
                { s.control with commandCounts := startCounts, targetCounts := targetCounts } })

end Roots

/-! ### The motion segment -/

/-- The segment a time falls into: the first of positive duration that has not ended, or the
last one. -/
def segmentAt (segments : List (S7Segment F)) (elapsedTime : F) : S7Segment F :=
  (segments.find? fun segment =>
    lt (lit 0) segment.durationS && le elapsedTime (segment.startTimeS + segment.durationS)).getD
    (segments.getLastD S7Segment.zero)

/-- The displacement in a segment at a time of the trajectory. -/
def S7Segment.relativePosition (segment : S7Segment F) (elapsedTime : F) : F :=
  let time := elapsedTime - segment.startTimeS
  let segmentTime :=
    if lt time (lit 0) then lit 0
    else if lt segment.durationS time then segment.durationS
    else time
  let segmentTime2 := segmentTime * segmentTime
  let segmentTime3 := segmentTime2 * segmentTime
  segment.startPositionCounts + segment.startVelocityCountsS * segmentTime
    + lit 0.5 * segment.startAccelerationCountsS2 * segmentTime2
    + segment.jerkCountsS3 * segmentTime3 / lit 6

/-- The position of a trajectory, kept between its start and its target. -/
def clampCommand (startCounts targetCounts : Int32) (commandFloat : F) : F :=
  if startCounts.toInt ≤ targetCounts.toInt then
    if lt commandFloat (ofInt startCounts.toInt) then ofInt startCounts.toInt
    else if lt (ofInt targetCounts.toInt) commandFloat then ofInt targetCounts.toInt
    else commandFloat
  else
    if lt (ofInt startCounts.toInt) commandFloat then ofInt startCounts.toInt
    else if lt commandFloat (ofInt targetCounts.toInt) then ofInt targetCounts.toInt
    else commandFloat

/-- Rounding to the nearest integer. -/
def roundCommand (commandFloat : F) : Int32 :=
  if le (lit 0) commandFloat then toInt32 (commandFloat + lit 0.5)
  else toInt32 (commandFloat - lit 0.5)

/-- The commanded position at the cycle a trajectory has reached. -/
def MotionTrajectory.sample (t : MotionTrajectory F) : Int32 :=
  let time : F := ofInt t.cycleIndex.toNat * motionPdoPeriodS
  let elapsedTime := if lt t.totalTimeS time then t.totalTimeS else time
  let relativePosition := (segmentAt t.segment elapsedTime).relativePosition elapsedTime
  roundCommand
    (clampCommand t.startCounts t.targetCounts (ofInt t.startCounts.toInt + relativePosition))

/-- The first part of `motion_segment_process`, entered while the trajectory is running: the
position command of this cycle.  The last cycle commands the target and starts waiting for the
actual position. -/
def motionSegmentAdvance (s : Motion F) : Motion F :=
  let t := s.trajectory
  let t := if t.cycleIndex < t.totalCycles then { t with cycleIndex := t.cycleIndex + 1 } else t
  let t := { t with commandCounts := t.sample }
  let t :=
    if t.totalCycles ≤ t.cycleIndex then
      { t with
        commandCounts := t.targetCounts
        running := false
        waitingActual := true
        actualStableCycles := 0 }
    else t
  { s with
    trajectory := t
    control := { s.control with commandCounts := t.commandCounts } }

/-- The actual position is within the tolerance of the target. -/
def inPosition (input : PdoInput) (targetCounts : Int32) : Bool :=
  ((input.currentPosition.toInt - targetCounts.toInt).natAbs : ℤ) ≤ motionPositionToleranceCounts

/-- The second part of `motion_segment_process`: the confirmation of the actual position. -/
def motionSegmentConfirm {F : Type} (input : PdoInput) (s : Motion F) :
    SegmentResult × Motion F :=
  if !s.trajectory.waitingActual then
    (.running, s)
  else if inPosition input s.trajectory.targetCounts then
    let stable := s.trajectory.actualStableCycles + 1
    let s := { s with trajectory := { s.trajectory with actualStableCycles := stable } }
    if motionPositionStableCycles ≤ stable then
      (.done, { s with trajectory := { s.trajectory with waitingActual := false } })
    else
      (.running, s)
  else
    (.running, { s with trajectory := { s.trajectory with actualStableCycles := 0 } })

/-- `motion_segment_process`: one PDO cycle of the current motion segment. -/
def motionSegmentProcess (input : PdoInput) (s : Motion F) : SegmentResult × Motion F :=
  motionSegmentConfirm input (if s.trajectory.running then motionSegmentAdvance s else s)

end EthercatMaster
