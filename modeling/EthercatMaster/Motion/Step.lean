import EthercatMaster.Motion.System

/-!
# What the operations of the motion module can do

For each operation of the module, the states it can leave.  The later modules use these
results and never unfold the operations.
-/

namespace EthercatMaster

variable {F : Type} [FloatArith F]

/-! ### The planner -/

/-- A trajectory that has just been planned from one position to another: it is running and
has not made a cycle, or the two positions agree and it only waits. -/
structure MotionTrajectory.Fresh {F : Type} (t : MotionTrajectory F)
    (startCounts targetCounts : Int32) : Prop where
  start : t.startCounts = startCounts
  target : t.targetCounts = targetCounts
  stable : t.actualStableCycles = 0
  flags : (t.running = true ∧ t.waitingActual = false ∧ t.cycleIndex = 0 ∧ 0 < t.totalCycles)
    ∨ (t.running = false ∧ t.waitingActual = true ∧ startCounts = targetCounts)

/-- A count of which zero is replaced by one is positive. -/
theorem pos_of_replaced_zero (n : UInt32) :
  0 < if n = 0 then 1 else n
  := by
  by_cases h : n = 0
  · rw [if_pos h]
    decide
  · rw [if_neg h]
    apply UInt32.pos_iff_ne_zero.mpr h

/-- The number of cycles of a trajectory is positive. -/
theorem totalCyclesOf_pos (startTime : F) :
  0 < totalCyclesOf startTime
  := by
  apply pos_of_replaced_zero

/-- Whether the planner succeeds depends on the motor parameters only. -/
theorem motionTrajectoryStart_result [PositiveRoots F] {s s' : Motion F}
    (h : s.motorParams = s'.motorParams) (startCounts targetCounts : Int32)
    (velocityMmS accelerationMmS2 jerkMmS3 : F) :
  (motionTrajectoryStart startCounts targetCounts velocityMmS accelerationMmS2 jerkMmS3 s).1
    = (motionTrajectoryStart startCounts targetCounts velocityMmS accelerationMmS2 jerkMmS3 s').1
  := by
  rw [motionTrajectoryStart, motionTrajectoryStart]
  dsimp only
  rw [h]
  split_ifs
  all_goals rfl

/-- The planner leaves a fresh trajectory and the commanded position at its start, or it fails
and changes no more than the stored segments. -/
theorem motionTrajectoryStart_cases [PositiveRoots F] (startCounts targetCounts : Int32)
    (velocityMmS accelerationMmS2 jerkMmS3 : F) (s : Motion F) :
  (∃ t : MotionTrajectory F, t.Fresh startCounts targetCounts ∧
      motionTrajectoryStart startCounts targetCounts velocityMmS accelerationMmS2 jerkMmS3 s
        = (.ok, { s with
            trajectory := t
            control :=
              { s.control with commandCounts := startCounts, targetCounts := targetCounts } }))
    ∨ ∃ segments : List (S7Segment F),
      motionTrajectoryStart startCounts targetCounts velocityMmS accelerationMmS2 jerkMmS3 s
        = (.errLimit, { s with trajectory := { s.trajectory with segment := segments } })
  := by
  rw [motionTrajectoryStart]
  by_cases hdelta : targetCounts.toInt - startCounts.toInt = 0
  · have hcounts : startCounts = targetCounts := by
      apply Int32.toInt_inj.mp
      omega
    left
    subst hcounts
    rw [if_pos hdelta]
    exact ⟨_, ⟨rfl, rfl, rfl, Or.inr ⟨rfl, rfl, rfl⟩⟩, rfl⟩
  · rw [if_neg hdelta]
    extract_lets direction distance maxVelocity maxAcceleration maxJerk times
    split
    · right
      use s.trajectory.segment
    split
    · right
      use s.trajectory.segment
    split
    · right
      use s.trajectory.segment
    dsimp only
    split
    · right
      exact ⟨_, rfl⟩
    split
    · right
      exact ⟨_, rfl⟩
    · left
      exact ⟨_, ⟨rfl, rfl, rfl, Or.inl ⟨rfl, rfl, rfl, totalCyclesOf_pos _⟩⟩, rfl⟩

/-! ### The motion segment -/

section Segment

variable {F : Type}

/-- A trajectory in progress: it is running, with cycles left, or it waits for the actual
position. -/
def MotionTrajectory.Active (t : MotionTrajectory F) : Prop :=
  (t.running = true ∧ t.waitingActual = false ∧ t.cycleIndex < t.totalCycles)
    ∨ (t.running = false ∧ t.waitingActual = true)

/-- A trajectory that is neither running nor waiting. -/
def MotionTrajectory.Still (t : MotionTrajectory F) : Prop :=
  t.running = false ∧ t.waitingActual = false

/-- A fresh trajectory is in progress. -/
theorem MotionTrajectory.Fresh.active {t : MotionTrajectory F} {startCounts targetCounts : Int32}
    (h : t.Fresh startCounts targetCounts) :
  t.Active
  := by
  rcases h.flags with ⟨hr, hw, hi, hn⟩ | ⟨hr, hw, -⟩
  · left
    rw [hi]
    exact ⟨hr, hw, hn⟩
  · right
    exact ⟨hr, hw⟩

/-- The motion with the trajectory and the commanded position replaced. -/
def Motion.follow (s : Motion F) (t : MotionTrajectory F) (commandCounts : Int32) : Motion F :=
  { s with trajectory := t, control := { s.control with commandCounts := commandCounts } }

/-- The trajectory after its last cycle. -/
def MotionTrajectory.arrived (t : MotionTrajectory F) : MotionTrajectory F :=
  { t with
    cycleIndex := t.cycleIndex + 1
    commandCounts := t.targetCounts
    running := false
    waitingActual := true
    actualStableCycles := 0 }

/-- The state in which the actual position is examined: a running trajectory has just made its
last cycle. -/
def Motion.arrived (s : Motion F) : Motion F :=
  if s.trajectory.running then s.follow s.trajectory.arrived s.trajectory.targetCounts else s

/-- The motion with the count of stable cycles and the waiting flag replaced. -/
def Motion.confirm (s : Motion F) (stable : UInt32) (waiting : Bool) : Motion F :=
  { s with
    trajectory := { s.trajectory with actualStableCycles := stable, waitingActual := waiting } }

/-- What `motion_segment_process` does to a trajectory in progress: it moves on by one cycle
that is not the last, or the actual position is examined, and is found out of position, in
position with further cycles to confirm, or in position for the last time needed. -/
inductive SegmentStep (input : PdoInput) (s : Motion F) : SegmentResult × Motion F → Prop where
  | moving (c : Int32) (running : s.trajectory.running = true)
      (left : s.trajectory.cycleIndex + 1 < s.trajectory.totalCycles) :
      SegmentStep input s (.running,
        s.follow
          { s.trajectory with cycleIndex := s.trajectory.cycleIndex + 1, commandCounts := c } c)
  | unsettled (out : inPosition input s.trajectory.targetCounts = false) :
      SegmentStep input s (.running, s.arrived.confirm 0 true)
  | settling (settled : inPosition input s.trajectory.targetCounts = true)
      (left : s.arrived.trajectory.actualStableCycles + 1 < motionPositionStableCycles) :
      SegmentStep input s
        (.running, s.arrived.confirm (s.arrived.trajectory.actualStableCycles + 1) true)
  | settled (settled : inPosition input s.trajectory.targetCounts = true)
      (last : motionPositionStableCycles ≤ s.arrived.trajectory.actualStableCycles + 1) :
      SegmentStep input s
        (.done, s.arrived.confirm (s.arrived.trajectory.actualStableCycles + 1) false)

end Segment

/-- The running part of `motion_segment_process` makes a cycle that is not the last, or
arrives. -/
theorem motionSegmentAdvance_cases (s : Motion F)
    (h : s.trajectory.cycleIndex < s.trajectory.totalCycles) :
  (∃ c : Int32, s.trajectory.cycleIndex + 1 < s.trajectory.totalCycles ∧
      motionSegmentAdvance s = s.follow
        { s.trajectory with cycleIndex := s.trajectory.cycleIndex + 1, commandCounts := c } c)
    ∨ motionSegmentAdvance s = s.follow s.trajectory.arrived s.trajectory.targetCounts
  := by
  rw [motionSegmentAdvance]
  simp only [h, if_true]
  by_cases hlast : s.trajectory.totalCycles ≤ s.trajectory.cycleIndex + 1
  · right
    rw [if_pos hlast]
    rfl
  · left
    rw [if_neg hlast]
    exact ⟨_, UInt32.not_le.mp hlast, rfl⟩

/-- The cases of the confirmation of the actual position. -/
theorem motionSegmentConfirm_cases {F : Type} (input : PdoInput) (s : Motion F)
    (h : s.trajectory.waitingActual = true) :
  (inPosition input s.trajectory.targetCounts = false
      ∧ motionSegmentConfirm input s = (.running, s.confirm 0 true))
    ∨ (inPosition input s.trajectory.targetCounts = true
      ∧ s.trajectory.actualStableCycles + 1 < motionPositionStableCycles
      ∧ motionSegmentConfirm input s
        = (.running, s.confirm (s.trajectory.actualStableCycles + 1) true))
    ∨ (inPosition input s.trajectory.targetCounts = true
      ∧ motionPositionStableCycles ≤ s.trajectory.actualStableCycles + 1
      ∧ motionSegmentConfirm input s
        = (.done, s.confirm (s.trajectory.actualStableCycles + 1) false))
  := by
  rw [motionSegmentConfirm, h]
  simp only [Bool.not_true, Bool.false_eq_true, if_false]
  by_cases hin : inPosition input s.trajectory.targetCounts = true
  · rw [if_pos hin]
    by_cases hlast : motionPositionStableCycles ≤ s.trajectory.actualStableCycles + 1
    · right
      right
      rw [if_pos hlast]
      exact ⟨hin, hlast, rfl⟩
    · right
      left
      rw [if_neg hlast]
      refine ⟨hin, UInt32.not_le.mp hlast, ?_⟩
      rw [Motion.confirm, ← h]
  · left
    rw [if_neg hin]
    refine ⟨Bool.not_eq_true _ ▸ hin, ?_⟩
    rw [Motion.confirm, ← h]

/-- A trajectory in progress makes a step of one of the kinds `SegmentStep`. -/
theorem motionSegmentProcess_step (input : PdoInput) (s : Motion F)
    (h : s.trajectory.Active) :
  SegmentStep input s (motionSegmentProcess input s)
  := by
  -- the confirmation, once the trajectory waits
  have hconfirm : s.arrived.trajectory.waitingActual = true →
      s.arrived.trajectory.targetCounts = s.trajectory.targetCounts →
      SegmentStep input s (motionSegmentConfirm input s.arrived) := by
    intro hw ht
    rcases motionSegmentConfirm_cases input s.arrived hw with
      ⟨hin, heq⟩ | ⟨hin, hleft, heq⟩ | ⟨hin, hlast, heq⟩
    · rw [heq]
      rw [ht] at hin
      apply SegmentStep.unsettled hin
    · rw [heq]
      rw [ht] at hin
      apply SegmentStep.settling hin hleft
    · rw [heq]
      rw [ht] at hin
      apply SegmentStep.settled hin hlast
  rw [motionSegmentProcess]
  rcases h with ⟨hr, hw, hlt⟩ | ⟨hr, hw⟩
  · rw [if_pos hr]
    rcases motionSegmentAdvance_cases s hlt with ⟨c, hleft, heq⟩ | heq
    · rw [heq, motionSegmentConfirm]
      simp only [Motion.follow, hw, Bool.not_false, if_true]
      rw [← hw]
      apply SegmentStep.moving c hr hleft
    · have harrived : motionSegmentAdvance s = s.arrived := by
        rw [heq, Motion.arrived, if_pos hr]
      rw [harrived]
      apply hconfirm
      · rw [Motion.arrived, if_pos hr]
        rfl
      · rw [Motion.arrived, if_pos hr]
        rfl
  · have harrived : s.arrived = s := by
      rw [Motion.arrived, hr]
      rfl
    rw [hr]
    rw [harrived] at hconfirm
    apply hconfirm hw rfl

/-! ### Conversions -/

/-- A failed conversion does not report success. -/
theorem motionMmToCounts_ne_ok (p : MotorParams F) (positionMm : F) :
  motionMmToCounts p positionMm ≠ .error .ok
  := by
  rw [motionMmToCounts]
  split
  · simp
  dsimp only
  split
  · simp
  split
  · simp
  · simp

theorem countsOfInt64_ne_ok (sum : ℤ) :
  countsOfInt64 sum ≠ .error .ok
  := by
  rw [countsOfInt64]
  split
  · simp
  · simp

/-- A failed target computation does not report success. -/
theorem motionPositionTargetGet_ne_ok (input : PdoInput) (s : Motion F) (mode : MotionMode)
    (absoluteReference : AbsoluteReference) (positionMm : F) :
  motionPositionTargetGet input s mode absoluteReference positionMm ≠ .error .ok
  := by
  rw [motionPositionTargetGet]
  split
  · simp
  split
  · rename_i result hresult
    intro h
    apply motionMmToCounts_ne_ok s.motorParams positionMm
    rw [hresult, h]
  split
  · split
    · apply countsOfInt64_ne_ok
    · apply countsOfInt64_ne_ok
  · apply countsOfInt64_ne_ok

/-- Only a move has a target. -/
theorem motionPositionTargetGet_mode {input : PdoInput} {s : Motion F} {mode : MotionMode}
    {absoluteReference : AbsoluteReference} {positionMm : F} {targetCounts : Int32}
    (h : motionPositionTargetGet input s mode absoluteReference positionMm = .ok targetCounts) :
  mode = .moveAbs ∨ mode = .moveRel ∨ mode = .jog
  := by
  by_contra hmode
  push Not at hmode
  rw [motionPositionTargetGet, if_pos hmode] at h
  cases h

/-! ### Ends and starts of a motion -/

section Ends

variable {F : Type}

/-- The control state after a cancelled motion. -/
def MotionControl.aborted (input : PdoInput) : MotionControl where
  mode := .stop
  commandCounts := input.currentPosition
  targetCounts := input.currentPosition
  busy := false
  done := true
  error := false
  paused := false

/-- The control state after a failed motion. -/
def MotionControl.failed (input : PdoInput) : MotionControl where
  mode := .stop
  commandCounts := input.currentPosition
  targetCounts := input.currentPosition
  busy := false
  done := false
  error := true
  paused := false

/-- The motion `s` has been given up, with the control state `c`: nothing is left of its
trajectory and reciprocation. -/
def Motion.GivenUp (s : Motion F) (c : MotionControl) (s' : Motion F) : Prop :=
  ∃ (t : MotionTrajectory F) (r : MotionRecip F),
    t.Still ∧ r.active = false ∧ r.stage = .idle
      ∧ s' = { s with trajectory := t, recip := r, control := c }

/-- `motion_finish_error` gives up a motion of which only the trajectory, the reciprocation and
the control state have changed. -/
theorem motionFinishError_givenUp (input : PdoInput) (s : Motion F) (t : MotionTrajectory F)
    (r : MotionRecip F) (c : MotionControl) :
  s.GivenUp (.failed input)
    (motionFinishError input { s with trajectory := t, recip := r, control := c })
  := ⟨_, _, ⟨rfl, rfl⟩, rfl, rfl, rfl⟩

theorem motionAbortApply_givenUp (input : PdoInput) (s : Motion F) :
  s.GivenUp (.aborted input) (motionAbortApply input s)
  := ⟨_, _, ⟨rfl, rfl⟩, rfl, rfl, rfl⟩

/-- The motion on a fresh trajectory to a target, with the control state of a start. -/
def Motion.launched (s : Motion F) (t : MotionTrajectory F) (r : MotionRecip F)
    (targetCounts : Int32) (mode : MotionMode) : Motion F :=
  { s with
    trajectory := t
    recip := r
    control := { s.control with targetCounts := targetCounts }.begin mode }

end Ends

variable [PositiveRoots F]

/-- A single start launches a move to its target, or fails and changes no more than the stored
segments. -/
theorem motionSingleStart_cases (input : PdoInput) (request : MotionRequest F) (s : Motion F) :
  (∃ targetCounts t, t.Fresh s.control.commandCounts targetCounts
      ∧ (request.mode = .moveAbs ∨ request.mode = .moveRel ∨ request.mode = .jog)
      ∧ motionSingleStart input request s
        = (.ok, s.launched t s.recip targetCounts request.mode))
    ∨ ∃ result segments, result ≠ .ok ∧
      motionSingleStart input request s
        = (result, { s with trajectory := { s.trajectory with segment := segments } })
  := by
  rw [motionSingleStart]
  cases htarget : motionPositionTargetGet input s request.mode request.absoluteReference
      request.positionMm with
  | error result =>
      right
      refine ⟨result, s.trajectory.segment, ?_, rfl⟩
      rintro rfl
      exact motionPositionTargetGet_ne_ok input s _ _ _ htarget
  | ok targetCounts =>
      rcases motionTrajectoryStart_cases s.control.commandCounts targetCounts
        request.velocityMmS request.accelerationMmS2 request.jerkMmS3 s with
        ⟨t, hfresh, heq⟩ | ⟨segments, heq⟩
      · left
        refine ⟨targetCounts, t, hfresh, ?_, ?_⟩
        · apply motionPositionTargetGet_mode htarget
        · simp only [heq]
          rfl
      · right
        refine ⟨.errLimit, segments, by decide, ?_⟩
        simp only [heq]

/-- A leg starts on a fresh trajectory from the commanded position, or fails and changes no
more than the stored segments. -/
theorem motionRecipMoveStart_cases (targetCounts : Int32) (s : Motion F) :
  (∃ t : MotionTrajectory F, t.Fresh s.control.commandCounts targetCounts ∧
      motionRecipMoveStart targetCounts s
        = (.ok, { s with
            trajectory := t, control := { s.control with targetCounts := targetCounts } }))
    ∨ ∃ segments : List (S7Segment F),
      motionRecipMoveStart targetCounts s
        = (.errLimit, { s with trajectory := { s.trajectory with segment := segments } })
  := by
  apply motionTrajectoryStart_cases

/-- A reciprocation start launches the first leg, or fails and changes no more than the
trajectory and the reciprocation. -/
theorem motionRecipStartInternal_cases (input : PdoInput) (request : MotionRequest F)
    (s : Motion F) :
  (∃ offsetCounts endCounts t,
      motionMmToCounts s.motorParams request.positionMm = .ok offsetCounts ∧ offsetCounts ≠ 0
      ∧ countsOfInt64 (input.currentPosition.toInt + offsetCounts.toInt) = .ok endCounts
      ∧ t.Fresh s.control.commandCounts endCounts
      ∧ motionRecipStartInternal input request s
        = (.ok, s.launched t (MotionRecip.ofRequest request input.currentPosition endCounts)
            endCounts .recip))
    ∨ ∃ result t r, result ≠ .ok ∧
      motionRecipStartInternal input request s
        = (result, { s with trajectory := t, recip := r })
  := by
  rw [motionRecipStartInternal]
  cases hoffset : motionMmToCounts s.motorParams request.positionMm with
  | error result =>
      right
      refine ⟨result, s.trajectory, s.recip, ?_, rfl⟩
      rintro rfl
      apply motionMmToCounts_ne_ok _ _ hoffset
  | ok offsetCounts =>
      dsimp only
      by_cases hzero : offsetCounts = 0
      · rw [if_pos hzero]
        right
        exact ⟨.errParam, s.trajectory, s.recip, by decide, rfl⟩
      · rw [if_neg hzero]
        cases hend : countsOfInt64 (input.currentPosition.toInt + offsetCounts.toInt) with
        | error result =>
            right
            refine ⟨result, s.trajectory, s.recip, ?_, rfl⟩
            rintro rfl
            apply countsOfInt64_ne_ok _ hend
        | ok endCounts =>
            rcases motionRecipMoveStart_cases endCounts
              { s with
                recip := MotionRecip.ofRequest request input.currentPosition endCounts } with
              ⟨t, hfresh, heq⟩ | ⟨segments, heq⟩
            · left
              refine ⟨offsetCounts, endCounts, t, rfl, hzero, hend, hfresh, ?_⟩
              dsimp only at heq ⊢
              rw [heq]
              rfl
            · right
              use .errLimit, { s.trajectory with segment := segments },
                { MotionRecip.ofRequest request input.currentPosition endCounts with
                  active := false, stage := .idle }
              refine ⟨by decide, ?_⟩
              dsimp only at heq ⊢
              rw [heq]

/-! ### Requests -/

/-- What `motion_request_apply` does. -/
inductive RequestStep (input : PdoInput) (request : MotionRequest F) (s : Motion F) :
    Motion F → Prop where
  | paused (action : request.action = .actionPause) (busy : s.control.busy = true) :
      RequestStep input request s
        { s with
          control :=
            { s.control with busy := true, paused := true, done := false, error := false } }
  | resumed (action : request.action = .actionContinue) (busy : s.control.busy = true)
      (paused : s.control.paused = true) :
      RequestStep input request s
        { s with
          control :=
            { s.control with busy := true, paused := false, done := false, error := false } }
  | ignored (action : request.action = .actionContinue)
      (state : ¬ (s.control.busy = true ∧ s.control.paused = true)) :
      RequestStep input request s s
  | aborted {s' : Motion F}
      (action : request.action = .actionAbort
        ∨ request.action = .actionPause ∧ s.control.busy = false)
      (givenUp : s.GivenUp (.aborted input) s') :
      RequestStep input request s s'
  | single {targetCounts : Int32} {t : MotionTrajectory F}
      (action : request.action = .actionStart)
      (mode : request.mode = .moveAbs ∨ request.mode = .moveRel ∨ request.mode = .jog)
      (fresh : t.Fresh s.control.commandCounts targetCounts) :
      RequestStep input request s
        (s.launched t (motionDropPaused s).recip targetCounts request.mode)
  | recip {offsetCounts endCounts : Int32} {t : MotionTrajectory F}
      (action : request.action = .actionStart) (mode : request.mode = .recip)
      (offset : motionMmToCounts s.motorParams request.positionMm = .ok offsetCounts)
      (ne_zero : offsetCounts ≠ 0)
      (range : countsOfInt64 (input.currentPosition.toInt + offsetCounts.toInt) = .ok endCounts)
      (fresh : t.Fresh s.control.commandCounts endCounts) :
      RequestStep input request s
        (s.launched t (MotionRecip.ofRequest request input.currentPosition endCounts) endCounts
          .recip)
  | failed {s' : Motion F} (action : request.action = .actionStart)
      (givenUp : s.GivenUp (.failed input) s') :
      RequestStep input request s s'

omit [FloatArith F] [PositiveRoots F] in
/-- What a start gives up of a paused motion does not show in the motion launched. -/
theorem motionDropPaused_launched (s : Motion F) (t : MotionTrajectory F) (r : MotionRecip F)
    (targetCounts : Int32) (mode : MotionMode) :
  (motionDropPaused s).launched t r targetCounts mode = s.launched t r targetCounts mode
  := by
  rw [motionDropPaused]
  split
  · rfl
  · rfl

omit [FloatArith F] [PositiveRoots F] in
theorem motionDropPaused_givenUp {s s' : Motion F} {c : MotionControl}
    (h : (motionDropPaused s).GivenUp c s') :
  s.GivenUp c s'
  := by
  obtain ⟨t, r, ht, ha, hs, rfl⟩ := h
  refine ⟨t, r, ht, ha, hs, ?_⟩
  rw [motionDropPaused]
  split
  · rfl
  · rfl

omit [FloatArith F] [PositiveRoots F] in
theorem motionDropPaused_commandCounts (s : Motion F) :
  (motionDropPaused s).control.commandCounts = s.control.commandCounts
  := by
  rw [motionDropPaused]
  split
  · rfl
  · rfl

omit [FloatArith F] [PositiveRoots F] in
theorem motionDropPaused_motorParams (s : Motion F) :
  (motionDropPaused s).motorParams = s.motorParams
  := by
  rw [motionDropPaused]
  split
  · rfl
  · rfl

/-- A start that succeeds leaves the motion it has started. -/
theorem motionRequestApply_of_started {input : PdoInput} {request : MotionRequest F}
    {s s' : Motion F} (action : request.action = .actionStart)
    (h : motionStart input request (motionDropPaused s) = (.ok, s')) :
  motionRequestApply input request s = s'
  := by
  rw [motionRequestApply, action]
  dsimp only
  rw [h]

/-- A start that fails gives up the motion it has left. -/
theorem motionRequestApply_of_failed {input : PdoInput} {request : MotionRequest F}
    {s s' : Motion F} {result : MotionResult} (action : request.action = .actionStart)
    (failed : result ≠ .ok) (h : motionStart input request (motionDropPaused s) = (result, s')) :
  motionRequestApply input request s = motionFinishError input s'
  := by
  rw [motionRequestApply, action]
  dsimp only
  rw [h]
  cases result with
  | ok => contradiction
  | _ => rfl

/-- A start makes a step of one of the kinds `RequestStep`. -/
theorem motionRequestApply_start_step (input : PdoInput) (request : MotionRequest F)
    (s : Motion F) (action : request.action = .actionStart) :
  RequestStep input request s (motionRequestApply input request s)
  := by
  by_cases hmode : request.mode = .recip
  · have hstart : motionStart input request (motionDropPaused s)
        = motionRecipStartInternal input request (motionDropPaused s) := by
      rw [motionStart, if_pos hmode]
    rcases motionRecipStartInternal_cases input request (motionDropPaused s) with
      ⟨offsetCounts, endCounts, t, hoffset, hzero, hend, hfresh, heq⟩ | ⟨result, t, r, hfailed, heq⟩
    · rw [motionRequestApply_of_started action (hstart.trans heq), motionDropPaused_launched]
      rw [motionDropPaused_motorParams] at hoffset
      rw [motionDropPaused_commandCounts] at hfresh
      apply RequestStep.recip action hmode hoffset hzero hend hfresh
    · rw [motionRequestApply_of_failed action hfailed (hstart.trans heq)]
      apply RequestStep.failed action
      apply motionDropPaused_givenUp
      apply motionFinishError_givenUp
  · have hstart : motionStart input request (motionDropPaused s)
        = motionSingleStart input request (motionDropPaused s) := by
      rw [motionStart, if_neg hmode]
    rcases motionSingleStart_cases input request (motionDropPaused s) with
      ⟨targetCounts, t, hfresh, hmode', heq⟩ | ⟨result, segments, hfailed, heq⟩
    · rw [motionRequestApply_of_started action (hstart.trans heq), motionDropPaused_launched]
      rw [motionDropPaused_commandCounts] at hfresh
      apply RequestStep.single action hmode' hfresh
    · rw [motionRequestApply_of_failed action hfailed (hstart.trans heq)]
      apply RequestStep.failed action
      apply motionDropPaused_givenUp
      apply motionFinishError_givenUp

/-- A request makes a step of one of the kinds `RequestStep`. -/
theorem motionRequestApply_step (input : PdoInput) (request : MotionRequest F) (s : Motion F) :
  RequestStep input request s (motionRequestApply input request s)
  := by
  cases haction : request.action with
  | actionPause =>
      rw [motionRequestApply, haction]
      dsimp only
      by_cases hbusy : s.control.busy = true
      · rw [if_pos hbusy]
        apply RequestStep.paused haction hbusy
      · rw [if_neg hbusy]
        apply RequestStep.aborted
        · right
          exact ⟨haction, Bool.not_eq_true _ ▸ hbusy⟩
        · apply motionAbortApply_givenUp
  | actionContinue =>
      rw [motionRequestApply, haction]
      dsimp only
      by_cases hstate : s.control.busy = true ∧ s.control.paused = true
      · rw [hstate.1, hstate.2, Bool.and_self, if_pos rfl]
        apply RequestStep.resumed haction hstate.1 hstate.2
      · rw [if_neg (by rwa [Bool.and_eq_true])]
        apply RequestStep.ignored haction hstate
  | actionAbort =>
      rw [motionRequestApply, haction]
      apply RequestStep.aborted (Or.inl haction)
      apply motionAbortApply_givenUp
  | actionStart => apply motionRequestApply_start_step input request s haction

/-! ### Reciprocation -/

/-- A leg is under way. -/
def RecipStage.IsMove (stage : RecipStage) : Prop :=
  stage = .moveOut ∨ stage = .moveBack

instance (stage : RecipStage) : Decidable stage.IsMove :=
  inferInstanceAs (Decidable (stage = .moveOut ∨ stage = .moveBack))

/-- The reciprocation dwells between two legs. -/
def RecipStage.IsWait (stage : RecipStage) : Prop :=
  stage = .waitFirst ∨ stage = .waitSecond

/-- The state `s₁` between two legs that a cycle from `s` goes through: a leg has just been
completed, or the reciprocation dwells. -/
def RecipTurn {F : Type} (input : PdoInput) (s s₁ : Motion F) : Prop :=
  (s.recip.stage.IsMove ∧ SegmentStep input s (.done, s₁)) ∨ (s.recip.stage.IsWait ∧ s₁ = s)

/-- What `motion_recip_process` does outside the stage `RECIP_STAGE_IDLE`. -/
inductive RecipStep (input : PdoInput) (s : Motion F) : Motion F → Prop where
  | moving {s' : Motion F} (stage : s.recip.stage.IsMove)
      (step : SegmentStep input s (.running, s')) :
      RecipStep input s s'
  | waiting {s₁ : Motion F} {r : MotionRecip F} (turn : RecipTurn input s s₁)
      (active : r.active = s.recip.active) (wait : r.stage.IsWait) :
      RecipStep input s { s₁ with recip := r }
  | leg {s₁ : Motion F} {t : MotionTrajectory F} {r : MotionRecip F} {targetCounts : Int32}
      (turn : RecipTurn input s s₁) (active : r.active = s.recip.active) (move : r.stage.IsMove)
      (fresh : t.Fresh s₁.control.commandCounts targetCounts) :
      RecipStep input s
        { s₁ with
          trajectory := t, recip := r, control := { s₁.control with targetCounts := targetCounts } }
  | finished {s₁ : Motion F} {r : MotionRecip F} (stage : s.recip.stage.IsMove)
      (step : SegmentStep input s (.done, s₁)) (inactive : r.active = false)
      (idle : r.stage = .idle) :
      RecipStep input s (motionFinishSuccess { s₁ with recip := r })
  | failed {s₁ : Motion F} {r : MotionRecip F} {targetCounts : Int32}
      (turn : RecipTurn input s s₁)
      (plan : (motionRecipMoveStart targetCounts { s₁ with recip := r }).1 ≠ .ok) :
      RecipStep input s
        (motionFinishError input (motionRecipMoveStart targetCounts { s₁ with recip := r }).2)

omit [FloatArith F] [PositiveRoots F] in
/-- A cycle of a segment changes the trajectory and the commanded position only. -/
theorem SegmentStep.follow {input : PdoInput} {s s' : Motion F} {result : SegmentResult}
    (h : SegmentStep input s (result, s')) :
  ∃ t c, s' = s.follow t c
  := by
  have harrived : ∀ n w, ∃ t c, s.arrived.confirm n w = s.follow t c := by
    intro n w
    rw [Motion.arrived]
    split
    · exact ⟨_, _, rfl⟩
    · exact ⟨_, s.control.commandCounts, rfl⟩
  cases h with
  | moving c _ _ => exact ⟨_, c, rfl⟩
  | unsettled _ => apply harrived
  | settling _ _ => apply harrived
  | settled _ _ => apply harrived

omit [FloatArith F] [PositiveRoots F] in
theorem RecipTurn.follow {input : PdoInput} {s s₁ : Motion F} (h : RecipTurn input s s₁) :
  ∃ t c, s₁ = s.follow t c
  := by
  rcases h with ⟨-, hstep⟩ | ⟨-, rfl⟩
  · apply hstep.follow
  · exact ⟨s₁.trajectory, s₁.control.commandCounts, rfl⟩

/-- A leg that cannot be planned gives the motion up. -/
theorem RecipTurn.givenUp {input : PdoInput} {s s₁ : Motion F} (h : RecipTurn input s s₁)
    {r : MotionRecip F} {targetCounts : Int32}
    (plan : (motionRecipMoveStart targetCounts { s₁ with recip := r }).1 ≠ .ok) :
  s.GivenUp (.failed input)
    (motionFinishError input (motionRecipMoveStart targetCounts { s₁ with recip := r }).2)
  := by
  obtain ⟨t, c, rfl⟩ := h.follow
  rcases motionRecipMoveStart_cases targetCounts { s.follow t c with recip := r } with
    ⟨t', -, heq⟩ | ⟨segments, heq⟩
  · rw [heq] at plan
    contradiction
  · rw [heq]
    apply motionFinishError_givenUp

/-- A leg after a turn is started, or the reciprocation is given up. -/
theorem motionRecipLeg_step {input : PdoInput} {s s₁ : Motion F} (turn : RecipTurn input s s₁)
    (r : MotionRecip F) (active : r.active = s.recip.active) (targetCounts : Int32)
    (stage : RecipStage) (move : stage.IsMove) :
  RecipStep input s (motionRecipLeg input targetCounts stage { s₁ with recip := r })
  := by
  rw [motionRecipLeg]
  rcases motionRecipMoveStart_cases targetCounts { s₁ with recip := r } with
    ⟨t, hfresh, heq⟩ | ⟨segments, heq⟩
  · rw [heq]
    apply RecipStep.leg (r := { r with stage := stage }) turn active move hfresh
  · have hplan : (motionRecipMoveStart targetCounts { s₁ with recip := r }).1 ≠ .ok := by
      rw [heq]
      simp
    have hfailed := RecipStep.failed turn hplan
    rw [heq] at hfailed ⊢
    apply hfailed

/-- After a completed leg, the reciprocation waits or starts the next leg. -/
theorem motionRecipDwell_step {input : PdoInput} {s s₁ : Motion F} (turn : RecipTurn input s s₁)
    (r : MotionRecip F) (active : r.active = s.recip.active) (cycles : UInt32)
    (wait : RecipStage) (hwait : wait.IsWait) (targetCounts : Int32) (next : RecipStage)
    (move : next.IsMove) :
  RecipStep input s (motionRecipDwell input cycles wait targetCounts next { s₁ with recip := r })
  := by
  rw [motionRecipDwell]
  split
  · apply RecipStep.waiting (r := { r with waitCycles := cycles, stage := wait }) turn active hwait
  · apply motionRecipLeg_step turn r active targetCounts next move

/-- A cycle of a wait goes on waiting or starts the next leg. -/
theorem motionRecipWait_step {input : PdoInput} {s : Motion F} (wait : s.recip.stage.IsWait)
    (targetCounts : Int32) (next : RecipStage) (move : next.IsMove) :
  RecipStep input s (motionRecipWait input targetCounts next s)
  := by
  have turn : RecipTurn input s s := Or.inr ⟨wait, rfl⟩
  rw [motionRecipWait]
  dsimp only
  generalize (if 0 < s.recip.waitCycles then s.recip.waitCycles - 1
    else s.recip.waitCycles) = left
  split
  · apply motionRecipLeg_step turn { s.recip with waitCycles := left } rfl targetCounts next move
  · apply RecipStep.waiting (r := { s.recip with waitCycles := left }) turn rfl wait

/-- A cycle of a reciprocation makes a step of one of the kinds `RecipStep`. -/
theorem motionRecipProcess_step (input : PdoInput) (s : Motion F)
    (stage : s.recip.stage ≠ .idle) (active : s.recip.stage.IsMove → s.trajectory.Active) :
  RecipStep input s (motionRecipProcess input s)
  := by
  rw [motionRecipProcess]
  cases hstage : s.recip.stage with
  | idle => contradiction
  | waitFirst =>
      apply motionRecipWait_step (Or.inl hstage)
      exact Or.inr rfl
  | waitSecond =>
      apply motionRecipWait_step (Or.inr hstage)
      exact Or.inl rfl
  | moveOut =>
      have hmove : s.recip.stage.IsMove := Or.inl hstage
      have hstep := motionSegmentProcess_step input s (active hmove)
      revert hstep
      rcases motionSegmentProcess input s with ⟨result, s₁⟩
      intro hstep
      cases result with
      | running => apply RecipStep.moving hmove hstep
      | error => cases hstep
      | done =>
          obtain ⟨t, c, rfl⟩ := hstep.follow
          apply motionRecipDwell_step (Or.inl ⟨hmove, hstep⟩) s.recip rfl
          · exact Or.inl rfl
          · exact Or.inr rfl
  | moveBack =>
      have hmove : s.recip.stage.IsMove := Or.inr hstage
      have hstep := motionSegmentProcess_step input s (active hmove)
      revert hstep
      rcases motionSegmentProcess input s with ⟨result, s₁⟩
      intro hstep
      cases result with
      | running => apply RecipStep.moving hmove hstep
      | error => cases hstep
      | done =>
          obtain ⟨t, c, rfl⟩ := hstep.follow
          dsimp only
          split
          · apply RecipStep.finished hmove hstep rfl rfl
          · apply motionRecipDwell_step (Or.inl ⟨hmove, hstep⟩)
              { s.recip with completedCount := s.recip.completedCount + 1 } rfl
            · exact Or.inr rfl
            · exact Or.inl rfl

/-! ### The scheduler -/

/-- The trajectory is advanced in a cycle from `s`: the motion is busy and not paused, and it
is a single move or a reciprocation on a leg. -/
def Motion.OnSegment {F : Type} (s : Motion F) : Prop :=
  s.control.busy = true ∧ s.control.paused = false
    ∧ (s.control.mode = .recip → s.recip.stage.IsMove)

instance {F : Type} (s : Motion F) : Decidable s.OnSegment :=
  inferInstanceAs (Decidable (_ ∧ _ ∧ (_ → _)))

/-- What the last part of the scheduler does to a motion. -/
inductive AdvanceStep (input : PdoInput) (s : Motion F) : Motion F → Prop where
  | rest (still : ¬ (s.control.busy = true ∧ s.control.paused = false)) :
      AdvanceStep input s s
  | recip {s' : Motion F} (busy : s.control.busy = true) (unpaused : s.control.paused = false)
      (mode : s.control.mode = .recip) (step : RecipStep input s s') :
      AdvanceStep input s s'
  | moving {s' : Motion F} (busy : s.control.busy = true) (unpaused : s.control.paused = false)
      (mode : s.control.mode ≠ .recip) (step : SegmentStep input s (.running, s')) :
      AdvanceStep input s s'
  | finished {s₁ : Motion F} (busy : s.control.busy = true)
      (unpaused : s.control.paused = false) (mode : s.control.mode ≠ .recip)
      (step : SegmentStep input s (.done, s₁)) :
      AdvanceStep input s (motionFinishSuccess s₁)

/-- The last part of the scheduler makes a step of one of the kinds `AdvanceStep`. -/
theorem motionAdvance_step (input : PdoInput) (s : Motion F)
    (stage : s.control.busy = true → s.control.mode = .recip → s.recip.stage ≠ .idle)
    (active : s.OnSegment → s.trajectory.Active) :
  AdvanceStep input s (motionAdvance input s)
  := by
  rw [motionAdvance]
  by_cases hgo : s.control.busy = true ∧ s.control.paused = false
  · obtain ⟨hbusy, hpaused⟩ := hgo
    rw [hbusy, hpaused, Bool.not_false, Bool.and_self, if_pos rfl]
    by_cases hmode : s.control.mode = .recip
    · rw [if_pos hmode]
      apply AdvanceStep.recip hbusy hpaused hmode
      apply motionRecipProcess_step input s (stage hbusy hmode)
      intro hmove
      apply active ⟨hbusy, hpaused, fun _ => hmove⟩
    · rw [if_neg hmode]
      have hactive := active ⟨hbusy, hpaused, fun h => absurd h hmode⟩
      have hstep := motionSegmentProcess_step input s hactive
      revert hstep
      rcases motionSegmentProcess input s with ⟨result, s₁⟩
      intro hstep
      cases result with
      | running => apply AdvanceStep.moving hbusy hpaused hmode hstep
      | error => cases hstep
      | done => apply AdvanceStep.finished hbusy hpaused hmode hstep
  · rw [if_neg (by simpa using hgo)]
    apply AdvanceStep.rest hgo

/-- The state after the request has been taken out of the slot. -/
def Motion.fetched {F : Type} (s : Motion F) : Motion F :=
  { s with request := { s.request with pending := false } }

/-- What a call of the scheduler does to the request: nothing without one, and otherwise the
request is taken out of the slot and applied. -/
theorem motionServe_cases (input : PdoInput) (s : Motion F) :
  (s.request.pending = false ∧ motionServe input s = s)
    ∨ (s.request.pending = true
      ∧ RequestStep input s.request s.fetched (motionServe input s))
  := by
  rw [motionServe, motionRequestFetch]
  cases hpending : s.request.pending with
  | false => exact Or.inl ⟨rfl, rfl⟩
  | true =>
      right
      refine ⟨rfl, ?_⟩
      rw [if_pos rfl]
      apply motionRequestApply_step

/-! ### What stays -/

/-- The two states agree outside the trajectory, the control state and the reciprocation. -/
structure Motion.SameSettings {F : Type} (s s' : Motion F) : Prop where
  request : s'.request = s.request
  motorParams : s'.motorParams = s.motorParams
  motorParamsReady : s'.motorParamsReady = s.motorParamsReady
  softwareZeroCounts : s'.softwareZeroCounts = s.softwareZeroCounts
  motionInitialized : s'.motionInitialized = s.motionInitialized

omit [FloatArith F] [PositiveRoots F] in
theorem Motion.GivenUp.sameSettings {s s' : Motion F} {c : MotionControl}
    (h : s.GivenUp c s') :
  s.SameSettings s'
  := by
  obtain ⟨t, r, -, -, -, rfl⟩ := h
  constructor <;> rfl

omit [PositiveRoots F] in
theorem RequestStep.sameSettings {input : PdoInput} {request : MotionRequest F}
    {s s' : Motion F} (h : RequestStep input request s s') :
  s.SameSettings s'
  := by
  cases h with
  | aborted _ givenUp => apply givenUp.sameSettings
  | failed _ givenUp => apply givenUp.sameSettings
  | _ => constructor <;> rfl

omit [FloatArith F] [PositiveRoots F] in
theorem SegmentStep.sameSettings {input : PdoInput} {s s' : Motion F} {result : SegmentResult}
    (h : SegmentStep input s (result, s')) :
  s.SameSettings s'
  := by
  obtain ⟨t, c, rfl⟩ := h.follow
  constructor <;> rfl

theorem AdvanceStep.sameSettings {input : PdoInput} {s s' : Motion F}
    (h : AdvanceStep input s s') :
  s.SameSettings s'
  := by
  cases h with
  | rest _ => constructor <;> rfl
  | moving _ _ _ step => apply step.sameSettings
  | finished _ _ _ step =>
      obtain ⟨t, c, rfl⟩ := step.follow
      constructor <;> rfl
  | recip _ _ _ step =>
      cases step with
      | moving _ step => apply step.sameSettings
      | failed turn plan => apply (turn.givenUp plan).sameSettings
      | waiting turn _ _ =>
          obtain ⟨t, c, rfl⟩ := turn.follow
          constructor <;> rfl
      | leg turn _ _ _ =>
          obtain ⟨t, c, rfl⟩ := turn.follow
          constructor <;> rfl
      | finished _ step _ _ =>
          obtain ⟨t, c, rfl⟩ := step.follow
          constructor <;> rfl

end EthercatMaster
