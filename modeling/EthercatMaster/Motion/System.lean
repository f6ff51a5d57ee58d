import EthercatMaster.Library.Machine
import EthercatMaster.Motion.Api

/-!
# The motion module among its tasks

The application tasks call the public interface while the PDO task calls
`ethercat_motion_process`.  A critical section is one step.  The checks of a call that starts
a motion are made outside the critical section, so they are a step of their own: between the
checks and the submission of its request, a task is in the middle of a call.  The areas of the
first axis are rewritten by the master at any time.
-/

namespace EthercatMaster

variable {F : Type}

/-- The motion module, the areas of the first axis, and for each application task the request
it has checked and not yet submitted. -/
structure System (F : Type) where
  area : PdoArea
  motion : Motion F
  calls : ℕ → Option (MotionRequest F)

/-- The steps of the tasks. -/
inductive Event (F : Type) where
  | pdo (area : PdoArea)
  | process
  | validate (task : ℕ) (call : StartCall F)
  | submit (task : ℕ)
  | motorParamsSet (p : MotorParams F)
  | softwareZeroSet
  | motionStop
  | motionContinue
  | motionAbort

namespace System

variable [FloatArith F] [PositiveRoots F]

/-- The state after power-up, with no process data bound. -/
def init : System F :=
  ⟨⟨none, none⟩, Motion.init, fun _ => none⟩

/-- The result and the new state of a step of an application task that is one critical
section. -/
def critical (x : System F) : Event F → Option (MotionResult × Motion F)
  | .submit task => (x.calls task).map fun request => motionRequestSubmit request x.motion
  | .motorParamsSet p => some (ethercatMotionMotorParamsSet p x.motion)
  | .softwareZeroSet => some (ethercatMotionSoftwareZeroSet x.area x.motion)
  | .motionStop => some (ethercatMotionStop x.motion)
  | .motionContinue => some (ethercatMotionContinue x.motion)
  | .motionAbort => some (ethercatMotionAbort x.motion)
  | _ => none

/-- The calls in progress after a step. -/
def callsAfter (x : System F) : Event F → ℕ → Option (MotionRequest F)
  | .validate task call =>
      if call.validate x.motion = .ok then Function.update x.calls task (some call.request)
      else x.calls
  | .submit task => Function.update x.calls task none
  | _ => x.calls

/-- One step of a task. -/
def step (x : System F) (e : Event F) : System F :=
  match e with
  | .pdo area => { x with area := area }
  | .process =>
      let (area, motion) := ethercatMotionProcess x.area x.motion
      { x with area := area, motion := motion }
  | e =>
      { x with
        motion := ((x.critical e).map Prod.snd).getD x.motion
        calls := x.callsAfter e }

/-- The system as a machine. -/
def machine : Machine (System F) (Event F) :=
  ⟨init, step⟩

/-! ### A small axis -/

/-- Motor parameters with one count in a millimetre. -/
def unitMotorParams : MotorParams ℚ := ⟨1, 1, 1, 1, 60⟩

/-- The process data of a servo that is ready. -/
def readyInput (position : Int32) : PdoInput where
  statusWord := 0x0027
  currentPosition := position
  opModeNow := 8
  touchProbeStatus := 0
  touchProbePos1 := 0
  digitalinputs := 0

/-- The process data sent to a servo that is ready. -/
def readyOutput : PdoOutput where
  controlWord := cia402CwEnableOperation
  targetPos := 0
  targetVelocity := 0
  opModeSet := 8
  touchProbe := 0

/-- The areas of a servo that is ready. -/
def readyArea (position : Int32) : PdoArea :=
  ⟨some (readyInput position), some readyOutput⟩

/-- The motor parameters are set and a relative move is submitted, at the position zero. -/
def submitMove (positionMm : ℚ) : List (Event ℚ) :=
  [.motorParamsSet unitMotorParams, .pdo (readyArea 0),
    .validate 0 (.commandSet .moveRel positionMm 1 1 2), .submit 0]

end System

end EthercatMaster
