import EthercatMaster.Motion.System
import EthercatMaster.Host.Protocol

/-!
# The commands of the host

A command calls one function of the motion module.  So the task of the server is one of the
application tasks of the motion module: what a command does is a run of its steps.
-/

namespace EthercatMaster

variable {F : Type}

/-- `host_command_id_t`. -/
inductive HostCommandId where
  | setSoftwareZero
  | returnMechanicalZero
  | returnSoftwareZero
  | pause
  | continueMotion
  | abort
deriving DecidableEq, Repr

/-- The command with a code. -/
def HostCommandId.ofCode (command : UInt8) : Option HostCommandId :=
  if command = 0x01 then some .setSoftwareZero
  else if command = 0x02 then some .returnMechanicalZero
  else if command = 0x03 then some .returnSoftwareZero
  else if command = 0x04 then some .pause
  else if command = 0x05 then some .continueMotion
  else if command = 0x06 then some .abort
  else none

/-- `host_command_motion_result_map`. -/
def hostCommandMotionResultMap : MotionResult → HostProtocolStatus
  | .ok => .ok
  | .errParam => .paramError
  | .errBusy => .busy
  | .errNotReady => .notReady
  | .errLimit => .limitError
  | .errState => .stateError

/-- The function of the motion module that a command calls. -/
def HostCommandId.call [FloatArith F] (area : PdoArea) (s : Motion F) :
    HostCommandId → MotionResult × Motion F
  | .setSoftwareZero => ethercatMotionSoftwareZeroSet area s
  | .returnMechanicalZero => ethercatMotionMechanicalZeroReturn s
  | .returnSoftwareZero => ethercatMotionSoftwareZeroReturn s
  | .pause => ethercatMotionStop s
  | .continueMotion => ethercatMotionContinue s
  | .abort => ethercatMotionAbort s

/-- `host_command_execute`. -/
def hostCommandExecute [FloatArith F] (area : PdoArea) (command : UInt8) (s : Motion F) :
    HostProtocolStatus × Motion F :=
  match HostCommandId.ofCode command with
  | none => (.unknownCommand, s)
  | some id => (hostCommandMotionResultMap (id.call area s).1, (id.call area s).2)

/-- The steps of an application task that a command makes. -/
def HostCommandId.events [FloatArith F] (task : ℕ) : HostCommandId → List (Event F)
  | .setSoftwareZero => [.softwareZeroSet]
  | .returnMechanicalZero => [.validate task .mechanicalZeroReturn, .submit task]
  | .returnSoftwareZero =>
      [.validate task (.commandSet .moveAbs (FloatArith.lit 0) zeroReturnVelocityMmS
        zeroReturnAccelerationMmS2 zeroReturnJerkMmS3), .submit task]
  | .pause => [.motionStop]
  | .continueMotion => [.motionContinue]
  | .abort => [.motionAbort]

namespace System

variable [FloatArith F] [PositiveRoots F]

/-- A call that starts a motion is the validation and the submission of its request. -/
theorem foldl_step_start {x : System F} {task : ℕ} (htask : x.calls task = none)
    (call : StartCall F) :
  [Event.validate task call, .submit task].foldl step x
    = { x with motion := (call.execute x.motion).2 }
  := by
  obtain ⟨area, motion, calls⟩ := x
  replace htask : calls task = none := htask
  have hcalls : Function.update calls task none = calls := by
    rw [← htask, Function.update_eq_self]
  by_cases h : call.validate motion = .ok
  · simp [step, critical, callsAfter, StartCall.execute, h, hcalls]
  · have hexecute : call.execute motion = (call.validate motion, motion) := by
      rw [StartCall.execute]
      split
      · contradiction
      · rfl
    simp [step, critical, callsAfter, h, hexecute, htask, hcalls]

/-- A command makes the steps of a task that calls the motion module. -/
theorem foldl_step_events {x : System F} {task : ℕ} (htask : x.calls task = none)
    (id : HostCommandId) :
  (id.events task).foldl step x = { x with motion := (id.call x.area x.motion).2 }
  := by
  cases id with
  | setSoftwareZero => rfl
  | returnMechanicalZero => apply foldl_step_start htask
  | returnSoftwareZero => apply foldl_step_start htask
  | pause => rfl
  | continueMotion => rfl
  | abort => rfl

/-- What `host_command_execute` does to the motion module is a run of it. -/
theorem run_hostCommandExecute {es : List (Event F)} {task : ℕ}
    (htask : (machine.run es).calls task = none) (command : UInt8) :
  ∃ es', machine.run (es ++ es')
    = { machine.run es with
        motion := (hostCommandExecute (machine.run es).area command (machine.run es).motion).2 }
  := by
  rw [hostCommandExecute]
  cases HostCommandId.ofCode command with
  | none =>
      use []
      rw [List.append_nil]
  | some id =>
      use id.events task
      rw [machine.run_append]
      apply foldl_step_events htask

end System

end EthercatMaster
