import EthercatMaster.Master.Enable
import EthercatMaster.Motion.Target

/-!
# The cyclic loop of the master

The loop of `ethercat_master_scan_task`.  In a good cycle the state machines of all axes are
advanced, and then the motion scheduler, if the first axis is enabled.  Between the cycles the
application tasks call the motion module.
-/

namespace EthercatMaster

variable {F : Type}

/-- The event is a step of an application task. -/
def Event.IsCall : Event F → Prop
  | .pdo _ => False
  | .process => False
  | _ => True

/-- The master in its cyclic loop, with the motion module and the calls in progress. -/
structure Master (F : Type) where
  servos : Servos
  check : PdoCheck
  motion : Motion F
  calls : ℕ → Option (MotionRequest F)

/-- What happens in the loop.  A cycle brings a working counter and new contents of the areas. -/
inductive MasterEvent (F : Type) where
  | task (e : Event F) (h : e.IsCall)
  | slaveStates (slaveState : ℕ → UInt16)
  | cycle (wkc : ℤ) (axisInputs : ℕ → Option PdoInput) (axisOutputs : ℕ → Option PdoOutput)

namespace Master

/-- The motion module as its tasks see it. -/
def system (m : Master F) : System F :=
  ⟨m.servos.axes.area, m.motion, m.calls⟩

/-- The master when it enters the loop: the axes are bound and their positions are known. -/
def init [FloatArith F] (axes : Axes) (check : PdoCheck) (holdPos : ℕ → Int32) : Master F where
  servos := ⟨axes, fun slave => { AxisEnable.bound with servoEnableHoldPos := holdPos slave }⟩
  check := check
  motion := Motion.init
  calls := fun _ => none

/-- New contents of the areas. -/
def receive (axisInputs : ℕ → Option PdoInput) (axisOutputs : ℕ → Option PdoOutput)
    (m : Master F) : Master F :=
  { m with
    servos :=
      { m.servos with
        axes :=
          { m.servos.axes with axisInputs := axisInputs, axisOutputs := axisOutputs } } }

/-- The state machines of all axes are advanced. -/
def enable (m : Master F) : Master F :=
  { m with servos := (ethercatServoAllAxesEnableProcess 0 m.servos).2 }

/-- The check of a cycle. -/
def checked (wkc : ℤ) (axisInputs : ℕ → Option PdoInput) (axisOutputs : ℕ → Option PdoOutput)
    (m : Master F) : Bool × PdoCheck :=
  ethercatMasterPdoProcessCheck wkc (m.receive axisInputs axisOutputs).servos.axes m.check

variable [FloatArith F] [PositiveRoots F]

/-- The motion scheduler is called for the first axis. -/
def process (m : Master F) : Master F :=
  let (area, motion) := ethercatMotionProcess m.servos.axes.area m.motion
  { m with
    servos :=
      { m.servos with
        axes :=
          { m.servos.axes with
            axisOutputs := Function.update m.servos.axes.axisOutputs 1 area.output1s } }
    motion := motion }

/-- What is done in a good cycle, after the process data has been received. -/
def control (m : Master F) : Master F :=
  let m := m.enable
  if ethercatMasterAxisOperationEnabledGet 1 m.servos.axes = 1 then m.process else m

/-- One event. -/
def step (m : Master F) : MasterEvent F → Master F
  | .task e _ => { m with motion := (m.system.step e).motion, calls := (m.system.step e).calls }
  | .slaveStates slaveState => { m with check := { m.check with slaveState := slaveState } }
  | .cycle wkc axisInputs axisOutputs =>
      let (pdoOk, check) := m.checked wkc axisInputs axisOutputs
      let m := { m.receive axisInputs axisOutputs with check := check }
      if pdoOk then m.control else m

/-- The loop from a state on, as a machine. -/
def machine (m : Master F) : Machine (Master F) (MasterEvent F) :=
  ⟨m, step⟩

end Master

end EthercatMaster
