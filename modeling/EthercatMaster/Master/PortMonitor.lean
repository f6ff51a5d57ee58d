import EthercatMaster.Library.Machine
import EthercatMaster.Master.Bringup

/-!
# The monitor of the port

A task polls the link of the port of the bus, and starts the master when the link has been up for a
while.  The master is a task of its own: it brings the bus up step by step, and then exchanges
process data cycle after cycle, or it deletes itself.  Both share the notification object, which is
initialised by each start.
-/

namespace EthercatMaster

/-! ### The notification object -/

/-- `ethercat_app_notify_t`, with the handle of the semaphore. -/
structure NotifyObject extends AppNotify, MasterStatus where
  portMonitorTask : Bool
  masterScanDoneSem : Option ℕ
deriving DecidableEq, Repr

/-- The object before anything is started. -/
def NotifyObject.init : NotifyObject where
  masterScanTask := false
  masterScanState := .idle
  masterScanSlaveCount := 0
  masterRunState := .idle
  masterScanDoneGiven := 0
  portMonitorTask := false
  masterScanDoneSem := none
  masterLastWkc := 0
  masterExpectedWkc := 0
  masterAlState := 0
  servoStatusWord := 0
  servoControlWord := 0

/-- `ethercat_app_common_open` on the object, with the handle that `xSemaphoreCreateBinary`
returns. -/
def NotifyObject.commonOpen (sem : Option ℕ) (n : NotifyObject) : Bool × NotifyObject :=
  let (opened, app) := ethercatAppCommonOpen sem.isSome n.toAppNotify
  if opened then
    (true, { n with toAppNotify := app, toMasterStatus := ⟨0, 0, 0, 0, 0⟩, masterScanDoneSem := sem })
  else (false, { n with masterScanDoneSem := sem })

/-- `ethercat_app_master_status_update`. -/
def NotifyObject.statusUpdate (n : NotifyObject) (status : MasterStatus) : NotifyObject :=
  { n with toMasterStatus := status }

/-! ### The task of the master -/

/-- What a step of the bring-up does to the notification object. -/
inductive NotifyAction where
  | runSet (state : RunState)
  | scanSet (state : ScanState) (slaveCount : ℤ)
deriving DecidableEq, Repr

def NotifyAction.apply (n : AppNotify) : NotifyAction → AppNotify
  | .runSet state => ethercatAppMasterRunSetState state n
  | .scanSet state slaveCount => ethercatAppMasterScanSetState state slaveCount n

/-- What `ecat_init` does to the notification object, step by step. -/
def ecatInitActions (b : BringupSteps) : List NotifyAction :=
  if b.ecInit then
    if 0 < b.ecConfigInit then
      .runSet .safeOp :: .runSet .opRequesting ::
        if !b.bind.1 then [.scanSet .failed 0, .runSet .failed]
        else if !b.gptInit then [.runSet .failed]
        else if b.warmup.1 && b.requestOp then
          [.scanSet .done b.slavecount, .runSet .operational, .runSet .pdoRunning]
        else [.scanSet .done b.slavecount, .runSet .failed]
    else [.scanSet .failed 0, .runSet .failed]
  else [.scanSet .failed 0, .runSet .failed]

/-- The steps together are `ecat_init`. -/
theorem foldl_ecatInitActions (b : BringupSteps) (n : AppNotify) :
  (ecatInitActions b).foldl NotifyAction.apply n = ecatInit b n
  := by
  rw [ecatInitActions, ecatInit]
  repeat' split
  all_goals rfl

/-- A task of the master: it has steps of the bring-up to do, or it is in its cyclic loop. -/
inductive MasterTask where
  | bringUp (rest : List NotifyAction)
  | cyclic
deriving DecidableEq, Repr

/-! ### The system -/

/-- `pdMS_TO_TICKS(ETHERCAT_LINK_STABLE_MS)`. -/
def ethercatLinkStableTicks : UInt32 := 500

/-- The variables of `ethercat_port_monitor_task`. -/
structure PortMonitor where
  port1LinkUpStartTick : UInt32
  port1StableReported : Bool
deriving DecidableEq, Repr

/-- The notification object, the number of semaphores created, the monitor and the tasks of the
master. -/
structure MasterSystem where
  notify : NotifyObject
  semaphores : ℕ
  monitor : PortMonitor
  tasks : List MasterTask
deriving DecidableEq, Repr

namespace MasterSystem

/-- Nothing is started. -/
def init : MasterSystem :=
  ⟨.init, 0, ⟨0, false⟩, []⟩

/-- `ethercat_app_common_open`, with whether a semaphore is created. -/
def commonOpen (created : Bool) (s : MasterSystem) : Bool × MasterSystem :=
  let (opened, n) := s.notify.commonOpen (if created then some s.semaphores else none)
  (opened, { s with notify := n, semaphores := s.semaphores + created.toNat })

/-- A step of the bring-up on the notification object. -/
def act (s : MasterSystem) (action : NotifyAction) : MasterSystem :=
  { s with notify := { s.notify with toAppNotify := action.apply s.notify.toAppNotify } }

/-- `ethercat_master_scan_start`. -/
def scanStart (created : Bool) (b : BringupSteps) (s : MasterSystem) : Bool × MasterSystem :=
  let (opened, s) := s.commonOpen created
  if !opened then (false, s)
  else if s.notify.masterScanTask then (true, s)
  else
    let s := (s.act (.scanSet .running 0)).act (.runSet .scanning)
    if !b.taskCreated then (false, s.act (.scanSet .failed 0))
    else
      (true, { s with
        notify := { s.notify with masterScanTask := true }
        tasks := s.tasks ++ [.bringUp (ecatInitActions b)] })

/-- `ethercat_port_monitor_start`, with the results of what it calls. -/
def monitorStart (created netifOpened netifStarted taskCreated : Bool) (s : MasterSystem) :
    MasterSystem :=
  let (opened, s) := s.commonOpen created
  if !opened || s.notify.portMonitorTask || !netifOpened || !netifStarted || !taskCreated then s
  else { s with notify := { s.notify with portMonitorTask := true }, monitor := ⟨0, false⟩ }

/-- The link of the port has been up for long enough, and this was not reported yet. -/
def StableUp (m : PortMonitor) (tick tick' : UInt32) : Prop :=
  m.port1StableReported = false ∧
    ethercatLinkStableTicks ≤
      tick' - (if m.port1LinkUpStartTick = 0 then tick else m.port1LinkUpStartTick)

instance (m : PortMonitor) (tick tick' : UInt32) : Decidable (StableUp m tick tick') :=
  inferInstanceAs (Decidable (_ ∧ _))

/-- A round of `ethercat_port_monitor_task` for the port of the bus, with the two readings of
`xTaskGetTickCount`. -/
def monitorPoll (linkUp : Bool) (tick tick' : UInt32) (created : Bool) (b : BringupSteps)
    (s : MasterSystem) : MasterSystem :=
  if linkUp then
    let startTick :=
      if s.monitor.port1LinkUpStartTick = 0 then tick else s.monitor.port1LinkUpStartTick
    if StableUp s.monitor tick tick' then
      (scanStart created b { s with monitor := ⟨startTick, true⟩ }).2
    else { s with monitor := { s.monitor with port1LinkUpStartTick := startTick } }
  else { s with monitor := ⟨0, false⟩ }

/-- A step of a task of the master: one of the bring-up, the check after it, or a cycle of the
loop. -/
def masterStep (i : ℕ) (status : Option MasterStatus) (s : MasterSystem) : MasterSystem :=
  match s.tasks[i]? with
  | none => s
  | some (.bringUp (action :: rest)) =>
      { s.act action with tasks := s.tasks.set i (.bringUp rest) }
  | some (.bringUp []) =>
      if s.notify.masterRunState = .pdoRunning then { s with tasks := s.tasks.set i .cyclic }
      else { s with tasks := s.tasks.eraseIdx i }
  | some .cyclic => { s with notify := status.elim s.notify s.notify.statusUpdate }

/-- What happens: the monitor is started, its task polls the port, or a task of the master takes a
step. -/
inductive Event where
  | monitorStart (created netifOpened netifStarted taskCreated : Bool)
  | poll (linkUp : Bool) (tick tick' : UInt32) (created : Bool) (b : BringupSteps)
  | master (i : ℕ) (status : Option MasterStatus)

/-- One step of the system. -/
def step (s : MasterSystem) : Event → MasterSystem
  | .monitorStart created netifOpened netifStarted taskCreated =>
      s.monitorStart created netifOpened netifStarted taskCreated
  | .poll linkUp tick tick' created b =>
      if s.notify.portMonitorTask then s.monitorPoll linkUp tick tick' created b else s
  | .master i status => s.masterStep i status

/-- The system as a machine. -/
def machine : Machine MasterSystem Event :=
  ⟨init, step⟩

/-- The call of `ethercat_app_common_open` in a step, with whether a semaphore is created. -/
def opening (s : MasterSystem) : Event → Option Bool
  | .monitorStart created _ _ _ => some created
  | .poll linkUp tick tick' created _ =>
      if s.notify.portMonitorTask ∧ linkUp ∧ StableUp s.monitor tick tick' then some created
      else none
  | .master _ _ => none

end MasterSystem

end EthercatMaster
