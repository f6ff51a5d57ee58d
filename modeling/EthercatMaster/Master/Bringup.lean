import EthercatMaster.Master.Loop

/-!
# Bringing the bus up

`ethercat_master_scan_start` creates the task of the master, which runs `ecat_init` and then enters
the cyclic loop.  What the steps of the bring-up result in is given; the states that other tasks
see, and the semaphore that releases them, are set by hand at each exit.
-/

namespace EthercatMaster

/-! ### States for other tasks -/

/-- `ethercat_master_scan_state_t`. -/
inductive ScanState where
  | idle
  | running
  | done
  | failed
deriving DecidableEq, Repr

/-- `ethercat_master_run_state_t`. -/
inductive RunState where
  | idle
  | linkDown
  | linkUp
  | scanning
  | safeOp
  | opRequesting
  | operational
  | pdoRunning
  | stopping
  | fault
  | failed
deriving DecidableEq, Repr

/-- `ethercat_app_notify_t`, with the number of times `master_scan_done_sem` was given. -/
structure AppNotify where
  masterScanTask : Bool
  masterScanState : ScanState
  masterScanSlaveCount : ℤ
  masterRunState : RunState
  masterScanDoneGiven : ℕ
deriving DecidableEq, Repr

/-- `ethercat_app_master_scan_set_state`. -/
def ethercatAppMasterScanSetState (state : ScanState) (slaveCount : ℤ) (n : AppNotify) :
    AppNotify :=
  let n := { n with masterScanState := state, masterScanSlaveCount := slaveCount }
  if state = .done ∨ state = .failed then
    { n with masterScanDoneGiven := n.masterScanDoneGiven + 1 }
  else n

/-- `ethercat_app_master_run_set_state`. -/
def ethercatAppMasterRunSetState (state : RunState) (n : AppNotify) : AppNotify :=
  { n with masterRunState := state }

/-- `ethercat_app_common_open`: the flag that it was opened is never set, so that the semaphore is
created each time. -/
def ethercatAppCommonOpen (created : Bool) (n : AppNotify) : Bool × AppNotify :=
  if created then (true, { n with masterRunState := .idle, masterScanDoneGiven := 0 })
  else (false, n)

/-! ### The steps -/

/-- `ETHERCAT_SAFE_OP_WARMUP_CYCLES`. -/
def safeOpWarmupCycles : ℕ := 50

/-- `ETHERCAT_AXIS_OP_TIMEOUT_CYCLES`. -/
def axisOpTimeoutCycles : ℕ := 1000

/-- `ETHERCAT_AXIS_OP_STABLE_CYCLES`. -/
def axisOpStableCycles : ℕ := 50

/-- `ETHERCAT_STATE_CHECK_INTERVAL`. -/
def stateCheckInterval : ℕ := 25

/-- `ETHERCAT_ZERO_WKC_LIMIT`. -/
def zeroWkcLimit : ℕ := 5

/-- `EC_STATE_ERROR`. -/
def ecStateError : UInt16 := 0x0010

/-- No axis is bound. -/
def Servos.unbound : Servos where
  axes := ⟨0, fun _ => none, fun _ => none⟩
  enable := fun _ => AxisEnable.bound

/-- The areas of the slaves are taken over one after another, until one of them is missing. -/
def bindAxes (inputs : ℕ → Option PdoInput) (outputs : ℕ → Option PdoOutput) :
    List ℕ → Servos → Bool × Servos
  | [], x => (true, x)
  | slave :: slaves, x =>
      let x :=
        { x with
          axes :=
            { x.axes with
              axisInputs := Function.update x.axes.axisInputs slave (inputs slave)
              axisOutputs := Function.update x.axes.axisOutputs slave (outputs slave) } }
      match inputs slave, outputs slave with
      | some _, some output =>
          let output :=
            { output with
              controlWord := cia402CwDisableVoltage
              targetVelocity := 0
              opModeSet := 8
              touchProbe := 0 }
          bindAxes inputs outputs slaves
            { x with
              axes :=
                { x.axes with
                  axisOutputs := Function.update x.axes.axisOutputs slave (some output) } }
      | _, _ => (false, x)

/-- `ethercat_master_axis_pdo_bind`. -/
def ethercatMasterAxisPdoBind (slavecount : ℤ) (inputs : ℕ → Option PdoInput)
    (outputs : ℕ → Option PdoOutput) : Bool × Servos :=
  if slavecount ≤ 0 ∨ (ecMaxslave : ℤ) ≤ slavecount then (false, Servos.unbound)
  else
    let (bound, x) := bindAxes inputs outputs (slavesTo slavecount.toNat) Servos.unbound
    if bound then (true, { x with axes := { x.axes with axisCount := slavecount.toNat } })
    else (false, x)

/-- The exchanges of the warm-up: the results of the ones to come, and the number of successive
exchanges without a working counter. -/
def warmupExchanges : List ℤ → ℕ → Bool
  | [], _ => true
  | wkc :: wkcs, zeroWkcCount =>
      if wkc < 0 then false
      else if wkc = 0 then
        if zeroWkcLimit < zeroWkcCount + 1 then false else warmupExchanges wkcs (zeroWkcCount + 1)
      else warmupExchanges wkcs 0

/-- The actual positions are taken over as positions to hold. -/
def Servos.takePositions (x : Servos) : Servos where
  axes :=
    { x.axes with
      axisOutputs := fun slave =>
        match x.axes.axisInputs slave, x.axes.axisOutputs slave with
        | some input, some output => some { output with targetPos := input.currentPosition }
        | _, output => output }
  enable := fun slave =>
    match x.axes.axisInputs slave with
    | some input => { x.enable slave with servoEnableHoldPos := input.currentPosition }
    | none => x.enable slave

/-- New contents of the input areas of the axes that are bound. -/
def Servos.exchange (received : ℕ → PdoInput) (x : Servos) : Servos :=
  { x with
    axes :=
      { x.axes with
        axisInputs := fun slave => (x.axes.axisInputs slave).map fun _ => received slave } }

/-- `ethercat_master_safe_op_warmup`, with the results of its exchanges and what they leave in the
input areas. -/
def ethercatMasterSafeOpWarmup (wkc : ℕ → ℤ) (received : ℕ → PdoInput) (x : Servos) :
    Bool × Servos :=
  let x := x.exchange received
  if warmupExchanges ((List.range safeOpWarmupCycles).map wkc) 0 then (true, x.takePositions)
  else (false, x)

/-- The counters of `ethercat_master_slave_request_op`. -/
structure OpRequest where
  stableCount : ℕ
  zeroWkcCount : ℕ
  stateConfirmed : Bool

/-- Both the result of `ec_statecheck` and the state it leaves are operational. -/
def bothOperational (check : UInt16 × UInt16) : Bool :=
  check.1 = ecStateOperational ∧ check.2 = ecStateOperational

/-- A cycle of `ethercat_master_slave_request_op`: a result, or the counters for the next one.  The
states are checked at an interval, and again when they have been stable. -/
def requestOpCycle (last : Bool) (expectedWkc wkc : ℤ) (check : Option (UInt16 × UInt16))
    (recheck : UInt16 × UInt16) (s : OpRequest) : Except Bool OpRequest :=
  if wkc < 0 then .error false
  else
    let s :=
      if wkc = 0 then { s with zeroWkcCount := s.zeroWkcCount + 1, stableCount := 0 }
      else { s with zeroWkcCount := 0 }
    if zeroWkcLimit < s.zeroWkcCount then .error false
    else
      let s := { s with stateConfirmed := (check.map bothOperational).getD s.stateConfirmed }
      if check.any fun check => check.2 &&& ecStateError ≠ 0 then .error false
      else
        let wkcReady : Bool := if last then 0 < expectedWkc ∧ expectedWkc ≤ wkc else 0 < wkc
        let s :=
          if s.stateConfirmed && wkcReady then { s with stableCount := s.stableCount + 1 }
          else { s with stableCount := 0 }
        if axisOpStableCycles ≤ s.stableCount then
          if bothOperational recheck then .error true
          else .ok { s with stableCount := 0, stateConfirmed := false }
        else .ok s

/-- The cycles of `ethercat_master_slave_request_op`. -/
def requestOpCycles (last : Bool) (expectedWkc : ℤ) (wkc : ℕ → ℤ)
    (check recheck : ℕ → UInt16 × UInt16) : List ℕ → OpRequest → Bool
  | [], _ => false
  | cycle :: cycles, s =>
      match requestOpCycle last expectedWkc (wkc cycle)
          (if cycle % stateCheckInterval = 0 then some (check cycle) else none) (recheck cycle) s with
      | .error result => result
      | .ok s => requestOpCycles last expectedWkc wkc check recheck cycles s

/-- `ethercat_master_slave_request_op`, with the results of its exchanges and of its checks. -/
def ethercatMasterSlaveRequestOp (slave axisCount : ℕ) (expectedWkc : ℤ) (wkc : ℕ → ℤ)
    (check recheck : ℕ → UInt16 × UInt16) : Bool :=
  if slave = 0 ∨ axisCount < slave then false
  else
    requestOpCycles (slave = axisCount) expectedWkc wkc check recheck
      (List.range axisOpTimeoutCycles) ⟨0, 0, false⟩

/-- `ethercat_master_request_op_sequential`, with the results of its requests and the states after
the last `ec_readstate`. -/
def ethercatMasterRequestOpSequential (axisCount : ℕ) (request : ℕ → Bool) (m : PdoCheck) : Bool :=
  (slavesTo axisCount).all request && ethercatMasterAllSlavesInState ecStateOperational m

/-! ### The bring-up -/

/-- What the steps of the bring-up result in. -/
structure BringupSteps where
  taskCreated : Bool
  ecInit : Bool
  ecConfigInit : ℤ
  slavecount : ℤ
  outputsWKC : ℕ
  inputsWKC : ℕ
  inputs : ℕ → Option PdoInput
  outputs : ℕ → Option PdoOutput
  gptInit : Bool
  warmupWkc : ℕ → ℤ
  warmupReceived : ℕ → PdoInput
  requestWkc : ℕ → ℕ → ℤ
  requestCheck : ℕ → ℕ → UInt16 × UInt16
  requestRecheck : ℕ → ℕ → UInt16 × UInt16
  lastCheck : PdoCheck

namespace BringupSteps

variable (b : BringupSteps)

/-- The expected working counter. -/
def expectedWkc : ℤ := b.outputsWKC * 2 + b.inputsWKC

/-- The binding of the axes. -/
def bind : Bool × Servos :=
  ethercatMasterAxisPdoBind b.slavecount b.inputs b.outputs

/-- The warm-up. -/
def warmup : Bool × Servos :=
  ethercatMasterSafeOpWarmup b.warmupWkc b.warmupReceived b.bind.2

/-- The requests for the state OP, slave after slave. -/
def requestOp : Bool :=
  ethercatMasterRequestOpSequential b.bind.2.axes.axisCount
    (fun slave =>
      ethercatMasterSlaveRequestOp slave b.bind.2.axes.axisCount b.expectedWkc
        (b.requestWkc slave) (b.requestCheck slave) (b.requestRecheck slave))
    b.lastCheck

end BringupSteps

/-- `ecat_init`. -/
def ecatInit (b : BringupSteps) (n : AppNotify) : AppNotify :=
  if b.ecInit then
    if 0 < b.ecConfigInit then
      let n := ethercatAppMasterRunSetState .safeOp n
      let n := ethercatAppMasterRunSetState .opRequesting n
      if !b.bind.1 then
        ethercatAppMasterRunSetState .failed (ethercatAppMasterScanSetState .failed 0 n)
      else if !b.gptInit then
        -- the state of the scan is not set here
        ethercatAppMasterRunSetState .failed n
      else if b.warmup.1 && b.requestOp then
        let n := ethercatAppMasterScanSetState .done b.slavecount n
        let n := ethercatAppMasterRunSetState .operational n
        ethercatAppMasterRunSetState .pdoRunning n
      else
        ethercatAppMasterRunSetState .failed
          (ethercatAppMasterScanSetState .done b.slavecount n)
    else
      ethercatAppMasterRunSetState .failed (ethercatAppMasterScanSetState .failed 0 n)
  else
    ethercatAppMasterRunSetState .failed (ethercatAppMasterScanSetState .failed 0 n)

/-- `ethercat_master_scan_start`, followed by `ecat_init` in the task it creates.  The result is
whether the call succeeds. -/
def ethercatMasterScanStart (semaphoreCreated : Bool) (b : BringupSteps) (n : AppNotify) :
    Bool × AppNotify :=
  let (opened, n) := ethercatAppCommonOpen semaphoreCreated n
  if !opened then (false, n)
  else if n.masterScanTask then (true, n)
  else
    let n := ethercatAppMasterScanSetState .running 0 n
    let n := ethercatAppMasterRunSetState .scanning n
    if !b.taskCreated then (false, ethercatAppMasterScanSetState .failed 0 n)
    else (true, ecatInit b { n with masterScanTask := true })

/-! ### The outcome -/

/-- The bring-up has ended, and other tasks can tell: no state is left at running, the semaphore
was given once, and the states agree. -/
structure AppNotify.Settled (n : AppNotify) (slavecount : ℤ) : Prop where
  run : n.masterRunState = .pdoRunning ∨ n.masterRunState = .failed
  scan : n.masterScanState = .done ∨ n.masterScanState = .failed
  given : n.masterScanDoneGiven = 1
  failed : n.masterScanState = .failed →
    n.masterScanSlaveCount = 0 ∧ n.masterRunState = .failed
  running : n.masterRunState = .pdoRunning →
    n.masterScanState = .done ∧ n.masterScanSlaveCount = slavecount

section Exits

variable {n : AppNotify} {slavecount : ℤ}

/-- The exits at which nothing was found. -/
theorem AppNotify.settled_failed (hgiven : n.masterScanDoneGiven = 0) :
  (ethercatAppMasterRunSetState .failed
    (ethercatAppMasterScanSetState .failed 0 n)).Settled slavecount
  := by
  constructor
  case run => exact Or.inr rfl
  case scan => exact Or.inr rfl
  case given => exact congrArg (· + 1) hgiven
  case failed => exact fun _ => ⟨rfl, rfl⟩
  case running => rintro ⟨⟩

/-- The exits at which the slaves were found, running or not. -/
theorem AppNotify.settled_done (hgiven : n.masterScanDoneGiven = 0) {state : RunState}
    (hstate : state = .pdoRunning ∨ state = .failed) :
  (ethercatAppMasterRunSetState state
    (ethercatAppMasterScanSetState .done slavecount n)).Settled slavecount
  := by
  constructor
  case run => exact hstate
  case scan => exact Or.inl rfl
  case given => exact congrArg (· + 1) hgiven
  case failed => rintro ⟨⟩
  case running => exact fun _ => ⟨rfl, rfl⟩

/-- `ecat_init` settles, except if the timer cannot be started once the axes are bound. -/
theorem settled_ecatInit (b : BringupSteps) (hscan : n.masterScanState = .running)
    (hgiven : n.masterScanDoneGiven = 0) :
  (ecatInit b n).Settled b.slavecount
    ↔ ¬ (b.ecInit = true ∧ 0 < b.ecConfigInit ∧ b.bind.1 = true ∧ b.gptInit = false)
  := by
  rw [ecatInit]
  split
  case isFalse hinit =>
    apply iff_of_true (AppNotify.settled_failed hgiven)
    rintro ⟨hinit', -⟩
    contradiction
  rename_i hinit
  split
  case isFalse hconfig =>
    apply iff_of_true (AppNotify.settled_failed hgiven)
    rintro ⟨-, hconfig', -⟩
    contradiction
  rename_i hconfig
  cases hbind : b.bind.1 with
  | false =>
      apply iff_of_true (AppNotify.settled_failed hgiven)
      rintro ⟨-, -, ⟨⟩, -⟩
  | true =>
      cases hgpt : b.gptInit with
      | false =>
          apply iff_of_false
          · intro hsettled
            have hstate : n.masterScanState = .done ∨ n.masterScanState = .failed := hsettled.scan
            rw [hscan] at hstate
            rcases hstate with hstate | hstate
            · cases hstate
            · cases hstate
          · exact not_not.mpr ⟨hinit, hconfig, rfl, rfl⟩
      | true =>
          have hcondition : ¬ (b.ecInit = true ∧ 0 < b.ecConfigInit ∧ true = true
              ∧ true = false) := by
            rintro ⟨-, -, -, ⟨⟩⟩
          apply iff_of_true _ hcondition
          dsimp only
          rw [if_neg (by decide), if_neg (by decide)]
          split
          · exact AppNotify.settled_done hgiven (Or.inl rfl)
          · exact AppNotify.settled_done hgiven (Or.inr rfl)

end Exits

/-- Every attempt settles, except if its task cannot be created, or if the timer cannot be started
once the axes are bound. -/
theorem settled_iff (b : BringupSteps) (n : AppNotify) (htask : n.masterScanTask = false) :
  (ethercatMasterScanStart true b n).2.Settled b.slavecount
    ↔ b.taskCreated = true
      ∧ ¬ (b.ecInit = true ∧ 0 < b.ecConfigInit ∧ b.bind.1 = true ∧ b.gptInit = false)
  := by
  rw [ethercatMasterScanStart, ethercatAppCommonOpen, if_pos rfl]
  dsimp only
  rw [if_neg (by decide), htask, if_neg (by decide)]
  cases hcreated : b.taskCreated with
  | false =>
      -- the scan has failed, but the master is left scanning
      apply iff_of_false
      · intro hsettled
        rcases hsettled.run with hrun | hrun
        · cases hrun
        · cases hrun
      · rintro ⟨⟨⟩, -⟩
  | true =>
      rw [and_iff_right rfl]
      apply settled_ecatInit b rfl rfl

namespace OneDrive

/-- One drive that is brought up. -/
def steps : BringupSteps where
  taskCreated := true
  ecInit := true
  ecConfigInit := 1
  slavecount := 1
  outputsWKC := 1
  inputsWKC := 1
  inputs := fun _ => some ⟨0, 0, 8, 0, 0, 0⟩
  outputs := fun _ => some ⟨0, 0, 0, 0, 0⟩
  gptInit := true
  warmupWkc := fun _ => 3
  warmupReceived := fun _ => ⟨0x0040, 0, 8, 0, 0, 0⟩
  requestWkc := fun _ _ => 3
  requestCheck := fun _ _ => (ecStateOperational, ecStateOperational)
  requestRecheck := fun _ _ => (ecStateOperational, ecStateOperational)
  lastCheck := PdoCheck.oneDrive

/-- Nothing has been started. -/
def notify : AppNotify := ⟨false, .idle, 0, .linkUp, 0⟩

theorem settled_steps :
  (ethercatMasterScanStart true steps notify).2.Settled 1
  := by
  apply (settled_iff steps notify rfl).mpr
  decide

/-- Without the timer the scan is left running and the semaphore is not given; without the task
the master is left scanning. -/
theorem left_running :
  (ethercatMasterScanStart true { steps with gptInit := false } notify).2
      = ⟨true, .running, 0, .failed, 0⟩
    ∧ (ethercatMasterScanStart true { steps with taskCreated := false } notify).2
      = ⟨false, .failed, 0, .scanning, 1⟩
    ∧ ¬ (ethercatMasterScanStart true { steps with gptInit := false } notify).2.Settled 1
    ∧ ¬ (ethercatMasterScanStart true { steps with taskCreated := false } notify).2.Settled 1
  := by
  refine ⟨by decide, by decide, ?_, ?_⟩
  · intro hsettled
    exact absurd hsettled.scan (by decide)
  · intro hsettled
    exact absurd hsettled.run (by decide)

end OneDrive

/-! ### Into the loop -/

/-- Binding the axes leaves the state machines. -/
theorem bindAxes_enable (inputs : ℕ → Option PdoInput) (outputs : ℕ → Option PdoOutput)
    (slaves : List ℕ) (x : Servos) :
  (bindAxes inputs outputs slaves x).2.enable = x.enable
  := by
  induction slaves generalizing x with
  | nil => rfl
  | cons slave slaves ih =>
      rw [bindAxes]
      dsimp only
      split
      · rw [ih]
      · rfl

/-- The axes that have been bound have both areas, and so have the others they had before. -/
theorem bindAxes_bound {inputs : ℕ → Option PdoInput} {outputs : ℕ → Option PdoOutput}
    {slaves : List ℕ} {x : Servos} (h : (bindAxes inputs outputs slaves x).1 = true)
    {slave : ℕ} (hslave : slave ∈ slaves
      ∨ (∃ input output, x.axes.axisInputs slave = some input
        ∧ x.axes.axisOutputs slave = some output)) :
  ∃ input output, (bindAxes inputs outputs slaves x).2.axes.axisInputs slave = some input
    ∧ (bindAxes inputs outputs slaves x).2.axes.axisOutputs slave = some output
  := by
  induction slaves generalizing x with
  | nil =>
      rcases hslave with hslave | hbound
      · cases hslave
      · apply hbound
  | cons first slaves ih =>
      rw [bindAxes] at h ⊢
      dsimp only at h ⊢
      split at h
      · rename_i input output hinput houtput
        apply ih h
        by_cases hfirst : slave = first
        · right
          subst hfirst
          refine ⟨input, _, ?_, Function.update_self ..⟩
          dsimp only
          rw [Function.update_self, hinput]
        · rcases hslave with hslave | ⟨input', output', hinput', houtput'⟩
          · left
            exact (List.mem_cons.mp hslave).resolve_left hfirst
          · right
            refine ⟨input', output', ?_, ?_⟩
            · dsimp only
              rw [Function.update_of_ne hfirst, hinput']
            · dsimp only
              rw [Function.update_of_ne hfirst, Function.update_of_ne hfirst, houtput']
      · cases h

/-- The axes are bound when the binding succeeds. -/
theorem ethercatMasterAxisPdoBind_spec {slavecount : ℤ} {inputs : ℕ → Option PdoInput}
    {outputs : ℕ → Option PdoOutput}
    (h : (ethercatMasterAxisPdoBind slavecount inputs outputs).1 = true) :
  ∃ x, (ethercatMasterAxisPdoBind slavecount inputs outputs).2 = x
    ∧ 0 < slavecount ∧ (x.axes.axisCount : ℤ) = slavecount
    ∧ (x.enable = fun _ => AxisEnable.bound)
    ∧ ∀ slave, 0 < slave ∧ slave ≤ x.axes.axisCount →
      ∃ input output, x.axes.axisInputs slave = some input
        ∧ x.axes.axisOutputs slave = some output
  := by
  rw [ethercatMasterAxisPdoBind] at h ⊢
  split at h
  · cases h
  rename_i hcount
  rw [if_neg hcount]
  rw [not_or, not_le] at hcount
  dsimp only at h ⊢
  split at h
  · rename_i hbound
    rw [if_pos hbound]
    refine ⟨_, rfl, hcount.1, Int.toNat_of_nonneg hcount.1.le, bindAxes_enable .., ?_⟩
    intro slave hslave
    apply bindAxes_bound hbound
    left
    apply mem_slavesTo.mpr hslave
  · cases h

/-- When the master runs, it enters the loop with its axes bound and their state machines at the
start, each with the actual position to hold. -/
theorem enters_loop {F : Type} [FloatArith F] (b : BringupSteps) (n : AppNotify)
    (hrun : (ecatInit b n).masterRunState = .pdoRunning) :
  ∃ axes holdPos, b.warmup.2 = (Master.init axes b.lastCheck holdPos : Master F).servos
    ∧ (axes.axisCount : ℤ) = b.slavecount ∧ 0 < axes.axisCount
    ∧ ∀ slave, 0 < slave ∧ slave ≤ axes.axisCount →
      ∃ input output, axes.axisInputs slave = some input ∧ axes.axisOutputs slave = some output
        ∧ holdPos slave = input.currentPosition ∧ output.targetPos = input.currentPosition
  := by
  have hsteps : b.bind.1 = true ∧ b.warmup.1 = true := by
    rw [ecatInit] at hrun
    dsimp only at hrun
    split_ifs at hrun with _ _ hbind _ hwarmup
    all_goals try cases hrun
    rw [Bool.and_eq_true] at hwarmup
    exact ⟨by simpa using hbind, hwarmup.1⟩
  obtain ⟨hbind, hwarmup⟩ := hsteps
  obtain ⟨x, hx, hpos, hcount, henable, hbound⟩ := ethercatMasterAxisPdoBind_spec hbind
  have hservos : b.warmup.2 = (x.exchange b.warmupReceived).takePositions := by
    rw [BringupSteps.warmup, ethercatMasterSafeOpWarmup] at hwarmup ⊢
    split at hwarmup
    · rename_i hexchanges
      rw [if_pos hexchanges, BringupSteps.bind, hx]
    · cases hwarmup
  refine ⟨(x.exchange b.warmupReceived).takePositions.axes,
    fun slave => ((x.axes.axisInputs slave).map fun _ =>
      (b.warmupReceived slave).currentPosition).getD 0, ?_, hcount, ?_, ?_⟩
  · rw [hservos]
    apply (Servos.mk.injEq ..).mpr
    refine ⟨rfl, ?_⟩
    funext slave
    rw [Servos.exchange, henable]
    dsimp only
    cases x.axes.axisInputs slave with
    | none => rfl
    | some input => rfl
  · rw [← Int.natCast_pos]
    apply lt_of_lt_of_eq hpos hcount.symm
  · intro slave hslave
    obtain ⟨input, output, hinput, houtput⟩ := hbound slave hslave
    rw [Servos.takePositions, Servos.exchange]
    dsimp only
    rw [hinput, houtput]
    exact ⟨_, _, rfl, rfl, rfl, rfl⟩

end EthercatMaster
