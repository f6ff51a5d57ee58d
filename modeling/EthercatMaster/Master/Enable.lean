import EthercatMaster.Master.Check

/-!
# Switching the servos on

The CiA402 state machine of an axis, which takes its drive to Operation Enabled, and the loop
over all axes.
-/

namespace EthercatMaster

/-- `servo_enable_state_t`. -/
inductive ServoEnableState where
  | idle
  | faultResetPulse
  | waitFaultClear
  | shutdown
  | switchOn
  | cspPrepare
  | enableOperation
  | done
  | failed
deriving DecidableEq, Repr

/-- The variables of the state machine of an axis. -/
structure AxisEnable where
  enableState : ServoEnableState
  enableWaitCount : UInt32
  servoEnableHoldPos : Int32
  enableResult : ℤ
deriving DecidableEq, Repr

/-- The variables after `ethercat_master_axis_pdo_bind`. -/
def AxisEnable.bound : AxisEnable := ⟨.idle, 0, 0, 0⟩

/-- A state in which the drive does not do what is waited for: the call is counted, and above a
limit the axis fails. -/
def AxisEnable.await (limit : UInt32) (output : PdoOutput) (e : AxisEnable) :
    ℤ × PdoOutput × AxisEnable :=
  let e := { e with enableWaitCount := e.enableWaitCount + 1 }
  if limit < e.enableWaitCount then (-1, output, { e with enableState := .failed })
  else (0, output, e)

/-- The next state, with the count from zero. -/
def AxisEnable.goto (state : ServoEnableState) (e : AxisEnable) : AxisEnable :=
  { e with enableState := state, enableWaitCount := 0 }

/-- The drive is enabled: it is held at the position at which this was first seen. -/
def servoHold (opMode : Int8) (input : PdoInput) (output : PdoOutput) (e : AxisEnable) :
    ℤ × PdoOutput × AxisEnable :=
  let e :=
    if e.enableState ≠ .done then { e with servoEnableHoldPos := input.currentPosition } else e
  let output :=
    { output with
      targetPos := e.servoEnableHoldPos
      targetVelocity := 0
      controlWord := cia402CwEnableOperation }
  if opMode ≠ 0 ∧ input.opModeNow ≠ opMode then (0, output, e) else (1, output, e.goto .done)

/-- The drive is not enabled: one step of the state machine. -/
def servoAdvance (opMode : Int8) (input : PdoInput) (output : PdoOutput) (e : AxisEnable) :
    ℤ × PdoOutput × AxisEnable :=
  match e.enableState with
  | .idle =>
      (0, { output with controlWord := cia402CwDisableVoltage },
        e.goto (if input.fault then .faultResetPulse else .shutdown))
  | .faultResetPulse =>
      (0, { output with controlWord := cia402CwFaultReset }, e.goto .waitFaultClear)
  | .waitFaultClear =>
      let output := { output with controlWord := cia402CwDisableVoltage }
      if !input.fault then (0, output, e.goto .shutdown) else e.await 500 output
  | .shutdown =>
      let output := { output with controlWord := cia402CwShutdown }
      if input.statusState = cia402SwReadyToSwitchOn then (0, output, e.goto .switchOn)
      else e.await 1000 output
  | .switchOn =>
      let output := { output with controlWord := cia402CwSwitchOn }
      if input.statusState = cia402SwSwitchedOn then
        (0,
          { output with
            targetPos := input.currentPosition
            targetVelocity := 0
            opModeSet := if opMode ≠ 0 then opMode else output.opModeSet },
          { e.goto .cspPrepare with servoEnableHoldPos := input.currentPosition })
      else e.await 1000 output
  | .cspPrepare =>
      let output :=
        { output with
          controlWord := cia402CwSwitchOn
          opModeSet := if opMode ≠ 0 then opMode else output.opModeSet
          targetPos := input.currentPosition
          targetVelocity := 0 }
      let e :=
        { e with
          servoEnableHoldPos := input.currentPosition
          enableWaitCount := e.enableWaitCount + 1 }
      if (opMode = 0 ∨ input.opModeNow = opMode) ∧ 5 ≤ e.enableWaitCount then
        (0, output, e.goto .enableOperation)
      else if 1000 < e.enableWaitCount then (-1, output, { e with enableState := .failed })
      else (0, output, e)
  | .enableOperation =>
      e.await 1000
        { output with
          targetPos := e.servoEnableHoldPos
          targetVelocity := 0
          controlWord := cia402CwEnableOperation }
  | .done =>
      -- the drive has left Operation Enabled
      (0, { output with controlWord := cia402CwDisableVoltage }, e.goto .idle)
  | .failed => (-1, { output with controlWord := cia402CwDisableVoltage }, e)

/-- The state machine of an axis whose areas are bound. -/
def servoEnable (opMode : Int8) (input : PdoInput) (output : PdoOutput) (e : AxisEnable) :
    ℤ × PdoOutput × AxisEnable :=
  let output := if opMode ≠ 0 then { output with opModeSet := opMode } else output
  if input.operationEnabled then servoHold opMode input output e
  else servoAdvance opMode input output e

/-- The axes with their state machines. -/
structure Servos where
  axes : Axes
  enable : ℕ → AxisEnable

/-- `ethercat_servo_enable_process`. -/
def ethercatServoEnableProcess (slave : ℕ) (opMode : Int8) (x : Servos) : ℤ × Servos :=
  if slave = 0 ∨ x.axes.axisCount < slave then
    (-1, x)
  else
    match x.axes.axisInputs slave, x.axes.axisOutputs slave with
    | some input, some output =>
        let (result, output, e) := servoEnable opMode input output (x.enable slave)
        (result,
          { x with
            axes :=
              { x.axes with
                axisOutputs := Function.update x.axes.axisOutputs slave (some output) }
            enable := Function.update x.enable slave e })
    | _, _ => (-1, x)

/-- A round of the loop over the axes. -/
def enableAxis (opMode : Int8) (x : Servos) (slave : ℕ) : Servos :=
  let (result, x) := ethercatServoEnableProcess slave opMode x
  { x with
    enable := Function.update x.enable slave { x.enable slave with enableResult := result } }

/-- `ethercat_servo_all_axes_enable_process`: the result is -1 if an axis has failed, 0 if an axis
is not enabled yet, and 1 if all are enabled. -/
def ethercatServoAllAxesEnableProcess (opMode : Int8) (x : Servos) : ℤ × Servos :=
  if x.axes.axisCount = 0 then
    (-1, x)
  else
    let slaves := slavesTo x.axes.axisCount
    let x := slaves.foldl (enableAxis opMode) x
    (if slaves.any fun slave => (x.enable slave).enableResult < 0 then -1
      else if slaves.any fun slave => (x.enable slave).enableResult = 0 then 0
      else 1,
      x)

/-- `ethercat_master_axis_operation_enabled_get`. -/
def ethercatMasterAxisOperationEnabledGet (slave : ℕ) (axes : Axes) : ℤ :=
  if slave = 0 ∨ axes.axisCount < slave then -1
  else
    match axes.axisInputs slave with
    | none => -1
    | some input => if input.operationEnabled then 1 else 0

/-! ### One axis in the loop -/

/-- An axis that is seen to be enabled for the first time is held at its actual position. -/
theorem servoEnable_targetPos {input : PdoInput} {e : AxisEnable}
    (h : input.operationEnabled = true) (hstate : e.enableState ≠ .done) (opMode : Int8)
    (output : PdoOutput) :
  (servoEnable opMode input output e).2.1.targetPos = input.currentPosition
  := by
  rw [servoEnable, if_pos h, servoHold, if_pos hstate]
  dsimp only
  split_ifs
  all_goals rfl

/-- What a call does while the drive is enabled. -/
theorem servoHold_spec (opMode : Int8) (input : PdoInput) (output : PdoOutput) (e : AxisEnable) :
  (servoHold opMode input output e).2.1.controlWord = cia402CwEnableOperation
    ∧ (servoHold opMode input output e).2.2.servoEnableHoldPos
      = (if e.enableState ≠ .done then input.currentPosition else e.servoEnableHoldPos)
    ∧ ((¬ (opMode ≠ 0 ∧ input.opModeNow ≠ opMode)
        ∧ (servoHold opMode input output e).2.2.enableState = .done)
      ∨ ((opMode ≠ 0 ∧ input.opModeNow ≠ opMode)
        ∧ (servoHold opMode input output e).2.2.enableState = e.enableState
        ∧ (servoHold opMode input output e).2.2.enableWaitCount = e.enableWaitCount))
  := by
  rw [servoHold]
  by_cases hmode : opMode ≠ 0 ∧ input.opModeNow ≠ opMode
  · rw [if_pos hmode]
    split
    · exact ⟨rfl, rfl, Or.inr ⟨hmode, rfl, rfl⟩⟩
    · exact ⟨rfl, rfl, Or.inr ⟨hmode, rfl, rfl⟩⟩
  · rw [if_neg hmode]
    split
    · exact ⟨rfl, rfl, Or.inl ⟨hmode, rfl⟩⟩
    · exact ⟨rfl, rfl, Or.inl ⟨hmode, rfl⟩⟩

/-- The control word that the state machine writes in a state, while the drive is not enabled. -/
def ServoEnableState.controlWord : ServoEnableState → UInt16
  | .idle => cia402CwDisableVoltage
  | .faultResetPulse => cia402CwFaultReset
  | .waitFaultClear => cia402CwDisableVoltage
  | .shutdown => cia402CwShutdown
  | .switchOn => cia402CwSwitchOn
  | .cspPrepare => cia402CwSwitchOn
  | .enableOperation => cia402CwEnableOperation
  | .done => cia402CwDisableVoltage
  | .failed => cia402CwDisableVoltage

/-- The calls after which a state that waits for the drive gives up. -/
def ServoEnableState.limit : ServoEnableState → UInt32
  | .waitFaultClear => 500
  | _ => 1000

/-- The states that wait for the drive. -/
def ServoEnableState.Waits (state : ServoEnableState) : Prop :=
  state = .waitFaultClear ∨ state = .shutdown ∨ state = .switchOn ∨ state = .cspPrepare
    ∨ state = .enableOperation

/-- What a call does to the state machine while the drive is not enabled. -/
inductive EnableAdvance (opMode : Int8) (input : PdoInput) (e : AxisEnable) : AxisEnable → Prop where
  | start (state : e.enableState = .idle) :
      EnableAdvance opMode input e
        (e.goto (if input.fault then .faultResetPulse else .shutdown))
  | pulse (state : e.enableState = .faultResetPulse) :
      EnableAdvance opMode input e (e.goto .waitFaultClear)
  | cleared (state : e.enableState = .waitFaultClear) (clear : input.fault = false) :
      EnableAdvance opMode input e (e.goto .shutdown)
  | ready (state : e.enableState = .shutdown)
      (ready : input.statusState = cia402SwReadyToSwitchOn) :
      EnableAdvance opMode input e (e.goto .switchOn)
  | switchedOn (state : e.enableState = .switchOn)
      (switchedOn : input.statusState = cia402SwSwitchedOn) :
      EnableAdvance opMode input e
        { e.goto .cspPrepare with servoEnableHoldPos := input.currentPosition }
  | prepared (state : e.enableState = .cspPrepare)
      (mode : opMode = 0 ∨ input.opModeNow = opMode) (five : 5 ≤ e.enableWaitCount + 1) :
      EnableAdvance opMode input e
        { e.goto .enableOperation with servoEnableHoldPos := input.currentPosition }
  | preparing (state : e.enableState = .cspPrepare) (within : e.enableWaitCount + 1 ≤ 1000) :
      EnableAdvance opMode input e
        { e with
          servoEnableHoldPos := input.currentPosition
          enableWaitCount := e.enableWaitCount + 1 }
  | waiting (state : e.enableState.Waits) (other : e.enableState ≠ .cspPrepare)
      (within : e.enableWaitCount + 1 ≤ e.enableState.limit) :
      EnableAdvance opMode input e { e with enableWaitCount := e.enableWaitCount + 1 }
  | timedOut (e' : AxisEnable) (state : e.enableState.Waits)
      (above : e.enableState.limit < e.enableWaitCount + 1) (failed : e'.enableState = .failed) :
      EnableAdvance opMode input e e'
  | left (state : e.enableState = .done) : EnableAdvance opMode input e (e.goto .idle)
  | failed (state : e.enableState = .failed) : EnableAdvance opMode input e e

/-- A call in a state other than `SERVO_ENABLE_CSP_PREPARE` that does not see what it waits
for. -/
theorem AxisEnable.await_advance {opMode : Int8} {input : PdoInput} {e : AxisEnable}
    (hwaits : e.enableState.Waits) (hother : e.enableState ≠ .cspPrepare) {limit : UInt32}
    (hlimit : e.enableState.limit = limit) (output : PdoOutput) :
  EnableAdvance opMode input e (e.await limit output).2.2
  := by
  subst hlimit
  rw [await]
  dsimp only
  split
  · rename_i habove
    exact .timedOut _ hwaits habove rfl
  · rename_i hwithin
    exact .waiting hwaits hother (UInt32.not_lt.mp hwithin)

theorem servoAdvance_advance (opMode : Int8) (input : PdoInput) (output : PdoOutput)
    (e : AxisEnable) :
  EnableAdvance opMode input e (servoAdvance opMode input output e).2.2
  := by
  unfold servoAdvance
  split
  case h_1 hstate => exact .start hstate
  case h_2 hstate => exact .pulse hstate
  case h_3 hstate =>
    dsimp only
    split
    · rename_i hclear
      exact .cleared hstate (by simpa using hclear)
    · apply AxisEnable.await_advance (Or.inl hstate)
      · rw [hstate]
        decide
      · rw [hstate]
        rfl
  case h_4 hstate =>
    dsimp only
    split
    · rename_i hready
      exact .ready hstate hready
    · apply AxisEnable.await_advance (Or.inr (Or.inl hstate))
      · rw [hstate]
        decide
      · rw [hstate]
        rfl
  case h_5 hstate =>
    dsimp only
    split
    · rename_i hswitchedOn
      exact .switchedOn hstate hswitchedOn
    · apply AxisEnable.await_advance (Or.inr (Or.inr (Or.inl hstate)))
      · rw [hstate]
        decide
      · rw [hstate]
        rfl
  case h_6 hstate =>
    dsimp only
    split
    · rename_i hprepared
      exact .prepared hstate hprepared.1 hprepared.2
    split
    · rename_i habove
      refine .timedOut _ (Or.inr (Or.inr (Or.inr (Or.inl hstate)))) ?_ rfl
      rw [hstate]
      apply habove
    · rename_i hwithin
      exact .preparing hstate (UInt32.not_lt.mp hwithin)
  case h_7 hstate =>
    apply AxisEnable.await_advance (Or.inr (Or.inr (Or.inr (Or.inr hstate))))
    · rw [hstate]
      decide
    · rw [hstate]
      rfl
  case h_8 hstate => exact .left hstate
  case h_9 hstate => exact .failed hstate

theorem AxisEnable.await_output (limit : UInt32) (output : PdoOutput) (e : AxisEnable) :
  (e.await limit output).2.1 = output
  := by
  rw [await]
  dsimp only
  split
  · rfl
  · rfl

/-- What a call writes while the drive is not enabled. -/
theorem servoAdvance_output (opMode : Int8) (input : PdoInput) (output : PdoOutput)
    (e : AxisEnable) :
  (servoAdvance opMode input output e).2.1.controlWord = e.enableState.controlWord
    ∧ (e.enableState = .cspPrepare →
      (servoAdvance opMode input output e).2.1.targetPos = input.currentPosition
        ∧ (servoAdvance opMode input output e).2.1.targetVelocity = 0)
    ∧ (e.enableState = .enableOperation →
      (servoAdvance opMode input output e).2.1.targetPos = e.servoEnableHoldPos)
  := by
  unfold servoAdvance
  cases hstate : e.enableState with
  | waitFaultClear | shutdown | switchOn =>
      dsimp only
      split
      · exact ⟨rfl, by rintro ⟨⟩, by rintro ⟨⟩⟩
      · rw [AxisEnable.await_output]
        exact ⟨rfl, by rintro ⟨⟩, by rintro ⟨⟩⟩
  | cspPrepare =>
      dsimp only
      split
      · exact ⟨rfl, fun _ => ⟨rfl, rfl⟩, by rintro ⟨⟩⟩
      split
      · exact ⟨rfl, fun _ => ⟨rfl, rfl⟩, by rintro ⟨⟩⟩
      · exact ⟨rfl, fun _ => ⟨rfl, rfl⟩, by rintro ⟨⟩⟩
  | enableOperation =>
      dsimp only
      rw [AxisEnable.await_output]
      exact ⟨rfl, by rintro ⟨⟩, fun _ => rfl⟩
  | idle | faultResetPulse | done | failed => exact ⟨rfl, by rintro ⟨⟩, by rintro ⟨⟩⟩

/-- The state machine does not reach its end while the drive is not enabled. -/
theorem EnableAdvance.enableState_ne_done {opMode : Int8} {input : PdoInput} {e e' : AxisEnable}
    (h : EnableAdvance opMode input e e') :
  e'.enableState ≠ .done
  := by
  cases h with
  | start _ =>
      show (if input.fault then ServoEnableState.faultResetPulse else .shutdown) ≠ .done
      split
      · decide
      · decide
  | preparing state _ =>
      show e.enableState ≠ .done
      rw [state]
      decide
  | waiting state _ _ =>
      show e.enableState ≠ .done
      rcases state with state | state | state | state | state
      all_goals
        rw [state]
        decide
  | timedOut state _ _ failed =>
      rw [failed]
      decide
  | failed state =>
      rw [state]
      decide
  | _ =>
      intro hdone
      cases hdone

/-- A call that leaves the state machine waiting for the drive to be enabled has just prepared it,
or found it waiting. -/
theorem EnableAdvance.to_enableOperation {opMode : Int8} {input : PdoInput} {e e' : AxisEnable}
    (h : EnableAdvance opMode input e e') (hstate : e'.enableState = .enableOperation) :
  (e.enableState = .cspPrepare ∧ 5 ≤ e.enableWaitCount + 1
      ∧ e'.servoEnableHoldPos = input.currentPosition)
    ∨ (e.enableState = .enableOperation ∧ e'.servoEnableHoldPos = e.servoEnableHoldPos)
  := by
  cases h with
  | prepared state _ five => exact Or.inl ⟨state, five, rfl⟩
  | waiting _ _ _ => exact Or.inr ⟨hstate, rfl⟩
  | start _ =>
      rw [AxisEnable.goto] at hstate
      dsimp only at hstate
      split at hstate
      · cases hstate
      · cases hstate
  | preparing state _ =>
      rw [state] at hstate
      cases hstate
  | timedOut _ _ _ failed =>
      rw [failed] at hstate
      cases hstate
  | failed state =>
      rw [state] at hstate
      cases hstate
  | _ => cases hstate

/-- At the end of the state machine, the drive is enabled. -/
theorem operationEnabled_of_done {opMode : Int8} {input : PdoInput} {output : PdoOutput}
    {e : AxisEnable} (h : (servoEnable opMode input output e).2.2.enableState = .done) :
  input.operationEnabled = true
  := by
  rw [servoEnable] at h
  by_contra henabled
  rw [if_neg henabled] at h
  exact (servoAdvance_advance _ _ _ _).enableState_ne_done h

/-! ### The loop -/

/-- What the loop has for an axis. -/
def Servos.axis (x : Servos) (slave : ℕ) : Option PdoInput × Option PdoOutput × AxisEnable :=
  (x.axes.axisInputs slave, x.axes.axisOutputs slave, x.enable slave)

theorem enableAxis_axisCount (opMode : Int8) (x : Servos) (slave : ℕ) :
  (enableAxis opMode x slave).axes.axisCount = x.axes.axisCount
  := by
  unfold enableAxis ethercatServoEnableProcess
  dsimp only
  split
  · rfl
  split
  · rfl
  · rfl

/-- A round of the loop leaves the other axes. -/
theorem axis_enableAxis_of_ne (opMode : Int8) (x : Servos) {slave slave' : ℕ}
    (h : slave' ≠ slave) :
  (enableAxis opMode x slave).axis slave' = x.axis slave'
  := by
  unfold enableAxis ethercatServoEnableProcess Servos.axis
  dsimp only
  rw [Function.update_of_ne h]
  split
  · rfl
  split
  · dsimp only
    rw [Function.update_of_ne h, Function.update_of_ne h]
  · rfl

/-- A round of the loop depends on its axis. -/
theorem axis_enableAxis_congr (opMode : Int8) {x y : Servos} {slave : ℕ}
    (hcount : x.axes.axisCount = y.axes.axisCount) (haxis : x.axis slave = y.axis slave) :
  (enableAxis opMode x slave).axis slave = (enableAxis opMode y slave).axis slave
  := by
  rw [Servos.axis, Servos.axis, Prod.mk.injEq, Prod.mk.injEq] at haxis
  obtain ⟨hinput, houtput, henable⟩ := haxis
  unfold enableAxis ethercatServoEnableProcess Servos.axis
  dsimp only
  rw [hcount, hinput, houtput, henable]
  split
  · simp [hinput, houtput, henable]
  split
  · simp [hinput]
  · simp [hinput, houtput, henable]

/-- The loop over some axes. -/
theorem axis_foldl_enableAxis (opMode : Int8) {slaves : List ℕ} (hslaves : slaves.Nodup)
    (x : Servos) (slave : ℕ) :
  (slaves.foldl (enableAxis opMode) x).axis slave
      = (if slave ∈ slaves then enableAxis opMode x slave else x).axis slave
    ∧ (slaves.foldl (enableAxis opMode) x).axes.axisCount = x.axes.axisCount
  := by
  induction slaves generalizing x with
  | nil => exact ⟨rfl, rfl⟩
  | cons first slaves ih =>
      obtain ⟨hfirst, hrest⟩ := List.nodup_cons.mp hslaves
      obtain ⟨haxis, hcount⟩ := ih hrest (enableAxis opMode x first)
      rw [List.foldl_cons]
      refine ⟨haxis.trans ?_, hcount.trans (enableAxis_axisCount opMode x first)⟩
      by_cases hslave : slave = first
      · subst hslave
        rw [if_neg hfirst, if_pos List.mem_cons_self]
      · by_cases hmem : slave ∈ slaves
        · rw [if_pos hmem, if_pos (List.mem_cons_of_mem _ hmem)]
          apply axis_enableAxis_congr
          · apply enableAxis_axisCount
          · apply axis_enableAxis_of_ne _ _ hslave
        · have hnotmem : slave ∉ first :: slaves := by
            rw [List.mem_cons, not_or]
            exact ⟨hslave, hmem⟩
          rw [if_neg hmem, if_neg hnotmem]
          apply axis_enableAxis_of_ne _ _ hslave

/-- A round of the loop for an axis whose areas are bound. -/
theorem axis_enableAxis (opMode : Int8) {x : Servos} {slave : ℕ} {input : PdoInput}
    {output : PdoOutput} (h : 0 < slave ∧ slave ≤ x.axes.axisCount)
    (hinput : x.axes.axisInputs slave = some input)
    (houtput : x.axes.axisOutputs slave = some output) :
  (enableAxis opMode x slave).axis slave
    = (some input, some (servoEnable opMode input output (x.enable slave)).2.1,
      { (servoEnable opMode input output (x.enable slave)).2.2 with
        enableResult := (servoEnable opMode input output (x.enable slave)).1 })
  := by
  unfold enableAxis ethercatServoEnableProcess Servos.axis
  dsimp only
  rw [if_neg (by omega), hinput, houtput]
  simp [hinput]

/-- An axis after the loop over all axes. -/
theorem axis_ethercatServoAllAxesEnableProcess (opMode : Int8) (x : Servos) {slave : ℕ}
    (h : 0 < slave ∧ slave ≤ x.axes.axisCount) :
  (ethercatServoAllAxesEnableProcess opMode x).2.axis slave
      = (enableAxis opMode x slave).axis slave
    ∧ (ethercatServoAllAxesEnableProcess opMode x).2.axes.axisCount = x.axes.axisCount
  := by
  rw [ethercatServoAllAxesEnableProcess, if_neg (by omega)]
  have hnodup : (slavesTo x.axes.axisCount).Nodup := List.nodup_range'
  have hfold := axis_foldl_enableAxis opMode hnodup x slave
  rw [if_pos (mem_slavesTo.mpr h)] at hfold
  apply hfold

end EthercatMaster
