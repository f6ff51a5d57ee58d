import EthercatMaster.Pdo
import EthercatMaster.Library.Bytes
import Mathlib.Data.Int.Notation
import Mathlib.Order.Lattice

/-!
# The check of a PDO cycle

`ethercat_master_pdo_process_check` decides from the working counter and the states of the slaves
whether the process data of a cycle is good, and keeps a monitor for each axis.
-/

namespace EthercatMaster

/-- The axes bound to the process image, numbered from 1, with their areas; a null pointer points
to none. -/
structure Axes where
  axisCount : ℕ
  axisInputs : ℕ → Option PdoInput
  axisOutputs : ℕ → Option PdoOutput

/-- The areas of the first axis. -/
def Axes.area (a : Axes) : PdoArea :=
  ⟨a.axisInputs 1, a.axisOutputs 1⟩

/-! ### Areas in the process image -/

/-- `PDO_Input` in the process image. -/
def PdoInput.ofBytes (b : Bytes) : PdoInput where
  statusWord := b.uint16 0
  currentPosition := (b.uint32 2).toInt32
  opModeNow := (b 6).toInt8
  touchProbeStatus := b.uint16 7
  touchProbePos1 := (b.uint32 9).toInt32
  digitalinputs := b.uint32 13

/-- `PDO_Output` in the process image. -/
def PdoOutput.ofBytes (b : Bytes) : PdoOutput where
  controlWord := b.uint16 0
  targetPos := (b.uint32 2).toInt32
  targetVelocity := (b.uint32 6).toInt32
  opModeSet := (b 10).toInt8
  touchProbe := b.uint16 11

/-- The areas of the axes in a process image, at the positions they are bound to. -/
def Axes.ofImage (image : Bytes) (axisCount : ℕ) (inputs outputs : ℕ → Option ℕ) : Axes where
  axisCount := axisCount
  axisInputs := fun slave => (inputs slave).map fun start => PdoInput.ofBytes (image.drop start)
  axisOutputs := fun slave => (outputs slave).map fun start => PdoOutput.ofBytes (image.drop start)

/-! ### The check -/

/-- `EC_MAXSLAVE`. -/
def ecMaxslave : ℕ := 200

/-- `EC_STATE_OPERATIONAL`. -/
def ecStateOperational : UInt16 := 0x0008

/-- `ethercat_pdo_monitor_t`. -/
structure PdoMonitor where
  cycleCount : UInt32
  goodCount : UInt32
  badCount : UInt32
  unchangedCount : UInt32
  wkc : ℤ
  expectedWkc : ℤ
  state : UInt16
  statusWord : UInt16
  position : Int32
  positionDelta : Int32
  mode : Int8
  controlWord : UInt16
  targetPos : Int32
  pdoOk : Bool
deriving DecidableEq, Repr

/-- The last sample of an axis. -/
structure LastSample where
  position : Int32
  statusWord : UInt16
  mode : Int8
deriving DecidableEq, Repr

/-- `ethercat_app_master_status_update`: the status for other tasks. -/
structure MasterStatus where
  masterLastWkc : ℤ
  masterExpectedWkc : ℤ
  masterAlState : UInt16
  servoStatusWord : UInt16
  servoControlWord : UInt16
deriving DecidableEq, Repr

/-- The static variables of the check, the working counters of the group and the states of the
slaves. -/
structure PdoCheck where
  expectedWkc : ℤ
  lastWkc : ℤ
  outputsWKC : ℕ
  inputsWKC : ℕ
  slavecount : ℤ
  slaveState : ℕ → UInt16
  pdoMonitor : ℕ → PdoMonitor
  lastSample : ℕ → Option LastSample
  status : MasterStatus

/-- One drive, operational, before the first cycle. -/
def PdoCheck.oneDrive : PdoCheck where
  expectedWkc := 3
  lastWkc := 0
  outputsWKC := 1
  inputsWKC := 1
  slavecount := 1
  slaveState := fun _ => ecStateOperational
  pdoMonitor := fun _ => ⟨0, 0, 0, 0, 0, 0, 0, 0, 0, 0, 0, 0, 0, false⟩
  lastSample := fun _ => none
  status := ⟨0, 0, 0, 0, 0⟩

/-- The slaves numbered from 1. -/
def slavesTo (count : ℕ) : List ℕ :=
  List.range' 1 count

theorem mem_slavesTo {slave count : ℕ} :
  slave ∈ slavesTo count ↔ 0 < slave ∧ slave ≤ count
  := by
  rw [slavesTo, List.mem_range'_1]
  omega

/-- `ethercat_master_all_slaves_in_state`. -/
def ethercatMasterAllSlavesInState (state : UInt16) (m : PdoCheck) : Bool :=
  if m.slavecount ≤ 0 ∨ (ecMaxslave : ℤ) ≤ m.slavecount then false
  else (slavesTo m.slavecount.toNat).all fun slave => m.slaveState slave = state

/-- The monitor of an axis after a cycle. -/
def PdoMonitor.update (monitor : PdoMonitor) (wkc expectedWkc : ℤ) (pdoOk : Bool)
    (lastSample : Option LastSample) (state : UInt16) (input : PdoInput) (output : PdoOutput) :
    PdoMonitor where
  cycleCount := monitor.cycleCount + 1
  wkc := wkc
  expectedWkc := expectedWkc
  pdoOk := pdoOk
  goodCount := if pdoOk then monitor.goodCount + 1 else monitor.goodCount
  badCount := if pdoOk then monitor.badCount else monitor.badCount + 1
  unchangedCount :=
    if lastSample = some ⟨input.currentPosition, input.statusWord, input.opModeNow⟩ then
      monitor.unchangedCount + 1
    else 0
  state := state
  statusWord := input.statusWord
  position := input.currentPosition
  positionDelta := (lastSample.map fun sample => input.currentPosition - sample.position).getD 0
  mode := input.opModeNow
  controlWord := output.controlWord
  targetPos := output.targetPos

/-- A round of the loop over the axes: an axis with no areas is skipped. -/
def monitorAxis (wkc : ℤ) (pdoOk : Bool) (axes : Axes) (m : PdoCheck) (slave : ℕ) : PdoCheck :=
  match axes.axisInputs slave, axes.axisOutputs slave with
  | some input, some output =>
      { m with
        pdoMonitor := Function.update m.pdoMonitor slave
          ((m.pdoMonitor slave).update wkc m.expectedWkc pdoOk (m.lastSample slave)
            (m.slaveState slave) input output)
        lastSample := Function.update m.lastSample slave
          (some ⟨input.currentPosition, input.statusWord, input.opModeNow⟩) }
  | _, _ => m

/-- The expected working counter is computed if it has not been set. -/
def PdoCheck.expect (m : PdoCheck) : PdoCheck :=
  if m.expectedWkc ≤ 0 then { m with expectedWkc := m.outputsWKC * 2 + m.inputsWKC } else m

/-- The result of the check: all axes are bound, the working counter is what is expected, and all
slaves are operational. -/
def PdoCheck.pdoOk (wkc : ℤ) (axes : Axes) (m : PdoCheck) : Bool :=
  (slavesTo axes.axisCount).all
      (fun slave => (axes.axisInputs slave).isSome && (axes.axisOutputs slave).isSome)
    && !(decide (0 < m.expectedWkc) && decide (wkc < m.expectedWkc))
    && ethercatMasterAllSlavesInState ecStateOperational m

/-- `ethercat_master_pdo_process_check`. -/
def ethercatMasterPdoProcessCheck (wkc : ℤ) (axes : Axes) (m : PdoCheck) : Bool × PdoCheck :=
  let m := { m with lastWkc := wkc }.expect
  if axes.axisCount = 0 then
    (false, m)
  else
    let pdoOk := m.pdoOk wkc axes
    let m := (slavesTo axes.axisCount).foldl (monitorAxis wkc pdoOk axes) m
    match axes.axisInputs 1, axes.axisOutputs 1 with
    | some input, some output =>
        (pdoOk,
          { m with
            status :=
              ⟨wkc, m.expectedWkc, m.slaveState 1, input.statusWord, output.controlWord⟩ })
    | _, _ => (pdoOk, m)

/-! ### Results -/

theorem PdoCheck.expect_of_pos {m : PdoCheck} (h : 0 < m.expectedWkc) :
  m.expect = m
  := by
  rw [expect, if_neg (not_le.mpr h)]

/-- A good cycle has a working counter. -/
theorem PdoCheck.wkc_pos {wkc : ℤ} {axes : Axes} {m : PdoCheck} (hexpected : 0 < m.expectedWkc)
    (h : m.pdoOk wkc axes = true) :
  0 < wkc
  := by
  rw [pdoOk, Bool.and_eq_true, Bool.and_eq_true] at h
  have hwkc := h.1.2
  rw [decide_eq_true hexpected, Bool.true_and, Bool.not_eq_true', decide_eq_false_iff_not,
    not_lt] at hwkc
  apply lt_of_lt_of_le hexpected hwkc

/-- The result of the check. -/
theorem ethercatMasterPdoProcessCheck_fst (wkc : ℤ) (axes : Axes) {m : PdoCheck}
    (hexpected : 0 < m.expectedWkc) (h : (ethercatMasterPdoProcessCheck wkc axes m).1 = true) :
  0 < wkc
  := by
  have hexpect : PdoCheck.expect { m with lastWkc := wkc } = { m with lastWkc := wkc } :=
    PdoCheck.expect_of_pos hexpected
  unfold ethercatMasterPdoProcessCheck at h
  rw [hexpect] at h
  dsimp only at h
  split at h
  · cases h
  split at h
  · exact PdoCheck.wkc_pos hexpected h
  · exact PdoCheck.wkc_pos hexpected h

/-- The loop over the axes changes their monitors only. -/
theorem monitorAxis_expectedWkc (wkc : ℤ) (pdoOk : Bool) (axes : Axes) (m : PdoCheck)
    (slaves : List ℕ) :
  (slaves.foldl (monitorAxis wkc pdoOk axes) m).expectedWkc = m.expectedWkc
  := by
  induction slaves generalizing m with
  | nil => rfl
  | cons slave slaves ih =>
      rw [List.foldl_cons, ih]
      unfold monitorAxis
      split
      · rfl
      · rfl

/-- The expected working counter stays. -/
theorem ethercatMasterPdoProcessCheck_expectedWkc (wkc : ℤ) (axes : Axes) {m : PdoCheck}
    (hexpected : 0 < m.expectedWkc) :
  (ethercatMasterPdoProcessCheck wkc axes m).2.expectedWkc = m.expectedWkc
  := by
  have hexpect : PdoCheck.expect { m with lastWkc := wkc } = { m with lastWkc := wkc } :=
    PdoCheck.expect_of_pos hexpected
  unfold ethercatMasterPdoProcessCheck
  rw [hexpect]
  dsimp only
  split
  · rfl
  split
  · dsimp only
    apply monitorAxis_expectedWkc
  · dsimp only
    apply monitorAxis_expectedWkc

/-- In a good cycle all axes are bound. -/
theorem bound_of_pdoOk {wkc : ℤ} {axes : Axes} {m : PdoCheck}
    (h : (ethercatMasterPdoProcessCheck wkc axes m).1 = true) :
  0 < axes.axisCount ∧ ∀ slave, 0 < slave ∧ slave ≤ axes.axisCount →
    ∃ input output, axes.axisInputs slave = some input ∧ axes.axisOutputs slave = some output
  := by
  unfold ethercatMasterPdoProcessCheck at h
  dsimp only at h
  split at h
  · cases h
  rename_i hcount
  refine ⟨Nat.pos_of_ne_zero hcount, ?_⟩
  have hok : (PdoCheck.expect { m with lastWkc := wkc }).pdoOk wkc axes = true := by
    split at h
    · apply h
    · apply h
  intro slave hslave
  rw [PdoCheck.pdoOk, Bool.and_eq_true, Bool.and_eq_true, List.all_eq_true] at hok
  have hbound := hok.1.1 slave (mem_slavesTo.mpr hslave)
  rw [Bool.and_eq_true] at hbound
  obtain ⟨input, hinput⟩ := Option.isSome_iff_exists.mp hbound.1
  obtain ⟨output, houtput⟩ := Option.isSome_iff_exists.mp hbound.2
  exact ⟨input, output, hinput, houtput⟩

end EthercatMaster
