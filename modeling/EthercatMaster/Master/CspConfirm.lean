import EthercatMaster.Master.Reenable
import EthercatMaster.Master.Sequence

/-!
# The mode in which a drive is enabled

The cyclic loop advances the state machines without a mode asked for, so that
`SERVO_ENABLE_CSP_PREPARE` is left after five cycles whatever mode the drive reports.  The mode is
confirmed as far as the drive reports it in the last of these cycles.
-/

namespace EthercatMaster

/-! ### What the state machine goes by -/

/-- The same state, for as many calls. -/
def AxisEnable.Same (e e' : AxisEnable) : Prop :=
  e.enableState = e'.enableState ∧ e.enableWaitCount = e'.enableWaitCount

theorem AxisEnable.Same.await {e e' : AxisEnable} (h : e.Same e') (limit : UInt32)
    (output output' : PdoOutput) :
  (e.await limit output).2.2.Same (e'.await limit output').2.2
  := by
  unfold AxisEnable.await
  dsimp only
  rw [h.2]
  split
  · exact ⟨rfl, rfl⟩
  · exact ⟨h.1, rfl⟩

theorem AxisEnable.Same.servoHold {e e' : AxisEnable} (h : e.Same e') (opMode : Int8)
    (input : PdoInput) (output : PdoOutput) :
  (servoHold opMode input output e).2.2.Same (servoHold opMode input output e').2.2
  := by
  unfold EthercatMaster.servoHold
  by_cases hmode : opMode ≠ 0 ∧ input.opModeNow ≠ opMode
  · rw [if_pos hmode, if_pos hmode, h.1]
    split
    · exact ⟨rfl, h.2⟩
    · exact h
  · rw [if_neg hmode, if_neg hmode]
    exact ⟨rfl, rfl⟩

theorem AxisEnable.Same.servoAdvance {e e' : AxisEnable} (h : e.Same e') (opMode : Int8)
    (input : PdoInput) (output : PdoOutput) :
  (servoAdvance opMode input output e).2.2.Same (servoAdvance opMode input output e').2.2
  := by
  unfold EthercatMaster.servoAdvance
  rw [← h.1]
  cases hstate : e.enableState with
  | waitFaultClear | shutdown | switchOn =>
      dsimp only
      split
      · exact ⟨rfl, rfl⟩
      · apply h.await
  | cspPrepare =>
      dsimp only
      rw [← h.2]
      split
      · exact ⟨rfl, rfl⟩
      split
      · exact ⟨rfl, rfl⟩
      · exact ⟨rfl, rfl⟩
  | enableOperation => apply h.await
  | failed => apply h
  | idle | faultResetPulse | done => exact ⟨rfl, rfl⟩

/-- What a call writes as control word and the state it leaves depend on the state it finds. -/
theorem AxisEnable.Same.servoEnable {e e' : AxisEnable} (h : e.Same e') (opMode : Int8)
    (input : PdoInput) (output : PdoOutput) :
  (servoEnable opMode input output e).2.2.Same (servoEnable opMode input output e').2.2
    ∧ (EthercatMaster.servoEnable opMode input output e).2.1.controlWord
      = (EthercatMaster.servoEnable opMode input output e').2.1.controlWord
  := by
  unfold EthercatMaster.servoEnable
  dsimp only
  split
  · refine ⟨h.servoHold _ _ _, ?_⟩
    rw [(servoHold_spec _ _ _ _).1, (servoHold_spec _ _ _ _).1]
  · refine ⟨h.servoAdvance _ _ _, ?_⟩
    rw [(servoAdvance_output _ _ _ _).1, (servoAdvance_output _ _ _ _).1, h.1]

/-! ### An axis in the loop -/

namespace Master

variable {F : Type} [FloatArith F] [PositiveRoots F]

/-- The areas with which an event calls the state machine of an axis: those of a good cycle. -/
def axisCall (slave : ℕ) (m : Master F) : MasterEvent F → Option (PdoInput × PdoOutput)
  | .cycle wkc axisInputs axisOutputs =>
      if (m.checked wkc axisInputs axisOutputs).1 then
        (axisInputs slave).bind fun input => (axisOutputs slave).map fun output => (input, output)
      else none
  | _ => none

/-- The run of an axis in a run of the loop. -/
def axisRun (slave : ℕ) (m : Master F) (es : List (MasterEvent F)) : AxisRun where
  opMode := 0
  calls i := es[i]?.bind (axisCall slave ((machine m).before es i))

section Cycle

variable {m : Master F} {slave : ℕ} {input : PdoInput} {output : PdoOutput}

/-- The scheduler leaves the number of axes, and the control words. -/
theorem process_axis {output : PdoOutput} (houtput : m.servos.axes.axisOutputs slave = some output) :
  m.process.servos.axes.axisCount = m.servos.axes.axisCount
    ∧ ∃ output', m.process.servos.axes.axisOutputs slave = some output'
      ∧ output'.controlWord = output.controlWord
  := by
  refine ⟨rfl, ?_⟩
  by_cases hfirst : slave = 1
  · subst hfirst
    have hupdate : m.process.servos.axes.axisOutputs 1
        = (ethercatMotionProcess m.servos.axes.area m.motion).1.output1s :=
      Function.update_self (β := fun _ => Option PdoOutput) 1 _ m.servos.axes.axisOutputs
    rw [hupdate, ethercatMotionProcess]
    have harea : m.servos.axes.area.output1s = some output := houtput
    cases hinput : m.servos.axes.area.input1s with
    | none =>
        use output
    | some input =>
        rw [harea]
        exact ⟨_, rfl, rfl⟩
  · have hupdate : m.process.servos.axes.axisOutputs slave = m.servos.axes.axisOutputs slave :=
      Function.update_of_ne hfirst _ m.servos.axes.axisOutputs
    rw [hupdate]
    use output

/-- An axis after a good cycle. -/
theorem control_axis (hslave : 0 < slave ∧ slave ≤ m.servos.axes.axisCount)
    (hinput : m.servos.axes.axisInputs slave = some input)
    (houtput : m.servos.axes.axisOutputs slave = some output) :
  m.control.servos.axes.axisCount = m.servos.axes.axisCount
    ∧ (m.control.servos.enable slave).Same
      (servoEnable 0 input output (m.servos.enable slave)).2.2
    ∧ ∃ output', m.control.servos.axes.axisOutputs slave = some output'
      ∧ output'.controlWord
        = (servoEnable 0 input output (m.servos.enable slave)).2.1.controlWord
  := by
  obtain ⟨hcount, -, houtput', henable⟩ := enable_axis hslave hinput houtput
  rw [control_enable, henable]
  rw [control]
  split
  · obtain ⟨hcount', houtput''⟩ := process_axis houtput'
    exact ⟨hcount'.trans hcount, ⟨rfl, rfl⟩, houtput''⟩
  · exact ⟨hcount, ⟨rfl, rfl⟩, _, houtput', rfl⟩

end Cycle

section Run

variable {axes : Axes} (check : PdoCheck) (holdPos : ℕ → Int32) (es : List (MasterEvent F))
  {slave : ℕ}

omit check holdPos in
theorem axisRun_calls (slave : ℕ) (m : Master F) {i : ℕ} {e : MasterEvent F} (he : es[i]? = some e) :
  (axisRun slave m es).calls i = axisCall slave ((machine m).before es i) e
  := by
  show es[i]?.bind _ = _
  rw [he]
  rfl

/-- A good cycle calls an axis. -/
theorem Good.axis {m : Master F} {i : ℕ} {wkc : ℤ} {axisInputs : ℕ → Option PdoInput}
    {axisOutputs : ℕ → Option PdoOutput} {es : List (MasterEvent F)}
    (h : Good m es i wkc axisInputs axisOutputs)
    (hslave : 0 < slave ∧ slave ≤ ((machine m).before es i).servos.axes.axisCount) :
  ∃ input output, (axisRun slave m es).calls i = some (input, output)
    ∧ ((machine m).before es (i + 1)).servos.axes.axisCount
      = ((machine m).before es i).servos.axes.axisCount
    ∧ (((machine m).before es (i + 1)).servos.enable slave).Same
      (servoEnable 0 input output (((machine m).before es i).servos.enable slave)).2.2
    ∧ ∃ output', ((machine m).before es (i + 1)).servos.axes.axisOutputs slave = some output'
      ∧ output'.controlWord
        = (servoEnable 0 input output
          (((machine m).before es i).servos.enable slave)).2.1.controlWord
  := by
  obtain ⟨-, hbound⟩ := bound_of_pdoOk h.2
  obtain ⟨input, output, hinput, houtput⟩ := hbound slave hslave
  have hcall : (axisRun slave m es).calls i = some (input, output) := by
    rw [axisRun_calls es slave m h.1, axisCall, if_pos h.2]
    rw [show axisInputs slave = some input from hinput,
      show axisOutputs slave = some output from houtput]
    rfl
  use input, output, hcall
  rw [h.before_succ]
  have hslave' : 0 < slave ∧ slave ≤ (((machine m).before es i).cycleState wkc axisInputs
      axisOutputs).servos.axes.axisCount := hslave
  apply control_axis hslave' hinput houtput

/-- In the loop, an axis goes through its run. -/
theorem axisRun_state (hslave : 0 < slave ∧ slave ≤ axes.axisCount) (i : ℕ) :
  ((machine (init axes check holdPos)).before es i).servos.axes.axisCount = axes.axisCount
    ∧ (((machine (init axes check holdPos)).before es i).servos.enable slave).Same
      ((axisRun slave (init axes check holdPos) es).state i)
  := by
  induction i with
  | zero => exact ⟨rfl, rfl, rfl⟩
  | succ i ih =>
      obtain ⟨hcount, hsame⟩ := ih
      cases he : es[i]? with
      | none =>
          have hcall : (axisRun slave (init axes check holdPos) es).calls i = none := by
            show es[i]?.bind _ = _
            rw [he]
            rfl
          rw [Machine.before_succ_of_none _ he, AxisRun.state_succ_of_none hcall]
          exact ⟨hcount, hsame⟩
      | some e =>
          have hstep : (machine (init axes check holdPos)).before es (i + 1)
              = ((machine (init axes check holdPos)).before es i).step e :=
            Machine.before_succ _ he
          have hcall := axisRun_calls es slave (init axes check holdPos) he
          cases e with
          | task e _ =>
              rw [hstep, AxisRun.state_succ_of_none hcall]
              exact ⟨hcount, hsame⟩
          | slaveStates slaveState =>
              rw [hstep, AxisRun.state_succ_of_none hcall]
              exact ⟨hcount, hsame⟩
          | cycle wkc axisInputs axisOutputs =>
              by_cases hok : (((machine (init axes check holdPos)).before es i).checked wkc
                  axisInputs axisOutputs).1 = true
              · have hgood : Good (init axes check holdPos) es i wkc axisInputs axisOutputs :=
                  ⟨he, hok⟩
                rw [← hcount] at hslave
                obtain ⟨input, output, hcalls, hcount', hnext, -⟩ := hgood.axis hslave
                rw [AxisRun.state_succ hcalls]
                have hsame' := (hsame.servoEnable 0 input output).1
                exact ⟨hcount'.trans hcount, hnext.1.trans hsame'.1, hnext.2.trans hsame'.2⟩
              · rw [axisCall, if_neg hok] at hcall
                rw [hstep, step_cycle, if_neg hok, AxisRun.state_succ_of_none hcall]
                exact ⟨hcount, hsame⟩

omit check holdPos in
/-- An axis is called in good cycles only. -/
theorem good_of_call {m : Master F} {i : ℕ} {input : PdoInput} {output : PdoOutput}
    (h : (axisRun slave m es).calls i = some (input, output)) :
  ∃ wkc axisInputs axisOutputs, Good m es i wkc axisInputs axisOutputs
  := by
  obtain ⟨e, he, hcall⟩ := Option.bind_eq_some_iff.mp h
  cases e with
  | task e _ => cases hcall
  | slaveStates slaveState => cases hcall
  | cycle wkc axisInputs axisOutputs =>
      use wkc, axisInputs, axisOutputs, he
      by_contra hok
      rw [axisCall, if_neg hok] at hcall
      cases hcall

/-- The state of an axis, and the control word a cycle leaves in its output area, are those of its
run. -/
theorem axisRun_spec (hslave : 0 < slave ∧ slave ≤ axes.axisCount) (i : ℕ) :
  (((machine (init axes check holdPos)).before es i).servos.enable slave).enableState
      = ((axisRun slave (init axes check holdPos) es).state i).enableState
    ∧ ∀ input output, (axisRun slave (init axes check holdPos) es).calls i = some (input, output) →
      ∃ output', ((machine (init axes check holdPos)).before es (i + 1)).servos.axes.axisOutputs
          slave = some output'
        ∧ output'.controlWord
          = (servoEnable 0 input output
            ((axisRun slave (init axes check holdPos) es).state i)).2.1.controlWord
  := by
  obtain ⟨hcount, hsame⟩ := axisRun_state check holdPos es hslave i
  refine ⟨hsame.1, ?_⟩
  intro input output hcall
  obtain ⟨wkc, axisInputs, axisOutputs, hgood⟩ := good_of_call es hcall
  rw [← hcount] at hslave
  obtain ⟨input', output', hcall', -, -, output'', houtput, hword⟩ := hgood.axis hslave
  rw [hcall] at hcall'
  cases hcall'
  use output'', houtput
  rw [hword, (hsame.servoEnable 0 input output).2]

end Run

end Master

/-! ### The mode -/

namespace AxisRun

variable {r : AxisRun} {i : ℕ}

/-- A call in which the drive is prepared and reports the mode CSP. -/
def ReportsCsp (r : AxisRun) : ℕ → Prop :=
  r.At fun input e _ =>
    (e.enableState = .cspPrepare ∧ input.operationEnabled = false) ∧ input.opModeNow = 8

/-- A call that prepares the drive for the fifth time. -/
def PreparesFifth (r : AxisRun) : ℕ → Prop :=
  r.At fun input e _ =>
    (e.enableState = .cspPrepare ∧ input.operationEnabled = false) ∧ 5 ≤ e.enableWaitCount + 1

/-- A call that writes Enable operation to a drive that is not enabled. -/
def Enables (r : AxisRun) (i : ℕ) : Prop :=
  r.Writes cia402CwEnableOperation i ∧ ¬ r.Enabled i

/-- The first such call since the drive was enabled. -/
def EnablesFirst (r : AxisRun) (i : ℕ) : Prop :=
  r.Enables i ∧ ¬ Since (fun k => ¬ r.Enabled k) r.Enables i

/-- If no mode is asked for, a drive that is to be enabled was prepared five times since it was
last enabled. -/
theorem preparesFifth_of_enableOperation (hmode : r.opMode = 0)
    (h : (r.state i).enableState = .enableOperation) :
  Since (fun k => ¬ r.Enabled k) r.PreparesFifth i
  := by
  induction i with
  | zero => cases h
  | succ i ih =>
      rcases r.instant i with ⟨hcall, hsame⟩ | ⟨input, output, hcall, henabled, -, -, hnext⟩ |
        ⟨input, output, hcall, hdisabled, hword, hnext⟩
      · rw [hsame] at h
        apply (ih h).keep
        exact not_at_of_none _ hcall
      · rcases hnext with ⟨-, hdone⟩ | ⟨⟨hne, -⟩, -⟩
        · rw [hdone] at h
          cases h
        · contradiction
      · have henabled : ¬ r.Enabled i := by
          rw [Enabled, at_iff hcall, hdisabled]
          decide
        rcases hnext.to_enableOperation h with ⟨hstate, hfive, -⟩ | ⟨hstate, -⟩
        · apply Since.now
          rw [PreparesFifth, at_iff hcall]
          exact ⟨⟨hstate, hdisabled⟩, hfive⟩
        · exact (ih hstate).keep henabled

end AxisRun

/-- In the loop, an axis is enabled only after its drive has reported the mode CSP while it was
prepared, if the drive reports that mode whenever it is prepared for the fifth time. -/
theorem csp_confirmed {F : Type} [FloatArith F] [PositiveRoots F] (axes : Axes) (check : PdoCheck)
    (holdPos : ℕ → Int32) (es : List (MasterEvent F)) (slave : ℕ)
    (hslave : 0 < slave ∧ slave ≤ axes.axisCount) :
  let m : Master F := Master.init axes check holdPos
  let r := Master.axisRun slave m es
  (∀ i, (((Master.machine m).before es i).servos.enable slave).enableState
        = (r.state i).enableState
      ∧ ∀ input output, r.calls i = some (input, output) →
        ∃ output', ((Master.machine m).before es (i + 1)).servos.axes.axisOutputs slave
            = some output'
          ∧ output'.controlWord = (servoEnable 0 input output (r.state i)).2.1.controlWord)
    ∧ ∀ i, (∀ k < i, r.PreparesFifth k → r.ReportsCsp k) → r.EnablesFirst i →
      Since (fun k => ¬ r.Enabled k) r.ReportsCsp i
  := by
  intro m r
  constructor
  · apply Master.axisRun_spec check holdPos es hslave
  · intro i hreports hfirst
    have hstate := AxisRun.enableOperation_of_writes hfirst.1.1 hfirst.1.2
    obtain ⟨j, hlt, hfifth, hsince⟩ := AxisRun.preparesFifth_of_enableOperation rfl hstate
    exact ⟨j, hlt, hreports j hlt hfifth, hsince⟩

/-! ### A drive in another mode -/

namespace OtherMode

/-- The drive is ready to be enabled, in a mode it reports all the time. -/
def inputs (opModeNow : Int8) : List PdoInput :=
  ([Reenabled.driveInput 0x0040 0, Reenabled.driveInput 0x0021 0]
    ++ List.replicate 7 (Reenabled.driveInput 0x0023 0)).map
      fun input => { input with opModeNow := opModeNow }

/-- The run of the only axis in the loop. -/
def run (opModeNow : Int8) : AxisRun :=
  Master.axisRun 1 Reenabled.start (Reenabled.replies Reenabled.start (inputs opModeNow))

/-- The drive is enabled although it has never reported the mode CSP. -/
theorem enabled_in_other_mode :
  (run 0).EnablesFirst 8 ∧ ∀ k < 8, ¬ (run 0).ReportsCsp k
  := by
  unfold AxisRun.EnablesFirst AxisRun.Enables AxisRun.Writes AxisRun.Enabled AxisRun.ReportsCsp
  decide +kernel

/-- In the mode CSP it is enabled as well. -/
theorem csp_confirmed_run :
  (run 8).EnablesFirst 8
    ∧ Since (fun k => ¬ (run 8).Enabled k) (run 8).ReportsCsp 8
  := by
  have hfirst : (run 8).EnablesFirst 8 := by
    unfold AxisRun.EnablesFirst AxisRun.Enables AxisRun.Writes AxisRun.Enabled
    decide +kernel
  refine ⟨hfirst, (csp_confirmed _ _ _ _ 1 (by decide)).2 8 ?_ hfirst⟩
  unfold AxisRun.PreparesFifth AxisRun.ReportsCsp
  decide +kernel

end OtherMode

end EthercatMaster
