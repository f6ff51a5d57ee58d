import EthercatMaster.Master.Loop

/-!
# The target position when the first axis is switched on

When the first axis is enabled, its state machine takes its actual position as target position.
In the same cycle the motion scheduler writes its commanded position over it.  The scheduler takes
over the actual position once, in its first call, so that the two agree when the axis is enabled
for the first time; afterwards they agree only if the commanded position is still the actual one.
-/

namespace EthercatMaster

variable {F : Type} [FloatArith F] [PositiveRoots F]

/-! ### The commanded position -/

section Commanded

variable {input : PdoInput} {s : Motion F}

/-- The scheduler has not been called yet, or it commands the actual position and has no running
trajectory to advance. -/
def Motion.Aligned (input : PdoInput) (s : Motion F) : Prop :=
  s.motionInitialized = false
    ∨ (s.control.commandCounts = input.currentPosition
      ∧ ¬ (input.servoReady = true ∧ s.OnSegment ∧ s.trajectory.running = true))

/-- The call of the scheduler finds a motion in progress. -/
def Motion.InProgress (input : PdoInput) (s : Motion F) : Prop :=
  input.servoReady = true ∧ s.control.busy = true ∧ s.control.paused = false

theorem dispatched_of_not_pending (input : PdoInput) (hpending : s.request.pending = false) :
  s.dispatched input = motionAlign input s
  := by
  have hpending' : (motionAlign input s).request.pending = false := by
    rw [motionAlign_request, hpending]
  rw [Motion.dispatched]
  rcases motionServe_cases input (motionAlign input s) with ⟨-, heq⟩ | ⟨hpending, -⟩
  · apply heq
  · rw [hpending'] at hpending
    cases hpending

/-- With no request pending, a call commands the actual position if the motion is aligned. -/
theorem commandCounts_of_aligned {x : System F} (h : x.Valid)
    (hpending : x.motion.request.pending = false) (haligned : x.motion.Aligned input) :
  (motionUpdate input x.motion).control.commandCounts = input.currentPosition
  := by
  cases hinitialized : x.motion.motionInitialized with
  | false =>
      rcases h.commandCounts_first hinitialized input with heq | ⟨-, hpending', -⟩
      · apply heq
      · rw [hpending] at hpending'
        cases hpending'
  | true =>
      rcases haligned with hfirst | ⟨hcommand, hstopped⟩
      · rw [hinitialized] at hfirst
        cases hfirst
      have hdispatched : x.motion.dispatched input = x.motion := by
        rw [dispatched_of_not_pending input hpending, motionAlign, if_pos hinitialized]
      rcases h.commandCounts_update hinitialized input with
        heq | ⟨hready, ⟨hpending', -⟩ | hfails | hrunning⟩
      · rw [heq, hcommand]
      · rw [hpending] at hpending'
        cases hpending'
      · apply hfails.commandCounts
      · rw [hdispatched] at hrunning
        exact absurd ⟨hready, hrunning⟩ hstopped

/-- With no request pending and no motion in progress, only an aligned motion commands the actual
position. -/
theorem aligned_of_commandCounts (hpending : s.request.pending = false)
    (hrest : ¬ s.InProgress input)
    (hcommand : (motionUpdate input s).control.commandCounts = input.currentPosition) :
  s.Aligned input
  := by
  cases hinitialized : s.motionInitialized with
  | false => exact Or.inl hinitialized
  | true =>
      have hstay : motionUpdate input s = s := by
        have halign : motionAlign input s = s := by
          rw [motionAlign, if_pos hinitialized]
        have hserve : motionServe input s = s := by
          have hdispatched := dispatched_of_not_pending input hpending
          rw [Motion.dispatched, halign] at hdispatched
          apply hdispatched
        rw [motionUpdate, halign, hserve]
        split
        · rename_i hready
          rw [motionAdvance, if_neg]
          rw [Bool.and_eq_true, Bool.not_eq_true']
          intro hbusy
          exact hrest ⟨hready, hbusy⟩
        · rfl
      rw [hstay] at hcommand
      right
      refine ⟨hcommand, ?_⟩
      rintro ⟨hready, ⟨hbusy, hpaused, -⟩, -⟩
      exact hrest ⟨hready, hbusy, hpaused⟩

end Commanded

namespace Master

/-! ### Good cycles -/

section

variable (m : Master F) (es : List (MasterEvent F)) (i : ℕ)

/-- The event at a position is a good cycle, with these contents of the areas. -/
def Good (wkc : ℤ) (axisInputs : ℕ → Option PdoInput) (axisOutputs : ℕ → Option PdoOutput) :
    Prop :=
  es[i]? = some (.cycle wkc axisInputs axisOutputs)
    ∧ (((machine m).before es i).checked wkc axisInputs axisOutputs).1 = true

/-- The event at a position is a good cycle. -/
def GoodAt : Prop :=
  ∃ wkc axisInputs axisOutputs, Good m es i wkc axisInputs axisOutputs

/-- The event at a position is a good cycle in which the first axis is enabled. -/
def EnabledAt (input : PdoInput) : Prop :=
  ∃ wkc axisInputs axisOutputs, Good m es i wkc axisInputs axisOutputs
    ∧ axisInputs 1 = some input ∧ input.operationEnabled = true

/-- The first axis was enabled in the last good cycle before a position. -/
def WasEnabled : Prop :=
  ∃ j < i, (∃ input, EnabledAt m es j input) ∧ ∀ k, j < k → k < i → ¬ GoodAt m es k

/-- The first axis is enabled in the good cycle at a position, and was not in the good cycle
before. -/
def SwitchedOn (input : PdoInput) : Prop :=
  EnabledAt m es i input ∧ ¬ WasEnabled m es i

/-- The target position of the first axis when the event at a position is over. -/
def TargetAfter (target : Int32) : Prop :=
  ∃ output, ((machine m).before es (i + 1)).servos.axes.axisOutputs 1 = some output
    ∧ output.targetPos = target

end

/-! ### The first axis in a good cycle -/

section Control

variable {m : Master F} {input : PdoInput} {output : PdoOutput}

omit [FloatArith F] [PositiveRoots F] in
/-- An axis after the state machines have been advanced. -/
theorem enable_axis {slave : ℕ} (hslave : 0 < slave ∧ slave ≤ m.servos.axes.axisCount)
    (hinput : m.servos.axes.axisInputs slave = some input)
    (houtput : m.servos.axes.axisOutputs slave = some output) :
  m.enable.servos.axes.axisCount = m.servos.axes.axisCount
    ∧ m.enable.servos.axes.axisInputs slave = some input
    ∧ m.enable.servos.axes.axisOutputs slave
      = some (servoEnable 0 input output (m.servos.enable slave)).2.1
    ∧ m.enable.servos.enable slave
      = { (servoEnable 0 input output (m.servos.enable slave)).2.2 with
          enableResult := (servoEnable 0 input output (m.servos.enable slave)).1 }
  := by
  obtain ⟨haxis, hcount⟩ := axis_ethercatServoAllAxesEnableProcess 0 m.servos hslave
  rw [axis_enableAxis 0 hslave hinput houtput, Servos.axis, Prod.mk.injEq, Prod.mk.injEq] at haxis
  obtain ⟨hinput', houtput', henable⟩ := haxis
  exact ⟨hcount, hinput', houtput', henable⟩

theorem operationEnabledGet_first {axes : Axes} (hcount : 0 < axes.axisCount)
    (hinput : axes.axisInputs 1 = some input) :
  ethercatMasterAxisOperationEnabledGet 1 axes = 1 ↔ input.operationEnabled = true
  := by
  rw [ethercatMasterAxisOperationEnabledGet, if_neg (by omega), hinput]
  dsimp only
  split
  · rename_i henabled
    exact iff_of_true rfl henabled
  · rename_i henabled
    apply iff_of_false _ henabled
    decide

/-- The scheduler does not touch the state machines. -/
theorem control_enable (m : Master F) :
  m.control.servos.enable = m.enable.servos.enable
  := by
  rw [control]
  split
  · rfl
  · rfl

/-- When the first axis is enabled, its target position is the commanded position. -/
theorem control_targetPos (hcount : 0 < m.servos.axes.axisCount)
    (hinput : m.servos.axes.axisInputs 1 = some input)
    (houtput : m.servos.axes.axisOutputs 1 = some output)
    (henabled : input.operationEnabled = true) :
  ∃ output', m.control.servos.axes.axisOutputs 1 = some output'
    ∧ output'.targetPos = (motionUpdate input m.motion).control.commandCounts
  := by
  obtain ⟨hcount', hinput', houtput', -⟩ := enable_axis ⟨one_pos, hcount⟩ hinput houtput
  rw [← hcount'] at hcount
  revert houtput'
  generalize (servoEnable 0 input output (m.servos.enable 1)).2.1 = output'
  intro houtput'
  have harea : m.enable.servos.axes.area = ⟨some input, some output'⟩ := by
    rw [Axes.area, hinput', houtput']
  rw [control, if_pos ((operationEnabledGet_first hcount hinput').mpr henabled), process, harea]
  refine ⟨motionTargetOutputWrite (motionUpdate input m.motion)
    { output' with opModeSet := 8, targetVelocity := 0 }, ?_, ?_⟩
  · exact Function.update_self (β := fun _ => Option PdoOutput) 1 _ m.enable.servos.axes.axisOutputs
  · apply motionTargetOutputWrite_targetPos

end Control

/-! ### Runs -/

section Runs

variable {m : Master F}

/-- The state in which the axes are advanced in a cycle. -/
def cycleState (wkc : ℤ) (axisInputs : ℕ → Option PdoInput) (axisOutputs : ℕ → Option PdoOutput)
    (m : Master F) : Master F :=
  { m.receive axisInputs axisOutputs with check := (m.checked wkc axisInputs axisOutputs).2 }

theorem step_cycle (wkc : ℤ) (axisInputs : ℕ → Option PdoInput)
    (axisOutputs : ℕ → Option PdoOutput) (m : Master F) :
  m.step (.cycle wkc axisInputs axisOutputs)
    = if (m.checked wkc axisInputs axisOutputs).1 then
        (m.cycleState wkc axisInputs axisOutputs).control
      else m.cycleState wkc axisInputs axisOutputs
  := rfl

theorem valid_control (h : m.system.Valid) :
  m.control.system.Valid
  := by
  rw [control]
  split
  · have henable : m.enable.system.Valid := ⟨h.consistent, h.slot, h.uninitialized, h.calls⟩
    have hstep := henable.step .process
    exact ⟨hstep.consistent, hstep.slot, hstep.uninitialized, hstep.calls⟩
  · exact ⟨h.consistent, h.slot, h.uninitialized, h.calls⟩

/-- The motion module stays in its invariant. -/
theorem valid_step (h : m.system.Valid) (e : MasterEvent F) :
  (m.step e).system.Valid
  := by
  cases e with
  | task e he =>
      have hstep := h.step e
      exact ⟨hstep.consistent, hstep.slot, hstep.uninitialized, hstep.calls⟩
  | slaveStates slaveState => exact ⟨h.consistent, h.slot, h.uninitialized, h.calls⟩
  | cycle wkc axisInputs axisOutputs =>
      have hcycle : (m.cycleState wkc axisInputs axisOutputs).system.Valid :=
        ⟨h.consistent, h.slot, h.uninitialized, h.calls⟩
      rw [step_cycle]
      split
      · apply valid_control hcycle
      · apply hcycle

variable {axes : Axes} {check : PdoCheck} {holdPos : ℕ → Int32} {es : List (MasterEvent F)} {i : ℕ}

theorem valid_before (axes : Axes) (check : PdoCheck) (holdPos : ℕ → Int32)
    (es : List (MasterEvent F)) (i : ℕ) :
  ((machine (init axes check holdPos)).before es i).system.Valid
  := by
  apply Machine.invariant_before (P := fun m => m.system.Valid) (machine (init axes check holdPos))
  · have hinit : (System.init : System F).Valid := System.valid_init
    exact ⟨hinit.consistent, hinit.slot, hinit.uninitialized, hinit.calls⟩
  · intro m e h
    apply valid_step h

theorem Good.before_succ {m : Master F} {wkc : ℤ} {axisInputs : ℕ → Option PdoInput}
    {axisOutputs : ℕ → Option PdoOutput} (h : Good m es i wkc axisInputs axisOutputs) :
  (machine m).before es (i + 1)
    = (((machine m).before es i).cycleState wkc axisInputs axisOutputs).control
  := by
  have hstep : (machine m).before es (i + 1)
      = ((machine m).before es i).step (.cycle wkc axisInputs axisOutputs) :=
    Machine.before_succ _ h.1
  rw [hstep, step_cycle, if_pos h.2]

/-- The state machine of the first axis is at its end only while the axis is enabled. -/
theorem wasEnabled_of_done
    (h : (((machine (init axes check holdPos)).before es i).servos.enable 1).enableState = .done) :
  WasEnabled (init axes check holdPos) es i
  := by
  induction i with
  | zero => cases h
  | succ i ih =>
      by_cases hgood : GoodAt (init axes check holdPos) es i
      · -- the axis is enabled in this cycle
        obtain ⟨wkc, axisInputs, axisOutputs, hgood⟩ := hgood
        obtain ⟨hcount, hbound⟩ := bound_of_pdoOk hgood.2
        obtain ⟨input, output, hinput, houtput⟩ := hbound 1 ⟨one_pos, hcount⟩
        obtain ⟨-, -, -, henable⟩ :=
          enable_axis (m := cycleState _ _ _ _) ⟨one_pos, hcount⟩ hinput houtput
        rw [hgood.before_succ, control_enable, henable] at h
        refine ⟨i, Nat.lt_succ_self i, ⟨input, _, _, _, hgood, hinput, ?_⟩, ?_⟩
        · apply operationEnabled_of_done h
        · intro k hlt hlt'
          omega
      · -- the state machine is as it was
        have hstate : ((machine (init axes check holdPos)).before es (i + 1)).servos.enable
            = ((machine (init axes check holdPos)).before es i).servos.enable := by
          cases he : es[i]? with
          | none => rw [Machine.before_succ_of_none _ he]
          | some e =>
              have hstep : (machine (init axes check holdPos)).before es (i + 1)
                  = ((machine (init axes check holdPos)).before es i).step e :=
                Machine.before_succ _ he
              rw [hstep]
              cases e with
              | task e he => rfl
              | slaveStates slaveState => rfl
              | cycle wkc axisInputs axisOutputs =>
                  rw [step_cycle, if_neg]
                  · rfl
                  · intro hok
                    exact hgood ⟨wkc, axisInputs, axisOutputs, he, hok⟩
        rw [hstate] at h
        obtain ⟨j, hlt, henabled, hlast⟩ := ih h
        refine ⟨j, Nat.lt_succ_of_lt hlt, henabled, ?_⟩
        intro k hjk hki
        rcases Nat.lt_succ_iff_lt_or_eq.mp hki with hki | rfl
        · apply hlast k hjk hki
        · apply hgood

/-- If the first axis is not enabled in a good cycle, it was not enabled before the next event. -/
theorem Good.not_wasEnabled {m : Master F} {wkc : ℤ} {axisInputs : ℕ → Option PdoInput}
    {axisOutputs : ℕ → Option PdoOutput} {input : PdoInput}
    (h : Good m es i wkc axisInputs axisOutputs) (hinput : axisInputs 1 = some input)
    (hdisabled : input.operationEnabled = false) :
  ¬ WasEnabled m es (i + 1)
  := by
  rintro ⟨j, hlt, ⟨input', wkc', axisInputs', axisOutputs', hgood, hinput', henabled⟩, hlast⟩
  rcases Nat.lt_succ_iff_lt_or_eq.mp hlt with hlt | rfl
  · exact hlast i hlt (Nat.lt_succ_self i) ⟨wkc, axisInputs, axisOutputs, h⟩
  · cases h.1.symm.trans hgood.1
    cases hinput.symm.trans hinput'
    rw [hdisabled] at henabled
    cases henabled

/-! ### The target position -/

/-- The areas of the first axis in a cycle in which it is enabled. -/
theorem EnabledAt.cycle {m : Master F} {input : PdoInput} (h : EnabledAt m es i input) :
  ∃ x output, (∃ wkc axisInputs axisOutputs, Good m es i wkc axisInputs axisOutputs
      ∧ x = ((machine m).before es i).cycleState wkc axisInputs axisOutputs)
    ∧ 0 < x.servos.axes.axisCount ∧ x.servos.axes.axisInputs 1 = some input
    ∧ x.servos.axes.axisOutputs 1 = some output ∧ input.operationEnabled = true
  := by
  obtain ⟨wkc, axisInputs, axisOutputs, hgood, hinput, henabled⟩ := h
  obtain ⟨hcount, hbound⟩ := bound_of_pdoOk hgood.2
  obtain ⟨_, output, _, houtput⟩ := hbound 1 ⟨one_pos, hcount⟩
  exact ⟨_, output, ⟨wkc, axisInputs, axisOutputs, hgood, rfl⟩, hcount, hinput, houtput, henabled⟩

/-- When the first axis is switched on, its state machine holds it at its actual position. -/
theorem held_on_enable {input : PdoInput}
    (h : SwitchedOn (init axes check holdPos) es i input) :
  ∃ wkc axisInputs axisOutputs output, Good (init axes check holdPos) es i wkc axisInputs axisOutputs
    ∧ (((machine (init axes check holdPos)).before es i).cycleState wkc axisInputs
      axisOutputs).enable.servos.axes.axisOutputs 1 = some output
    ∧ output.targetPos = input.currentPosition
  := by
  obtain ⟨henabled, hnew⟩ := h
  obtain ⟨x, output, ⟨wkc, axisInputs, axisOutputs, hgood, hx⟩, hcount, hinput, houtput, hready⟩ :=
    henabled.cycle
  have hstate : (x.servos.enable 1).enableState ≠ .done := by
    rw [hx]
    intro hdone
    exact hnew (wasEnabled_of_done hdone)
  obtain ⟨-, -, hafter, -⟩ := enable_axis ⟨one_pos, hcount⟩ hinput houtput
  rw [hx] at hafter
  refine ⟨wkc, axisInputs, axisOutputs, _, hgood, hafter, ?_⟩
  rw [← hx]
  apply servoEnable_targetPos hready hstate

/-- What is left in the output area is the commanded position. -/
theorem EnabledAt.targetAfter {m : Master F} {input : PdoInput} (h : EnabledAt m es i input)
    (target : Int32) :
  TargetAfter m es i target
    ↔ (motionUpdate input ((machine m).before es i).motion).control.commandCounts = target
  := by
  obtain ⟨x, output, ⟨wkc, axisInputs, axisOutputs, hgood, hx⟩, hcount, hinput, houtput, hready⟩ :=
    h.cycle
  have hmotion : x.motion = ((machine m).before es i).motion := by
    rw [hx]
    rfl
  obtain ⟨output', houtput', htarget⟩ := control_targetPos hcount hinput houtput hready
  rw [TargetAfter, hgood.before_succ, ← hx, houtput', ← hmotion, ← htarget]
  constructor
  · rintro ⟨_, ⟨⟩, heq⟩
    apply heq
  · intro heq
    exact ⟨output', rfl, heq⟩

/-- When the first axis is switched on with no request pending, its target position is its actual
position if the scheduler is aligned with it, and if no motion is in progress, then only if it
is. -/
theorem target_on_enable (axes : Axes) (check : PdoCheck) (holdPos : ℕ → Int32)
    (es : List (MasterEvent F)) (i : ℕ) (input : PdoInput)
    (h : SwitchedOn (init axes check holdPos) es i input)
    (hpending : ((machine (init axes check holdPos)).before es i).motion.request.pending = false) :
  (((machine (init axes check holdPos)).before es i).motion.Aligned input →
      TargetAfter (init axes check holdPos) es i input.currentPosition)
    ∧ (¬ ((machine (init axes check holdPos)).before es i).motion.InProgress input →
      TargetAfter (init axes check holdPos) es i input.currentPosition →
      ((machine (init axes check holdPos)).before es i).motion.Aligned input)
  := by
  rw [h.1.targetAfter]
  constructor
  · apply commandCounts_of_aligned (valid_before axes check holdPos es i) hpending
  · intro hrest
    apply aligned_of_commandCounts hpending hrest

end Runs

end Master

/-! ### A drive that is switched on again -/

namespace Reenabled

/-- The process data of a drive in mode CSP. -/
def driveInput (statusWord : UInt16) (position : Int32) : PdoInput :=
  { System.readyInput position with statusWord := statusWord }

/-- One drive, before the first cycle. -/
def start : Master ℚ :=
  Master.init ⟨1, fun _ => some (driveInput 0x0040 0), fun _ => some System.readyOutput⟩
    PdoCheck.oneDrive fun _ => 0

/-- The parameters of the motor are set. -/
def paramsSet : MasterEvent ℚ := .task (.motorParamsSet ⟨262144, 5, 1, 1, 3000⟩) trivial

/-- The drive answers each cycle with the outputs it was sent and with its inputs. -/
def replies (m : Master ℚ) : List PdoInput → List (MasterEvent ℚ)
  | [] => []
  | input :: inputs =>
      let e := MasterEvent.cycle 3 (fun _ => some input) m.servos.axes.axisOutputs
      e :: replies (m.step e) inputs

/-- The drive goes from Switch On Disabled to Operation Enabled. -/
def switchingOn (position : Int32) : List PdoInput :=
  [driveInput 0x0040 position, driveInput 0x0021 position]
    ++ List.replicate 6 (driveInput 0x0023 position) ++ [driveInput 0x0027 position]

/-- The drive is switched on at 0.  It then has a fault in which it is moved to 100, and is
switched on again there. -/
def inputs : List PdoInput :=
  switchingOn 0 ++ List.replicate 3 (driveInput 0x0008 100) ++ switchingOn 100

/-- The run with these inputs. -/
def run : List (MasterEvent ℚ) := paramsSet :: replies (start.step paramsSet) inputs

theorem getElem?_replies (m : Master ℚ) (inputs : List PdoInput) (i : ℕ) :
  (replies m inputs)[i]?
    = inputs[i]?.map fun input => .cycle 3 (fun _ => some input)
        ((Master.machine m).before (replies m inputs) i).servos.axes.axisOutputs
  := by
  induction inputs generalizing m i with
  | nil => rfl
  | cons input inputs ih =>
      cases i with
      | zero => rfl
      | succ i => apply ih

/-- The check of a cycle of the run, which comes after the parameters have been set. -/
def checkAt (i : ℕ) (input : PdoInput) : Bool :=
  (((Master.machine start).before run (i + 1)).checked 3 (fun _ => some input)
    ((Master.machine start).before run (i + 1)).servos.axes.axisOutputs).1

theorem good_run {i : ℕ} {input : PdoInput} (hinput : inputs[i]? = some input)
    (hcheck : checkAt i input = true) :
  Master.Good start run (i + 1) 3 (fun _ => some input)
    ((Master.machine start).before run (i + 1)).servos.axes.axisOutputs
  := by
  refine ⟨?_, hcheck⟩
  rw [run, List.getElem?_cons_succ, getElem?_replies, hinput]
  rfl

theorem switchedOn_run {i : ℕ} {input input' : PdoInput} (hinput : inputs[i]? = some input)
    (hinput' : inputs[i + 1]? = some input') (hcheck : checkAt i input = true)
    (hcheck' : checkAt (i + 1) input' = true) (hdisabled : input.operationEnabled = false)
    (henabled : input'.operationEnabled = true) :
  Master.SwitchedOn start run (i + 2) input'
  := by
  constructor
  · exact ⟨_, _, _, good_run hinput' hcheck', rfl, henabled⟩
  · apply (good_run hinput hcheck).not_wasEnabled rfl hdisabled

/-- The first time, the drive is held at its actual position. -/
theorem first_target :
  Master.SwitchedOn start run 9 (driveInput 0x0027 0) ∧ Master.TargetAfter start run 9 0
  := by
  have hswitched : Master.SwitchedOn start run 9 (driveInput 0x0027 0) :=
    switchedOn_run (i := 7) rfl rfl (by decide +kernel) (by decide +kernel) rfl rfl
  refine ⟨hswitched, ?_⟩
  apply (Master.target_on_enable _ _ _ run 9 _ hswitched (by decide +kernel)).1
  left
  decide +kernel

/-- The second time, its target position is where it was switched on first. -/
theorem stale_target :
  Master.SwitchedOn start run 21 (driveInput 0x0027 100)
    ∧ ((Master.machine start).before run 21).motion.request.pending = false
    ∧ Master.TargetAfter start run 21 0 ∧ ¬ Master.TargetAfter start run 21 100
  := by
  have hswitched : Master.SwitchedOn start run 21 (driveInput 0x0027 100) :=
    switchedOn_run (i := 19) rfl rfl (by decide +kernel) (by decide +kernel) rfl rfl
  refine ⟨hswitched, by decide +kernel, ?_, ?_⟩
  · rw [hswitched.1.targetAfter]
    decide +kernel
  · rw [hswitched.1.targetAfter]
    decide +kernel

end Reenabled

end EthercatMaster
