import EthercatMaster.Library.Past
import EthercatMaster.Master.Enable
import Mathlib.Data.Nat.Count

/-!
# The sequence in which a drive is switched on

The state machine of one axis, called at some of the instants of a run with whatever the drive
reports.  The history of the calls is read off from the state: the state in which the axis is
enabled is reached only through the states before it, and what was written and seen there lies
in the past.
-/

namespace EthercatMaster

/-! ### Runs of one axis -/

/-- The calls of the state machine of an axis: at each instant the areas it is called with, or
none. -/
structure AxisRun where
  opMode : Int8
  calls : ℕ → Option (PdoInput × PdoOutput)

namespace AxisRun

variable (r : AxisRun)

/-- The state machine before an instant. -/
def state : ℕ → AxisEnable
  | 0 => AxisEnable.bound
  | i + 1 =>
      match r.calls i with
      | none => state i
      | some (input, output) => (servoEnable r.opMode input output (state i)).2.2

/-- At an instant there is a call, and this holds of what it reads, the state it finds, and what
it writes. -/
def At (P : PdoInput → AxisEnable → PdoOutput → Prop) (i : ℕ) : Prop :=
  ∃ input output, r.calls i = some (input, output)
    ∧ P input (r.state i) (servoEnable r.opMode input output (r.state i)).2.1

/-- A call that finds the drive enabled. -/
def Enabled : ℕ → Prop :=
  r.At fun input _ _ => input.operationEnabled = true

/-- A call that writes a control word. -/
def Writes (controlWord : UInt16) : ℕ → Prop :=
  r.At fun _ _ output => output.controlWord = controlWord

/-- A call in a state, of a drive that is not enabled. -/
def In (state : ServoEnableState) : ℕ → Prop :=
  r.At fun input e _ => e.enableState = state ∧ input.operationEnabled = false

variable {r} {i : ℕ}

theorem state_succ_of_none (h : r.calls i = none) :
  r.state (i + 1) = r.state i
  := by
  rw [state, h]

theorem state_succ {input : PdoInput} {output : PdoOutput} (h : r.calls i = some (input, output)) :
  r.state (i + 1) = (servoEnable r.opMode input output (r.state i)).2.2
  := by
  rw [state, h]

theorem At.mono {P Q : PdoInput → AxisEnable → PdoOutput → Prop} (h : r.At P i)
    (hPQ : ∀ input e output, P input e output → Q input e output) :
  r.At Q i
  := by
  obtain ⟨input, output, hcall, hP⟩ := h
  exact ⟨input, output, hcall, hPQ _ _ _ hP⟩

/-- What is known of a call. -/
theorem at_iff {P : PdoInput → AxisEnable → PdoOutput → Prop} {input : PdoInput}
    {output : PdoOutput} (hcall : r.calls i = some (input, output)) :
  r.At P i ↔ P input (r.state i) (servoEnable r.opMode input output (r.state i)).2.1
  := by
  constructor
  · rintro ⟨input', output', hcall', hP⟩
    rw [hcall] at hcall'
    cases hcall'
    apply hP
  · intro hP
    exact ⟨input, output, hcall, hP⟩

theorem not_at_of_none (P : PdoInput → AxisEnable → PdoOutput → Prop) (h : r.calls i = none) :
  ¬ r.At P i
  := by
  rintro ⟨input, output, hcall, -⟩
  rw [h] at hcall
  cases hcall

instance (P : PdoInput → AxisEnable → PdoOutput → Prop)
    [∀ input e output, Decidable (P input e output)] : Decidable (r.At P i) :=
  match hcall : r.calls i with
  | none => isFalse (not_at_of_none P hcall)
  | some (_, _) => decidable_of_iff _ (at_iff hcall).symm

/-! ### One instant -/

/-- What an instant does: nothing, a call that finds the drive enabled, or a call that advances
the state machine. -/
inductive Instant (r : AxisRun) (i : ℕ) : Prop where
  | idle (call : r.calls i = none) (same : r.state (i + 1) = r.state i)
  | held (input : PdoInput) (output : PdoOutput) (call : r.calls i = some (input, output))
      (enabled : input.operationEnabled = true)
      (word : (servoEnable r.opMode input output (r.state i)).2.1.controlWord
        = cia402CwEnableOperation)
      (hold : (r.state (i + 1)).servoEnableHoldPos
        = if (r.state i).enableState ≠ .done then input.currentPosition
          else (r.state i).servoEnableHoldPos)
      (next : (¬ (r.opMode ≠ 0 ∧ input.opModeNow ≠ r.opMode)
          ∧ (r.state (i + 1)).enableState = .done)
        ∨ ((r.opMode ≠ 0 ∧ input.opModeNow ≠ r.opMode)
          ∧ (r.state (i + 1)).enableState = (r.state i).enableState
          ∧ (r.state (i + 1)).enableWaitCount = (r.state i).enableWaitCount))
  | advanced (input : PdoInput) (output : PdoOutput) (call : r.calls i = some (input, output))
      (disabled : input.operationEnabled = false)
      (word : (servoEnable r.opMode input output (r.state i)).2.1.controlWord
        = (r.state i).enableState.controlWord)
      (next : EnableAdvance r.opMode input (r.state i) (r.state (i + 1)))

theorem instant (r : AxisRun) (i : ℕ) :
  r.Instant i
  := by
  cases hcall : r.calls i with
  | none => exact .idle hcall (state_succ_of_none hcall)
  | some call =>
      obtain ⟨input, output⟩ := call
      cases henabled : input.operationEnabled with
      | true =>
          have hstate := state_succ hcall
          rw [servoEnable, if_pos henabled] at hstate
          obtain ⟨hword, hhold, hnext⟩ := servoHold_spec r.opMode input
            (if r.opMode ≠ 0 then { output with opModeSet := r.opMode } else output) (r.state i)
          rw [← hstate] at hhold hnext
          apply Instant.held input output hcall henabled _ hhold hnext
          rw [servoEnable, if_pos henabled]
          apply hword
      | false =>
          have hnot : ¬ input.operationEnabled = true := by
            rw [henabled]
            decide
          have hstate := state_succ hcall
          rw [servoEnable, if_neg hnot] at hstate
          apply Instant.advanced input output hcall henabled
          · rw [servoEnable, if_neg hnot]
            apply (servoAdvance_output _ _ _ _).1
          · rw [hstate]
            apply servoAdvance_advance

/-! ### The way to `SERVO_ENABLE_ENABLE_OPERATION` -/

/-- A call that takes the voltage off. -/
def Disables (r : AxisRun) : ℕ → Prop :=
  r.Writes cia402CwDisableVoltage

/-- A call that writes Shutdown and sees Ready to switch on. -/
def SeesReady (r : AxisRun) : ℕ → Prop :=
  r.At fun input _ output =>
    output.controlWord = cia402CwShutdown ∧ input.statusState = cia402SwReadyToSwitchOn

/-- A call that writes Switch on and sees Switched on. -/
def SeesSwitchedOn (r : AxisRun) : ℕ → Prop :=
  r.At fun input _ output =>
    output.controlWord = cia402CwSwitchOn ∧ input.statusState = cia402SwSwitchedOn

/-- A call that prepares the drive. -/
def Prepares (r : AxisRun) : ℕ → Prop :=
  r.In .cspPrepare

/-- A call that prepares the drive and sees the mode asked for. -/
def SeesMode (r : AxisRun) : ℕ → Prop :=
  r.At fun input e _ =>
    (e.enableState = .cspPrepare ∧ input.operationEnabled = false)
      ∧ (r.opMode ≠ 0 → input.opModeNow = r.opMode)

/-- The voltage has been taken off, and then the drive was ready. -/
def WasReady (r : AxisRun) : ℕ → Prop :=
  Since (fun k => ¬ r.Disables k) fun a =>
    r.SeesReady a ∧ Since (fun k => ¬ r.Disables k) r.Disables a

open Classical in
/-- The calls after `b` and before `i` that prepare the drive. -/
noncomputable def preparedCalls (r : AxisRun) (b i : ℕ) : ℕ :=
  Nat.count (fun k => b < k ∧ r.Prepares k) i

/-- The drive was switched on at `b`, and has not been disabled since. -/
structure SwitchedOnAt (r : AxisRun) (b i : ℕ) : Prop where
  lt : b < i
  seen : r.SeesSwitchedOn b
  ready : r.WasReady b
  since : ∀ k, b < k → k < i → ¬ r.Disables k

/-- The history of an axis in each of the states on the way. -/
structure History (r : AxisRun) (i : ℕ) : Prop where
  shutdown : (r.state i).enableState = .shutdown →
    Since (fun k => ¬ r.Disables k) r.Disables i
  switchOn : (r.state i).enableState = .switchOn → r.WasReady i
  prepare : (r.state i).enableState = .cspPrepare →
    (r.state i).enableWaitCount ≤ 1000
      ∧ ∃ b, r.SwitchedOnAt b i ∧ r.preparedCalls b i = (r.state i).enableWaitCount.toNat
  enable : (r.state i).enableState = .enableOperation →
    ∃ b c, r.SwitchedOnAt b i ∧ 5 ≤ r.preparedCalls b i ∧ b < c ∧ c < i ∧ r.SeesMode c
      ∧ ∀ k, c < k → k < i → ¬ r.Prepares k

theorem preparedCalls_succ_of_not {b : ℕ} (h : ¬ r.Prepares i) :
  r.preparedCalls b (i + 1) = r.preparedCalls b i
  := by
  rw [preparedCalls, Nat.count_succ, if_neg, preparedCalls, add_zero]
  rintro ⟨-, hprepares⟩
  apply h hprepares

theorem preparedCalls_succ {b : ℕ} (hb : b < i) (h : r.Prepares i) :
  r.preparedCalls b (i + 1) = r.preparedCalls b i + 1
  := by
  rw [preparedCalls, Nat.count_succ, if_pos ⟨hb, h⟩, preparedCalls]

open Classical in
theorem preparedCalls_self (r : AxisRun) (b : ℕ) :
  r.preparedCalls b (b + 1) = 0
  := by
  rw [preparedCalls]
  apply Nat.count_iff_forall_not.mpr
  rintro k hk ⟨hlt, -⟩
  omega

theorem SwitchedOnAt.keep {b : ℕ} (h : r.SwitchedOnAt b i) (hi : ¬ r.Disables i) :
  r.SwitchedOnAt b (i + 1)
  := by
  refine ⟨Nat.lt_succ_of_lt h.lt, h.seen, h.ready, ?_⟩
  intro k hbk hki
  rcases Nat.lt_succ_iff_lt_or_eq.mp hki with hki | rfl
  · apply h.since k hbk hki
  · apply hi

/-- In an instant that neither disables nor prepares the drive, and that leaves the state, the
history goes on. -/
theorem History.keep (h : r.History i) (hdisables : ¬ r.Disables i) (hprepares : ¬ r.Prepares i)
    (hstate : (r.state (i + 1)).enableState = (r.state i).enableState)
    (hcount : (r.state i).enableState = .cspPrepare →
      (r.state (i + 1)).enableWaitCount = (r.state i).enableWaitCount) :
  r.History (i + 1)
  := by
  constructor
  case shutdown =>
    rw [hstate]
    intro hi
    apply (h.shutdown hi).keep hdisables
  case switchOn =>
    rw [hstate]
    intro hi
    apply (h.switchOn hi).keep hdisables
  case prepare =>
    rw [hstate]
    intro hi
    obtain ⟨hle, b, hb, hcalls⟩ := h.prepare hi
    rw [hcount hi]
    use hle, b, hb.keep hdisables
    rw [preparedCalls_succ_of_not hprepares, hcalls]
  case enable =>
    rw [hstate]
    intro hi
    obtain ⟨b, c, hb, hfive, hbc, hci, hmode, hlast⟩ := h.enable hi
    use b, c, hb.keep hdisables
    rw [preparedCalls_succ_of_not hprepares]
    refine ⟨hfive, hbc, Nat.lt_succ_of_lt hci, hmode, ?_⟩
    intro k hck hki
    rcases Nat.lt_succ_iff_lt_or_eq.mp hki with hki | rfl
    · apply hlast k hck hki
    · apply hprepares

/-- A call that waits for the drive writes no Disable voltage, other than while it waits for a
fault to clear. -/
theorem controlWord_ne_disable {state : ServoEnableState} (hwaits : state.Waits)
    (hclear : state ≠ .waitFaultClear) :
  state.controlWord ≠ cia402CwDisableVoltage
  := by
  rcases hwaits with rfl | rfl | rfl | rfl | rfl
  · contradiction
  all_goals decide

/-- The other states have no history. -/
theorem history_of_other (state : ServoEnableState) (hstate : (r.state i).enableState = state)
    (hother : state ∉ [.shutdown, .switchOn, .cspPrepare, .enableOperation]) :
  r.History i
  := by
  subst hstate
  constructor
  all_goals
    intro h
    rw [h] at hother
    exact absurd hother (by decide)

theorem history_of_shutdown (hstate : (r.state i).enableState = .shutdown)
    (h : Since (fun k => ¬ r.Disables k) r.Disables i) :
  r.History i
  := by
  constructor
  case shutdown => exact fun _ => h
  all_goals
    rw [hstate]
    rintro ⟨⟩

theorem history_zero (r : AxisRun) :
  r.History 0
  := history_of_other .idle rfl (by decide)

/-- A call that prepares the drive goes on with the history. -/
theorem History.prepares (h : r.History i) (hstate : (r.state i).enableState = .cspPrepare)
    (hprepares : r.Prepares i) (hdisables : ¬ r.Disables i) :
  ∃ b, b < i ∧ r.SwitchedOnAt b (i + 1)
    ∧ r.preparedCalls b (i + 1) = ((r.state i).enableWaitCount + 1).toNat
  := by
  obtain ⟨hle, b, hb, hcalls⟩ := h.prepare hstate
  use b, hb.lt, hb.keep hdisables
  have hle' : (r.state i).enableWaitCount.toNat ≤ 1000 := UInt32.le_iff_toNat_le.mp hle
  rw [preparedCalls_succ hb.lt hprepares, hcalls, UInt32.toNat_add, Nat.mod_eq_of_lt]
  · rfl
  · apply lt_of_le_of_lt (Nat.add_le_add_right hle' _)
    decide

/-- The history goes on in a call that advances the state machine. -/
theorem History.advance (h : r.History i) {input : PdoInput} {output : PdoOutput}
    (hcall : r.calls i = some (input, output)) (hdisabled : input.operationEnabled = false)
    (hword : (servoEnable r.opMode input output (r.state i)).2.1.controlWord
      = (r.state i).enableState.controlWord)
    (hnext : EnableAdvance r.opMode input (r.state i) (r.state (i + 1))) :
  r.History (i + 1)
  := by
  have hdisables : r.Disables i ↔ (r.state i).enableState.controlWord = cia402CwDisableVoltage := by
    rw [Disables, Writes, at_iff hcall, hword]
  have hprepares : r.Prepares i ↔ (r.state i).enableState = .cspPrepare := by
    rw [Prepares, In, at_iff hcall]
    apply and_iff_left hdisabled
  have hpreparing : (r.state i).enableState = .cspPrepare →
      ∃ b, b < i ∧ r.SwitchedOnAt b (i + 1)
        ∧ r.preparedCalls b (i + 1) = ((r.state i).enableWaitCount + 1).toNat := by
    intro hstate
    apply h.prepares hstate (hprepares.mpr hstate)
    rw [hdisables, hstate]
    decide
  revert hnext
  generalize hnew : r.state (i + 1) = e'
  intro hnext
  cases hnext with
  | start hstate =>
      have hD : r.Disables i := by
        rw [hdisables, hstate]
        rfl
      rw [AxisEnable.goto] at hnew
      split at hnew
      · exact history_of_other .faultResetPulse (by rw [hnew]) (by decide)
      · exact history_of_shutdown (by rw [hnew]) (Since.now hD)
  | pulse hstate => exact history_of_other .waitFaultClear (by rw [hnew]; rfl) (by decide)
  | cleared hstate =>
      have hD : r.Disables i := by
        rw [hdisables, hstate]
        rfl
      exact history_of_shutdown (by rw [hnew]; rfl) (Since.now hD)
  | ready hstate hready =>
      constructor
      case switchOn =>
        intro _
        apply Since.now
        refine ⟨?_, h.shutdown hstate⟩
        rw [SeesReady, at_iff hcall, hword, hstate]
        exact ⟨rfl, hready⟩
      all_goals
        rw [hnew]
        rintro ⟨⟩
  | switchedOn hstate hseen =>
      constructor
      case prepare =>
        intro _
        rw [hnew]
        refine ⟨UInt32.zero_le, i, ⟨Nat.lt_succ_self i, ?_, h.switchOn hstate, ?_⟩, ?_⟩
        · rw [SeesSwitchedOn, at_iff hcall, hword, hstate]
          exact ⟨rfl, hseen⟩
        · intro k hik hki
          omega
        · apply preparedCalls_self
      all_goals
        rw [hnew]
        rintro ⟨⟩
  | prepared hstate hmode hfive =>
      obtain ⟨b, hbi, hb, hcalls⟩ := hpreparing hstate
      constructor
      case enable =>
        intro _
        refine ⟨b, i, hb, ?_, hbi, Nat.lt_succ_self i, ?_, ?_⟩
        · rw [hcalls]
          apply UInt32.le_iff_toNat_le.mp hfive
        · rw [SeesMode, at_iff hcall]
          refine ⟨⟨hstate, hdisabled⟩, ?_⟩
          intro hne
          apply hmode.resolve_left hne
        · intro k hik hki
          omega
      all_goals
        rw [hnew]
        rintro ⟨⟩
  | preparing hstate hwithin =>
      obtain ⟨b, hbi, hb, hcalls⟩ := hpreparing hstate
      constructor
      case prepare =>
        intro _
        rw [hnew]
        exact ⟨hwithin, b, hb, hcalls⟩
      all_goals
        rw [hnew]
        dsimp only
        rw [hstate]
        rintro ⟨⟩
  | waiting hwaits hother _ =>
      by_cases hclear : (r.state i).enableState = .waitFaultClear
      · exact history_of_other .waitFaultClear (by rw [hnew, hclear]) (by decide)
      · apply h.keep
        · rw [hdisables]
          apply controlWord_ne_disable hwaits hclear
        · rw [hprepares]
          apply hother
        · rw [hnew]
        · intro hprepare
          contradiction
  | timedOut _ _ _ hfailed => exact history_of_other .failed (by rw [hnew, hfailed]) (by decide)
  | left _ => exact history_of_other .idle (by rw [hnew]; rfl) (by decide)
  | failed hstate => exact history_of_other .failed (by rw [hnew, hstate]) (by decide)

/-- The history goes on in every instant. -/
theorem History.succ (h : r.History i) :
  r.History (i + 1)
  := by
  rcases r.instant i with ⟨hcall, hsame⟩ | ⟨input, output, hcall, henabled, hword, -, hnext⟩ |
    ⟨input, output, hcall, hdisabled, hword, hnext⟩
  · apply h.keep
    · rw [Disables, Writes]
      apply not_at_of_none _ hcall
    · rw [Prepares, In]
      apply not_at_of_none _ hcall
    · rw [hsame]
    · intro _
      rw [hsame]
  · rcases hnext with ⟨-, hdone⟩ | ⟨-, hstate, hcount⟩
    · exact history_of_other .done hdone (by decide)
    · apply h.keep _ _ hstate fun _ => hcount
      · rw [Disables, Writes, at_iff hcall, hword]
        decide
      · rw [Prepares, In, at_iff hcall, henabled]
        rintro ⟨-, ⟨⟩⟩
  · apply h.advance hcall hdisabled hword hnext

theorem history (r : AxisRun) (i : ℕ) :
  r.History i
  := by
  induction i with
  | zero => apply history_zero
  | succ i ih => apply ih.succ

/-! ### The position at which the drive is enabled -/

/-- A call that takes a position to hold: it prepares the drive, or finds it enabled before the
end of the state machine. -/
def Takes (r : AxisRun) (position : Int32) : ℕ → Prop :=
  r.At fun input e _ =>
    ((e.enableState = .cspPrepare ∧ input.operationEnabled = false)
      ∨ (input.operationEnabled = true ∧ e.enableState ≠ .done))
    ∧ input.currentPosition = position

/-- The position that was taken last. -/
def TookLast (r : AxisRun) (position : Int32) : ℕ → Prop :=
  Since (fun k => ∀ position', ¬ r.Takes position' k) (r.Takes position)

/-- While the state machine waits for the drive to be enabled, it holds the position it has taken
last. -/
theorem tookLast_of_enableOperation (r : AxisRun) (i : ℕ)
    (h : (r.state i).enableState = .enableOperation) :
  r.TookLast (r.state i).servoEnableHoldPos i
  := by
  induction i with
  | zero => cases h
  | succ i ih =>
      rcases r.instant i with ⟨hcall, hsame⟩ | ⟨input, output, hcall, henabled, -, hhold, hnext⟩ |
        ⟨input, output, hcall, hdisabled, hword, hnext⟩
      · rw [hsame] at h ⊢
        apply (ih h).keep
        intro position
        apply not_at_of_none _ hcall
      · rcases hnext with ⟨-, hdone⟩ | ⟨-, hstate, -⟩
        · rw [hdone] at h
          cases h
        · have hne : (r.state i).enableState ≠ .done := by
            rw [← hstate, h]
            decide
          rw [if_pos hne] at hhold
          apply Since.now
          rw [Takes, at_iff hcall, hhold]
          exact ⟨Or.inr ⟨henabled, hne⟩, rfl⟩
      · rcases hnext.to_enableOperation h with ⟨hstate, -, hhold⟩ | ⟨hstate, hhold⟩
        · apply Since.now
          rw [Takes, at_iff hcall, hhold]
          exact ⟨Or.inl ⟨hstate, hdisabled⟩, rfl⟩
        · rw [hhold]
          apply (ih hstate).keep
          intro position
          rw [Takes, at_iff hcall, hdisabled, hstate]
          rintro ⟨⟨⟨⟩, -⟩ | ⟨⟨⟩, -⟩, -⟩

/-! ### A call that enables the drive -/

/-- A call that writes Enable operation to a drive that is not enabled is in the state
`SERVO_ENABLE_ENABLE_OPERATION`. -/
theorem enableOperation_of_writes (h : r.Writes cia402CwEnableOperation i)
    (hdisabled : ¬ r.Enabled i) :
  (r.state i).enableState = .enableOperation
  := by
  rcases r.instant i with ⟨hcall, -⟩ | ⟨input, output, hcall, henabled, -⟩ |
    ⟨input, output, hcall, -, hword, -⟩
  · exact absurd h (not_at_of_none _ hcall)
  · rw [Enabled, at_iff hcall] at hdisabled
    contradiction
  · rw [Writes, at_iff hcall, hword] at h
    revert h
    cases (r.state i).enableState with
    | enableOperation => exact fun _ => rfl
    | _ => exact fun h => absurd h (by decide)

/-- A call that prepares the drive keeps Switch on and sends the actual position. -/
theorem Prepares.written (h : r.Prepares i) :
  r.At (fun input _ output => output.controlWord = cia402CwSwitchOn
    ∧ output.targetPos = input.currentPosition ∧ output.targetVelocity = 0) i
  := by
  obtain ⟨input, output, hcall, hstate, hdisabled⟩ := h
  rw [at_iff hcall, servoEnable, if_neg (Bool.eq_false_iff.mp hdisabled)]
  obtain ⟨hword, htarget, -⟩ := servoAdvance_output r.opMode input
    (if r.opMode ≠ 0 then { output with opModeSet := r.opMode } else output) (r.state i)
  rw [hstate] at hword
  exact ⟨hword, htarget hstate⟩

/-- The drive has been led to the point where it may be enabled: since the voltage was taken off,
it was seen to be ready, later to be switched on, and was then prepared in at least five calls,
each with its actual position, the last of which saw the mode asked for. -/
def Led (r : AxisRun) (i : ℕ) : Prop :=
  ∃ z a b c, z < a ∧ a < b ∧ b < c ∧ c < i
    ∧ r.Disables z ∧ (∀ k, z < k → k < i → ¬ r.Disables k)
    ∧ r.SeesReady a ∧ r.SeesSwitchedOn b ∧ 5 ≤ r.preparedCalls b i
    ∧ (∀ k, b < k → k < i → r.Prepares k →
      r.At (fun input _ output => output.controlWord = cia402CwSwitchOn
        ∧ output.targetPos = input.currentPosition ∧ output.targetVelocity = 0) k)
    ∧ r.SeesMode c ∧ ∀ k, c < k → k < i → ¬ r.Prepares k

theorem led_of_enableOperation (h : (r.state i).enableState = .enableOperation) :
  r.Led i
  := by
  obtain ⟨b, c, hb, hfive, hbc, hci, hmode, hlast⟩ := (r.history i).enable h
  obtain ⟨a, hab, ⟨hready, z, hza, hdisables, hza'⟩, hab'⟩ := hb.ready
  refine ⟨z, a, b, c, hza, hab, hbc, hci, hdisables, ?_, hready, hb.seen, hfive, ?_, hmode, hlast⟩
  · -- neither the calls that saw the drive on its way nor those between them disable it
    have hne : ∀ {k : ℕ} {word : UInt16}, word ≠ cia402CwDisableVoltage → r.Writes word k →
        ¬ r.Disables k := by
      rintro k word hword ⟨input, output, hcall, hwrites⟩ hdisables
      rw [Disables, Writes, at_iff hcall, hwrites] at hdisables
      contradiction
    intro k hzk hki
    rcases Nat.lt_trichotomy k a with hka | rfl | hak
    · apply hza' k hzk hka
    · apply hne (by decide) (hready.mono fun _ _ _ h => h.1)
    rcases Nat.lt_trichotomy k b with hkb | rfl | hbk
    · apply hab' k hak hkb
    · apply hne (by decide) (hb.seen.mono fun _ _ _ h => h.1)
    · apply hb.since k hbk hki
  · intro k _ _ hprepares
    apply hprepares.written

/-- The position that a call writes to a drive that is to be enabled. -/
theorem targetPos_of_enableOperation (h : (r.state i).enableState = .enableOperation)
    (hwrites : r.Writes cia402CwEnableOperation i) (hdisabled : ¬ r.Enabled i) :
  r.At (fun _ e output => output.targetPos = e.servoEnableHoldPos) i
  := by
  obtain ⟨input, output, hcall, -⟩ := hwrites
  rw [Enabled, at_iff hcall] at hdisabled
  rw [at_iff hcall, servoEnable, if_neg hdisabled]
  apply (servoAdvance_output _ _ _ _).2.2 h

end AxisRun

/-! ### Calls of `ethercat_servo_enable_process` -/

/-- New contents of the areas of an axis. -/
def Servos.receive (slave : ℕ) (input : PdoInput) (output : PdoOutput) (x : Servos) : Servos :=
  { x with
    axes :=
      { x.axes with
        axisInputs := Function.update x.axes.axisInputs slave (some input)
        axisOutputs := Function.update x.axes.axisOutputs slave (some output) } }

/-- The axes before a call, when the state machine of one axis is called with what it is fed. -/
def enableRun (slave : ℕ) (opMode : Int8) (feed : ℕ → PdoInput × PdoOutput) (x : Servos) :
    ℕ → Servos
  | 0 => x
  | i + 1 =>
      (ethercatServoEnableProcess slave opMode
        ((enableRun slave opMode feed x i).receive slave (feed i).1 (feed i).2)).2

section EnableRun

variable {slave : ℕ} (opMode : Int8) (feed : ℕ → PdoInput × PdoOutput) {x : Servos}

omit feed in
/-- One call, of an axis whose areas are bound. -/
theorem ethercatServoEnableProcess_receive (hslave : 0 < slave ∧ slave ≤ x.axes.axisCount)
    (input : PdoInput) (output : PdoOutput) :
  (ethercatServoEnableProcess slave opMode (x.receive slave input output)).2.enable slave
      = (servoEnable opMode input output (x.enable slave)).2.2
    ∧ (ethercatServoEnableProcess slave opMode (x.receive slave input output)).2.axes.axisOutputs
        slave
      = some (servoEnable opMode input output (x.enable slave)).2.1
    ∧ (ethercatServoEnableProcess slave opMode (x.receive slave input output)).2.axes.axisCount
      = x.axes.axisCount
  := by
  have hinput : (x.receive slave input output).axes.axisInputs slave = some input :=
    Function.update_self ..
  have houtput : (x.receive slave input output).axes.axisOutputs slave = some output :=
    Function.update_self ..
  have hslave' : ¬ (slave = 0 ∨ (x.receive slave input output).axes.axisCount < slave) := by
    show ¬ (slave = 0 ∨ x.axes.axisCount < slave)
    omega
  unfold ethercatServoEnableProcess
  rw [if_neg hslave', hinput, houtput]
  dsimp only
  rw [Function.update_self, Function.update_self]
  exact ⟨rfl, rfl, rfl⟩

/-- The calls are a run of the axis. -/
theorem enableRun_state (hslave : 0 < slave ∧ slave ≤ x.axes.axisCount)
    (hbound : x.enable slave = AxisEnable.bound) (i : ℕ) :
  (enableRun slave opMode feed x i).enable slave
      = (AxisRun.mk opMode fun i => some (feed i)).state i
    ∧ (enableRun slave opMode feed x i).axes.axisCount = x.axes.axisCount
  := by
  induction i with
  | zero => exact ⟨hbound, rfl⟩
  | succ i ih =>
      obtain ⟨hstate, hcount⟩ := ih
      rw [← hcount] at hslave
      obtain ⟨henable, -, hcount'⟩ :=
        ethercatServoEnableProcess_receive opMode hslave (feed i).1 (feed i).2
      refine ⟨?_, hcount'.trans hcount⟩
      rw [AxisRun.state_succ rfl, ← hstate]
      apply henable

/-- What the calls leave is what the run of the axis has. -/
theorem enableRun_spec (hslave : 0 < slave ∧ slave ≤ x.axes.axisCount)
    (hbound : x.enable slave = AxisEnable.bound) (i : ℕ) :
  (enableRun slave opMode feed x i).enable slave
      = (AxisRun.mk opMode fun i => some (feed i)).state i
    ∧ (enableRun slave opMode feed x (i + 1)).axes.axisOutputs slave
      = some (servoEnable opMode (feed i).1 (feed i).2
          ((AxisRun.mk opMode fun i => some (feed i)).state i)).2.1
  := by
  obtain ⟨hstate, hcount⟩ := enableRun_state opMode feed hslave hbound i
  refine ⟨hstate, ?_⟩
  rw [← hcount] at hslave
  obtain ⟨-, houtput, -⟩ :=
    ethercatServoEnableProcess_receive opMode hslave (feed i).1 (feed i).2
  rw [hstate] at houtput
  apply houtput

/-- If a call writes Enable operation, the drive is enabled, or it has been led to the point where
it may be enabled, and its target position is the one taken last. -/
theorem enable_sequence (slave : ℕ) (opMode : Int8) (feed : ℕ → PdoInput × PdoOutput) (x : Servos)
    (hslave : 0 < slave ∧ slave ≤ x.axes.axisCount) (hbound : x.enable slave = AxisEnable.bound) :
  let r : AxisRun := ⟨opMode, fun i => some (feed i)⟩
  (∀ i, (enableRun slave opMode feed x i).enable slave = r.state i
      ∧ (enableRun slave opMode feed x (i + 1)).axes.axisOutputs slave
        = some (servoEnable opMode (feed i).1 (feed i).2 (r.state i)).2.1)
    ∧ ∀ i, r.Writes cia402CwEnableOperation i → ¬ r.Enabled i →
      r.Led i ∧ ∃ position, r.TookLast position i
        ∧ r.At (fun _ _ output => output.targetPos = position) i
  := by
  intro r
  constructor
  · apply enableRun_spec opMode feed hslave hbound
  · intro i hwrites hdisabled
    have hstate := AxisRun.enableOperation_of_writes hwrites hdisabled
    refine ⟨AxisRun.led_of_enableOperation hstate, (r.state i).servoEnableHoldPos,
      r.tookLast_of_enableOperation i hstate, ?_⟩
    apply AxisRun.targetPos_of_enableOperation hstate hwrites hdisabled

end EnableRun

/-! ### A drive that does what it is told -/

/-- What a drive at rest reports in a state. -/
def PdoInput.resting (statusWord : UInt16) : PdoInput where
  statusWord := statusWord
  currentPosition := 0
  opModeNow := 8
  touchProbeStatus := 0
  touchProbePos1 := 0
  digitalinputs := 0

/-- Output areas in which nothing has been written. -/
def PdoOutput.blank : PdoOutput := ⟨0, 0, 0, 0, 0⟩

/-- One axis, bound. -/
def Servos.one : Servos where
  axes := ⟨1, fun _ => none, fun _ => none⟩
  enable := fun _ => AxisEnable.bound

/-- The drive goes from Switch on disabled to Switched on. -/
def obedient (i : ℕ) : PdoInput × PdoOutput :=
  (PdoInput.resting (if i = 0 then 0x0040 else if i = 1 then 0x0021 else 0x0023), PdoOutput.blank)

theorem enable_sequence_obedient :
  (AxisRun.mk 8 fun i => some (obedient i)).Led 8
  := by
  apply And.left
  apply (enable_sequence 1 8 obedient Servos.one (by decide) rfl).2
  · apply (AxisRun.at_iff rfl).mpr
    decide +kernel
  · intro h
    exact absurd ((AxisRun.at_iff rfl).mp h) (by decide +kernel)

end EthercatMaster
