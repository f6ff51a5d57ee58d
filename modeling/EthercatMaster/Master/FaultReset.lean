import EthercatMaster.Master.Sequence

/-!
# Faults that are never reset

Only `SERVO_ENABLE_IDLE` looks for a fault to reset.  A fault that comes up in a later state is
waited out there, so that the axis gives up on it without a reset pulse.
-/

namespace EthercatMaster

namespace AxisRun

variable {r : AxisRun} {i : ℕ}

/-- A reset pulse has been sent since the drive was last enabled. -/
def WasReset (r : AxisRun) : ℕ → Prop :=
  Since (fun k => ¬ r.Enabled k) (r.Writes cia402CwFaultReset)

/-- A call that finds a fault in `SERVO_ENABLE_IDLE`. -/
def SeesFault (r : AxisRun) : ℕ → Prop :=
  r.At fun input e _ =>
    (e.enableState = .idle ∧ input.operationEnabled = false) ∧ input.fault = true

/-- A call that finds the drive enabled, unless it does so in `SERVO_ENABLE_FAULT_RESET_PULSE` in
another mode than asked for, where the pulse is still to come. -/
def Ends (r : AxisRun) : ℕ → Prop :=
  r.At fun input e _ =>
    input.operationEnabled = true
      ∧ (e.enableState ≠ .faultResetPulse ∨ r.opMode = 0 ∨ input.opModeNow = r.opMode)

/-- The fault was there when the axis was idle, and the drive has not been enabled since. -/
def SawFault (r : AxisRun) : ℕ → Prop :=
  Since (fun k => ¬ r.Ends k) r.SeesFault

/-- A call gives up on a drive that reports a fault. -/
def GivesUp (r : AxisRun) (i : ℕ) : Prop :=
  r.At (fun input e _ => input.fault = true ∧ e.enableState ≠ .failed) i
    ∧ (r.state (i + 1)).enableState = .failed

end AxisRun

/-- How a reset pulse and a fault seen in `SERVO_ENABLE_IDLE` are related in a state. -/
def ServoEnableState.Relates (reset fault : Prop) : ServoEnableState → Prop
  | .idle => ¬ reset ∧ ¬ fault
  | .faultResetPulse => ¬ reset ∧ fault
  | .done => ¬ reset ∧ ¬ fault
  | .failed => True
  | _ => reset ↔ fault

theorem ServoEnableState.relates_of_iff {state : ServoEnableState} (hwaits : state.Waits)
    {reset fault : Prop} :
  state.Relates reset fault ↔ (reset ↔ fault)
  := by
  rcases hwaits with rfl | rfl | rfl | rfl | rfl
  all_goals rfl

/-- When neither has happened, every state is possible but that of the pulse. -/
theorem ServoEnableState.relates_of_not {state : ServoEnableState} (hstate : state ≠ .faultResetPulse)
    {reset fault : Prop} (hreset : ¬ reset) (hfault : ¬ fault) :
  state.Relates reset fault
  := by
  cases state with
  | idle | done => exact ⟨hreset, hfault⟩
  | faultResetPulse => contradiction
  | failed => trivial
  | _ => exact iff_of_false hreset hfault

/-- A step between two states that wait keeps the two related. -/
theorem ServoEnableState.Relates.goesOn {state state' : ServoEnableState} {reset fault seen : Prop}
    (h : state.Relates reset fault) (hwaits : state.Waits) (hwaits' : state'.Waits) :
  state'.Relates (state = .faultResetPulse ∨ reset) ((state = .idle ∧ seen) ∨ fault)
  := by
  rw [relates_of_iff hwaits] at h
  rw [relates_of_iff hwaits', ← h]
  rcases hwaits with rfl | rfl | rfl | rfl | rfl
  all_goals simp

/-- What is related before a step of the state machine is related after it. -/
theorem EnableAdvance.relates {opMode : Int8} {input : PdoInput} {e e' : AxisEnable}
    (hnext : EnableAdvance opMode input e e') {reset fault : Prop}
    (h : e.enableState.Relates reset fault) :
  e'.enableState.Relates (e.enableState = .faultResetPulse ∨ reset)
    ((e.enableState = .idle ∧ input.fault = true) ∨ fault)
  := by
  cases hnext with
  | start hstate =>
      rw [hstate] at h ⊢
      obtain ⟨hreset, hfault⟩ := h
      rw [AxisEnable.goto]
      dsimp only
      split
      · rename_i hinput
        refine ⟨?_, Or.inl ⟨rfl, hinput⟩⟩
        rintro (⟨⟨⟩⟩ | hreset')
        contradiction
      · rename_i hinput
        apply ServoEnableState.relates_of_not (by decide)
        · rintro (⟨⟨⟩⟩ | hreset')
          contradiction
        · rintro (⟨-, hinput'⟩ | hfault')
          · contradiction
          · contradiction
  | pulse hstate =>
      rw [hstate] at h ⊢
      exact iff_of_true (Or.inl rfl) (Or.inr h.2)
  | timedOut _ _ _ hfailed =>
      rw [hfailed]
      trivial
  | failed hstate =>
      rw [hstate]
      trivial
  | left hstate =>
      rw [hstate] at h ⊢
      obtain ⟨hreset, hfault⟩ := h
      apply ServoEnableState.relates_of_not (by rintro ⟨⟩)
      · rintro (⟨⟨⟩⟩ | hreset')
        contradiction
      · rintro (⟨⟨⟩, -⟩ | hfault')
        contradiction
  | cleared hstate _ => exact h.goesOn (Or.inl hstate) (Or.inr (Or.inl rfl))
  | ready hstate _ => exact h.goesOn (Or.inr (Or.inl hstate)) (Or.inr (Or.inr (Or.inl rfl)))
  | switchedOn hstate _ =>
      apply h.goesOn (Or.inr (Or.inr (Or.inl hstate)))
      exact Or.inr (Or.inr (Or.inr (Or.inl rfl)))
  | prepared hstate _ _ =>
      apply h.goesOn (Or.inr (Or.inr (Or.inr (Or.inl hstate))))
      exact Or.inr (Or.inr (Or.inr (Or.inr rfl)))
  | preparing hstate _ =>
      have hwaits : e.enableState.Waits := Or.inr (Or.inr (Or.inr (Or.inl hstate)))
      exact h.goesOn hwaits hwaits
  | waiting hwaits _ _ => exact h.goesOn hwaits hwaits

namespace AxisRun

variable {r : AxisRun} {i : ℕ}

/-- In an instant in which the drive is not enabled, the past goes on. -/
theorem wasReset_succ (henabled : ¬ r.Enabled i) :
  r.WasReset (i + 1) ↔ r.Writes cia402CwFaultReset i ∨ r.WasReset i
  := by
  rw [WasReset, Since.succ, and_iff_right henabled]

theorem sawFault_succ (hends : ¬ r.Ends i) :
  r.SawFault (i + 1) ↔ r.SeesFault i ∨ r.SawFault i
  := by
  rw [SawFault, Since.succ, and_iff_right hends]

/-- What is related before an instant in which the drive is enabled is related after it: no reset
is remembered, and no fault unless the pulse is still to come. -/
theorem relates_of_enabled {input : PdoInput} {output : PdoOutput}
    (h : (r.state i).enableState.Relates (r.WasReset i) (r.SawFault i))
    (hcall : r.calls i = some (input, output)) (henabled : input.operationEnabled = true)
    (hword : (servoEnable r.opMode input output (r.state i)).2.1.controlWord
      = cia402CwEnableOperation)
    (hnext : (¬ (r.opMode ≠ 0 ∧ input.opModeNow ≠ r.opMode)
        ∧ (r.state (i + 1)).enableState = .done)
      ∨ ((r.opMode ≠ 0 ∧ input.opModeNow ≠ r.opMode)
        ∧ (r.state (i + 1)).enableState = (r.state i).enableState)) :
  (r.state (i + 1)).enableState.Relates (r.WasReset (i + 1)) (r.SawFault (i + 1))
  := by
  have hreset : ¬ r.WasReset (i + 1) := by
    apply Since.ended
    · rw [Enabled, at_iff hcall, not_not]
      apply henabled
    · rw [Writes, at_iff hcall, hword]
      decide
  have hsees : ¬ r.SeesFault i := by
    rw [SeesFault, at_iff hcall, henabled]
    rintro ⟨⟨-, ⟨⟩⟩, -⟩
  by_cases hends : r.Ends i
  · have hfault : ¬ r.SawFault (i + 1) := Since.ended (not_not.mpr hends) hsees
    apply ServoEnableState.relates_of_not _ hreset hfault
    rw [Ends, at_iff hcall, and_iff_right henabled] at hends
    rcases hnext with ⟨-, hdone⟩ | ⟨⟨hmode, hmismatch⟩, hstate⟩
    · rw [hdone]
      decide
    · rw [hstate]
      apply hends.resolve_right
      rintro (hzero | hmatch)
      · apply hmode hzero
      · apply hmismatch hmatch
  · have hpulse : (r.state i).enableState = .faultResetPulse := by
      by_contra hne
      apply hends
      rw [Ends, at_iff hcall]
      exact ⟨henabled, Or.inl hne⟩
    have hstate : (r.state (i + 1)).enableState = (r.state i).enableState := by
      rcases hnext with ⟨hmode, -⟩ | ⟨-, hstate⟩
      · exfalso
        apply hends
        rw [Ends, at_iff hcall]
        refine ⟨henabled, Or.inr ?_⟩
        by_contra hneither
        rw [not_or] at hneither
        apply hmode hneither
      · apply hstate
    have hfault : r.SawFault (i + 1) ↔ r.SawFault i := Since.same hends hsees
    rw [hstate, hfault]
    rw [hpulse] at h ⊢
    exact ⟨hreset, h.2⟩

/-- What is related before an instant is related after it. -/
theorem relates_succ (h : (r.state i).enableState.Relates (r.WasReset i) (r.SawFault i)) :
  (r.state (i + 1)).enableState.Relates (r.WasReset (i + 1)) (r.SawFault (i + 1))
  := by
  rcases r.instant i with ⟨hcall, hsame⟩ | ⟨input, output, hcall, henabled, hword, -, hnext⟩ |
    ⟨input, output, hcall, hdisabled, hword, hnext⟩
  · have hnone : ∀ P, ¬ r.At P i := fun P => not_at_of_none P hcall
    have hreset : r.WasReset (i + 1) ↔ r.WasReset i := Since.same (hnone _) (hnone _)
    have hfault : r.SawFault (i + 1) ↔ r.SawFault i := Since.same (hnone _) (hnone _)
    rw [hsame, hreset, hfault]
    apply h
  · apply relates_of_enabled h hcall henabled hword
    rcases hnext with hdone | ⟨hmode, hstate, -⟩
    · exact Or.inl hdone
    · exact Or.inr ⟨hmode, hstate⟩
  · -- the state machine advances
    have henabled : ¬ r.Enabled i := by
      rw [Enabled, at_iff hcall, hdisabled]
      decide
    have hends : ¬ r.Ends i := by
      rw [Ends, at_iff hcall, hdisabled]
      rintro ⟨⟨⟩, -⟩
    have hwrites : r.Writes cia402CwFaultReset i ↔ (r.state i).enableState = .faultResetPulse := by
      rw [Writes, at_iff hcall, hword]
      cases (r.state i).enableState with
      | faultResetPulse => exact iff_of_true rfl rfl
      | _ => exact iff_of_false (by decide) (by decide)
    have hsees : r.SeesFault i ↔ (r.state i).enableState = .idle ∧ input.fault = true := by
      rw [SeesFault, at_iff hcall, and_iff_left hdisabled]
    rw [wasReset_succ henabled, sawFault_succ hends, hwrites, hsees]
    apply hnext.relates h

theorem relates (r : AxisRun) (i : ℕ) :
  (r.state i).enableState.Relates (r.WasReset i) (r.SawFault i)
  := by
  induction i with
  | zero => exact ⟨Since.zero, Since.zero⟩
  | succ i ih => apply relates_succ ih

/-- A call that gives up waits for the drive. -/
theorem GivesUp.waits (h : r.GivesUp i) :
  (r.state i).enableState.Waits
  := by
  obtain ⟨⟨input, output, hcall, hfault, hstate⟩, hfailed⟩ := h
  rcases r.instant i with ⟨hcall', -⟩ | ⟨_, _, _, _, _, _, hnext⟩ | ⟨_, _, _, _, _, hnext⟩
  · rw [hcall] at hcall'
    cases hcall'
  · rcases hnext with ⟨-, hdone⟩ | ⟨-, hsame, -⟩
    · rw [hfailed] at hdone
      cases hdone
    · rw [hfailed] at hsame
      exact absurd hsame.symm hstate
  · revert hfailed hnext
    generalize r.state (i + 1) = e'
    intro hfailed hnext
    cases hnext with
    | waiting hwaits _ _ => apply hwaits
    | timedOut _ hwaits _ _ => apply hwaits
    | preparing hprepare _ => exact Or.inr (Or.inr (Or.inr (Or.inl hprepare)))
    | start _ =>
        rw [AxisEnable.goto] at hfailed
        dsimp only at hfailed
        split at hfailed
        · cases hfailed
        · cases hfailed
    | failed hstate' => contradiction
    | _ => cases hfailed

end AxisRun

/-- When a call gives up on a fault, a reset pulse has been sent since the drive was bound or last
enabled exactly if the fault was there when the axis was idle, and the drive has not been enabled
since. -/
theorem reset_before_giving_up (slave : ℕ) (opMode : Int8) (feed : ℕ → PdoInput × PdoOutput)
    (x : Servos) (hslave : 0 < slave ∧ slave ≤ x.axes.axisCount)
    (hbound : x.enable slave = AxisEnable.bound) :
  let r : AxisRun := ⟨opMode, fun i => some (feed i)⟩
  (∀ i, (enableRun slave opMode feed x i).enable slave = r.state i
      ∧ (enableRun slave opMode feed x (i + 1)).axes.axisOutputs slave
        = some (servoEnable opMode (feed i).1 (feed i).2 (r.state i)).2.1)
    ∧ ∀ i, r.GivesUp i → (r.WasReset i ↔ r.SawFault i)
  := by
  intro r
  constructor
  · apply enableRun_spec opMode feed hslave hbound
  · intro i hgivesUp
    have hrelates := r.relates i
    rw [ServoEnableState.relates_of_iff hgivesUp.waits] at hrelates
    apply hrelates

/-! ### A fault at the wrong moment -/

namespace LateFault

/-- The drive reports a fault once the axis has left `SERVO_ENABLE_IDLE`. -/
def feed (i : ℕ) : PdoInput × PdoOutput :=
  (PdoInput.resting (if i = 0 then 0x0040 else 0x0008), PdoOutput.blank)

def run : AxisRun := ⟨0, fun i => some (feed i)⟩

theorem calls_succ (i : ℕ) :
  run.calls (i + 1) = some (PdoInput.resting 0x0008, PdoOutput.blank)
  := by
  show some (feed (i + 1)) = _
  rw [feed, if_neg (Nat.succ_ne_zero i)]

/-- A call that finds the fault in `SERVO_ENABLE_SHUTDOWN` counts. -/
theorem servoEnable_shutdown (count : UInt32) :
  (servoEnable 0 (PdoInput.resting 0x0008) PdoOutput.blank ⟨.shutdown, count, 0, 0⟩).2.2
    = if 1000 < count + 1 then ⟨.failed, count + 1, 0, 0⟩ else ⟨.shutdown, count + 1, 0, 0⟩
  := by
  rw [servoEnable, if_neg (by decide), servoAdvance]
  dsimp only
  rw [if_neg (by decide), AxisEnable.await]
  dsimp only
  split
  · rfl
  · rfl

/-- The axis waits in `SERVO_ENABLE_SHUTDOWN` for the drive to become ready. -/
theorem state_run {i : ℕ} (hi : i ≤ 1000) :
  run.state (i + 1) = ⟨.shutdown, UInt32.ofNat i, 0, 0⟩
  := by
  induction i with
  | zero => rfl
  | succ i ih =>
      have hcount : UInt32.ofNat i + 1 = UInt32.ofNat (i + 1) := (UInt32.ofNat_add i 1).symm
      have htoNat : (UInt32.ofNat (i + 1)).toNat = i + 1 := by
        apply UInt32.toNat_ofNat_of_lt'
        apply lt_of_le_of_lt hi
        decide
      have hwithin : ¬ (1000 : UInt32) < UInt32.ofNat (i + 1) := by
        rw [UInt32.lt_iff_toNat_lt, htoNat]
        exact not_lt.mpr hi
      rw [AxisRun.state_succ (calls_succ i), ih (by omega)]
      dsimp only [run]
      rw [servoEnable_shutdown, hcount, if_neg hwithin]

/-- After 1001 calls the axis gives up. -/
theorem givesUp_run :
  run.GivesUp 1001
  := by
  have hstate : run.state 1001 = ⟨.shutdown, 1000, 0, 0⟩ := state_run (i := 1000) le_rfl
  refine ⟨⟨_, _, calls_succ 1000, rfl, ?_⟩, ?_⟩
  · rw [hstate]
    decide
  · rw [AxisRun.state_succ (calls_succ 1000), hstate]
    rfl

theorem not_wasReset_run :
  ¬ run.WasReset 1001
  := by
  rintro ⟨j, hj, hwrites, -⟩
  cases j with
  | zero => exact absurd ((AxisRun.at_iff rfl).mp hwrites) (by decide)
  | succ j =>
      rw [AxisRun.Writes, AxisRun.at_iff (calls_succ j), state_run (by omega), servoEnable,
        if_neg (by decide), (servoAdvance_output _ _ _ _).1] at hwrites
      have hword : ServoEnableState.shutdown.controlWord = cia402CwFaultReset := hwrites
      exact absurd hword (by decide)

/-- The axis gives up on the fault without a reset pulse. -/
theorem gives_up_without_reset :
  run.GivesUp 1001 ∧ ¬ run.WasReset 1001
  := ⟨givesUp_run, not_wasReset_run⟩

/-- It had not seen the fault while it was idle. -/
theorem reset_before_giving_up_run :
  run.GivesUp 1001 ∧ ¬ run.SawFault 1001
  := by
  have hiff := (reset_before_giving_up 1 0 feed Servos.one (by decide) rfl).2 1001 givesUp_run
  exact ⟨givesUp_run, mt hiff.mpr not_wasReset_run⟩

end LateFault

end EthercatMaster
