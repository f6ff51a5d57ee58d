import EthercatMaster.Motion.Step

/-!
# The invariant of the motion module

`Motion.Consistent` relates the flags of the control state, the trajectory and the
reciprocation; `Motion.SlotValid` says in which states a pending request may be found.  Both
hold in every state the tasks can reach.
-/

namespace EthercatMaster

variable {F : Type}

/-- The modes of a motion in progress. -/
def MotionMode.IsMotion (mode : MotionMode) : Prop :=
  mode = .moveAbs ∨ mode = .moveRel ∨ mode = .jog ∨ mode = .recip

/-- The flags of the control state, the trajectory and the reciprocation agree. -/
structure Motion.Consistent (s : Motion F) : Prop where
  /-- A paused motion is busy. -/
  paused_busy : s.control.paused = true → s.control.busy = true
  /-- At most one of the flags busy, done and error is set. -/
  at_most_one : ¬ (s.control.busy = true ∧ s.control.done = true)
    ∧ ¬ (s.control.busy = true ∧ s.control.error = true)
    ∧ ¬ (s.control.done = true ∧ s.control.error = true)
  /-- A motion is busy exactly in the modes of a motion in progress. -/
  busy_iff : s.control.busy = true ↔ s.control.mode.IsMotion
  /-- The reciprocation is active exactly while a reciprocation is busy. -/
  active_iff : s.recip.active = true ↔ s.control.busy = true ∧ s.control.mode = .recip
  /-- The reciprocation is active exactly outside its idle stage. -/
  active_iff_stage : s.recip.active = true ↔ s.recip.stage ≠ .idle
  /-- A busy motion outside a wait is either running or waiting for the actual position. -/
  one_flag : s.control.busy = true → ¬ s.recip.stage.IsWait →
    (s.trajectory.running = true ∧ s.trajectory.waitingActual = false)
      ∨ (s.trajectory.running = false ∧ s.trajectory.waitingActual = true)
  /-- Otherwise the trajectory does neither. -/
  no_flag : ¬ (s.control.busy = true ∧ ¬ s.recip.stage.IsWait) → s.trajectory.Still
  /-- A running trajectory has cycles left. -/
  running_lt : s.trajectory.running = true → s.trajectory.cycleIndex < s.trajectory.totalCycles

/-- The pending request fits the state it will be applied in. -/
structure Motion.SlotValid (s : Motion F) : Prop where
  start_free : s.request.pending = true → s.request.action = .actionStart →
    s.control.busy = true → s.control.paused = true
  pause_busy : s.request.pending = true → s.request.action = .actionPause →
    s.control.busy = true ∧ s.control.paused = false
  continue_paused : s.request.pending = true → s.request.action = .actionContinue →
    s.control.busy = true ∧ s.control.paused = true

namespace Motion

/-! ### Consequences -/

/-- On a segment, the trajectory is in progress. -/
theorem Consistent.active_of_onSegment {s : Motion F} (h : s.Consistent) (hs : s.OnSegment) :
  s.trajectory.Active
  := by
  obtain ⟨hbusy, -, hmove⟩ := hs
  have hwait : ¬ s.recip.stage.IsWait := by
    intro hwait
    have hmode : s.control.mode = .recip := by
      apply (h.active_iff.mp _).2
      apply h.active_iff_stage.mpr
      rcases hwait with h | h <;> simp [h]
    rcases hmove hmode with hm | hm <;> rcases hwait with hw | hw <;> simp [hm] at hw
  rcases h.one_flag hbusy hwait with ⟨hr, hw⟩ | ⟨hr, hw⟩
  · left
    exact ⟨hr, hw, h.running_lt hr⟩
  · right
    exact ⟨hr, hw⟩

/-- A busy reciprocation is not in its idle stage. -/
theorem Consistent.stage_ne_idle {s : Motion F} (h : s.Consistent)
    (hbusy : s.control.busy = true) (hmode : s.control.mode = .recip) :
  s.recip.stage ≠ .idle
  := by
  apply h.active_iff_stage.mp
  apply h.active_iff.mpr ⟨hbusy, hmode⟩

/-! ### Building consistent states -/

/-- A motion that has ended is consistent. -/
theorem consistent_of_ended {s : Motion F} (ht : s.trajectory.Still)
    (hbusy : s.control.busy = false) (hpaused : s.control.paused = false)
    (hmode : ¬ s.control.mode.IsMotion)
    (hend : ¬ (s.control.done = true ∧ s.control.error = true))
    (hactive : s.recip.active = false) (hstage : s.recip.stage = .idle) :
  s.Consistent
  := by
  constructor
  · simp [hpaused]
  · simp only [hbusy]
    simpa using hend
  · simp [hbusy, hmode]
  · simp [hactive, hbusy]
  · simp [hactive, hstage]
  · simp [hbusy]
  · intro
    apply ht
  · simp [ht.1]

/-- A motion that has been given up is consistent. -/
theorem GivenUp.consistent {s s' : Motion F} {c : MotionControl} (h : s.GivenUp c s')
    (hbusy : c.busy = false) (hpaused : c.paused = false) (hmode : ¬ c.mode.IsMotion)
    (hend : ¬ (c.done = true ∧ c.error = true)) :
  s'.Consistent
  := by
  obtain ⟨t, r, ht, ha, hs, rfl⟩ := h
  apply consistent_of_ended ht hbusy hpaused hmode hend ha hs

theorem GivenUp.consistent_aborted {s s' : Motion F} {input : PdoInput}
    (h : s.GivenUp (.aborted input) s') :
  s'.Consistent
  := by
  apply h.consistent rfl rfl
  · simp [MotionControl.aborted, MotionMode.IsMotion]
  · simp [MotionControl.aborted]

theorem GivenUp.consistent_failed {s s' : Motion F} {input : PdoInput}
    (h : s.GivenUp (.failed input) s') :
  s'.Consistent
  := by
  apply h.consistent rfl rfl
  · simp [MotionControl.failed, MotionMode.IsMotion]
  · simp [MotionControl.failed]

/-- A motion on a trajectory in progress is consistent. -/
theorem consistent_of_active {s : Motion F} (ht : s.trajectory.Active)
    (hbusy : s.control.busy = true) (hdone : s.control.done = false)
    (herror : s.control.error = false) (hmode : s.control.mode.IsMotion)
    (hactive : s.recip.active = true ↔ s.control.mode = .recip)
    (hstage : s.recip.active = true → s.recip.stage.IsMove)
    (hidle : s.recip.active = false → s.recip.stage = .idle) :
  s.Consistent
  := by
  have hwait : ¬ s.recip.stage.IsWait := by
    cases ha : s.recip.active with
    | true => rcases hstage ha with h | h <;> simp [h, RecipStage.IsWait]
    | false => simp [hidle ha, RecipStage.IsWait]
  constructor
  · intro
    apply hbusy
  · simp [hdone, herror]
  · simp [hbusy, hmode]
  · simp [hbusy, hactive]
  · constructor
    · intro ha
      rcases hstage ha with h | h <;> simp [h]
    · intro hs
      by_contra ha
      apply hs (hidle (Bool.not_eq_true _ ▸ ha))
  · intro _ _
    rcases ht with ⟨hr, hw, -⟩ | hrw
    · exact Or.inl ⟨hr, hw⟩
    · exact Or.inr hrw
  · intro h
    exact absurd ⟨hbusy, hwait⟩ h
  · intro hr
    rcases ht with ⟨-, -, hlt⟩ | ⟨hr', -⟩
    · apply hlt
    · rw [hr] at hr'
      cases hr'

/-- A reciprocation that dwells is consistent. -/
theorem consistent_of_wait {s : Motion F} (ht : s.trajectory.Still)
    (hbusy : s.control.busy = true) (hdone : s.control.done = false)
    (herror : s.control.error = false) (hmode : s.control.mode = .recip)
    (hactive : s.recip.active = true) (hwait : s.recip.stage.IsWait) :
  s.Consistent
  := by
  constructor
  · intro
    apply hbusy
  · simp [hdone, herror]
  · simp [hbusy, hmode, MotionMode.IsMotion]
  · simp [hbusy, hactive, hmode]
  · rcases hwait with h | h <;> simp [hactive, h]
  · intro _ h
    exact absurd hwait h
  · intro
    apply ht
  · simp [ht.1]

/-! ### Preservation -/

/-- The initial state is consistent. -/
theorem consistent_init [FloatArith F] :
  (Motion.init : Motion F).Consistent
  := by
  apply consistent_of_ended
  · exact ⟨rfl, rfl⟩
  · rfl
  · rfl
  · simp [Motion.init, MotionMode.IsMotion]
  · simp [Motion.init]
  · rfl
  · rfl

/-- Consistency depends on the flags of the control state, the trajectory and the
reciprocation only, and a busy motion may be paused or not. -/
theorem Consistent.congr {s s' : Motion F} (h : s.Consistent)
    (htrajectory : s'.trajectory = s.trajectory) (hrecip : s'.recip = s.recip)
    (hmode : s'.control.mode = s.control.mode) (hbusy : s'.control.busy = s.control.busy)
    (hdone : s'.control.done = s.control.done) (herror : s'.control.error = s.control.error)
    (hpaused : s'.control.paused = true → s'.control.busy = true) :
  s'.Consistent
  := by
  constructor
  · apply hpaused
  · rw [hbusy, hdone, herror]
    apply h.at_most_one
  · rw [hbusy, hmode]
    apply h.busy_iff
  · rw [hrecip, hbusy, hmode]
    apply h.active_iff
  · rw [hrecip]
    apply h.active_iff_stage
  · rw [hbusy, hrecip, htrajectory]
    apply h.one_flag
  · rw [hbusy, hrecip, htrajectory]
    apply h.no_flag
  · rw [htrajectory]
    apply h.running_lt

theorem Consistent.align {s : Motion F} (h : s.Consistent) (input : PdoInput) :
  (motionAlign input s).Consistent
  := by
  rw [motionAlign]
  split
  · apply h
  · exact h.congr rfl rfl rfl rfl rfl rfl h.paused_busy

end Motion

/-- A cycle that does not complete a segment leaves its trajectory in progress. -/
theorem SegmentStep.active {input : PdoInput} {s s' : Motion F}
    (h : SegmentStep input s (.running, s')) (ht : s.trajectory.Active) :
  s'.trajectory.Active
  := by
  have hrunning : s.arrived.trajectory.running = false := by
    rw [Motion.arrived]
    split
    · rfl
    · simp_all
  cases h with
  | moving c running left =>
      left
      rcases ht with ⟨hr, hw, -⟩ | ⟨hr, -⟩
      · exact ⟨hr, hw, left⟩
      · rw [running] at hr
        cases hr
  | unsettled _ => exact Or.inr ⟨hrunning, rfl⟩
  | settling _ _ => exact Or.inr ⟨hrunning, rfl⟩

/-- A cycle that completes a segment leaves its trajectory still. -/
theorem SegmentStep.still {input : PdoInput} {s s' : Motion F}
    (h : SegmentStep input s (.done, s')) :
  s'.trajectory.Still
  := by
  cases h with
  | settled _ _ =>
      refine ⟨?_, rfl⟩
      rw [Motion.arrived]
      split
      · rfl
      · simp_all [Motion.confirm]

/-- Between two legs, the trajectory is still. -/
theorem RecipTurn.still {input : PdoInput} {s s₁ : Motion F} (h : RecipTurn input s s₁)
    (hs : s.Consistent) :
  s₁.trajectory.Still
  := by
  rcases h with ⟨-, hstep⟩ | ⟨hwait, rfl⟩
  · apply hstep.still
  · apply hs.no_flag
    rintro ⟨-, hwait'⟩
    apply hwait' hwait

namespace Motion

/-- A busy motion is neither done nor failed. -/
theorem Consistent.not_ended {s : Motion F} (h : s.Consistent) (hbusy : s.control.busy = true) :
  s.control.done = false ∧ s.control.error = false
  := by
  obtain ⟨hdone, herror, -⟩ := h.at_most_one
  constructor
  · by_contra hd
    apply hdone ⟨hbusy, Bool.not_eq_false _ ▸ hd⟩
  · by_contra he
    apply herror ⟨hbusy, Bool.not_eq_false _ ▸ he⟩

/-- The reciprocation is idle when it is not active. -/
theorem Consistent.stage_idle {s : Motion F} (h : s.Consistent) (ha : s.recip.active = false) :
  s.recip.stage = .idle
  := by
  by_contra hs
  have := h.active_iff_stage.mpr hs
  rw [ha] at this
  cases this

/-- A cycle of a segment that does not complete it preserves consistency. -/
theorem Consistent.segment {s s' : Motion F} {input : PdoInput} (h : s.Consistent)
    (hs : s.OnSegment) (step : SegmentStep input s (.running, s')) :
  s'.Consistent
  := by
  have hactive := step.active (h.active_of_onSegment hs)
  obtain ⟨hbusy, -, hmove⟩ := hs
  obtain ⟨hdone, herror⟩ := h.not_ended hbusy
  obtain ⟨t, c, rfl⟩ := step.follow
  apply consistent_of_active hactive hbusy hdone herror (h.busy_iff.mp hbusy)
  · rw [show (s.follow t c).recip = s.recip from rfl, h.active_iff]
    simp [hbusy, follow]
  · intro ha
    apply hmove (h.active_iff.mp ha).2
  · apply h.stage_idle

/-- A request that fits the state preserves consistency. -/
theorem Consistent.request {s s' : Motion F} [FloatArith F] {input : PdoInput}
    {request : MotionRequest F} (h : s.Consistent)
    (start : request.action = .actionStart → s.control.busy = true → s.control.paused = true)
    (step : RequestStep input request s s') :
  s'.Consistent
  := by
  cases step with
  | paused _ busy =>
      obtain ⟨hdone, herror⟩ := h.not_ended busy
      refine h.congr rfl rfl rfl busy.symm hdone.symm herror.symm ?_
      intro
      rfl
  | resumed _ busy _ =>
      obtain ⟨hdone, herror⟩ := h.not_ended busy
      refine h.congr rfl rfl rfl busy.symm hdone.symm herror.symm ?_
      intro
      rfl
  | ignored _ _ => apply h
  | aborted _ givenUp => apply givenUp.consistent_aborted
  | single action mode fresh =>
      -- the reciprocation has been dropped with the paused motion, or it was not active
      have hrecip : (motionDropPaused s).recip.active = false
          ∧ (motionDropPaused s).recip.stage = .idle := by
        rw [motionDropPaused]
        split
        · exact ⟨rfl, rfl⟩
        · rename_i hpaused
          have ha : s.recip.active = false := by
            by_contra ha
            apply hpaused
            apply start action
            apply (h.active_iff.mp (Bool.not_eq_false _ ▸ ha)).1
          exact ⟨ha, h.stage_idle ha⟩
      apply consistent_of_active fresh.active rfl rfl rfl
      · rcases mode with hm | hm | hm <;>
          simp [Motion.launched, MotionControl.begin, MotionMode.IsMotion, hm]
      · rcases mode with hm | hm | hm <;>
          simp [Motion.launched, MotionControl.begin, hrecip.1, hm]
      · intro ha
        rw [show (s.launched _ _ _ _).recip = (motionDropPaused s).recip from rfl, hrecip.1] at ha
        cases ha
      · intro
        apply hrecip.2
  | recip action mode offset ne_zero range fresh =>
      apply consistent_of_active fresh.active rfl rfl rfl
      · simp [Motion.launched, MotionControl.begin, MotionMode.IsMotion]
      · simp [Motion.launched, MotionControl.begin, MotionRecip.ofRequest]
      · intro
        exact Or.inl rfl
      · simp [Motion.launched, MotionRecip.ofRequest]
  | failed _ givenUp => apply givenUp.consistent_failed

/-- A cycle of a reciprocation preserves consistency. -/
theorem Consistent.recip [FloatArith F] [PositiveRoots F] {s s' : Motion F} {input : PdoInput}
    (h : s.Consistent) (hbusy : s.control.busy = true) (hpaused : s.control.paused = false)
    (hmode : s.control.mode = .recip) (step : RecipStep input s s') :
  s'.Consistent
  := by
  obtain ⟨hdone, herror⟩ := h.not_ended hbusy
  have hactive : s.recip.active = true := h.active_iff.mpr ⟨hbusy, hmode⟩
  cases step with
  | moving stage step => apply h.segment ⟨hbusy, hpaused, fun _ => stage⟩ step
  | waiting turn active wait =>
      have hstill := turn.still h
      obtain ⟨t, c, rfl⟩ := turn.follow
      exact consistent_of_wait hstill hbusy hdone herror hmode (active.trans hactive) wait
  | leg turn active move fresh =>
      obtain ⟨t, c, rfl⟩ := turn.follow
      refine consistent_of_active fresh.active hbusy hdone herror (h.busy_iff.mp hbusy) ?_ ?_ ?_
      · exact iff_of_true (active.trans hactive) hmode
      · intro
        apply move
      · intro ha
        rw [active, hactive] at ha
        cases ha
  | finished stage step inactive idle =>
      have hstill := step.still
      obtain ⟨t, c, rfl⟩ := step.follow
      refine consistent_of_ended hstill rfl rfl ?_ ?_ ?_ ?_
      · simp [motionFinishSuccess, MotionMode.IsMotion]
      · simp [motionFinishSuccess]
      · apply inactive
      · apply idle
  | failed turn plan => apply (turn.givenUp plan).consistent_failed

/-- The last part of the scheduler preserves consistency. -/
theorem Consistent.advance [FloatArith F] [PositiveRoots F] {s s' : Motion F} {input : PdoInput}
    (h : s.Consistent) (step : AdvanceStep input s s') :
  s'.Consistent
  := by
  cases step with
  | rest _ => apply h
  | recip busy unpaused mode step => apply h.recip busy unpaused mode step
  | moving busy unpaused mode step =>
      apply h.segment ⟨busy, unpaused, fun hm => absurd hm mode⟩ step
  | finished busy unpaused mode step =>
      have hactive : s.recip.active = false := by
        by_contra ha
        apply mode
        apply (h.active_iff.mp (Bool.not_eq_false _ ▸ ha)).2
      have hstill := step.still
      obtain ⟨t, c, rfl⟩ := step.follow
      refine consistent_of_ended hstill rfl rfl ?_ ?_ ?_ ?_
      · simp [motionFinishSuccess, MotionMode.IsMotion]
      · simp [motionFinishSuccess]
      · apply hactive
      · apply h.stage_idle hactive

section Update

variable [FloatArith F] [PositiveRoots F]

/-- Applying the pending request preserves consistency. -/
theorem Consistent.serve {s : Motion F} (h : s.Consistent) (hslot : s.SlotValid)
    (input : PdoInput) :
  (motionServe input s).Consistent
  := by
  rcases motionServe_cases input s with ⟨-, heq⟩ | ⟨hpending, hstep⟩
  · rw [heq]
    apply h
  · have hfetched : s.fetched.Consistent :=
      h.congr rfl rfl rfl rfl rfl rfl h.paused_busy
    apply hfetched.request (hslot.start_free hpending) hstep

theorem SlotValid.align {F : Type} {s : Motion F} (h : s.SlotValid) (input : PdoInput) :
  (motionAlign input s).SlotValid
  := by
  rw [motionAlign]
  split
  · apply h
  · exact ⟨h.start_free, h.pause_busy, h.continue_paused⟩

/-- The state a cycle is advanced from is consistent. -/
theorem Consistent.dispatched {s : Motion F} (h : s.Consistent) (hslot : s.SlotValid)
    (input : PdoInput) :
  (motionServe input (motionAlign input s)).Consistent
  := by
  apply Consistent.serve (h.align input) (hslot.align input)

/-- What a ready call of the scheduler does after the request has been applied. -/
theorem Consistent.advanceStep {s : Motion F} (h : s.Consistent) (input : PdoInput) :
  AdvanceStep input s (motionAdvance input s)
  := by
  apply motionAdvance_step
  · apply h.stage_ne_idle
  · apply h.active_of_onSegment

theorem Consistent.update {s : Motion F} (h : s.Consistent) (hslot : s.SlotValid)
    (input : PdoInput) :
  (motionUpdate input s).Consistent
  := by
  rw [motionUpdate]
  split
  · have hdispatched := h.dispatched hslot input
    apply hdispatched.advance (hdispatched.advanceStep input)
  · apply h.align

/-- An empty slot is valid. -/
theorem slotValid_of_not_pending {F : Type} {s : Motion F} (h : s.request.pending = false) :
  s.SlotValid
  := by
  constructor
  · simp [h]
  · simp [h]
  · simp [h]

/-- A ready call leaves the slot empty. -/
theorem Consistent.pending_update {s : Motion F} (h : s.Consistent) (hslot : s.SlotValid)
    {input : PdoInput} (hready : input.servoReady = true) :
  (motionUpdate input s).request.pending = false
  := by
  rw [motionUpdate, if_pos hready]
  have hdispatched := h.dispatched hslot input
  rw [(hdispatched.advanceStep input).sameSettings.request]
  rcases motionServe_cases input (motionAlign input s) with ⟨hpending, heq⟩ | ⟨-, hstep⟩
  · rw [heq]
    apply hpending
  · rw [hstep.sameSettings.request]
    rfl

theorem motionAlign_initialized {F : Type} (input : PdoInput) (s : Motion F) :
  (motionAlign input s).motionInitialized = true
  := by
  rw [motionAlign]
  split
  · assumption
  · rfl

/-- After a call of the scheduler, the module is initialized. -/
theorem Consistent.initialized_update {s : Motion F} (h : s.Consistent) (hslot : s.SlotValid)
    (input : PdoInput) :
  (motionUpdate input s).motionInitialized = true
  := by
  rw [motionUpdate]
  split
  · have hdispatched := h.dispatched hslot input
    rw [(hdispatched.advanceStep input).sameSettings.motionInitialized]
    rcases motionServe_cases input (motionAlign input s) with ⟨-, heq⟩ | ⟨-, hstep⟩
    · rw [heq]
      apply motionAlign_initialized
    · rw [hstep.sameSettings.motionInitialized]
      apply motionAlign_initialized
  · apply motionAlign_initialized

theorem SlotValid.update {s : Motion F} (hslot : s.SlotValid) (h : s.Consistent)
    (input : PdoInput) :
  (motionUpdate input s).SlotValid
  := by
  by_cases hready : input.servoReady = true
  · apply slotValid_of_not_pending
    apply h.pending_update hslot hready
  · rw [motionUpdate, if_neg hready]
    apply hslot.align

end Update

end Motion

end EthercatMaster
