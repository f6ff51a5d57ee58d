import EthercatMaster.Motion.Mailbox

/-!
# The target position written to the drive

In every call, the scheduler writes the commanded position to the output area of the first
axis.  It moves only when a request is applied, when a leg cannot be planned, or when a running
trajectory is advanced.
-/

namespace EthercatMaster

variable {F : Type}

/-! ### The commanded position in one call -/

/-- The commanded position is written as it is, since the axis runs in open loop. -/
theorem motionTargetOutputWrite_targetPos (s : Motion F) (output : PdoOutput) :
  (motionTargetOutputWrite s output).targetPos = s.control.commandCounts
  := by
  rw [motionTargetOutputWrite, show motionClosedLoopCorrectionGet.toInt = 0 from rfl, add_zero]
  have hmax := s.control.commandCounts.toInt_le
  have hmin := Int32.minValue_le_toInt s.control.commandCounts
  rw [if_neg (not_lt.mpr hmax), if_neg (not_lt.mpr hmin)]
  apply Int32.ofInt_toInt

/-- A trajectory that is not running leaves the commanded position. -/
theorem SegmentStep.commandCounts {input : PdoInput} {s s' : Motion F} {result : SegmentResult}
    (h : SegmentStep input s (result, s')) (hrunning : s.trajectory.running = false) :
  s'.control.commandCounts = s.control.commandCounts
  := by
  have harrived : s.arrived = s := by
    rw [Motion.arrived, hrunning]
    rfl
  cases h with
  | moving _ running _ =>
      rw [running] at hrunning
      cases hrunning
  | unsettled _ => rw [harrived]; rfl
  | settling _ _ => rw [harrived]; rfl
  | settled _ _ => rw [harrived]; rfl

theorem RecipTurn.commandCounts {input : PdoInput} {s s₁ : Motion F} (h : RecipTurn input s s₁)
    (hrunning : s.recip.stage.IsMove → s.trajectory.running = false) :
  s₁.control.commandCounts = s.control.commandCounts
  := by
  rcases h with ⟨hmove, hstep⟩ | ⟨-, rfl⟩
  · apply hstep.commandCounts (hrunning hmove)
  · rfl

/-- A request leaves the commanded position, unless it aborts or starts a motion. -/
theorem RequestStep.commandCounts [FloatArith F] {input : PdoInput} {request : MotionRequest F}
    {s s' : Motion F} (h : RequestStep input request s s')
    (hstart : request.action ≠ .actionStart) (habort : request.action ≠ .actionAbort)
    (hpause : request.action = .actionPause → s.control.busy = true) :
  s'.control.commandCounts = s.control.commandCounts
  := by
  cases h with
  | aborted action _ =>
      rcases action with haction | ⟨haction, hbusy⟩
      · contradiction
      · rw [hpause haction] at hbusy
        cases hbusy
  | single action _ _ => contradiction
  | recip action _ _ _ _ _ => contradiction
  | failed action _ => contradiction
  | _ => rfl

section Advance

variable [FloatArith F] [PositiveRoots F]

/-- A cycle from `s` to `s'` ends the motion because the next leg of a reciprocation cannot be
planned. -/
def Motion.PlanFails (input : PdoInput) (s s' : Motion F) : Prop :=
  ∃ (s₁ : Motion F) (r : MotionRecip F) (targetCounts : Int32), RecipTurn input s s₁
    ∧ (motionRecipMoveStart targetCounts { s₁ with recip := r }).1 ≠ .ok
    ∧ s' = motionFinishError input (motionRecipMoveStart targetCounts { s₁ with recip := r }).2

theorem Motion.PlanFails.commandCounts {input : PdoInput} {s s' : Motion F}
    (h : s.PlanFails input s') :
  s'.control.commandCounts = input.currentPosition
  := by
  obtain ⟨s₁, r, targetCounts, -, -, rfl⟩ := h
  rfl

/-- A cycle leaves the commanded position, unless it advances a running trajectory or the next
leg cannot be planned. -/
theorem AdvanceStep.commandCounts {input : PdoInput} {s s' : Motion F}
    (h : AdvanceStep input s s') :
  s'.control.commandCounts = s.control.commandCounts
    ∨ (s.OnSegment ∧ s.trajectory.running = true) ∨ s.PlanFails input s'
  := by
  by_cases hrunning : s.OnSegment ∧ s.trajectory.running = true
  · exact Or.inr (Or.inl hrunning)
  have hstopped : s.OnSegment → s.trajectory.running = false := by
    intro hs
    apply Bool.eq_false_iff.mpr
    intro hr
    apply hrunning ⟨hs, hr⟩
  cases h with
  | rest _ => exact Or.inl rfl
  | moving busy unpaused mode step =>
      left
      apply step.commandCounts (hstopped ⟨busy, unpaused, fun hm => absurd hm mode⟩)
  | finished busy unpaused mode step =>
      left
      apply step.commandCounts (hstopped ⟨busy, unpaused, fun hm => absurd hm mode⟩)
  | recip busy unpaused mode step =>
      have hmove : s.recip.stage.IsMove → s.trajectory.running = false :=
        fun hmove => hstopped ⟨busy, unpaused, fun _ => hmove⟩
      cases step with
      | moving stage step =>
          left
          apply step.commandCounts (hmove stage)
      | waiting turn _ _ =>
          left
          apply turn.commandCounts hmove
      | leg turn _ _ _ =>
          left
          apply turn.commandCounts hmove
      | finished stage step _ _ =>
          left
          apply step.commandCounts (hmove stage)
      | failed turn plan =>
          right
          right
          exact ⟨_, _, _, turn, plan, rfl⟩

omit [PositiveRoots F] in
theorem motionSegmentProcess_control (input : PdoInput) (s : Motion F) :
  (motionSegmentProcess input s).2.control
    = (if s.trajectory.running then motionSegmentAdvance s else s).control
  := by
  rw [motionSegmentProcess]
  generalize (if s.trajectory.running then motionSegmentAdvance s else s) = s₁
  rw [motionSegmentConfirm]
  split
  · rfl
  split
  · dsimp only
    split
    · rfl
    · rfl
  · rfl

omit [PositiveRoots F] in
/-- A running trajectory is not completed in the cycle in which it arrives. -/
theorem motionSegmentProcess_running (input : PdoInput) (s : Motion F)
    (h : s.trajectory.Active) (hrunning : s.trajectory.running = true) :
  (motionSegmentProcess input s).1 = .running
  := by
  have hstep := motionSegmentProcess_step input s h
  revert hstep
  generalize motionSegmentProcess input s = x
  intro hstep
  cases hstep with
  | settled _ last =>
      rw [Motion.arrived, if_pos hrunning] at last
      have hlast : motionPositionStableCycles ≤ 0 + 1 := last
      exact absurd hlast (by decide)
  | _ => rfl

/-- A cycle that does not complete a segment is a cycle of `motion_segment_process`. -/
theorem motionAdvance_of_running (input : PdoInput) (s : Motion F) (hs : s.OnSegment)
    (hresult : (motionSegmentProcess input s).1 = .running) :
  motionAdvance input s = (motionSegmentProcess input s).2
  := by
  obtain ⟨hbusy, hpaused, hmove⟩ := hs
  rw [motionAdvance, hbusy, hpaused, Bool.not_false, Bool.and_self, if_pos rfl]
  rcases hprocess : motionSegmentProcess input s with ⟨result, s₁⟩
  rw [hprocess] at hresult
  cases hresult
  split
  · rename_i hmode
    rw [motionRecipProcess]
    rcases hmove hmode with hstage | hstage
    · rw [hstage]
      dsimp only
      rw [hprocess]
    · rw [hstage]
      dsimp only
      rw [hprocess]
  · rfl

/-- While its trajectory is running, a motion only advances along it. -/
theorem motionAdvance_running (input : PdoInput) (s : Motion F) (hs : s.OnSegment)
    (h : s.trajectory.Active) (hrunning : s.trajectory.running = true) :
  (motionAdvance input s).control.commandCounts = (motionSegmentAdvance s).control.commandCounts
  := by
  have hresult := motionSegmentProcess_running input s h hrunning
  rw [motionAdvance_of_running input s hs hresult, motionSegmentProcess_control,
    if_pos hrunning]

/-! ### One call of the scheduler -/

/-- The state in which a ready call advances the motion: the pending request has been
applied. -/
def Motion.dispatched (input : PdoInput) (s : Motion F) : Motion F :=
  motionServe input (motionAlign input s)

/-- The commanded position moves in a call of the scheduler only if the call applies a start
or an abort, if the next leg cannot be planned, or if a running trajectory is advanced. -/
theorem System.Valid.commandCounts_update {x : System F} (h : x.Valid)
    (hinitialized : x.motion.motionInitialized = true) (input : PdoInput) :
  (motionUpdate input x.motion).control.commandCounts = x.motion.control.commandCounts
    ∨ (input.servoReady = true
      ∧ ((x.motion.request.pending = true
          ∧ (x.motion.request.action = .actionStart ∨ x.motion.request.action = .actionAbort))
        ∨ (x.motion.dispatched input).PlanFails input (motionUpdate input x.motion)
        ∨ ((x.motion.dispatched input).OnSegment
          ∧ (x.motion.dispatched input).trajectory.running = true)))
  := by
  have halign : motionAlign input x.motion = x.motion := by
    rw [motionAlign, if_pos hinitialized]
  by_cases hready : input.servoReady = true
  · by_cases hmoves : x.motion.request.pending = true
        ∧ (x.motion.request.action = .actionStart ∨ x.motion.request.action = .actionAbort)
    · exact Or.inr ⟨hready, Or.inl hmoves⟩
    -- no other request moves the commanded position
    have hserve : (x.motion.dispatched input).control.commandCounts
        = x.motion.control.commandCounts := by
      rw [Motion.dispatched, halign]
      rcases motionServe_cases input x.motion with ⟨-, heq⟩ | ⟨hpending, hstep⟩
      · rw [heq]
      · apply hstep.commandCounts
        · intro haction
          exact hmoves ⟨hpending, Or.inl haction⟩
        · intro haction
          exact hmoves ⟨hpending, Or.inr haction⟩
        · intro haction
          apply (h.slot.pause_busy hpending haction).1
    have hupdate : motionUpdate input x.motion
        = motionAdvance input (x.motion.dispatched input) := by
      rw [motionUpdate, if_pos hready, Motion.dispatched]
    have hstep := (h.consistent.dispatched h.slot input).advanceStep input
    rw [hupdate, ← hserve]
    rcases hstep.commandCounts with heq | hrunning | hfails
    · exact Or.inl heq
    · exact Or.inr ⟨hready, Or.inr (Or.inr hrunning)⟩
    · exact Or.inr ⟨hready, Or.inr (Or.inl hfails)⟩
  · left
    rw [motionUpdate, if_neg hready, halign]

/-- A request applied to a motion that is not busy, at the actual position, leaves the commanded
position, and the motion is busy only if it has been started there. -/
theorem motionServe_idle (input : PdoInput) {s : Motion F}
    (hcommand : s.control.commandCounts = input.currentPosition)
    (hidle : s.control.busy = false) :
  (motionServe input s).control.commandCounts = input.currentPosition
    ∧ ((motionServe input s).control.busy = true → s.request.pending = true
      ∧ s.request.action = .actionStart
      ∧ ∃ targetCounts, (motionServe input s).trajectory.Fresh input.currentPosition targetCounts)
  := by
  rcases motionServe_cases input s with ⟨-, heq⟩ | ⟨hpending, hstep⟩
  · rw [heq, hidle]
    exact ⟨hcommand, by rintro ⟨⟩⟩
  · revert hstep
    generalize motionServe input s = s'
    intro hstep
    cases hstep with
    | paused _ busy => exact absurd (hidle.symm.trans busy) (by decide)
    | resumed _ busy _ => exact absurd (hidle.symm.trans busy) (by decide)
    | ignored _ _ =>
        refine ⟨hcommand, ?_⟩
        intro hbusy
        exact absurd (hidle.symm.trans hbusy) (by decide)
    | aborted _ givenUp =>
        obtain ⟨t, r, -, -, -, rfl⟩ := givenUp
        exact ⟨rfl, by rintro ⟨⟩⟩
    | failed _ givenUp =>
        obtain ⟨t, r, -, -, -, rfl⟩ := givenUp
        exact ⟨rfl, by rintro ⟨⟩⟩
    | single action _ fresh =>
        rw [show s.fetched.control.commandCounts = input.currentPosition from hcommand] at fresh
        exact ⟨hcommand, fun _ => ⟨hpending, action, _, fresh⟩⟩
    | recip action _ _ _ _ fresh =>
        rw [show s.fetched.control.commandCounts = input.currentPosition from hcommand] at fresh
        exact ⟨hcommand, fun _ => ⟨hpending, action, _, fresh⟩⟩

/-- The first call of the scheduler commands the actual position, or the first cycle of a motion
started there. -/
theorem System.Valid.commandCounts_first {x : System F} (h : x.Valid)
    (hinitialized : x.motion.motionInitialized = false) (input : PdoInput) :
  (motionUpdate input x.motion).control.commandCounts = input.currentPosition
    ∨ (input.servoReady = true ∧ x.motion.request.pending = true
      ∧ x.motion.request.action = .actionStart
      ∧ (x.motion.dispatched input).trajectory.running = true
      ∧ (x.motion.dispatched input).trajectory.startCounts = input.currentPosition
      ∧ (x.motion.dispatched input).trajectory.cycleIndex = 0
      ∧ (motionUpdate input x.motion).control.commandCounts
        = (motionSegmentAdvance (x.motion.dispatched input)).control.commandCounts)
  := by
  have hidle := h.uninitialized hinitialized
  have halign : (motionAlign input x.motion).control.commandCounts = input.currentPosition
      ∧ (motionAlign input x.motion).control.busy = false := by
    rw [motionAlign, hinitialized]
    exact ⟨rfl, hidle⟩
  by_cases hready : input.servoReady = true
  · have hupdate : motionUpdate input x.motion
        = motionAdvance input (x.motion.dispatched input) := by
      rw [motionUpdate, if_pos hready, Motion.dispatched]
    obtain ⟨hcommand, hstarted⟩ := motionServe_idle input halign.1 halign.2
    have hconsistent := h.consistent.dispatched h.slot input
    rw [hupdate]
    rcases (hconsistent.advanceStep input).commandCounts with heq | ⟨hsegment, hrunning⟩ | hfails
    · left
      rw [Motion.dispatched, heq, hcommand]
    · right
      obtain ⟨hpending, haction, targetCounts, hfresh⟩ := hstarted hsegment.1
      rw [motionAlign_request] at hpending haction
      refine ⟨hready, hpending, haction, hrunning, hfresh.start, ?_, ?_⟩
      · rcases hfresh.flags with ⟨-, -, hindex, -⟩ | ⟨hstopped, -, -⟩
        · apply hindex
        · rw [hrunning] at hstopped
          cases hstopped
      · apply motionAdvance_running input _ hsegment hfresh.active hrunning
    · left
      apply hfails.commandCounts
  · left
    rw [motionUpdate, if_neg hready]
    apply halign.1

/-! ### Runs -/

namespace System

/-- The event is a call of the scheduler with process data bound, from the input area `input`,
that leaves `target` as target position in the output area. -/
def Writes (x : System F) (e : Event F) (input : PdoInput) (target : Int32) : Prop :=
  e = .process ∧ x.area.input1s = some input ∧ x.area.output1s.isSome = true
    ∧ ∃ output, (x.step e).area.output1s = some output ∧ output.targetPos = target

/-- What is written is the commanded position after the call. -/
theorem Writes.target {x : System F} {e : Event F} {input : PdoInput} {target : Int32}
    (h : x.Writes e input target) :
  (x.step e).motion = motionUpdate input x.motion
    ∧ target = (x.step e).motion.control.commandCounts
  := by
  obtain ⟨rfl, hinput, houtput, output, hafter, rfl⟩ := h
  rcases x.step_process_cases with ⟨hnone, -⟩ | ⟨input', output', hinput', -, hmotion, hafter'⟩
  · rcases hnone with hnone | hnone
    · rw [hnone] at hinput
      cases hinput
    · rw [hnone] at houtput
      cases houtput
  · rw [hinput] at hinput'
    cases hinput'
    rw [hafter] at hafter'
    cases hafter'
    rw [motionTargetOutputWrite_targetPos, hmotion]
    exact ⟨rfl, rfl⟩

/-- A step that writes no target position leaves the motion. -/
theorem Valid.step_of_not_writes {x : System F} (h : x.Valid) {e : Event F}
    (hnot : ∀ input target, ¬ x.Writes e input target) :
  (x.step e).motion.control = x.motion.control
    ∧ (x.step e).motion.motionInitialized = x.motion.motionInitialized
  := by
  by_cases he : e = .process
  · subst he
    rcases x.step_process_cases with ⟨-, heq⟩ | ⟨input, output, hinput, houtput, -, hafter⟩
    · rw [heq]
      exact ⟨rfl, rfl⟩
    · exfalso
      apply hnot input
      refine ⟨rfl, hinput, ?_, _, hafter, rfl⟩
      rw [houtput]
      rfl
  · rcases h.critical_or he with ⟨result, -, hstep⟩ | ⟨-, heq⟩
    · obtain ⟨hcontrol, -, -, hinitialized⟩ := hstep.sameMotion
      exact ⟨hcontrol, hinitialized⟩
    · rw [heq]
      exact ⟨rfl, rfl⟩

/-- The call at position `i` of a run writes a target position. -/
def WritesAt (es : List (Event F)) (i : ℕ) (input : PdoInput) (target : Int32) : Prop :=
  ∃ e, es[i]? = some e ∧ (machine.before es i).Writes e input target

/-- The motion before position `i` of a run. -/
def motionBefore (es : List (Event F)) (i : ℕ) : Motion F :=
  (machine.before es i : System F).motion

theorem motionBefore_succ {es : List (Event F)} {i : ℕ} {e : Event F} (h : es[i]? = some e) :
  motionBefore es (i + 1) = ((machine.before es i).step e).motion
  := by
  rw [motionBefore, machine.before_succ h]
  rfl

theorem motionBefore_succ_of_none {es : List (Event F)} {i : ℕ} (h : es[i]? = none) :
  motionBefore es (i + 1) = motionBefore es i
  := by
  rw [motionBefore, machine.before_succ_of_none h]
  rfl

/-- Between two calls that write, the control state stays. -/
theorem motionBefore_eq (es : List (Event F)) {i j : ℕ} (hij : i ≤ j)
    (hnot : ∀ k, i ≤ k → k < j → ∀ input target, ¬ WritesAt es k input target) :
  (motionBefore es j).control = (motionBefore es i).control
    ∧ (motionBefore es j).motionInitialized = (motionBefore es i).motionInitialized
  := by
  induction j, hij using Nat.le_induction with
  | base => exact ⟨rfl, rfl⟩
  | succ j hij ih =>
      obtain ⟨hcontrol, hinitialized⟩ := ih fun k hik hkj => hnot k hik (by omega)
      rw [← hcontrol, ← hinitialized]
      cases he : es[j]? with
      | none =>
          rw [motionBefore_succ_of_none he]
          exact ⟨rfl, rfl⟩
      | some e =>
          rw [motionBefore_succ he]
          apply (valid_before es j).step_of_not_writes
          intro input target hwrites
          apply hnot j hij (by omega) input target
          exact ⟨e, he, hwrites⟩

/-- The state after a call that writes. -/
theorem WritesAt.motion {es : List (Event F)} {i : ℕ} {input : PdoInput} {target : Int32}
    (h : WritesAt es i input target) :
  motionBefore es (i + 1) = motionUpdate input (motionBefore es i)
    ∧ target = (motionUpdate input (motionBefore es i)).control.commandCounts
  := by
  obtain ⟨e, he, hwrites⟩ := h
  obtain ⟨hmotion, htarget⟩ := hwrites.target
  rw [motionBefore_succ he]
  refine ⟨hmotion, ?_⟩
  rw [htarget, hmotion]
  rfl

/-- A ready call that writes applies what is in the slot. -/
theorem WritesAt.appliesAt {es : List (Event F)} {j : ℕ} {input : PdoInput} {target : Int32}
    (h : WritesAt es j input target) (hready : input.servoReady = true)
    (hpending : (motionBefore es j).request.pending = true) :
  ∃ s, AppliesAt es j (motionBefore es j).request s
  := by
  obtain ⟨e, he, rfl, hinput, houtput, -⟩ := h
  apply ReadyAt.appliesAt _ hpending
  exact ⟨_, input, he, rfl, hinput, houtput, hready⟩

/-- No unrequested movement, in every run.

Of two successive calls that write a target position, the second one writes another position
than the first only if it applies a start or an abort, if the next leg of a reciprocation cannot
be planned, and then it writes the actual position, or if it advances a running trajectory of a
busy motion that is not paused.  The first call of all writes the actual position, or the first
cycle of a motion that it has started there. -/
theorem no_unrequested_movement (es : List (Event F)) :
  (∀ i j inputᵢ input p q, i < j → WritesAt es i inputᵢ p → WritesAt es j input q →
      (∀ k, i < k → k < j → ∀ input' r, ¬ WritesAt es k input' r) →
      q = p
        ∨ (∃ request s, AppliesAt es j request s
          ∧ (request.action = .actionStart ∨ request.action = .actionAbort))
        ∨ (input.servoReady = true
          ∧ ((motionBefore es j).dispatched input).PlanFails input (motionBefore es (j + 1))
          ∧ q = input.currentPosition)
        ∨ (input.servoReady = true ∧ ((motionBefore es j).dispatched input).OnSegment
          ∧ ((motionBefore es j).dispatched input).trajectory.running = true))
    ∧ (∀ j input q, WritesAt es j input q →
      (∀ k, k < j → ∀ input' r, ¬ WritesAt es k input' r) →
      q = input.currentPosition
        ∨ (∃ request s, AppliesAt es j request s ∧ request.action = .actionStart
          ∧ ((motionBefore es j).dispatched input).trajectory.running = true
          ∧ ((motionBefore es j).dispatched input).trajectory.startCounts = input.currentPosition
          ∧ ((motionBefore es j).dispatched input).trajectory.cycleIndex = 0
          ∧ q = (motionSegmentAdvance
              ((motionBefore es j).dispatched input)).control.commandCounts))
  := by
  constructor
  · intro i j inputᵢ input p q hij hi hj hbetween
    obtain ⟨hafter, rfl⟩ := hi.motion
    have hvalid := valid_before es i
    have hinitialized : (motionBefore es (i + 1)).motionInitialized = true := by
      rw [hafter]
      apply hvalid.consistent.initialized_update hvalid.slot
    obtain ⟨hcontrol, hsame⟩ := motionBefore_eq es (i := i + 1) (j := j) (by omega)
      fun k hik hkj => hbetween k (by omega) hkj
    rw [hinitialized] at hsame
    rw [← hafter, ← hcontrol]
    obtain ⟨hmotion, rfl⟩ := hj.motion
    rw [hmotion]
    rcases (valid_before es j).commandCounts_update hsame input with
      heq | ⟨hready, ⟨hpending, haction⟩ | hfails | ⟨hsegment, hrunning⟩⟩
    · exact Or.inl heq
    · obtain ⟨s, happlies⟩ := hj.appliesAt hready hpending
      exact Or.inr (Or.inl ⟨_, s, happlies, haction⟩)
    · exact Or.inr (Or.inr (Or.inl ⟨hready, hfails, hfails.commandCounts⟩))
    · exact Or.inr (Or.inr (Or.inr ⟨hready, hsegment, hrunning⟩))
  · intro j input q hj hfirst
    obtain ⟨-, hsame⟩ := motionBefore_eq es (i := 0) (j := j) (by omega)
      fun k _ hkj => hfirst k hkj
    obtain ⟨-, rfl⟩ := hj.motion
    rcases (valid_before es j).commandCounts_first hsame input with
      heq | ⟨hready, hpending, haction, hrunning, hstart, hindex, heq⟩
    · exact Or.inl heq
    · obtain ⟨s, happlies⟩ := hj.appliesAt hready hpending
      exact Or.inr ⟨_, s, happlies, haction, hrunning, hstart, hindex, heq⟩

end System

end Advance

end EthercatMaster
