import EthercatMaster.Motion.Invariant

/-!
# The reachable states

The invariant of the motion module holds after every run of the tasks: any interleaving of
the calls of the public interface, with the checks and the submission of a call apart, with
calls of the scheduler on any process data.
-/

namespace EthercatMaster

variable {F : Type}

/-! ### The critical sections of the application tasks -/

namespace Motion

/-- The state a critical section of an application task leaves: only the request, the motor
parameters and the software zero may change. -/
def SameMotion (s s' : Motion F) : Prop :=
  s'.control = s.control ∧ s'.trajectory = s.trajectory ∧ s'.recip = s.recip
    ∧ s'.motionInitialized = s.motionInitialized

theorem Consistent.sameMotion {s s' : Motion F} (h : s.Consistent) (hs : s.SameMotion s') :
  s'.Consistent
  := by
  obtain ⟨hcontrol, htrajectory, hrecip, -⟩ := hs
  apply h.congr htrajectory hrecip
  · rw [hcontrol]
  · rw [hcontrol]
  · rw [hcontrol]
  · rw [hcontrol]
  · rw [hcontrol]
    apply h.paused_busy

end Motion

/-- What a critical section of an application task does: it leaves the state, it sets the motor
parameters or the software zero while there is neither a motion nor a request, or it fills the
slot with a request.  The flag says whether it is one of those that fill the slot. -/
inductive CriticalStep (s : Motion F) : Bool → MotionResult → Motion F → Prop where
  | rejected {fills : Bool} {result : MotionResult} (failed : result ≠ .ok) :
      CriticalStep s fills result s
  | settings {s' : Motion F} (idle : s.control.busy = false) (empty : s.request.pending = false)
      (motion : s.SameMotion s') (request : s'.request = s.request) :
      CriticalStep s false .ok s'
  | start (request : MotionRequest F) (action : request.action = .actionStart)
      (empty : s.request.pending = false)
      (free : s.control.busy = true → s.control.paused = true) :
      CriticalStep s true .ok { s with request := { request with pending := true } }
  | pause (empty : s.request.pending = false) (busy : s.control.busy = true)
      (unpaused : s.control.paused = false) :
      CriticalStep s true .ok
        { s with
          request := { s.request with action := .actionPause, mode := .stop, pending := true } }
  | continue (empty : s.request.pending = false) (busy : s.control.busy = true)
      (paused : s.control.paused = true) :
      CriticalStep s true .ok
        { s with
          request := { s.request with action := .actionContinue, mode := .stop, pending := true } }
  | abort (state : s.request.pending = true ∨ s.control.busy = true) :
      CriticalStep s true .ok
        { s with
          request := { s.request with action := .actionAbort, mode := .stop, pending := true } }

theorem motionRequestSubmit_step (request : MotionRequest F) (s : Motion F)
    (action : request.action = .actionStart) :
  CriticalStep s true (motionRequestSubmit request s).1 (motionRequestSubmit request s).2
  := by
  rw [motionRequestSubmit]
  split
  · apply CriticalStep.rejected
    simp
  · rename_i h
    simp only [Bool.or_eq_true, Bool.and_eq_true, Bool.not_eq_true', not_or] at h
    apply CriticalStep.start request action
    · simpa using h.1
    · intro hbusy
      by_contra hpaused
      apply h.2 ⟨hbusy, Bool.not_eq_true _ ▸ hpaused⟩

theorem ethercatMotionMotorParamsSet_step [FloatArith F] (p : MotorParams F) (s : Motion F) :
  CriticalStep s false (ethercatMotionMotorParamsSet p s).1 (ethercatMotionMotorParamsSet p s).2
  := by
  rw [ethercatMotionMotorParamsSet]
  split
  · apply CriticalStep.rejected
    simp
  split
  · apply CriticalStep.rejected
    simp
  split
  · apply CriticalStep.rejected
    simp
  · rename_i h
    simp only [Bool.or_eq_true, not_or, Bool.not_eq_true] at h
    exact CriticalStep.settings h.1 h.2 ⟨rfl, rfl, rfl, rfl⟩ rfl

theorem ethercatMotionSoftwareZeroSet_step (area : PdoArea) (s : Motion F) :
  CriticalStep s false (ethercatMotionSoftwareZeroSet area s).1
    (ethercatMotionSoftwareZeroSet area s).2
  := by
  rw [ethercatMotionSoftwareZeroSet]
  split
  · split
    · apply CriticalStep.rejected
      simp
    split
    · apply CriticalStep.rejected
      simp
    · rename_i h
      simp only [Bool.or_eq_true, not_or, Bool.not_eq_true] at h
      exact CriticalStep.settings h.2 h.1 ⟨rfl, rfl, rfl, rfl⟩ rfl
  · apply CriticalStep.rejected
    simp

theorem ethercatMotionStop_step (s : Motion F) :
  CriticalStep s true (ethercatMotionStop s).1 (ethercatMotionStop s).2
  := by
  rw [ethercatMotionStop]
  split
  · apply CriticalStep.rejected
    simp
  split
  · apply CriticalStep.rejected
    simp
  · rename_i hpending h
    simp only [Bool.or_eq_true, Bool.not_eq_true', not_or, Bool.not_eq_false,
      Bool.not_eq_true] at h
    apply CriticalStep.pause _ h.1 h.2
    simpa using hpending

theorem ethercatMotionContinue_step (s : Motion F) :
  CriticalStep s true (ethercatMotionContinue s).1 (ethercatMotionContinue s).2
  := by
  rw [ethercatMotionContinue]
  split
  · apply CriticalStep.rejected
    simp
  split
  · apply CriticalStep.rejected
    simp
  · rename_i hpending h
    simp only [Bool.or_eq_true, Bool.not_eq_true', not_or, Bool.not_eq_false] at h
    apply CriticalStep.continue _ h.1 h.2
    simpa using hpending

theorem ethercatMotionAbort_step (s : Motion F) :
  CriticalStep s true (ethercatMotionAbort s).1 (ethercatMotionAbort s).2
  := by
  rw [ethercatMotionAbort]
  split
  · apply CriticalStep.rejected
    simp
  · rename_i h
    apply CriticalStep.abort
    simp only [Bool.and_eq_true, Bool.not_eq_true', not_and_or, Bool.not_eq_false] at h
    apply h

/-- The steps of the application tasks that may fill the slot. -/
def Event.fills : Event F → Bool
  | .submit _ => true
  | .motionStop => true
  | .motionContinue => true
  | .motionAbort => true
  | _ => false

/-- Every critical section of an application task makes a step of one of the kinds
`CriticalStep`. -/
theorem System.critical_step [FloatArith F] [PositiveRoots F] {x : System F} {e : Event F}
    {result : MotionResult} {s' : Motion F}
    (calls : ∀ task request, x.calls task = some request → request.action = .actionStart)
    (h : x.critical e = some (result, s')) :
  CriticalStep x.motion e.fills result s'
  := by
  cases e with
  | pdo _ => cases h
  | process => cases h
  | validate _ _ => cases h
  | submit task =>
      obtain ⟨request, hcall, heq⟩ := Option.map_eq_some_iff.mp h
      have hstep := motionRequestSubmit_step request x.motion (calls task request hcall)
      rw [heq] at hstep
      apply hstep
  | motorParamsSet p =>
      have hstep := ethercatMotionMotorParamsSet_step p x.motion
      rw [Option.some.inj h] at hstep
      apply hstep
  | softwareZeroSet =>
      have hstep := ethercatMotionSoftwareZeroSet_step x.area x.motion
      rw [Option.some.inj h] at hstep
      apply hstep
  | motionStop =>
      have hstep := ethercatMotionStop_step x.motion
      rw [Option.some.inj h] at hstep
      apply hstep
  | motionContinue =>
      have hstep := ethercatMotionContinue_step x.motion
      rw [Option.some.inj h] at hstep
      apply hstep
  | motionAbort =>
      have hstep := ethercatMotionAbort_step x.motion
      rw [Option.some.inj h] at hstep
      apply hstep

namespace CriticalStep

variable {s s' : Motion F} {fills : Bool} {result : MotionResult}

/-- A critical section leaves the motion as it is. -/
theorem sameMotion (h : CriticalStep s fills result s') :
  s.SameMotion s'
  := by
  cases h with
  | settings _ _ motion _ => apply motion
  | _ => exact ⟨rfl, rfl, rfl, rfl⟩

theorem slotValid (h : CriticalStep s fills result s') (hslot : s.SlotValid) :
  s'.SlotValid
  := by
  cases h with
  | rejected _ => apply hslot
  | settings _ empty _ request =>
      apply Motion.slotValid_of_not_pending
      rw [request]
      apply empty
  | start request action empty free =>
      constructor
      · intro _ _
        apply free
      · intro _ h
        rw [show request.action = .actionPause from h] at action
        cases action
      · intro _ h
        rw [show request.action = .actionContinue from h] at action
        cases action
  | pause _ busy unpaused =>
      constructor
      · rintro - ⟨⟩
      · intro _ _
        exact ⟨busy, unpaused⟩
      · rintro - ⟨⟩
  | «continue» _ busy paused =>
      constructor
      · rintro - ⟨⟩
      · rintro - ⟨⟩
      · intro _ _
        exact ⟨busy, paused⟩
  | abort _ =>
      constructor
      · rintro - ⟨⟩
      · rintro - ⟨⟩
      · rintro - ⟨⟩

end CriticalStep

/-! ### The invariant of the system -/

/-- The invariant of the system. -/
structure System.Valid (x : System F) : Prop where
  consistent : x.motion.Consistent
  slot : x.motion.SlotValid
  /-- There is no motion before the first call of the scheduler. -/
  uninitialized : x.motion.motionInitialized = false → x.motion.control.busy = false
  /-- A call in progress is about to submit a start. -/
  calls : ∀ task request, x.calls task = some request → request.action = .actionStart

/-- A busy motion has been started by a call of the scheduler. -/
theorem System.Valid.initialized_of_busy {x : System F} (h : x.Valid)
    (hbusy : x.motion.control.busy = true) :
  x.motion.motionInitialized = true
  := by
  by_contra hinitialized
  rw [h.uninitialized (Bool.not_eq_true _ ▸ hinitialized)] at hbusy
  cases hbusy

namespace System

variable [FloatArith F] [PositiveRoots F]

omit [PositiveRoots F] in
theorem valid_init :
  (init : System F).Valid
  := by
  constructor
  · apply Motion.consistent_init
  · apply Motion.slotValid_of_not_pending
    rfl
  · intro
    rfl
  · rintro _ _ ⟨⟩

/-- The motion after a step of an application task or of the master. -/
theorem step_motion (x : System F) {e : Event F} (he : e ≠ .process) :
  (x.step e).motion = ((x.critical e).map Prod.snd).getD x.motion
  := by
  cases e with
  | process => contradiction
  | _ => rfl

/-- The calls in progress change only by the steps of application tasks. -/
theorem step_calls (x : System F) (e : Event F) :
  (x.step e).calls = x.callsAfter e
  := by
  cases e with
  | _ => rfl

/-- A step that is not a call of the scheduler is a critical section, or leaves the motion. -/
theorem Valid.critical_or {x : System F} (h : x.Valid) {e : Event F} (he : e ≠ .process) :
  (∃ result, x.critical e = some (result, (x.step e).motion)
      ∧ CriticalStep x.motion e.fills result (x.step e).motion)
    ∨ (x.critical e = none ∧ (x.step e).motion = x.motion)
  := by
  rw [x.step_motion he]
  cases hcritical : x.critical e with
  | none => exact Or.inr ⟨rfl, rfl⟩
  | some result =>
      left
      refine ⟨result.1, rfl, ?_⟩
      apply critical_step h.calls hcritical

/-- A call of the scheduler does nothing without process data, and otherwise updates the
motion. -/
theorem step_process_cases (x : System F) :
  ((x.area.input1s = none ∨ x.area.output1s = none) ∧ x.step .process = x)
    ∨ ∃ input output, x.area.input1s = some input ∧ x.area.output1s = some output
      ∧ (x.step .process).motion = motionUpdate input x.motion
      ∧ (x.step .process).area.output1s = some (motionTargetOutputWrite
          (motionUpdate input x.motion) { output with opModeSet := 8, targetVelocity := 0 })
  := by
  rw [step, ethercatMotionProcess]
  cases hinput : x.area.input1s with
  | none => exact Or.inl ⟨Or.inl rfl, rfl⟩
  | some input =>
      cases houtput : x.area.output1s with
      | none => exact Or.inl ⟨Or.inr rfl, rfl⟩
      | some output => exact Or.inr ⟨input, output, rfl, rfl, rfl, rfl⟩

omit [PositiveRoots F] in
/-- A call in progress after a step has been in progress before, or it has just made its
checks. -/
theorem callsAfter_cases {x : System F} {e : Event F} {task : ℕ} {request : MotionRequest F}
    (h : x.callsAfter e task = some request) :
  x.calls task = some request
    ∨ ∃ call, e = .validate task call ∧ call.validate x.motion = .ok ∧ request = call.request
  := by
  cases e with
  | validate task' call =>
      rw [callsAfter] at h
      split at h
      · by_cases htask : task = task'
        · subst htask
          rw [Function.update_self] at h
          cases h
          exact Or.inr ⟨call, rfl, by assumption, rfl⟩
        · rw [Function.update_of_ne htask] at h
          exact Or.inl h
      · exact Or.inl h
  | submit task' =>
      rw [callsAfter] at h
      by_cases htask : task = task'
      · subst htask
        rw [Function.update_self] at h
        cases h
      · rw [Function.update_of_ne htask] at h
        exact Or.inl h
  | _ => exact Or.inl h

omit [PositiveRoots F] in
/-- A call is entered only with a request that starts a motion. -/
theorem callsAfter_action {x : System F} (e : Event F)
    (h : ∀ task request, x.calls task = some request → request.action = .actionStart) :
  ∀ task request, x.callsAfter e task = some request → request.action = .actionStart
  := by
  intro task request hcall
  rcases callsAfter_cases hcall with hbefore | ⟨call, -, -, rfl⟩
  · apply h task request hbefore
  · cases call <;> rfl

/-- Every step preserves the invariant. -/
theorem Valid.step {x : System F} (h : x.Valid) (e : Event F) :
  (x.step e).Valid
  := by
  have hcalls : ∀ task request, (x.step e).calls task = some request →
      request.action = .actionStart := by
    rw [step_calls]
    apply callsAfter_action e h.calls
  by_cases he : e = .process
  · subst he
    rcases x.step_process_cases with ⟨-, heq⟩ | ⟨input, output, -, -, hmotion, -⟩
    · rw [heq]
      apply h
    · constructor
      · rw [hmotion]
        apply h.consistent.update h.slot
      · rw [hmotion]
        apply h.slot.update h.consistent
      · rw [hmotion, h.consistent.initialized_update h.slot]
        rintro ⟨⟩
      · apply hcalls
  · rcases h.critical_or he with ⟨result, -, hstep⟩ | ⟨-, hmotion⟩
    · constructor
      · apply h.consistent.sameMotion hstep.sameMotion
      · apply hstep.slotValid h.slot
      · obtain ⟨hcontrol, -, -, hinitialized⟩ := hstep.sameMotion
        rw [hcontrol, hinitialized]
        apply h.uninitialized
      · apply hcalls
    · constructor
      · rw [hmotion]
        apply h.consistent
      · rw [hmotion]
        apply h.slot
      · rw [hmotion]
        apply h.uninitialized
      · apply hcalls

/-- The invariant holds after every run. -/
theorem valid_run (es : List (Event F)) :
  (machine.run es : System F).Valid
  := by
  apply Machine.invariant
  · apply valid_init
  · intro x e h
    apply h.step

theorem valid_before (es : List (Event F)) (i : ℕ) :
  (machine.before es i : System F).Valid
  := valid_run _

/-- In every state the tasks can reach, under every arithmetic and so with every outcome of
the planner, the flags of the motion agree.  Hence a call of the scheduler, after it has
applied the pending request, finds a busy reciprocation outside its idle stage, and finds the
trajectory it advances running or waiting for the actual position. -/
theorem consistent_of_reachable (es : List (Event F)) :
  (machine.run es : System F).motion.Consistent
    ∧ ∀ input : PdoInput,
      let s := motionServe input (motionAlign input (machine.run es).motion)
      (s.control.busy = true → s.control.mode = .recip → s.recip.stage ≠ .idle)
        ∧ (s.OnSegment → s.trajectory.running = true ∨ s.trajectory.waitingActual = true)
  := by
  have h := valid_run es
  refine ⟨h.consistent, ?_⟩
  intro input s
  have hs : s.Consistent := h.consistent.dispatched h.slot input
  constructor
  · apply hs.stage_ne_idle
  · intro hsegment
    rcases hs.active_of_onSegment hsegment with ⟨hrunning, -, -⟩ | ⟨-, hwaiting⟩
    · left
      apply hrunning
    · right
      apply hwaiting

end System

end EthercatMaster
