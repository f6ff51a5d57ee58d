import EthercatMaster.Motion.Target

/-!
# A pause is transparent

A motion that is paused and continued goes on as if the calls of the scheduler in between had
not been made.  The two runs differ in the contents of the request slot only, and the motion
does not depend on an empty slot.
-/

namespace EthercatMaster

variable {F : Type}

/-! ### The slot and the motion -/

/-- The motion with another request in the slot. -/
def Motion.withRequest (request : MotionRequest F) (s : Motion F) : Motion F :=
  { s with request := request }

section Fields

variable (request : MotionRequest F) (s : Motion F)

theorem Motion.withRequest_trajectory :
  (s.withRequest request).trajectory = s.trajectory
  := rfl

theorem Motion.withRequest_recip :
  (s.withRequest request).recip = s.recip
  := rfl

theorem Motion.withRequest_control :
  (s.withRequest request).control = s.control
  := rfl

theorem Motion.withRequest_request :
  (s.withRequest request).request = request
  := rfl

theorem Motion.withRequest_self :
  s.withRequest s.request = s
  := rfl

end Fields

section Advance

variable [FloatArith F] [PositiveRoots F] (request : MotionRequest F)

/-- The planner does not depend on the slot. -/
theorem motionTrajectoryStart_withRequest (startCounts targetCounts : Int32)
    (velocityMmS accelerationMmS2 jerkMmS3 : F) (s : Motion F) :
  motionTrajectoryStart startCounts targetCounts velocityMmS accelerationMmS2 jerkMmS3
      (s.withRequest request)
    = Prod.map id (Motion.withRequest request)
      (motionTrajectoryStart startCounts targetCounts velocityMmS accelerationMmS2 jerkMmS3 s)
  := by
  rw [motionTrajectoryStart, motionTrajectoryStart]
  dsimp only [Motion.withRequest]
  split_ifs
  all_goals rfl

omit [PositiveRoots F] in
theorem motionSegmentProcess_withRequest (input : PdoInput) (s : Motion F) :
  motionSegmentProcess input (s.withRequest request)
    = Prod.map id (Motion.withRequest request) (motionSegmentProcess input s)
  := by
  have hadvance : (if (s.withRequest request).trajectory.running
        then motionSegmentAdvance (s.withRequest request) else s.withRequest request)
      = Motion.withRequest request
        (if s.trajectory.running then motionSegmentAdvance s else s) := by
    rw [Motion.withRequest_trajectory]
    split_ifs
    all_goals rfl
  rw [motionSegmentProcess, motionSegmentProcess, hadvance]
  generalize (if s.trajectory.running then motionSegmentAdvance s else s) = s₁
  rw [motionSegmentConfirm, motionSegmentConfirm,
    Motion.withRequest_trajectory]
  dsimp only
  split_ifs
  all_goals rfl

theorem motionRecipLeg_withRequest (input : PdoInput) (targetCounts : Int32)
    (stage : RecipStage) (s : Motion F) :
  motionRecipLeg input targetCounts stage (s.withRequest request)
    = (motionRecipLeg input targetCounts stage s).withRequest request
  := by
  rw [motionRecipLeg, motionRecipLeg, motionRecipMoveStart, motionRecipMoveStart,
    motionTrajectoryStart_withRequest]
  dsimp only [Motion.withRequest]
  generalize motionTrajectoryStart _ _ _ _ _ s = x
  rcases x with ⟨result, s₁⟩
  cases result <;> rfl

theorem motionRecipDwell_withRequest (input : PdoInput) (cycles : UInt32) (wait : RecipStage)
    (targetCounts : Int32) (next : RecipStage) (s : Motion F) :
  motionRecipDwell input cycles wait targetCounts next (s.withRequest request)
    = (motionRecipDwell input cycles wait targetCounts next s).withRequest request
  := by
  rw [motionRecipDwell, motionRecipDwell]
  split
  · rfl
  · apply motionRecipLeg_withRequest

theorem motionRecipWait_withRequest (input : PdoInput) (targetCounts : Int32)
    (next : RecipStage) (s : Motion F) :
  motionRecipWait input targetCounts next (s.withRequest request)
    = (motionRecipWait input targetCounts next s).withRequest request
  := by
  rw [motionRecipWait, motionRecipWait, Motion.withRequest_recip]
  generalize (if 0 < s.recip.waitCycles then s.recip.waitCycles - 1
    else s.recip.waitCycles) = left
  dsimp only
  split
  · apply motionRecipLeg_withRequest request input targetCounts next
      { s with recip := { s.recip with waitCycles := left } }
  · rfl

/-- A cycle of a reciprocation does not depend on the slot. -/
theorem motionRecipProcess_withRequest (input : PdoInput) (s : Motion F) :
  motionRecipProcess input (s.withRequest request)
    = (motionRecipProcess input s).withRequest request
  := by
  rw [motionRecipProcess, motionRecipProcess, motionSegmentProcess_withRequest,
    Motion.withRequest_recip]
  generalize motionSegmentProcess input s = x
  rcases x with ⟨result, s₁⟩
  cases s.recip.stage with
  | idle => rfl
  | waitFirst => apply motionRecipWait_withRequest
  | waitSecond => apply motionRecipWait_withRequest
  | moveOut =>
      cases result with
      | done => apply motionRecipDwell_withRequest
      | _ => rfl
  | moveBack =>
      cases result with
      | done =>
          dsimp only [Prod.map_apply, id, Motion.withRequest]
          split
          · rfl
          · apply motionRecipDwell_withRequest request input s₁.recip.secondIntervalCycles
              .waitSecond s₁.recip.endCounts .moveOut
              { s₁ with
                recip := { s₁.recip with completedCount := s₁.recip.completedCount + 1 } }
      | _ => rfl

/-- The motion advances in the same way whatever is in the slot. -/
theorem motionAdvance_withRequest (input : PdoInput) (s : Motion F) :
  motionAdvance input (s.withRequest request) = (motionAdvance input s).withRequest request
  := by
  rw [motionAdvance, motionAdvance, motionSegmentProcess_withRequest,
    motionRecipProcess_withRequest, Motion.withRequest_control]
  generalize motionSegmentProcess input s = x
  rcases x with ⟨result, s₁⟩
  split_ifs
  · rfl
  · cases result <;> rfl
  · rfl

/-- The motion advances without touching the slot. -/
theorem motionAdvance_request (input : PdoInput) (s : Motion F) :
  (motionAdvance input s).request = s.request
  := by
  have h := motionAdvance_withRequest s.request input s
  rw [Motion.withRequest_self] at h
  rw [h]
  rfl

/-- Without a request, a ready call only advances the motion. -/
theorem motionUpdate_of_empty (s : Motion F) {input : PdoInput}
    (hready : input.servoReady = true) (hinitialized : s.motionInitialized = true)
    (hempty : s.request.pending = false) :
  motionUpdate input s = motionAdvance input s
  := by
  rw [motionUpdate, if_pos hready, motionAlign, if_pos hinitialized, motionServe,
    motionRequestFetch, hempty]
  rfl

end Advance

/-- The two motions differ in the contents of an empty slot only. -/
def Motion.SameButSlot (s s' : Motion F) : Prop :=
  s.request.pending = false ∧ ∃ request, request.pending = false ∧ s' = s.withRequest request

section Calls

variable [FloatArith F] [PositiveRoots F]

/-- A ready call keeps two motions the same up to an empty slot. -/
theorem Motion.SameButSlot.update {s s' : Motion F} {input : PdoInput} (h : s.SameButSlot s')
    (hready : input.servoReady = true) (hinitialized : s.motionInitialized = true) :
  (motionUpdate input s).SameButSlot (motionUpdate input s')
  := by
  obtain ⟨hempty, request, hrequest, rfl⟩ := h
  have heq := motionUpdate_of_empty s hready hinitialized hempty
  have heq' : motionUpdate input (s.withRequest request)
      = motionAdvance input (s.withRequest request) :=
    motionUpdate_of_empty _ hready hinitialized hrequest
  rw [heq, heq', motionAdvance_withRequest]
  refine ⟨?_, request, hrequest, rfl⟩
  rw [motionAdvance_request]
  apply hempty

/-- The paused motion, with a request in the slot. -/
def Motion.held (s : Motion F) (request : MotionRequest F) : Motion F :=
  { s with request := request, control := { s.control with paused := true } }

omit [FloatArith F] [PositiveRoots F] in
/-- A pause and a continuation change no other flag of a busy motion. -/
theorem Motion.Consistent.control_eq {s : Motion F} (h : s.Consistent)
    (hbusy : s.control.busy = true) (paused : Bool) :
  { s.control with busy := true, paused := paused, done := false, error := false }
    = { s.control with paused := paused }
  := by
  obtain ⟨hdone, herror⟩ := h.not_ended hbusy
  simp only [hbusy, hdone, herror]

theorem Motion.Consistent.motionRequestApply_pause {s : Motion F} (h : s.Consistent)
    {request : MotionRequest F} (haction : request.action = .actionPause)
    (hbusy : s.control.busy = true) (input : PdoInput) :
  motionRequestApply input request s = { s with control := { s.control with paused := true } }
  := by
  rw [motionRequestApply, haction]
  dsimp only
  rw [if_pos hbusy, h.control_eq hbusy]

theorem Motion.Consistent.motionRequestApply_continue {s : Motion F} (h : s.Consistent)
    {request : MotionRequest F} (haction : request.action = .actionContinue)
    (hbusy : s.control.busy = true) (hpaused : s.control.paused = true) (input : PdoInput) :
  motionRequestApply input request s = { s with control := { s.control with paused := false } }
  := by
  rw [motionRequestApply, haction]
  dsimp only
  rw [if_pos (by rw [hbusy, hpaused]; rfl), h.control_eq hbusy]

/-- A ready call applies the request in the slot and then advances the motion. -/
theorem motionUpdate_of_pending (s : Motion F) {input : PdoInput}
    (hready : input.servoReady = true) (hinitialized : s.motionInitialized = true)
    (hpending : s.request.pending = true) :
  motionUpdate input s = motionAdvance input (motionRequestApply input s.request s.fetched)
  := by
  rw [motionUpdate, if_pos hready, motionAlign, if_pos hinitialized, motionServe,
    motionRequestFetch, if_pos hpending]
  rfl

/-- A paused motion does not advance. -/
theorem motionAdvance_of_paused {input : PdoInput} {s : Motion F}
    (hpaused : s.control.paused = true) :
  motionAdvance input s = s
  := by
  rw [motionAdvance, hpaused, Bool.not_true, Bool.and_false]
  rfl

omit [FloatArith F] [PositiveRoots F] in
/-- What an accepted `ethercat_motion_stop` has found and done. -/
theorem ethercatMotionStop_ok {s : Motion F} (h : (ethercatMotionStop s).1 = .ok) :
  s.request.pending = false ∧ s.control.busy = true ∧ s.control.paused = false
    ∧ ∃ request, request.pending = true ∧ request.action = .actionPause
      ∧ (ethercatMotionStop s).2 = s.withRequest request
  := by
  rw [ethercatMotionStop] at h ⊢
  split at h
  · cases h
  split at h
  · cases h
  rename_i hpending hstate
  simp only [Bool.or_eq_true, Bool.not_eq_true', not_or, Bool.not_eq_false,
    Bool.not_eq_true] at hpending hstate
  simp only [hpending, hstate, Bool.not_true, Bool.or_self, Bool.false_eq_true, if_false]
  exact ⟨trivial, trivial, trivial, _, rfl, rfl, rfl⟩

omit [FloatArith F] [PositiveRoots F] in
/-- A held motion accepts `ethercat_motion_continue`. -/
theorem ethercatMotionContinue_held {s : Motion F} {request : MotionRequest F}
    (hbusy : s.control.busy = true) (hempty : request.pending = false) :
  (ethercatMotionContinue (s.held request)).1 = .ok
    ∧ ∃ request', request'.pending = true ∧ request'.action = .actionContinue
      ∧ (ethercatMotionContinue (s.held request)).2 = s.held request'
  := by
  simp only [ethercatMotionContinue, Motion.held, hempty, hbusy, Bool.not_true, Bool.or_self,
    Bool.false_eq_true, if_false]
  exact ⟨trivial, _, rfl, rfl, rfl⟩

/-- The first ready call after an accepted pause holds the motion. -/
theorem Motion.Consistent.held_of_stop {s : Motion F} (h : s.Consistent) {input : PdoInput}
    (hready : input.servoReady = true) (hinitialized : s.motionInitialized = true)
    (hstop : (ethercatMotionStop s).1 = .ok) :
  ∃ request, request.pending = false
    ∧ motionUpdate input (ethercatMotionStop s).2 = s.held request
  := by
  obtain ⟨-, hbusy, -, request, hpending, haction, heq⟩ := ethercatMotionStop_ok hstop
  have hfetched : (s.withRequest request).fetched.Consistent :=
    h.congr rfl rfl rfl rfl rfl rfl h.paused_busy
  use { request with pending := false }, rfl
  rw [heq, motionUpdate_of_pending (s.withRequest request) hready hinitialized hpending,
    Motion.withRequest_request,
    hfetched.motionRequestApply_pause haction hbusy, motionAdvance_of_paused rfl]
  rfl

/-- A further ready call leaves a held motion. -/
theorem motionUpdate_held {s : Motion F} {input : PdoInput} {request : MotionRequest F}
    (hready : input.servoReady = true) (hinitialized : s.motionInitialized = true)
    (hempty : request.pending = false) :
  motionUpdate input (s.held request) = s.held request
  := by
  rw [motionUpdate_of_empty (s.held request) hready hinitialized hempty]
  apply motionAdvance_of_paused
  rfl

/-- The first ready call after an accepted continuation advances the motion as if it had not
been held. -/
theorem Motion.Consistent.sameButSlot_of_continue {s : Motion F} (h : s.Consistent)
    {input : PdoInput} {request : MotionRequest F} (hready : input.servoReady = true)
    (hinitialized : s.motionInitialized = true) (hbusy : s.control.busy = true)
    (hpaused : s.control.paused = false) (hempty : s.request.pending = false)
    (hpending : request.pending = true) (haction : request.action = .actionContinue) :
  (motionUpdate input s).SameButSlot (motionUpdate input (s.held request))
  := by
  have hresumed : motionRequestApply input request (s.held request).fetched
      = s.withRequest { request with pending := false } := by
    have hfetched : (s.held request).fetched.Consistent :=
      h.congr rfl rfl rfl rfl rfl rfl fun _ => hbusy
    rw [hfetched.motionRequestApply_continue haction hbusy rfl, Motion.withRequest]
    simp only [Motion.fetched, Motion.held, ← hpaused]
  rw [motionUpdate_of_empty s hready hinitialized hempty,
    motionUpdate_of_pending (s.held request) hready hinitialized hpending,
    show (s.held request).request = request from rfl, hresumed, motionAdvance_withRequest]
  refine ⟨?_, _, rfl, rfl⟩
  rw [motionAdvance_request]
  apply hempty

/-! ### Runs -/

namespace System

/-- Calls of the scheduler, each with the process data it finds. -/
def callEvents {F : Type} (calls : List (PdoInput × PdoOutput)) : List (Event F) :=
  calls.flatMap fun call => [.pdo ⟨some call.1, some call.2⟩, .process]

/-- The target position in the output area. -/
def targetPos {F : Type} (x : System F) : Option Int32 :=
  x.area.output1s.map PdoOutput.targetPos

/-- The state after one more call. -/
theorem run_call (es : List (Event F)) (calls : List (PdoInput × PdoOutput))
    (call : PdoInput × PdoOutput) :
  (machine.run (es ++ callEvents (calls ++ [call])) : System F).motion
      = motionUpdate call.1 (machine.run (es ++ callEvents calls)).motion
    ∧ (machine.run (es ++ callEvents (calls ++ [call])) : System F).targetPos
      = some (machine.run (es ++ callEvents (calls ++ [call]))).motion.control.commandCounts
  := by
  have hevents : es ++ callEvents (calls ++ [call])
      = (es ++ callEvents calls) ++ [.pdo ⟨some call.1, some call.2⟩] ++ [.process] := by
    rw [callEvents, callEvents, List.flatMap_append, List.append_assoc, List.append_assoc]
    rfl
  rw [hevents, Machine.run_append_singleton, Machine.run_append_singleton]
  generalize machine.run (es ++ callEvents calls) = x
  refine ⟨rfl, ?_⟩
  apply congrArg some
  apply motionTargetOutputWrite_targetPos

/-- After a call the module is initialized. -/
theorem initialized_run_call (es : List (Event F)) (calls : List (PdoInput × PdoOutput))
    (call : PdoInput × PdoOutput) :
  (machine.run (es ++ callEvents (calls ++ [call])) : System F).motion.motionInitialized = true
  := by
  have hvalid := valid_run (es ++ callEvents calls)
  rw [(run_call es calls call).1]
  apply hvalid.consistent.initialized_update hvalid.slot

/-- The ready calls after an accepted pause hold the motion. -/
theorem held_run {es : List (Event F)}
    (hstop : (ethercatMotionStop (machine.run es : System F).motion).1 = .ok)
    {calls : List (PdoInput × PdoOutput)} (hne : calls ≠ [])
    (hready : ∀ call ∈ calls, call.1.servoReady = true) :
  ∃ request, request.pending = false
    ∧ (machine.run (es ++ [.motionStop] ++ callEvents calls) : System F).motion
      = (machine.run es).motion.held request
  := by
  have hvalid := valid_run es
  have hinitialized := hvalid.initialized_of_busy (ethercatMotionStop_ok hstop).2.1
  induction calls using List.reverseRecOn with
  | nil => contradiction
  | append_singleton calls call ih =>
      rw [(run_call (es ++ [Event.motionStop]) calls call).1]
      have hcall : call.1.servoReady = true := hready call (by simp)
      by_cases hcalls : calls = []
      · subst hcalls
        rw [callEvents, List.flatMap_nil, List.append_nil, Machine.run_append_singleton]
        apply hvalid.consistent.held_of_stop hcall hinitialized hstop
      · obtain ⟨request, hempty, heq⟩ := ih hcalls fun c hc => hready c (by simp [hc])
        rw [heq, motionUpdate_held hcall hinitialized hempty]
        exact ⟨request, hempty, rfl⟩

/-- The ready calls after an accepted continuation agree with those of the run without the
pause. -/
theorem sameButSlot_run {es es' : List (Event F)} {request : MotionRequest F}
    (hstop : (ethercatMotionStop (machine.run es : System F).motion).1 = .ok)
    (hheld : (machine.run es' : System F).motion = (machine.run es).motion.held request)
    (hpending : request.pending = true) (haction : request.action = .actionContinue)
    {calls : List (PdoInput × PdoOutput)} (hne : calls ≠ [])
    (hready : ∀ call ∈ calls, call.1.servoReady = true) :
  (machine.run (es ++ callEvents calls) : System F).motion.SameButSlot
    (machine.run (es' ++ callEvents calls)).motion
  := by
  obtain ⟨hempty, hbusy, hpaused, -⟩ := ethercatMotionStop_ok hstop
  have hvalid := valid_run es
  have hinitialized := hvalid.initialized_of_busy hbusy
  induction calls using List.reverseRecOn with
  | nil => contradiction
  | append_singleton calls call ih =>
      rw [(run_call es calls call).1, (run_call es' calls call).1]
      have hcall : call.1.servoReady = true := hready call (by simp)
      by_cases hcalls : calls = []
      · subst hcalls
        rw [callEvents, List.flatMap_nil, List.append_nil, List.append_nil, hheld]
        apply hvalid.consistent.sameButSlot_of_continue hcall hinitialized hbusy hpaused hempty
          hpending haction
      · have hsame := ih hcalls fun c hc => hready c (by simp [hc])
        apply hsame.update hcall
        obtain ⟨calls', call', rfl⟩ := (List.eq_nil_or_concat' calls).resolve_left hcalls
        apply initialized_run_call

/-- A pause is transparent, in every run.

Let `ethercat_motion_stop` be accepted after a run `es` and ready calls `before`.  In the ready
calls `inserted` that follow, the target position written, the trajectory and the reciprocation
are those after `before`.  Then `ethercat_motion_continue` is accepted, and in each of the ready
calls `after` that follow, the control state, the trajectory, the reciprocation and the target
position are those of the run in which `after` follows `before` at once. -/
theorem pause_transparent (es : List (Event F))
    (before inserted after : List (PdoInput × PdoOutput)) (hinserted : inserted ≠ [])
    (hready : ∀ call ∈ inserted ++ after, call.1.servoReady = true)
    (hstop : (ethercatMotionStop
      (machine.run (es ++ callEvents before) : System F).motion).1 = .ok) :
  let x : System F := machine.run (es ++ callEvents before)
  let paused : List (PdoInput × PdoOutput) → List (Event F) :=
    fun calls => es ++ callEvents before ++ [.motionStop] ++ callEvents calls
  (before ≠ [] → x.targetPos = some x.motion.control.commandCounts)
    ∧ (∀ calls, calls <+: inserted → calls ≠ [] →
      let y : System F := machine.run (paused calls)
      y.targetPos = some x.motion.control.commandCounts
        ∧ y.motion.trajectory = x.motion.trajectory ∧ y.motion.recip = x.motion.recip
        ∧ y.motion.control = { x.motion.control with paused := true })
    ∧ (ethercatMotionContinue (machine.run (paused inserted) : System F).motion).1 = .ok
    ∧ ∀ calls, calls <+: after → calls ≠ [] →
      let y : System F := machine.run (es ++ callEvents before ++ callEvents calls)
      let z : System F :=
        machine.run (paused inserted ++ [.motionContinue] ++ callEvents calls)
      z.motion.control = y.motion.control ∧ z.motion.trajectory = y.motion.trajectory
        ∧ z.motion.recip = y.motion.recip ∧ z.targetPos = y.targetPos
  := by
  intro x paused
  have htarget : ∀ (es : List (Event F)) calls, calls ≠ [] →
      (machine.run (es ++ callEvents calls) : System F).targetPos
        = some (machine.run (es ++ callEvents calls)).motion.control.commandCounts := by
    intro es calls hcalls
    obtain ⟨calls, call, rfl⟩ := (List.eq_nil_or_concat' calls).resolve_left hcalls
    apply (run_call es calls call).2
  obtain ⟨request, hempty, hheld⟩ := held_run hstop hinserted
    fun call hcall => hready call (List.mem_append_left _ hcall)
  obtain ⟨haccepted, request', hpending, haction, hcontinue⟩ :=
    ethercatMotionContinue_held (ethercatMotionStop_ok hstop).2.1 hempty
  refine ⟨htarget es before, ?_, ?_, ?_⟩
  · intro calls hinit hcalls y
    obtain ⟨request, -, heq⟩ := held_run hstop hcalls
      fun call hcall => hready call (List.mem_append_left _ (hinit.subset hcall))
    rw [show y.targetPos = _ from htarget _ calls hcalls, heq]
    exact ⟨rfl, rfl, rfl, rfl⟩
  · rw [show (machine.run (paused inserted) : System F).motion = _ from hheld]
    apply haccepted
  · intro calls hinit hcalls y z
    have hresumed : (machine.run (paused inserted ++ [.motionContinue]) : System F).motion
        = x.motion.held request' := by
      rw [Machine.run_append_singleton, ← hcontinue, ← hheld]
      rfl
    obtain ⟨-, request'', -, heq⟩ := sameButSlot_run hstop hresumed hpending haction hcalls
      fun call hcall => hready call (List.mem_append_right _ (hinit.subset hcall))
    rw [show z.targetPos = _ from htarget _ calls hcalls, heq,
      show y.targetPos = _ from htarget _ calls hcalls]
    exact ⟨rfl, rfl, rfl, rfl⟩

end System

end Calls

/-- A pause in the second cycle of a move of two counts. -/
theorem System.pause_transparent_move :
  (ethercatMotionStop
      (machine.run (submitMove 2 ++ callEvents [(readyInput 0, readyOutput)])).motion).1 = .ok
    ∧ (machine.run (submitMove 2 ++ callEvents [(readyInput 0, readyOutput)] ++ [.motionStop]
        ++ callEvents [(readyInput 5, readyOutput)] ++ [.motionContinue]
        ++ callEvents [(readyInput 0, readyOutput)])).motion.trajectory
      = (machine.run (submitMove 2 ++ callEvents [(readyInput 0, readyOutput)]
        ++ callEvents [(readyInput 0, readyOutput)])).motion.trajectory
  := by
  have hstop : (ethercatMotionStop
      (machine.run (submitMove 2 ++ callEvents [(readyInput 0, readyOutput)])).motion).1 = .ok := by
    decide +kernel
  have h := pause_transparent (submitMove 2) [(readyInput 0, readyOutput)]
    [(readyInput 5, readyOutput)] [(readyInput 0, readyOutput)] (by decide) (by decide) hstop
  refine ⟨hstop, ?_⟩
  apply (h.2.2.2 [(readyInput 0, readyOutput)] (List.prefix_refl _) (by decide)).2.1

end EthercatMaster
