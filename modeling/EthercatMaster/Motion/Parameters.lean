import EthercatMaster.Motion.Target

/-!
# The speed limit and the parameters of a motion

A call that starts a motion compares its velocity with the maximum linear velocity of the motor
parameters before it enters its critical section.  The motor parameters may be replaced between
the check and the submission; from the submission on, until the motion has ended, they are not.
-/

namespace EthercatMaster

variable {F : Type}

/-! ### What changes the parameters -/

/-- The motor parameters and the software zero are the same in the two states. -/
def Motion.SameParameters (s s' : Motion F) : Prop :=
  s'.motorParams = s.motorParams ∧ s'.softwareZeroCounts = s.softwareZeroCounts

theorem Motion.SameParameters.trans {s₁ s₂ s₃ : Motion F} (h : s₁.SameParameters s₂)
    (h' : s₂.SameParameters s₃) :
  s₁.SameParameters s₃
  := ⟨h'.1.trans h.1, h'.2.trans h.2⟩

/-- A critical section that may fill the slot leaves the parameters. -/
theorem CriticalStep.sameParameters {s s' : Motion F} {result : MotionResult}
    (h : CriticalStep s true result s') :
  s.SameParameters s'
  := by
  cases h with
  | _ => exact ⟨rfl, rfl⟩

theorem motionAlign_sameParameters (input : PdoInput) (s : Motion F) :
  s.SameParameters (motionAlign input s)
  := by
  rw [motionAlign]
  split
  · exact ⟨rfl, rfl⟩
  · exact ⟨rfl, rfl⟩

theorem motionAlign_busy (input : PdoInput) (s : Motion F) :
  (motionAlign input s).control.busy = s.control.busy
  := by
  rw [motionAlign]
  split
  · rfl
  · rfl

variable [FloatArith F]

/-- The checks `ethercat_motion_motor_params_set` makes of its arguments. -/
def MotorParams.acceptable (p : MotorParams F) : Bool :=
  motionFloatIsPositive p.encoderCountsPerMotorRev && motionFloatIsPositive p.leadMmPerScrewRev
    && motionFloatIsPositive p.gearRatio && motionFloatIsPositive p.reducerRatio
    && motionFloatIsPositive p.maxMotorRpm && motionFloatIsPositive (motionCountsPerMmGet p)
    && motionFloatIsPositive (motionMaxLinearVelocityMmSGet p)

/-- The motor parameters are replaced by acceptable ones, and only while there is neither a
motion nor a request. -/
theorem ethercatMotionMotorParamsSet_cases (p : MotorParams F) (s : Motion F) :
  (ethercatMotionMotorParamsSet p s).2 = s
    ∨ (p.acceptable = true ∧ s.control.busy = false ∧ s.request.pending = false
      ∧ (ethercatMotionMotorParamsSet p s).2
        = { s with motorParams := p, motorParamsReady := true })
  := by
  rw [ethercatMotionMotorParamsSet]
  split
  · exact Or.inl rfl
  split
  · exact Or.inl rfl
  split
  · exact Or.inl rfl
  · rename_i hparam hlimit hbusy
    right
    simp only [Bool.or_eq_true, Bool.not_eq_true', not_or, Bool.not_eq_true,
      Bool.not_eq_false] at hparam hlimit hbusy
    obtain ⟨⟨⟨⟨hcounts, hlead⟩, hgear⟩, hreducer⟩, hrpm⟩ := hparam
    refine ⟨?_, hbusy.1, hbusy.2, rfl⟩
    rw [MotorParams.acceptable, hcounts, hlead, hgear, hreducer, hrpm, hlimit.1, hlimit.2]
    rfl

omit [FloatArith F] in
/-- The software zero is set only while there is neither a motion nor a request. -/
theorem ethercatMotionSoftwareZeroSet_cases (area : PdoArea) (s : Motion F) :
  (ethercatMotionSoftwareZeroSet area s).2.motorParams = s.motorParams
    ∧ ((ethercatMotionSoftwareZeroSet area s).2 = s
      ∨ (s.control.busy = false ∧ s.request.pending = false))
  := by
  rw [ethercatMotionSoftwareZeroSet]
  split
  · split
    · exact ⟨rfl, Or.inl rfl⟩
    split
    · exact ⟨rfl, Or.inl rfl⟩
    · rename_i h
      simp only [Bool.or_eq_true, not_or, Bool.not_eq_true] at h
      exact ⟨rfl, Or.inr ⟨h.2, h.1⟩⟩
  · exact ⟨rfl, Or.inl rfl⟩

variable [PositiveRoots F]

/-- A call of the scheduler leaves the parameters. -/
theorem Motion.Consistent.update_sameParameters {s : Motion F} (h : s.Consistent)
    (hslot : s.SlotValid) (input : PdoInput) :
  s.SameParameters (motionUpdate input s)
  := by
  rw [motionUpdate]
  split
  · apply (motionAlign_sameParameters input s).trans
    have hadvance := ((h.dispatched hslot input).advanceStep input).sameSettings
    have hserve : (motionAlign input s).SameParameters (motionServe input (motionAlign input s)) := by
      rcases motionServe_cases input (motionAlign input s) with ⟨-, heq⟩ | ⟨-, hstep⟩
      · rw [heq]
        exact ⟨rfl, rfl⟩
      · exact ⟨hstep.sameSettings.motorParams, hstep.sameSettings.softwareZeroCounts⟩
    apply hserve.trans
    exact ⟨hadvance.motorParams, hadvance.softwareZeroCounts⟩
  · apply motionAlign_sameParameters

namespace System

/-- A step leaves the parameters, or there is neither a motion nor a request and it sets the
motor parameters or the software zero. -/
theorem Valid.parameters_step {x : System F} (h : x.Valid) (e : Event F) :
  x.motion.SameParameters (x.step e).motion
    ∨ (x.motion.control.busy = false ∧ x.motion.request.pending = false
      ∧ ((∃ p : MotorParams F, e = .motorParamsSet p ∧ p.acceptable = true
            ∧ (x.step e).motion.motorParams = p)
        ∨ (e = .softwareZeroSet ∧ (x.step e).motion.motorParams = x.motion.motorParams)))
  := by
  by_cases he : e = .process
  · subst he
    left
    rcases x.step_process_cases with ⟨-, heq⟩ | ⟨input, output, -, -, hmotion, -⟩
    · rw [heq]
      exact ⟨rfl, rfl⟩
    · rw [hmotion]
      apply h.consistent.update_sameParameters h.slot
  · rcases h.critical_or he with ⟨result, -, hstep⟩ | ⟨-, hmotion⟩
    · cases e with
      | motorParamsSet p =>
          rw [x.step_motion he]
          rcases ethercatMotionMotorParamsSet_cases p x.motion with
            heq | ⟨hacceptable, hidle, hempty, heq⟩
          · left
            show x.motion.SameParameters (ethercatMotionMotorParamsSet p x.motion).2
            rw [heq]
            exact ⟨rfl, rfl⟩
          · right
            refine ⟨hidle, hempty, Or.inl ⟨p, rfl, hacceptable, ?_⟩⟩
            show (ethercatMotionMotorParamsSet p x.motion).2.motorParams = p
            rw [heq]
      | softwareZeroSet =>
          rw [x.step_motion he]
          obtain ⟨hparams, heq | ⟨hidle, hempty⟩⟩ :=
            ethercatMotionSoftwareZeroSet_cases x.area x.motion
          · left
            show x.motion.SameParameters (ethercatMotionSoftwareZeroSet x.area x.motion).2
            rw [heq]
            exact ⟨rfl, rfl⟩
          · right
            exact ⟨hidle, hempty, Or.inr ⟨rfl, hparams⟩⟩
      | process => contradiction
      | pdo _ => exact Or.inl ⟨rfl, rfl⟩
      | validate _ _ => exact Or.inl ⟨rfl, rfl⟩
      | _ => exact Or.inl hstep.sameParameters
    · left
      rw [hmotion]
      exact ⟨rfl, rfl⟩

/-! ### The speed limit -/

/-- The check of the velocity in `motion_request_validate`, with the motor parameters `p`. -/
def WithinLimit (p : MotorParams F) (request : MotionRequest F) : Prop :=
  FloatArith.lt (motionMaxLinearVelocityMmSGet p) request.velocityMmS = false

omit [PositiveRoots F] in
theorem motionRequestValidate_ok {s : Motion F} {mode : MotionMode}
    {velocityMmS accelerationMmS2 jerkMmS3 : F}
    (h : motionRequestValidate s mode velocityMmS accelerationMmS2 jerkMmS3 = .ok) :
  FloatArith.lt (motionMaxLinearVelocityMmSGet s.motorParams) velocityMmS = false
  := by
  rw [motionRequestValidate] at h
  split at h
  · cases h
  split at h
  · cases h
  split at h
  · cases h
  split at h
  · cases h
  · rename_i hlimit
    apply Bool.eq_false_iff.mpr hlimit

omit [PositiveRoots F] in
/-- A call that has made its checks is within the speed limit of the time of the checks. -/
theorem withinLimit_of_validate {s : Motion F} {call : StartCall F}
    (h : call.validate s = .ok) :
  WithinLimit s.motorParams call.request
  := by
  cases call with
  | commandSet mode positionMm velocityMmS accelerationMmS2 jerkMmS3 =>
      rw [StartCall.validate] at h
      split at h
      · rename_i hok
        exact motionRequestValidate_ok hok
      · contradiction
  | mechanicalZeroReturn => exact motionRequestValidate_ok h
  | recipStart _ _ _ _ _ _ _ => exact motionRequestValidate_ok h

omit [PositiveRoots F] in
/-- An accepted start is the request of a call in progress. -/
theorem Accepts.call {x : System F} {e : Event F} {request : MotionRequest F}
    (h : x.Accepts e request) (haction : request.action = .actionStart) :
  ∃ task call, x.calls task = some call ∧ request = { call with pending := true }
  := by
  obtain ⟨hfills, s, hcritical, rfl⟩ := h
  cases e with
  | submit task =>
      obtain ⟨call, hcall, heq⟩ := Option.map_eq_some_iff.mp hcritical
      use task, call, hcall
      rw [motionRequestSubmit] at heq
      split at heq
      · cases heq
      · cases heq
        rfl
  | motionStop =>
      exfalso
      have heq : ethercatMotionStop x.motion = (.ok, s) := Option.some.inj hcritical
      rw [ethercatMotionStop] at heq
      split at heq
      · cases heq
      split at heq
      · cases heq
      · cases heq
        cases haction
  | motionContinue =>
      exfalso
      have heq : ethercatMotionContinue x.motion = (.ok, s) := Option.some.inj hcritical
      rw [ethercatMotionContinue] at heq
      split at heq
      · cases heq
      split at heq
      · cases heq
      · cases heq
        cases haction
  | motionAbort =>
      exfalso
      have heq : ethercatMotionAbort x.motion = (.ok, s) := Option.some.inj hcritical
      rw [ethercatMotionAbort] at heq
      split at heq
      · cases heq
      · cases heq
        cases haction
  | _ => cases hfills

/-- The requests that have been checked and not yet applied are within the speed limit of the
present motor parameters. -/
structure VelocityChecked (x : System F) : Prop where
  calls : ∀ task request, x.calls task = some request → WithinLimit x.motion.motorParams request
  slot : x.motion.request.pending = true → x.motion.request.action = .actionStart →
    WithinLimit x.motion.motorParams x.motion.request

/-- The step does not put motor parameters in force, with neither a motion nor a request, that
have a maximum linear velocity below the velocity of a request that some task has checked and not
yet submitted. -/
def KeepsLimit (x : System F) (e : Event F) : Prop :=
  ∀ p : MotorParams F, e = .motorParamsSet p → p.acceptable = true →
    x.motion.control.busy = false → x.motion.request.pending = false →
      ∀ task request, x.calls task = some request → WithinLimit p request

omit [PositiveRoots F] in
theorem velocityChecked_init :
  (init : System F).VelocityChecked
  := by
  constructor
  · rintro _ _ ⟨⟩
  · rintro ⟨⟩

/-- The motor parameters after a step that may fill the slot, or with a request in the slot. -/
theorem Valid.motorParams_step {x : System F} (h : x.Valid) {e : Event F}
    (hkept : e.fills = true ∨ x.motion.request.pending = true) :
  (x.step e).motion.motorParams = x.motion.motorParams
  := by
  rcases h.parameters_step e with hsame | ⟨-, hempty, ⟨p, rfl, -, -⟩ | ⟨rfl, -⟩⟩
  · apply hsame.1
  · rcases hkept with ⟨⟨⟩⟩ | hpending
    rw [hempty] at hpending
    cases hpending
  · rcases hkept with ⟨⟨⟩⟩ | hpending
    rw [hempty] at hpending
    cases hpending

/-- A step keeps the calls in progress within the speed limit. -/
theorem VelocityChecked.calls_step {x : System F} (h : x.VelocityChecked) (hvalid : x.Valid)
    {e : Event F} (hkeeps : x.KeepsLimit e) {task : ℕ} {request : MotionRequest F}
    (hcall : x.callsAfter e task = some request) :
  WithinLimit (x.step e).motion.motorParams request
  := by
  have hsame : (x.step e).motion.motorParams = x.motion.motorParams →
      WithinLimit (x.step e).motion.motorParams request := by
    intro heq
    rw [heq]
    rcases callsAfter_cases hcall with hbefore | ⟨call, -, hchecked, rfl⟩
    · apply h.calls task request hbefore
    · apply withinLimit_of_validate hchecked
  rcases hvalid.parameters_step e with
    ⟨heq, -⟩ | ⟨hidle, hempty, ⟨p, rfl, hacceptable, heq⟩ | ⟨-, heq⟩⟩
  · apply hsame heq
  · rw [heq]
    apply hkeeps p rfl hacceptable hidle hempty task request hcall
  · apply hsame heq

/-- A step that meets the condition preserves the check of the velocity. -/
theorem VelocityChecked.step {x : System F} (h : x.VelocityChecked) (hvalid : x.Valid)
    {e : Event F} (hkeeps : x.KeepsLimit e) :
  (x.step e).VelocityChecked
  := by
  constructor
  · intro task request hcall
    rw [step_calls] at hcall
    apply h.calls_step hvalid hkeeps hcall
  · intro hpending haction
    rcases hvalid.slot_step e with ⟨haccepts, -, -⟩ | ⟨-, hempty⟩ | ⟨-, -, heq⟩
    · rw [hvalid.motorParams_step (Or.inl haccepts.1)]
      obtain ⟨task, call, hcall, hrequest⟩ := haccepts.call haction
      rw [hrequest]
      exact h.calls task call hcall
    · rw [hpending] at hempty
      cases hempty
    · rw [heq] at hpending haction ⊢
      rw [hvalid.motorParams_step (Or.inr hpending)]
      apply h.slot hpending haction

/-- The check of the velocity holds in every state of a run whose steps meet the condition. -/
theorem velocityChecked_before {es : List (Event F)}
    (h : ∀ k e, es[k]? = some e → (machine.before es k).KeepsLimit e) (i : ℕ) :
  (machine.before es i : System F).Valid ∧ (machine.before es i : System F).VelocityChecked
  := by
  apply machine.invariant_of (P := fun x => x.Valid ∧ x.VelocityChecked) _ _ h i
  · exact ⟨valid_init, velocityChecked_init⟩
  · rintro x e hkeeps ⟨hvalid, hchecked⟩
    exact ⟨hvalid.step e, hchecked.step hvalid hkeeps⟩

omit [FloatArith F] [PositiveRoots F] in
/-- A request is applied with the motor parameters in force before the call. -/
theorem Applies.motorParams {x : System F} {e : Event F} {request : MotionRequest F}
    {s : Motion F} (h : x.Applies e request s) :
  s.motorParams = x.motion.motorParams
  := by
  obtain ⟨input, -, hfetch⟩ := h
  rw [← (motionAlign_sameParameters input x.motion).1]
  rw [motionRequestFetch] at hfetch
  split at hfetch
  · cases hfetch
    rfl
  · cases hfetch

/-! ### The parameters during a motion -/

/-- A ready call after which there is no motion: the motion is done, has failed or has been
aborted. -/
def EndsAt (es : List (Event F)) (m : ℕ) : Prop :=
  ReadyAt es m ∧ (motionBefore es (m + 1)).control.busy = false

/-- A step that is not a ready call leaves a motion busy. -/
theorem Valid.busy_step {x : System F} (h : x.Valid) {e : Event F}
    (hready : ∀ input, ¬ x.Ready e input) :
  (x.step e).motion.control.busy = x.motion.control.busy
  := by
  by_cases he : e = .process
  · subst he
    rcases x.step_process_cases with ⟨-, heq⟩ | ⟨input, output, hinput, houtput, hmotion, -⟩
    · rw [heq]
    · have hnot : ¬ input.servoReady = true := by
        intro hservo
        apply hready input
        exact ⟨rfl, hinput, by rw [houtput]; rfl, hservo⟩
      rw [hmotion, motionUpdate, if_neg hnot, motionAlign_busy]
  · rcases h.critical_or he with ⟨result, -, hstep⟩ | ⟨-, hmotion⟩
    · rw [hstep.sameMotion.1]
    · rw [hmotion]

theorem motionBefore_busy_succ {es : List (Event F)} {k : ℕ} (h : ¬ ReadyAt es k) :
  (motionBefore es (k + 1)).control.busy = (motionBefore es k).control.busy
  := by
  cases he : es[k]? with
  | none => rw [motionBefore_succ_of_none he]
  | some e =>
      rw [motionBefore_succ he]
      apply (valid_before es k).busy_step
      intro input hready
      exact h ⟨e, input, he, hready⟩

/-- From the acceptance of a request until the motion has ended, there is a request or a
motion. -/
theorem AcceptsAt.occupied {es : List (Event F)} {i : ℕ} {request : MotionRequest F}
    (h : AcceptsAt es i request) {j : ℕ} (hij : i < j)
    (hends : ∀ m, i < m → m < j → ¬ EndsAt es m) :
  (motionBefore es j).request.pending = true ∨ (motionBefore es j).control.busy = true
  := by
  induction j, hij using Nat.le_induction with
  | base =>
      left
      obtain ⟨hslot, hpending⟩ := h.slot
      rw [← hslot] at hpending
      apply hpending
  | succ j hij ih =>
      rcases slotBefore_succ es j with ⟨-, hpending, -⟩ | ⟨hready, -⟩ | ⟨-, hready, heq⟩
      · exact Or.inl hpending
      · right
        by_contra hbusy
        apply hends j hij (by omega)
        exact ⟨hready, Bool.not_eq_true _ ▸ hbusy⟩
      · rcases ih fun m him hmj => hends m him (by omega) with hpending | hbusy
        · left
          rw [← hpending]
          exact congrArg MotionRequest.pending heq
        · right
          rw [motionBefore_busy_succ hready]
          apply hbusy

/-- A position of a run with a request in the slot or a motion leaves the parameters. -/
theorem sameParameters_succ {es : List (Event F)} {k : ℕ}
    (h : (motionBefore es k).request.pending = true
      ∨ (motionBefore es k).control.busy = true) :
  (motionBefore es k).SameParameters (motionBefore es (k + 1))
  := by
  cases he : es[k]? with
  | none =>
      rw [motionBefore_succ_of_none he]
      exact ⟨rfl, rfl⟩
  | some e =>
      rw [motionBefore_succ he]
      rcases (valid_before es k).parameters_step e with hsame | ⟨hidle, hempty, -⟩
      · apply hsame
      · rw [motionBefore, hempty, hidle] at h
        rcases h with ⟨⟨⟩⟩ | ⟨⟨⟩⟩

/-- The step that accepts a request leaves the parameters. -/
theorem AcceptsAt.sameParameters {es : List (Event F)} {i : ℕ} {request : MotionRequest F}
    (h : AcceptsAt es i request) :
  (motionBefore es i).SameParameters (motionBefore es (i + 1))
  := by
  obtain ⟨e, he, hfills, -⟩ := h
  rw [motionBefore_succ he]
  rcases (valid_before es i).parameters_step e with hsame | ⟨-, -, ⟨p, rfl, -⟩ | ⟨rfl, -⟩⟩
  · apply hsame
  · cases hfills
  · cases hfills

/-- The parameters of a motion stay from the acceptance of its request until after the call that
ends it. -/
theorem AcceptsAt.sameParameters_until {es : List (Event F)} {i : ℕ}
    {request : MotionRequest F} (h : AcceptsAt es i request) {j : ℕ} (hij : i < j)
    (hends : ∀ m, i < m → m + 1 < j → ¬ EndsAt es m) :
  (motionBefore es i).SameParameters (motionBefore es j)
  := by
  induction j, hij using Nat.le_induction with
  | base => apply h.sameParameters
  | succ j hij ih =>
      apply (ih fun m him hmj => hends m him (by omega)).trans
      apply sameParameters_succ
      apply h.occupied hij
      intro m him hmj
      apply hends m him (by omega)

/-- Speed limit and parameter stability, in every run in which no task puts motor parameters in
force that are too slow for a request another task has checked and not yet submitted.

A start is applied with a velocity that is at most the maximum linear velocity of the motor
parameters then in force; and from the acceptance of a start until after the call that ends its
motion, neither the motor parameters nor the software zero change. -/
theorem parameters_stable (es : List (Event F))
    (h : ∀ k e, es[k]? = some e → (machine.before es k).KeepsLimit e) :
  (∀ j request s, AppliesAt es j request s → request.action = .actionStart →
      WithinLimit s.motorParams request)
    ∧ (∀ i j request, AcceptsAt es i request → request.action = .actionStart → i < j →
      (∀ m, i < m → m + 1 < j → ¬ EndsAt es m) →
        (motionBefore es j).motorParams = (motionBefore es i).motorParams
          ∧ (motionBefore es j).softwareZeroCounts = (motionBefore es i).softwareZeroCounts)
  := by
  constructor
  · rintro j request s ⟨e, -, happlies⟩ haction
    obtain ⟨-, hchecked⟩ := velocityChecked_before h j
    rw [happlies.motorParams]
    obtain ⟨hpending, rfl⟩ := happlies.request
    apply hchecked.slot hpending haction
  · intro i j request haccepts _ hij hends
    exact haccepts.sameParameters_until hij hends

end System

/-! ### Two runs -/

namespace System

/-- A start that is not disturbed between its checks and its submission. -/
theorem parameters_stable_submitMove :
  (∃ s, AppliesAt (submitMove 10 ++ [.process]) 4 (slotBefore (submitMove 10 ++ [.process]) 4) s
      ∧ WithinLimit s.motorParams (slotBefore (submitMove 10 ++ [.process]) 4))
    ∧ (motionBefore (submitMove 10 ++ [.process]) 5).motorParams = unitMotorParams
  := by
  have hkeeps : ∀ k e, (submitMove 10 ++ [.process])[k]? = some e →
      (machine.before (submitMove 10 ++ [.process]) k).KeepsLimit e := by
    rintro k e he p rfl - - - task request hcall
    rcases k with _ | _ | _ | _ | _ | k
    · cases hcall
    all_goals cases he
  obtain ⟨hlimit, hstable⟩ := parameters_stable (submitMove 10 ++ [.process]) hkeeps
  have hready : ReadyAt (submitMove 10 ++ [.process]) 4 :=
    ⟨.process, readyInput 0, rfl, rfl, rfl, rfl, by decide⟩
  obtain ⟨s, happlies⟩ := hready.appliesAt (by decide +kernel)
  have haccepts : AcceptsAt (submitMove 10 ++ [.process]) 3
      (slotBefore (submitMove 10 ++ [.process]) 4) := by
    refine ⟨.submit 0, rfl, rfl, _, ?_, rfl⟩
    decide +kernel
  constructor
  · exact ⟨s, happlies, hlimit 4 _ s happlies (by decide +kernel)⟩
  · rw [(hstable 3 5 _ haccepts (by decide +kernel) (by decide) (by omega)).1]
    decide +kernel

/-- Motor parameters with a tenth of the speed of `unitMotorParams`. -/
def slowMotorParams : MotorParams ℚ := ⟨1, 1, 1, 1, 6⟩

/-- The motor parameters are replaced between the checks of a move and its submission. -/
def replaceParams : List (Event ℚ) :=
  [.motorParamsSet unitMotorParams, .pdo (readyArea 0),
    .validate 0 (.commandSet .moveRel 10 1 1 2), .motorParamsSet slowMotorParams, .submit 0,
    .process]

/-- The move is then applied with ten times the maximum linear velocity. -/
theorem start_above_limit :
  ∃ request s, AppliesAt replaceParams 5 request s ∧ request.action = .actionStart
    ∧ ¬ WithinLimit s.motorParams request
    ∧ request.velocityMmS = 10 * motionMaxLinearVelocityMmSGet s.motorParams
  := by
  have hready : ReadyAt replaceParams 5 :=
    ⟨.process, readyInput 0, rfl, rfl, rfl, rfl, by decide⟩
  obtain ⟨s, happlies⟩ := hready.appliesAt (by decide +kernel)
  have hparams : s.motorParams = slowMotorParams := by
    obtain ⟨e, -, h⟩ := happlies
    rw [h.motorParams]
    decide +kernel
  refine ⟨_, s, happlies, by decide +kernel, ?_, ?_⟩
  · rw [hparams, WithinLimit]
    decide +kernel
  · rw [hparams]
    decide +kernel

end System

end EthercatMaster
