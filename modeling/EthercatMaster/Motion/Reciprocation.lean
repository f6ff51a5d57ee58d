import EthercatMaster.Motion.Pause

/-!
# Reciprocation

A reciprocation goes through phases: its legs, numbered from zero, the dwells between them, and
its end.  `Reciprocation.At` relates the phases to the states of the motion module.  Every ready
call of the scheduler makes a step of the phases, so that the order of the legs, the length of
the dwells, the count of the completed rounds and the end can be read off the phases.
-/

namespace EthercatMaster

variable {F : Type}

/-- What a request for a reciprocation fixes when it is applied. -/
structure Reciprocation (F : Type) where
  motorParams : MotorParams F
  startCounts : Int32
  endCounts : Int32
  velocityMmS : F
  accelerationMmS2 : F
  jerkMmS3 : F
  firstIntervalMs : UInt32
  secondIntervalMs : UInt32
  repeatCount : UInt32

/-- The phases of a reciprocation: a leg under way, the dwell after a leg with the number of
calls that are left of it, and the end. -/
inductive RecipPhase where
  | leg (k : ℕ)
  | dwell (k left : ℕ)
  | finished

namespace Reciprocation

variable (d : Reciprocation F)

/-- The target of a leg: the legs go to the end and back to the start in turn. -/
def target (k : ℕ) : Int32 :=
  if Even k then d.endCounts else d.startCounts

/-- The number of calls spent waiting after a leg, the interval after the leg in cycles of two
milliseconds, rounded up. -/
def wait (k : ℕ) : ℕ :=
  ((if Even k then d.firstIntervalMs else d.secondIntervalMs).toNat + 1) / 2

/-- The last leg: the return leg of the last round. -/
def IsLast (k : ℕ) : Prop :=
  d.repeatCount ≠ 0 ∧ k + 1 = 2 * d.repeatCount.toNat

instance (k : ℕ) : Decidable (d.IsLast k) :=
  inferInstanceAs (Decidable (_ ∧ _))

/-- The phase after a leg has been completed. -/
def afterLeg (k : ℕ) : RecipPhase :=
  if d.IsLast k then .finished
  else if d.wait k = 0 then .leg (k + 1)
  else .dwell k (d.wait k)

/-- The phase after a call, which completes a leg or does not. -/
def next (completes : Bool) : RecipPhase → RecipPhase
  | .leg k => if completes then d.afterLeg k else .leg k
  | .dwell k left => if left ≤ 1 then .leg (k + 1) else .dwell k (left - 1)
  | .finished => .finished

/-- The number of legs that have been completed in a phase. -/
def legsOf : RecipPhase → ℕ
  | .leg k => k
  | .dwell k _ => k + 1
  | .finished => 2 * d.repeatCount.toNat

/-- The stage of a leg. -/
def legStage (k : ℕ) : RecipStage :=
  if Even k then .moveOut else .moveBack

/-- The stage of the dwell after a leg. -/
def waitStage (k : ℕ) : RecipStage :=
  if Even k then .waitFirst else .waitSecond

/-- The reciprocation state of the module in a stage. -/
def recip (stage : RecipStage) (waitCycles completedCount : UInt32) : MotionRecip F where
  active := true
  stage := stage
  startCounts := d.startCounts
  endCounts := d.endCounts
  velocityMmS := d.velocityMmS
  accelerationMmS2 := d.accelerationMmS2
  jerkMmS3 := d.jerkMmS3
  firstIntervalCycles := motionMsToCycles d.firstIntervalMs
  secondIntervalCycles := motionMsToCycles d.secondIntervalMs
  waitCycles := waitCycles
  repeatCount := d.repeatCount
  completedCount := completedCount

/-- The module carries out the reciprocation, in a stage. -/
structure Runs (stage : RecipStage) (waitCycles completedCount : UInt32) (s : Motion F) :
    Prop where
  initialized : s.motionInitialized = true
  empty : s.request.pending = false
  motorParams : s.motorParams = d.motorParams
  busy : s.control.busy = true
  unpaused : s.control.paused = false
  undone : s.control.done = false
  mode : s.control.mode = .recip
  recip : s.recip = d.recip stage waitCycles completedCount

/-- The module carries out leg `k`. -/
structure OnLeg (k : ℕ) (s : Motion F) : Prop where
  runs : ∃ waitCycles, d.Runs (legStage k) waitCycles (UInt32.ofNat (k / 2)) s
  active : s.trajectory.Active
  target : s.trajectory.targetCounts = d.target k
  /-- Once the trajectory has arrived, its target is commanded. -/
  arrived : s.trajectory.waitingActual = true → s.control.commandCounts = d.target k
  control : s.control.targetCounts = d.target k
  /-- There are not more legs than requested. -/
  bound : d.repeatCount ≠ 0 → k < 2 * d.repeatCount.toNat

/-- The module dwells after leg `k`, with `left` calls left. -/
structure Dwells (k left : ℕ) (s : Motion F) : Prop where
  runs : d.Runs (waitStage k) (UInt32.ofNat left) (UInt32.ofNat ((k + 1) / 2)) s
  arrived : s.control.commandCounts = d.target k
  pos : 0 < left
  le : left ≤ d.wait k
  bound : d.repeatCount ≠ 0 → k + 1 < 2 * d.repeatCount.toNat

/-- The module has finished the reciprocation. -/
structure Finished (s : Motion F) : Prop where
  initialized : s.motionInitialized = true
  empty : s.request.pending = false
  idle : s.control.busy = false
  done : s.control.done = true
  arrived : s.control.commandCounts = d.startCounts
  counts : s.recip.startCounts = d.startCounts ∧ s.recip.endCounts = d.endCounts
  completed : s.recip.completedCount = d.repeatCount
  stage : s.recip.stage = .idle
  repeats : d.repeatCount ≠ 0

/-- The module is in a phase of the reciprocation. -/
def At (s : Motion F) : RecipPhase → Prop
  | .leg k => d.OnLeg k s
  | .dwell k left => d.Dwells k left s
  | .finished => d.Finished s

/-! ### Stages and targets -/

theorem target_even {k : ℕ} (h : Even k) :
  d.target k = d.endCounts ∧ d.target (k + 1) = d.startCounts ∧ legStage k = .moveOut
    ∧ legStage (k + 1) = .moveBack ∧ waitStage k = .waitFirst
  := by
  have hsucc : ¬ Even (k + 1) := by
    rw [Nat.even_add_one]
    exact not_not.mpr h
  exact ⟨if_pos h, if_neg hsucc, if_pos h, if_neg hsucc, if_pos h⟩

theorem target_odd {k : ℕ} (h : ¬ Even k) :
  d.target k = d.startCounts ∧ d.target (k + 1) = d.endCounts ∧ legStage k = .moveBack
    ∧ legStage (k + 1) = .moveOut ∧ waitStage k = .waitSecond
  := by
  have hsucc : Even (k + 1) := Nat.even_add_one.mpr h
  exact ⟨if_neg h, if_pos hsucc, if_neg h, if_pos hsucc, if_neg h⟩

theorem legStage_isMove (k : ℕ) :
  (legStage k).IsMove
  := by
  rw [legStage]
  split
  · exact Or.inl rfl
  · exact Or.inr rfl

theorem waitStage_not_isMove (k : ℕ) :
  ¬ (waitStage k).IsMove
  := by
  rw [waitStage]
  split
  · decide
  · decide

/-- The conversion of an interval to cycles rounds up. -/
theorem motionMsToCycles_toNat (ms : UInt32) :
  (motionMsToCycles ms).toNat = (ms.toNat + 1) / 2
  := by
  have hms := ms.toNat_lt
  have hdiv : (ms / 2).toNat = ms.toNat / 2 := by
    rw [UInt32.toNat_div]
    rfl
  have hmod : (ms % 2 ≠ 0) ↔ ms.toNat % 2 = 1 := by
    rw [ne_eq, ← UInt32.toNat_inj, UInt32.toNat_mod,
      show (2 : UInt32).toNat = 2 from rfl, UInt32.toNat_zero]
    omega
  rw [motionMsToCycles, UInt32.toNat_add, hdiv]
  split
  · rename_i hodd
    rw [UInt32.toNat_one]
    have := hmod.mp hodd
    omega
  · rename_i heven
    rw [UInt32.toNat_zero]
    have := mt hmod.mpr heven
    omega

theorem wait_lt (k : ℕ) :
  d.wait k < 2 ^ 32
  := by
  have hlt := (if Even k then d.firstIntervalMs else d.secondIntervalMs).toNat_lt
  rw [wait]
  omega

/-- The interval after a leg, in cycles. -/
theorem wait_eq (k : ℕ) :
  (if Even k then motionMsToCycles d.firstIntervalMs else motionMsToCycles d.secondIntervalMs)
    = UInt32.ofNat (d.wait k)
  := by
  rw [← UInt32.toNat_inj, UInt32.toNat_ofNat_of_lt' (d.wait_lt k), wait]
  split
  · apply motionMsToCycles_toNat
  · apply motionMsToCycles_toNat

/-! ### The start of a leg -/

section Legs

variable [FloatArith F] [PositiveRoots F]

/-- The planner succeeds for a leg from one position to another. -/
def Plans (d : Reciprocation F) (fromCounts toCounts : Int32) : Prop :=
  (motionTrajectoryStart fromCounts toCounts d.velocityMmS d.accelerationMmS2 d.jerkMmS3
    { (Motion.init : Motion F) with motorParams := d.motorParams }).1 = .ok

variable {d}

/-- A leg that can be planned is started from the commanded position. -/
theorem Runs.leg {stage : RecipStage} {waitCycles : UInt32} {k : ℕ} {s : Motion F}
    (h : d.Runs stage waitCycles (UInt32.ofNat (k / 2)) s)
    (hplans : d.Plans s.control.commandCounts (d.target k))
    (hbound : d.repeatCount ≠ 0 → k < 2 * d.repeatCount.toNat) (input : PdoInput) :
  d.OnLeg k (motionRecipLeg input (d.target k) (legStage k) s)
  := by
  rw [motionRecipLeg]
  rcases motionRecipMoveStart_cases (d.target k) s with ⟨t, hfresh, heq⟩ | ⟨segments, heq⟩
  · rw [heq]
    constructor
    · use waitCycles
      constructor
      · apply h.initialized
      · apply h.empty
      · apply h.motorParams
      · apply h.busy
      · apply h.unpaused
      · apply h.undone
      · apply h.mode
      · dsimp only
        rw [h.recip]
        rfl
    · apply hfresh.active
    · apply hfresh.target
    · intro hw
      rcases hfresh.flags with ⟨-, hw', -, -⟩ | ⟨-, -, hcounts⟩
      · exact absurd (hw'.symm.trans hw) (by decide)
      · apply hcounts
    · rfl
    · apply hbound
  · exfalso
    have hresult : (motionRecipMoveStart (d.target k) s).1 = .ok := by
      rw [motionRecipMoveStart, h.recip]
      rw [Plans] at hplans
      rw [← hplans]
      apply motionTrajectoryStart_result
      apply h.motorParams
    rw [heq] at hresult
    cases hresult

/-- A motion in a stage of the reciprocation is advanced by `motion_recip_process`. -/
theorem Runs.motionUpdate_eq {stage : RecipStage} {waitCycles completedCount : UInt32}
    {s : Motion F} (h : d.Runs stage waitCycles completedCount s) {input : PdoInput}
    (hready : input.servoReady = true) :
  motionUpdate input s = motionRecipProcess input s
  := by
  rw [motionUpdate_of_empty s hready h.initialized h.empty, motionAdvance, h.busy, h.unpaused,
    Bool.not_false, Bool.and_self, if_pos rfl, if_pos h.mode]

omit [FloatArith F] [PositiveRoots F] in
/-- A change of the reciprocation state goes on with the reciprocation. -/
theorem Runs.withRecip {stage : RecipStage} {waitCycles completedCount : UInt32} {s : Motion F}
    (h : d.Runs stage waitCycles completedCount s) (stage' : RecipStage)
    (waitCycles' completedCount' : UInt32) :
  d.Runs stage' waitCycles' completedCount'
    { s with recip := d.recip stage' waitCycles' completedCount' }
  := by
  constructor
  · apply h.initialized
  · apply h.empty
  · apply h.motorParams
  · apply h.busy
  · apply h.unpaused
  · apply h.undone
  · apply h.mode
  · rfl

omit [FloatArith F] [PositiveRoots F] in
/-- A cycle of a segment goes on with the reciprocation. -/
theorem Runs.follow {stage : RecipStage} {waitCycles completedCount : UInt32} {s : Motion F}
    (h : d.Runs stage waitCycles completedCount s) (t : MotionTrajectory F) (c : Int32) :
  d.Runs stage waitCycles completedCount (s.follow t c)
  := by
  constructor
  · apply h.initialized
  · apply h.empty
  · apply h.motorParams
  · apply h.busy
  · apply h.unpaused
  · apply h.undone
  · apply h.mode
  · apply h.recip

/-! ### Steps of the phases -/

/-- Between the legs of a reciprocation, the planner succeeds. -/
def PlansLegs (d : Reciprocation F) : Prop :=
  ∀ k, d.Plans (d.target k) (d.target (k + 1))

/-- A call in a dwell goes on waiting, or starts the next leg. -/
theorem Dwells.next {k left : ℕ} {s : Motion F} (h : d.Dwells k left s) (hplans : d.PlansLegs)
    {input : PdoInput} (hready : input.servoReady = true) (completes : Bool) :
  d.At (motionUpdate input s) (d.next completes (.dwell k left))
  := by
  have hlt : left < 2 ^ 32 := lt_of_le_of_lt h.le (d.wait_lt k)
  have hpred : left - 1 < 2 ^ 32 := by omega
  have hprocess : motionUpdate input s
      = motionRecipWait input (d.target (k + 1)) (legStage (k + 1)) s := by
    rw [h.runs.motionUpdate_eq hready, motionRecipProcess, h.runs.recip]
    by_cases heven : Even k
    · obtain ⟨-, htarget, -, hstage, hwait⟩ := d.target_even heven
      rw [htarget, hstage, hwait]
      rfl
    · obtain ⟨-, htarget, -, hstage, hwait⟩ := d.target_odd heven
      rw [htarget, hstage, hwait]
      rfl
  have hleft : (if 0 < s.recip.waitCycles then s.recip.waitCycles - 1 else s.recip.waitCycles)
      = UInt32.ofNat (left - 1) := by
    rw [h.runs.recip]
    have hpos : 0 < UInt32.ofNat left := by
      rw [UInt32.lt_iff_toNat_lt, UInt32.toNat_ofNat_of_lt' hlt]
      apply h.pos
    rw [recip, if_pos hpos, ← UInt32.toNat_inj, UInt32.toNat_sub_of_le _ _ (by
      rw [UInt32.le_iff_toNat_le, UInt32.toNat_ofNat_of_lt' hlt]
      apply h.pos), UInt32.toNat_ofNat_of_lt' hlt, UInt32.toNat_ofNat_of_lt' hpred]
    rfl
  have hzero : UInt32.ofNat (left - 1) = 0 ↔ left ≤ 1 := by
    rw [← UInt32.toNat_inj, UInt32.toNat_ofNat_of_lt' hpred, UInt32.toNat_zero]
    have := h.pos
    omega
  have hrecip : { s.recip with waitCycles := UInt32.ofNat (left - 1) }
      = d.recip (waitStage k) (UInt32.ofNat (left - 1)) (UInt32.ofNat ((k + 1) / 2)) := by
    rw [h.runs.recip]
    rfl
  rw [hprocess, motionRecipWait, hleft]
  dsimp only
  rw [hrecip, Reciprocation.next]
  by_cases hlast : left ≤ 1
  · rw [if_pos (hzero.mpr hlast), if_pos hlast]
    apply Runs.leg (h.runs.withRecip _ _ _)
    · rw [show ({ s with recip := _ } : Motion F).control.commandCounts = _ from h.arrived]
      apply hplans
    · apply h.bound
  · rw [if_neg (mt hzero.mp hlast), if_neg hlast]
    exact ⟨h.runs.withRecip _ _ _, h.arrived, by omega, by have := h.le; omega, h.bound⟩

/-- A finished reciprocation stays as it is. -/
theorem Finished.next {s : Motion F} (h : d.Finished s) {input : PdoInput}
    (hready : input.servoReady = true) :
  motionUpdate input s = s
  := by
  rw [motionUpdate_of_empty s hready h.initialized h.empty, motionAdvance, h.idle, Bool.false_and]
  rfl

end Legs

end Reciprocation

/-! ### Completed legs -/

/-- A cycle of a segment keeps its target. -/
theorem SegmentStep.targetCounts {input : PdoInput} {s : Motion F}
    {x : SegmentResult × Motion F} (h : SegmentStep input s x) :
  x.2.trajectory.targetCounts = s.trajectory.targetCounts
  := by
  have harrived : s.arrived.trajectory.targetCounts = s.trajectory.targetCounts := by
    rw [Motion.arrived]
    split
    · rfl
    · rfl
  cases h with
  | moving _ _ _ => rfl
  | unsettled _ => apply harrived
  | settling _ _ => apply harrived
  | settled _ _ => apply harrived

/-- Once a trajectory has arrived, its target is commanded. -/
theorem SegmentStep.commandCounts_eq_target {input : PdoInput} {s : Motion F}
    {x : SegmentResult × Motion F} (h : SegmentStep input s x) (hactive : s.trajectory.Active)
    (hs : s.trajectory.waitingActual = true →
      s.control.commandCounts = s.trajectory.targetCounts)
    (hx : x.2.trajectory.waitingActual = true ∨ x.1 = .done) :
  x.2.control.commandCounts = s.trajectory.targetCounts
  := by
  have harrived : s.arrived.control.commandCounts = s.trajectory.targetCounts := by
    rw [Motion.arrived]
    rcases hactive with ⟨hr, -, -⟩ | ⟨hr, hw⟩
    · rw [if_pos hr]
      rfl
    · rw [hr]
      apply hs hw
  cases h with
  | moving c running left =>
      rcases hx with hw | hdone
      · rcases hactive with ⟨-, hw', -⟩ | ⟨hr, -⟩
        · exact absurd (hw'.symm.trans hw) (by decide)
        · exact absurd (hr.symm.trans running) (by decide)
      · cases hdone
  | unsettled _ => apply harrived
  | settling _ _ => apply harrived
  | settled _ _ => apply harrived

section Completes

variable [FloatArith F] [PositiveRoots F]

/-- A ready call completes the motion segment it advances. -/
def Motion.completesSegment (input : PdoInput) (s : Motion F) : Bool :=
  decide (s.dispatched input).OnSegment
    && decide ((motionSegmentProcess input (s.dispatched input)).1 = .done)

/-- Without a request, a call advances the motion it finds. -/
theorem Motion.dispatched_of_empty {s : Motion F} (hinitialized : s.motionInitialized = true)
    (hempty : s.request.pending = false) (input : PdoInput) :
  s.dispatched input = s
  := by
  rw [dispatched, motionAlign, if_pos hinitialized, motionServe, motionRequestFetch, hempty]
  rfl

namespace Reciprocation

variable {d : Reciprocation F}

theorem Runs.dispatched {stage : RecipStage} {waitCycles completedCount : UInt32}
    {s : Motion F} (h : d.Runs stage waitCycles completedCount s) (input : PdoInput) :
  s.dispatched input = s
  := Motion.dispatched_of_empty h.initialized h.empty input

omit [FloatArith F] [PositiveRoots F] in
/-- On a leg, the reciprocation is on a motion segment. -/
theorem OnLeg.onSegment {k : ℕ} {s : Motion F} (h : d.OnLeg k s) :
  s.OnSegment
  := by
  obtain ⟨waitCycles, hruns⟩ := h.runs
  refine ⟨hruns.busy, hruns.unpaused, ?_⟩
  intro _
  rw [hruns.recip]
  apply legStage_isMove

/-- On a leg, a call completes the segment exactly if `motion_segment_process` says so. -/
theorem OnLeg.completesSegment {k : ℕ} {s : Motion F} (h : d.OnLeg k s) (input : PdoInput) :
  s.completesSegment input = decide ((motionSegmentProcess input s).1 = .done)
  := by
  obtain ⟨waitCycles, hruns⟩ := h.runs
  rw [Motion.completesSegment, hruns.dispatched, decide_eq_true h.onSegment, Bool.true_and]

theorem Dwells.completesSegment {k left : ℕ} {s : Motion F} (h : d.Dwells k left s)
    (input : PdoInput) :
  s.completesSegment input = false
  := by
  have hsegment : ¬ s.OnSegment := by
    rintro ⟨-, -, hmove⟩
    have hstage := hmove h.runs.mode
    rw [h.runs.recip] at hstage
    exact waitStage_not_isMove k hstage
  rw [Motion.completesSegment, h.runs.dispatched, decide_eq_false hsegment, Bool.false_and]

theorem Finished.completesSegment {s : Motion F} (h : d.Finished s) (input : PdoInput) :
  s.completesSegment input = false
  := by
  have hsegment : ¬ s.OnSegment := by
    rintro ⟨hbusy, -, -⟩
    rw [h.idle] at hbusy
    cases hbusy
  rw [Motion.completesSegment, Motion.dispatched_of_empty h.initialized h.empty,
    decide_eq_false hsegment, Bool.false_and]

/-- After a leg that is not the last, the reciprocation dwells or starts the next leg. -/
theorem Runs.dwell {k : ℕ} {waitCycles : UInt32} {s : Motion F}
    (h : d.Runs (legStage k) waitCycles (UInt32.ofNat ((k + 1) / 2)) s)
    (harrived : s.control.commandCounts = d.target k) (hplans : d.PlansLegs)
    (hlast : ¬ d.IsLast k) (hbound : d.repeatCount ≠ 0 → k + 1 < 2 * d.repeatCount.toNat)
    (input : PdoInput) :
  d.At (motionRecipDwell input (UInt32.ofNat (d.wait k)) (waitStage k) (d.target (k + 1))
    (legStage (k + 1)) s) (d.afterLeg k)
  := by
  have hpos : 0 < UInt32.ofNat (d.wait k) ↔ d.wait k ≠ 0 := by
    rw [UInt32.lt_iff_toNat_lt, UInt32.toNat_ofNat_of_lt' (d.wait_lt k), UInt32.toNat_zero]
    omega
  rw [motionRecipDwell, afterLeg, if_neg hlast]
  by_cases hwait : d.wait k = 0
  · rw [if_neg (by rw [hpos]; exact not_not.mpr hwait), if_pos hwait]
    apply Runs.leg h
    · rw [harrived]
      apply hplans
    · apply hbound
  · rw [if_pos (hpos.mpr hwait), if_neg hwait]
    have hrecip : { s.recip with waitCycles := UInt32.ofNat (d.wait k), stage := waitStage k }
        = d.recip (waitStage k) (UInt32.ofNat (d.wait k)) (UInt32.ofNat ((k + 1) / 2)) := by
      rw [h.recip]
      rfl
    rw [hrecip]
    exact ⟨h.withRecip _ _ _, harrived, Nat.pos_of_ne_zero hwait, le_rfl, hbound⟩

/-- A call that does not complete the leg goes on with it. -/
theorem OnLeg.next_running {k : ℕ} {s s₁ : Motion F} (h : d.OnLeg k s) {input : PdoInput}
    (hready : input.servoReady = true) (hx : motionSegmentProcess input s = (.running, s₁)) :
  d.OnLeg k (motionUpdate input s)
  := by
  obtain ⟨waitCycles, hruns⟩ := h.runs
  have hupdate : motionUpdate input s = s₁ := by
    rw [motionUpdate_of_empty s hready hruns.initialized hruns.empty,
      motionAdvance_of_running input s h.onSegment (by rw [hx]), hx]
  have hstep := motionSegmentProcess_step input s h.active
  rw [hx] at hstep
  have hactive := hstep.active h.active
  have htarget := hstep.targetCounts
  have hcommand := hstep.commandCounts_eq_target h.active (by rw [h.target]; exact h.arrived)
  rw [h.target] at htarget hcommand
  obtain ⟨t, c, rfl⟩ := hstep.follow
  rw [hupdate]
  exact ⟨⟨waitCycles, hruns.follow t c⟩, hactive, htarget, fun hw => hcommand (Or.inl hw),
    h.control, h.bound⟩

omit [PositiveRoots F] in
/-- The state between a completed leg and what follows it. -/
theorem OnLeg.completed {k : ℕ} {s s₁ : Motion F} (h : d.OnLeg k s) {input : PdoInput}
    (hx : motionSegmentProcess input s = (.done, s₁)) :
  (∃ waitCycles, d.Runs (legStage k) waitCycles (UInt32.ofNat (k / 2)) s₁)
    ∧ s₁.control.commandCounts = d.target k
  := by
  obtain ⟨waitCycles, hruns⟩ := h.runs
  have hstep := motionSegmentProcess_step input s h.active
  rw [hx] at hstep
  have hcommand := hstep.commandCounts_eq_target h.active (by rw [h.target]; exact h.arrived)
    (Or.inr rfl)
  rw [h.target] at hcommand
  obtain ⟨t, c, rfl⟩ := hstep.follow
  exact ⟨⟨waitCycles, hruns.follow t c⟩, hcommand⟩

/-- A call that completes an outbound leg is followed by the first interval. -/
theorem OnLeg.next_even {k : ℕ} {s s₁ : Motion F} (h : d.OnLeg k s) (heven : Even k)
    (hplans : d.PlansLegs) {input : PdoInput} (hready : input.servoReady = true)
    (hx : motionSegmentProcess input s = (.done, s₁)) :
  d.At (motionUpdate input s) (d.afterLeg k)
  := by
  obtain ⟨waitCycles, hruns⟩ := h.runs
  obtain ⟨⟨waitCycles', hruns'⟩, hcommand⟩ := h.completed hx
  obtain ⟨-, htarget, hleg, hstage, hwait⟩ := d.target_even heven
  have hprocess : motionUpdate input s
      = motionRecipDwell input (UInt32.ofNat (d.wait k)) (waitStage k) (d.target (k + 1))
        (legStage (k + 1)) s₁ := by
    rw [hruns.motionUpdate_eq hready, motionRecipProcess, hruns.recip, hleg,
      show (d.recip .moveOut waitCycles (UInt32.ofNat (k / 2))).stage = .moveOut from rfl, hx,
      ← d.wait_eq k, if_pos heven, htarget, hstage, hwait]
    dsimp only
    rw [hruns'.recip]
    rfl
  have hhalf : k / 2 = (k + 1) / 2 := by
    obtain ⟨n, rfl⟩ := heven
    omega
  rw [hprocess]
  rw [hhalf] at hruns'
  apply hruns'.dwell hcommand hplans
  · rintro ⟨-, hlast⟩
    obtain ⟨n, rfl⟩ := heven
    omega
  · intro hrepeat
    have := h.bound hrepeat
    obtain ⟨n, rfl⟩ := heven
    omega

/-- The end of a return leg, with the reciprocation state after the round has been counted. -/
theorem motionRecipProcess_moveBack {input : PdoInput} {s s₁ : Motion F} {r : MotionRecip F}
    (hstage : s.recip.stage = .moveBack) (hx : motionSegmentProcess input s = (.done, s₁))
    (hr : { s₁.recip with completedCount := s₁.recip.completedCount + 1 } = r) :
  motionRecipProcess input s
    = if r.repeatCount ≠ 0 ∧ r.repeatCount ≤ r.completedCount then
        motionFinishSuccess { s₁ with recip := { r with active := false, stage := .idle } }
      else
        motionRecipDwell input r.secondIntervalCycles .waitSecond r.endCounts .moveOut
          { s₁ with recip := r }
  := by
  subst hr
  rw [motionRecipProcess, hstage]
  dsimp only
  rw [hx]

/-- A call that completes a return leg ends the reciprocation, or is followed by the second
interval. -/
theorem OnLeg.next_odd {k : ℕ} {s s₁ : Motion F} (h : d.OnLeg k s) (hodd : ¬ Even k)
    (hplans : d.PlansLegs) {input : PdoInput} (hready : input.servoReady = true)
    (hx : motionSegmentProcess input s = (.done, s₁)) :
  d.At (motionUpdate input s) (d.afterLeg k)
  := by
  obtain ⟨waitCycles, hruns⟩ := h.runs
  obtain ⟨⟨waitCycles', hruns'⟩, hcommand⟩ := h.completed hx
  obtain ⟨hstart, htarget, hleg, hstage, hwait⟩ := d.target_odd hodd
  have hcount : UInt32.ofNat (k / 2) + 1 = UInt32.ofNat ((k + 1) / 2) := by
    obtain ⟨n, rfl⟩ := Nat.not_even_iff_odd.mp hodd
    rw [show (2 * n + 1) / 2 = n by omega, show (2 * n + 1 + 1) / 2 = n + 1 by omega,
      UInt32.ofNat_add]
    rfl
  have hrecip : { s₁.recip with completedCount := s₁.recip.completedCount + 1 }
      = d.recip (legStage k) waitCycles' (UInt32.ofNat ((k + 1) / 2)) := by
    rw [hruns'.recip, ← hcount]
    rfl
  have hmoveBack : s.recip.stage = .moveBack := by
    rw [hruns.recip, hleg]
    rfl
  -- the completed rounds do not exceed the requested ones, so the count does not wrap
  have hlast : (d.repeatCount ≠ 0 ∧ d.repeatCount ≤ UInt32.ofNat ((k + 1) / 2)) ↔ d.IsLast k := by
    rw [IsLast]
    apply and_congr_right
    intro hrepeat
    have hbound := h.bound hrepeat
    have hlt := d.repeatCount.toNat_lt
    have hhalf : (k + 1) / 2 < 2 ^ 32 := by omega
    rw [UInt32.le_iff_toNat_le, UInt32.toNat_ofNat_of_lt' hhalf]
    obtain ⟨n, rfl⟩ := Nat.not_even_iff_odd.mp hodd
    omega
  rw [hruns.motionUpdate_eq hready, motionRecipProcess_moveBack hmoveBack hx hrecip]
  split
  · rename_i hcond
    have hfinal := hlast.mp hcond
    rw [afterLeg, if_pos hfinal]
    have hround : UInt32.ofNat ((k + 1) / 2) = d.repeatCount := by
      rw [hfinal.2, Nat.mul_div_cancel_left _ (by decide), UInt32.ofNat_toNat]
    rw [hround]
    exact ⟨hruns'.initialized, hruns'.empty, rfl, rfl, hcommand.trans hstart, ⟨rfl, rfl⟩, rfl, rfl,
      hfinal.1⟩
  · rename_i hcond
    have hfinal := mt hlast.mpr hcond
    have hdwell := (hruns'.withRecip (legStage k) waitCycles'
      (UInt32.ofNat ((k + 1) / 2))).dwell hcommand hplans hfinal ?_ input
    · rw [← d.wait_eq k, if_neg hodd, htarget, hstage, hwait] at hdwell
      apply hdwell
    intro hrepeat
    have hbound := h.bound hrepeat
    have hne : k + 1 ≠ 2 * d.repeatCount.toNat := fun heq => hfinal ⟨hrepeat, heq⟩
    omega

/-- A call on a leg makes a step of the phases. -/
theorem OnLeg.next {k : ℕ} {s : Motion F} (h : d.OnLeg k s) (hplans : d.PlansLegs)
    {input : PdoInput} (hready : input.servoReady = true) :
  d.At (motionUpdate input s) (d.next (s.completesSegment input) (.leg k))
  := by
  rw [h.completesSegment, Reciprocation.next]
  have hstep := motionSegmentProcess_step input s h.active
  rcases hx : motionSegmentProcess input s with ⟨result, s₁⟩
  rw [hx] at hstep
  cases result with
  | running => apply h.next_running hready hx
  | error => cases hstep
  | done =>
      rw [decide_eq_true rfl, if_pos rfl]
      by_cases heven : Even k
      · apply h.next_even heven hplans hready hx
      · apply h.next_odd heven hplans hready hx

/-- Every ready call makes a step of the phases. -/
theorem At.next {phase : RecipPhase} {s : Motion F} (h : d.At s phase) (hplans : d.PlansLegs)
    {input : PdoInput} (hready : input.servoReady = true) :
  d.At (motionUpdate input s) (d.next (s.completesSegment input) phase)
  := by
  cases phase with
  | leg k => apply OnLeg.next h hplans hready
  | dwell k left => apply Dwells.next h hplans hready
  | finished =>
      rw [Finished.next h hready]
      apply h

/-! ### The start of a reciprocation -/

/-- The reciprocation a pending request describes, applied at an actual position. -/
def ofRequest {F : Type} (s : Motion F) (startCounts endCounts : Int32) : Reciprocation F where
  motorParams := s.motorParams
  startCounts := startCounts
  endCounts := endCounts
  velocityMmS := s.request.velocityMmS
  accelerationMmS2 := s.request.accelerationMmS2
  jerkMmS3 := s.request.jerkMmS3
  firstIntervalMs := s.request.firstIntervalMs
  secondIntervalMs := s.request.secondIntervalMs
  repeatCount := s.request.repeatCount

/-- A reciprocation that can be planned is started. -/
theorem motionRecipStartInternal_ok (input : PdoInput) (request : MotionRequest F)
    (s : Motion F) {offsetCounts endCounts : Int32}
    (hoffset : motionMmToCounts s.motorParams request.positionMm = .ok offsetCounts)
    (hzero : offsetCounts ≠ 0)
    (hend : countsOfInt64 (input.currentPosition.toInt + offsetCounts.toInt) = .ok endCounts)
    (hplans : (motionTrajectoryStart s.control.commandCounts endCounts request.velocityMmS
      request.accelerationMmS2 request.jerkMmS3 s).1 = .ok) :
  (motionRecipStartInternal input request s).1 = .ok
  := by
  have hresult : (motionRecipMoveStart endCounts
      { s with
        recip := MotionRecip.ofRequest request input.currentPosition endCounts }).1 = .ok := by
    rw [motionRecipMoveStart, ← hplans]
    apply motionTrajectoryStart_result
    rfl
  rw [motionRecipStartInternal, hoffset]
  dsimp only
  rw [if_neg hzero, hend]
  dsimp only
  rcases hx : motionRecipMoveStart endCounts
    { s with recip := MotionRecip.ofRequest request input.currentPosition endCounts }
    with ⟨result, s₁⟩
  rw [hx] at hresult
  cases hresult
  rfl

/-- A request for a reciprocation that can be planned starts the first leg. -/
theorem onLeg_dispatched {input : PdoInput} {s : Motion F} {offsetCounts endCounts : Int32}
    (hpending : s.request.pending = true) (haction : s.request.action = .actionStart)
    (hmode : s.request.mode = .recip)
    (hoffset : motionMmToCounts s.motorParams s.request.positionMm = .ok offsetCounts)
    (hzero : offsetCounts ≠ 0)
    (hend : countsOfInt64 (input.currentPosition.toInt + offsetCounts.toInt) = .ok endCounts)
    (hplans : (ofRequest s input.currentPosition endCounts).Plans
      (motionAlign input s).control.commandCounts endCounts) :
  (ofRequest s input.currentPosition endCounts).OnLeg 0 (s.dispatched input)
    ∧ ∃ startCounts, (s.dispatched input).trajectory.Fresh startCounts endCounts
  := by
  have hparams : (motionDropPaused (motionAlign input s).fetched).motorParams = s.motorParams := by
    rw [motionDropPaused_motorParams, Motion.fetched, motionAlign]
    split
    · rfl
    · rfl
  have hcommand : (motionDropPaused (motionAlign input s).fetched).control.commandCounts
      = (motionAlign input s).control.commandCounts := by
    rw [motionDropPaused_commandCounts]
    rfl
  have hserve : s.dispatched input
      = motionRequestApply input s.request (motionAlign input s).fetched := by
    rw [Motion.dispatched, motionServe, motionRequestFetch, motionAlign_request, if_pos hpending]
    rw [Motion.fetched, motionAlign_request]
  have hok := motionRecipStartInternal_ok input s.request
    (motionDropPaused (motionAlign input s).fetched) (by rw [hparams]; exact hoffset) hzero
    hend (by
      rw [hcommand]
      rw [Plans] at hplans
      rw [← hplans]
      apply motionTrajectoryStart_result
      apply hparams)
  rw [hserve, motionRequestApply, haction]
  dsimp only
  rw [motionStart, if_pos hmode]
  rcases motionRecipStartInternal_cases input s.request
    (motionDropPaused (motionAlign input s).fetched) with
    ⟨offsetCounts', endCounts', t, hoffset', -, hend', hfresh, heq⟩ | ⟨result, t, r, hne, heq⟩
  · rw [hparams, hoffset] at hoffset'
    cases hoffset'
    rw [hend] at hend'
    cases hend'
    rw [heq, motionDropPaused_launched]
    dsimp only
    refine ⟨?_, _, hfresh⟩
    constructor
    · use 0
      constructor
      · apply Motion.motionAlign_initialized
      · rfl
      · rw [motionDropPaused_motorParams] at hparams
        apply hparams
      · rfl
      · rfl
      · rfl
      · rfl
      · rfl
    · apply hfresh.active
    · apply hfresh.target
    · intro hw
      rcases hfresh.flags with ⟨-, hw', -, -⟩ | ⟨-, -, hcounts⟩
      · exact absurd (hw'.symm.trans hw) (by decide)
      · rw [hcommand] at hcounts
        apply hcounts
    · rfl
    · intro hrepeat
      have hpos := UInt32.pos_iff_ne_zero.mpr hrepeat
      rw [UInt32.lt_iff_toNat_lt] at hpos
      simpa using hpos
  · rw [heq] at hok
    exact absurd hok hne

omit [PositiveRoots F] in
/-- A fresh trajectory is not completed in its first cycle. -/
theorem motionSegmentProcess_of_fresh {s : Motion F} {startCounts targetCounts : Int32}
    (h : s.trajectory.Fresh startCounts targetCounts) (input : PdoInput) :
  (motionSegmentProcess input s).1 ≠ .done
  := by
  have hstable : s.arrived.trajectory.actualStableCycles = 0 := by
    rw [Motion.arrived]
    split
    · rfl
    · apply h.stable
  have hstep := motionSegmentProcess_step input s h.active
  revert hstep
  generalize motionSegmentProcess input s = x
  intro hstep
  cases hstep with
  | settled _ last =>
      rw [hstable] at last
      exact absurd last (by decide)
  | _ => intro hdone; cases hdone

/-- The call that applies the request starts the first leg, and does not complete it. -/
theorem onLeg_first {input : PdoInput} {s : Motion F} {offsetCounts endCounts : Int32}
    (hready : input.servoReady = true)
    (hpending : s.request.pending = true) (haction : s.request.action = .actionStart)
    (hmode : s.request.mode = .recip)
    (hoffset : motionMmToCounts s.motorParams s.request.positionMm = .ok offsetCounts)
    (hzero : offsetCounts ≠ 0)
    (hend : countsOfInt64 (input.currentPosition.toInt + offsetCounts.toInt) = .ok endCounts)
    (hplans : (ofRequest s input.currentPosition endCounts).Plans
      (motionAlign input s).control.commandCounts endCounts) :
  (ofRequest s input.currentPosition endCounts).OnLeg 0 (motionUpdate input s)
    ∧ s.completesSegment input = false
  := by
  obtain ⟨hleg, startCounts, hfresh⟩ := onLeg_dispatched hpending haction hmode hoffset hzero
    hend hplans
  have hdone := motionSegmentProcess_of_fresh hfresh input
  obtain ⟨waitCycles, hruns⟩ := hleg.runs
  constructor
  · -- the motion advances as if the request had been applied before the call
    have hupdate : motionUpdate input s = motionUpdate input (s.dispatched input) := by
      rw [motionUpdate_of_empty _ hready hruns.initialized hruns.empty, motionUpdate,
        if_pos hready]
      rfl
    have hstep := motionSegmentProcess_step input _ hleg.active
    rw [hupdate]
    rcases hx : motionSegmentProcess input (s.dispatched input) with ⟨result, s₁⟩
    rw [hx] at hstep hdone
    cases result with
    | running => apply hleg.next_running hready hx
    | error => cases hstep
    | done => contradiction
  · rw [Motion.completesSegment, decide_eq_false hdone, Bool.and_false]

end Reciprocation

end Completes

end EthercatMaster
