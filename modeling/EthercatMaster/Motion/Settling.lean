import EthercatMaster.Motion.Target

/-!
# The confirmation of the actual position

A motion segment is completed when the actual position has been within the tolerance of its
target in ten calls of `motion_segment_process`.  The count goes with the calls that reach
`motion_segment_process`: a call that finds the servo not ready, or the motion paused, does not
examine the actual position.
-/

namespace EthercatMaster

variable {F : Type}

/-! ### The count and the positions behind it -/

/-- The count of stable cycles of a waiting trajectory is backed by the most recent of the
inputs examined, most recent first: in each of them the actual position was in position. -/
def Motion.Settled (s : Motion F) (examined : List PdoInput) : Prop :=
  s.trajectory.waitingActual = true →
    s.trajectory.actualStableCycles < motionPositionStableCycles
      ∧ s.trajectory.actualStableCycles.toNat ≤ examined.length
      ∧ ∀ input ∈ examined.take s.trajectory.actualStableCycles.toNat,
        inPosition input s.trajectory.targetCounts = true

theorem settled_of_not_waiting {s : Motion F} (h : s.trajectory.waitingActual = false)
    (examined : List PdoInput) :
  s.Settled examined
  := by
  intro hw
  rw [h] at hw
  cases hw

/-- A count of zero needs no inputs. -/
theorem settled_of_zero {s : Motion F} (h : s.trajectory.actualStableCycles = 0)
    (examined : List PdoInput) :
  s.Settled examined
  := by
  intro _
  rw [h]
  refine ⟨by decide, Nat.zero_le _, ?_⟩
  intro input hinput
  rw [UInt32.toNat_zero, List.take_zero] at hinput
  cases hinput

theorem Motion.Settled.congr {s s' : Motion F} {examined : List PdoInput}
    (h : s.Settled examined) (htrajectory : s'.trajectory = s.trajectory) :
  s'.Settled examined
  := by
  rw [Settled, htrajectory]
  apply h

theorem Motion.GivenUp.settled {s s' : Motion F} {c : MotionControl} (h : s.GivenUp c s')
    (examined : List PdoInput) :
  s'.Settled examined
  := by
  obtain ⟨t, r, ht, -, -, rfl⟩ := h
  apply settled_of_not_waiting ht.2

/-- A count below the limit does not wrap. -/
theorem toNat_add_one_of_lt {n : UInt32} (h : n < motionPositionStableCycles) :
  (n + 1).toNat = n.toNat + 1
  := by
  have hlt : n.toNat < 10 := UInt32.lt_iff_toNat_lt.mp h
  rw [UInt32.toNat_add, UInt32.toNat_one, Nat.mod_eq_of_lt (by omega)]

/-- The state in which the actual position is examined is settled, since a trajectory arrives
with the count zero. -/
theorem Motion.Settled.arrived {s : Motion F} {examined : List PdoInput}
    (h : s.Settled examined) (hactive : s.trajectory.Active) :
  s.arrived.Settled examined ∧ s.arrived.trajectory.waitingActual = true
    ∧ s.arrived.trajectory.targetCounts = s.trajectory.targetCounts
  := by
  rw [Motion.arrived]
  rcases hactive with ⟨hr, -, -⟩ | ⟨hr, hw⟩
  · rw [if_pos hr]
    refine ⟨?_, rfl, rfl⟩
    apply settled_of_zero
    rfl
  · rw [hr]
    exact ⟨h, hw, rfl⟩

/-- An input in position extends the inputs behind the count. -/
theorem Motion.Settled.cons {s : Motion F} {examined : List PdoInput} (h : s.Settled examined)
    (hw : s.trajectory.waitingActual = true) {input : PdoInput}
    (hin : inPosition input s.trajectory.targetCounts = true) :
  s.trajectory.actualStableCycles.toNat + 1 ≤ (input :: examined).length
    ∧ ∀ i ∈ (input :: examined).take (s.trajectory.actualStableCycles.toNat + 1),
      inPosition i s.trajectory.targetCounts = true
  := by
  obtain ⟨-, hlength, hall⟩ := h hw
  constructor
  · rw [List.length_cons]
    omega
  · rw [List.take_succ_cons]
    intro i hi
    rcases List.mem_cons.mp hi with rfl | hi
    · apply hin
    · apply hall i hi

/-- A cycle of a segment keeps the count backed by the inputs examined, and it completes the
segment only after ten inputs in position. -/
theorem SegmentStep.settled_cons {input : PdoInput} {s : Motion F}
    {x : SegmentResult × Motion F} {examined : List PdoInput} (h : SegmentStep input s x)
    (hs : s.Settled examined) (hactive : s.trajectory.Active) :
  x.2.Settled (input :: examined)
    ∧ (x.1 = .done → 10 ≤ (input :: examined).length
      ∧ ∀ i ∈ (input :: examined).take 10, inPosition i s.trajectory.targetCounts = true)
    ∧ (inPosition input s.trajectory.targetCounts = false →
      x.1 = .running
        ∧ (x.2.trajectory.waitingActual = true → x.2.trajectory.actualStableCycles = 0))
  := by
  obtain ⟨hsettled, hwaiting, htarget⟩ := hs.arrived hactive
  obtain ⟨hlt, -, -⟩ := hsettled hwaiting
  have hsucc := toNat_add_one_of_lt hlt
  cases h with
  | moving c running left =>
      have hw : s.trajectory.waitingActual = false := by
        rcases hactive with ⟨-, hw, -⟩ | ⟨hr, -⟩
        · apply hw
        · rw [running] at hr
          cases hr
      refine ⟨?_, by rintro ⟨⟩, ?_⟩
      · apply settled_of_not_waiting
        apply hw
      · intro _
        refine ⟨rfl, ?_⟩
        intro hw'
        exact absurd (hw.symm.trans hw') (by decide)
  | unsettled out =>
      refine ⟨?_, by rintro ⟨⟩, ?_⟩
      · apply settled_of_zero
        rfl
      · intro _
        exact ⟨rfl, fun _ => rfl⟩
  | settling settled left =>
      rw [← htarget] at settled
      obtain ⟨hlength, hall⟩ := hsettled.cons hwaiting settled
      refine ⟨?_, by rintro ⟨⟩, ?_⟩
      · intro _
        refine ⟨left, ?_, ?_⟩
        · rw [show (s.arrived.confirm _ true).trajectory.actualStableCycles
            = s.arrived.trajectory.actualStableCycles + 1 from rfl, hsucc]
          apply hlength
        · rw [show (s.arrived.confirm _ true).trajectory.actualStableCycles
            = s.arrived.trajectory.actualStableCycles + 1 from rfl, hsucc]
          apply hall
      · intro hout
        rw [htarget, hout] at settled
        cases settled
  | settled settled last =>
      rw [← htarget] at settled
      obtain ⟨hlength, hall⟩ := hsettled.cons hwaiting settled
      have hten : s.arrived.trajectory.actualStableCycles.toNat + 1 = 10 := by
        have hlt' : s.arrived.trajectory.actualStableCycles.toNat < 10 :=
          UInt32.lt_iff_toNat_lt.mp hlt
        have hge : 10 ≤ (s.arrived.trajectory.actualStableCycles + 1).toNat :=
          UInt32.le_iff_toNat_le.mp last
        omega
      rw [hten, htarget] at hall
      rw [hten] at hlength
      refine ⟨?_, fun _ => ⟨hlength, hall⟩, ?_⟩
      · apply settled_of_not_waiting
        rfl
      · intro hout
        rw [htarget, hout] at settled
        cases settled

/-! ### One call of the scheduler -/

theorem RequestStep.settled [FloatArith F] {input : PdoInput} {request : MotionRequest F}
    {s s' : Motion F} {examined : List PdoInput} (h : RequestStep input request s s')
    (hs : s.Settled examined) :
  s'.Settled examined
  := by
  cases h with
  | paused _ _ => exact hs.congr rfl
  | resumed _ _ _ => exact hs.congr rfl
  | ignored _ _ => apply hs
  | aborted _ givenUp => apply givenUp.settled
  | single _ _ fresh => exact settled_of_zero fresh.stable examined
  | recip _ _ _ _ _ fresh => exact settled_of_zero fresh.stable examined
  | failed _ givenUp => apply givenUp.settled

section Advance

variable [FloatArith F] [PositiveRoots F]

/-- A cycle in which the trajectory is not advanced keeps the count backed. -/
theorem AdvanceStep.settled {input : PdoInput} {s s' : Motion F} {examined : List PdoInput}
    (h : AdvanceStep input s s') (hs : s.Settled examined) (hsegment : ¬ s.OnSegment) :
  s'.Settled examined
  := by
  cases h with
  | rest _ => apply hs
  | moving busy unpaused mode _ =>
      exact absurd ⟨busy, unpaused, fun hm => absurd hm mode⟩ hsegment
  | finished busy unpaused mode _ =>
      exact absurd ⟨busy, unpaused, fun hm => absurd hm mode⟩ hsegment
  | recip busy unpaused mode step =>
      have hmove : ¬ s.recip.stage.IsMove :=
        fun hmove => hsegment ⟨busy, unpaused, fun _ => hmove⟩
      cases step with
      | moving stage _ => contradiction
      | waiting turn _ _ =>
          rcases turn with ⟨hmove', -⟩ | ⟨-, rfl⟩
          · contradiction
          · exact hs.congr rfl
      | leg _ _ _ fresh => exact settled_of_zero fresh.stable examined
      | finished stage _ _ _ => contradiction
      | failed turn plan => apply (turn.givenUp plan).settled

/-- A cycle in which the trajectory is advanced keeps the count backed, with the input of the
cycle examined. -/
theorem Motion.Consistent.settled_advance {s : Motion F} {examined : List PdoInput}
    (h : s.Consistent) (hs : s.Settled examined) (hsegment : s.OnSegment) (input : PdoInput) :
  (motionAdvance input s).Settled (input :: examined)
  := by
  have hactive := h.active_of_onSegment hsegment
  have hstep := h.advanceStep input
  revert hstep
  generalize motionAdvance input s = s'
  intro hstep
  cases hstep with
  | rest still => exact absurd ⟨hsegment.1, hsegment.2.1⟩ still
  | moving _ _ _ step => apply (step.settled_cons hs hactive).1
  | finished _ _ _ step => exact (step.settled_cons hs hactive).1.congr rfl
  | recip _ _ mode step =>
      have hmove := hsegment.2.2 mode
      have hturn : ∀ s₁, RecipTurn input s s₁ → s₁.Settled (input :: examined) := by
        rintro s₁ (⟨-, hstep⟩ | ⟨hwait, -⟩)
        · apply (hstep.settled_cons hs hactive).1
        · rcases hmove with hm | hm <;> rcases hwait with hw | hw <;> simp [hm] at hw
      cases step with
      | moving _ step => apply (step.settled_cons hs hactive).1
      | waiting turn _ _ => exact (hturn _ turn).congr rfl
      | leg _ _ _ fresh => exact settled_of_zero fresh.stable _
      | finished _ step _ _ => exact (step.settled_cons hs hactive).1.congr rfl
      | failed turn plan => apply (turn.givenUp plan).settled

omit [FloatArith F] [PositiveRoots F] in
theorem motionAlign_trajectory (input : PdoInput) (s : Motion F) :
  (motionAlign input s).trajectory = s.trajectory
  := by
  rw [motionAlign]
  split
  · rfl
  · rfl

/-- Applying the request keeps the count backed. -/
theorem Motion.Settled.dispatched {s : Motion F} {examined : List PdoInput}
    (h : s.Settled examined) (input : PdoInput) :
  (s.dispatched input).Settled examined
  := by
  have halign : (motionAlign input s).Settled examined := by
    apply h.congr
    apply motionAlign_trajectory
  rw [Motion.dispatched]
  rcases motionServe_cases input (motionAlign input s) with ⟨-, heq⟩ | ⟨-, hstep⟩
  · rw [heq]
    apply halign
  · apply hstep.settled
    exact halign.congr rfl

/-- A call that finds the servo not ready, or the motion paused, leaves the trajectory. -/
theorem motionUpdate_trajectory {input : PdoInput} {s : Motion F}
    (h : input.servoReady = false ∨ (s.dispatched input).control.paused = true) :
  (motionUpdate input s).trajectory = s.trajectory
  := by
  have halign := motionAlign_trajectory input s
  rw [motionUpdate]
  split
  · rename_i hready
    have hpaused : (s.dispatched input).control.paused = true := by
      rw [hready] at h
      simpa using h
    have hadvance : motionAdvance input (s.dispatched input) = s.dispatched input := by
      rw [motionAdvance, hpaused, Bool.not_true, Bool.and_false]
      rfl
    rw [← halign]
    rw [Motion.dispatched] at hadvance hpaused
    rw [hadvance]
    rcases motionServe_cases input (motionAlign input s) with ⟨-, heq⟩ | ⟨-, hstep⟩
    · rw [heq]
    · revert hstep hpaused
      generalize motionServe input (motionAlign input s) = s'
      intro hpaused hstep
      cases hstep with
      | paused _ _ => rfl
      | resumed _ _ _ => cases hpaused
      | ignored _ _ => rfl
      | aborted _ givenUp =>
          obtain ⟨t, r, -, -, -, rfl⟩ := givenUp
          cases hpaused
      | single _ _ _ => cases hpaused
      | recip _ _ _ _ _ _ => cases hpaused
      | failed _ givenUp =>
          obtain ⟨t, r, -, -, -, rfl⟩ := givenUp
          cases hpaused
  · apply halign

/-! ### Runs -/

namespace System

/-- The process data a call of the scheduler receives, if they are bound. -/
def received {F : Type} (x : System F) : Event F → Option PdoInput
  | .process => x.area.output1s.bind fun _ => x.area.input1s
  | _ => none

/-- The process data with which a call of the scheduler enters `motion_segment_process`. -/
def examined (x : System F) (e : Event F) : Option PdoInput :=
  (x.received e).filter fun input =>
    input.servoReady && decide (x.motion.dispatched input).OnSegment

/-- What is observed at position `i` of a run. -/
def observedAt (observe : System F → Event F → Option PdoInput) (es : List (Event F)) (i : ℕ) :
    Option PdoInput :=
  es[i]?.bind (observe (machine.before es i))

/-- What is observed before position `i` of a run, most recent first. -/
def observedBefore (observe : System F → Event F → Option PdoInput) (es : List (Event F)) :
    ℕ → List PdoInput
  | 0 => []
  | i + 1 => (observedAt observe es i).toList ++ observedBefore observe es i

/-- The call at position `j` of a run completes a motion segment. -/
def CompletesAt (es : List (Event F)) (j : ℕ) (input : PdoInput) : Prop :=
  observedAt examined es j = some input
    ∧ (motionSegmentProcess input ((motionBefore es j).dispatched input)).1 = .done

/-- A call that receives process data updates the motion. -/
theorem step_of_received {x : System F} {e : Event F} {input : PdoInput}
    (h : x.received e = some input) :
  (x.step e).motion = motionUpdate input x.motion
  := by
  cases e with
  | process =>
      obtain ⟨output, houtput, hinput⟩ := Option.bind_eq_some_iff.mp h
      rw [step, ethercatMotionProcess, hinput, houtput]
  | _ => cases h

/-- A step that receives no process data leaves the trajectory. -/
theorem Valid.step_of_not_received {x : System F} (hvalid : x.Valid) {e : Event F}
    (h : x.received e = none) :
  (x.step e).motion.trajectory = x.motion.trajectory
  := by
  by_cases he : e = .process
  · subst he
    rcases x.step_process_cases with ⟨-, heq⟩ | ⟨input, output, hinput, houtput, -, -⟩
    · rw [heq]
    · rw [received, hinput, houtput] at h
      cases h
  · rcases hvalid.critical_or he with ⟨result, -, hstep⟩ | ⟨-, heq⟩
    · apply hstep.sameMotion.2.1
    · rw [heq]

theorem examined_eq_some_iff {x : System F} {e : Event F} {input : PdoInput} :
  x.examined e = some input ↔ x.received e = some input ∧ input.servoReady = true
    ∧ (x.motion.dispatched input).OnSegment
  := by
  rw [examined, Option.filter_eq_some_iff, Bool.and_eq_true, decide_eq_true_iff]


/-- A step keeps the count backed by the inputs examined. -/
theorem Valid.settled_step {x : System F} (h : x.Valid) {inputs : List PdoInput}
    (hs : x.motion.Settled inputs) (e : Event F) :
  (x.step e).motion.Settled ((x.examined e).toList ++ inputs)
  := by
  cases hreceived : x.received e with
  | none =>
      rw [examined, hreceived]
      exact hs.congr (h.step_of_not_received hreceived)
  | some input =>
      rw [step_of_received hreceived]
      have hserve := hs.dispatched input
      have hconsistent := h.consistent.dispatched h.slot input
      by_cases hready : input.servoReady = true
      · rw [motionUpdate, if_pos hready]
        by_cases hsegment : (x.motion.dispatched input).OnSegment
        · rw [examined_eq_some_iff.mpr ⟨hreceived, hready, hsegment⟩]
          apply hconsistent.settled_advance hserve hsegment
        · rw [examined, hreceived, Option.filter_some, decide_eq_false hsegment, Bool.and_false]
          apply (hconsistent.advanceStep input).settled hserve hsegment
      · rw [motionUpdate, if_neg hready, examined, hreceived, Option.filter_some,
          Bool.eq_false_iff.mpr hready, Bool.false_and]
        exact hs.congr (motionAlign_trajectory input x.motion)

/-- In every state of a run, the count is backed by the inputs examined before. -/
theorem settled_before (es : List (Event F)) (i : ℕ) :
  (motionBefore es i).Settled (observedBefore examined es i)
  := by
  induction i with
  | zero =>
      apply settled_of_not_waiting
      rfl
  | succ i ih =>
      rw [observedBefore, observedAt]
      cases he : es[i]? with
      | none =>
          rw [motionBefore_succ_of_none he]
          apply ih
      | some e =>
          rw [motionBefore_succ he]
          apply (valid_before es i).settled_step ih

/-- What a call that enters `motion_segment_process` finds and does. -/
theorem settled_of_examined {es : List (Event F)} {j : ℕ} {input : PdoInput}
    (h : observedAt examined es j = some input) :
  ((motionBefore es j).dispatched input).OnSegment
    ∧ ((motionBefore es j).dispatched input).trajectory.Active
    ∧ ((motionBefore es j).dispatched input).Settled (observedBefore examined es j)
    ∧ motionBefore es (j + 1) = motionAdvance input ((motionBefore es j).dispatched input)
  := by
  have hvalid := valid_before es j
  obtain ⟨e, he, hexamined⟩ := Option.bind_eq_some_iff.mp h
  obtain ⟨hreceived, hready, hsegment⟩ := examined_eq_some_iff.mp hexamined
  have hconsistent := hvalid.consistent.dispatched hvalid.slot input
  refine ⟨hsegment, hconsistent.active_of_onSegment hsegment, ?_, ?_⟩
  · apply (settled_before es j).dispatched
  · rw [motionBefore_succ he, step_of_received hreceived, motionUpdate, if_pos hready]
    rfl

/-- The law of the actual position, in every run.

A call completes a motion segment only if the actual position is within the tolerance of the
target of the segment in this call and in each of the nine most recent earlier calls that
entered `motion_segment_process`.  One such call out of position restarts the count.  A call
that finds the servo not ready or the motion paused leaves the count as it is. -/
theorem in_position_of_completed (es : List (Event F)) :
  (∀ j input, CompletesAt es j input →
      10 ≤ (observedBefore examined es (j + 1)).length
        ∧ ∀ i ∈ (observedBefore examined es (j + 1)).take 10,
          inPosition i ((motionBefore es j).dispatched input).trajectory.targetCounts = true)
    ∧ (∀ j input, observedAt examined es j = some input →
      inPosition input ((motionBefore es j).dispatched input).trajectory.targetCounts = false →
      ¬ CompletesAt es j input
        ∧ ((motionBefore es (j + 1)).trajectory.waitingActual = true →
          (motionBefore es (j + 1)).trajectory.actualStableCycles = 0))
    ∧ (∀ j input, observedAt received es j = some input →
      input.servoReady = false ∨ ((motionBefore es j).dispatched input).control.paused = true →
      (motionBefore es (j + 1)).trajectory = (motionBefore es j).trajectory)
  := by
  refine ⟨?_, ?_, ?_⟩
  · rintro j input ⟨hexamined, hdone⟩
    obtain ⟨-, hactive, hsettled, -⟩ := settled_of_examined hexamined
    rw [observedBefore, hexamined]
    have hstep := motionSegmentProcess_step input _ hactive
    apply (hstep.settled_cons hsettled hactive).2.1 hdone
  · intro j input hexamined hout
    obtain ⟨hsegment, hactive, hsettled, hafter⟩ := settled_of_examined hexamined
    have hstep := motionSegmentProcess_step input _ hactive
    obtain ⟨hrunning, hzero⟩ := (hstep.settled_cons hsettled hactive).2.2 hout
    constructor
    · rintro ⟨-, hdone⟩
      rw [hrunning] at hdone
      cases hdone
    · rw [hafter, motionAdvance_of_running input _ hsegment hrunning]
      apply hzero
  · intro j input hreceived h
    obtain ⟨e, he, hreceived⟩ := Option.bind_eq_some_iff.mp hreceived
    rw [motionBefore_succ he, step_of_received hreceived]
    apply motionUpdate_trajectory h

end System

end Advance

/-! ### A pause during the confirmation -/

namespace System

/-- A move of no length has been in position for nine calls when it is paused and the axis is
pushed away; the axis is back when the motion is continued. -/
def pausedConfirmation : List (Event ℚ) :=
  submitMove 0 ++ List.replicate 9 .process
  ++ [.motionStop, .pdo (readyArea 1000), .process, .motionContinue, .pdo (readyArea 0), .process]

/-- The segment is completed although the actual position was out of position in the call
before. -/
theorem completed_after_paused_call :
  CompletesAt pausedConfirmation 18 (readyInput 0)
    ∧ ((motionBefore pausedConfirmation 18).dispatched (readyInput 0)).trajectory.targetCounts = 0
    ∧ observedAt received pausedConfirmation 15 = some (readyInput 1000)
    ∧ inPosition (readyInput 1000) 0 = false
    ∧ ¬ ∀ i ∈ (observedBefore received pausedConfirmation 19).take 10, inPosition i 0 = true
  := by
  refine ⟨⟨?_, ?_⟩, ?_, ?_, ?_, ?_⟩
  · decide +kernel
  · decide +kernel
  · decide +kernel
  · decide +kernel
  · decide +kernel
  · decide +kernel

end System

end EthercatMaster
