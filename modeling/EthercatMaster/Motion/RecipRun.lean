import EthercatMaster.Motion.Reciprocation
import Mathlib.Data.Nat.Count

/-!
# Runs of a reciprocation

The order of the legs, the length of the dwells, the count of the completed rounds and the end
of a reciprocation, over a sequence of ready calls of the scheduler.
-/

namespace EthercatMaster

variable {F : Type} [FloatArith F] [PositiveRoots F]

/-- The state after a number of calls of the scheduler. -/
def Motion.afterCalls (s : Motion F) (feedback : ℕ → PdoInput) : ℕ → Motion F
  | 0 => s
  | n + 1 => motionUpdate (feedback n) (s.afterCalls feedback n)

/-- Call `n` completes a leg. -/
def Motion.completesAt (s : Motion F) (feedback : ℕ → PdoInput) (n : ℕ) : Bool :=
  (s.afterCalls feedback n).completesSegment (feedback n)

/-- The number of legs completed before call `n`. -/
def Motion.legsBefore (s : Motion F) (feedback : ℕ → PdoInput) (n : ℕ) : ℕ :=
  Nat.count (fun i => s.completesAt feedback i = true) n

/-- Call `n`, which is not the call that applies the request, starts a leg: it enters a stage of
moving that it was not in. -/
def Motion.StartsLeg (s : Motion F) (feedback : ℕ → PdoInput) (n : ℕ) : Prop :=
  0 < n ∧ (s.afterCalls feedback (n + 1)).recip.stage.IsMove
    ∧ (s.afterCalls feedback (n + 1)).recip.stage ≠ (s.afterCalls feedback n).recip.stage

/-- The course of a reciprocation `d` that is started by call `0`. -/
structure Reciprocation.Course (d : Reciprocation F) (s : Motion F)
    (feedback : ℕ → PdoInput) : Prop where
  /-- The two positions never change. -/
  counts : ∀ n, (s.afterCalls feedback (n + 1)).recip.startCounts = d.startCounts
    ∧ (s.afterCalls feedback (n + 1)).recip.endCounts = d.endCounts
  /-- The first call starts a leg to the end. -/
  first : (s.afterCalls feedback 1).recip.stage = .moveOut
    ∧ (s.afterCalls feedback 1).control.targetCounts = d.endCounts
  /-- The legs go to the end and to the start in turn, by the number of legs completed. -/
  target : ∀ n, (s.afterCalls feedback (n + 1)).recip.stage.IsMove →
    (s.afterCalls feedback (n + 1)).control.targetCounts = d.target (s.legsBefore feedback (n + 1))
      ∧ (s.afterCalls feedback (n + 1)).trajectory.targetCounts
        = d.target (s.legsBefore feedback (n + 1))
  /-- After a leg that is not the last, the interval is spent waiting, and then the next leg is
  started. -/
  dwell : ∀ n, s.completesAt feedback n = true → ¬ d.IsLast (s.legsBefore feedback n) →
    (∀ i, i < d.wait (s.legsBefore feedback n) →
      (s.afterCalls feedback (n + 1 + i)).recip.stage.IsWait)
      ∧ s.StartsLeg feedback (n + d.wait (s.legsBefore feedback n))
  /-- No leg is started otherwise. -/
  start : ∀ n, s.StartsLeg feedback n → ∃ i, s.completesAt feedback i = true
    ∧ n = i + d.wait (s.legsBefore feedback i)
  /-- The count of rounds starts at zero and increases by one exactly when a return leg is
  completed. -/
  completed : (s.afterCalls feedback 1).recip.completedCount = 0
    ∧ ∀ n, (s.afterCalls feedback (n + 2)).recip.completedCount
      = (s.afterCalls feedback (n + 1)).recip.completedCount
        + if s.completesAt feedback (n + 1) = true ∧ ¬ Even (s.legsBefore feedback (n + 1)) then 1
          else 0
  /-- With a repeat count, the motion is done exactly when so many rounds have been completed,
  and then the start is commanded. -/
  done : d.repeatCount ≠ 0 → ∀ n,
    ((s.afterCalls feedback (n + 1)).control.done = true
        ↔ (s.afterCalls feedback (n + 1)).recip.completedCount = d.repeatCount)
      ∧ ((s.afterCalls feedback (n + 1)).control.done = true
        ↔ s.legsBefore feedback (n + 1) = 2 * d.repeatCount.toNat)
      ∧ ((s.afterCalls feedback (n + 1)).control.done = true →
        (s.afterCalls feedback (n + 1)).control.commandCounts = d.startCounts)
      ∧ (s.afterCalls feedback (n + 1)).control.busy
        = !(s.afterCalls feedback (n + 1)).control.done
  /-- Without a repeat count, the motion never ends. -/
  forever : d.repeatCount = 0 → ∀ n, (s.afterCalls feedback (n + 1)).control.busy = true
    ∧ (s.afterCalls feedback (n + 1)).control.done = false

namespace Reciprocation

variable {d : Reciprocation F}

omit [FloatArith F] [PositiveRoots F] in
/-- What can be read off a phase. -/
theorem At.facts {s : Motion F} {phase : RecipPhase} (h : d.At s phase) :
  s.recip.startCounts = d.startCounts ∧ s.recip.endCounts = d.endCounts
    ∧ s.recip.completedCount = UInt32.ofNat (d.legsOf phase / 2)
    ∧ (s.recip.stage.IsMove → phase = .leg (d.legsOf phase))
    ∧ s.control.busy = !s.control.done
    ∧ (s.control.done = true ↔ phase = .finished)
  := by
  cases phase with
  | leg k =>
      obtain ⟨waitCycles, hruns⟩ := OnLeg.runs h
      rw [hruns.recip, hruns.busy, hruns.undone]
      exact ⟨rfl, rfl, rfl, fun _ => rfl, rfl, by simp⟩
  | dwell k left =>
      have hruns := Dwells.runs h
      rw [hruns.recip, hruns.busy, hruns.undone]
      refine ⟨rfl, rfl, rfl, ?_, rfl, by simp⟩
      intro hmove
      exact absurd hmove (waitStage_not_isMove k)
  | finished =>
      have hfinished : d.Finished s := h
      rw [hfinished.idle, hfinished.done, hfinished.stage]
      refine ⟨hfinished.counts.1, hfinished.counts.2, ?_, ?_, rfl, by simp⟩
      · rw [hfinished.completed, legsOf, Nat.mul_div_cancel_left _ (by decide),
          UInt32.ofNat_toNat]
      · intro hmove
        exact absurd hmove (by decide)

omit [FloatArith F] [PositiveRoots F] in
/-- With a repeat count, only a finished reciprocation has completed so many legs. -/
theorem At.legsOf_lt {s : Motion F} {phase : RecipPhase} (h : d.At s phase)
    (hrepeat : d.repeatCount ≠ 0) (hphase : phase ≠ .finished) :
  d.legsOf phase < 2 * d.repeatCount.toNat
  := by
  cases phase with
  | leg k => apply OnLeg.bound h hrepeat
  | dwell k left => apply Dwells.bound h hrepeat
  | finished => contradiction

/-- A call counts the leg it completes. -/
theorem At.legsOf_next {s : Motion F} {phase : RecipPhase} (h : d.At s phase)
    (input : PdoInput) :
  d.legsOf (d.next (s.completesSegment input) phase)
    = d.legsOf phase + if s.completesSegment input = true then 1 else 0
  := by
  cases phase with
  | leg k =>
      cases s.completesSegment input with
      | false => rfl
      | true =>
          rw [Reciprocation.next, if_pos rfl, if_pos rfl, afterLeg]
          split
          · rename_i hlast
            exact hlast.2.symm
          split
          · rfl
          · rfl
  | dwell k left =>
      rw [Dwells.completesSegment h, Reciprocation.next]
      split
      · rfl
      · rfl
  | finished =>
      rw [Finished.completesSegment h]
      rfl

/-- A call that completes a leg finds a leg. -/
theorem At.leg_of_completes {s : Motion F} {phase : RecipPhase} (h : d.At s phase)
    {input : PdoInput} (hcompletes : s.completesSegment input = true) :
  phase = .leg (d.legsOf phase)
  := by
  cases phase with
  | leg k => rfl
  | dwell k left =>
      rw [Dwells.completesSegment h] at hcompletes
      cases hcompletes
  | finished =>
      rw [Finished.completesSegment h] at hcompletes
      cases hcompletes

/-- The first call has started the reciprocation, and the later calls are ready. -/
structure Started (d : Reciprocation F) (s : Motion F) (feedback : ℕ → PdoInput) : Prop where
  ready : ∀ n, (feedback n).servoReady = true
  plans : d.PlansLegs
  leg : d.OnLeg 0 (s.afterCalls feedback 1)
  uncompleted : s.completesAt feedback 0 = false

variable {s : Motion F} {feedback : ℕ → PdoInput}

theorem legsBefore_succ (s : Motion F) (feedback : ℕ → PdoInput) (n : ℕ) :
  s.legsBefore feedback (n + 1)
    = s.legsBefore feedback n + if s.completesAt feedback n = true then 1 else 0
  := Nat.count_succ _ n

/-- The phase after every call; a dwell goes back to a completed leg. -/
theorem Started.phase (h : d.Started s feedback) (n : ℕ) :
  ∃ phase, d.At (s.afterCalls feedback (n + 1)) phase
    ∧ d.legsOf phase = s.legsBefore feedback (n + 1)
    ∧ ∀ k left, phase = .dwell k left → ∃ i, s.completesAt feedback i = true
      ∧ s.legsBefore feedback i = k ∧ i + d.wait k = n + left
  := by
  induction n with
  | zero =>
      refine ⟨.leg 0, h.leg, ?_, ?_⟩
      · rw [legsBefore_succ, h.uncompleted]
        rfl
      · rintro k left ⟨⟩
  | succ n ih =>
      obtain ⟨phase, hat, hlegs, hsince⟩ := ih
      refine ⟨_, hat.next h.plans (h.ready (n + 1)), ?_, ?_⟩
      · rw [hat.legsOf_next, hlegs, legsBefore_succ s feedback (n + 1)]
        rfl
      · intro k left hphase
        cases phase with
        | leg k' =>
            -- the dwell begins in this call
            cases hcompletes : (s.afterCalls feedback (n + 1)).completesSegment
              (feedback (n + 1)) with
            | false =>
                rw [hcompletes] at hphase
                cases hphase
            | true =>
                rw [hcompletes, Reciprocation.next, if_pos rfl, afterLeg] at hphase
                split at hphase
                · cases hphase
                split at hphase
                · cases hphase
                cases hphase
                exact ⟨n + 1, hcompletes, hlegs.symm, rfl⟩
        | dwell k' left' =>
            obtain ⟨i, hcompletes, hk, hi⟩ := hsince k' left' rfl
            rw [Reciprocation.next] at hphase
            split at hphase
            · cases hphase
            cases hphase
            exact ⟨i, hcompletes, hk, by omega⟩
        | finished => cases hphase

/-- A call that completes a leg is not the first one, and finds the leg under way. -/
theorem Started.onLeg (h : d.Started s feedback) {n : ℕ}
    (hcompletes : s.completesAt feedback n = true) :
  0 < n ∧ d.OnLeg (s.legsBefore feedback n) (s.afterCalls feedback n)
  := by
  cases n with
  | zero =>
      rw [h.uncompleted] at hcompletes
      cases hcompletes
  | succ n =>
      obtain ⟨phase, hat, hlegs, -⟩ := h.phase n
      have hleg := hat.leg_of_completes hcompletes
      rw [hleg, hlegs] at hat
      exact ⟨Nat.succ_pos n, hat⟩

/-- The stage of the next leg is another one. -/
theorem legStage_succ_ne {F : Type} (d : Reciprocation F) (k : ℕ) :
  legStage (k + 1) ≠ legStage k
  := by
  by_cases heven : Even k
  · obtain ⟨-, -, hstage, hstage', -⟩ := d.target_even heven
    rw [hstage, hstage']
    decide
  · obtain ⟨-, -, hstage, hstage', -⟩ := d.target_odd heven
    rw [hstage, hstage']
    decide

/-- During a dwell, the calls left are counted down. -/
theorem Started.dwells (h : d.Started s feedback) {n k : ℕ}
    (hdwells : d.Dwells k (d.wait k) (s.afterCalls feedback (n + 1))) {i : ℕ}
    (hi : i < d.wait k) :
  d.Dwells k (d.wait k - i) (s.afterCalls feedback (n + 1 + i))
  := by
  induction i with
  | zero => apply hdwells
  | succ i ih =>
      have hnext := (ih (by omega)).next h.plans (h.ready (n + 1 + i)) false
      rw [Reciprocation.next, if_neg (by omega), Nat.sub_sub] at hnext
      apply hnext

omit [PositiveRoots F] [FloatArith F] in
theorem OnLeg.stage {k : ℕ} {s : Motion F} (h : d.OnLeg k s) :
  s.recip.stage = legStage k
  := by
  obtain ⟨waitCycles, hruns⟩ := h.runs
  rw [hruns.recip]
  rfl

omit [PositiveRoots F] [FloatArith F] in
theorem Dwells.stage {k left : ℕ} {s : Motion F} (h : d.Dwells k left s) :
  s.recip.stage = waitStage k
  := by
  rw [h.runs.recip]
  rfl

theorem waitStage_isWait (k : ℕ) :
  (waitStage k).IsWait
  := by
  rw [waitStage]
  split
  · exact Or.inl rfl
  · exact Or.inr rfl

/-- After a leg that is not the last, the interval is spent waiting and the next leg is
started. -/
theorem Started.dwell (h : d.Started s feedback) {n : ℕ}
    (hcompletes : s.completesAt feedback n = true)
    (hlast : ¬ d.IsLast (s.legsBefore feedback n)) :
  (∀ i, i < d.wait (s.legsBefore feedback n) →
      (s.afterCalls feedback (n + 1 + i)).recip.stage.IsWait)
    ∧ s.StartsLeg feedback (n + d.wait (s.legsBefore feedback n))
  := by
  obtain ⟨hn, hleg⟩ := h.onLeg hcompletes
  generalize s.legsBefore feedback n = k at *
  have hnext := hleg.next h.plans (h.ready n)
  have hsegment : (s.afterCalls feedback n).completesSegment (feedback n) = true := hcompletes
  rw [hsegment, Reciprocation.next, if_pos rfl, afterLeg, if_neg hlast] at hnext
  by_cases hwait : d.wait k = 0
  · rw [if_pos hwait] at hnext
    have hleg' : d.OnLeg (k + 1) (s.afterCalls feedback (n + 1)) := hnext
    rw [show n + d.wait k = n by omega]
    refine ⟨fun i hi => absurd hi (by omega), hn, ?_, ?_⟩
    · rw [hleg'.stage]
      apply legStage_isMove
    · rw [hleg'.stage, hleg.stage]
      apply legStage_succ_ne d
  · rw [if_neg hwait] at hnext
    have hdwells : d.Dwells k (d.wait k) (s.afterCalls feedback (n + 1)) := hnext
    constructor
    · intro i hi
      rw [(h.dwells hdwells hi).stage]
      apply waitStage_isWait
    · -- the last call of the dwell
      have hlastCall := h.dwells hdwells (i := d.wait k - 1) (by omega)
      rw [show d.wait k - (d.wait k - 1) = 1 by omega,
        show n + 1 + (d.wait k - 1) = n + d.wait k by omega] at hlastCall
      have hleg' : d.OnLeg (k + 1) (s.afterCalls feedback (n + d.wait k + 1)) :=
        hlastCall.next h.plans (h.ready _) false
      refine ⟨by omega, ?_, ?_⟩
      · rw [hleg'.stage]
        apply legStage_isMove
      · rw [hleg'.stage, hlastCall.stage]
        intro heq
        apply waitStage_not_isMove k
        rw [← heq]
        apply legStage_isMove

/-- A leg is started only so. -/
theorem Started.start (h : d.Started s feedback) {n : ℕ} (hstart : s.StartsLeg feedback n) :
  ∃ i, s.completesAt feedback i = true ∧ n = i + d.wait (s.legsBefore feedback i)
  := by
  obtain ⟨hn, hmove, hne⟩ := hstart
  obtain ⟨n, rfl⟩ : ∃ m, n = m + 1 := ⟨n - 1, by omega⟩
  obtain ⟨phase, hat, hlegs, hsince⟩ := h.phase n
  have hnext := hat.next h.plans (h.ready (n + 1))
  have hphase := hnext.facts.2.2.2.1 hmove
  cases phase with
  | leg k =>
      cases hcompletes : (s.afterCalls feedback (n + 1)).completesSegment (feedback (n + 1)) with
      | false =>
          rw [hcompletes] at hnext
          have hsame : d.OnLeg k (s.afterCalls feedback (n + 2)) := hnext
          exfalso
          apply hne
          rw [hsame.stage, OnLeg.stage hat]
      | true =>
          refine ⟨n + 1, hcompletes, ?_⟩
          rw [hcompletes, Reciprocation.next, if_pos rfl, afterLeg] at hphase
          rw [← hlegs, legsOf]
          split at hphase
          · cases hphase
          split at hphase
          · rename_i hwait
            rw [hwait]
          · cases hphase
  | dwell k left =>
      obtain ⟨i, hcompletes, rfl, hi⟩ := hsince k left rfl
      refine ⟨i, hcompletes, ?_⟩
      have hpos := Dwells.pos hat
      rw [Reciprocation.next] at hphase
      split at hphase
      · omega
      · cases hphase
  | finished => cases hphase

/-- The course of a reciprocation that has been started. -/
theorem Started.course (h : d.Started s feedback) :
  d.Course s feedback
  := by
  constructor
  · intro n
    obtain ⟨phase, hat, -, -⟩ := h.phase n
    exact ⟨hat.facts.1, hat.facts.2.1⟩
  · exact ⟨h.leg.stage, h.leg.control⟩
  · intro n hmove
    obtain ⟨phase, hat, hlegs, -⟩ := h.phase n
    rw [hat.facts.2.2.2.1 hmove, hlegs] at hat
    exact ⟨OnLeg.control hat, OnLeg.target hat⟩
  · intro n hcompletes hlast
    apply h.dwell hcompletes hlast
  · intro n hstart
    apply h.start hstart
  · constructor
    · obtain ⟨waitCycles, hruns⟩ := h.leg.runs
      rw [hruns.recip]
      rfl
    · intro n
      obtain ⟨phase, hat, hlegs, -⟩ := h.phase n
      obtain ⟨phase', hat', hlegs', -⟩ := h.phase (n + 1)
      rw [hat.facts.2.2.1, hat'.facts.2.2.1, hlegs, hlegs', legsBefore_succ s feedback (n + 1)]
      generalize s.legsBefore feedback (n + 1) = k
      cases s.completesAt feedback (n + 1) with
      | false => simp
      | true =>
          by_cases heven : Even k
          · rw [if_pos rfl, if_neg (by simp [heven]),
              show (k + 1) / 2 = k / 2 by obtain ⟨m, rfl⟩ := heven; omega, UInt32.add_zero]
          · rw [if_pos rfl, if_pos ⟨rfl, heven⟩,
              show (k + 1) / 2 = k / 2 + 1 by
                obtain ⟨m, rfl⟩ := Nat.not_even_iff_odd.mp heven
                omega, UInt32.ofNat_add]
            rfl
  · intro hrepeat n
    obtain ⟨phase, hat, hlegs, -⟩ := h.phase n
    obtain ⟨-, -, hcompleted, -, hbusy, hdone⟩ := hat.facts
    rw [hdone, hcompleted, ← hlegs]
    refine ⟨?_, ?_, ?_, hbusy⟩
    · constructor
      · rintro rfl
        rw [legsOf, Nat.mul_div_cancel_left _ (by decide), UInt32.ofNat_toNat]
      · intro heq
        by_contra hphase
        have hlt := hat.legsOf_lt hrepeat hphase
        have hrepeatLt := d.repeatCount.toNat_lt
        rw [← UInt32.toNat_inj, UInt32.toNat_ofNat_of_lt' (by
          rw [show UInt32.size = 2 ^ 32 from rfl]
          omega)] at heq
        omega
    · constructor
      · rintro rfl
        rfl
      · intro heq
        by_contra hphase
        have hlt := hat.legsOf_lt hrepeat hphase
        omega
    · rintro rfl
      apply Finished.arrived hat
  · intro hrepeat n
    obtain ⟨phase, hat, -, -⟩ := h.phase n
    obtain ⟨-, -, -, -, hbusy, hdone⟩ := hat.facts
    have hnot : ¬ (s.afterCalls feedback (n + 1)).control.done = true := by
      rw [hdone]
      rintro rfl
      exact Finished.repeats hat hrepeat
    rw [hbusy, Bool.eq_false_iff.mpr hnot]
    exact ⟨rfl, rfl⟩

/-- The course of a reciprocation, for every pending request for one whose legs can be planned,
and every sequence of ready calls. -/
theorem recip_course (s : Motion F) (feedback : ℕ → PdoInput) (offsetCounts endCounts : Int32)
    (hpending : s.request.pending = true) (haction : s.request.action = .actionStart)
    (hmode : s.request.mode = .recip)
    (hoffset : motionMmToCounts s.motorParams s.request.positionMm = .ok offsetCounts)
    (hzero : offsetCounts ≠ 0)
    (hend : countsOfInt64 ((feedback 0).currentPosition.toInt + offsetCounts.toInt)
      = .ok endCounts)
    (hfirst : (ofRequest s (feedback 0).currentPosition endCounts).Plans
      (motionAlign (feedback 0) s).control.commandCounts endCounts)
    (hplans : (ofRequest s (feedback 0).currentPosition endCounts).PlansLegs)
    (hready : ∀ n, (feedback n).servoReady = true) :
  (ofRequest s (feedback 0).currentPosition endCounts).Course s feedback
  := by
  apply Started.course
  obtain ⟨hleg, huncompleted⟩ := onLeg_first (hready 0) hpending haction hmode hoffset hzero hend
    hfirst
  exact ⟨hready, hplans, hleg, huncompleted⟩

end Reciprocation

/-- The motion after a reciprocation over two counts, with one round and an interval of three
milliseconds, has been submitted. -/
def submittedRecip : Motion ℚ :=
  (System.machine.run
    [.motorParamsSet System.unitMotorParams, .pdo (System.readyArea 0),
      .validate 0 (.recipStart 2 1 1 2 3 0 1), .submit 0]).motion

theorem Reciprocation.recip_course_submitted :
  (Reciprocation.ofRequest submittedRecip 0 2).Course submittedRecip
    (fun _ => System.readyInput 0)
  := by
  have hplans : (ofRequest submittedRecip 0 2).PlansLegs := by
    intro k
    by_cases heven : Even k
    · obtain ⟨htarget, htarget', -⟩ := (ofRequest submittedRecip 0 2).target_even heven
      rw [htarget, htarget', Plans]
      decide +kernel
    · obtain ⟨htarget, htarget', -⟩ := (ofRequest submittedRecip 0 2).target_odd heven
      rw [htarget, htarget', Plans]
      decide +kernel
  apply recip_course submittedRecip (fun _ => System.readyInput 0) 2 2
  · decide +kernel
  · decide +kernel
  · decide +kernel
  · decide +kernel
  · decide
  · decide +kernel
  · rw [Plans]
    decide +kernel
  · apply hplans
  · intro n
    decide

end EthercatMaster
