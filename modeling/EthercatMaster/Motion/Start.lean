import Mathlib.Tactic.NormNum
import EthercatMaster.Library.Rounding
import EthercatMaster.Motion.Step
import EthercatMaster.Motion.System

/-!
# The target of a start

A start converts its position to counts, adds it to the position it refers to and plans a
trajectory to the sum, or it ends with an error.  Over the rationals the conversion rounds to the
nearest count, except for the last half count below `2 ^ 31`: the constant that the check compares
with is `2 ^ 31` itself, and what is converted there is no `int32_t`.
-/

namespace EthercatMaster

open FloatArith

/-! ### The computation of the target -/

section Computation

variable {F : Type} [FloatArith F]

/-- The value that `motion_mm_to_counts` converts to `int32_t`, if it gets that far. -/
def convertedCounts (p : MotorParams F) (positionMm : F) : Option F :=
  if !motionFloatIsFinite positionMm then
    none
  else
    let countsFloat := positionMm * motionCountsPerMmGet p
    if lt int32Max countsFloat || lt countsFloat int32Min then
      none
    else if le (lit 0) countsFloat then
      some (countsFloat + lit 0.5)
    else
      some (countsFloat - lit 0.5)

/-- The target that `motion_single_start` and `motion_recip_start_internal` compute. -/
def startTarget (input : PdoInput) (request : MotionRequest F) (s : Motion F) :
    Except MotionResult Int32 :=
  if request.mode = .recip then
    match motionMmToCounts s.motorParams request.positionMm with
    | .error result => .error result
    | .ok offsetCounts =>
        if offsetCounts = 0 then .error .errParam
        else countsOfInt64 (input.currentPosition.toInt + offsetCounts.toInt)
  else
    motionPositionTargetGet input s request.mode request.absoluteReference request.positionMm

/-- The planner accepts the way to a target. -/
def StartPlans [PositiveRoots F] (request : MotionRequest F) (s : Motion F)
    (targetCounts : Int32) : Prop :=
  (motionTrajectoryStart s.control.commandCounts targetCounts request.velocityMmS
    request.accelerationMmS2 request.jerkMmS3 s).1 = .ok

/-- The state of a start that was carried out, with its target. -/
structure Started (request : MotionRequest F) (targetCounts : ℤ) (s : Motion F) : Prop where
  busy : s.control.busy = true
  error : s.control.error = false
  control : s.control.targetCounts.toInt = targetCounts
  trajectory : s.trajectory.targetCounts.toInt = targetCounts
  recip : request.mode = .recip → s.recip.endCounts.toInt = targetCounts

/-- The state after a start that ended with an error. -/
structure Refused (input : PdoInput) (s : Motion F) : Prop where
  error : s.control.error = true
  busy : s.control.busy = false
  running : s.trajectory.running = false
  waiting : s.trajectory.waitingActual = false
  active : s.recip.active = false
  stage : s.recip.stage = .idle
  command : s.control.commandCounts = input.currentPosition

theorem motionMmToCounts_eq (p : MotorParams F) (positionMm : F) :
  (∃ result, convertedCounts p positionMm = none ∧ motionMmToCounts p positionMm = .error result)
    ∨ ∃ value, convertedCounts p positionMm = some value
      ∧ motionMmToCounts p positionMm = .ok (toInt32 value)
  := by
  rw [convertedCounts, motionMmToCounts]
  split
  · exact .inl ⟨_, rfl, rfl⟩
  · dsimp only
    split
    · exact .inl ⟨_, rfl, rfl⟩
    · split
      · exact .inr ⟨_, rfl, rfl⟩
      · exact .inr ⟨_, rfl, rfl⟩

variable [PositiveRoots F]

omit [PositiveRoots F] in
theorem startTarget_motionDropPaused (input : PdoInput) (request : MotionRequest F)
    (s : Motion F) :
  startTarget input request (motionDropPaused s) = startTarget input request s
  := by
  rw [motionDropPaused]
  split <;> rfl

theorem startPlans_motionDropPaused (request : MotionRequest F) (s : Motion F)
    (targetCounts : Int32) :
  StartPlans request (motionDropPaused s) targetCounts ↔ StartPlans request s targetCounts
  := by
  rw [StartPlans, StartPlans, motionDropPaused_commandCounts,
    motionTrajectoryStart_result (motionDropPaused_motorParams s)]

/-- What a start does with its target: the planner is called, and the motion started if it accepts
the way. -/
theorem motionStart_of_ok {input : PdoInput} {request : MotionRequest F} {s : Motion F}
    {targetCounts : Int32} (h : startTarget input request s = .ok targetCounts) :
  (StartPlans request s targetCounts ∧ ∃ s', motionStart input request s = (.ok, s')
      ∧ Started request targetCounts.toInt s')
    ∨ (¬ StartPlans request s targetCounts ∧ ∃ result s', result ≠ .ok
      ∧ motionStart input request s = (result, s'))
  := by
  rw [startTarget] at h
  rw [motionStart]
  split at h
  · rename_i hmode
    rw [if_pos hmode, motionRecipStartInternal]
    cases hoffset : motionMmToCounts s.motorParams request.positionMm with
    | error result =>
        rw [hoffset] at h
        cases h
    | ok offsetCounts =>
        rw [hoffset] at h
        dsimp only at h ⊢
        split at h
        · cases h
        · rename_i hzero
          have hplans : StartPlans request s targetCounts ↔ (motionRecipMoveStart targetCounts
              { s with
                recip := MotionRecip.ofRequest request input.currentPosition targetCounts }).1
              = .ok := by
            rw [StartPlans, motionRecipMoveStart]
            apply Eq.congr_left
            apply motionTrajectoryStart_result
            rfl
          rw [hplans, if_neg hzero, h]
          dsimp only
          rcases motionRecipMoveStart_cases targetCounts
            { s with recip := MotionRecip.ofRequest request input.currentPosition targetCounts }
            with ⟨t, hfresh, heq⟩ | ⟨segments, heq⟩
          · left
            rw [heq]
            refine ⟨rfl, _, rfl, rfl, rfl, rfl, ?_, ?_⟩
            · apply congrArg Int32.toInt hfresh.target
            · intro _
              rfl
          · right
            rw [heq]
            exact ⟨by rintro ⟨⟩, _, _, by decide, rfl⟩
  · rename_i hmode
    rw [if_neg hmode, motionSingleStart, h]
    dsimp only
    rcases motionTrajectoryStart_cases s.control.commandCounts targetCounts request.velocityMmS
      request.accelerationMmS2 request.jerkMmS3 s with ⟨t, hfresh, heq⟩ | ⟨segments, heq⟩
    · left
      rw [StartPlans, heq]
      refine ⟨rfl, _, rfl, rfl, rfl, rfl, ?_, ?_⟩
      · apply congrArg Int32.toInt hfresh.target
      · intro h
        contradiction
    · right
      rw [StartPlans, heq]
      exact ⟨by rintro ⟨⟩, _, _, by decide, rfl⟩

theorem motionStart_of_error {input : PdoInput} {request : MotionRequest F} {s : Motion F}
    {result : MotionResult} (h : startTarget input request s = .error result) :
  result ≠ .ok ∧ motionStart input request s = (result, s)
  := by
  rw [startTarget] at h
  rw [motionStart]
  split at h
  · rename_i hmode
    rw [if_pos hmode, motionRecipStartInternal]
    cases hoffset : motionMmToCounts s.motorParams request.positionMm with
    | error result' =>
        rw [hoffset] at h
        cases h
        refine ⟨?_, rfl⟩
        rintro rfl
        apply motionMmToCounts_ne_ok _ _ hoffset
    | ok offsetCounts =>
        rw [hoffset] at h
        dsimp only at h ⊢
        split at h
        · rename_i hzero
          cases h
          rw [if_pos hzero]
          exact ⟨by decide, rfl⟩
        · rename_i hzero
          rw [if_neg hzero, h]
          refine ⟨?_, rfl⟩
          rintro rfl
          apply countsOfInt64_ne_ok _ h
  · rename_i hmode
    rw [if_neg hmode, motionSingleStart, h]
    refine ⟨?_, rfl⟩
    rintro rfl
    apply motionPositionTargetGet_ne_ok input s _ _ _ h

omit [FloatArith F] [PositiveRoots F] in
theorem refused_motionFinishError (input : PdoInput) (s : Motion F) :
  Refused input (motionFinishError input s)
  := ⟨rfl, rfl, rfl, rfl, rfl, rfl, rfl⟩

/-- A start is carried out if its target is computed and the planner accepts the way, and it is
refused otherwise. -/
theorem motionRequestApply_start (input : PdoInput) {request : MotionRequest F} (s : Motion F)
    (action : request.action = .actionStart) :
  (∃ targetCounts, startTarget input request s = .ok targetCounts
      ∧ StartPlans request s targetCounts
      ∧ Started request targetCounts.toInt (motionRequestApply input request s))
    ∨ ((∀ targetCounts, startTarget input request s = .ok targetCounts →
        ¬ StartPlans request s targetCounts)
      ∧ Refused input (motionRequestApply input request s))
  := by
  rw [← startTarget_motionDropPaused]
  cases htarget : startTarget input request (motionDropPaused s) with
  | ok targetCounts =>
      simp only [← startPlans_motionDropPaused request s]
      rcases motionStart_of_ok htarget with ⟨hplans, s', hstart, hstarted⟩
        | ⟨hplans, result, s', hresult, hstart⟩
      · left
        rw [motionRequestApply_of_started action hstart]
        exact ⟨targetCounts, rfl, hplans, hstarted⟩
      · right
        rw [motionRequestApply_of_failed action hresult hstart]
        constructor
        · rintro _ ⟨⟩
          exact hplans
        · apply refused_motionFinishError
  | error result =>
      right
      obtain ⟨hresult, hstart⟩ := motionStart_of_error htarget
      rw [motionRequestApply_of_failed action hresult hstart]
      exact ⟨nofun, refused_motionFinishError input _⟩

end Computation

/-! ### Exact arithmetic -/

/-- The position of a start in counts, before it is rounded. -/
def startScaled (request : MotionRequest ℚ) (s : Motion ℚ) : ℚ :=
  request.positionMm * motionCountsPerMmGet s.motorParams

/-- The position of a start in whole counts. -/
noncomputable def startOffset (request : MotionRequest ℚ) (s : Motion ℚ) : ℤ :=
  roundHalfAway (startScaled request s)

/-- The position that a start refers to. -/
def startBase (input : PdoInput) (request : MotionRequest ℚ) (s : Motion ℚ) : ℤ :=
  if request.mode = .moveAbs then
    match request.absoluteReference with
    | .softwareZero => s.softwareZeroCounts.toInt
    | .encoderZero => 0
  else input.currentPosition.toInt

/-- An integer is an `int32_t`. -/
def FitsInt32 (n : ℤ) : Prop :=
  -2 ^ 31 ≤ n ∧ n < 2 ^ 31

/-- A start is to be carried out: its position in counts and its target are in range, a
reciprocation moves, and the planner accepts the way. -/
structure StartAccepted (input : PdoInput) (request : MotionRequest ℚ) (s : Motion ℚ) : Prop where
  low : -2 ^ 31 ≤ startScaled request s
  high : startScaled request s < 2 ^ 31 - 1 / 2
  fits : FitsInt32 (startBase input request s + startOffset request s)
  moves : request.mode = .recip → startOffset request s ≠ 0
  plans : StartPlans request s (Int32.ofInt (startBase input request s + startOffset request s))

/-- A start does what it is to do: it moves to the rounded target or is refused, and it converts no
value to `int32_t` that is none. -/
structure StartComputed (input : PdoInput) (request : MotionRequest ℚ) (s : Motion ℚ) : Prop where
  started : StartAccepted input request s →
    Started request (startBase input request s + startOffset request s)
      (motionRequestApply input request s)
  refused : ¬ StartAccepted input request s → Refused input (motionRequestApply input request s)
  converts : ∀ value, convertedCounts s.motorParams request.positionMm = some value →
    FitsInt32 (truncate value)

/-- The value that is converted, when it is. -/
theorem convertedCounts_eq (p : MotorParams ℚ) (positionMm : ℚ) :
  convertedCounts p positionMm =
    if 2 ^ 31 < positionMm * motionCountsPerMmGet p
      ∨ positionMm * motionCountsPerMmGet p < -2 ^ 31 then none
    else if 0 ≤ positionMm * motionCountsPerMmGet p then
      some (positionMm * motionCountsPerMmGet p + 1 / 2)
    else some (positionMm * motionCountsPerMmGet p - 1 / 2)
  := by
  rw [convertedCounts]
  simp only [motionFloatIsFinite, isFinite, lt, le, lit, int32Max, int32Min, Bool.or_eq_true,
    decide_eq_true_eq, Bool.not_true, Bool.false_eq_true, if_false]
  norm_num

/-- The conversion rounds to the nearest integer. -/
theorem truncate_converted (q : ℚ) :
  truncate (if 0 ≤ q then q + 1 / 2 else q - 1 / 2) = roundHalfAway q
  := by
  split
  · rename_i hq
    have hcast : (0 : ℝ) ≤ q := by exact_mod_cast hq
    rw [truncate_of_nonneg (by linarith), roundHalfAway_of_nonneg hcast, ← Rat.floor_cast (α := ℝ)]
    congr 1
    push_cast
    ring
  · rename_i hq
    have hcast : (q : ℝ) < 0 := by exact_mod_cast not_le.mp hq
    rw [truncate_of_nonpos (by linarith), roundHalfAway_of_neg hcast, ← Rat.ceil_cast (α := ℝ)]
    congr 1
    push_cast
    ring

/-- The value that is converted is truncated to the rounded position, if the position is in the
range of the check. -/
theorem convertedCounts_spec (p : MotorParams ℚ) (positionMm : ℚ) :
  (convertedCounts p positionMm = none
      ∧ (2 ^ 31 < positionMm * motionCountsPerMmGet p
        ∨ positionMm * motionCountsPerMmGet p < -2 ^ 31))
    ∨ ∃ value, convertedCounts p positionMm = some value
      ∧ -2 ^ 31 ≤ positionMm * motionCountsPerMmGet p
      ∧ positionMm * motionCountsPerMmGet p ≤ 2 ^ 31
      ∧ truncate value = roundHalfAway ((positionMm * motionCountsPerMmGet p : ℚ) : ℝ)
  := by
  rw [convertedCounts_eq]
  generalize positionMm * motionCountsPerMmGet p = q
  split
  · rename_i hrange
    exact .inl ⟨rfl, hrange⟩
  · rename_i hrange
    rw [not_or, not_lt, not_lt] at hrange
    right
    rw [← truncate_converted q]
    split
    · exact ⟨_, rfl, hrange.2, hrange.1, rfl⟩
    · exact ⟨_, rfl, hrange.2, hrange.1, rfl⟩

/-- The rounded position is an `int32_t` below the last half count. -/
theorem fitsInt32_roundHalfAway {q : ℚ} (hlow : -2 ^ 31 ≤ q) :
  FitsInt32 (roundHalfAway (q : ℝ)) ↔ q < 2 ^ 31 - 1 / 2
  := by
  have hcast : (-2 ^ 31 : ℝ) ≤ q := by exact_mod_cast hlow
  have hround : -2 ^ 31 ≤ roundHalfAway (q : ℝ) := by
    rw [← roundHalfAway_intCast (-2 ^ 31)]
    apply roundHalfAway_mono
    exact_mod_cast hcast
  rw [FitsInt32, and_iff_right hround]
  rcases le_or_gt 0 (q : ℝ) with hq | hq
  · rw [roundHalfAway_of_nonneg hq, Int.floor_lt]
    constructor
    · intro h
      have hreal : (q : ℝ) < ((2 ^ 31 - 1 / 2 : ℚ) : ℝ) := by
        push_cast at h ⊢
        linarith
      exact_mod_cast hreal
    · intro h
      have hreal : (q : ℝ) < ((2 ^ 31 - 1 / 2 : ℚ) : ℝ) := by exact_mod_cast h
      push_cast at hreal ⊢
      linarith
  · have hnonpos : roundHalfAway (q : ℝ) ≤ roundHalfAway ((0 : ℤ) : ℝ) := by
      apply roundHalfAway_mono
      exact_mod_cast hq.le
    have hneg : q < 0 := by exact_mod_cast hq
    rw [roundHalfAway_intCast] at hnonpos
    apply iff_of_true
    · omega
    · linarith

/-- The sum of counts is an `int32_t`, or an error. -/
theorem countsOfInt64_eq (n : ℤ) :
  (FitsInt32 n ∧ countsOfInt64 n = .ok (Int32.ofInt n))
    ∨ (¬ FitsInt32 n ∧ countsOfInt64 n = .error .errLimit)
  := by
  have hmax : Int32.maxValue.toInt = 2 ^ 31 - 1 := rfl
  have hmin : Int32.minValue.toInt = -2 ^ 31 := rfl
  rw [countsOfInt64, hmax, hmin, FitsInt32]
  split
  · right
    refine ⟨?_, rfl⟩
    omega
  · left
    refine ⟨?_, rfl⟩
    omega

/-- The modes in which a start can be requested. -/
def StartMode (mode : MotionMode) : Prop :=
  mode = .moveAbs ∨ mode = .moveRel ∨ mode = .jog ∨ mode = .recip

/-- Without an offset there is no target. -/
theorem startTarget_of_error {input : PdoInput} {request : MotionRequest ℚ} {s : Motion ℚ}
    {result : MotionResult}
    (h : motionMmToCounts s.motorParams request.positionMm = .error result) :
  ∃ result, startTarget input request s = .error result
  := by
  rw [startTarget, motionPositionTargetGet, h]
  split
  · exact ⟨_, rfl⟩
  · split
    · exact ⟨_, rfl⟩
    · exact ⟨_, rfl⟩

/-- With an offset the target is the sum with the base, but a reciprocation has to move. -/
theorem startTarget_of_ok {input : PdoInput} {request : MotionRequest ℚ} {s : Motion ℚ}
    {offsetCounts : Int32} (hmode : StartMode request.mode)
    (h : motionMmToCounts s.motorParams request.positionMm = .ok offsetCounts) :
  startTarget input request s =
    if request.mode = .recip ∧ offsetCounts = 0 then .error .errParam
    else countsOfInt64 (startBase input request s + offsetCounts.toInt)
  := by
  rw [startTarget, motionPositionTargetGet, startBase, h]
  rcases hmode with hmode | hmode | hmode | hmode
  · rw [hmode]
    cases request.absoluteReference with
    | softwareZero => rfl
    | encoderZero => exact (congrArg countsOfInt64 (Int.zero_add _)).symm
  · rw [hmode]
    rfl
  · rw [hmode]
    rfl
  · rw [hmode, if_pos rfl]
    dsimp only
    split
    · rename_i hzero
      rw [if_pos ⟨rfl, hzero⟩]
    · rename_i hzero
      rw [if_neg (fun hboth => hzero hboth.2)]
      rfl

/-- Outside the last half count, the target of a start is the sum of its base and its rounded
position. -/
theorem startTarget_eq_ok_iff {input : PdoInput} {request : MotionRequest ℚ} {s : Motion ℚ}
    (hmode : StartMode request.mode)
    (hgap : ¬ (2 ^ 31 - 1 / 2 ≤ startScaled request s ∧ startScaled request s ≤ 2 ^ 31))
    (targetCounts : Int32) :
  startTarget input request s = .ok targetCounts ↔
    (-2 ^ 31 ≤ startScaled request s ∧ startScaled request s < 2 ^ 31 - 1 / 2)
      ∧ FitsInt32 (startBase input request s + startOffset request s)
      ∧ (request.mode = .recip → startOffset request s ≠ 0)
      ∧ targetCounts = Int32.ofInt (startBase input request s + startOffset request s)
  := by
  rcases convertedCounts_spec s.motorParams request.positionMm with
    ⟨hnone, hrange⟩ | ⟨value, hsome, hlow, hhigh, htruncate⟩
  · have herror : ∃ result, motionMmToCounts s.motorParams request.positionMm = .error result := by
      rcases motionMmToCounts_eq s.motorParams request.positionMm with
        ⟨result, -, h⟩ | ⟨value, hsome, -⟩
      · exact ⟨result, h⟩
      · cases hnone.symm.trans hsome
    obtain ⟨result, herror⟩ := herror
    obtain ⟨result', htarget⟩ : ∃ result, startTarget input request s = .error result :=
      startTarget_of_error herror
    rw [htarget]
    refine iff_of_false nofun ?_
    rintro ⟨⟨hlow, hhigh⟩, -⟩
    rcases hrange with hrange | hrange
    · have := hrange.trans hhigh
      norm_num at this
    · exact absurd hrange (not_lt.mpr hlow)
  · have hlast : startScaled request s < 2 ^ 31 - 1 / 2 := by
      by_contra hge
      apply hgap ⟨not_lt.mp hge, hhigh⟩
    have hoffset : motionMmToCounts s.motorParams request.positionMm
        = .ok (Int32.ofInt (startOffset request s)) := by
      rcases motionMmToCounts_eq s.motorParams request.positionMm with
        ⟨result, hnone, -⟩ | ⟨value', hsome', h⟩
      · cases hnone.symm.trans hsome
      · obtain rfl := Option.some.inj (hsome.symm.trans hsome')
        rw [h, startOffset, startScaled, ← htruncate]
        rfl
    have hfits : FitsInt32 (startOffset request s) := (fitsInt32_roundHalfAway hlow).mpr hlast
    have htoInt : (Int32.ofInt (startOffset request s)).toInt = startOffset request s :=
      Int32.toInt_ofInt_of_le hfits.1 hfits.2
    have hzero : Int32.ofInt (startOffset request s) = 0 ↔ startOffset request s = 0 := by
      rw [← Int32.toInt_inj, htoInt]
      rfl
    have hin : -2 ^ 31 ≤ startScaled request s ∧ startScaled request s < 2 ^ 31 - 1 / 2 :=
      ⟨hlow, hlast⟩
    rw [startTarget_of_ok hmode hoffset, htoInt]
    split
    · rename_i hstill
      refine iff_of_false nofun ?_
      rintro ⟨-, -, hmoves, -⟩
      apply hmoves hstill.1 (hzero.mp hstill.2)
    · rename_i hstill
      have hmoves : request.mode = .recip → startOffset request s ≠ 0 :=
        fun hrecip hoff => hstill ⟨hrecip, hzero.mpr hoff⟩
      rcases countsOfInt64_eq (startBase input request s + startOffset request s) with
        ⟨hfits, hsum⟩ | ⟨hfits, hsum⟩
      · rw [hsum, and_iff_right hin, and_iff_right hfits, and_iff_right hmoves, Except.ok.injEq]
        exact eq_comm
      · rw [hsum]
        apply iff_of_false nofun (fun h => hfits h.2.1)

/-- A start of any mode does what it is to do exactly if its position is not in the last half count
below `2 ^ 31`. -/
theorem startComputed_iff (input : PdoInput) (request : MotionRequest ℚ) (s : Motion ℚ)
    (action : request.action = .actionStart) (hmode : StartMode request.mode) :
  StartComputed input request s ↔
    ¬ (2 ^ 31 - 1 / 2 ≤ startScaled request s ∧ startScaled request s ≤ 2 ^ 31)
  := by
  constructor
  · rintro h ⟨hlow, hhigh⟩
    have hrange : -2 ^ 31 ≤ startScaled request s := by
      refine le_trans ?_ hlow
      norm_num
    rcases convertedCounts_spec s.motorParams request.positionMm with
      ⟨-, hout⟩ | ⟨value, hsome, -, -, htruncate⟩
    · rcases hout with hout | hout
      · exact absurd hhigh (not_le.mpr hout)
      · exact absurd hrange (not_le.mpr hout)
    · have hfits := h.converts value hsome
      rw [htruncate] at hfits
      exact absurd hlow (not_le.mpr ((fitsInt32_roundHalfAway hrange).mp hfits))
  · intro hgap
    have hiff : ∀ targetCounts, startTarget input request s = .ok targetCounts ↔ _ :=
      startTarget_eq_ok_iff hmode hgap
    have happly := motionRequestApply_start input s action
    constructor
    · intro haccepted
      rcases happly with ⟨targetCounts, htarget, -, hstarted⟩ | ⟨hnone, -⟩
      · obtain ⟨-, hfits, -, rfl⟩ := (hiff targetCounts).mp htarget
        rwa [Int32.toInt_ofInt_of_le hfits.1 hfits.2] at hstarted
      · exact absurd haccepted.plans (hnone _ ((hiff _).mpr
          ⟨⟨haccepted.low, haccepted.high⟩, haccepted.fits, haccepted.moves, rfl⟩))
    · intro hnot
      rcases happly with ⟨targetCounts, htarget, hplans, -⟩ | ⟨-, hrefused⟩
      · obtain ⟨⟨hlow, hhigh⟩, hfits, hmoves, rfl⟩ := (hiff targetCounts).mp htarget
        exact absurd ⟨hlow, hhigh, hfits, hmoves, hplans⟩ hnot
      · exact hrefused
    · intro value hsome
      rcases convertedCounts_spec s.motorParams request.positionMm with
        ⟨hnone, -⟩ | ⟨value', hsome', hlow, hhigh, htruncate⟩
      · cases hnone.symm.trans hsome
      · obtain rfl := Option.some.inj (hsome.symm.trans hsome')
        rw [htruncate, fitsInt32_roundHalfAway hlow]
        by_contra hge
        apply hgap ⟨not_lt.mp hge, hhigh⟩

/-- A relative move, submitted to an axis with one count in a millimetre. -/
def submittedMove (positionMm : ℚ) : Motion ℚ :=
  (System.machine.run (System.submitMove positionMm)).motion

theorem startComputed_submittedMove :
  StartComputed (System.readyInput 0) (submittedMove 10).request (submittedMove 10)
  := by
  have haction : (submittedMove 10).request.action = .actionStart := by decide +kernel
  have hmode : (submittedMove 10).request.mode = .moveRel := by decide +kernel
  rw [startComputed_iff _ _ _ haction (.inr (.inl hmode))]
  have hscaled : startScaled (submittedMove 10).request (submittedMove 10) = 10 := by
    decide +kernel
  rw [hscaled]
  norm_num

/-- A move over `2 ^ 31` counts passes the check, and what is converted is no `int32_t`. -/
theorem not_startComputed_submittedMove :
  ¬ StartComputed (System.readyInput 0) (submittedMove (2 ^ 31)).request (submittedMove (2 ^ 31))
  := by
  intro h
  have hconverted : convertedCounts (submittedMove (2 ^ 31)).motorParams
      (submittedMove (2 ^ 31)).request.positionMm = some (2 ^ 31 + 0.5) := by
    decide +kernel
  have hfits := (h.converts _ hconverted).2
  have htruncate : truncate (2 ^ 31 + 0.5 : ℚ) = 2 ^ 31 := by decide +kernel
  rw [htruncate] at hfits
  apply lt_irrefl _ hfits

end EthercatMaster
