import EthercatMaster.Library.Rounding
import EthercatMaster.Motion.Profile
import EthercatMaster.Motion.Step

/-!
# The executed trajectory

Once a trajectory has been planned, each call of `motion_segment_process` samples the stored
profile at the end of one more PDO cycle and rounds the position, and the call that covers the
total time commands the target and starts waiting for the actual position.  In exact real
arithmetic the samples are those of the continuous profile.
-/

namespace EthercatMaster

open FloatArith ConstantJerk

/-! ### Calls of `motion_segment_process` -/

section Calls

variable {F : Type} [FloatArith F]

/-- The state after a number of calls of `motion_segment_process`, each with its process
data. -/
def afterSegments (inputs : ℕ → PdoInput) (s : Motion F) : ℕ → Motion F
  | 0 => s
  | k + 1 => (motionSegmentProcess (inputs k) (afterSegments inputs s k)).2

/-- The trajectory, advanced to a cycle. -/
def MotionTrajectory.atCycle {F : Type} (t : MotionTrajectory F) (k : ℕ) : MotionTrajectory F :=
  { t with cycleIndex := UInt32.ofNat k }

/-- A cycle before the last one samples the trajectory. -/
theorem motionSegmentProcess_moving (input : PdoInput) {s : Motion F} {k : ℕ}
    (hrunning : s.trajectory.running = true) (hwaiting : s.trajectory.waitingActual = false)
    (hindex : s.trajectory.cycleIndex = UInt32.ofNat k)
    (hleft : k + 1 < s.trajectory.totalCycles.toNat) :
  (motionSegmentProcess input s).2
    = s.follow { s.trajectory.atCycle (k + 1) with
        commandCounts := (s.trajectory.atCycle (k + 1)).sample }
      (s.trajectory.atCycle (k + 1)).sample
  := by
  have hbound := s.trajectory.totalCycles.toNat_lt_size
  have hlt : s.trajectory.cycleIndex < s.trajectory.totalCycles := by
    rw [hindex, UInt32.lt_iff_toNat_lt, UInt32.toNat_ofNat_of_lt' (by omega)]
    omega
  have hnext : s.trajectory.cycleIndex + 1 = UInt32.ofNat (k + 1) := by
    rw [hindex, UInt32.ofNat_add]
    rfl
  have hlast : ¬ s.trajectory.totalCycles ≤ UInt32.ofNat (k + 1) := by
    rw [UInt32.le_iff_toNat_le, UInt32.toNat_ofNat_of_lt' (by omega)]
    omega
  have hadvance : motionSegmentAdvance s
      = s.follow { s.trajectory.atCycle (k + 1) with
          commandCounts := (s.trajectory.atCycle (k + 1)).sample }
        (s.trajectory.atCycle (k + 1)).sample := by
    rw [motionSegmentAdvance]
    simp only [hlt, if_true, hnext, hlast, if_false]
    rfl
  rw [motionSegmentProcess, if_pos hrunning, hadvance, motionSegmentConfirm, if_pos]
  show (!s.trajectory.waitingActual) = true
  rw [hwaiting]
  rfl

/-- The last cycle commands the target and starts waiting. -/
theorem motionSegmentProcess_last (input : PdoInput) {s : Motion F} {k : ℕ}
    (hrunning : s.trajectory.running = true)
    (hindex : s.trajectory.cycleIndex = UInt32.ofNat k)
    (hlast : k + 1 = s.trajectory.totalCycles.toNat) :
  (motionSegmentProcess input s).2.control.commandCounts = s.trajectory.targetCounts
    ∧ (motionSegmentProcess input s).2.trajectory.running = false
    ∧ (motionSegmentProcess input s).2.trajectory.waitingActual = true
  := by
  have hbound := s.trajectory.totalCycles.toNat_lt_size
  have hlt : s.trajectory.cycleIndex < s.trajectory.totalCycles := by
    rw [hindex, UInt32.lt_iff_toNat_lt, UInt32.toNat_ofNat_of_lt' (by omega)]
    omega
  have hadvance : motionSegmentAdvance s
      = s.follow s.trajectory.arrived s.trajectory.targetCounts := by
    rcases motionSegmentAdvance_cases s hlt with ⟨c, hleft, -⟩ | heq
    · have hnext : s.trajectory.cycleIndex + 1 = UInt32.ofNat (k + 1) := by
        rw [hindex, UInt32.ofNat_add]
        rfl
      rw [hnext, UInt32.lt_iff_toNat_lt, UInt32.toNat_ofNat_of_lt' (by omega)] at hleft
      omega
    · apply heq
  rw [motionSegmentProcess, if_pos hrunning, hadvance]
  rcases motionSegmentConfirm_cases input
    (s.follow s.trajectory.arrived s.trajectory.targetCounts) rfl with
    ⟨-, heq⟩ | ⟨-, -, heq⟩ | ⟨-, hstable, -⟩
  · rw [heq]
    exact ⟨rfl, rfl, rfl⟩
  · rw [heq]
    exact ⟨rfl, rfl, rfl⟩
  · have hone : motionPositionStableCycles ≤ 0 + 1 := hstable
    exact absurd hone (by decide)

end Calls

/-! ### One sample -/

/-- The conversion of the source rounds halves away from zero. -/
theorem roundCommand_real (x : ℝ) :
  roundCommand x = Int32.ofInt (roundHalfAway x)
  := by
  have hhalf : ((0.5 : ℚ) : ℝ) = 1 / 2 := by norm_num
  rw [roundCommand]
  simp only [le_real, lit_real, hhalf, Rat.cast_zero]
  rcases le_or_gt 0 x with hx | hx
  · rw [if_pos hx, roundHalfAway_of_nonneg hx]
    show Int32.ofInt (if 0 ≤ x + 1 / 2 then ⌊x + 1 / 2⌋ else ⌈x + 1 / 2⌉) = _
    rw [if_pos (by linarith)]
  · rw [if_neg (not_le.mpr hx), roundHalfAway_of_neg hx]
    show Int32.ofInt (if 0 ≤ x - 1 / 2 then ⌊x - 1 / 2⌋ else ⌈x - 1 / 2⌉) = _
    rw [if_neg (by linarith)]

/-- A position between the start and the target is not clamped. -/
theorem clampCommand_real {startCounts targetCounts : Int32} {x : ℝ}
    (h : x ∈ Set.uIcc (startCounts.toInt : ℝ) targetCounts.toInt) :
  clampCommand startCounts targetCounts x = x
  := by
  rw [clampCommand]
  simp only [lt_real, ofInt_real]
  rcases le_or_gt startCounts.toInt targetCounts.toInt with hle | hlt
  · rw [Set.uIcc_of_le (Int.cast_le.mpr hle)] at h
    rw [if_pos hle, if_neg (not_lt.mpr h.1), if_neg (not_lt.mpr h.2)]
  · rw [Set.uIcc_of_ge (Int.cast_le.mpr hlt.le)] at h
    rw [if_neg (not_le.mpr hlt), if_neg (not_lt.mpr h.2), if_neg (not_lt.mpr h.1)]

/-- The displacement a segment computes within its time is that of its piece. -/
theorem relativePosition_segment (x : SegmentStart ℝ) (jerk : ℝ) {duration t : ℝ}
    (hlt : x.startTime < t) (hle : t ≤ x.startTime + duration) :
  (x.segment jerk duration).relativePosition t
    = (x.segment jerk duration).piece.positionAt (t - x.startTime)
  := by
  have hhalf : ((0.5 : ℚ) : ℝ) = 1 / 2 := by norm_num
  have hnonneg : ¬ t - x.startTime < 0 := by linarith
  have hwithin : ¬ duration < t - x.startTime := by linarith
  simp only [S7Segment.relativePosition, SegmentStart.segment, lt_real, lit_real, Rat.cast_zero,
    hnonneg, hwithin, if_false, hhalf, Rat.cast_ofNat, Piece.positionAt, S7Segment.piece]
  ring

/-- The segments are searched for one of positive duration that has not ended; its displacement
is the position of the profile, also at the border of two segments and next to a segment of no
duration. -/
theorem find_segment (x : SegmentStart ℝ) {steps : List (ℝ × ℝ)}
    (hduration : ∀ step ∈ steps, 0 ≤ step.2) {t : ℝ} (hlt : x.startTime < t)
    (hle : t ≤ x.startTime + (steps.map Prod.snd).sum) :
  ∃ segment, (integrateSegments x steps).1.find? (fun segment =>
      lt (lit 0) segment.durationS && le t (segment.startTimeS + segment.durationS)) = some segment
    ∧ segment.relativePosition t
      = profilePosition (integrateSegments x steps).1 (t - x.startTime)
  := by
  induction steps generalizing x with
  | nil =>
      rw [List.map_nil, List.sum_nil, add_zero] at hle
      exact absurd hlt (not_lt.mpr hle)
  | cons step steps ih =>
      obtain ⟨jerk, duration⟩ := step
      have hnonneg : 0 ≤ duration := hduration (jerk, duration) List.mem_cons_self
      have hcons : (integrateSegments x ((jerk, duration) :: steps)).1
          = x.segment jerk duration :: (integrateSegments (x.next jerk duration) steps).1 := rfl
      rw [hcons]
      rcases le_or_gt t (x.startTime + duration) with hin | hafter
      · -- the time is in this segment, whose duration is then positive
        have hpos : 0 < duration := by linarith
        refine ⟨x.segment jerk duration, ?_, ?_⟩
        · rw [List.find?_cons_of_pos]
          rw [Bool.and_eq_true, lt_real, le_real, lit_real, Rat.cast_zero]
          exact ⟨hpos, hin⟩
        · rw [relativePosition_segment x jerk hlt hin, profilePosition, observeSegments,
            List.map_cons]
          cases (integrateSegments (x.next jerk duration) steps).1.map S7Segment.piece with
          | nil => rfl
          | cons q rest =>
              have hwithin : t - x.startTime ≤ (x.segment jerk duration).piece.duration := by
                show t - x.startTime ≤ duration
                linarith
              dsimp only
              rw [along, if_pos hwithin]
      · have hnext : (x.next jerk duration).startTime = x.startTime + duration := rfl
        rw [List.map_cons, List.sum_cons, ← add_assoc] at hle
        obtain ⟨segment, hfind, hposition⟩ := ih (x.next jerk duration)
          (fun step hstep => hduration step (List.mem_cons_of_mem _ hstep)) hafter hle
        refine ⟨segment, ?_, ?_⟩
        · rw [List.find?_cons_of_neg, hfind]
          rw [Bool.and_eq_true, not_and, le_real]
          intro _
          exact not_le.mpr hafter
        · rw [hposition, profilePosition, observeSegments, observeSegments, List.map_cons, hnext]
          have hne : (integrateSegments (x.next jerk duration) steps).1.map S7Segment.piece ≠ [] := by
            intro hnil
            rw [List.map_eq_nil_iff] at hnil
            rw [hnil] at hfind
            cases hfind
          obtain ⟨q, rest, hrest⟩ := List.exists_cons_of_ne_nil hne
          have hbeyond : ¬ t - x.startTime ≤ (x.segment jerk duration).piece.duration := by
            show ¬ t - x.startTime ≤ duration
            linarith
          rw [hrest]
          dsimp only
          rw [along, if_neg hbeyond, sub_add_eq_sub_sub]
          rfl

/-! ### The number of cycles -/

theorem motionPdoPeriodS_real :
  (motionPdoPeriodS : ℝ) = 0.002
  := by
  rw [motionPdoPeriodS, lit_real]
  norm_num

theorem uint32Max_real :
  (uint32Max : ℝ) = 2 ^ 32 - 1
  := by
  show ((2 ^ 32 - 1 : ℤ) : ℝ) = 2 ^ 32 - 1
  norm_num

/-- The number of cycles is the time in cycles, rounded up. -/
theorem totalCyclesOf_real {T : ℝ} (hpos : 0 < T) (hlt : T / 0.002 < 2 ^ 32 - 1) :
  (totalCyclesOf T).toNat = ⌈T / 0.002⌉₊
  := by
  set q := T / 0.002 with hq
  have hqpos : 0 < q := by positivity
  set n := ⌊q⌋₊ with hn
  have hle : (n : ℝ) ≤ q := Nat.floor_le hqpos.le
  have hbound : n + 1 < UInt32.size := by
    have hreal : (n : ℝ) < 2 ^ 32 - 1 := hle.trans_lt hlt
    have hnat : n + 1 < 2 ^ 32 := by
      rw [lt_sub_iff_add_lt] at hreal
      exact_mod_cast hreal
    apply hnat
  have htrunc : (FloatArith.toUInt32 (T / motionPdoPeriodS) : UInt32) = UInt32.ofNat n := by
    show UInt32.ofNat ⌊T / motionPdoPeriodS⌋.toNat = UInt32.ofNat n
    rw [motionPdoPeriodS_real, Int.floor_toNat]
  have hcover : (n : ℝ) * 0.002 < T ↔ (n : ℝ) < q := by
    rw [hq, lt_div_iff₀ (by norm_num)]
  rw [totalCyclesOf, htrunc]
  simp only [lt_real, ofInt_real, motionPdoPeriodS_real, UInt32.toNat_ofNat_of_lt'
    (show n < UInt32.size by omega), Int.cast_natCast, hcover]
  have hnonzero : ∀ m, 0 < m → m < UInt32.size → UInt32.ofNat m ≠ 0 := by
    intro m hm hsize heq
    rw [← UInt32.toNat_inj, UInt32.toNat_ofNat_of_lt' hsize] at heq
    exact absurd heq hm.ne'
  by_cases hless : (n : ℝ) < q
  · have hceil : ⌈q⌉₊ = n + 1 := by
      rw [Nat.ceil_eq_iff (Nat.succ_ne_zero n)]
      exact ⟨by simpa using hless, (by exact_mod_cast (Nat.lt_floor_add_one q).le)⟩
    have hnext : UInt32.ofNat n + 1 = UInt32.ofNat (n + 1) := by
      rw [UInt32.ofNat_add]
      rfl
    rw [if_pos hless, hnext, if_neg (hnonzero (n + 1) (Nat.succ_pos n) hbound),
      UInt32.toNat_ofNat_of_lt' hbound, hceil]
  · have heq : q = n := le_antisymm (not_lt.mp hless) hle
    have hnpos : 0 < n := by
      rw [heq] at hqpos
      exact_mod_cast hqpos
    rw [if_neg hless, if_neg (hnonzero n hnpos (by omega)),
      UInt32.toNat_ofNat_of_lt' (by omega), heq, Nat.ceil_natCast]

/-- The number of cycles is the least one that covers the time. -/
theorem totalCyclesOf_isLeast {T : ℝ} (hpos : 0 < T) (hlt : T / 0.002 < 2 ^ 32 - 1) :
  IsLeast {n : ℕ | T ≤ 0.002 * n} (totalCyclesOf T).toNat
  := by
  have hcover : ∀ n : ℕ, T ≤ 0.002 * n ↔ T / 0.002 ≤ n := by
    intro n
    rw [div_le_iff₀ (by norm_num), mul_comm]
  rw [totalCyclesOf_real hpos hlt]
  constructor
  · exact (hcover _).mpr (Nat.le_ceil _)
  · intro n hn
    exact Nat.ceil_le.mpr ((hcover n).mp hn)

/-! ### The planned positions -/

/-- The profile moves in its direction, at most at the velocity limit. -/
theorem ProfileTimes.Fits.grows {times : ProfileTimes ℝ} {D V A J σ m M : ℝ}
    (h : times.Fits D V A J) (hJ : 0 < J) (hσ : σ = 1 ∨ σ = -1)
    (hrange : Set.uIcc 0 (σ * V) = Set.Icc m M) :
  Grows m M (profilePosition (integrateSegments SegmentStart.rest (profileSteps σ J times)).1)
    (profileTime (integrateSegments SegmentStart.rest (profileSteps σ J times)).1)
  := by
  have hwithin := h.within hJ hσ
  have hjoins := observes_position.joins SegmentStart.rest (profileSteps σ J times)
  have hduration : ∀ p ∈ piecesOf SegmentStart.rest (profileSteps σ J times), 0 ≤ p.duration :=
    fun p hp => (hwithin.piece hp).1
  have hgrows : ∀ p ∈ piecesOf SegmentStart.rest (profileSteps σ J times),
      Grows m M p.positionAt p.duration := by
    intro p hp
    apply Piece.grows_positionAt
    intro t ht hle
    rw [← hrange]
    apply ((hwithin.piece hp).2.2 t ht hle).1
  rw [profileTime_eq_total]
  rw [profileSteps_real] at hjoins hduration hgrows ⊢
  apply grows_along hjoins hduration hgrows

/-- The position the profile plans for the end of a cycle. -/
noncomputable def MotionTrajectory.plannedAt (t : MotionTrajectory ℝ) (k : ℕ) : ℝ :=
  t.startCounts.toInt + profilePosition t.segment (min (0.002 * k) t.totalTimeS)

/-- What the execution of a trajectory uses of the planner. -/
structure Motion.Planned (s₀ : Motion ℝ) (startCounts targetCounts : Int32) (V : ℝ) :
    Prop where
  running : s₀.trajectory.running = true
  waiting : s₀.trajectory.waitingActual = false
  index : s₀.trajectory.cycleIndex = UInt32.ofNat 0
  start : s₀.trajectory.startCounts = startCounts
  target : s₀.trajectory.targetCounts = targetCounts
  command : s₀.control.commandCounts = startCounts
  velocity : 0 ≤ V
  time : s₀.trajectory.totalTimeS = profileTime s₀.trajectory.segment
  time_pos : 0 < s₀.trajectory.totalTimeS
  cycles : IsLeast {n : ℕ | s₀.trajectory.totalTimeS ≤ 0.002 * n}
    s₀.trajectory.totalCycles.toNat
  lookup : ∀ t, 0 < t → t ≤ s₀.trajectory.totalTimeS →
    (segmentAt s₀.trajectory.segment t).relativePosition t
      = profilePosition s₀.trajectory.segment t
  first : profilePosition s₀.trajectory.segment 0 = 0
  last : profilePosition s₀.trajectory.segment s₀.trajectory.totalTimeS
    = targetCounts.toInt - startCounts.toInt
  grows : (startCounts.toInt < targetCounts.toInt
      ∧ Grows 0 V (profilePosition s₀.trajectory.segment) s₀.trajectory.totalTimeS)
    ∨ (targetCounts.toInt < startCounts.toInt
      ∧ Grows (-V) 0 (profilePosition s₀.trajectory.segment) s₀.trajectory.totalTimeS)

namespace Motion.Planned

variable {s₀ : Motion ℝ} {startCounts targetCounts : Int32} {V : ℝ}
  (h : s₀.Planned startCounts targetCounts V)

include h

theorem plannedAt_zero :
  s₀.trajectory.plannedAt 0 = startCounts.toInt
  := by
  rw [MotionTrajectory.plannedAt, Nat.cast_zero, mul_zero, min_eq_left h.time_pos.le, h.first,
    add_zero, h.start]

theorem plannedAt_last :
  s₀.trajectory.plannedAt s₀.trajectory.totalCycles.toNat = targetCounts.toInt
  := by
  rw [MotionTrajectory.plannedAt, min_eq_right h.cycles.1, h.last, h.start]
  ring

theorem totalCycles_pos :
  0 < s₀.trajectory.totalCycles.toNat
  := by
  have hcover := h.cycles.1
  rw [Set.mem_ofPred_eq] at hcover
  by_contra hzero
  rw [Nat.eq_zero_of_not_pos hzero, Nat.cast_zero, mul_zero] at hcover
  exact absurd h.time_pos (not_lt.mpr hcover)

/-- The planned positions move from the start to the target. -/
theorem plannedAt_mono {i k : ℕ} (hik : i ≤ k) :
  (startCounts.toInt ≤ targetCounts.toInt →
      s₀.trajectory.plannedAt i ≤ s₀.trajectory.plannedAt k)
    ∧ (targetCounts.toInt ≤ startCounts.toInt →
      s₀.trajectory.plannedAt k ≤ s₀.trajectory.plannedAt i)
  := by
  have hcast : (i : ℝ) ≤ k := Nat.cast_le.mpr hik
  have htime : min (0.002 * (i : ℝ)) s₀.trajectory.totalTimeS
      ≤ min (0.002 * (k : ℝ)) s₀.trajectory.totalTimeS := by
    apply min_le_min_right
    linarith
  have hnonneg : 0 ≤ min (0.002 * (i : ℝ)) s₀.trajectory.totalTimeS := by
    apply le_min _ h.time_pos.le
    positivity
  rw [MotionTrajectory.plannedAt, MotionTrajectory.plannedAt]
  rcases h.grows with ⟨hlt, hgrows⟩ | ⟨hlt, hgrows⟩
  · obtain ⟨hlow, -⟩ := hgrows _ _ hnonneg htime (min_le_right _ _)
    rw [zero_mul] at hlow
    constructor
    · intro
      linarith
    · intro hle
      omega
  · obtain ⟨-, hhigh⟩ := hgrows _ _ hnonneg htime (min_le_right _ _)
    rw [zero_mul] at hhigh
    constructor
    · intro hle
      omega
    · intro
      linarith

/-- The planned positions are between the start and the target. -/
theorem plannedAt_mem {k : ℕ} (hk : k ≤ s₀.trajectory.totalCycles.toNat) :
  s₀.trajectory.plannedAt k ∈ Set.uIcc (startCounts.toInt : ℝ) targetCounts.toInt
  := by
  have hfirst := h.plannedAt_mono (Nat.zero_le k)
  have hlast := h.plannedAt_mono hk
  rw [h.plannedAt_zero] at hfirst
  rw [h.plannedAt_last] at hlast
  rw [Set.mem_uIcc]
  rcases le_total startCounts.toInt targetCounts.toInt with hle | hle
  · exact Or.inl ⟨hfirst.1 hle, hlast.1 hle⟩
  · exact Or.inr ⟨hlast.2 hle, hfirst.2 hle⟩

/-- In one cycle, the planned position moves by at most the velocity limit times the period. -/
theorem plannedAt_succ (k : ℕ) :
  |s₀.trajectory.plannedAt (k + 1) - s₀.trajectory.plannedAt k| ≤ 0.002 * V
  := by
  have hcast : ((k + 1 : ℕ) : ℝ) = k + 1 := by push_cast; rfl
  have htime : min (0.002 * (k : ℝ)) s₀.trajectory.totalTimeS
      ≤ min (0.002 * ((k + 1 : ℕ) : ℝ)) s₀.trajectory.totalTimeS := by
    rw [hcast]
    apply min_le_min_right
    linarith
  have hperiod : min (0.002 * ((k + 1 : ℕ) : ℝ)) s₀.trajectory.totalTimeS
      - min (0.002 * (k : ℝ)) s₀.trajectory.totalTimeS ≤ 0.002 := by
    rw [hcast]
    rcases min_choice (0.002 * (k : ℝ)) s₀.trajectory.totalTimeS with heq | heq
    · rw [heq]
      linarith [min_le_left (0.002 * ((k : ℝ) + 1)) s₀.trajectory.totalTimeS]
    · rw [heq]
      linarith [min_le_right (0.002 * ((k : ℝ) + 1)) s₀.trajectory.totalTimeS]
  have hnonneg : 0 ≤ min (0.002 * (k : ℝ)) s₀.trajectory.totalTimeS := by
    apply le_min _ h.time_pos.le
    positivity
  have hbound := mul_le_mul_of_nonneg_left hperiod h.velocity
  rw [MotionTrajectory.plannedAt, MotionTrajectory.plannedAt, add_sub_add_left_eq_sub, abs_le]
  rcases h.grows with ⟨-, hgrows⟩ | ⟨-, hgrows⟩
  · obtain ⟨hlow, hhigh⟩ := hgrows _ _ hnonneg htime (min_le_right _ _)
    rw [zero_mul] at hlow
    constructor
    · linarith [h.velocity]
    · linarith
  · obtain ⟨hlow, hhigh⟩ := hgrows _ _ hnonneg htime (min_le_right _ _)
    rw [zero_mul] at hhigh
    constructor
    · linarith
    · linarith [h.velocity]

/-- The commanded position of a cycle is the planned one, rounded. -/
theorem sample_atCycle {k : ℕ} (hpos : 0 < k) (hk : k ≤ s₀.trajectory.totalCycles.toNat) :
  (s₀.trajectory.atCycle k).sample.toInt = roundHalfAway (s₀.trajectory.plannedAt k)
  := by
  have hsize : k < UInt32.size := hk.trans_lt s₀.trajectory.totalCycles.toNat_lt_size
  have helapsed : (if lt s₀.trajectory.totalTimeS (ofInt ((UInt32.ofNat k).toNat : ℤ)
      * motionPdoPeriodS) then s₀.trajectory.totalTimeS
      else ofInt ((UInt32.ofNat k).toNat : ℤ) * motionPdoPeriodS)
      = min (0.002 * (k : ℝ)) s₀.trajectory.totalTimeS := by
    rw [UInt32.toNat_ofNat_of_lt' hsize, ofInt_real, motionPdoPeriodS_real, Int.cast_natCast,
      mul_comm]
    simp only [lt_real]
    split
    · rename_i hlt
      rw [min_eq_right hlt.le]
    · rename_i hge
      rw [min_eq_left (not_lt.mp hge)]
  have htime : 0 < min (0.002 * (k : ℝ)) s₀.trajectory.totalTimeS := by
    apply lt_min _ h.time_pos
    have : (0 : ℝ) < k := Nat.cast_pos.mpr hpos
    positivity
  have hmem := h.plannedAt_mem hk
  have hsample : (s₀.trajectory.atCycle k).sample
      = Int32.ofInt (roundHalfAway (s₀.trajectory.plannedAt k)) := by
    obtain ⟨elapsed, heq, hsample⟩ : ∃ elapsed : ℝ,
        elapsed = min (0.002 * (k : ℝ)) s₀.trajectory.totalTimeS
        ∧ (s₀.trajectory.atCycle k).sample
          = roundCommand (clampCommand s₀.trajectory.startCounts s₀.trajectory.targetCounts
            ((s₀.trajectory.startCounts.toInt : ℝ)
              + (segmentAt s₀.trajectory.segment elapsed).relativePosition elapsed)) :=
      ⟨_, helapsed, rfl⟩
    rw [hsample, heq, h.lookup _ htime (min_le_right _ _), ← MotionTrajectory.plannedAt,
      clampCommand_real, roundCommand_real]
    rw [h.start, h.target]
    apply hmem
  -- the rounded position is representable, since it is between the start and the target
  have hrange : -2 ^ 31 ≤ roundHalfAway (s₀.trajectory.plannedAt k)
      ∧ roundHalfAway (s₀.trajectory.plannedAt k) < 2 ^ 31 := by
    have hstart := startCounts.le_toInt
    have hstart' := startCounts.toInt_lt
    have htarget := targetCounts.le_toInt
    have htarget' := targetCounts.toInt_lt
    rcases Set.mem_uIcc.mp hmem with ⟨hlow, hhigh⟩ | ⟨hlow, hhigh⟩
    · obtain ⟨hlow', hhigh'⟩ := roundHalfAway_mem_Icc hlow hhigh
      omega
    · obtain ⟨hlow', hhigh'⟩ := roundHalfAway_mem_Icc hlow hhigh
      omega
  rw [hsample, Int32.toInt_ofInt_of_le hrange.1 hrange.2]

end Motion.Planned

/-! ### The execution -/

namespace Motion.Planned

variable {s₀ : Motion ℝ} {startCounts targetCounts : Int32} {V : ℝ}
  (h : s₀.Planned startCounts targetCounts V) (inputs : ℕ → PdoInput)

include h

/-- Before the last call, the trajectory is running, and its commanded position is the planned
one, rounded. -/
theorem afterSegments_lt {k : ℕ} (hk : k < s₀.trajectory.totalCycles.toNat) :
  (∃ c, (afterSegments inputs s₀ k).trajectory
      = { s₀.trajectory.atCycle k with commandCounts := c })
    ∧ (afterSegments inputs s₀ k).control.commandCounts.toInt
      = roundHalfAway (s₀.trajectory.plannedAt k)
  := by
  induction k with
  | zero =>
      constructor
      · use s₀.trajectory.commandCounts
        rw [MotionTrajectory.atCycle, ← h.index]
        rfl
      · rw [h.plannedAt_zero, roundHalfAway_intCast, ← h.command]
        rfl
  | succ k ih =>
      obtain ⟨⟨c, htrajectory⟩, -⟩ := ih (by omega)
      have hrunning : (afterSegments inputs s₀ k).trajectory.running = true := by
        rw [htrajectory]
        apply h.running
      have hwaiting : (afterSegments inputs s₀ k).trajectory.waitingActual = false := by
        rw [htrajectory]
        apply h.waiting
      have hindex : (afterSegments inputs s₀ k).trajectory.cycleIndex = UInt32.ofNat k := by
        rw [htrajectory]
        rfl
      have hcycles : (afterSegments inputs s₀ k).trajectory.totalCycles
          = s₀.trajectory.totalCycles := by
        rw [htrajectory]
        rfl
      have hsample : ((afterSegments inputs s₀ k).trajectory.atCycle (k + 1)).sample
          = (s₀.trajectory.atCycle (k + 1)).sample := by
        rw [htrajectory]
        rfl
      rw [afterSegments, motionSegmentProcess_moving (inputs k) hrunning hwaiting hindex
        (by rw [hcycles]; exact hk), hsample]
      constructor
      · use (s₀.trajectory.atCycle (k + 1)).sample
        rw [htrajectory]
        rfl
      · apply h.sample_atCycle (Nat.succ_pos k) hk.le

/-- The last call commands the target and starts waiting for the actual position. -/
theorem afterSegments_last :
  (afterSegments inputs s₀ s₀.trajectory.totalCycles.toNat).control.commandCounts = targetCounts
    ∧ (afterSegments inputs s₀ s₀.trajectory.totalCycles.toNat).trajectory.running = false
    ∧ (afterSegments inputs s₀ s₀.trajectory.totalCycles.toNat).trajectory.waitingActual = true
  := by
  obtain ⟨k, hk⟩ := Nat.exists_eq_add_one.mpr h.totalCycles_pos
  obtain ⟨⟨c, htrajectory⟩, -⟩ := h.afterSegments_lt inputs (k := k) (by omega)
  have hrunning : (afterSegments inputs s₀ k).trajectory.running = true := by
    rw [htrajectory]
    apply h.running
  have hindex : (afterSegments inputs s₀ k).trajectory.cycleIndex = UInt32.ofNat k := by
    rw [htrajectory]
    rfl
  have hlast : k + 1 = (afterSegments inputs s₀ k).trajectory.totalCycles.toNat := by
    rw [htrajectory]
    exact hk.symm
  have htarget : (afterSegments inputs s₀ k).trajectory.targetCounts = targetCounts := by
    rw [htrajectory]
    exact h.target
  rw [hk, ← htarget]
  exact motionSegmentProcess_last (inputs k) hrunning hindex hlast

/-- Every call commands the planned position, rounded. -/
theorem afterSegments_command {k : ℕ} (hk : k ≤ s₀.trajectory.totalCycles.toNat) :
  (afterSegments inputs s₀ k).control.commandCounts.toInt
    = roundHalfAway (s₀.trajectory.plannedAt k)
  := by
  rcases hk.lt_or_eq with hlt | rfl
  · apply (h.afterSegments_lt inputs hlt).2
  · rw [(h.afterSegments_last inputs).1, h.plannedAt_last, roundHalfAway_intCast]

end Motion.Planned

section Planner

variable (s : Motion ℝ) {startCounts targetCounts : Int32}
  {velocityMmS accelerationMmS2 jerkMmS3 : ℝ}

/-- The time of stored segments is the time the integration ends at. -/
theorem profileTime_integrateSegments (steps : List (ℝ × ℝ)) :
  profileTime (integrateSegments SegmentStart.rest steps).1
    = (integrateSegments SegmentStart.rest steps).2.startTime
  := by
  rw [profileTime, durations_integrateSegments, startTime_last, SegmentStart.rest, lit_real,
    Rat.cast_zero, zero_add]

/-- When the planner succeeds, the limits are positive, and the total time is that of the
segments and can be counted in cycles. -/
theorem motionTrajectoryStart_time (hdelta : targetCounts.toInt - startCounts.toInt ≠ 0)
    (hok : (motionTrajectoryStart startCounts targetCounts velocityMmS accelerationMmS2
      jerkMmS3 s).1 = .ok) :
  (0 < velocityMmS * motionCountsPerMmGet s.motorParams
      ∧ 0 < accelerationMmS2 * motionCountsPerMmGet s.motorParams
      ∧ 0 < jerkMmS3 * motionCountsPerMmGet s.motorParams)
    ∧ ∃ T, 0 < T ∧ T / 0.002 < 2 ^ 32 - 1
      ∧ (motionTrajectoryStart startCounts targetCounts velocityMmS accelerationMmS2 jerkMmS3
          s).2.trajectory.totalTimeS = T
      ∧ (motionTrajectoryStart startCounts targetCounts velocityMmS accelerationMmS2 jerkMmS3
          s).2.trajectory.totalCycles = totalCyclesOf T
      ∧ profileTime (motionTrajectoryStart startCounts targetCounts velocityMmS
          accelerationMmS2 jerkMmS3 s).2.trajectory.segment = T
  := by
  revert hok
  rw [motionTrajectoryStart, if_neg hdelta]
  extract_lets direction distance maxVelocity maxAcceleration maxJerk times
  split
  · rintro ⟨⟩
  split
  · rintro ⟨⟩
  split
  · rintro ⟨⟩
  rename_i hpositive _ _
  dsimp only
  split
  · rintro ⟨⟩
  split
  · rintro ⟨⟩
  rename_i htime hcycles
  intro _
  simp only [Bool.or_eq_true, Bool.not_eq_true', not_or, Bool.not_eq_false,
    motionFloatIsPositive_real] at hpositive htime hcycles
  refine ⟨⟨hpositive.1.1, hpositive.1.2, hpositive.2⟩, _, htime, ?_, rfl, rfl,
    profileTime_integrateSegments _⟩
  obtain ⟨-, hless⟩ := hcycles
  rw [le_real, not_le, motionPdoPeriodS_real] at hless
  rw [uint32Max_real] at hless
  exact hless

/-- The durations of a profile that fits are not negative. -/
theorem ProfileTimes.Fits.duration_nonneg {times : ProfileTimes ℝ} {D V A J : ℝ}
    (h : times.Fits D V A J) (σ : ℝ) {step : ℝ × ℝ} (hstep : step ∈ profileSteps σ J times) :
  0 ≤ step.2
  := by
  have hjerk := h.jerk_pos.le
  have hacceleration := h.acceleration_nonneg
  have hvelocity := h.velocity_nonneg
  rw [profileSteps_real] at hstep
  simp only [List.mem_cons, List.not_mem_nil, or_false] at hstep
  rcases hstep with rfl | rfl | rfl | rfl | rfl | rfl | rfl
  all_goals assumption

/-- The segment `motion_segment_process` looks up gives the position of the profile. -/
theorem ProfileTimes.Fits.lookup {times : ProfileTimes ℝ} {D V A J : ℝ}
    (h : times.Fits D V A J) (σ : ℝ) {t : ℝ} (ht : 0 < t)
    (hle : t ≤ profileTime (integrateSegments SegmentStart.rest (profileSteps σ J times)).1) :
  (segmentAt (integrateSegments SegmentStart.rest (profileSteps σ J times)).1 t).relativePosition t
    = profilePosition (integrateSegments SegmentStart.rest (profileSteps σ J times)).1 t
  := by
  have hrest : (SegmentStart.rest : SegmentStart ℝ).startTime = 0 := by
    rw [SegmentStart.rest, lit_real, Rat.cast_zero]
  obtain ⟨segment, hfind, hposition⟩ := find_segment SegmentStart.rest
    (fun step hstep => h.duration_nonneg σ hstep) (t := t) (by rw [hrest]; exact ht)
    (by rw [hrest, zero_add, ← durations_integrateSegments SegmentStart.rest]; exact hle)
  rw [hrest, sub_zero] at hposition
  rw [segmentAt, hfind, Option.getD_some, hposition]

/-- The direction of a displacement is its sign. -/
theorem direction_eq {σ D : ℝ} (hσ : σ = 1 ∨ σ = -1) (hD : 0 < D)
    (hdistance : σ * D = (targetCounts.toInt - startCounts.toInt : ℤ)) :
  (σ = 1 ∧ startCounts.toInt < targetCounts.toInt)
    ∨ (σ = -1 ∧ targetCounts.toInt < startCounts.toInt)
  := by
  rcases hσ with rfl | rfl
  · left
    refine ⟨rfl, ?_⟩
    rw [one_mul] at hdistance
    rw [hdistance] at hD
    have hpos : 0 < targetCounts.toInt - startCounts.toInt := by exact_mod_cast hD
    omega
  · right
    refine ⟨rfl, ?_⟩
    rw [neg_one_mul, neg_eq_iff_eq_neg] at hdistance
    rw [hdistance, neg_pos] at hD
    have hneg : targetCounts.toInt - startCounts.toInt < 0 := by exact_mod_cast hD
    omega

/-- When the planner succeeds, the trajectory can be executed. -/
theorem motionTrajectoryStart_planned (hne : startCounts ≠ targetCounts)
    (hok : (motionTrajectoryStart startCounts targetCounts velocityMmS accelerationMmS2
      jerkMmS3 s).1 = .ok) :
  (motionTrajectoryStart startCounts targetCounts velocityMmS accelerationMmS2 jerkMmS3
    s).2.Planned startCounts targetCounts (velocityMmS * motionCountsPerMmGet s.motorParams)
  := by
  have hdelta := delta_ne_zero hne
  obtain ⟨⟨hV, hA, hJ⟩, T, hT, hless, htotal, hcycles, hprofile⟩ :=
    motionTrajectoryStart_time s hdelta hok
  obtain ⟨times, σ, D, hσ, hD, hdistance, hfits, hsegments⟩ :=
    motionTrajectoryStart_segment s hdelta hV hA hJ
  have hisProfile := hfits.isProfile hD.le hV.le hJ hσ
  rw [← hsegments, hdistance] at hisProfile
  have hgrows : ∀ {m M}, Set.uIcc 0 (σ * (velocityMmS * motionCountsPerMmGet s.motorParams))
      = Set.Icc m M → Grows m M (profilePosition (motionTrajectoryStart startCounts targetCounts
        velocityMmS accelerationMmS2 jerkMmS3 s).2.trajectory.segment) T := by
    intro m M hrange
    rw [← hprofile, hsegments]
    apply hfits.grows hJ hσ hrange
  obtain ⟨t, hfresh, hresult⟩ | ⟨segments, hresult⟩ :=
    motionTrajectoryStart_cases startCounts targetCounts velocityMmS accelerationMmS2 jerkMmS3 s
  swap
  · rw [hresult] at hok
    cases hok
  obtain ⟨hrunning, hwaiting, hindex, -⟩ | ⟨-, -, heq⟩ := hfresh.flags
  swap
  · exact absurd heq hne
  have htrajectory : (motionTrajectoryStart startCounts targetCounts velocityMmS accelerationMmS2
      jerkMmS3 s).2.trajectory = t := by
    rw [hresult]
  have hcommand : (motionTrajectoryStart startCounts targetCounts velocityMmS accelerationMmS2
      jerkMmS3 s).2.control.commandCounts = startCounts := by
    rw [hresult]
  constructor
  · rw [htrajectory, hrunning]
  · rw [htrajectory, hwaiting]
  · rw [htrajectory, hindex]
    rfl
  · rw [htrajectory, hfresh.start]
  · rw [htrajectory, hfresh.target]
  · apply hcommand
  · apply hV.le
  · rw [htotal, hprofile]
  · rw [htotal]
    apply hT
  · rw [htotal, hcycles]
    apply totalCyclesOf_isLeast hT hless
  · intro t ht hle
    rw [htotal, ← hprofile, hsegments] at hle
    rw [hsegments]
    apply hfits.lookup σ ht hle
  · apply hisProfile.start.1
  · rw [htotal, ← hprofile, hisProfile.stop.1, Int.cast_sub]
  · rw [htotal]
    rcases direction_eq hσ hD hdistance with ⟨rfl, hlt⟩ | ⟨rfl, hlt⟩
    · left
      refine ⟨hlt, hgrows ?_⟩
      rw [one_mul, Set.uIcc_of_le hV.le]
    · right
      refine ⟨hlt, hgrows ?_⟩
      rw [neg_one_mul, Set.uIcc_of_ge (neg_nonpos.mpr hV.le)]

/-- The planner succeeds if the limits are positive and the time can be counted in cycles. -/
theorem motionTrajectoryStart_succeeds (hdelta : targetCounts.toInt - startCounts.toInt ≠ 0)
    (hV : 0 < velocityMmS * motionCountsPerMmGet s.motorParams)
    (hA : 0 < accelerationMmS2 * motionCountsPerMmGet s.motorParams)
    (hJ : 0 < jerkMmS3 * motionCountsPerMmGet s.motorParams) {plan : ProfileTimes ℝ}
    (hplan : planProfileTimes |((targetCounts.toInt - startCounts.toInt : ℤ) : ℝ)|
      (velocityMmS * motionCountsPerMmGet s.motorParams)
      (accelerationMmS2 * motionCountsPerMmGet s.motorParams)
      (jerkMmS3 * motionCountsPerMmGet s.motorParams) = plan)
    (htime : (4 * plan.timeJerk + 2 * plan.timeConstantAcceleration
      + plan.timeConstantVelocity) / 0.002 < 2 ^ 32 - 1) :
  (motionTrajectoryStart startCounts targetCounts velocityMmS accelerationMmS2 jerkMmS3 s).1 = .ok
  := by
  have hfits := planProfileTimes_fits (abs_pos.mpr (Int.cast_ne_zero.mpr hdelta)) hV hA hJ
  rw [motionTrajectoryStart, if_neg hdelta]
  extract_lets direction distance maxVelocity maxAcceleration maxJerk times
  have hdistance : distance = |((targetCounts.toInt - startCounts.toInt : ℤ) : ℝ)| := by
    dsimp only [distance]
    split
    · rename_i hpos
      rw [ofInt_real, abs_of_pos (Int.cast_pos.mpr hpos)]
    · rename_i hneg
      rw [ofInt_real, Int.cast_neg, abs_of_nonpos (Int.cast_nonpos.mpr (not_lt.mp hneg))]
  have htimes : times = plan := by
    rw [← hplan, ← hdistance]
  rw [hplan, ← htimes] at hfits
  rw [← htimes] at htime
  have hlast : (integrateSegments SegmentStart.rest
      (profileSteps direction maxJerk times)).2.startTime
      = 4 * times.timeJerk + 2 * times.timeConstantAcceleration
        + times.timeConstantVelocity := by
    rw [startTime_last, profileSteps_real, SegmentStart.rest, lit_real, Rat.cast_zero]
    simp only [List.map_cons, List.map_nil, List.sum_cons, List.sum_nil]
    ring
  have hpos : 0 < 4 * times.timeJerk + 2 * times.timeConstantAcceleration
      + times.timeConstantVelocity := by
    linarith [hfits.jerk_pos, hfits.acceleration_nonneg, hfits.velocity_nonneg]
  rw [if_neg, if_neg, if_neg]
  · dsimp only
    rw [if_neg, if_neg]
    · rw [hlast, motionPdoPeriodS_real, Bool.or_eq_true, not_or, le_real, uint32Max_real, not_le]
      exact ⟨Bool.false_ne_true, htime⟩
    · rw [hlast, (motionFloatIsPositive_real _).mpr hpos]
      decide
  · rw [hfits.valid]
    decide
  · rw [transitionsValid_real hA hJ]
    decide
  · rw [(motionFloatIsPositive_real _).mpr hV, (motionFloatIsPositive_real _).mpr hA,
      (motionFloatIsPositive_real _).mpr hJ]
    decide

/-- The executed trajectory, in exact arithmetic.

When the planner has succeeded with `N` cycles and the total time `T`, the stored segments are a
profile of the duration `T`, and `N` is the least number of cycles that covers `T`.  The first `N`
calls of `motion_segment_process` then follow the profile: call `k` commands the position of the
profile at the end of cycle `k`, or at its end, rounded to the nearest integer with halves away
from zero.  The commanded positions go from the start to the target without turning and without
leaving the interval between them, by at most one count more than the velocity limit allows in a
cycle.  The trajectory is running after every call before the `N`-th, which commands the target
and starts waiting for the actual position. -/
theorem executed_trajectory (hne : startCounts ≠ targetCounts)
    (hok : (motionTrajectoryStart startCounts targetCounts velocityMmS accelerationMmS2
      jerkMmS3 s).1 = .ok)
    (inputs : ℕ → PdoInput) :
  let s₀ := (motionTrajectoryStart startCounts targetCounts velocityMmS accelerationMmS2
    jerkMmS3 s).2
  let N := s₀.trajectory.totalCycles.toNat
  let T := s₀.trajectory.totalTimeS
  let profile := profilePosition s₀.trajectory.segment
  let V := velocityMmS * motionCountsPerMmGet s.motorParams
  let after := afterSegments inputs s₀
  let command := fun k => (after k).control.commandCounts.toInt
  (IsProfile s₀.trajectory.segment (targetCounts.toInt - startCounts.toInt : ℤ) V
      (accelerationMmS2 * motionCountsPerMmGet s.motorParams)
      (jerkMmS3 * motionCountsPerMmGet s.motorParams)
      ∧ T = profileTime s₀.trajectory.segment)
    ∧ IsLeast {n : ℕ | T ≤ 0.002 * n} N
    ∧ command 0 = startCounts.toInt
    ∧ (∀ k, 1 ≤ k → k ≤ N →
      command k = roundHalfAway (startCounts.toInt + profile (min (0.002 * k) T)))
    ∧ (∀ i k, i ≤ k → k ≤ N →
      (startCounts.toInt ≤ targetCounts.toInt → command i ≤ command k)
        ∧ (targetCounts.toInt ≤ startCounts.toInt → command k ≤ command i))
    ∧ (∀ k, k ≤ N → command k ∈ Set.uIcc startCounts.toInt targetCounts.toInt)
    ∧ (∀ k, k < N → |(command (k + 1) - command k : ℝ)| ≤ 0.002 * V + 1)
    ∧ (∀ k, k < N →
      (after k).trajectory.running = true ∧ (after k).trajectory.waitingActual = false)
    ∧ (command N = targetCounts.toInt ∧ (after N).trajectory.running = false
      ∧ (after N).trajectory.waitingActual = true)
  := by
  intro s₀ N T profile V after command
  have hplanned : s₀.Planned startCounts targetCounts V :=
    motionTrajectoryStart_planned s hne hok
  have hdelta := delta_ne_zero hne
  obtain ⟨⟨hV, hA, hJ⟩, -⟩ := motionTrajectoryStart_time s hdelta hok
  have hcommand : ∀ k, k ≤ N → command k = roundHalfAway (s₀.trajectory.plannedAt k) :=
    fun k hk => hplanned.afterSegments_command inputs hk
  refine ⟨⟨?_, hplanned.time⟩, hplanned.cycles, ?_, ?_, ?_, ?_, ?_, ?_, ?_⟩
  · obtain ⟨times, σ, D, hσ, hD, hdistance, hfits, hsegments⟩ :=
      motionTrajectoryStart_segment s hdelta hV hA hJ
    rw [show s₀.trajectory.segment = _ from hsegments, ← hdistance]
    apply hfits.isProfile hD.le hV.le hJ hσ
  · rw [hcommand 0 (Nat.zero_le N), hplanned.plannedAt_zero, roundHalfAway_intCast]
  · intro k _ hk
    rw [hcommand k hk, MotionTrajectory.plannedAt, hplanned.start]
  · intro i k hik hk
    rw [hcommand i (hik.trans hk), hcommand k hk]
    obtain ⟨hup, hdown⟩ := hplanned.plannedAt_mono hik
    constructor
    · intro hle
      apply roundHalfAway_mono (hup hle)
    · intro hle
      apply roundHalfAway_mono (hdown hle)
  · intro k hk
    rw [hcommand k hk, Set.mem_uIcc]
    rcases Set.mem_uIcc.mp (hplanned.plannedAt_mem hk) with ⟨hlow, hhigh⟩ | ⟨hlow, hhigh⟩
    · left
      apply roundHalfAway_mem_Icc hlow hhigh
    · right
      apply roundHalfAway_mem_Icc hlow hhigh
  · intro k hk
    rw [hcommand k hk.le, hcommand (k + 1) hk]
    apply (abs_roundHalfAway_sub_le _ _).trans
    have hstep := hplanned.plannedAt_succ k
    linarith
  · intro k hk
    obtain ⟨⟨c, htrajectory⟩, -⟩ := hplanned.afterSegments_lt inputs hk
    rw [show (after k).trajectory = _ from htrajectory]
    exact ⟨hplanned.running, hplanned.waiting⟩
  · obtain ⟨htarget, hrunning, hwaiting⟩ := hplanned.afterSegments_last inputs
    exact ⟨congrArg Int32.toInt htarget, hrunning, hwaiting⟩

end Planner

/-- The durations of a move of two counts of the unit axis. -/
theorem planProfileTimes_short :
  (planProfileTimes 2 1 1 2 : ProfileTimes ℝ) = ⟨1 / 2, 1 / 2, 1 / 2⟩
  := by
  have hphase : accelerationPhase 1 1 2 = (1 / 2, 1 / 2) := by
    rw [accelerationPhase, if_neg (by norm_num)]
    norm_num
  rw [planProfileTimes_real, hphase, if_pos (by norm_num)]
  norm_num

/-- A move of two counts is planned. -/
theorem motionTrajectoryStart_short :
  (motionTrajectoryStart 0 2 1 1 2 unitAxis).1 = .ok
  := by
  have hcounts := motionCountsPerMmGet_unitAxis
  have hdistance : |((Int32.toInt 2 - Int32.toInt 0 : ℤ) : ℝ)| = 2 := by
    rw [show (Int32.toInt 2 - Int32.toInt 0 : ℤ) = 2 by decide]
    norm_num
  refine motionTrajectoryStart_succeeds unitAxis ?_ ?_ ?_ ?_ (?_ : _ = ⟨1 / 2, 1 / 2, 1 / 2⟩) ?_
  · decide
  · rw [hcounts]
    norm_num
  · rw [hcounts]
    norm_num
  · rw [hcounts]
    norm_num
  · rw [hdistance, hcounts, mul_one, mul_one, planProfileTimes_short]
  · norm_num

/-- The move of two counts ends at the target. -/
theorem executed_trajectory_short :
  (motionTrajectoryStart 0 2 1 1 2 unitAxis).1 = .ok
    ∧ (afterSegments (fun _ => System.readyInput 0) (motionTrajectoryStart 0 2 1 1 2 unitAxis).2
        (motionTrajectoryStart 0 2 1 1 2 unitAxis).2.trajectory.totalCycles.toNat
      ).control.commandCounts.toInt = 2
  := by
  refine ⟨motionTrajectoryStart_short, ?_⟩
  obtain ⟨-, -, -, -, -, -, -, -, htarget, -⟩ := executed_trajectory unitAxis (by decide)
    motionTrajectoryStart_short fun _ => System.readyInput 0
  exact htarget.trans (by decide)

end EthercatMaster
