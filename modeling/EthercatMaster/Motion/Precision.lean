import EthercatMaster.Library.Significand
import EthercatMaster.Motion.Start

/-!
# The position command in 24 bits

`motion_segment_process` computes a position in `float`, keeps it between the start and the target,
both converted to `float`, and rounds it to counts.  Here a conversion or an addition is the exact
one, rounded to 24 significant bits.  The command stays between the start and the target unless it
reaches an end that the two roundings move outwards: an odd end above `2 ^ 23`, to which a half is
added, or an end above `2 ^ 24` that is rounded away from the way.  An end that is rounded to
`2 ^ 31` is converted to no `int32_t`.
-/

namespace EthercatMaster

open FloatArith

/-! ### Numbers of 24 bits -/

/-- The nearest number of 24 significant bits. -/
def bits24 (q : ℚ) : ℚ :=
  roundDigits 2 24 q

theorem bits24_mono {x y : ℚ} (h : x ≤ y) :
  bits24 x ≤ bits24 y
  := roundDigits_mono Nat.one_lt_two (by decide) h

@[simp]
theorem bits24_bits24 (x : ℚ) :
  bits24 (bits24 x) = bits24 x
  := roundDigits_roundDigits Nat.one_lt_two (by decide) x

theorem bits24_neg (x : ℚ) :
  bits24 (-x) = -bits24 x
  := roundDigits_neg x

theorem bits24_intCast {n : ℤ} (h : |n| ≤ 2 ^ 24) :
  bits24 n = n
  := roundDigits_intCast Nat.one_lt_two (by decide) h

/-- A `float` with an unbounded exponent. -/
structure Single where
  val : ℚ
  rounded : bits24 val = val
deriving DecidableEq

/-- The conversion of a number to `float`. -/
def Single.round (q : ℚ) : Single :=
  ⟨bits24 q, bits24_bits24 q⟩

/-- The operations are the exact ones, with the result rounded. -/
instance : FloatArith Single where
  add x y := .round (x.val + y.val)
  sub x y := .round (x.val - y.val)
  mul x y := .round (x.val * y.val)
  div x y := .round (x.val / y.val)
  lit q := .round q
  ofInt n := .round n
  lt x y := decide (x.val < y.val)
  le x y := decide (x.val ≤ y.val)
  isFinite _ := true
  toInt32 x := Int32.ofInt (truncate x.val)
  toUInt32 x := UInt32.ofNat (truncate x.val).toNat
  int32Max := .round (2 ^ 31 - 1)
  int32Min := .round (-2 ^ 31)
  uint32Max := .round (2 ^ 32 - 1)

theorem lt_single (x y : Single) :
  lt x y = true ↔ x.val < y.val
  := decide_eq_true_iff

/-! ### The value that is converted -/

section Converted

variable {F : Type} [FloatArith F]

/-- The value that is converted to `int32_t` for a position. -/
def convertedCommand (commandFloat : F) : F :=
  if le (lit 0) commandFloat then commandFloat + lit 0.5 else commandFloat - lit 0.5

theorem roundCommand_eq (commandFloat : F) :
  roundCommand commandFloat = toInt32 (convertedCommand commandFloat)
  := by
  rw [roundCommand, convertedCommand]
  split <;> rfl

namespace MotionTrajectory

/-- The trajectory in its next cycle. -/
def advanced (t : MotionTrajectory F) : MotionTrajectory F :=
  if t.cycleIndex < t.totalCycles then { t with cycleIndex := t.cycleIndex + 1 } else t

/-- The displacement at the cycle a trajectory has reached. -/
def relativePosition (t : MotionTrajectory F) : F :=
  let time : F := ofInt t.cycleIndex.toNat * motionPdoPeriodS
  let elapsedTime := if lt t.totalTimeS time then t.totalTimeS else time
  (segmentAt t.segment elapsedTime).relativePosition elapsedTime

/-- The position at the cycle a trajectory has reached, kept between the start and the target. -/
def clampedPosition (t : MotionTrajectory F) : F :=
  clampCommand t.startCounts t.targetCounts (ofInt t.startCounts.toInt + t.relativePosition)

theorem sample_eq (t : MotionTrajectory F) :
  t.sample = toInt32 (convertedCommand t.clampedPosition)
  := roundCommand_eq _

/-- The lower one of the start and the target. -/
def lowEnd (t : MotionTrajectory F) : ℤ :=
  min t.startCounts.toInt t.targetCounts.toInt

/-- The higher one of the start and the target. -/
def highEnd (t : MotionTrajectory F) : ℤ :=
  max t.startCounts.toInt t.targetCounts.toInt

end MotionTrajectory

theorem motionSegmentAdvance_commandCounts (s : Motion F) :
  (motionSegmentAdvance s).control.commandCounts =
    if s.trajectory.advanced.totalCycles ≤ s.trajectory.advanced.cycleIndex then
      s.trajectory.advanced.targetCounts
    else
      toInt32 (convertedCommand s.trajectory.advanced.clampedPosition)
  := by
  rw [← MotionTrajectory.sample_eq]
  rw [motionSegmentAdvance, ← MotionTrajectory.advanced]
  dsimp only
  split <;> rfl

end Converted

/-! ### Rounding a position to counts -/

/-- The counts that a position of 24 bits is rounded to. -/
def commandOf (c : ℚ) : ℤ :=
  truncate (bits24 (if 0 ≤ c then c + 0.5 else c - 0.5))

theorem truncate_convertedCommand (c : Single) :
  truncate (convertedCommand c).val = commandOf c.val
  := by
  have hzero : (lit 0 : Single).val = 0 := by decide +kernel
  have hhalf : (lit 0.5 : Single).val = 0.5 := by decide +kernel
  rw [convertedCommand, commandOf]
  simp only [le, hzero, decide_eq_true_eq]
  split
  · apply congrArg (fun half => truncate (bits24 (c.val + half))) hhalf
  · apply congrArg (fun half => truncate (bits24 (c.val - half))) hhalf

theorem commandOf_of_nonneg {c : ℚ} (h : 0 ≤ c) :
  commandOf c = ⌊bits24 (c + 1 / 2)⌋
  := by
  have hnonneg : 0 ≤ bits24 (c + 1 / 2) := roundDigits_nonneg Nat.one_lt_two (by linarith)
  rw [commandOf, if_pos h, show (0.5 : ℚ) = 1 / 2 by norm_num, truncate_of_nonneg hnonneg]

/-- The rounding is symmetric. -/
theorem commandOf_neg (c : ℚ) :
  commandOf (-c) = -commandOf c
  := by
  rcases lt_trichotomy c 0 with hc | rfl | hc
  · rw [commandOf, commandOf, if_pos (by linarith), if_neg (by linarith), ← truncate_neg,
      ← bits24_neg]
    congr 2
    ring
  · decide +kernel
  · rw [commandOf, commandOf, if_neg (by linarith), if_pos (by linarith), ← truncate_neg,
      ← bits24_neg]
    congr 2
    ring

theorem commandOf_le_of_neg {c : ℚ} (hc : bits24 c = c) (h : c < 0) {n : ℤ} (hn : c ≤ n) :
  commandOf c ≤ n
  := by
  have hround : bits24 (c - 1 / 2) ≤ c := by
    conv_rhs => rw [← hc]
    apply bits24_mono
    linarith
  rw [commandOf, if_neg (not_le.mpr h), show (0.5 : ℚ) = 1 / 2 by norm_num,
    truncate_of_nonpos (by linarith), Int.ceil_le]
  apply hround.trans hn

/-- Halves below `2 ^ 23` have 24 bits. -/
theorem bits24_add_half {n : ℤ} (hlow : 0 ≤ n) (hhigh : n < 2 ^ 23) :
  bits24 (n + 1 / 2) = n + 1 / 2
  := by
  have hdigits : |2 * n + 1| ≤ ((2 : ℕ) : ℤ) ^ 24 := by
    rw [abs_of_nonneg (by omega)]
    push_cast
    omega
  have := roundDigits_of_digits (α := ℚ) (k := -1) Nat.one_lt_two (by decide) hdigits
  have hvalue : ((2 * n + 1 : ℤ) : ℚ) * ((2 : ℕ) : ℚ) ^ (-1 : ℤ) = n + 1 / 2 := by
    push_cast
    rw [zpow_neg_one]
    ring
  rwa [hvalue] at this

/-- From `2 ^ 23` on the last place is a power of two. -/
theorem exists_lastPlace_eq {k : ℕ} {x : ℚ} (h : 2 ^ (23 + k) ≤ x) :
  ∃ j : ℕ, k ≤ j ∧ lastPlace 2 24 x = 2 ^ j
  := by
  have hpos : 0 < x := lt_of_lt_of_le (by positivity) h
  have hlog : (23 + k : ℤ) ≤ Int.log 2 |x| := by
    rw [abs_of_pos hpos, ← Int.zpow_le_iff_le_log Nat.one_lt_two hpos]
    exact_mod_cast h
  obtain ⟨j, hj⟩ := Int.eq_ofNat_of_zero_le (show 0 ≤ Int.log 2 |x| + 1 - 24 by omega)
  refine ⟨j, by omega, ?_⟩
  rw [lastPlace, show (Int.log 2 |x| + 1 - (24 : ℕ) : ℤ) = j from hj, zpow_natCast]
  rfl

/-- Numbers of 24 bits are integers from `2 ^ 23` on. -/
theorem exists_intCast_eq {x : ℚ} (hx : bits24 x = x) (h : 2 ^ 23 ≤ x) :
  ∃ n : ℤ, x = n
  := by
  obtain ⟨j, -, hj⟩ := exists_lastPlace_eq (k := 0) h
  obtain ⟨m, -, hm⟩ := exists_mul_lastPlace Nat.one_lt_two hx
  use m * 2 ^ j
  rw [hm, hj]
  push_cast
  rfl

/-- From `2 ^ 24` on a half is lost. -/
theorem bits24_add_half_of_large {x : ℚ} (hx : bits24 x = x) (h : 2 ^ 24 ≤ x) :
  bits24 (x + 1 / 2) = x
  := by
  obtain ⟨j, hlow, hj⟩ := exists_lastPlace_eq (k := 1) h
  apply roundDigits_add_of_lt Nat.one_lt_two hx
  · linarith
  · norm_num
  · rw [hj]
    have := pow_le_pow_right₀ (one_le_two (α := ℚ)) hlow
    linarith

/-- Between `2 ^ 23` and `2 ^ 24` a half goes to the even neighbour. -/
theorem bits24_add_half_of_mem {n : ℤ} (hlow : 2 ^ 23 ≤ n) (hhigh : n < 2 ^ 24) :
  bits24 (n + 1 / 2) = (if Even n then n else n + 1 : ℤ)
  := by
  have hcastLow : (2 ^ 23 : ℚ) ≤ n := by exact_mod_cast hlow
  have hcastHigh : (n : ℚ) + 1 ≤ 2 ^ 24 := by exact_mod_cast hhigh
  have hpos : (0 : ℚ) < n + 1 / 2 := by linarith
  have hlog : Int.log 2 |(n : ℚ) + 1 / 2| = 23 := by
    rw [abs_of_pos hpos]
    apply le_antisymm
    · rw [← Int.lt_add_one_iff, ← Int.lt_zpow_iff_log_lt Nat.one_lt_two hpos]
      norm_num
      linarith
    · rw [← Int.zpow_le_iff_le_log Nat.one_lt_two hpos]
      norm_num
      linarith
  have hplace : lastPlace 2 24 ((n : ℚ) + 1 / 2) = 1 := by
    rw [lastPlace, hlog]
    norm_num
  rw [bits24, roundDigits, hplace, div_one, mul_one, roundHalfEven_half]

/-- From `2 ^ 24` on a position is its own number of counts. -/
theorem commandOf_of_large {c : ℚ} (hc : bits24 c = c) (h : 2 ^ 24 ≤ c) :
  (commandOf c : ℚ) = c
  := by
  obtain ⟨n, hn⟩ := exists_intCast_eq hc (le_trans (by norm_num) h)
  rw [commandOf_of_nonneg (le_trans (by norm_num) h), bits24_add_half_of_large hc h, hn,
    Int.floor_intCast]

/-- A position below an integer is rounded to at most that integer. -/
theorem commandOf_le_of_lt {c : ℚ} (hc : bits24 c = c) {n : ℤ} (h : c < n) :
  commandOf c ≤ n
  := by
  rcases lt_or_ge c 0 with hneg | hnonneg
  · apply commandOf_le_of_neg hc hneg h.le
  have hn : (0 : ℤ) ≤ n := by exact_mod_cast (hnonneg.trans h.le)
  rw [commandOf_of_nonneg hnonneg, ← Int.lt_add_one_iff, Int.floor_lt]
  push_cast
  rcases lt_or_ge c (2 ^ 23) with hsmall | hlarge
  · rcases lt_or_ge n (2 ^ 23) with hsmall' | hlarge'
    · calc bits24 (c + 1 / 2) ≤ bits24 (n + 1 / 2) := by
            apply bits24_mono
            linarith
        _ < n + 1 := by
            rw [bits24_add_half hn hsmall']
            linarith
    · have hcast : (2 ^ 23 : ℚ) ≤ n := by exact_mod_cast hlarge'
      calc bits24 (c + 1 / 2) ≤ bits24 (((2 ^ 23 : ℤ) : ℚ) + 1 / 2) := by
            apply bits24_mono
            push_cast
            linarith
        _ = 2 ^ 23 := by
            rw [bits24_add_half_of_mem le_rfl (by norm_num), if_pos (by decide)]
            norm_num
        _ < n + 1 := by linarith
  · rcases lt_or_ge c (2 ^ 24) with hmiddle | hlast
    · obtain ⟨k, rfl⟩ := exists_intCast_eq hc hlarge
      have hk : k + 1 ≤ n := by exact_mod_cast h
      have hlow : (2 ^ 23 : ℤ) ≤ k := by exact_mod_cast hlarge
      have hhigh : k < (2 ^ 24 : ℤ) := by exact_mod_cast hmiddle
      calc bits24 (k + 1 / 2) ≤ bits24 ((k + 1 : ℤ) : ℚ) := by
            apply bits24_mono
            push_cast
            linarith
        _ = ((k + 1 : ℤ) : ℚ) := by
            apply bits24_intCast
            rw [abs_of_nonneg (by omega)]
            omega
        _ < n + 1 := by
            have : ((k + 1 : ℤ) : ℚ) ≤ n := by exact_mod_cast hk
            linarith
    · rw [bits24_add_half_of_large hc hlast]
      linarith

/-- The two roundings move an end of the way outwards: it is odd, and a half is added to it between
`2 ^ 23` and `2 ^ 24`, or its own conversion exceeds it. -/
def RoundedOut (n : ℤ) : Prop :=
  (Odd n ∧ 2 ^ 23 < n ∧ n < 2 ^ 24) ∨ n < bits24 n

/-- From `2 ^ 24` on, in either direction, the command at an end is the end as converted. -/
theorem commandOf_bits24_of_large {n : ℤ} (h : 2 ^ 24 ≤ |n|) :
  (commandOf (bits24 n) : ℚ) = bits24 n
  := by
  have hend : bits24 ((2 ^ 24 : ℤ) : ℚ) = 2 ^ 24 := by
    rw [bits24_intCast (by norm_num)]
    norm_num
  have hlarge : ∀ {m : ℤ}, 2 ^ 24 ≤ m → (commandOf (bits24 m) : ℚ) = bits24 m := by
    intro m hm
    apply commandOf_of_large (bits24_bits24 _)
    rw [← hend]
    apply bits24_mono
    exact_mod_cast hm
  rcases abs_choice n with hsign | hsign
  · rw [hsign] at h
    apply hlarge h
  · rw [hsign] at h
    have hneg := hlarge h
    rw [Int.cast_neg, bits24_neg, commandOf_neg, Int.cast_neg] at hneg
    apply neg_inj.mp hneg

/-- An end is rounded to at most itself unless it is moved outwards. -/
theorem commandOf_bits24_le_iff (n : ℤ) :
  commandOf (bits24 n) ≤ n ↔ ¬ RoundedOut n
  := by
  rw [RoundedOut]
  rcases le_or_gt (2 ^ 24) |n| with hlarge | hsmall
  · have hcast : commandOf (bits24 n) ≤ n ↔ bits24 n ≤ n := by
      rw [← commandOf_bits24_of_large hlarge, Int.cast_le, commandOf_bits24_of_large hlarge]
    rw [hcast, ← not_lt, not_iff_not]
    constructor
    · exact .inr
    · rintro (⟨-, hlow, hhigh⟩ | h)
      · rw [abs_of_pos (by omega)] at hlarge
        omega
      · exact h
  · have hexact : bits24 n = n := bits24_intCast hsmall.le
    rw [hexact, or_iff_left (lt_irrefl _)]
    rw [abs_lt] at hsmall
    rcases lt_or_ge n 0 with hneg | hnonneg
    · apply iff_of_true
      · apply commandOf_le_of_neg hexact (by exact_mod_cast hneg) le_rfl
      · omega
    · rw [commandOf_of_nonneg (by exact_mod_cast hnonneg)]
      rcases lt_or_ge n (2 ^ 23) with hbelow | habove
      · rw [bits24_add_half hnonneg hbelow]
        apply iff_of_true
        · rw [← Int.lt_add_one_iff, Int.floor_lt]
          push_cast
          linarith
        · omega
      · rw [bits24_add_half_of_mem habove hsmall.2, Int.floor_intCast]
        split
        · rename_i heven
          apply iff_of_true le_rfl
          rintro ⟨hodd, -⟩
          exact (Int.not_odd_iff_even.mpr heven) hodd
        · rename_i hodd
          rw [Int.not_even_iff_odd] at hodd
          obtain ⟨k, rfl⟩ := hodd
          apply iff_of_false
          · omega
          · rw [not_not]
            exact ⟨⟨k, rfl⟩, by omega, hsmall.2⟩

/-! ### The command between the ends -/

/-- A way reaches an end that is moved outwards. -/
def Overshoots (n : ℤ) (x : ℚ) : Prop :=
  RoundedOut n ∧ bits24 n ≤ bits24 x

/-- A position kept between two ends is rounded to at most the upper one, unless it overshoots. -/
theorem commandOf_clamp_le_iff {lo hi : ℤ} (h : lo ≤ hi) (x : ℚ) :
  commandOf (bits24 (max lo (min hi x))) ≤ hi ↔ ¬ Overshoots hi (max lo x)
  := by
  rcases le_or_gt (bits24 hi) (bits24 (max lo x)) with hreached | hbelow
  · have hclamp : bits24 (max lo (min hi x)) = bits24 hi := by
      apply le_antisymm
      · apply bits24_mono
        apply max_le (by exact_mod_cast h) (min_le_left _ _)
      · rcases le_total x hi with hx | hx
        · rwa [min_eq_right hx]
        · rw [min_eq_left hx]
          apply bits24_mono (le_max_right _ _)
    rw [hclamp, commandOf_bits24_le_iff, Overshoots, and_iff_left hreached]
  · have hclamp : bits24 (max lo (min hi x)) < hi := by
      have hlt : bits24 (max lo (min hi x)) < bits24 hi := by
        apply lt_of_le_of_lt _ hbelow
        apply bits24_mono
        apply max_le_max le_rfl (min_le_right _ _)
      by_contra hge
      have := bits24_mono (not_lt.mp hge)
      rw [bits24_bits24] at this
      exact absurd hlt (not_lt.mpr this)
    apply iff_of_true
    · apply commandOf_le_of_lt (bits24_bits24 _) hclamp
    · rintro ⟨-, hreached⟩
      exact absurd hbelow (not_lt.mpr hreached)

/-- The same at the lower end, by symmetry. -/
theorem le_commandOf_clamp_iff {lo hi : ℤ} (h : lo ≤ hi) (x : ℚ) :
  lo ≤ commandOf (bits24 (max lo (min hi x))) ↔ ¬ Overshoots (-lo) (-(min (hi : ℚ) x))
  := by
  have hcast : (lo : ℚ) ≤ hi := by exact_mod_cast h
  have hmirror := commandOf_clamp_le_iff (neg_le_neg h) (-x)
  have hclamp : max ((-hi : ℤ) : ℚ) (min ((-lo : ℤ) : ℚ) (-x)) = -(max (lo : ℚ) (min (hi : ℚ) x)) := by
    push_cast
    rw [min_neg_neg, max_neg_neg, max_min_distrib_left, max_eq_right hcast]
  have hlow : max ((-hi : ℤ) : ℚ) (-x) = -(min (hi : ℚ) x) := by
    push_cast
    apply max_neg_neg _ _
  rw [hclamp, hlow, bits24_neg, commandOf_neg, neg_le_neg_iff] at hmirror
  exact hmirror

/-- The clamped position is the exact one, clamped between the exact ends and rounded. -/
theorem clampCommand_val (startCounts targetCounts : Int32) (x : ℚ) :
  (clampCommand startCounts targetCounts (Single.round x)).val =
    bits24 (max ((min startCounts.toInt targetCounts.toInt : ℤ) : ℚ)
      (min ((max startCounts.toInt targetCounts.toInt : ℤ) : ℚ) x))
  := by
  have hmono : Monotone bits24 := fun _ _ h => bits24_mono h
  have hround : ∀ q, (Single.round q).val = bits24 q := fun _ => rfl
  have hend : ∀ n, (ofInt n : Single) = .round n := fun _ => rfl
  rw [hmono.map_max, hmono.map_min, clampCommand, hend, hend]
  split
  · rename_i h
    have hends : bits24 startCounts.toInt ≤ bits24 targetCounts.toInt :=
      hmono (by exact_mod_cast h)
    rw [min_eq_left h, max_eq_right h]
    split
    · rename_i hlow
      rw [lt_single, hround, hround] at hlow
      rw [max_eq_left ((min_le_right _ _).trans hlow.le), hround]
    · rename_i hlow
      rw [lt_single, hround, hround, not_lt] at hlow
      split
      · rename_i hhigh
        rw [lt_single, hround, hround] at hhigh
        rw [min_eq_left hhigh.le, max_eq_right hends, hround]
      · rename_i hhigh
        rw [lt_single, hround, hround, not_lt] at hhigh
        rw [min_eq_right hhigh, max_eq_right hlow, hround]
  · rename_i h
    have hle := (not_le.mp h).le
    have hends : bits24 targetCounts.toInt ≤ bits24 startCounts.toInt :=
      hmono (by exact_mod_cast hle)
    rw [min_eq_right hle, max_eq_left hle]
    split
    · rename_i hhigh
      rw [lt_single, hround, hround] at hhigh
      rw [min_eq_left hhigh.le, max_eq_right hends, hround]
    · rename_i hhigh
      rw [lt_single, hround, hround, not_lt] at hhigh
      split
      · rename_i hlow
        rw [lt_single, hround, hround] at hlow
        rw [max_eq_left ((min_le_right _ _).trans hlow.le), hround]
      · rename_i hlow
        rw [lt_single, hround, hround, not_lt] at hlow
        rw [min_eq_right hhigh, max_eq_right hlow, hround]

namespace MotionTrajectory

/-- The position at the cycle a trajectory has reached, before the addition is rounded. -/
def exactPosition (t : MotionTrajectory Single) : ℚ :=
  (ofInt t.startCounts.toInt : Single).val + t.relativePosition.val

theorem clampedPosition_val (t : MotionTrajectory Single) :
  t.clampedPosition.val = bits24 (max t.lowEnd (min (t.highEnd : ℚ) t.exactPosition))
  := clampCommand_val t.startCounts t.targetCounts t.exactPosition

theorem lowEnd_le_highEnd {F : Type} (t : MotionTrajectory F) :
  t.lowEnd ≤ t.highEnd
  := min_le_max

end MotionTrajectory

/-- A cycle commands an `int32_t` between the start and the target, and converts nothing that is no
`int32_t`. -/
structure Confined (s : Motion Single) : Prop where
  converts : FitsInt32 (truncate (convertedCommand s.trajectory.advanced.clampedPosition).val)
  low : s.trajectory.lowEnd ≤ (motionSegmentAdvance s).control.commandCounts.toInt
  high : (motionSegmentAdvance s).control.commandCounts.toInt ≤ s.trajectory.highEnd

/-- An end is converted to `2 ^ 31` in the last 64 counts. -/
theorem bits24_eq_iff {n : ℤ} (h : n < 2 ^ 31) :
  bits24 n = 2 ^ 31 ↔ 2 ^ 31 - 64 ≤ n
  := by
  have htop : bits24 ((2 ^ 31 : ℤ) : ℚ) = 2 ^ 31 := by decide +kernel
  have hlast : bits24 ((2 ^ 31 - 64 : ℤ) : ℚ) = 2 ^ 31 := by decide +kernel
  have hbefore : bits24 ((2 ^ 31 - 65 : ℤ) : ℚ) = 2 ^ 31 - 128 := by decide +kernel
  constructor
  · intro heq
    by_contra hlt
    have hle : n ≤ 2 ^ 31 - 65 := by omega
    have hmono := bits24_mono (show (n : ℚ) ≤ ((2 ^ 31 - 65 : ℤ) : ℚ) by exact_mod_cast hle)
    rw [heq, hbefore] at hmono
    norm_num at hmono
  · intro hle
    apply le_antisymm
    · rw [← htop]
      apply bits24_mono
      exact_mod_cast h.le
    · rw [← hlast]
      apply bits24_mono
      exact_mod_cast hle

/-- A position of 24 bits in the range of `int32_t` is rounded to an `int32_t` unless it is
`2 ^ 31`. -/
theorem fitsInt32_commandOf_iff {c : ℚ} (hc : bits24 c = c) (hlow : -2 ^ 31 ≤ c)
    (hhigh : c ≤ 2 ^ 31) :
  FitsInt32 (commandOf c) ↔ c < 2 ^ 31
  := by
  have htop : commandOf (2 ^ 31) = 2 ^ 31 := by decide +kernel
  have hlast : bits24 ((2 ^ 31 - 64 : ℤ) : ℚ) = 2 ^ 31 := by decide +kernel
  constructor
  · intro hfits
    apply lt_of_le_of_ne hhigh
    rintro rfl
    rw [FitsInt32, htop] at hfits
    apply lt_irrefl _ hfits.2
  · intro hlt
    constructor
    · rw [← neg_le_neg_iff, ← commandOf_neg]
      rcases hlow.eq_or_lt with rfl | habove
      · rw [neg_neg, htop, neg_neg]
      · have hbelow : -c < ((2 ^ 31 : ℤ) : ℚ) := by
          push_cast
          linarith
        rw [neg_neg]
        apply commandOf_le_of_lt _ hbelow
        rw [bits24_neg, hc]
    · have hbelow : c < ((2 ^ 31 - 64 : ℤ) : ℚ) := by
        by_contra hge
        have hmono := bits24_mono (not_lt.mp hge)
        rw [hlast, hc] at hmono
        exact absurd hlt (not_lt.mpr hmono)
      have := commandOf_le_of_lt hc hbelow
      omega

/-- The ends are `int32_t`. -/
theorem MotionTrajectory.ends_mem {F : Type} (t : MotionTrajectory F) :
  -2 ^ 31 ≤ t.lowEnd ∧ t.highEnd < 2 ^ 31
  := by
  rw [lowEnd, highEnd]
  have := t.startCounts.le_toInt
  have := t.targetCounts.le_toInt
  have := t.startCounts.toInt_lt
  have := t.targetCounts.toInt_lt
  omega

/-- The value that is converted is no `int32_t` exactly if the way reaches an end that is converted
to `2 ^ 31`. -/
theorem converts_iff (t : MotionTrajectory Single) :
  FitsInt32 (truncate (convertedCommand t.clampedPosition).val) ↔
    ¬ (2 ^ 31 - 64 ≤ t.highEnd
      ∧ bits24 t.highEnd ≤ bits24 (max (t.lowEnd : ℚ) t.exactPosition))
  := by
  obtain ⟨hmin, hmax⟩ := t.ends_mem
  have hends : (t.lowEnd : ℚ) ≤ t.highEnd := by exact_mod_cast t.lowEnd_le_highEnd
  have hlowest : bits24 ((-2 ^ 31 : ℤ) : ℚ) = -2 ^ 31 := by decide +kernel
  have hhighest : bits24 ((2 ^ 31 : ℤ) : ℚ) = 2 ^ 31 := by decide +kernel
  have hlow : -2 ^ 31 ≤ bits24 (max t.lowEnd (min (t.highEnd : ℚ) t.exactPosition)) := by
    rw [← hlowest]
    apply bits24_mono
    apply le_trans _ (le_max_left _ _)
    exact_mod_cast hmin
  have hhigh : bits24 t.highEnd ≤ 2 ^ 31 := by
    rw [← hhighest]
    apply bits24_mono
    exact_mod_cast hmax.le
  have hclamp : bits24 (max t.lowEnd (min (t.highEnd : ℚ) t.exactPosition)) =
      min (bits24 t.highEnd) (bits24 (max (t.lowEnd : ℚ) t.exactPosition)) := by
    have hmono : Monotone bits24 := fun _ _ h => bits24_mono h
    rw [max_min_distrib_left, max_eq_right hends, hmono.map_min]
  rw [truncate_convertedCommand, t.clampedPosition_val,
    fitsInt32_commandOf_iff (bits24_bits24 _) hlow (hclamp ▸ (min_le_left _ _).trans hhigh), hclamp,
    ← bits24_eq_iff hmax, ← not_le, not_iff_not, le_min_iff]
  constructor
  · rintro ⟨htop, hreached⟩
    exact ⟨le_antisymm hhigh htop, hhigh.trans hreached⟩
  · rintro ⟨htop, hreached⟩
    exact ⟨htop.ge, htop.symm.le.trans hreached⟩

theorem MotionTrajectory.advanced_ends {F : Type} (t : MotionTrajectory F) :
  t.advanced.lowEnd = t.lowEnd ∧ t.advanced.highEnd = t.highEnd
    ∧ t.advanced.targetCounts = t.targetCounts
  := by
  rw [advanced]
  split
  · exact ⟨rfl, rfl, rfl⟩
  · exact ⟨rfl, rfl, rfl⟩

/-- The command of the last cycle is the target. -/
theorem motionSegmentAdvance_last {F : Type} [FloatArith F] {s : Motion F}
    (h : s.trajectory.advanced.totalCycles ≤ s.trajectory.advanced.cycleIndex) :
  (motionSegmentAdvance s).control.commandCounts = s.trajectory.targetCounts
  := by
  rw [motionSegmentAdvance_commandCounts, if_pos h, s.trajectory.advanced_ends.2.2]

/-- Before the last cycle, the command is the rounded position. -/
theorem motionSegmentAdvance_running {s : Motion Single}
    (h : s.trajectory.advanced.cycleIndex < s.trajectory.advanced.totalCycles)
    (hfits : FitsInt32
      (truncate (convertedCommand s.trajectory.advanced.clampedPosition).val)) :
  (motionSegmentAdvance s).control.commandCounts.toInt =
    commandOf (bits24 (max s.trajectory.lowEnd
      (min (s.trajectory.highEnd : ℚ) s.trajectory.advanced.exactPosition)))
  := by
  obtain ⟨hlow, hhigh, -⟩ := s.trajectory.advanced_ends
  rw [motionSegmentAdvance_commandCounts, if_neg (UInt32.not_le.mpr h), ← hlow, ← hhigh,
    ← MotionTrajectory.clampedPosition_val, ← truncate_convertedCommand]
  apply Int32.toInt_ofInt_of_le hfits.1 hfits.2

/-- A cycle is confined exactly if the position can be converted and, before the last cycle, the
rounded position lies between the ends. -/
theorem confined_iff_commandOf (s : Motion Single) :
  Confined s ↔
    FitsInt32 (truncate (convertedCommand s.trajectory.advanced.clampedPosition).val)
      ∧ (s.trajectory.advanced.cycleIndex < s.trajectory.advanced.totalCycles →
        commandOf (bits24 (max s.trajectory.lowEnd
            (min (s.trajectory.highEnd : ℚ) s.trajectory.advanced.exactPosition)))
          ≤ s.trajectory.highEnd
        ∧ s.trajectory.lowEnd ≤ commandOf (bits24 (max s.trajectory.lowEnd
            (min (s.trajectory.highEnd : ℚ) s.trajectory.advanced.exactPosition))))
  := by
  constructor
  · intro h
    refine ⟨h.converts, ?_⟩
    intro hrunning
    rw [← motionSegmentAdvance_running hrunning h.converts]
    exact ⟨h.high, h.low⟩
  · rintro ⟨hfits, hrunning⟩
    by_cases hlast : s.trajectory.advanced.totalCycles ≤ s.trajectory.advanced.cycleIndex
    · refine ⟨hfits, ?_, ?_⟩
      · rw [motionSegmentAdvance_last hlast]
        apply min_le_right _ _
      · rw [motionSegmentAdvance_last hlast]
        apply le_max_right _ _
    · have hbefore := UInt32.not_le.mp hlast
      obtain ⟨hle, hge⟩ := hrunning hbefore
      rw [← motionSegmentAdvance_running hbefore hfits] at hle hge
      exact ⟨hfits, hge, hle⟩

/-- A cycle stays between the start and the target exactly if the way does not reach a highest end
in the last 64 counts below `2 ^ 31`, and, before the last cycle, no end that is rounded
outwards. -/
theorem confined_iff (s : Motion Single) :
  Confined s ↔
    ¬ (2 ^ 31 - 64 ≤ s.trajectory.highEnd ∧ bits24 s.trajectory.highEnd
        ≤ bits24 (max (s.trajectory.lowEnd : ℚ) s.trajectory.advanced.exactPosition))
      ∧ (s.trajectory.advanced.cycleIndex < s.trajectory.advanced.totalCycles →
        ¬ Overshoots s.trajectory.highEnd
            (max (s.trajectory.lowEnd : ℚ) s.trajectory.advanced.exactPosition)
        ∧ ¬ Overshoots (-s.trajectory.lowEnd)
            (-(min (s.trajectory.highEnd : ℚ) s.trajectory.advanced.exactPosition)))
  := by
  obtain ⟨hlow, hhigh, -⟩ := s.trajectory.advanced_ends
  have hends := s.trajectory.lowEnd_le_highEnd
  have hconverts := converts_iff s.trajectory.advanced
  rw [hlow, hhigh] at hconverts
  rw [← hconverts, ← commandOf_clamp_le_iff hends, ← le_commandOf_clamp_iff hends]
  apply confined_iff_commandOf

/-- An end up to `2 ^ 23` is not rounded outwards. -/
theorem not_roundedOut {n : ℤ} (h : |n| ≤ 2 ^ 23) :
  ¬ RoundedOut n
  := by
  have hexact : bits24 n = n := bits24_intCast (by omega)
  rw [RoundedOut, hexact, or_iff_left (lt_irrefl _)]
  rintro ⟨-, hlow, -⟩
  rw [abs_le] at h
  omega

/-- Every cycle of a way between ends up to `2 ^ 23` in absolute value stays between them. -/
theorem confined_of_small {s : Motion Single} (hstart : |s.trajectory.startCounts.toInt| ≤ 2 ^ 23)
    (htarget : |s.trajectory.targetCounts.toInt| ≤ 2 ^ 23) :
  Confined s
  := by
  obtain ⟨hlow, hhigh, -⟩ := s.trajectory.advanced_ends
  have hends := s.trajectory.lowEnd_le_highEnd
  have hconverts := converts_iff s.trajectory.advanced
  rw [hlow, hhigh] at hconverts
  rw [abs_le] at hstart htarget
  have hlowEnd : |-s.trajectory.lowEnd| ≤ 2 ^ 23 := by
    rw [abs_neg, abs_le, MotionTrajectory.lowEnd]
    omega
  have hhighEnd : |s.trajectory.highEnd| ≤ 2 ^ 23 := by
    rw [abs_le, MotionTrajectory.highEnd]
    omega
  rw [confined_iff_commandOf, hconverts, commandOf_clamp_le_iff hends,
    le_commandOf_clamp_iff hends]
  refine ⟨?_, fun _ => ⟨?_, ?_⟩⟩
  · rintro ⟨hlarge, -⟩
    rw [abs_le] at hhighEnd
    omega
  · rintro ⟨hrounded, -⟩
    exact not_roundedOut hhighEnd hrounded
  · rintro ⟨hrounded, -⟩
    exact not_roundedOut hlowEnd hrounded

/-! ### A slow start -/

/-- The root routines in 24 bits. -/
instance : PositiveRoots Single where
  positiveSqrt := motionPositiveSqrt
  positiveCbrt := motionPositiveCbrt 64

/-- A move from the odd position `2 ^ 23 + 1` to zero, on an axis with one count in a millimetre, as
the planner starts it. -/
def slowStart : Motion Single :=
  (motionTrajectoryStart (2 ^ 23 + 1) 0 (lit 1000) (lit 1000) (lit 1000)
    { (Motion.init : Motion Single) with
      motorParams := ⟨lit 1, lit 1, lit 1, lit 1, lit 60000⟩ }).2

/-- The first cycle leaves by less than a count, and commands a position behind the start. -/
theorem not_confined_slowStart :
  slowStart.trajectory.running = true ∧ ¬ Confined slowStart
  := by
  refine ⟨by decide +kernel, ?_⟩
  intro h
  have hcommand : (motionSegmentAdvance slowStart).control.commandCounts = 2 ^ 23 + 2 := by
    decide +kernel
  have hend : slowStart.trajectory.highEnd = 2 ^ 23 + 1 := by decide +kernel
  have hhigh := h.high
  rw [hcommand, hend] at hhigh
  exact absurd hhigh (by decide)

end EthercatMaster
