import Mathlib.Algebra.Order.Floor.Ring
import Mathlib.Algebra.Order.Archimedean.Real.Basic
import Mathlib.Tactic.Linarith
import Mathlib.Tactic.NormNum

/-!
# Timers

The timers of SOEM count ticks of the operating system.  A timeout is rounded up to milliseconds,
but the tick in which a timer starts has already begun, so that a timer can fire before its time
has passed.  Real time is in microseconds.
-/

namespace EthercatMaster

/-- `configTICK_RATE_HZ`. -/
def configTickRateHz : UInt64 := 1000

/-- `pdMS_TO_TICKS`. -/
def pdMsToTicks (xTimeInMs : UInt32) : UInt32 :=
  (xTimeInMs.toUInt64 * configTickRateHz / 1000).toUInt32

/-- `ec_timet`. -/
structure EcTime where
  sec : UInt32
  usec : UInt32
deriving DecidableEq, Repr

/-- `osal_timert`: `sec` is the tick of the start, and `usec` the number of ticks. -/
structure OsalTimer where
  stopTime : EcTime
deriving DecidableEq, Repr

/-- The ticks of a timeout. -/
def timeoutTicks (timeoutUs : UInt32) : UInt32 :=
  let deltaMs := (timeoutUs + 999) / 1000
  let timeoutTicks := pdMsToTicks deltaMs
  if 0 < timeoutUs ∧ timeoutTicks = 0 then 1 else timeoutTicks

/-- `osal_timer_start`, at a tick. -/
def osalTimerStart (self : Option OsalTimer) (timeoutUs tickCount : UInt32) : Option OsalTimer :=
  self.map fun _ => ⟨⟨tickCount, timeoutTicks timeoutUs⟩⟩

/-- `osal_timer_is_expired`, at a tick. -/
def osalTimerIsExpired (self : Option OsalTimer) (tickCount : UInt32) : Bool :=
  match self with
  | none => true
  | some timer =>
      let elapsed := tickCount - timer.stopTime.sec
      timer.stopTime.usec ≤ elapsed

/-! ### Ticks -/

/-- `xTaskGetTickCount` at a time: the whole milliseconds, in the arithmetic of the counter. -/
noncomputable def xTaskGetTickCount (time : ℝ) : UInt32 :=
  UInt32.ofInt ⌊time * 1000⁻¹⌋

/-- Whether a timer that is started at a time has expired at another one. -/
noncomputable def expired (timer : OsalTimer) (timeoutUs : UInt32) (start now : ℝ) : Bool :=
  osalTimerIsExpired (osalTimerStart (some timer) timeoutUs (xTaskGetTickCount start))
    (xTaskGetTickCount now)

/-- A timer never fires early, and it fires within two ticks, until the counter of ticks has come
round. -/
structure KeepsTime (timer : OsalTimer) (timeoutUs : UInt32) (start : ℝ) : Prop where
  not_early : ∀ now, start ≤ now → expired timer timeoutUs start now = true →
    timeoutUs.toNat ≤ now - start
  fires : ∀ now, timeoutUs.toNat + 2 * 1000 ≤ now - start → now - start ≤ (2 ^ 32 - 1) * 1000 →
    expired timer timeoutUs start now = true

theorem toNat_pdMsToTicks (xTimeInMs : UInt32) :
  (pdMsToTicks xTimeInMs).toNat = xTimeInMs.toNat
  := by
  have hlt := xTimeInMs.toNat_lt
  have hrate : (1000 : UInt64).toNat = 1000 := rfl
  have hproduct : (xTimeInMs.toUInt64 * configTickRateHz).toNat = xTimeInMs.toNat * 1000 := by
    rw [UInt64.toNat_mul, UInt32.toNat_toUInt64, configTickRateHz, hrate]
    omega
  rw [pdMsToTicks, UInt64.toNat_toUInt32, UInt64.toNat_div, hproduct, hrate]
  omega

/-- A timeout is rounded up to milliseconds, unless the addition overflows. -/
theorem toNat_timeoutTicks (timeoutUs : UInt32) :
  (timeoutTicks timeoutUs).toNat
    = if timeoutUs.toNat ≤ 2 ^ 32 - 1000 then (timeoutUs.toNat + 999) / 1000 else 1
  := by
  have hlt := timeoutUs.toNat_lt
  have hticks : (pdMsToTicks ((timeoutUs + 999) / 1000)).toNat
      = (timeoutUs.toNat + 999) % 2 ^ 32 / 1000 := by
    rw [toNat_pdMsToTicks, UInt32.toNat_div, UInt32.toNat_add]
    rfl
  simp only [timeoutTicks, UInt32.lt_iff_toNat_lt, ← UInt32.toNat_inj, hticks, UInt32.toNat_zero]
  split
  · rw [UInt32.toNat_one]
    split
    · omega
    · rfl
  · rw [hticks]
    split
    · omega
    · omega

/-- A timer has expired when as many ticks have passed, in the arithmetic of the counter. -/
theorem expired_iff (timer : OsalTimer) (timeoutUs : UInt32) (start now : ℝ) :
  expired timer timeoutUs start now = true
    ↔ ((timeoutTicks timeoutUs).toNat : ℤ) ≤ (⌊now * 1000⁻¹⌋ - ⌊start * 1000⁻¹⌋) % 2 ^ 32
  := by
  have helapsed : ((xTaskGetTickCount now - xTaskGetTickCount start).toNat : ℤ)
      = (⌊now * 1000⁻¹⌋ - ⌊start * 1000⁻¹⌋) % 2 ^ 32 := by
    rw [xTaskGetTickCount, xTaskGetTickCount, UInt32.ofInt, UInt32.ofInt, UInt32.toNat_sub,
      UInt32.toNat_ofNat', UInt32.toNat_ofNat']
    omega
  rw [expired, osalTimerStart, Option.map_some, osalTimerIsExpired]
  dsimp only
  rw [decide_eq_true_iff, UInt32.le_iff_toNat_le, ← Int.ofNat_le, helapsed]

/-- The floors of two numbers differ by their difference, up to one. -/
theorem floor_sub_floor (x y : ℝ) :
  x - y - 1 < ⌊x⌋ - ⌊y⌋ ∧ (⌊x⌋ : ℝ) - ⌊y⌋ < x - y + 1
  := by
  have := Int.floor_le x
  have := Int.lt_floor_add_one x
  have := Int.floor_le y
  have := Int.lt_floor_add_one y
  constructor
  · linarith
  · linarith

/-- Every timer fires within two ticks. -/
theorem expired_of_le (timer : OsalTimer) (timeoutUs : UInt32) {start now : ℝ}
    (hpassed : timeoutUs.toNat + 2 * 1000 ≤ now - start)
    (hbefore : now - start ≤ (2 ^ 32 - 1) * 1000) :
  expired timer timeoutUs start now = true
  := by
  obtain ⟨hlow, hhigh⟩ := floor_sub_floor (now * 1000⁻¹) (start * 1000⁻¹)
  have hticks : ((timeoutTicks timeoutUs).toNat : ℝ) ≤ timeoutUs.toNat * 1000⁻¹ + 1 := by
    rw [toNat_timeoutTicks]
    split
    · have := Nat.div_mul_le_self (timeoutUs.toNat + 999) 1000
      have : (((timeoutUs.toNat + 999) / 1000 : ℕ) : ℝ) * 1000 ≤ timeoutUs.toNat + 999 := by
        exact_mod_cast this
      linarith
    · rw [Nat.cast_one, le_add_iff_nonneg_left]
      positivity
  have hle : ((timeoutTicks timeoutUs).toNat : ℤ) ≤ ⌊now * 1000⁻¹⌋ - ⌊start * 1000⁻¹⌋ := by
    have : ((timeoutTicks timeoutUs).toNat : ℝ) ≤ ⌊now * 1000⁻¹⌋ - ⌊start * 1000⁻¹⌋ := by linarith
    exact_mod_cast this
  have hlt : ⌊now * 1000⁻¹⌋ - ⌊start * 1000⁻¹⌋ < 2 ^ 32 := by
    have : (⌊now * 1000⁻¹⌋ : ℝ) - ⌊start * 1000⁻¹⌋ < 2 ^ 32 := by linarith
    exact_mod_cast this
  rw [expired_iff]
  omega

/-- The microseconds that have passed of the tick of a time. -/
noncomputable def tickPhase (time : ℝ) : ℝ := 1000 * Int.fract (time * 1000⁻¹)

theorem tickPhase_eq (time : ℝ) :
  tickPhase time = time - 1000 * ⌊time * 1000⁻¹⌋
  := by
  rw [tickPhase, Int.fract]
  ring

/-- The ticks of a timeout whose rounding does not overflow. -/
theorem timeoutTicks_eq_ceil {timeoutUs : UInt32} (h : timeoutUs.toNat ≤ 2 ^ 32 - 1000) :
  ((timeoutTicks timeoutUs).toNat : ℤ) = ⌈(timeoutUs.toNat : ℝ) * 1000⁻¹⌉
  := by
  symm
  rw [toNat_timeoutTicks, if_pos h, Int.ceil_eq_iff]
  have hlow : (timeoutUs.toNat + 999) / 1000 * 1000 ≤ timeoutUs.toNat + 999 :=
    Nat.div_mul_le_self ..
  have hhigh : timeoutUs.toNat ≤ (timeoutUs.toNat + 999) / 1000 * 1000 := by omega
  generalize (timeoutUs.toNat + 999) / 1000 = ticks at hlow hhigh
  have hlow : (ticks : ℝ) * 1000 ≤ timeoutUs.toNat + 999 := by exact_mod_cast hlow
  have hhigh : (timeoutUs.toNat : ℝ) ≤ ticks * 1000 := by exact_mod_cast hhigh
  rw [Int.cast_natCast]
  constructor
  · linarith
  · linarith

/-- The tick at which a timer fires. -/
theorem expired_at_tick (timer : OsalTimer) (timeoutUs : UInt32) (start : ℝ) :
  expired timer timeoutUs start (1000 * (⌊start * 1000⁻¹⌋ + (timeoutTicks timeoutUs).toNat)) = true
  := by
  have hlt := (timeoutTicks timeoutUs).toNat_lt
  have hnow : 1000 * (⌊start * 1000⁻¹⌋ + (timeoutTicks timeoutUs).toNat : ℝ) * 1000⁻¹
      = ((⌊start * 1000⁻¹⌋ + (timeoutTicks timeoutUs).toNat : ℤ) : ℝ) := by
    push_cast
    ring
  rw [expired_iff, hnow, Int.floor_intCast]
  omega

theorem timeoutTicks_pos {timeoutUs : UInt32} (h : timeoutUs ≠ 0) :
  0 < (timeoutTicks timeoutUs).toNat
  := by
  have hpos : 0 < timeoutUs.toNat := by
    rw [Nat.pos_iff_ne_zero, ← UInt32.toNat_zero, Ne, UInt32.toNat_inj]
    apply h
  rw [toNat_timeoutTicks]
  split
  · omega
  · apply one_pos

/-- A timer that never fires early does not fire early at its tick. -/
theorem KeepsTime.le_ticks {timer : OsalTimer} {timeoutUs : UInt32} {start : ℝ}
    (h : KeepsTime timer timeoutUs start) (hzero : timeoutUs ≠ 0) :
  tickPhase start + timeoutUs.toNat ≤ 1000 * (timeoutTicks timeoutUs).toNat
  := by
  have hticks : (1 : ℝ) ≤ (timeoutTicks timeoutUs).toNat := by
    exact_mod_cast timeoutTicks_pos hzero
  have hstart := Int.lt_floor_add_one (start * 1000⁻¹)
  have hearly := h.not_early _ (by linarith) (expired_at_tick timer timeoutUs start)
  rw [tickPhase_eq]
  linarith

/-- As many ticks have passed when a timer has expired. -/
theorem ticks_le_of_expired {timer : OsalTimer} {timeoutUs : UInt32} {start now : ℝ}
    (hle : start ≤ now) (hexpired : expired timer timeoutUs start now = true) :
  1000 * (timeoutTicks timeoutUs).toNat ≤ tickPhase start + (now - start)
  := by
  have hfloor : ⌊start * 1000⁻¹⌋ ≤ ⌊now * 1000⁻¹⌋ := by
    apply Int.floor_mono
    linarith
  have hpassed : ((timeoutTicks timeoutUs).toNat : ℤ) ≤ ⌊now * 1000⁻¹⌋ - ⌊start * 1000⁻¹⌋ := by
    rw [expired_iff] at hexpired
    omega
  have hpassed : ((timeoutTicks timeoutUs).toNat : ℝ) ≤ ⌊now * 1000⁻¹⌋ - ⌊start * 1000⁻¹⌋ := by
    exact_mod_cast hpassed
  have hnow := Int.floor_le (now * 1000⁻¹)
  rw [tickPhase_eq]
  linarith

/-- A timer keeps the time exactly if it has none to keep, or the rounding to milliseconds does not
overflow and makes up for the part of the first tick that has passed. -/
theorem keepsTime_iff (timer : OsalTimer) (timeoutUs : UInt32) (start : ℝ) :
  KeepsTime timer timeoutUs start
    ↔ timeoutUs = 0 ∨ (timeoutUs.toNat ≤ 2 ^ 32 - 1000
      ∧ tickPhase start + timeoutUs.toNat ≤ 1000 * ⌈(timeoutUs.toNat : ℝ) * 1000⁻¹⌉)
  := by
  constructor
  · intro h
    by_cases hzero : timeoutUs = 0
    · exact .inl hzero
    · right
      have hticks := h.le_ticks hzero
      have hfits : timeoutUs.toNat ≤ 2 ^ 32 - 1000 := by
        by_contra hover
        have hphase : 0 ≤ tickPhase start :=
          mul_nonneg (by norm_num) (Int.fract_nonneg _)
        rw [toNat_timeoutTicks, if_neg hover, Nat.cast_one] at hticks
        have : (timeoutUs.toNat : ℝ) ≤ 1000 := by linarith
        have : timeoutUs.toNat ≤ 1000 := by exact_mod_cast this
        omega
      rw [← timeoutTicks_eq_ceil hfits, Int.cast_natCast]
      exact ⟨hfits, hticks⟩
  · intro h
    constructor
    case not_early =>
      intro now hle hexpired
      rcases h with rfl | ⟨hfits, hround⟩
      · rw [UInt32.toNat_zero, Nat.cast_zero]
        linarith
      · have hticks := ticks_le_of_expired hle hexpired
        rw [← timeoutTicks_eq_ceil hfits, Int.cast_natCast] at hround
        linarith
    case fires =>
      intro now hpassed hbefore
      apply expired_of_le timer timeoutUs hpassed hbefore

/-- A timer of 2 ms that is started when its tick has almost passed fires after little more than
1 ms. -/
theorem not_keepsTime_late :
  ¬ KeepsTime ⟨⟨0, 0⟩⟩ 2000 999
  := by
  intro h
  have htimeout : (2000 : UInt32).toNat = 2000 := rfl
  have hexpired : expired ⟨⟨0, 0⟩⟩ 2000 999 2000 = true := by
    rw [expired_iff, toNat_timeoutTicks, htimeout]
    norm_num
  have hearly := h.not_early 2000 (by norm_num) hexpired
  rw [htimeout] at hearly
  norm_num at hearly

end EthercatMaster
