import Mathlib.Algebra.Order.Group.Abs
import Mathlib.Algebra.Order.Ring.Int
import Mathlib.Tactic.Common
import EthercatMaster.Library.Machine

/-!
# Following the distributed clock

The timer that releases the cycles of the master is adjusted to the distributed clock: each cycle,
`gpt_dc_sync_adjust` compares the phase of the clock with the first one it saw, and sets the next
period from the error and from the sum of its signs.  In closed loop with a clock that drifts by a
microsecond a cycle at most, the error stays far from half a cycle.
-/

namespace EthercatMaster

/-! ### The adjustment -/

/-- `ETHERCAT_DC_CYCLE_NS`. -/
def ethercatDcCycleNs : ℤ := 2000000

/-- `GPT_NOMINAL_PERIOD_COUNTS`. -/
def gptNominalPeriodCounts : ℤ := 800000

/-- `GPT_MAX_ADJUST_NS`. -/
def gptMaxAdjustNs : ℤ := 2000

/-- The variables of `gpt_dc_sync_adjust`, and the last period passed to `R_GPT_PeriodSet`. -/
structure GptDcSync where
  initialized : Bool
  targetPhaseNs : ℤ
  integral : ℤ
  periodCounts : ℤ
deriving DecidableEq, Repr

/-- Before the first call. -/
def GptDcSync.init : GptDcSync := ⟨false, 0, 0, gptNominalPeriodCounts⟩

/-- The phase of a time within its cycle. -/
def phaseNs (dcTimeNs : ℤ) : ℤ :=
  let phase := dcTimeNs.tmod ethercatDcCycleNs
  if phase < 0 then phase + ethercatDcCycleNs else phase

/-- The error of the phase in the shorter direction. -/
def errorNs (dcTimeNs targetPhaseNs : ℤ) : ℤ :=
  let error := phaseNs dcTimeNs - targetPhaseNs
  if error > ethercatDcCycleNs.tdiv 2 then error - ethercatDcCycleNs
  else if error < -(ethercatDcCycleNs.tdiv 2) then error + ethercatDcCycleNs
  else error

/-- The limited sum of the signs of the errors. -/
def nextIntegral (error integral : ℤ) : ℤ :=
  let integral :=
    if error > 0 then integral + 1 else if error < 0 then integral - 1 else integral
  if integral > 20000 then 20000 else if integral < -20000 then -20000 else integral

/-- The limited correction of a period. -/
def adjustNs (error integral : ℤ) : ℤ :=
  let adjust := -(error.tdiv 100) - integral.tdiv 20
  if adjust > gptMaxAdjustNs then gptMaxAdjustNs
  else if adjust < -gptMaxAdjustNs then -gptMaxAdjustNs
  else adjust

/-- The counts of a period with a correction. -/
def periodCounts (adjust : ℤ) : ℤ :=
  gptNominalPeriodCounts + (adjust * gptNominalPeriodCounts).tdiv ethercatDcCycleNs

/-- `gpt_dc_sync_adjust`. -/
def gptDcSyncAdjust (dcTimeNs : ℤ) (g : GptDcSync) : GptDcSync :=
  if !g.initialized then
    { g with initialized := true, targetPhaseNs := phaseNs dcTimeNs, integral := 0 }
  else
    let error := errorNs dcTimeNs g.targetPhaseNs
    let integral := nextIntegral error g.integral
    { g with integral := integral, periodCounts := periodCounts (adjustNs error integral) }

/-! ### The closed loop -/

/-- The state before a call: the variables, the time that it is passed, and its number. -/
structure DcLoop where
  gpt : GptDcSync
  dcTimeNs : ℤ
  call : ℕ
deriving DecidableEq, Repr

/-- What a cycle adds to the time beside its nominal length: a drift, and what the period set by
the call amounts to. -/
structure DcCycle where
  drift : ℤ
  adjusted : ℤ
deriving DecidableEq, Repr

namespace DcLoop

/-- The variables after the call. -/
def after (s : DcLoop) : GptDcSync :=
  gptDcSyncAdjust s.dcTimeNs s.gpt

/-- The call, and the cycle that follows. -/
def step (s : DcLoop) (c : DcCycle) : DcLoop :=
  ⟨s.after, s.dcTimeNs + ethercatDcCycleNs + c.drift + c.adjusted, s.call + 1⟩

/-- The loop from an initial time. -/
def machine (dcTimeNs : ℤ) : Machine DcLoop DcCycle :=
  ⟨⟨.init, dcTimeNs, 0⟩, step⟩

/-- The drift of a cycle is a microsecond at most, and the period is exact up to a nanosecond:
`adjusted` is within 1 of `2.5 * (period - 800000)`. -/
def Allowed (s : DcLoop) (c : DcCycle) : Prop :=
  |c.drift| ≤ 1000 ∧ |2 * c.adjusted - 5 * (s.after.periodCounts - gptNominalPeriodCounts)| ≤ 2

instance (s : DcLoop) (c : DcCycle) : Decidable (s.Allowed c) :=
  inferInstanceAs (Decidable (_ ∧ _))

/-- How far the time of a call is from the first one by cycles of the nominal length. -/
def deviation (dcTimeNs : ℤ) (s : DcLoop) : ℤ :=
  s.dcTimeNs - dcTimeNs - ethercatDcCycleNs * s.call

/-- The call follows the clock: the error is the deviation and is far from half a cycle, and the sum
and the period are in their limits. -/
structure Follows (dcTimeNs : ℤ) (s : DcLoop) : Prop where
  bounded : 0 < s.call → |errorNs s.dcTimeNs s.gpt.targetPhaseNs| ≤ 250000
  exact : 0 < s.call → errorNs s.dcTimeNs s.gpt.targetPhaseNs = s.deviation dcTimeNs
  integral : |s.after.integral| ≤ 20000
  period : 799200 ≤ s.after.periodCounts ∧ s.after.periodCounts ≤ 800800

/-! ### Bounds of the parts -/

theorem tdiv_bounds (x : ℤ) {c : ℤ} (hc : 0 < c) :
  x - c < c * x.tdiv c ∧ c * x.tdiv c < x + c
  := by
  have hdiv := Int.mul_tdiv_add_tmod x c
  have hlt := Int.tmod_lt_of_pos x hc
  have hgt : -c < x.tmod c := by
    have hneg := Int.tmod_lt_of_pos (-x) hc
    rw [Int.neg_tmod] at hneg
    omega
  constructor
  · omega
  · omega

theorem phaseNs_eq (dcTimeNs : ℤ) :
  phaseNs dcTimeNs = dcTimeNs % 2000000
  := by
  rw [phaseNs, ethercatDcCycleNs]
  rw [Int.tmod_eq_emod]
  split <;> split <;> omega

/-- An error below half a cycle is found as it is. -/
theorem errorNs_eq {dcTimeNs e : ℤ} (k : ℕ) (he : |e| ≤ 204000) :
  errorNs (dcTimeNs + 2000000 * k + e) (phaseNs dcTimeNs) = e
  := by
  rw [abs_le] at he
  rw [errorNs, phaseNs_eq, phaseNs_eq, ethercatDcCycleNs,
    show Int.tdiv 2000000 2 = 1000000 from rfl]
  omega

theorem nextIntegral_bounds (error integral : ℤ) :
  |nextIntegral error integral| ≤ 20000
  := by
  rw [nextIntegral, abs_le]
  generalize (if error > 0 then integral + 1
    else if error < 0 then integral - 1 else integral) = next
  split
  · omega
  · split <;> omega

theorem adjustNs_bounds (error integral : ℤ) :
  |adjustNs error integral| ≤ 2000
  := by
  rw [adjustNs, abs_le, gptMaxAdjustNs]
  split
  · omega
  · split <;> omega

theorem periodCounts_bounds {adjust : ℤ} (h : |adjust| ≤ 2000) :
  799200 ≤ periodCounts adjust ∧ periodCounts adjust ≤ 800800
  := by
  rw [abs_le] at h
  have hdiv := tdiv_bounds (adjust * 800000) (by decide : (0 : ℤ) < 2000000)
  rw [periodCounts, gptNominalPeriodCounts, ethercatDcCycleNs]
  constructor <;> omega

/-! ### The invariant -/

/-- A correction moves an error towards zero by more than the drift, once the error is beyond what
the sum of its signs can hold it at. -/
theorem deviation_bounds {e integral drift adjusted : ℤ} (he : |e| ≤ 204000)
    (hintegral : |integral| ≤ 20000) (hdrift : |drift| ≤ 1000)
    (hadjusted : |2 * adjusted
      - 5 * (periodCounts (adjustNs e integral) - gptNominalPeriodCounts)| ≤ 2) :
  |e + drift + adjusted| ≤ 204000
  := by
  have hp := tdiv_bounds e (by decide : (0 : ℤ) < 100)
  have hi := tdiv_bounds integral (by decide : (0 : ℤ) < 20)
  have hperiod := tdiv_bounds (adjustNs e integral * 800000) (by decide : (0 : ℤ) < 2000000)
  have hlimit := adjustNs_bounds e integral
  have hadjust : adjustNs e integral
      = max (-2000) (min 2000 (-(e.tdiv 100) - integral.tdiv 20)) := by
    rw [adjustNs, gptMaxAdjustNs]
    split
    · omega
    · split <;> omega
  rw [periodCounts, gptNominalPeriodCounts, ethercatDcCycleNs] at hadjusted
  rw [abs_le] at *
  -- beyond 200400 the error outweighs the sum, and below it a cycle adds little
  rcases le_or_gt 200400 e with hhigh | hhigh
  · omega
  · rcases le_or_gt e (-200400) with hlow | hlow
    · omega
    · omega

/-- Before each call after the first one the target is the phase of the first time, and sum and
deviation are bounded. -/
structure Bounded (dcTimeNs : ℤ) (s : DcLoop) : Prop where
  initialized : s.gpt.initialized = true
  target : s.gpt.targetPhaseNs = phaseNs dcTimeNs
  integral : |s.gpt.integral| ≤ 20000
  deviation : |s.deviation dcTimeNs| ≤ 204000

theorem Bounded.errorNs {dcTimeNs : ℤ} {s : DcLoop} (h : s.Bounded dcTimeNs) :
  errorNs s.dcTimeNs s.gpt.targetPhaseNs = s.deviation dcTimeNs
  := by
  have htime : s.dcTimeNs = dcTimeNs + 2000000 * s.call + s.deviation dcTimeNs := by
    rw [DcLoop.deviation, ethercatDcCycleNs]
    omega
  rw [h.target]
  nth_rewrite 1 [htime]
  apply errorNs_eq s.call h.deviation

/-- A call after the first one. -/
theorem Bounded.after {dcTimeNs : ℤ} {s : DcLoop} (h : s.Bounded dcTimeNs) :
  s.after = ⟨true, s.gpt.targetPhaseNs, nextIntegral (s.deviation dcTimeNs) s.gpt.integral,
    periodCounts (adjustNs (s.deviation dcTimeNs)
      (nextIntegral (s.deviation dcTimeNs) s.gpt.integral))⟩
  := by
  rw [DcLoop.after, gptDcSyncAdjust, h.initialized, h.errorNs]
  rfl

theorem Bounded.step {dcTimeNs : ℤ} {s : DcLoop} (h : s.Bounded dcTimeNs) {c : DcCycle}
    (hc : s.Allowed c) :
  (s.step c).Bounded dcTimeNs
  := by
  obtain ⟨hdrift, hadjusted⟩ := hc
  rw [h.after] at hadjusted
  constructor
  · rw [DcLoop.step, h.after]
  · rw [DcLoop.step, h.after]
    exact h.target
  · rw [DcLoop.step, h.after]
    apply nextIntegral_bounds
  · have hdeviation : (s.step c).deviation dcTimeNs
        = s.deviation dcTimeNs + c.drift + c.adjusted := by
      simp only [DcLoop.step, DcLoop.deviation, ethercatDcCycleNs]
      omega
    rw [hdeviation]
    apply deviation_bounds h.deviation (nextIntegral_bounds _ _) hdrift hadjusted

theorem bounded_step_init (dcTimeNs : ℤ) {c : DcCycle} (hc : (machine dcTimeNs).init.Allowed c) :
  (step (machine dcTimeNs).init c).Bounded dcTimeNs
  := by
  obtain ⟨hdrift, hadjusted⟩ := hc
  constructor
  · rfl
  · rfl
  · exact (by decide : |(0 : ℤ)| ≤ 20000)
  · have hperiod : (machine dcTimeNs).init.after.periodCounts = gptNominalPeriodCounts := rfl
    have hdeviation : (step (machine dcTimeNs).init c).deviation dcTimeNs
        = c.drift + c.adjusted := by
      simp only [machine, step, deviation, ethercatDcCycleNs]
      omega
    rw [hperiod] at hadjusted
    rw [hdeviation]
    rw [abs_le] at *
    omega

theorem Bounded.follows {dcTimeNs : ℤ} {s : DcLoop} (h : s.Bounded dcTimeNs) :
  s.Follows dcTimeNs
  := by
  constructor
  · intro _
    rw [h.errorNs]
    apply h.deviation.trans (by decide)
  · intro _
    exact h.errorNs
  · rw [h.after]
    apply nextIntegral_bounds
  · rw [h.after]
    apply periodCounts_bounds (adjustNs_bounds _ _)

/-- Whatever the first time is, every call follows the clock as long as the cycles between the calls
are allowed. -/
theorem follows_clock (dcTimeNs : ℤ) (cs : List DcCycle)
    (hcs : ∀ i c, cs[i]? = some c → ((machine dcTimeNs).before cs i).Allowed c) (i : ℕ) :
  ((machine dcTimeNs).before cs i).Follows dcTimeNs
  := by
  have hinit : (machine dcTimeNs).init.Follows dcTimeNs :=
    ⟨nofun, nofun, (by decide : |(0 : ℤ)| ≤ 20000),
      (by decide : (799200 : ℤ) ≤ 800000 ∧ (800000 : ℤ) ≤ 800800)⟩
  have hstep : ∀ s c, Allowed s c → s = (machine dcTimeNs).init ∨ s.Bounded dcTimeNs →
      step s c = (machine dcTimeNs).init ∨ (step s c).Bounded dcTimeNs := by
    rintro s c hc (rfl | hs)
    · exact .inr (bounded_step_init dcTimeNs hc)
    · exact .inr (hs.step hc)
  rcases (machine dcTimeNs).invariant_of
    (P := fun s => s = (machine dcTimeNs).init ∨ s.Bounded dcTimeNs) (.inl rfl) hstep hcs i with
    h | h
  · rw [h]
    exact hinit
  · exact h.follows

/-- The clock runs ahead of the timer, from a time before zero. -/
theorem follows_clock_ahead :
  (∀ i c, [⟨1000, 0⟩, ⟨1000, -10⟩][i]? = some c →
      ((machine (-1)).before [⟨1000, 0⟩, ⟨1000, -10⟩] i).Allowed c)
    ∧ ((machine (-1)).before [⟨1000, 0⟩, ⟨1000, -10⟩] 2).Follows (-1)
  := by
  have hcs : ∀ i c, [⟨1000, 0⟩, ⟨1000, -10⟩][i]? = some c →
      ((machine (-1)).before [⟨1000, 0⟩, ⟨1000, -10⟩] i).Allowed c := by
    intro i c h
    rcases i with _ | _ | i
    · cases h
      decide
    · cases h
      decide
    · cases h
  exact ⟨hcs, follows_clock (-1) _ hcs 2⟩

end DcLoop

end EthercatMaster
