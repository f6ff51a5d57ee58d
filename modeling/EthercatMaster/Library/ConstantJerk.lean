import Mathlib.Topology.Order.OrderClosed
import Mathlib.Topology.Algebra.Order.Field
import Mathlib.Analysis.Normed.Field.Basic
import Mathlib.Data.List.Chain
import Mathlib.Tactic.Linarith
import Mathlib.Tactic.Ring
import Mathlib.Tactic.Positivity

/-!
# Motions of piecewise constant jerk

A motion is a list of pieces that follow each other in time.  In a piece, the jerk is constant,
so that the acceleration, the velocity and the position are polynomials in the time since its
start.  What is observed of each piece is put together along the list; it is continuous if each
piece starts with what is observed at the end of the piece before.
-/

namespace ConstantJerk

/-! ### Observations along a list of pieces -/

section Along

variable {α β : Type*} (duration : α → ℝ) (f : α → ℝ → β)

/-- The time a list of pieces takes. -/
def total (pieces : List α) : ℝ :=
  (pieces.map duration).sum

/-- What is observed at a time, when the pieces follow each other. -/
noncomputable def along (p : α) : List α → ℝ → β
  | [], t => f p t
  | q :: rest, t => if t ≤ duration p then f p t else along q rest (t - duration p)

/-- Each piece starts with what is observed at the end of the piece before. -/
def Joins (pieces : List α) : Prop :=
  pieces.IsChain fun p q => f q 0 = f p (duration p)

variable {duration f}

theorem along_zero {p : α} {rest : List α} (h : 0 ≤ duration p) :
  along duration f p rest 0 = f p 0
  := by
  cases rest with
  | nil => rfl
  | cons q rest => rw [along, if_pos h]

theorem continuous_along [TopologicalSpace β] (hf : ∀ p, Continuous (f p)) {p : α}
    {rest : List α} (hjoins : Joins duration f (p :: rest))
    (hduration : ∀ q ∈ p :: rest, 0 ≤ duration q) :
  Continuous (along duration f p rest)
  := by
  induction rest generalizing p with
  | nil => apply hf
  | cons q rest ih =>
      obtain ⟨hjoin, hjoins⟩ := List.isChain_cons_cons.mp hjoins
      have hcontinuous := ih hjoins fun r hr => hduration r (List.mem_cons_of_mem p hr)
      have hshift : Continuous fun t => along duration f q rest (t - duration p) := by
        apply hcontinuous.comp
        apply continuous_id.sub continuous_const
      apply Continuous.if_le (hf p) hshift continuous_id continuous_const
      intro t ht
      rw [show t = duration p from ht, sub_self, along_zero, hjoin]
      apply hduration q
      simp

/-- If no time is left, what is observed at the end does not change. -/
theorem along_zero_of_total {p : α} {rest : List α} (hjoins : Joins duration f (p :: rest))
    (hduration : ∀ q ∈ p :: rest, 0 ≤ duration q) (htotal : total duration rest = 0) :
  f p (duration p) = f ((p :: rest).getLast (List.cons_ne_nil p rest))
    (duration ((p :: rest).getLast (List.cons_ne_nil p rest)))
  := by
  induction rest generalizing p with
  | nil => rfl
  | cons q rest ih =>
      obtain ⟨hjoin, hjoins⟩ := List.isChain_cons_cons.mp hjoins
      have hrest : 0 ≤ total duration rest := by
        apply List.sum_nonneg
        intro d hd
        obtain ⟨r, hr, rfl⟩ := List.mem_map.mp hd
        apply hduration r
        simp [hr]
      have hq : 0 ≤ duration q := hduration q (by simp)
      rw [total, List.map_cons, List.sum_cons] at htotal
      have hzero : duration q = 0 := by
        rw [total] at hrest
        linarith
      rw [← hjoin, ← hzero, List.getLast_cons_cons]
      apply ih hjoins
      · intro r hr
        apply hduration r (List.mem_cons_of_mem p hr)
      · rw [total]
        linarith

/-- What is observed at the end of the time is what is observed at the end of the last piece. -/
theorem along_total {p : α} {rest : List α} (hjoins : Joins duration f (p :: rest))
    (hduration : ∀ q ∈ p :: rest, 0 ≤ duration q) :
  along duration f p rest (total duration (p :: rest))
    = f ((p :: rest).getLast (List.cons_ne_nil p rest))
      (duration ((p :: rest).getLast (List.cons_ne_nil p rest)))
  := by
  induction rest generalizing p with
  | nil =>
      rw [total, List.map_singleton, List.sum_singleton]
      rfl
  | cons q rest ih =>
      have htotal : total duration (p :: q :: rest) = duration p + total duration (q :: rest) := by
        rw [total, List.map_cons, List.sum_cons, total]
      have hrest : 0 ≤ total duration (q :: rest) := by
        apply List.sum_nonneg
        intro d hd
        obtain ⟨r, hr, rfl⟩ := List.mem_map.mp hd
        apply hduration r (List.mem_cons_of_mem p hr)
      rw [along]
      split
      · rename_i hle
        have hzero : total duration (q :: rest) = 0 := by linarith
        rw [htotal, hzero, add_zero]
        apply along_zero_of_total hjoins hduration hzero
      · rw [htotal, add_sub_cancel_left, List.getLast_cons_cons]
        apply ih (List.isChain_cons_cons.mp hjoins).2
        intro r hr
        apply hduration r (List.mem_cons_of_mem p hr)

/-- What holds at every time of every piece holds at every time. -/
theorem along_induction {P : β → Prop} {p : α} {rest : List α}
    (h : ∀ q ∈ p :: rest, ∀ t, 0 ≤ t → t ≤ duration q → P (f q t)) {t : ℝ} (ht : 0 ≤ t)
    (hle : t ≤ total duration (p :: rest)) :
  P (along duration f p rest t)
  := by
  induction rest generalizing p t with
  | nil =>
      rw [total, List.map_singleton, List.sum_singleton] at hle
      apply h p (by simp) t ht hle
  | cons q rest ih =>
      rw [along]
      split
      · rename_i hp
        apply h p (by simp) t ht hp
      · rename_i hp
        apply ih
        · intro r hr
          apply h r (List.mem_cons_of_mem p hr)
        · linarith
        · rw [total, List.map_cons, List.sum_cons] at hle
          rw [total]
          linarith

end Along

/-! ### Growth -/

/-- Up to the time `T`, a function grows at a rate between `m` and `M`. -/
def Grows (m M : ℝ) (g : ℝ → ℝ) (T : ℝ) : Prop :=
  ∀ t₁ t₂, 0 ≤ t₁ → t₁ ≤ t₂ → t₂ ≤ T →
    m * (t₂ - t₁) ≤ g t₂ - g t₁ ∧ g t₂ - g t₁ ≤ M * (t₂ - t₁)

/-- A motion grows at the rates at which each of its pieces grows. -/
theorem grows_along {α : Type*} {duration : α → ℝ} {f : α → ℝ → ℝ} {m M : ℝ} {p : α}
    {rest : List α} (hjoins : Joins duration f (p :: rest))
    (hduration : ∀ q ∈ p :: rest, 0 ≤ duration q)
    (h : ∀ q ∈ p :: rest, Grows m M (f q) (duration q)) :
  Grows m M (along duration f p rest) (total duration (p :: rest))
  := by
  induction rest generalizing p with
  | nil =>
      rw [total, List.map_singleton, List.sum_singleton]
      apply h p (by simp)
  | cons q rest ih =>
      obtain ⟨hjoin, hjoins⟩ := List.isChain_cons_cons.mp hjoins
      have hrest := ih hjoins (fun r hr => hduration r (List.mem_cons_of_mem p hr))
        fun r hr => h r (List.mem_cons_of_mem p hr)
      have hp := h p (by simp)
      intro t₁ t₂ h0 h12 h2
      rw [total, List.map_cons, List.sum_cons, ← total] at h2
      rcases le_or_gt t₂ (duration p) with hle₂ | hgt₂
      · rw [along, along, if_pos hle₂, if_pos (h12.trans hle₂)]
        apply hp t₁ t₂ h0 h12 hle₂
      rcases le_or_gt t₁ (duration p) with hle₁ | hgt₁
      · -- the growth up to the joint and after it
        rw [along, along, if_neg (not_le.mpr hgt₂), if_pos hle₁]
        obtain ⟨hlow, hhigh⟩ := hp t₁ (duration p) h0 hle₁ le_rfl
        obtain ⟨hlow', hhigh'⟩ := hrest 0 (t₂ - duration p) le_rfl (by linarith) (by linarith)
        rw [along_zero (hduration q (by simp)), hjoin] at hlow' hhigh'
        constructor
        · linarith
        · linarith
      · rw [along, along, if_neg (not_le.mpr hgt₂), if_neg (not_le.mpr hgt₁)]
        obtain ⟨hlow, hhigh⟩ := hrest (t₁ - duration p) (t₂ - duration p) (by linarith)
          (by linarith) (by linarith)
        rw [sub_sub_sub_cancel_right] at hlow hhigh
        exact ⟨hlow, hhigh⟩

/-! ### Pieces of constant jerk -/

/-- A piece of constant jerk, with the state at its start. -/
structure Piece where
  duration : ℝ
  jerk : ℝ
  position : ℝ
  velocity : ℝ
  acceleration : ℝ

namespace Piece

variable (p : Piece)

/-- The acceleration at a time since the start of the piece. -/
noncomputable def accelerationAt (t : ℝ) : ℝ :=
  p.acceleration + p.jerk * t

/-- The velocity at a time since the start of the piece. -/
noncomputable def velocityAt (t : ℝ) : ℝ :=
  p.velocity + p.acceleration * t + p.jerk * t ^ 2 / 2

/-- The position at a time since the start of the piece. -/
noncomputable def positionAt (t : ℝ) : ℝ :=
  p.position + p.velocity * t + p.acceleration * t ^ 2 / 2 + p.jerk * t ^ 3 / 6

/-- The jerk at a time since the start of the piece. -/
def jerkAt (_ : ℝ) : ℝ :=
  p.jerk

theorem continuous_accelerationAt :
  Continuous p.accelerationAt
  := by
  unfold accelerationAt
  fun_prop

theorem continuous_velocityAt :
  Continuous p.velocityAt
  := by
  unfold velocityAt
  fun_prop

theorem continuous_positionAt :
  Continuous p.positionAt
  := by
  unfold positionAt
  fun_prop

variable {p} {t : ℝ}

/-- The acceleration stays between those at the start and at the end. -/
theorem accelerationAt_mem {s : Set ℝ} [s.OrdConnected] (ht : 0 ≤ t) (hle : t ≤ p.duration)
    (hstart : p.acceleration ∈ s) (hend : p.accelerationAt p.duration ∈ s) :
  p.accelerationAt t ∈ s
  := by
  have hmem : p.accelerationAt t ∈ Set.uIcc p.acceleration (p.accelerationAt p.duration) := by
    rw [Set.mem_uIcc, accelerationAt, accelerationAt]
    rcases le_total 0 p.jerk with hjerk | hjerk
    · left
      have hpos := mul_nonneg hjerk ht
      have hdiff := mul_le_mul_of_nonneg_left hle hjerk
      constructor
      · linarith
      · linarith
    · right
      have hneg := mul_nonpos_of_nonpos_of_nonneg hjerk ht
      have hdiff := mul_le_mul_of_nonpos_left hle hjerk
      constructor
      · linarith
      · linarith
  apply Set.OrdConnected.uIcc_subset ‹_› hstart hend hmem

/-- The velocity stays between those at the start and at the end, if the acceleration does not
change its sign. -/
theorem velocityAt_mem {s : Set ℝ} [s.OrdConnected] (ht : 0 ≤ t) (hle : t ≤ p.duration)
    (hsign : (0 ≤ p.acceleration ∧ 0 ≤ p.accelerationAt p.duration)
      ∨ (p.acceleration ≤ 0 ∧ p.accelerationAt p.duration ≤ 0))
    (hstart : p.velocity ∈ s) (hend : p.velocityAt p.duration ∈ s) :
  p.velocityAt t ∈ s
  := by
  -- the gains of velocity before and after are means of accelerations times durations
  have hbefore : p.velocityAt t - p.velocity
      = t * (p.acceleration + p.accelerationAt t) / 2 := by
    rw [velocityAt, accelerationAt]
    ring
  have hafter : p.velocityAt p.duration - p.velocityAt t
      = (p.duration - t) * (p.accelerationAt t + p.accelerationAt p.duration) / 2 := by
    rw [velocityAt, velocityAt, accelerationAt, accelerationAt]
    ring
  have hleft : 0 ≤ p.duration - t := by linarith
  have hmem : p.velocityAt t ∈ Set.uIcc p.velocity (p.velocityAt p.duration) := by
    rw [Set.mem_uIcc]
    rcases hsign with ⟨h0, h1⟩ | ⟨h0, h1⟩
    · left
      have hnow : p.accelerationAt t ∈ Set.Ici 0 := accelerationAt_mem ht hle h0 h1
      rw [Set.mem_Ici] at hnow
      have hgain : 0 ≤ t * (p.acceleration + p.accelerationAt t) / 2 := by positivity
      have hgain' : 0 ≤ (p.duration - t) * (p.accelerationAt t + p.accelerationAt p.duration) / 2 :=
        by positivity
      constructor
      · linarith
      · linarith
    · right
      have hnow : p.accelerationAt t ∈ Set.Iic 0 := accelerationAt_mem ht hle h0 h1
      rw [Set.mem_Iic] at hnow
      have hloss := mul_nonpos_of_nonneg_of_nonpos ht (add_nonpos h0 hnow)
      have hloss' := mul_nonpos_of_nonneg_of_nonpos hleft (add_nonpos hnow h1)
      constructor
      · linarith
      · linarith
  apply Set.OrdConnected.uIcc_subset ‹_› hstart hend hmem

/-- The position grows at a rate between bounds of the velocity.  The gain of position is the
mean of the velocities at the start, in the middle and at the end, as Simpson weighs them. -/
theorem grows_positionAt {m M : ℝ}
    (h : ∀ t, 0 ≤ t → t ≤ p.duration → p.velocityAt t ∈ Set.Icc m M) :
  Grows m M p.positionAt p.duration
  := by
  intro t₁ t₂ h0 h12 h2
  have hgain : p.positionAt t₂ - p.positionAt t₁ = (t₂ - t₁)
      * ((p.velocityAt t₁ + 4 * p.velocityAt ((t₁ + t₂) / 2) + p.velocityAt t₂) / 6) := by
    simp only [positionAt, velocityAt]
    ring
  obtain ⟨hlow₁, hhigh₁⟩ := h t₁ h0 (h12.trans h2)
  obtain ⟨hlow, hhigh⟩ := h ((t₁ + t₂) / 2) (by linarith) (by linarith)
  obtain ⟨hlow₂, hhigh₂⟩ := h t₂ (h0.trans h12) h2
  have hleft : 0 ≤ t₂ - t₁ := by linarith
  rw [hgain, mul_comm m, mul_comm M]
  constructor
  · apply mul_le_mul_of_nonneg_left _ hleft
    linarith
  · apply mul_le_mul_of_nonneg_left _ hleft
    linarith

end Piece

end ConstantJerk
