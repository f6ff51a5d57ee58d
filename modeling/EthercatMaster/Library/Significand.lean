import Mathlib.Data.Int.Log
import Mathlib.Algebra.Order.Floor.Ring
import Mathlib.Algebra.Ring.Int.Parity
import Mathlib.Tactic.Linarith
import Mathlib.Tactic.NormNum
import Mathlib.Tactic.Ring

/-!
# Rounding to a number of significant digits

A number is rounded to `p` significant digits in base `b`: it is divided by the unit in its last
place, rounded to the nearest integer, halves to the even one, and multiplied by the unit again.
The exponent is not bounded.  The rounding is monotone and odd, and it keeps the numbers that have
`p` digits.
-/

section Nearest

variable {α : Type*} [Field α] [LinearOrder α] [FloorRing α]

/-- The nearest integer, the even one for halves. -/
def roundHalfEven (x : α) : ℤ :=
  if x - ⌊x⌋ < ⌊x⌋ + 1 - x then ⌊x⌋
  else if ⌊x⌋ + 1 - x < x - ⌊x⌋ then ⌊x⌋ + 1
  else if Even ⌊x⌋ then ⌊x⌋
  else ⌊x⌋ + 1

variable [IsStrictOrderedRing α]

/-- A number less than one half away from an integer is rounded to it. -/
theorem roundHalfEven_of_lt {n : ℤ} {x : α} (hlow : n - 1 / 2 < x) (hhigh : x < n + 1 / 2) :
  roundHalfEven x = n
  := by
  rcases le_or_gt (n : α) x with h | h
  · have hfloor : ⌊x⌋ = n := by
      rw [Int.floor_eq_iff]
      constructor <;> linarith
    rw [roundHalfEven, hfloor, if_pos (by linarith)]
  · have hfloor : ⌊x⌋ = n - 1 := by
      rw [Int.floor_eq_iff]
      push_cast
      constructor <;> linarith
    rw [roundHalfEven, hfloor]
    push_cast
    rw [if_neg (by linarith), if_pos (by linarith)]
    ring

@[simp]
theorem roundHalfEven_intCast (n : ℤ) :
  roundHalfEven (n : α) = n
  := by
  apply roundHalfEven_of_lt <;> linarith

/-- A half is rounded to the even neighbour. -/
theorem roundHalfEven_half (n : ℤ) :
  roundHalfEven ((n : α) + 1 / 2) = if Even n then n else n + 1
  := by
  have hfloor : ⌊(n : α) + 1 / 2⌋ = n := by
    rw [Int.floor_eq_iff]
    constructor <;> linarith
  rw [roundHalfEven, hfloor, if_neg (by linarith), if_neg (by linarith)]

omit [IsStrictOrderedRing α] in
/-- A number lies below the half above the integer below it, on it, or above it. -/
theorem floor_half_cases (x : α) :
  (⌊x⌋ ≤ x ∧ x < ⌊x⌋ + 1 / 2) ∨ x = ⌊x⌋ + 1 / 2 ∨ (⌊x⌋ + 1 / 2 < x ∧ x < ⌊x⌋ + 1)
  := by
  have hlow := Int.floor_le x
  have hhigh := Int.lt_floor_add_one x
  rcases lt_trichotomy x (⌊x⌋ + 1 / 2) with h | h | h
  · exact .inl ⟨hlow, h⟩
  · exact .inr (.inl h)
  · exact .inr (.inr ⟨h, hhigh⟩)

/-- The rounding goes by at most one half. -/
theorem roundHalfEven_nearest (x : α) :
  |(roundHalfEven x : α) - x| ≤ 1 / 2
  := by
  rw [abs_le]
  rcases floor_half_cases x with ⟨hlow, hhigh⟩ | hhalf | ⟨hlow, hhigh⟩
  · rw [roundHalfEven_of_lt (n := ⌊x⌋) (by linarith) hhigh]
    constructor <;> linarith
  · rw [hhalf, roundHalfEven_half]
    split
    · constructor <;> linarith
    · push_cast
      constructor <;> linarith
  · rw [roundHalfEven_of_lt (n := ⌊x⌋ + 1) (by push_cast; linarith) (by push_cast; linarith)]
    push_cast
    constructor <;> linarith

theorem roundHalfEven_neg (x : α) :
  roundHalfEven (-x) = -roundHalfEven x
  := by
  rcases floor_half_cases x with ⟨hlow, hhigh⟩ | hhalf | ⟨hlow, hhigh⟩
  · rw [roundHalfEven_of_lt (x := x) (n := ⌊x⌋) (by linarith) hhigh]
    apply roundHalfEven_of_lt
    · push_cast
      linarith
    · push_cast
      linarith
  · have hneg : -x = ((-⌊x⌋ - 1 : ℤ) : α) + 1 / 2 := by
      push_cast
      linarith
    have hparity : Even (-⌊x⌋ - 1) ↔ ¬ Even ⌊x⌋ := by
      rw [Int.even_sub_one, even_neg]
    rw [hneg, roundHalfEven_half, hhalf, roundHalfEven_half, ← hhalf]
    by_cases heven : Even ⌊x⌋
    · rw [if_neg (fun hodd => hparity.mp hodd heven), if_pos heven]
      ring
    · rw [if_pos (hparity.mpr heven), if_neg heven]
      ring
  · rw [roundHalfEven_of_lt (x := x) (n := ⌊x⌋ + 1) (by push_cast; linarith)
      (by push_cast; linarith)]
    apply roundHalfEven_of_lt
    · push_cast
      linarith
    · push_cast
      linarith

/-- The rounding is monotone: if it exchanged two numbers, both would be the same half. -/
theorem roundHalfEven_mono {x y : α} (h : x ≤ y) :
  roundHalfEven x ≤ roundHalfEven y
  := by
  have hx := abs_le.mp (roundHalfEven_nearest x)
  have hy := abs_le.mp (roundHalfEven_nearest y)
  by_contra hlt
  have hcast : (roundHalfEven y : α) + 1 ≤ roundHalfEven x := by
    exact_mod_cast not_le.mp hlt
  have heq : x = y := by linarith
  rw [heq] at hlt
  apply hlt le_rfl

/-- A number between two integers is rounded to one between them. -/
theorem roundHalfEven_le {n : ℤ} {x : α} (h : x ≤ n) :
  roundHalfEven x ≤ n
  := by
  rw [← roundHalfEven_intCast (α := α) n]
  apply roundHalfEven_mono h

theorem le_roundHalfEven {n : ℤ} {x : α} (h : n ≤ x) :
  n ≤ roundHalfEven x
  := by
  rw [← roundHalfEven_intCast (α := α) n]
  apply roundHalfEven_mono h

end Nearest

/-! ### Significant digits -/

section Digits

variable {α : Type*} [Field α] [LinearOrder α] [IsStrictOrderedRing α] [FloorRing α]

/-- The unit in the last of `p` places of a number. -/
def lastPlace (b p : ℕ) (x : α) : α :=
  (b : α) ^ (Int.log b |x| + 1 - p)

/-- The nearest number with `p` digits, the even one for halves. -/
def roundDigits (b p : ℕ) (x : α) : α :=
  roundHalfEven (x / lastPlace b p x) * lastPlace b p x

variable {b p : ℕ}

theorem lastPlace_pos (hb : 1 < b) (x : α) :
  0 < lastPlace b p x
  := by
  have : (0 : α) < b := by exact_mod_cast Nat.zero_lt_of_lt hb
  apply zpow_pos this _

omit [IsStrictOrderedRing α] in
theorem lastPlace_neg (x : α) :
  lastPlace b p (-x) = lastPlace b p x
  := by
  rw [lastPlace, lastPlace, abs_neg]

@[simp]
theorem roundDigits_zero :
  roundDigits b p (0 : α) = 0
  := by
  have hzero : roundHalfEven (0 : α) = 0 := by
    simpa using roundHalfEven_intCast (α := α) 0
  rw [roundDigits, zero_div, hzero, Int.cast_zero, zero_mul]

theorem roundDigits_neg (x : α) :
  roundDigits b p (-x) = -roundDigits b p x
  := by
  rw [roundDigits, roundDigits, lastPlace_neg, neg_div, roundHalfEven_neg, Int.cast_neg, neg_mul]

omit [IsStrictOrderedRing α] in
/-- The last place times the power of the base is the power that bounds the number. -/
theorem lastPlace_mul (hb : 1 < b) (k : ℤ) (x : α) :
  (b : α) ^ k * lastPlace b p x = (b : α) ^ (Int.log b |x| + 1 - p + k)
  := by
  have : (b : α) ≠ 0 := by exact_mod_cast (Nat.zero_lt_of_lt hb).ne'
  rw [lastPlace, ← zpow_add₀ this, add_comm]

omit [IsStrictOrderedRing α] in
theorem pow_mul_lastPlace (hb : 1 < b) (x : α) :
  (b : α) ^ p * lastPlace b p x = (b : α) ^ (Int.log b |x| + 1)
  := by
  have hexp : Int.log b |x| + 1 - p + p = Int.log b |x| + 1 := by omega
  rw [← zpow_natCast, lastPlace_mul hb, hexp]

omit [IsStrictOrderedRing α] in
theorem pow_pred_mul_lastPlace (hb : 1 < b) (hp : 0 < p) (x : α) :
  (b : α) ^ (p - 1) * lastPlace b p x = (b : α) ^ Int.log b |x|
  := by
  have hexp : Int.log b |x| + 1 - p + ((p - 1 : ℕ) : ℤ) = Int.log b |x| := by omega
  rw [← zpow_natCast, lastPlace_mul hb, hexp]

/-- In units of its last place a number has at most `p` digits. -/
theorem abs_div_lastPlace_lt (hb : 1 < b) (x : α) :
  |x / lastPlace b p x| < (b : α) ^ p
  := by
  rw [abs_div, abs_of_pos (lastPlace_pos hb x), div_lt_iff₀ (lastPlace_pos hb x),
    pow_mul_lastPlace hb]
  apply Int.lt_zpow_succ_log_self hb _

/-- In units of its last place a number other than zero has `p` digits. -/
theorem le_abs_div_lastPlace (hb : 1 < b) (hp : 0 < p) {x : α} (hx : x ≠ 0) :
  (b : α) ^ (p - 1) ≤ |x / lastPlace b p x|
  := by
  rw [abs_div, abs_of_pos (lastPlace_pos hb x), le_div_iff₀ (lastPlace_pos hb x),
    pow_pred_mul_lastPlace hb hp]
  apply Int.zpow_log_le_self hb (abs_pos.mpr hx)

/-- The rounded number is at most the power of the base above. -/
theorem abs_roundDigits_le (hb : 1 < b) (x : α) :
  |roundDigits b p x| ≤ (b : α) ^ (Int.log b |x| + 1)
  := by
  have hlt := abs_lt.mp (abs_div_lastPlace_lt (p := p) hb x)
  have hround : |(roundHalfEven (x / lastPlace b p x) : α)| ≤ (b : α) ^ p := by
    rw [abs_le]
    constructor
    · have := le_roundHalfEven (n := -(b : ℤ) ^ p) (x := x / lastPlace b p x)
        (by push_cast; exact hlt.1.le)
      exact_mod_cast this
    · have := roundHalfEven_le (n := (b : ℤ) ^ p) (x := x / lastPlace b p x)
        (by push_cast; exact hlt.2.le)
      exact_mod_cast this
  rw [roundDigits, abs_mul, abs_of_pos (lastPlace_pos hb x), ← pow_mul_lastPlace (p := p) hb]
  apply mul_le_mul_of_nonneg_right hround (lastPlace_pos hb x).le

/-- The rounded number is at least the power of the base below. -/
theorem le_roundDigits (hb : 1 < b) (hp : 0 < p) {x : α} (hx : 0 < x) :
  (b : α) ^ Int.log b |x| ≤ roundDigits b p x
  := by
  have hle := le_abs_div_lastPlace hb hp hx.ne'
  rw [abs_of_pos (div_pos hx (lastPlace_pos hb x))] at hle
  have hround : ((b : α) ^ (p - 1)) ≤ roundHalfEven (x / lastPlace b p x) := by
    have := le_roundHalfEven (n := (b : ℤ) ^ (p - 1)) (x := x / lastPlace b p x)
      (by push_cast; exact hle)
    exact_mod_cast this
  rw [roundDigits, ← pow_pred_mul_lastPlace hb hp]
  apply mul_le_mul_of_nonneg_right hround (lastPlace_pos hb x).le

theorem roundDigits_nonneg (hb : 1 < b) {x : α} (hx : 0 ≤ x) :
  0 ≤ roundDigits b p x
  := by
  have hround : 0 ≤ roundHalfEven (x / lastPlace b p x) := by
    apply le_roundHalfEven
    rw [Int.cast_zero]
    apply div_nonneg hx (lastPlace_pos hb x).le
  rw [roundDigits]
  apply mul_nonneg (by exact_mod_cast hround) (lastPlace_pos hb x).le

/-- The rounding is monotone: within one power of the base because the rounding to integers is,
and from one power to the next because the power between them is kept. -/
theorem roundDigits_mono (hb : 1 < b) (hp : 0 < p) {x y : α} (h : x ≤ y) :
  roundDigits b p x ≤ roundDigits b p y
  := by
  have hnonneg : ∀ {x y : α}, 0 ≤ x → x ≤ y → roundDigits b p x ≤ roundDigits b p y := by
    intro x y hx h
    rcases hx.eq_or_lt with rfl | hpos
    · rw [roundDigits_zero]
      apply roundDigits_nonneg hb h
    have hlog : Int.log b |x| ≤ Int.log b |y| := by
      rw [abs_of_pos hpos, abs_of_pos (hpos.trans_le h)]
      apply Int.log_mono_right hpos h
    rcases hlog.eq_or_lt with heq | hlt
    · rw [roundDigits, roundDigits, lastPlace, lastPlace, heq]
      have hplace := lastPlace_pos (p := p) hb y
      rw [lastPlace] at hplace
      apply mul_le_mul_of_nonneg_right _ hplace.le
      exact_mod_cast roundHalfEven_mono (div_le_div_of_nonneg_right h hplace.le)
    · have hone : (1 : α) ≤ b := by exact_mod_cast hb.le
      apply (le_abs_self _).trans
      apply (abs_roundDigits_le hb x).trans
      apply (zpow_le_zpow_right₀ hone (Int.add_one_le_iff.mpr hlt)).trans
      apply le_roundDigits hb hp (hpos.trans_le h)
  rcases le_or_gt 0 x with hx | hx
  · apply hnonneg hx h
  · rcases le_or_gt 0 y with hy | hy
    · have hneg := roundDigits_nonneg (p := p) hb (neg_nonneg.mpr hx.le)
      rw [roundDigits_neg] at hneg
      have hpos := roundDigits_nonneg (p := p) hb hy
      linarith
    · have := hnonneg (neg_nonneg.mpr hy.le) (neg_le_neg h)
      rw [roundDigits_neg, roundDigits_neg] at this
      apply neg_le_neg_iff.mp this

/-- A number with `p` digits is kept. -/
theorem roundDigits_of_digits (hb : 1 < b) (hp : 0 < p) {m k : ℤ} (hm : |m| ≤ (b : ℤ) ^ p) :
  roundDigits b p ((m : α) * (b : α) ^ k) = m * (b : α) ^ k
  := by
  have hbase : (0 : α) < b := by exact_mod_cast Nat.zero_lt_of_lt hb
  obtain ⟨n, hn⟩ : ∃ n : ℤ,
      (m : α) * (b : α) ^ k / lastPlace b p ((m : α) * (b : α) ^ k) = n := by
    rcases eq_or_ne m 0 with rfl | hzero
    · use 0
      simp
    have habs : |(m : α) * (b : α) ^ k| ≤ (b : α) ^ ((p : ℤ) + k) := by
      rw [abs_mul, abs_of_pos (zpow_pos hbase k), zpow_add₀ hbase.ne', zpow_natCast]
      apply mul_le_mul_of_nonneg_right _ (zpow_pos hbase k).le
      exact_mod_cast hm
    have hpos : 0 < |(m : α) * (b : α) ^ k| := by
      rw [abs_pos]
      apply mul_ne_zero (by exact_mod_cast hzero) (zpow_pos hbase k).ne'
    have hlog : Int.log b |(m : α) * (b : α) ^ k| ≤ p + k := by
      have := Int.log_mono_right (b := b) hpos habs
      rwa [Int.log_zpow hb] at this
    rw [lastPlace]
    generalize hunit : Int.log b |(m : α) * (b : α) ^ k| = e at hlog
    rcases le_or_gt (e + 1 - p) k with hle | hgt
    · obtain ⟨j, hj⟩ := Int.eq_ofNat_of_zero_le (sub_nonneg.mpr hle)
      use m * (b : ℤ) ^ j
      rw [mul_div_assoc, ← zpow_sub₀ hbase.ne', hj, zpow_natCast]
      push_cast
      rfl
    · have he : e = p + k := by omega
      have hfull : |(m : α) * (b : α) ^ k| = (b : α) ^ ((p : ℤ) + k) := by
        apply le_antisymm habs
        rw [← he, ← hunit]
        apply Int.zpow_log_le_self hb hpos
      have hquotient : ((b : α) ^ ((p : ℤ) + k)) / (b : α) ^ (e + 1 - p) = (b : α) ^ (p - 1) := by
        rw [← zpow_sub₀ hbase.ne', ← zpow_natCast]
        congr 1
        omega
      rcases abs_choice ((m : α) * (b : α) ^ k) with hsign | hsign
      · use (b : ℤ) ^ (p - 1)
        rw [← hsign, hfull, hquotient]
        push_cast
        rfl
      · use -(b : ℤ) ^ (p - 1)
        rw [← neg_eq_iff_eq_neg.mpr hsign, hfull, neg_div, hquotient]
        push_cast
        rfl
  have hplace := lastPlace_pos (p := p) hb ((m : α) * (b : α) ^ k)
  rw [roundDigits, hn, roundHalfEven_intCast, ← hn, div_mul_cancel₀ _ hplace.ne']

/-- The rounded number has `p` digits. -/
theorem roundDigits_roundDigits (hb : 1 < b) (hp : 0 < p) (x : α) :
  roundDigits b p (roundDigits b p x) = roundDigits b p x
  := by
  have hlt := abs_lt.mp (abs_div_lastPlace_lt (p := p) hb x)
  conv_lhs => rw [roundDigits.eq_def b p x, lastPlace]
  rw [roundDigits_of_digits hb hp, roundDigits, lastPlace]
  rw [abs_le]
  constructor
  · apply le_roundHalfEven
    push_cast
    exact hlt.1.le
  · apply roundHalfEven_le
    push_cast
    exact hlt.2.le

/-- An integer of at most `p` digits is kept. -/
theorem roundDigits_intCast (hb : 1 < b) (hp : 0 < p) {n : ℤ} (h : |n| ≤ (b : ℤ) ^ p) :
  roundDigits b p (n : α) = n
  := by
  have := roundDigits_of_digits (α := α) (k := 0) hb hp h
  rwa [zpow_zero, mul_one] at this

/-- A number with `p` digits is a multiple of its last place. -/
theorem exists_mul_lastPlace (hb : 1 < b) {x : α} (h : roundDigits b p x = x) :
  ∃ m : ℤ, |m| < (b : ℤ) ^ p ∧ x = m * lastPlace b p x
  := by
  have hx : x = roundHalfEven (x / lastPlace b p x) * lastPlace b p x := h.symm
  refine ⟨_, ?_, hx⟩
  have hlt := abs_div_lastPlace_lt (p := p) hb x
  rw [← eq_div_of_mul_eq (lastPlace_pos hb x).ne' hx.symm] at hlt
  exact_mod_cast hlt

/-- A small summand is lost: less than half of the last place leaves a positive number as it is. -/
theorem roundDigits_add_of_lt (hb : 1 < b) {x d : α} (h : roundDigits b p x = x) (hx : 0 < x)
    (hd : 0 ≤ d) (hlt : d < lastPlace b p x / 2) :
  roundDigits b p (x + d) = x
  := by
  obtain ⟨m, hm, hxm⟩ := exists_mul_lastPlace hb h
  have hplace := lastPlace_pos (p := p) hb x
  have hlast : m + 1 ≤ (b : ℤ) ^ p := (lt_of_abs_lt hm)
  have hbound : x + lastPlace b p x ≤ (b : α) ^ (Int.log b |x| + 1) := by
    rw [← pow_mul_lastPlace (p := p) hb]
    calc x + lastPlace b p x = (m + 1) * lastPlace b p x := by
          rw [add_mul, one_mul, ← hxm]
      _ ≤ (b : α) ^ p * lastPlace b p x := by
          apply mul_le_mul_of_nonneg_right _ hplace.le
          exact_mod_cast hlast
  have hlog : Int.log b |x + d| = Int.log b |x| := by
    rw [abs_of_pos hx] at hbound ⊢
    rw [abs_of_pos (by linarith)]
    apply le_antisymm
    · rw [← Int.lt_add_one_iff, ← Int.lt_zpow_iff_log_lt hb (by linarith)]
      linarith
    · apply Int.log_mono_right hx (by linarith)
  have hsame : lastPlace b p (x + d) = lastPlace b p x := by
    rw [lastPlace, lastPlace, hlog]
  have hquotient : x / lastPlace b p x = m := (eq_div_of_mul_eq hplace.ne' hxm.symm).symm
  have hsmall : d / lastPlace b p x < 1 / 2 := by
    rw [div_lt_iff₀ hplace]
    linarith
  have hnonneg : 0 ≤ d / lastPlace b p x := div_nonneg hd hplace.le
  rw [roundDigits, hsame, add_div, hquotient, roundHalfEven_of_lt (n := m), ← hxm]
  · linarith
  · linarith

end Digits
