import Mathlib.Algebra.Order.BigOperators.Group.Finset
import Mathlib.Logic.Function.Basic

/-!
# Packing items into bins

Items that come one after another are put into bins of a capacity, each into the current bin if it
has room and into a new one otherwise.
-/

/-- The number of the current bin, what is in it, and what is in the bins before. -/
structure Packing where
  current : ℕ
  size : ℕ
  sizes : ℕ → ℕ

namespace Packing

/-- An item is packed. -/
def add (capacity item : ℕ) (p : Packing) : Packing :=
  if capacity < p.size + item then
    ⟨p.current + 1, item, Function.update p.sizes p.current p.size⟩
  else { p with size := p.size + item }

/-- What is in the bins if the current one is the last one. -/
def close (p : Packing) : ℕ → ℕ :=
  Function.update p.sizes p.current p.size

/-- Where a bin starts. -/
def start (sizes : ℕ → ℕ) (bin : ℕ) : ℕ :=
  ∑ i ∈ Finset.range bin, sizes i

/-- The total of the items. -/
def total (p : Packing) : ℕ :=
  start p.sizes p.current + p.size

variable {capacity item k : ℕ} {p q r : Packing} {sizes sizes' : ℕ → ℕ}

theorem start_succ (sizes : ℕ → ℕ) (bin : ℕ) :
  start sizes (bin + 1) = start sizes bin + sizes bin
  := Finset.sum_range_succ sizes bin

theorem start_mono {bin bin' : ℕ} (h : bin ≤ bin') :
  start sizes bin ≤ start sizes bin'
  := Finset.sum_le_sum_of_subset (Finset.range_subset_range.mpr h)

theorem start_congr (h : ∀ i < k, sizes i = sizes' i) :
  start sizes k = start sizes' k
  := Finset.sum_congr rfl fun i hi => h i (Finset.mem_range.mp hi)

theorem start_le (h : ∀ i < k, sizes i ≤ sizes' i) :
  start sizes k ≤ start sizes' k
  := Finset.sum_le_sum fun i hi => h i (Finset.mem_range.mp hi)

theorem close_of_lt (h : k < p.current) :
  p.close k = p.sizes k
  := Function.update_of_ne h.ne _ _

theorem close_current (p : Packing) :
  p.close p.current = p.size
  := Function.update_self _ _ _

/-- The bins end where the items end. -/
theorem start_close (p : Packing) :
  start p.close (p.current + 1) = p.total
  := by
  rw [start_succ, close_current, total, start_congr fun i hi => close_of_lt hi]

/-- An item is packed behind the items before. -/
theorem total_add :
  (p.add capacity item).total = p.total + item
  := by
  rw [add]
  split
  case isTrue =>
    rw [total]
    dsimp only
    congr 1
    apply p.start_close
  case isFalse =>
    rw [total, total]
    dsimp only
    rw [Nat.add_assoc]

/-- The current bin starts where the items before it end. -/
theorem start_add_le :
  start (p.add capacity item).close (p.add capacity item).current ≤ p.total
  := by
  rw [start_congr fun i hi => close_of_lt hi, add]
  split
  case isTrue => exact p.start_close.le
  case isFalse => exact Nat.le_add_right _ _

/-! ### Later packings -/

/-- A packing continues another one: the bins before stay as they are, and the current one is only
added to. -/
structure Continues (p q : Packing) : Prop where
  current : p.current ≤ q.current
  closed : ∀ i < p.current, q.close i = p.sizes i
  size : p.size ≤ q.close p.current

theorem Continues.refl (p : Packing) :
  p.Continues p
  := ⟨le_rfl, fun _ hi => close_of_lt hi, p.close_current.ge⟩

/-- The bins up to the current one stay where they are. -/
theorem Continues.start_eq (h : p.Continues q) (hk : k ≤ p.current) :
  start q.close k = start p.sizes k
  := start_congr fun i hi => h.closed i (by omega)

/-- No bin loses anything. -/
theorem Continues.close_le (h : p.Continues q) (hk : k ≤ p.current) :
  p.close k ≤ q.close k
  := by
  rcases hk.eq_or_lt with rfl | hk
  · rw [close_current]
    exact h.size
  · rw [close_of_lt hk, h.closed k hk]

theorem Continues.trans (h : p.Continues q) (h' : q.Continues r) :
  p.Continues r
  := by
  have hcurrent := h.current
  constructor
  case current => exact h.current.trans h'.current
  case closed =>
    intro i hi
    rw [h'.closed i (by omega), ← close_of_lt (by omega), h.closed i hi]
  case size =>
    rcases hcurrent.eq_or_lt with hsame | hlt
    · have hsize := h.size
      rw [hsame, close_current] at hsize
      rw [hsame]
      exact hsize.trans h'.size
    · rw [h'.closed _ hlt, ← close_of_lt hlt]
      exact h.size

theorem continues_add (capacity item : ℕ) (p : Packing) :
  p.Continues (p.add capacity item)
  := by
  rw [add]
  split
  case isTrue =>
    constructor
    case current => exact Nat.le_succ _
    case closed =>
      intro i hi
      rw [close_of_lt (Nat.lt_succ_of_lt hi)]
      exact Function.update_of_ne hi.ne _ _
    case size =>
      rw [close_of_lt (Nat.lt_succ_self _)]
      dsimp only
      rw [Function.update_self]
  case isFalse =>
    constructor
    case current => exact le_rfl
    case closed => exact fun i hi => close_of_lt hi
    case size =>
      rw [close, Function.update_self]
      exact Nat.le_add_right _ _

/-! ### What is packed -/

/-- An item, given by its start and its size, is within a bin. -/
def InBin (sizes : ℕ → ℕ) (bins : ℕ) (item : ℕ × ℕ) : Prop :=
  ∃ i < bins, start sizes i ≤ item.1 ∧ item.1 + item.2 ≤ start sizes (i + 1)

/-- Some items have been packed: no bin holds too much, two bins after each other hold more than the
capacity, and each item is within a bin. -/
structure Sound (capacity : ℕ) (items : List (ℕ × ℕ)) (p : Packing) : Prop where
  le : ∀ i ≤ p.current, p.close i ≤ capacity
  bins : (capacity + 1) * p.current + p.size ≤ 2 * p.total
  inBin : ∀ item ∈ items, InBin p.close (p.current + 1) item

theorem sound_nil (capacity : ℕ) :
  (⟨0, 0, sizes⟩ : Packing).Sound capacity []
  := by
  constructor
  case le =>
    intro i hi
    obtain rfl : i = 0 := Nat.le_zero.mp hi
    exact Nat.zero_le capacity
  case bins => exact Nat.zero_le _
  case inBin => exact fun item h => absurd h List.not_mem_nil

/-- Items stay in their bins. -/
theorem InBin.of_continues {item : ℕ × ℕ} (hitem : InBin p.close (p.current + 1) item)
    (h : p.Continues q) :
  InBin q.close (q.current + 1) item
  := by
  obtain ⟨i, hi, hle, hend⟩ := hitem
  have hcurrent := h.current
  refine ⟨i, by omega, ?_, hend.trans (start_le fun j hj => h.close_le (by omega))⟩
  rw [h.start_eq (by omega), ← start_congr fun j hj => close_of_lt (by omega)]
  exact hle

/-- An item that fits into a bin is packed. -/
theorem Sound.add {items : List (ℕ × ℕ)} (h : p.Sound capacity items) (hitem : item ≤ capacity) :
  (p.add capacity item).Sound capacity (items ++ [(p.total, item)])
  := by
  constructor
  case le =>
    intro i hi
    rw [Packing.add] at hi ⊢
    split at hi
    case isTrue hfull =>
      rw [if_pos hfull]
      rcases hi.eq_or_lt with rfl | hi
      · rw [close_current]
        exact hitem
      · rw [close_of_lt hi]
        exact h.le i (Nat.le_of_lt_succ hi)
    case isFalse hroom =>
      rw [if_neg hroom]
      rcases hi.eq_or_lt with rfl | hi
      · rw [close_current]
        exact Nat.le_of_not_lt hroom
      · rw [close_of_lt hi]
        exact (close_of_lt (p := p) hi).ge.trans (h.le i hi.le)
  case bins =>
    have hbins := h.bins
    rw [total_add, Packing.add]
    split
    · dsimp only
      rw [Nat.mul_succ]
      omega
    · dsimp only
      omega
  case inBin =>
    intro item' hitem'
    rcases List.mem_append.mp hitem' with hitem' | hitem'
    · exact (h.inBin item' hitem').of_continues (continues_add capacity item p)
    · rw [List.mem_singleton.mp hitem']
      refine ⟨_, Nat.lt_succ_self _, start_add_le, ?_⟩
      rw [start_close, total_add]

end Packing
