import Mathlib.Data.List.GetD
import Mathlib.Data.UInt

/-!
# Byte buffers

A buffer is a function from positions to bytes, of which a program uses an initial part.  Copying
between buffers, and the numbers stored in them in little-endian order.
-/

/-- A buffer of bytes. -/
abbrev Bytes := ℕ → UInt8

namespace Bytes

/-- A buffer that starts with given bytes, followed by zeros. -/
def ofList (l : List UInt8) : Bytes := fun i => l.getD i 0

/-- The buffer from a position on. -/
def drop (b : Bytes) (start : ℕ) : Bytes := fun i => b (start + i)

/-- The first bytes of a buffer. -/
def take (b : Bytes) (length : ℕ) : List UInt8 := (List.range length).map b

/-- The first bytes of another buffer are copied to a position. -/
def copy (b : Bytes) (start : ℕ) (source : Bytes) (length : ℕ) : Bytes :=
  fun i => if start ≤ i ∧ i < start + length then source (i - start) else b i

/-- A 16-bit number. -/
def uint16 (b : Bytes) (start : ℕ) : UInt16 :=
  (b start).toUInt16 + (b (start + 1)).toUInt16 <<< 8

/-- A 32-bit number. -/
def uint32 (b : Bytes) (start : ℕ) : UInt32 :=
  (List.range 4).foldr (fun k x => x <<< 8 + (b (start + k)).toUInt32) 0

/-- A 64-bit number. -/
def uint64 (b : Bytes) (start : ℕ) : UInt64 :=
  (List.range 8).foldr (fun k x => x <<< 8 + (b (start + k)).toUInt64) 0

/-- The bytes of a 16-bit number. -/
def ofUInt16 (x : UInt16) : Bytes := fun i => (x >>> (8 * i).toUInt16).toUInt8

/-- The bytes of a 32-bit number. -/
def ofUInt32 (x : UInt32) : Bytes := fun i => (x >>> (8 * i).toUInt32).toUInt8

/-- The bytes of a 64-bit number. -/
def ofUInt64 (x : UInt64) : Bytes := fun i => (x >>> (8 * i).toUInt64).toUInt8

/-- A byte is stored. -/
abbrev set8 (b : Bytes) (start : ℕ) (x : UInt8) : Bytes := b.copy start (fun _ => x) 1

/-- A 16-bit number is stored. -/
abbrev set16 (b : Bytes) (start : ℕ) (x : UInt16) : Bytes := b.copy start (ofUInt16 x) 2

/-- A 32-bit number is stored. -/
abbrev set32 (b : Bytes) (start : ℕ) (x : UInt32) : Bytes := b.copy start (ofUInt32 x) 4

/-- Some bytes from a position on. -/
def slice (b : Bytes) (start length : ℕ) : List UInt8 := (b.drop start).take length

variable {b source : Bytes} {start length i : ℕ}

theorem copy_of_mem (h : start ≤ i) (h' : i < start + length) :
  b.copy start source length i = source (i - start)
  := if_pos ⟨h, h'⟩

theorem copy_of_not_mem (h : ¬ (start ≤ i ∧ i < start + length)) :
  b.copy start source length i = b i
  := if_neg h

theorem copy_zero_of_lt (h : i < length) :
  b.copy 0 source length i = source i
  := by
  apply copy_of_mem (Nat.zero_le i)
  omega

/-- A copy depends on the bytes copied. -/
theorem copy_congr {source' : Bytes} (h : ∀ i < length, source i = source' i) :
  b.copy start source length = b.copy start source' length
  := by
  funext i
  rw [copy, copy]
  split
  · apply h
    omega
  · rfl

/-- Next to what is copied, a copy is what was there. -/
theorem copy_apply_congr {b' : Bytes} (h : b i = b' i) :
  b.copy start source length i = b'.copy start source length i
  := by
  rw [copy, copy, h]

@[simp]
theorem length_take (b : Bytes) (length : ℕ) :
  (b.take length).length = length
  := by
  rw [take, List.length_map, List.length_range]

theorem ofList_take (h : i < length) :
  ofList (b.take length) i = b i
  := by
  simp [ofList, take, h]

/-- A 16-bit number depends on its two bytes. -/
theorem uint16_congr (h : ∀ i < start + 2, b i = source i) :
  b.uint16 start = source.uint16 start
  := by
  rw [uint16, uint16, h start (by omega), h (start + 1) (by omega)]

/-- A 32-bit number depends on its four bytes. -/
theorem uint32_congr (h : ∀ i < start + 4, b i = source i) :
  b.uint32 start = source.uint32 start
  := by
  have hb : ∀ k ∈ List.range 4, b (start + k) = source (start + k) := by
    intro k hk
    have hlt := List.mem_range.mp hk
    apply h
    omega
  rw [uint32, uint32]
  apply List.foldr_ext
  intro k hk x
  rw [hb k hk]

/-- A 64-bit number depends on its eight bytes. -/
theorem uint64_congr (h : ∀ i < start + 8, b i = source i) :
  b.uint64 start = source.uint64 start
  := by
  have hb : ∀ k ∈ List.range 8, b (start + k) = source (start + k) := by
    intro k hk
    have hlt := List.mem_range.mp hk
    apply h
    omega
  rw [uint64, uint64]
  apply List.foldr_ext
  intro k hk x
  rw [hb k hk]

/-! ### What is stored is read again -/

section Stored

variable {x : UInt8} {y : UInt16} {z : UInt32} {j n m : ℕ}

theorem uint16_ofUInt16 (y : UInt16) :
  (ofUInt16 y).uint16 0 = y
  := by
  apply UInt16.toNat.inj
  have hlt := y.toNat_lt
  have h0 : (ofUInt16 y 0).toNat = y.toNat % 256 := by
    simp [ofUInt16]
  have h1 : (ofUInt16 y 1).toNat = y.toNat / 256 % 256 := by
    simp [ofUInt16, Nat.shiftRight_eq_div_pow]
  simp [uint16, UInt16.toNat_add, Nat.shiftLeft_eq, h0, h1]
  omega

theorem uint32_ofUInt32 (z : UInt32) :
  (ofUInt32 z).uint32 0 = z
  := by
  apply UInt32.toNat.inj
  have hlt := z.toNat_lt
  have h0 : (ofUInt32 z 0).toNat = z.toNat % 256 := by
    simp [ofUInt32]
  have h1 : (ofUInt32 z 1).toNat = z.toNat / 256 % 256 := by
    simp [ofUInt32, Nat.shiftRight_eq_div_pow]
  have h2 : (ofUInt32 z 2).toNat = z.toNat / 65536 % 256 := by
    simp [ofUInt32, Nat.shiftRight_eq_div_pow]
  have h3 : (ofUInt32 z 3).toNat = z.toNat / 16777216 % 256 := by
    simp [ofUInt32, Nat.shiftRight_eq_div_pow]
  simp [uint32, List.range_succ, UInt32.toNat_add, Nat.shiftLeft_eq, h0, h1, h2, h3]
  omega

theorem uint16_eq (b : Bytes) (i : ℕ) :
  b.uint16 i = (b.drop i).uint16 0
  := rfl

theorem uint32_eq (b : Bytes) (i : ℕ) :
  b.uint32 i = (b.drop i).uint32 0
  := by
  simp only [uint32, drop, Nat.zero_add]

theorem slice_congr (h : ∀ k < m, b (j + k) = source (i + k)) :
  b.slice j m = source.slice i m
  := by
  rw [slice, slice, take, take]
  apply List.map_congr_left
  intro k hk
  apply h k (List.mem_range.mp hk)

@[simp]
theorem length_slice (b : Bytes) (i m : ℕ) :
  (b.slice i m).length = m
  := length_take _ _

/-- Numbers with the same bytes are the same. -/
theorem uint64_of_slice (h : b.slice i 8 = source.slice j 8) :
  b.uint64 i = source.uint64 j
  := by
  have hbytes := List.map_inj_left.mp h
  rw [uint64, uint64]
  apply List.foldr_ext
  intro k hk x
  have hbyte : b (i + k) = source (j + k) := hbytes k hk
  rw [hbyte]

theorem ofList_slice {k : ℕ} (h : k < m) :
  ofList (b.slice i m) k = b (i + k)
  := by
  rw [ofList, List.getD_eq_getElem _ _ (by rw [length_slice]; exact h)]
  simp only [slice, take, drop, List.getElem_map, List.getElem_range]

theorem copy_disjoint (h : j + 1 ≤ i ∨ i + n ≤ j) :
  b.copy i source n j = b j
  := by
  apply copy_of_not_mem
  omega

theorem uint16_copy_disjoint (h : j + 2 ≤ i ∨ i + n ≤ j) :
  (b.copy i source n).uint16 j = b.uint16 j
  := by
  rw [uint16, uint16, copy_disjoint (by omega), copy_disjoint (by omega)]

theorem uint32_copy_disjoint (h : j + 4 ≤ i ∨ i + n ≤ j) :
  (b.copy i source n).uint32 j = b.uint32 j
  := by
  rw [uint32_eq, uint32_eq b]
  apply uint32_congr
  intro k hk
  apply copy_disjoint
  omega

theorem slice_copy_disjoint (h : j + m ≤ i ∨ i + n ≤ j) :
  (b.copy i source n).slice j m = b.slice j m
  := by
  apply slice_congr
  intro k hk
  apply copy_disjoint
  omega

theorem set8_disjoint (h : j + 1 ≤ i ∨ i + 1 ≤ j) :
  b.set8 i x j = b j
  := copy_disjoint h

theorem set16_disjoint (h : j + 1 ≤ i ∨ i + 2 ≤ j) :
  b.set16 i y j = b j
  := copy_disjoint h

theorem set32_disjoint (h : j + 1 ≤ i ∨ i + 4 ≤ j) :
  b.set32 i z j = b j
  := copy_disjoint h

theorem set8_self :
  b.set8 i x i = x
  := copy_of_mem le_rfl (Nat.lt_succ_self i)

theorem uint16_set16 :
  (b.set16 i y).uint16 i = y
  := by
  rw [uint16_eq, ← uint16_ofUInt16 y, set16]
  apply uint16_congr
  intro k hk
  rw [drop, copy_of_mem (by omega) (by omega), Nat.add_sub_cancel_left, uint16_ofUInt16]

theorem uint32_set32 :
  (b.set32 i z).uint32 i = z
  := by
  rw [uint32_eq, ← uint32_ofUInt32 z, set32]
  apply uint32_congr
  intro k hk
  rw [drop, copy_of_mem (by omega) (by omega), Nat.add_sub_cancel_left, uint32_ofUInt32]

theorem slice_copy (h : m ≤ n) :
  (b.copy i source n).slice i m = source.take m
  := by
  have htake : source.take m = source.slice 0 m := by
    rw [slice, take, take]
    apply List.map_congr_left
    intro k _
    rw [drop, Nat.zero_add]
  rw [htake]
  apply slice_congr
  intro k hk
  rw [copy_of_mem (by omega) (by omega), Nat.add_sub_cancel_left, Nat.zero_add]

theorem slice_add (b : Bytes) (i m n : ℕ) :
  b.slice i (m + n) = b.slice i m ++ b.slice (i + m) n
  := by
  rw [slice, slice, slice, take, take, take, List.range_add, List.map_append, List.map_map]
  congr 1
  apply List.map_congr_left
  intro k _
  rw [Function.comp_apply, drop, drop, Nat.add_assoc]

/-- A number is read from its bytes. -/
theorem uint16_copy_take :
  (b.copy 0 (ofList ((ofUInt16 y).take 2)) 2).uint16 0 = y
  := by
  rw [← uint16_ofUInt16 y]
  apply uint16_congr
  intro k hk
  rw [copy_zero_of_lt (by omega), ofList_take (by omega), uint16_ofUInt16]

theorem uint32_copy_take :
  (b.copy 0 (ofList ((ofUInt32 z).take 4)) 4).uint32 0 = z
  := by
  rw [← uint32_ofUInt32 z]
  apply uint32_congr
  intro k hk
  rw [copy_zero_of_lt (by omega), ofList_take (by omega), uint32_ofUInt32]

/-- A list is read from a buffer that starts with it. -/
theorem take_ofList (l : List UInt8) :
  (ofList l).take l.length = l
  := by
  apply List.ext_getElem
  · rw [length_take]
  · intro i h h'
    simp [take, ofList, h']

/-- A buffer is zero from a position on. -/
def ZeroFrom (n : ℕ) (b : Bytes) : Prop := ∀ i, n ≤ i → b i = 0

theorem ZeroFrom.copy (h : b.ZeroFrom n) (hfits : i + m ≤ n) :
  (b.copy i source m).ZeroFrom n
  := by
  intro k hk
  rw [copy_of_not_mem (by omega), h k hk]

/-- The first bytes of a buffer are all of it if the others are zero. -/
theorem ZeroFrom.ofList_take (h : b.ZeroFrom n) :
  ofList (b.take n) = b
  := by
  funext i
  by_cases hi : i < n
  · exact Bytes.ofList_take hi
  · rw [h i (by omega), ofList, List.getD_eq_default _ _ (by rw [length_take]; omega)]

/-- A record is found among the bytes of records of one width. -/
theorem getD_flatMap {α : Type} {f : α → List UInt8} {w : ℕ} (hw : ∀ a, (f a).length = w)
    {l : List α} (d : α) {k : ℕ} (hk : k < l.length) {i : ℕ} (hi : i < w) :
  (l.flatMap f).getD (w * k + i) 0 = (f (l.getD k d)).getD i 0
  := by
  induction l generalizing k with
  | nil => simp at hk
  | cons a l ih =>
      rw [List.flatMap_cons]
      cases k with
      | zero =>
          rw [List.getD_append _ _ _ _ (by rw [hw]; omega)]
          simp
      | succ k =>
          have hpos : w * (k + 1) + i - w = w * k + i := by
            rw [Nat.mul_add]
            omega
          rw [List.getD_append_right _ _ _ _ (by rw [hw, Nat.mul_add]; omega), hw, hpos,
            ih (by simpa using hk), List.getD_cons_succ]

end Stored

end Bytes
