import Mathlib.Data.List.Range
import Mathlib.Data.Nat.ModEq
import Mathlib.Logic.Function.Basic

/-!
# Ring buffers

A ring of `n` slots with a head, where the next element goes, a tail, where the oldest element
is, and a count.  A push into a full ring drops the oldest element.  The contents of a ring are
a list, and the operations of the ring are those of a queue of bounded length on its contents.
-/

/-- A ring of `n` slots. -/
structure RingBuffer (n : ℕ) (α : Type) where
  slots : ℕ → α
  head : ℕ
  tail : ℕ
  count : ℕ
  tail_lt : tail < n
  count_le : count ≤ n
  head_eq : head = (tail + count) % n

namespace RingBuffer

variable {n : ℕ} {α : Type}

/-- A queue of length at most `n` takes an element at its end, and drops its first element if it
is full. -/
def boundedPush (n : ℕ) (l : List α) (a : α) : List α :=
  (if n ≤ l.length then l.tail else l) ++ [a]

/-- The elements of a ring, from the oldest one. -/
def contents (r : RingBuffer n α) : List α :=
  (List.range r.count).map fun k => r.slots ((r.tail + k) % n)

/-- A ring with no element. -/
def empty (a : α) (h : 0 < n) : RingBuffer n α where
  slots := fun _ => a
  head := 0
  tail := 0
  count := 0
  tail_lt := h
  count_le := Nat.zero_le n
  head_eq := by rw [Nat.zero_add, Nat.zero_mod]

/-- The same slots, with no element. -/
def clear (r : RingBuffer n α) : RingBuffer n α where
  slots := r.slots
  head := 0
  tail := 0
  count := 0
  tail_lt := by
    apply lt_of_le_of_lt (Nat.zero_le _) r.tail_lt
  count_le := Nat.zero_le n
  head_eq := by rw [Nat.zero_add, Nat.zero_mod]

/-- The oldest element is dropped if the ring is full. -/
def makeRoom (r : RingBuffer n α) : RingBuffer n α :=
  if h : n ≤ r.count then
    { slots := r.slots
      head := r.head
      tail := (r.tail + 1) % n
      count := r.count - 1
      tail_lt := Nat.mod_lt _ (lt_of_le_of_lt (Nat.zero_le _) r.tail_lt)
      count_le := le_trans (Nat.sub_le _ _) r.count_le
      head_eq := by
        have hpos : 0 < r.count := lt_of_lt_of_le (lt_of_le_of_lt (Nat.zero_le _) r.tail_lt) h
        rw [r.head_eq, Nat.mod_add_mod, show r.tail + 1 + (r.count - 1) = r.tail + r.count by omega] }
  else r

theorem makeRoom_count_lt (r : RingBuffer n α) :
  r.makeRoom.count < n
  := by
  have hn : 0 < n := lt_of_le_of_lt (Nat.zero_le _) r.tail_lt
  have hle := r.count_le
  rw [makeRoom]
  split
  · dsimp only
    omega
  · omega

/-- The element at the head is written, in a ring with room. -/
def put (r : RingBuffer n α) (a : α) (h : r.count < n) : RingBuffer n α where
  slots := Function.update r.slots r.head a
  head := (r.head + 1) % n
  tail := r.tail
  count := r.count + 1
  tail_lt := r.tail_lt
  count_le := h
  head_eq := by rw [r.head_eq, Nat.mod_add_mod, Nat.add_assoc]

/-- An element is pushed at the head. -/
def push (r : RingBuffer n α) (a : α) : RingBuffer n α :=
  r.makeRoom.put a r.makeRoom_count_lt

/-- The oldest element is taken. -/
def pop (r : RingBuffer n α) : Option (α × RingBuffer n α) :=
  if h : 0 < r.count then
    some (r.slots r.tail,
      { slots := r.slots
        head := r.head
        tail := (r.tail + 1) % n
        count := r.count - 1
        tail_lt := Nat.mod_lt _ (lt_of_le_of_lt (Nat.zero_le _) r.tail_lt)
        count_le := le_trans (Nat.sub_le _ _) r.count_le
        head_eq := by
          rw [r.head_eq, Nat.mod_add_mod,
            show r.tail + 1 + (r.count - 1) = r.tail + r.count by omega] })
  else none

/-! ### Contents -/

@[simp]
theorem length_contents (r : RingBuffer n α) :
  r.contents.length = r.count
  := by
  rw [contents, List.length_map, List.length_range]

/-- The oldest element comes first. -/
theorem contents_eq_cons (r : RingBuffer n α) (h : 0 < r.count) :
  r.contents
    = r.slots r.tail
      :: (List.range (r.count - 1)).map fun k => r.slots (((r.tail + 1) % n + k) % n)
  := by
  obtain ⟨m, hm⟩ : ∃ m, r.count = m + 1 := ⟨r.count - 1, by omega⟩
  rw [contents, hm, List.range_succ_eq_map, List.map_cons, List.map_map, Nat.add_zero,
    Nat.mod_eq_of_lt r.tail_lt, Nat.add_sub_cancel]
  congr 1
  apply List.map_congr_left
  intro k _
  rw [Function.comp_apply, Nat.mod_add_mod, Nat.succ_eq_add_one,
    show r.tail + (k + 1) = r.tail + 1 + k by omega]

theorem contents_makeRoom (r : RingBuffer n α) :
  r.makeRoom.contents = if n ≤ r.contents.length then r.contents.tail else r.contents
  := by
  rw [length_contents, makeRoom]
  split
  · rename_i h
    have hpos : 0 < r.count := lt_of_lt_of_le (lt_of_le_of_lt (Nat.zero_le _) r.tail_lt) h
    rw [r.contents_eq_cons hpos]
    rfl
  · rfl

theorem contents_put (r : RingBuffer n α) (a : α) (h : r.count < n) :
  (r.put a h).contents = r.contents ++ [a]
  := by
  rw [contents, put, List.range_succ, List.map_append, List.map_singleton, contents]
  dsimp only
  rw [← r.head_eq, Function.update_self]
  congr 1
  apply List.map_congr_left
  intro k hk
  have hlt : k < r.count := List.mem_range.mp hk
  have htail := r.tail_lt
  -- the slot of an element differs from the head, which is less than `n` slots behind
  have hne : (r.tail + k) % n ≠ r.head := by
    rw [r.head_eq]
    intro heq
    have hcancel : k % n = r.count % n := Nat.ModEq.add_left_cancel' r.tail heq
    rw [Nat.mod_eq_of_lt (hlt.trans h), Nat.mod_eq_of_lt h] at hcancel
    omega
  rw [Function.update_of_ne hne]

/-- A push is a push on the contents. -/
@[simp]
theorem contents_push (r : RingBuffer n α) (a : α) :
  (r.push a).contents = boundedPush n r.contents a
  := by
  rw [push, contents_put, contents_makeRoom, boundedPush]

/-- A pop from an empty ring fails. -/
theorem pop_eq_none {r : RingBuffer n α} (h : r.contents = []) :
  r.pop = none
  := by
  have hcount : r.count = 0 := by rw [← length_contents, h, List.length_nil]
  rw [pop, dif_neg (by omega)]

/-- A pop takes the first element of the contents. -/
theorem pop_eq_some {r : RingBuffer n α} {a : α} {l : List α} (h : r.contents = a :: l) :
  ∃ r', r.pop = some (a, r') ∧ r'.contents = l
  := by
  have hpos : 0 < r.count := by
    rw [← length_contents, h, List.length_cons]
    omega
  rw [contents_eq_cons r hpos, List.cons.injEq] at h
  rw [pop, dif_pos hpos, h.1]
  exact ⟨_, rfl, h.2⟩

theorem map_boundedPush {β : Type} (f : α → β) (l : List α) (a : α) :
  (boundedPush n l a).map f = boundedPush n (l.map f) (f a)
  := by
  rw [boundedPush, boundedPush, List.map_append, List.map_singleton, List.length_map]
  split
  · rw [List.map_tail]
  · rfl

theorem mem_boundedPush {l : List α} {a b : α} (h : b ∈ boundedPush n l a) :
  b ∈ l ∨ b = a
  := by
  rw [boundedPush, List.mem_append, List.mem_singleton] at h
  rcases h with h | h
  · left
    split at h
    · apply List.mem_of_mem_tail h
    · apply h
  · right
    apply h

/-- As long as there is room, elements are appended. -/
theorem foldl_boundedPush_of_le {l l' : List α} (h : l.length + l'.length ≤ n) :
  l'.foldl (boundedPush n) l = l ++ l'
  := by
  induction l' generalizing l with
  | nil => rw [List.foldl_nil, List.append_nil]
  | cons a l' ih =>
      rw [List.length_cons] at h
      have hpush : boundedPush n l a = l ++ [a] := by
        rw [boundedPush, if_neg (by omega)]
      rw [List.foldl_cons, hpush, ih, List.append_assoc, List.singleton_append]
      rw [List.length_append, List.length_singleton]
      omega

end RingBuffer
