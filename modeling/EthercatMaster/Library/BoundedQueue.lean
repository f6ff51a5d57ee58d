import EthercatMaster.Library.Machine
import EthercatMaster.Library.RingBuffer

/-!
# Queues of bounded length

A queue that drops its oldest element when a new one comes and it is full.  An element is known by
the position of its push in the run.  The pops return elements in the order of their pushes, each
at most once, and an element is dropped only after as many newer ones as the queue has room for.
-/

namespace BoundedQueue

open RingBuffer

variable {α β : Type} {n : ℕ}

/-- An operation on a queue. -/
inductive Op (α : Type) where
  | push (a : α)
  | skip
  | pop

/-- The operation with another element. -/
def Op.map (f : α → β) : Op α → Op β
  | push a => .push (f a)
  | skip => .skip
  | pop => .pop

/-- Whether an operation brings an element. -/
def Op.isPush : Op α → Bool
  | push _ => true
  | skip => false
  | pop => false

/-- The queue after an operation. -/
def step (n : ℕ) (queue : List α) : Op α → List α
  | .push a => boundedPush n queue a
  | .skip => queue
  | .pop => queue.tail

/-- A queue that is empty at first. -/
def machine (n : ℕ) : Machine (List α) (Op α) :=
  ⟨[], step n⟩

/-- What the operation at a position returns: a pop returns the oldest element. -/
def popped (n : ℕ) (ops : List (Op α)) (i : ℕ) : Option α :=
  match ops[i]? with
  | some .pop => ((machine n).before ops i).head?
  | _ => none

theorem map_step (f : α → β) (queue : List α) (op : Op α) :
  (step n queue op).map f = step n (queue.map f) (op.map f)
  := by
  cases op with
  | push a => apply map_boundedPush
  | skip => rfl
  | pop => apply List.map_tail

/-! ### Numbered elements -/

/-- The operations, each element with the position of its push. -/
def numbered (ops : List (Op α)) : List (Op (α × ℕ)) :=
  ops.mapIdx fun i op => op.map fun a => (a, i)

/-- The elements in the queue before an operation, with the positions of their pushes. -/
def waiting (n : ℕ) (ops : List (Op α)) (i : ℕ) : List (α × ℕ) :=
  (machine n).before (numbered ops) i

/-- The position of the push whose element the operation at a position returns. -/
def served (n : ℕ) (ops : List (Op α)) (i : ℕ) : Option ℕ :=
  (popped n (numbered ops) i).map Prod.snd

/-- The number of elements pushed after a position and before another one. -/
def newer (ops : List (Op α)) (j i : ℕ) : ℕ :=
  ((ops.take i).drop (j + 1)).countP Op.isPush

/-- What the pops return comes in the order of its pushes, and nothing is lost but for at least `n`
newer elements: an element that has come before a pop has been returned, or is returned now or
after what is returned now, or that many newer ones have come. -/
structure InOrder (n : ℕ) (ops : List (Op α)) (served : ℕ → Option ℕ) : Prop where
  pushed : ∀ {i j}, served i = some j → j < i ∧ ∃ a, ops[j]? = some (.push a)
  increasing : ∀ {i i' j j'}, i < i' → served i = some j → served i' = some j' → j < j'
  kept : ∀ {i j a}, ops[i]? = some .pop → ops[j]? = some (.push a) → j < i →
    (∃ k < i, served k = some j) ∨ (∃ j' ≤ j, served i = some j') ∨ n ≤ newer ops j i

theorem getElem?_numbered (ops : List (Op α)) (i : ℕ) :
  (numbered ops)[i]? = ops[i]?.map fun op => op.map fun a => (a, i)
  := List.getElem?_mapIdx

/-- The elements in the queue are those of the numbered queue. -/
theorem map_waiting (ops : List (Op α)) (i : ℕ) :
  (waiting n ops i).map Prod.fst = (machine n).before ops i
  := by
  have hops : (numbered ops).map (Op.map Prod.fst) = ops := by
    apply List.ext_getElem?
    intro i
    rw [List.getElem?_map, getElem?_numbered, Option.map_map]
    cases ops[i]? with
    | none => rfl
    | some op =>
        cases op with
        | push a => rfl
        | skip => rfl
        | pop => rfl
  rw [waiting, Machine.map_before (machine n) (machine n) (f := List.map Prod.fst) rfl
    (fun queue op => map_step Prod.fst queue op), hops]

variable {ops : List (Op α)} {i : ℕ}

theorem waiting_of_none (h : ops[i]? = none) :
  waiting n ops (i + 1) = waiting n ops i
  := by
  apply Machine.before_succ_of_none
  rw [getElem?_numbered, h]
  rfl

theorem waiting_succ {op : Op α} (h : ops[i]? = some op) :
  waiting n ops (i + 1) = step n (waiting n ops i) (op.map fun a => (a, i))
  := by
  apply Machine.before_succ
  rw [getElem?_numbered, h]
  rfl

theorem popped_numbered (h : ops[i]? = some .pop) :
  popped n (numbered ops) i = (waiting n ops i).head?
  := by
  rw [popped, getElem?_numbered, h]
  rfl

/-- Only a pop returns an element. -/
theorem popped_eq_some {a : α} (h : popped n ops i = some a) :
  ops[i]? = some .pop ∧ ((machine n).before ops i).head? = some a
  := by
  rw [popped] at h
  split at h
  · rename_i hpop
    exact ⟨hpop, h⟩
  · cases h

theorem served_eq_some {j : ℕ} (h : served n ops i = some j) :
  ops[i]? = some .pop ∧ ∃ a, (waiting n ops i).head? = some (a, j)
  := by
  obtain ⟨⟨a, j'⟩, hpopped, rfl⟩ := Option.map_eq_some_iff.mp h
  obtain ⟨hpop, hhead⟩ := popped_eq_some hpopped
  rw [getElem?_numbered] at hpop
  obtain ⟨op, hop, hmap⟩ := Option.map_eq_some_iff.mp hpop
  cases op with
  | push a => cases hmap
  | skip => cases hmap
  | pop => exact ⟨hop, a, hhead⟩

/-! ### What is in the queue -/

theorem newer_succ {op : Op α} {j : ℕ} (hop : ops[i]? = some op) (h : j < i) :
  newer ops j (i + 1) = newer ops j i + if op.isPush then 1 else 0
  := by
  have hi : i < ops.length := (List.getElem?_eq_some_iff.mp hop).1
  have hlength : (ops.take i).length = i := List.length_take_of_le hi.le
  rw [newer, List.take_add_one, hop, Option.toList_some,
    List.drop_append_of_le_length (by omega), List.countP_append, List.countP_singleton, newer]

theorem newer_succ_of_none {j : ℕ} (h : ops[i]? = none) :
  newer ops j (i + 1) = newer ops j i
  := by
  rw [newer, List.take_add_one, h, Option.toList_none, List.append_nil, newer]

theorem newer_self {j : ℕ} (h : i ≤ j + 1) :
  newer ops j i = 0
  := by
  rw [newer, List.drop_eq_nil_of_le]
  · rfl
  · apply (List.length_take_le ..).trans h

/-- The elements in a queue before a position: they have been pushed in their order, and since the
push of each there have been as many as there are behind it. -/
structure Holds (ops : List (Op α)) (i : ℕ) (queue : List (α × ℕ)) : Prop where
  sorted : queue.Pairwise fun x y => x.2 < y.2
  pushed : ∀ x ∈ queue, x.2 < i ∧ ops[x.2]? = some (.push x.1)
  behind : ∀ m x, queue[m]? = some x → newer ops x.2 i + (m + 1) = queue.length

variable {queue : List (α × ℕ)}

theorem Holds.tail (h : Holds ops i queue) :
  Holds ops i queue.tail
  := by
  constructor
  case sorted => apply h.sorted.tail
  case pushed =>
    intro x hx
    apply h.pushed x (List.mem_of_mem_tail hx)
  case behind =>
    intro m x hx
    rw [List.getElem?_tail] at hx
    have := h.behind (m + 1) x hx
    rw [List.length_tail]
    omega

/-- An operation that brings nothing. -/
theorem Holds.next (h : Holds ops i queue) (hop : ∀ a, ops[i]? ≠ some (.push a)) :
  Holds ops (i + 1) queue
  := by
  constructor
  case sorted => apply h.sorted
  case pushed =>
    intro x hx
    have := h.pushed x hx
    exact ⟨by omega, this.2⟩
  case behind =>
    intro m x hx
    have hlt := (h.pushed x (List.mem_of_getElem? hx)).1
    rw [← h.behind m x hx]
    cases hi : ops[i]? with
    | none => rw [newer_succ_of_none hi]
    | some op =>
        rw [newer_succ hi hlt]
        cases op with
        | push a => exact absurd hi (hop a)
        | skip => rfl
        | pop => rfl

/-- An element is pushed behind the others. -/
theorem Holds.append (h : Holds ops i queue) {a : α} (hop : ops[i]? = some (.push a)) :
  Holds ops (i + 1) (queue ++ [(a, i)])
  := by
  constructor
  case sorted =>
    rw [List.pairwise_append]
    refine ⟨h.sorted, List.pairwise_singleton .., ?_⟩
    intro x hx y hy
    rw [List.mem_singleton.mp hy]
    apply (h.pushed x hx).1
  case pushed =>
    intro x hx
    rcases List.mem_append.mp hx with hx | hx
    · have := h.pushed x hx
      exact ⟨by omega, this.2⟩
    · rw [List.mem_singleton.mp hx]
      exact ⟨by omega, hop⟩
  case behind =>
    intro m x hx
    rw [List.length_append, List.length_singleton]
    rcases lt_trichotomy m queue.length with hm | rfl | hm
    · rw [List.getElem?_append_left hm] at hx
      have hlt := (h.pushed x (List.mem_of_getElem? hx)).1
      have := h.behind m x hx
      rw [newer_succ hop hlt, Op.isPush, if_pos rfl]
      omega
    · rw [List.getElem?_concat_length, Option.some.injEq] at hx
      rw [← hx, newer_self (by rfl)]
      omega
    · rw [List.getElem?_eq_none] at hx
      · cases hx
      · rw [List.length_append, List.length_singleton]
        omega

theorem Holds.step (h : Holds ops i queue) {op : Op α} (hop : ops[i]? = some op) :
  Holds ops (i + 1) (step n queue (op.map fun a => (a, i)))
  := by
  cases op with
  | push a =>
      apply Holds.append _ hop
      split
      · apply h.tail
      · apply h
  | skip =>
      apply h.next
      rw [hop]
      rintro a ⟨⟩
  | pop =>
      apply h.tail.next
      rw [hop]
      rintro a ⟨⟩

theorem holds_waiting (n : ℕ) (ops : List (Op α)) (i : ℕ) :
  Holds ops i (waiting n ops i)
  := by
  induction i with
  | zero =>
      constructor
      case sorted => apply List.Pairwise.nil
      case pushed =>
        intro x hx
        cases hx
      case behind =>
        intro m x hx
        cases hx
  | succ i ih =>
      cases hop : ops[i]? with
      | none =>
          rw [waiting_of_none hop]
          apply ih.next
          rw [hop]
          rintro a ⟨⟩
      | some op =>
          rw [waiting_succ hop]
          apply ih.step hop

/-! ### What is returned -/

/-- An element that is in the queue later has been there before, or has been pushed since. -/
theorem mem_waiting_succ {x : α × ℕ} (h : x ∈ waiting n ops (i + 1)) :
  x ∈ waiting n ops i ∨ x.2 = i
  := by
  cases hop : ops[i]? with
  | none =>
      left
      rw [waiting_of_none hop] at h
      apply h
  | some op =>
      rw [waiting_succ hop] at h
      cases op with
      | push a =>
          rcases mem_boundedPush h with h | h
          · exact .inl h
          · right
            rw [h]
      | skip => exact .inl h
      | pop => exact .inl (List.mem_of_mem_tail h)

/-- What is returned is older than what is in the queue after it. -/
theorem served_lt {k j : ℕ} (hserved : served n ops k = some j) (hk : k < i) :
  ∀ x ∈ waiting n ops i, j < x.2
  := by
  obtain ⟨hpop, a, hhead⟩ := served_eq_some hserved
  obtain ⟨queue, hqueue⟩ := List.head?_eq_some_iff.mp hhead
  have hholds := holds_waiting n ops k
  induction i with
  | zero => omega
  | succ i ih =>
      intro x hx
      rcases Nat.lt_succ_iff_lt_or_eq.mp hk with hk | rfl
      · rcases mem_waiting_succ hx with hx | hx
        · apply ih hk x hx
        · have := (hholds.pushed (a, j) (List.mem_of_mem_head? hhead)).1
          omega
      · rw [waiting_succ hpop, Op.map, step, hqueue, List.tail_cons] at hx
        have hsorted := hholds.sorted
        rw [hqueue, List.pairwise_cons] at hsorted
        apply hsorted.1 x hx

/-- What becomes of an element. -/
theorem kept_waiting {j : ℕ} {a : α} (hpush : ops[j]? = some (.push a)) (hj : j < i) :
  (∃ k < i, served n ops k = some j) ∨ (a, j) ∈ waiting n ops i ∨ n ≤ newer ops j i
  := by
  induction i with
  | zero => omega
  | succ i ih =>
      rcases Nat.lt_succ_iff_lt_or_eq.mp hj with hj | rfl
      · rcases ih hj with ⟨k, hk, hserved⟩ | hmem | hnewer
        · exact .inl ⟨k, by omega, hserved⟩
        · cases hop : ops[i]? with
          | none =>
              right
              left
              rw [waiting_of_none hop]
              apply hmem
          | some op =>
              obtain ⟨m, hm⟩ := List.mem_iff_getElem?.mp hmem
              have hbehind := (holds_waiting n ops i).behind m _ hm
              rw [newer_succ hop hj, waiting_succ hop]
              cases op with
              | push b =>
                  right
                  rw [Op.map, step, boundedPush, List.mem_append]
                  split
                  · rename_i hfull
                    cases m with
                    | zero =>
                        right
                        rw [Op.isPush, if_pos rfl]
                        dsimp only at hbehind
                        omega
                    | succ m =>
                        left
                        left
                        rw [← List.getElem?_tail] at hm
                        apply List.mem_of_getElem? hm
                  · exact .inl (.inl hmem)
              | skip =>
                  right
                  left
                  apply hmem
              | pop =>
                  cases m with
                  | zero =>
                      left
                      use i, Nat.lt_succ_self i
                      rw [served, popped_numbered hop, List.head?_eq_getElem?, hm]
                      rfl
                  | succ m =>
                      right
                      left
                      rw [← List.getElem?_tail] at hm
                      apply List.mem_of_getElem? hm
        · right
          right
          cases hop : ops[i]? with
          | none =>
              rw [newer_succ_of_none hop]
              apply hnewer
          | some op =>
              rw [newer_succ hop hj]
              apply hnewer.trans (Nat.le_add_right ..)
      · right
        left
        rw [waiting_succ hpush]
        apply List.mem_append_right
        apply List.mem_singleton_self

/-- A queue of bounded length serves its elements in order. -/
theorem inOrder (n : ℕ) (ops : List (Op α)) :
  InOrder n ops (served n ops)
  := by
  constructor
  case pushed =>
    intro i j hserved
    obtain ⟨-, a, hhead⟩ := served_eq_some hserved
    have hpushed := (holds_waiting n ops i).pushed _ (List.mem_of_mem_head? hhead)
    exact ⟨hpushed.1, a, hpushed.2⟩
  case increasing =>
    intro i i' j j' hlt hserved hserved'
    obtain ⟨-, a, hhead⟩ := served_eq_some hserved'
    apply served_lt hserved hlt (a, j') (List.mem_of_mem_head? hhead)
  case kept =>
    intro i j a hpop hpush hj
    rcases kept_waiting hpush hj with hserved | hmem | hnewer
    · exact .inl hserved
    · right
      left
      obtain ⟨x, queue, hqueue⟩ := List.exists_cons_of_ne_nil (List.ne_nil_of_mem hmem)
      have hsorted := (holds_waiting n ops i).sorted
      refine ⟨x.2, ?_, ?_⟩
      · rw [hqueue] at hmem hsorted
        rcases List.mem_cons.mp hmem with hmem | hmem
        · rw [← hmem]
        · apply ((List.pairwise_cons.mp hsorted).1 _ hmem).le
      · rw [served, popped_numbered hpop, hqueue]
        rfl
    · exact .inr (.inr hnewer)

/-- What the operation at a position returns is the element of the push that it serves. -/
theorem popped_eq_served (ops : List (Op α)) (i : ℕ) {a : α} :
  popped n ops i = some a
    ↔ ∃ j, served n ops i = some j ∧ ops[j]? = some (.push a)
  := by
  constructor
  · intro h
    obtain ⟨hpop, hhead⟩ := popped_eq_some h
    rw [← map_waiting, List.head?_map, Option.map_eq_some_iff] at hhead
    obtain ⟨⟨a', j⟩, hhead, rfl⟩ := hhead
    use j
    constructor
    · rw [served, popped_numbered hpop, hhead]
      rfl
    · apply ((holds_waiting n ops i).pushed _ (List.mem_of_mem_head? hhead)).2
  · rintro ⟨j, hserved, hpush⟩
    obtain ⟨hpop, a', hhead⟩ := served_eq_some hserved
    have hpush' := ((holds_waiting n ops i).pushed _ (List.mem_of_mem_head? hhead)).2
    rw [hpush, Option.some.injEq, Op.push.injEq] at hpush'
    rw [popped, hpop]
    dsimp only
    rw [← map_waiting, List.head?_map, hhead, hpush']
    rfl

end BoundedQueue
