import Mathlib.Algebra.BigOperators.Intervals
import Mathlib.Tactic.Common

/-!
# Forests in preorder

A forest is visited in preorder: a root, then its children, then the trees after it.  A visit
carries a value along, and `Each v Q b f` says that `Q` holds at every node of `f` with the value
that it is reached with.  The nodes are numbered in the order of the visit; from the numbers of
children alone, the parent of a node is the last one before it that has a child left.
-/

/-- A forest: a root with its children, and the trees after it. -/
inductive Forest (α : Type*) where
  | nil
  | cons (root : α) (children siblings : Forest α)

/-- What a visit carries from a root to its children, and on to the trees after it. -/
structure Visit (α β : Type*) where
  down : β → α → β
  on : β → α → Forest α → β

/-- The number of a node and of its parent. -/
structure Place where
  parent : ℕ
  number : ℕ

namespace Forest

variable {α β γ : Type*}

/-- The number of trees. -/
def count : Forest α → ℕ
  | nil => 0
  | cons _ _ siblings => siblings.count + 1

/-- The number of nodes. -/
def size : Forest α → ℕ
  | nil => 0
  | cons _ children siblings => children.size + siblings.size + 1

/-- A property holds at every node, with what the visit carries there. -/
def Each (v : Visit α β) (Q : β → α → Forest α → Prop) : β → Forest α → Prop
  | _, nil => True
  | b, cons root children siblings =>
      Q b root children ∧ Each v Q (v.down b root) children
        ∧ Each v Q (v.on b root children) siblings

/-- The nodes are numbered in the order of the visit. -/
def numbering : Visit α Place where
  down b _ := ⟨b.number, b.number + 1⟩
  on b _ children := ⟨b.parent, b.number + 1 + children.size⟩

section Each

variable {v : Visit α β} {P Q : β → α → Forest α → Prop} {b : β} {f : Forest α}

theorem Each.imp (h : f.Each v P b)
    (hPQ : ∀ b root children, P b root children → Q b root children) :
  f.Each v Q b
  := by
  induction f generalizing b with
  | nil => trivial
  | cons root children siblings ihc ihs =>
      obtain ⟨hroot, hchildren, hsiblings⟩ := h
      exact ⟨hPQ _ _ _ hroot, ihc hchildren, ihs hsiblings⟩

theorem Each.and (hP : f.Each v P b) (hQ : f.Each v Q b) :
  f.Each v (fun b root children => P b root children ∧ Q b root children) b
  := by
  induction f generalizing b with
  | nil => trivial
  | cons root children siblings ihc ihs =>
      obtain ⟨hProot, hPchildren, hPsiblings⟩ := hP
      obtain ⟨hQroot, hQchildren, hQsiblings⟩ := hQ
      exact ⟨⟨hProot, hQroot⟩, ihc hPchildren hQchildren, ihs hPsiblings hQsiblings⟩

/-- A visit that carries more says of each node what the visit that carries less does. -/
theorem each_map_iff {w : Visit α γ} {g : β → γ} {R : γ → α → Forest α → Prop}
    (down : ∀ b root, g (v.down b root) = w.down (g b) root)
    (on : ∀ b root children, g (v.on b root children) = w.on (g b) root children) :
  f.Each v (fun b => R (g b)) b ↔ f.Each w R (g b)
  := by
  induction f generalizing b with
  | nil => exact Iff.rfl
  | cons root children siblings ihc ihs => rw [Each, Each, ihc, ihs, down, on]

end Each

/-! ### Parents -/

/-- How many more children than nodes there are among the nodes from `j` on before `k`. -/
def openings (degree : ℕ → ℕ) (j k : ℕ) : ℤ :=
  ∑ i ∈ Finset.Ico j k, ((degree i : ℤ) - 1)

/-- The last node before `k` that has a child left. -/
structure LastOpen (degree : ℕ → ℕ) (k q : ℕ) : Prop where
  lt : q < k
  opens : 0 ≤ openings degree q k
  last : ∀ j, q < j → j < k → openings degree j k < 0

/-- The numbers of children are those of the forest. -/
def HasDegrees (degree : ℕ → ℕ) (b : Place) (f : Forest α) : Prop :=
  f.Each numbering (fun b _ children => degree b.number = children.count) b

variable {degree : ℕ → ℕ} {b : Place} {f : Forest α} {j k n : ℕ}

@[simp]
theorem openings_self :
  openings degree k k = 0
  := by
  rw [openings, Finset.Ico_self, Finset.sum_empty]

theorem openings_add (hjn : j ≤ n) (hnk : n ≤ k) :
  openings degree j n + openings degree n k = openings degree j k
  := Finset.sum_Ico_consecutive _ hjn hnk

theorem openings_succ_bot (h : j < k) :
  openings degree j k = (degree j : ℤ) - 1 + openings degree (j + 1) k
  := Finset.sum_eq_sum_Ico_succ_bot h _

theorem LastOpen.degree_pos {q : ℕ} (h : LastOpen degree k q) :
  0 < degree q
  := by
  have hopens := h.opens
  rw [openings_succ_bot h.lt] at hopens
  rcases Nat.eq_or_lt_of_le (Nat.succ_le_of_lt h.lt) with heq | hlt
  · rw [← heq, openings_self] at hopens
    omega
  · have := h.last (q + 1) (Nat.lt_succ_self q) hlt
    omega

/-- The nodes of a forest have the numbers from the first one on. -/
theorem each_number (b : Place) (f : Forest α) :
  f.Each numbering (fun p _ children => b.number ≤ p.number
    ∧ p.number + children.size < b.number + f.size) b
  := by
  induction f generalizing b with
  | nil => trivial
  | cons root children siblings ihc ihs =>
      refine ⟨⟨le_rfl, ?_⟩, ?_, ?_⟩
      · rw [size]
        omega
      · apply (ihc (numbering.down b root)).imp
        rintro p _ below ⟨hlow, hhigh⟩
        rw [size]
        simp only [numbering] at hlow hhigh
        omega
      · apply (ihs (numbering.on b root children)).imp
        rintro p _ below ⟨hlow, hhigh⟩
        rw [size]
        simp only [numbering] at hlow hhigh
        omega

/-- Every number from the first one on, as many as there are nodes, is that of a node. -/
theorem Each.exists_number {Q : Place → α → Forest α → Prop} (h : f.Each numbering Q b)
    (hn : b.number ≤ n) (hnf : n < b.number + f.size) :
  ∃ parent root children, Q ⟨parent, n⟩ root children
  := by
  induction f generalizing b with
  | nil =>
      rw [size] at hnf
      omega
  | cons root children siblings ihc ihs =>
      obtain ⟨hroot, hchildren, hsiblings⟩ := h
      rw [size] at hnf
      rcases Nat.eq_or_lt_of_le hn with rfl | hlt
      · exact ⟨b.parent, root, children, hroot⟩
      · rcases Nat.lt_or_ge n (b.number + 1 + children.size) with hc | hs
        · apply ihc hchildren hlt hc
        · apply ihs hsiblings hs
          simp only [numbering]
          omega

/-- The nodes of a forest are the children of its nodes, but for its roots. -/
theorem openings_size (h : HasDegrees degree b f) :
  openings degree b.number (b.number + f.size) = -(f.count : ℤ)
  := by
  induction f generalizing b with
  | nil =>
      rw [size, Nat.add_zero, openings_self, count]
      rfl
  | cons root children siblings ihc ihs =>
      obtain ⟨hroot, hchildren, hsiblings⟩ := h
      have hc := ihc hchildren
      have hs := ihs hsiblings
      simp only [numbering] at hc hs
      have hend : b.number + size (cons root children siblings)
          = b.number + 1 + children.size + siblings.size := by
        rw [size]
        omega
      rw [hend, openings_succ_bot (by omega), hroot,
        ← openings_add (n := b.number + 1 + children.size) (by omega) (by omega), hc, hs, count]
      omega

/-- Behind a node, the rest of a forest has fewer children than nodes. -/
theorem openings_neg (h : HasDegrees degree b f) (hj : b.number ≤ j)
    (hjf : j < b.number + f.size) :
  openings degree j (b.number + f.size) < 0
  := by
  induction f generalizing b with
  | nil =>
      rw [size] at hjf
      omega
  | cons root children siblings ihc ihs =>
      have hall := openings_size h
      obtain ⟨hroot, hchildren, hsiblings⟩ := h
      have hs := openings_size hsiblings
      simp only [numbering] at hs
      have hend : b.number + size (cons root children siblings)
          = b.number + 1 + children.size + siblings.size := by
        rw [size]
        omega
      rw [hend] at hjf hall ⊢
      rcases Nat.eq_or_lt_of_le hj with rfl | hj
      · rw [hall, count]
        omega
      · rcases Nat.lt_or_ge j (b.number + 1 + children.size) with hjc | hjs
        · have hc := ihc hchildren hj hjc
          simp only [numbering] at hc
          rw [← openings_add (n := b.number + 1 + children.size) (by omega) (by omega), hs]
          omega
        · apply ihs hsiblings hjs hjf

/-- A root of a forest: the nodes before it have no child left, but some root is left. -/
structure IsRoot (degree : ℕ → ℕ) (first count k : ℕ) : Prop where
  left : -(count : ℤ) < openings degree first k
  closed : ∀ j, first ≤ j → j < k → openings degree j k < 0

/-- Each node is a root of the forest, or its parent is the last node before it with a child
left. -/
theorem parent_of_degrees (h : HasDegrees degree b f) (hb : b.parent < b.number) :
  f.Each numbering (fun p _ _ => (p.parent = b.parent ∧ IsRoot degree b.number f.count p.number)
    ∨ b.number ≤ p.parent ∧ LastOpen degree p.number p.parent) b
  := by
  induction f generalizing b with
  | nil => trivial
  | cons root children siblings ihc ihs =>
      obtain ⟨hroot, hchildren, hsiblings⟩ := h
      refine ⟨?_, ?_, ?_⟩
      · left
        refine ⟨rfl, ?_, ?_⟩
        · rw [openings_self, count]
          omega
        · intro j hj hjn
          omega
      · apply ((ihc hchildren (Nat.lt_succ_self _)).and (each_number _ _)).imp
        rintro p _ _ ⟨⟨hp, hleft, hclosed⟩ | ⟨hp, hlast⟩, hlow, -⟩
        · right
          simp only [numbering] at hp hleft hclosed hlow
          -- the root has a child left for each root of `children` not yet visited
          refine ⟨hp.ge, ?_, ?_, ?_⟩
          · omega
          · rw [hp, openings_succ_bot (by omega), hroot]
            omega
          · intro j hpj hjp
            apply hclosed j _ hjp
            omega
        · right
          simp only [numbering] at hp
          exact ⟨by omega, hlast⟩
      · apply ((ihs hsiblings (by simp only [numbering]; omega)).and (each_number _ _)).imp
        rintro p _ _ ⟨⟨hp, hleft, hclosed⟩ | ⟨hp, hlast⟩, hlow, -⟩
        · left
          simp only [numbering] at hp hleft hclosed hlow
          -- the first tree, all of which lies behind
          have htree : HasDegrees degree b (cons root children nil) :=
            ⟨hroot, hchildren, trivial⟩
          have hsize : size (cons root children nil) = children.size + 1 := rfl
          have hwhole := openings_size htree
          rw [hsize, Nat.add_comm children.size, ← Nat.add_assoc] at hwhole
          simp only [count] at hwhole
          refine ⟨hp, ?_, ?_⟩
          · rw [← openings_add (n := b.number + 1 + children.size) (by omega) hlow, hwhole, count]
            omega
          · intro j hj hjp
            rcases Nat.lt_or_ge j (b.number + 1 + children.size) with hjt | hjs
            · have htail := openings_neg htree hj (by rw [hsize]; omega)
              rw [hsize, Nat.add_comm children.size, ← Nat.add_assoc] at htail
              rw [← openings_add (n := b.number + 1 + children.size) (by omega) hlow]
              rcases Nat.eq_or_lt_of_le hlow with heq | hlt
              · rw [← heq, openings_self]
                omega
              · have := hclosed _ le_rfl hlt
                omega
            · apply hclosed j hjs hjp
        · right
          simp only [numbering] at hp
          exact ⟨by omega, hlast⟩

end Forest
