import Mathlib.Algebra.BigOperators.Group.List.Basic
import Mathlib.Algebra.Ring.Nat
import Mathlib.Control.Monad.Basic

/-!
# Total correctness of stateful programs

A program with a state that may fail to return.  `Yields P prog Q` says that from each state in
which `P` holds it returns, and that `Q` holds for the result and the state then; the rules follow
the steps of a program.
-/

/-- From a state with `P`, a program returns with `Q`. -/
def Yields {σ α : Type} (P : σ → Prop) (prog : StateT σ Option α) (Q : α → σ → Prop) : Prop :=
  ∀ s, P s → ∃ a s', prog s = some (a, s') ∧ Q a s'

/-- The result is some value, and the state has some property. -/
def Exactly {σ α : Type} (a : α) (Q : σ → Prop) (r : α) (s : σ) : Prop :=
  r = a ∧ Q s

namespace Yields

variable {σ α β ι : Type} {P : σ → Prop} {prog : StateT σ Option α} {a : α}

theorem pure {Q : α → σ → Prop} (h : ∀ s, P s → Q a s) :
  Yields P (Pure.pure a) Q
  := fun s hs => ⟨a, s, rfl, h s hs⟩

theorem pure_exactly (a : α) :
  Yields P (Pure.pure a) (Exactly a P)
  := pure fun _ h => ⟨rfl, h⟩

/-- The rule of consequence. -/
theorem imp {P' : σ → Prop} {Q Q' : α → σ → Prop} (h : Yields P prog Q) (hP : ∀ s, P' s → P s)
    (hQ : ∀ a s, Q a s → Q' a s) :
  Yields P' prog Q'
  := by
  intro s hs
  obtain ⟨a, t, ht, hQt⟩ := h s (hP s hs)
  exact ⟨a, t, ht, hQ a t hQt⟩

theorem bind {Q : α → σ → Prop} {R : β → σ → Prop} {next : α → StateT σ Option β}
    (h : Yields P prog Q) (h' : ∀ a, Yields (Q a) (next a) R) :
  Yields P (prog >>= next) R
  := by
  intro s hs
  obtain ⟨a, t, ht, hQ⟩ := h s hs
  obtain ⟨b, u, hu, hR⟩ := h' a t hQ
  refine ⟨b, u, ?_, hR⟩
  change (prog s).bind _ = _
  rw [ht]
  exact hu

/-- The rest of a program goes on with the value that the first part returns. -/
theorem bind_exactly {Q : σ → Prop} {R : β → σ → Prop} {next : α → StateT σ Option β}
    (h : Yields P prog (Exactly a Q)) (h' : Yields Q (next a) R) :
  Yields P (prog >>= next) R
  := by
  apply h.bind
  rintro r s ⟨rfl, hs⟩
  exact h' s hs

/-- A loop whose rounds add to a number yields the sum. -/
theorem foldlM_sum {body : ℕ → ι → StateT σ Option ℕ} {g : ι → ℕ} {l : List ι} {n : ℕ}
    (hbody : ∀ i ∈ l, ∀ n, Yields P (body n i) (Exactly (n + g i) P)) :
  Yields P (l.foldlM body n) (Exactly (n + (l.map g).sum) P)
  := by
  induction l generalizing n with
  | nil => exact pure_exactly n
  | cons i l ih =>
      rw [List.foldlM_cons, List.map_cons, List.sum_cons, ← Nat.add_assoc]
      apply (hbody i List.mem_cons_self n).bind_exactly
      apply ih
      intro j hj
      apply hbody j (List.mem_cons_of_mem i hj)

/-- A loop over numbers keeps an invariant that speaks of the number. -/
theorem foldlM_range' {I : ℕ → β → σ → Prop} {body : β → ℕ → StateT σ Option β} (n : ℕ) {k : ℕ}
    {b : β} (hbody : ∀ i b, k ≤ i → i < k + n → Yields (I i b) (body b i) (I (i + 1))) :
  Yields (I k b) ((List.range' k n).foldlM body b) (I (k + n))
  := by
  induction n generalizing k b with
  | zero => exact pure fun _ h => h
  | succ n ih =>
      rw [List.range'_succ, List.foldlM_cons, show k + (n + 1) = k + 1 + n by omega]
      apply (hbody k b (Nat.le_refl k) (by omega)).bind
      intro b'
      apply ih
      intro i b'' hi hlt
      apply hbody i b'' (by omega) (by omega)

/-- A loop over numbers runs through the values that its rounds yield. -/
theorem foldlM_range'_exactly {acc : ℕ → β} {body : β → ℕ → StateT σ Option β} (n : ℕ) {k : ℕ}
    (hbody : ∀ i, k ≤ i → i < k + n → Yields P (body (acc i) i) (Exactly (acc (i + 1)) P)) :
  Yields P ((List.range' k n).foldlM body (acc k)) (Exactly (acc (k + n)) P)
  := by
  have hround : ∀ i b, k ≤ i → i < k + n →
      Yields (Exactly (acc i) P b) (body b i) (Exactly (acc (i + 1)) P) := by
    rintro i b hi hlt s ⟨rfl, hs⟩
    exact hbody i hi hlt s hs
  exact fun s hs => foldlM_range' n hround s ⟨rfl, hs⟩

end Yields
