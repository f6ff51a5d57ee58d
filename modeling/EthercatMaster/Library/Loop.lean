import Mathlib.Tactic.Common

/-!
# Loops

A loop repeats its body as long as a condition holds.  It is computed with fuel; a loop that keeps
an invariant and lowers a variant ends, with fuel above the variant.
-/

/-- `while more s do s := body s`, for at most as many rounds as there is fuel. -/
def loop {σ : Type*} (more : σ → Bool) (body : σ → σ) : ℕ → σ → Option σ
  | 0, s => if more s then none else some s
  | fuel + 1, s => if more s then loop more body fuel (body s) else some s

namespace Loop

variable {σ : Type*} {more : σ → Bool} {body : σ → σ} {s t : σ} {fuel : ℕ}

theorem loop_of_not (h : more s = false) :
  loop more body fuel s = some s
  := by
  cases fuel with
  | zero => rw [loop, h, if_neg Bool.false_ne_true]
  | succ fuel => rw [loop, h, if_neg Bool.false_ne_true]

theorem loop_of_more (h : more s = true) :
  loop more body (fuel + 1) s = loop more body fuel (body s)
  := by
  rw [loop, if_pos h]

/-- A loop ends in a state in which its invariant holds, if its body lowers the variant. -/
theorem ends (I : σ → Prop) (variant : σ → ℕ)
    (hbody : ∀ s, I s → more s = true → I (body s) ∧ variant (body s) < variant s)
    (hs : I s) (hfuel : variant s ≤ fuel) :
  ∃ t, loop more body fuel s = some t ∧ I t ∧ more t = false
  := by
  induction fuel generalizing s with
  | zero =>
      cases hmore : more s with
      | false => exact ⟨s, loop_of_not hmore, hs, hmore⟩
      | true =>
          have := (hbody s hs hmore).2
          omega
  | succ fuel ih =>
      cases hmore : more s with
      | false => exact ⟨s, loop_of_not hmore, hs, hmore⟩
      | true =>
          obtain ⟨hnext, hless⟩ := hbody s hs hmore
          rw [loop_of_more hmore]
          apply ih hnext
          omega

end Loop
