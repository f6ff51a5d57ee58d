import Mathlib.Data.List.Induction

/-!
# Machines and their runs

A machine has an initial state and a step for each event.  `M.run es` is the state after the
events `es`, and `M.before es i` the state in which the event at position `i` happens.
-/

/-- A machine with states `σ` and events `ε`. -/
structure Machine (σ ε : Type*) where
  init : σ
  step : σ → ε → σ

namespace Machine

variable {σ ε : Type*} (M : Machine σ ε)

/-- The state after a list of events. -/
def run (es : List ε) : σ :=
  es.foldl M.step M.init

/-- The state in which the event at position `i` of a list happens. -/
def before (es : List ε) (i : ℕ) : σ :=
  M.run (es.take i)

theorem run_append (es es' : List ε) :
  M.run (es ++ es') = es'.foldl M.step (M.run es)
  := List.foldl_append

theorem run_append_singleton (es : List ε) (e : ε) :
  M.run (es ++ [e]) = M.step (M.run es) e
  := by
  rw [run_append]
  rfl

theorem before_succ {es : List ε} {i : ℕ} {e : ε} (h : es[i]? = some e) :
  M.before es (i + 1) = M.step (M.before es i) e
  := by
  rw [before, List.take_add_one, h]
  apply run_append_singleton

theorem before_succ_of_none {es : List ε} {i : ℕ} (h : es[i]? = none) :
  M.before es (i + 1) = M.before es i
  := by
  rw [before, List.take_add_one, h, Option.toList_none, List.append_nil]
  rfl

/-- A map of the states and of the events that respects the initial states and the steps of two
machines respects their runs. -/
theorem map_before {σ' ε' : Type*} (M' : Machine σ' ε') {f : σ → σ'} {g : ε → ε'}
    (init : f M.init = M'.init) (step : ∀ s e, f (M.step s e) = M'.step (f s) (g e))
    (es : List ε) (i : ℕ) :
  f (M.before es i) = M'.before (es.map g) i
  := by
  induction i with
  | zero => apply init
  | succ i ih =>
      have hmap := List.getElem?_map (f := g) (l := es) (i := i)
      cases he : es[i]? with
      | none =>
          rw [he] at hmap
          rw [before_succ_of_none M he, before_succ_of_none M' hmap, ih]
      | some e =>
          rw [he] at hmap
          rw [before_succ M he, before_succ M' hmap, step, ih]

/-- A property of the initial state that every step preserves holds after every run. -/
theorem invariant {P : σ → Prop} (init : P M.init)
    (step : ∀ s e, P s → P (M.step s e)) (es : List ε) :
  P (M.run es)
  := by
  induction es using List.reverseRecOn with
  | nil => apply init
  | append_singleton es e ih =>
      rw [run_append_singleton]
      apply step _ _ ih

/-- A property of the initial state that is preserved by the steps of a run that meet a condition
holds in every state of a run whose steps all meet it. -/
theorem invariant_of {P : σ → Prop} {C : σ → ε → Prop} (init : P M.init)
    (step : ∀ s e, C s e → P s → P (M.step s e)) {es : List ε}
    (h : ∀ i e, es[i]? = some e → C (M.before es i) e) (i : ℕ) :
  P (M.before es i)
  := by
  induction i with
  | zero => apply init
  | succ i ih =>
      cases he : es[i]? with
      | none =>
          rw [before_succ_of_none M he]
          apply ih
      | some e =>
          rw [before_succ M he]
          apply step _ _ (h i e he) ih

/-- An invariant holds in every state of a run. -/
theorem invariant_before {P : σ → Prop} (init : P M.init)
    (step : ∀ s e, P s → P (M.step s e)) (es : List ε) (i : ℕ) :
  P (M.before es i)
  := M.invariant init step _

end Machine
