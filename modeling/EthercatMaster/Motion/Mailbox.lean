import EthercatMaster.Motion.Reachable

/-!
# The request slot as a mailbox

The application tasks hand their requests to the PDO task through one slot.  A run is a list of
events.  A request is accepted at a position of the run if the event there fills the slot with
it and reports success, and it is applied at a position if the call of the scheduler there takes
it out of the slot.
-/

namespace EthercatMaster

variable {F : Type}

/-- A critical section that fills the slot leaves a request in it, and only an abort is accepted
while there is one already. -/
theorem CriticalStep.request_pending {s s' : Motion F} (h : CriticalStep s true .ok s') :
  s'.request.pending = true ∧ (s.request.pending = true → s'.request.action = .actionAbort)
  := by
  cases h with
  | rejected failed => contradiction
  | start request action empty free =>
      refine ⟨rfl, ?_⟩
      rw [empty]
      rintro ⟨⟩
  | pause empty _ _ =>
      refine ⟨rfl, ?_⟩
      rw [empty]
      rintro ⟨⟩
  | «continue» empty _ _ =>
      refine ⟨rfl, ?_⟩
      rw [empty]
      rintro ⟨⟩
  | abort _ => exact ⟨rfl, fun _ => rfl⟩

/-- Otherwise a critical section leaves the slot as it is. -/
theorem CriticalStep.request_eq {s s' : Motion F} {fills : Bool} {result : MotionResult}
    (h : CriticalStep s fills result s') (hfills : ¬ (fills = true ∧ result = .ok)) :
  s'.request = s.request
  := by
  cases h with
  | rejected _ => rfl
  | settings _ _ _ request => apply request
  | _ => exact absurd ⟨rfl, rfl⟩ hfills

/-- The first call of the scheduler does not touch the slot. -/
theorem motionAlign_request (input : PdoInput) (s : Motion F) :
  (motionAlign input s).request = s.request
  := by
  rw [motionAlign]
  split
  · rfl
  · rfl

namespace System

variable [FloatArith F] [PositiveRoots F]

/-- The event is a call of the public interface that returns `ETHERCAT_MOTION_OK` and leaves the
request in the slot. -/
def Accepts (x : System F) (e : Event F) (request : MotionRequest F) : Prop :=
  e.fills = true ∧ ∃ s, x.critical e = some (.ok, s) ∧ s.request = request

/-- The event is a call of the scheduler that finds the process data bound and the servo
Operation Enabled and in the mode CSP. -/
def Ready {F : Type} (x : System F) (e : Event F) (input : PdoInput) : Prop :=
  e = .process ∧ x.area.input1s = some input ∧ x.area.output1s.isSome = true
    ∧ input.servoReady = true

/-- The event is a ready call of the scheduler that takes the request out of the slot and
applies it in the state `s`. -/
def Applies {F : Type} (x : System F) (e : Event F) (request : MotionRequest F) (s : Motion F) :
    Prop :=
  ∃ input, x.Ready e input
    ∧ motionRequestFetch (motionAlign input x.motion) = (some request, s)

/-! ### One step -/

/-- A ready call updates the motion. -/
theorem Ready.motion {x : System F} {e : Event F} {input : PdoInput} (h : x.Ready e input) :
  (x.step e).motion = motionUpdate input x.motion
  := by
  obtain ⟨rfl, hinput, houtput, -⟩ := h
  rcases x.step_process_cases with ⟨hnone, -⟩ | ⟨input', output, hinput', -, hmotion, -⟩
  · rcases hnone with hnone | hnone
    · rw [hnone] at hinput
      cases hinput
    · rw [hnone] at houtput
      cases houtput
  · rw [hinput] at hinput'
    cases hinput'
    apply hmotion

/-- The request a ready call applies is served by the scheduler, with the process data of that
call. -/
theorem Applies.motion {x : System F} {e : Event F} {request : MotionRequest F} {s : Motion F}
    (h : x.Applies e request s) :
  ∃ input, x.Ready e input
    ∧ (x.step e).motion = motionAdvance input (motionRequestApply input request s)
  := by
  obtain ⟨input, hready, hfetch⟩ := h
  use input, hready
  rw [hready.motion, motionUpdate, if_pos hready.2.2.2, motionServe, hfetch]

/-- A ready call with a request in the slot applies that request, with the flags of the control
state as they are. -/
theorem Ready.applies {F : Type} {x : System F} {e : Event F} {input : PdoInput}
    (h : x.Ready e input) (hpending : x.motion.request.pending = true) :
  x.Applies e x.motion.request (motionAlign input x.motion).fetched
  := by
  refine ⟨input, h, ?_⟩
  rw [motionRequestFetch, motionAlign_request, if_pos hpending, Motion.fetched,
    motionAlign_request]

theorem Applies.request {F : Type} {x : System F} {e : Event F} {request : MotionRequest F}
    {s : Motion F} (h : x.Applies e request s) :
  x.motion.request.pending = true ∧ request = x.motion.request
  := by
  obtain ⟨input, -, hfetch⟩ := h
  rw [motionRequestFetch, motionAlign_request] at hfetch
  split at hfetch
  · rename_i hpending
    cases hfetch
    exact ⟨hpending, rfl⟩
  · cases hfetch

/-- The state a request is applied in has the flags of the state before the call. -/
theorem Applies.flags {F : Type} {x : System F} {e : Event F} {request : MotionRequest F}
    {s : Motion F} (h : x.Applies e request s) :
  s.control.busy = x.motion.control.busy ∧ s.control.paused = x.motion.control.paused
  := by
  obtain ⟨input, -, hfetch⟩ := h
  rw [motionRequestFetch] at hfetch
  split at hfetch
  · cases hfetch
    rw [motionAlign]
    split
    · exact ⟨rfl, rfl⟩
    · exact ⟨rfl, rfl⟩
  · cases hfetch

/-- What a step does to the slot: a request is accepted, or a ready call empties the slot, or
the slot stays as it is. -/
theorem Valid.slot_step {x : System F} (h : x.Valid) (e : Event F) :
  (x.Accepts e (x.step e).motion.request ∧ (x.step e).motion.request.pending = true
      ∧ (x.motion.request.pending = true → (x.step e).motion.request.action = .actionAbort))
    ∨ ((∃ input, x.Ready e input) ∧ (x.step e).motion.request.pending = false)
    ∨ ((∀ request, ¬ x.Accepts e request) ∧ (∀ input, ¬ x.Ready e input)
      ∧ (x.step e).motion.request = x.motion.request)
  := by
  by_cases he : e = .process
  · subst he
    right
    by_cases hready : ∃ input, x.Ready .process input
    · left
      refine ⟨hready, ?_⟩
      obtain ⟨input, hinput⟩ := hready
      rw [hinput.motion]
      apply h.consistent.pending_update h.slot hinput.2.2.2
    · right
      refine ⟨?_, not_exists.mp hready, ?_⟩
      · rintro request ⟨⟨⟩, -⟩
      · rcases x.step_process_cases with ⟨-, heq⟩ | ⟨input, output, hinput, houtput, hmotion, -⟩
        · rw [heq]
        · have hnot : ¬ input.servoReady = true := by
            intro hservo
            apply hready
            exact ⟨input, rfl, hinput, by rw [houtput]; rfl, hservo⟩
          rw [hmotion, motionUpdate, if_neg hnot, motionAlign_request]
  · have hnot : ∀ input, ¬ x.Ready e input := fun input hready => he hready.1
    rcases h.critical_or he with ⟨result, hcritical, hstep⟩ | ⟨hnone, hmotion⟩
    · by_cases hfills : e.fills = true ∧ result = .ok
      · obtain ⟨hfills, rfl⟩ := hfills
        left
        rw [hfills] at hstep
        obtain ⟨hpending, habort⟩ := hstep.request_pending
        exact ⟨⟨hfills, _, hcritical, rfl⟩, hpending, habort⟩
      · right
        right
        refine ⟨?_, hnot, ?_⟩
        · rintro request ⟨hf, s, hs, -⟩
          apply hfills
          rw [hcritical] at hs
          cases hs
          exact ⟨hf, rfl⟩
        · apply hstep.request_eq hfills
    · right
      right
      refine ⟨?_, hnot, ?_⟩
      · rintro request ⟨-, s, hs, -⟩
        rw [hnone] at hs
        cases hs
      · rw [hmotion]

/-- An accepted request is in the slot after the step. -/
theorem Accepts.request {x : System F} {e : Event F} {request : MotionRequest F}
    (h : x.Accepts e request) :
  (x.step e).motion.request = request
  := by
  obtain ⟨hfills, s, hcritical, rfl⟩ := h
  have he : e ≠ .process := by
    rintro rfl
    cases hfills
  rw [x.step_motion he, hcritical]
  rfl

omit [PositiveRoots F] in
/-- A ready call does not accept. -/
theorem Accepts.not_ready {x : System F} {e : Event F} {request : MotionRequest F}
    (h : x.Accepts e request) (input : PdoInput) :
  ¬ x.Ready e input
  := by
  rintro ⟨rfl, -⟩
  cases h.1

/-! ### Runs -/

/-- A request is accepted at position `i` of a run. -/
def AcceptsAt (es : List (Event F)) (i : ℕ) (request : MotionRequest F) : Prop :=
  ∃ e, es[i]? = some e ∧ (machine.before es i).Accepts e request

/-- An abort is accepted between two positions of a run. -/
def AbortBetween (es : List (Event F)) (i j : ℕ) : Prop :=
  ∃ k request, i < k ∧ k < j ∧ AcceptsAt es k request ∧ request.action = .actionAbort

/-- There is a ready call of the scheduler at position `j` of a run. -/
def ReadyAt (es : List (Event F)) (j : ℕ) : Prop :=
  ∃ e input, es[j]? = some e ∧ (machine.before es j).Ready e input

/-- The ready call at position `j` of a run applies a request in the state `s`. -/
def AppliesAt (es : List (Event F)) (j : ℕ) (request : MotionRequest F) (s : Motion F) : Prop :=
  ∃ e, es[j]? = some e ∧ (machine.before es j).Applies e request s

/-- The first ready call after position `i` is at position `j`. -/
def FirstReadyAfter (es : List (Event F)) (i j : ℕ) : Prop :=
  i < j ∧ ReadyAt es j ∧ ∀ k, i < k → k < j → ¬ ReadyAt es k

/-- The call at position `j` applies the request accepted at position `i`: what it applies is
what the last acceptance before it left in the slot. -/
def Delivers (es : List (Event F)) (i j : ℕ) : Prop :=
  i < j ∧ (∃ request s, AcceptsAt es i request ∧ AppliesAt es j request s)
    ∧ ∀ k, i < k → k < j → ∀ request, ¬ AcceptsAt es k request

/-- The slot in the state before position `k` of a run. -/
def slotBefore (es : List (Event F)) (k : ℕ) : MotionRequest F :=
  (machine.before es k : System F).motion.request

/-- What a position of a run does to the slot. -/
theorem slotBefore_succ (es : List (Event F)) (k : ℕ) :
  (AcceptsAt es k (slotBefore es (k + 1)) ∧ (slotBefore es (k + 1)).pending = true
      ∧ ((slotBefore es k).pending = true → (slotBefore es (k + 1)).action = .actionAbort))
    ∨ (ReadyAt es k ∧ (slotBefore es (k + 1)).pending = false)
    ∨ ((∀ request, ¬ AcceptsAt es k request) ∧ ¬ ReadyAt es k
      ∧ slotBefore es (k + 1) = slotBefore es k)
  := by
  cases he : es[k]? with
  | none =>
      right
      right
      refine ⟨?_, ?_, ?_⟩
      · rintro request ⟨e, he', -⟩
        rw [he] at he'
        cases he'
      · rintro ⟨e, input, he', -⟩
        rw [he] at he'
        cases he'
      · rw [slotBefore, machine.before_succ_of_none he]
        rfl
  | some e =>
      rw [slotBefore, machine.before_succ he]
      rcases (valid_before es k).slot_step e with
        ⟨haccepts, hpending, habort⟩ | ⟨⟨input, hready⟩, hempty⟩ | ⟨haccepts, hready, heq⟩
      · exact Or.inl ⟨⟨e, he, haccepts⟩, hpending, habort⟩
      · exact Or.inr (Or.inl ⟨⟨e, input, he, hready⟩, hempty⟩)
      · right
        right
        refine ⟨?_, ?_, heq⟩
        · rintro request ⟨e', he', h⟩
          rw [he] at he'
          cases he'
          apply haccepts request h
        · rintro ⟨e', input, he', h⟩
          rw [he] at he'
          cases he'
          apply hready input h

/-- An accepted request is in the slot. -/
theorem AcceptsAt.slot {es : List (Event F)} {i : ℕ} {request : MotionRequest F}
    (h : AcceptsAt es i request) :
  slotBefore es (i + 1) = request ∧ request.pending = true
  := by
  have hslot : slotBefore es (i + 1) = request := by
    obtain ⟨e, he, haccepts⟩ := h
    rw [slotBefore, machine.before_succ he]
    apply haccepts.request
  refine ⟨hslot, ?_⟩
  rcases slotBefore_succ es i with ⟨-, hpending, -⟩ | ⟨hready, -⟩ | ⟨hnot, -, -⟩
  · rw [← hslot]
    apply hpending
  · obtain ⟨e, he, haccepts⟩ := h
    obtain ⟨e', input, he', hready⟩ := hready
    rw [he] at he'
    cases he'
    exact absurd hready (haccepts.not_ready input)
  · exact absurd h (hnot request)

/-- Until the next ready call, the slot holds the accepted request, or an abort that has been
accepted since. -/
theorem AcceptsAt.slotBefore {es : List (Event F)} {i : ℕ} {request : MotionRequest F}
    (h : AcceptsAt es i request) {k : ℕ} (hk : i < k)
    (hready : ∀ j, i < j → j < k → ¬ ReadyAt es j) :
  (slotBefore es k).pending = true
    ∧ (¬ AbortBetween es i k → slotBefore es k = request)
    ∧ (AbortBetween es i k → (slotBefore es k).action = .actionAbort)
  := by
  induction k with
  | zero => omega
  | succ k ih =>
      by_cases hik : i = k
      · subst hik
        obtain ⟨hslot, hpending⟩ := h.slot
        rw [hslot]
        refine ⟨hpending, fun _ => rfl, ?_⟩
        rintro ⟨j, _, hij, hji, -⟩
        omega
      · have hlt : i < k := by omega
        obtain ⟨hpending, hsame, habort⟩ := ih hlt fun j hij hjk => hready j hij (by omega)
        rcases slotBefore_succ es k with ⟨haccepts, hpending', haction⟩ | ⟨hr, -⟩ | ⟨hnot, -, heq⟩
        · -- only an abort is accepted while the slot is full
          have hbetween : AbortBetween es i (k + 1) :=
            ⟨k, _, hlt, by omega, haccepts, haction hpending⟩
          exact ⟨hpending', fun hno => absurd hbetween hno, fun _ => haction hpending⟩
        · exact absurd hr (hready k hlt (by omega))
        · have hiff : AbortBetween es i (k + 1) ↔ AbortBetween es i k := by
            constructor
            · rintro ⟨j, r, hij, hjk, haccepts, haction⟩
              have hne : j ≠ k := by
                rintro rfl
                exact hnot r haccepts
              exact ⟨j, r, hij, by omega, haccepts, haction⟩
            · rintro ⟨j, r, hij, hjk, haccepts⟩
              exact ⟨j, r, hij, by omega, haccepts⟩
          rw [heq, hiff]
          exact ⟨hpending, hsame, habort⟩

/-- A request in the slot was left there by the last acceptance, with no ready call since. -/
theorem exists_acceptsAt {es : List (Event F)} {k : ℕ}
    (h : (slotBefore es k).pending = true) :
  ∃ i, i < k ∧ AcceptsAt es i (slotBefore es k)
    ∧ (∀ j, i < j → j < k → ∀ request, ¬ AcceptsAt es j request)
    ∧ ∀ j, i < j → j < k → ¬ ReadyAt es j
  := by
  induction k with
  | zero => cases h
  | succ k ih =>
      rcases slotBefore_succ es k with ⟨haccepts, -, -⟩ | ⟨-, hempty⟩ | ⟨hnot, hready, heq⟩
      · refine ⟨k, by omega, haccepts, ?_, ?_⟩
        · intro j
          omega
        · intro j
          omega
      · rw [h] at hempty
        cases hempty
      · rw [heq] at h ⊢
        obtain ⟨i, hik, haccepts, hlast, hidle⟩ := ih h
        refine ⟨i, by omega, haccepts, ?_, ?_⟩
        · intro j hij hjk
          rcases Nat.lt_succ_iff_lt_or_eq.mp hjk with hjk | rfl
          · apply hlast j hij hjk
          · apply hnot
        · intro j hij hjk
          rcases Nat.lt_succ_iff_lt_or_eq.mp hjk with hjk | rfl
          · apply hidle j hij hjk
          · apply hready

theorem AppliesAt.readyAt {es : List (Event F)} {j : ℕ} {request : MotionRequest F}
    {s : Motion F} (h : AppliesAt es j request s) :
  ReadyAt es j
  := by
  obtain ⟨e, he, input, hready, -⟩ := h
  exact ⟨e, input, he, hready⟩

theorem AppliesAt.slot {es : List (Event F)} {j : ℕ} {request : MotionRequest F}
    {s : Motion F} (h : AppliesAt es j request s) :
  (slotBefore es j).pending = true ∧ request = slotBefore es j
  := by
  obtain ⟨e, -, happlies⟩ := h
  apply happlies.request

/-- A ready call applies what is in the slot. -/
theorem ReadyAt.appliesAt {es : List (Event F)} {j : ℕ} (h : ReadyAt es j)
    (hpending : (slotBefore es j).pending = true) :
  ∃ s, AppliesAt es j (slotBefore es j) s
  := by
  obtain ⟨e, input, he, hready⟩ := h
  exact ⟨_, e, he, hready.applies hpending⟩

/-- Between the acceptance of a request and the call that applies it, there is no ready call. -/
theorem Delivers.firstReadyAfter {es : List (Event F)} {i j : ℕ} (h : Delivers es i j) :
  FirstReadyAfter es i j
  := by
  obtain ⟨hij, ⟨request, s, haccepts, happlies⟩, hlast⟩ := h
  refine ⟨hij, happlies.readyAt, ?_⟩
  obtain ⟨i', hi'j, haccepts', hlast', hidle⟩ := exists_acceptsAt happlies.slot.1
  have heq : i' = i := by
    rcases Nat.lt_trichotomy i' i with hlt | heq | hlt
    · exact absurd haccepts (hlast' i hlt hij request)
    · apply heq
    · exact absurd haccepts' (hlast i' hlt hi'j _)
  rw [← heq]
  apply hidle

theorem FirstReadyAfter.unique {es : List (Event F)} {i j j' : ℕ}
    (h : FirstReadyAfter es i j) (h' : FirstReadyAfter es i j') :
  j' = j
  := by
  rcases Nat.lt_trichotomy j' j with hlt | heq | hlt
  · exact absurd h'.2.1 (h.2.2 j' h'.1 hlt)
  · apply heq
  · exact absurd h.2.1 (h'.2.2 j h.1 hlt)

/-- An accepted request that no abort has replaced is delivered to the first ready call. -/
theorem AcceptsAt.delivers {es : List (Event F)} {i j : ℕ} {request : MotionRequest F}
    (h : AcceptsAt es i request) (hj : FirstReadyAfter es i j) (hno : ¬ AbortBetween es i j) :
  Delivers es i j
  := by
  obtain ⟨hij, hready, hfirst⟩ := hj
  obtain ⟨hpending, hsame, -⟩ := h.slotBefore hij hfirst
  obtain ⟨s, happlies⟩ := hready.appliesAt hpending
  rw [hsame hno] at happlies
  refine ⟨hij, ⟨request, s, h, happlies⟩, ?_⟩
  intro k hik hkj r haccepts
  -- what is accepted while the slot is full is an abort
  have hfull := (h.slotBefore hik fun j' h1 h2 => hfirst j' h1 (by omega)).1
  apply hno
  refine ⟨k, r, hik, hkj, haccepts, ?_⟩
  rw [← haccepts.slot.1]
  rcases slotBefore_succ es k with ⟨-, -, haction⟩ | ⟨hr, -⟩ | ⟨hnot, -, -⟩
  · apply haction hfull
  · exact absurd hr (hfirst k hik hkj)
  · exact absurd haccepts (hnot r)

/-- The slot as a mailbox, in every run.

An accepted request that is not replaced by an abort is applied by the first ready call after
it and by no other call.  An abort accepted before that call replaces it: no call applies it,
and that call applies an abort.  While a request waits for a ready call, nothing but an abort is
accepted, and the slot does not change otherwise.  What a call applies is carried out in a state
in which a pause finds a busy motion that is not paused, and a continuation a paused one; and it
has been accepted, by exactly one call. -/
theorem mailbox (es : List (Event F)) :
  (∀ i j request, AcceptsAt es i request → FirstReadyAfter es i j → ¬ AbortBetween es i j →
      (∃ s, AppliesAt es j request s) ∧ ∀ j', Delivers es i j' ↔ j' = j)
    ∧ (∀ i j request, AcceptsAt es i request → FirstReadyAfter es i j → AbortBetween es i j →
      (∃ abort s, abort.action = .actionAbort ∧ AppliesAt es j abort s)
        ∧ ∀ j', ¬ Delivers es i j')
    ∧ (∀ i j request, AcceptsAt es i request → i < j →
      (∀ k, i < k → k < j → ¬ ReadyAt es k) →
        (∀ request', AcceptsAt es j request' → request'.action = .actionAbort)
          ∧ (¬ AbortBetween es i j → slotBefore es j = request))
    ∧ (∀ j request s, AppliesAt es j request s →
      (∃ e input, es[j]? = some e ∧ (machine.before es j).Ready e input
        ∧ (machine.before es (j + 1)).motion
          = motionAdvance input (motionRequestApply input request s))
        ∧ (request.action = .actionPause → s.control.busy = true ∧ s.control.paused = false)
        ∧ (request.action = .actionContinue → s.control.busy = true ∧ s.control.paused = true))
    ∧ (∀ j request s, AppliesAt es j request s →
      ∃! i, AcceptsAt es i request ∧ Delivers es i j)
  := by
  refine ⟨?_, ?_, ?_, ?_, ?_⟩
  · intro i j request haccepts hfirst hno
    have hdelivers := haccepts.delivers hfirst hno
    constructor
    · obtain ⟨-, ⟨request', s, haccepts', happlies⟩, -⟩ := hdelivers
      rw [← haccepts.slot.1, haccepts'.slot.1]
      exact ⟨s, happlies⟩
    · intro j'
      constructor
      · intro hdelivers'
        apply hfirst.unique hdelivers'.firstReadyAfter
      · rintro rfl
        apply hdelivers
  · intro i j request haccepts hfirst hbetween
    obtain ⟨hpending, -, habort⟩ := haccepts.slotBefore hfirst.1 hfirst.2.2
    constructor
    · obtain ⟨s, happlies⟩ := hfirst.2.1.appliesAt hpending
      exact ⟨_, s, habort hbetween, happlies⟩
    · intro j' hdelivers
      have heq := hfirst.unique hdelivers.firstReadyAfter
      subst heq
      obtain ⟨k, r, hik, hkj, haccepts', -⟩ := hbetween
      exact hdelivers.2.2 k hik hkj r haccepts'
  · intro i j request haccepts hij hidle
    obtain ⟨hpending, hsame, -⟩ := haccepts.slotBefore hij hidle
    refine ⟨?_, hsame⟩
    intro request' haccepts'
    rw [← haccepts'.slot.1]
    rcases slotBefore_succ es j with ⟨-, -, haction⟩ | ⟨-, hempty⟩ | ⟨hnot, -, -⟩
    · apply haction hpending
    · rw [haccepts'.slot.1, haccepts'.slot.2] at hempty
      cases hempty
    · exact absurd haccepts' (hnot request')
  · rintro j request s ⟨e, he, happlies⟩
    obtain ⟨input, hready, hmotion⟩ := happlies.motion
    have hstep : machine.before es (j + 1) = (machine.before es j).step e :=
      machine.before_succ he
    rw [← hstep] at hmotion
    refine ⟨⟨e, input, he, hready, hmotion⟩, ?_⟩
    obtain ⟨hpending, rfl⟩ := happlies.request
    obtain ⟨hbusy, hpaused⟩ := happlies.flags
    rw [hbusy, hpaused]
    have hslot := (valid_before es j).slot
    exact ⟨hslot.pause_busy hpending, hslot.continue_paused hpending⟩
  · intro j request s happlies
    obtain ⟨hpending, rfl⟩ := happlies.slot
    obtain ⟨i, hij, haccepts, hlast, -⟩ := exists_acceptsAt hpending
    refine ⟨i, ⟨haccepts, hij, ⟨_, s, haccepts, happlies⟩, hlast⟩, ?_⟩
    rintro i' ⟨haccepts', hi'j, -, hlast'⟩
    rcases Nat.lt_trichotomy i' i with hlt | heq | hlt
    · exact absurd haccepts (hlast' i hlt hij _)
    · apply heq
    · exact absurd haccepts' (hlast i' hlt hi'j _)

end System

end EthercatMaster
