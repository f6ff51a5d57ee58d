import EthercatMaster.Library.Streak
import EthercatMaster.Master.Bringup

/-!
# Requesting the operational state

What it takes for `ethercat_master_slave_request_op` to succeed.  Its counters are the lengths of
runs of cycles, and the state that it takes to be confirmed is what the last check has found.
-/

namespace EthercatMaster

/-! ### The parts of a cycle -/

/-- The counters after the exchange of a cycle, unless the call gives up because of it. -/
def requestOpAnswered (wkc : ℤ) (s : OpRequest) : Option OpRequest :=
  if wkc < 0 then none
  else
    let s :=
      if wkc = 0 then { s with zeroWkcCount := s.zeroWkcCount + 1, stableCount := 0 }
      else { s with zeroWkcCount := 0 }
    if zeroWkcLimit < s.zeroWkcCount then none else some s

/-- `wkc_ready`. -/
def requestOpWkcReady (last : Bool) (expectedWkc wkc : ℤ) : Bool :=
  if last then 0 < expectedWkc ∧ expectedWkc ≤ wkc else 0 < wkc

/-- The counters after the check of a cycle, unless the call gives up because of it. -/
def requestOpCounted (ready : Bool) (check : Option (UInt16 × UInt16)) (s : OpRequest) :
    Option OpRequest :=
  let s := { s with stateConfirmed := (check.map bothOperational).getD s.stateConfirmed }
  if check.any fun check => check.2 &&& ecStateError ≠ 0 then none
  else
    some
      (if s.stateConfirmed && ready then { s with stableCount := s.stableCount + 1 }
      else { s with stableCount := 0 })

theorem requestOpCycle_eq (last : Bool) (expectedWkc wkc : ℤ) (check : Option (UInt16 × UInt16))
    (recheck : UInt16 × UInt16) (s : OpRequest) :
  requestOpCycle last expectedWkc wkc check recheck s
    = match (requestOpAnswered wkc s).bind
        (requestOpCounted (requestOpWkcReady last expectedWkc wkc) check) with
      | none => .error false
      | some t =>
          if axisOpStableCycles ≤ t.stableCount then
            if bothOperational recheck then .error true
            else .ok { t with stableCount := 0, stateConfirmed := false }
          else .ok t
  := by
  rw [requestOpCycle, requestOpAnswered]
  by_cases hneg : wkc < 0
  · rw [if_pos hneg, if_pos hneg]
    rfl
  rw [if_neg hneg, if_neg hneg]
  generalize (if wkc = 0 then { s with zeroWkcCount := s.zeroWkcCount + 1, stableCount := 0 }
    else { s with zeroWkcCount := 0 } : OpRequest) = s'
  dsimp only
  by_cases hlimit : zeroWkcLimit < s'.zeroWkcCount
  · rw [if_pos hlimit, if_pos hlimit]
    rfl
  rw [if_neg hlimit, if_neg hlimit, Option.bind_some, requestOpCounted]
  dsimp only
  split
  · rfl
  rw [requestOpWkcReady]

/-- What remains after an exchange. -/
theorem requestOpAnswered_eq_some {wkc : ℤ} {s t : OpRequest} :
  requestOpAnswered wkc s = some t
    ↔ 0 ≤ wkc ∧ t.zeroWkcCount ≤ zeroWkcLimit
      ∧ t = ⟨if wkc = 0 then 0 else s.stableCount, if wkc = 0 then s.zeroWkcCount + 1 else 0,
        s.stateConfirmed⟩
  := by
  have hcount : (if wkc = 0 then { s with zeroWkcCount := s.zeroWkcCount + 1, stableCount := 0 }
      else { s with zeroWkcCount := 0 } : OpRequest)
      = ⟨if wkc = 0 then 0 else s.stableCount, if wkc = 0 then s.zeroWkcCount + 1 else 0,
        s.stateConfirmed⟩ := by
    split
    · rfl
    · rfl
  rw [requestOpAnswered, hcount, Option.ite_none_left_eq_some, not_lt]
  apply and_congr_right
  intro _
  rw [Option.ite_none_left_eq_some, Option.some_inj, not_lt]
  constructor
  · rintro ⟨hle, rfl⟩
    exact ⟨hle, rfl⟩
  · rintro ⟨hle, rfl⟩
    exact ⟨hle, rfl⟩

/-- The call gives up because of an exchange. -/
theorem requestOpAnswered_eq_none {wkc : ℤ} {s : OpRequest} :
  requestOpAnswered wkc s = none
    ↔ ¬ (0 ≤ wkc ∧ (if wkc = 0 then s.zeroWkcCount + 1 else 0) ≤ zeroWkcLimit)
  := by
  rw [Option.eq_none_iff_forall_not_mem]
  constructor
  · rintro hnone ⟨hnonneg, hlimit⟩
    apply hnone _ (requestOpAnswered_eq_some.mpr ⟨hnonneg, hlimit, rfl⟩)
  · rintro hnot t ht
    obtain ⟨hnonneg, hlimit, rfl⟩ := requestOpAnswered_eq_some.mp ht
    apply hnot ⟨hnonneg, hlimit⟩

/-- What remains after a check. -/
theorem requestOpCounted_eq_some {ready : Bool} {check : Option (UInt16 × UInt16)}
    {s t : OpRequest} (h : requestOpCounted ready check s = some t) :
  t.zeroWkcCount = s.zeroWkcCount
    ∧ t.stateConfirmed = (check.map bothOperational).getD s.stateConfirmed
    ∧ t.stableCount = if t.stateConfirmed && ready then s.stableCount + 1 else 0
  := by
  rw [requestOpCounted, Option.ite_none_left_eq_some, Option.some_inj] at h
  obtain ⟨-, rfl⟩ := h
  split
  · exact ⟨rfl, rfl, rfl⟩
  · exact ⟨rfl, rfl, rfl⟩

/-! ### Exchanges that are tolerated -/

/-- The exchange of the cycle had no working counter. -/
def ZeroWkc (wkc : ℕ → ℤ) (n : ℕ) : Prop :=
  wkc n = 0

instance (wkc : ℕ → ℤ) : DecidablePred (ZeroWkc wkc) := fun _ =>
  inferInstanceAs (Decidable (_ = _))

/-- The exchange of the cycle has not failed, and has not been one too many without a working
counter. -/
def Tolerated (wkc : ℕ → ℤ) (n : ℕ) : Prop :=
  0 ≤ wkc n ∧ streak (ZeroWkc wkc) (n + 1) ≤ zeroWkcLimit

/-! ### A call -/

/-- A call of `ethercat_master_slave_request_op`, with what each of its cycles would get from the
exchange and from the checks. -/
structure OpCall where
  slave : ℕ
  axisCount : ℕ
  expectedWkc : ℤ
  wkc : ℕ → ℤ
  check : ℕ → UInt16 × UInt16
  recheck : ℕ → UInt16 × UInt16

namespace OpCall

variable (c : OpCall)

/-- What the call returns. -/
def result : Bool :=
  ethercatMasterSlaveRequestOp c.slave c.axisCount c.expectedWkc c.wkc c.check c.recheck

/-- The check at an interval, if the cycle makes one. -/
def checked (n : ℕ) : Option (UInt16 × UInt16) :=
  if n % stateCheckInterval = 0 then some (c.check n) else none

/-- The working counter of the cycle is acceptable. -/
def ready (n : ℕ) : Bool :=
  requestOpWkcReady (c.slave = c.axisCount) c.expectedWkc (c.wkc n)

/-- A cycle of the loop. -/
def cycle (n : ℕ) (s : OpRequest) : Except Bool OpRequest :=
  requestOpCycle (c.slave = c.axisCount) c.expectedWkc (c.wkc n) (c.checked n) (c.recheck n) s

/-- The counters before a cycle, if the call reaches it. -/
def before : ℕ → Option OpRequest
  | 0 => some ⟨0, 0, false⟩
  | n + 1 => (before n).bind fun s => (c.cycle n s).toOption

/-- The call makes the cycle and returns in it. -/
def ReturnsAt (result : Bool) (n : ℕ) : Prop :=
  n < axisOpTimeoutCycles ∧ ∃ s, c.before n = some s ∧ c.cycle n s = .error result

/-- The counters of a cycle before it is decided whether to check again. -/
def counted (n : ℕ) : Option OpRequest :=
  (c.before n).bind fun s =>
    (requestOpAnswered (c.wkc n) s).bind (requestOpCounted (c.ready n) (c.checked n))

/-- The state is checked again in the cycle. -/
def rechecks (n : ℕ) : Bool :=
  (c.counted n).any fun t => axisOpStableCycles ≤ t.stableCount

/-- The last check made before a cycle, at an interval or again. -/
def lastCheck : ℕ → Option (UInt16 × UInt16)
  | 0 => none
  | n + 1 => if c.rechecks n then some (c.recheck n) else (c.checked n).or (lastCheck n)

/-- The check in force in a cycle: its own, or the last one made before. -/
def inForce (n : ℕ) : Option (UInt16 × UInt16) :=
  (c.checked n).or (c.lastCheck n)

/-- The cycle is counted as a stable one, and the count goes on. -/
def Steady (n : ℕ) : Prop :=
  (c.inForce n).any bothOperational = true ∧ c.ready n = true ∧ c.rechecks n = false

instance : DecidablePred c.Steady := fun _ =>
  inferInstanceAs (Decidable (_ ∧ _))

variable {c} {n : ℕ} {s t : OpRequest}

theorem not_ready_of_zero (h : c.wkc n = 0) :
  c.ready n = false
  := by
  rw [ready, requestOpWkcReady, h]
  split
  · apply decide_eq_false
    rintro ⟨hpos, hle⟩
    omega
  · apply decide_eq_false
    apply lt_irrefl

/-- What a cycle does with the counters in front of a second check. -/
theorem cycle_eq (h : c.before n = some s) :
  c.cycle n s
    = match c.counted n with
      | none => .error false
      | some t =>
          if c.rechecks n then
            if bothOperational (c.recheck n) then .error true
            else .ok { t with stableCount := 0, stateConfirmed := false }
          else .ok t
  := by
  rw [cycle, requestOpCycle_eq, rechecks, counted, h, Option.bind_some, ready]
  cases (requestOpAnswered (c.wkc n) s).bind
      (requestOpCounted (requestOpWkcReady (c.slave = c.axisCount) c.expectedWkc (c.wkc n))
        (c.checked n)) with
  | none => rfl
  | some t =>
      rw [Option.any_some]
      dsimp only
      by_cases hstable : axisOpStableCycles ≤ t.stableCount
      · rw [if_pos hstable, if_pos (decide_eq_true hstable)]
      · rw [if_neg hstable, if_neg (by simpa using hstable)]

/-! ### The counters -/

/-- The counters are the lengths of runs of cycles, and the state is confirmed if the last check
has found it. -/
structure Counts (c : OpCall) (n : ℕ) (s : OpRequest) : Prop where
  stable : s.stableCount = streak c.Steady n
  zero : s.zeroWkcCount = streak (ZeroWkc c.wkc) n
  confirmed : s.stateConfirmed = (c.lastCheck n).any bothOperational

/-- What the counters are in front of a second check. -/
theorem counted_spec (hs : c.before n = some s) (hcounts : c.Counts n s)
    (ht : c.counted n = some t) :
  Tolerated c.wkc n ∧ t.zeroWkcCount = streak (ZeroWkc c.wkc) (n + 1)
    ∧ t.stateConfirmed = (c.inForce n).any bothOperational
    ∧ t.stableCount
      = if (c.inForce n).any bothOperational && c.ready n then streak c.Steady n + 1 else 0
  := by
  rw [counted, hs, Option.bind_some] at ht
  obtain ⟨s', hs', ht⟩ := Option.bind_eq_some_iff.mp ht
  obtain ⟨hnonneg, hlimit, rfl⟩ := requestOpAnswered_eq_some.mp hs'
  obtain ⟨hzero, hconfirmed, hstable⟩ := requestOpCounted_eq_some ht
  have hzeros : (if c.wkc n = 0 then s.zeroWkcCount + 1 else 0)
      = streak (ZeroWkc c.wkc) (n + 1) := by
    rw [hcounts.zero]
    rfl
  have hforce : t.stateConfirmed = (c.inForce n).any bothOperational := by
    rw [hconfirmed, hcounts.confirmed, inForce]
    cases c.checked n with
    | none => rfl
    | some check => rfl
  refine ⟨⟨hnonneg, ?_⟩, ?_, hforce, ?_⟩
  · rw [← hzeros]
    exact hlimit
  · rw [hzero, ← hzeros]
  · rw [hstable, hforce]
    dsimp only
    by_cases h0 : c.wkc n = 0
    · rw [not_ready_of_zero h0, Bool.and_false]
      rfl
    · rw [if_neg h0, hcounts.stable]

/-- A cycle that goes on keeps the meaning of the counters. -/
theorem Counts.succ (hs : c.before n = some s) (hcounts : c.Counts n s)
    (hcycle : c.cycle n s = .ok t) :
  Tolerated c.wkc n ∧ c.Counts (n + 1) t
  := by
  rw [cycle_eq hs] at hcycle
  cases hcounted : c.counted n with
  | none =>
      rw [hcounted] at hcycle
      cases hcycle
  | some s' =>
      obtain ⟨htolerated, hzero, hconfirmed, hstable⟩ := counted_spec hs hcounts hcounted
      refine ⟨htolerated, ?_⟩
      rw [hcounted] at hcycle
      dsimp only at hcycle
      cases hrechecks : c.rechecks n with
      | false =>
          rw [hrechecks, if_neg Bool.false_ne_true] at hcycle
          cases hcycle
          constructor
          case stable =>
            rw [hstable, streak]
            apply if_congr _ rfl rfl
            rw [Bool.and_eq_true, Steady, hrechecks]
            simp only [and_true]
          case zero => exact hzero
          case confirmed =>
            rw [hconfirmed, lastCheck, hrechecks, inForce]
            rfl
      | true =>
          rw [hrechecks, if_pos rfl] at hcycle
          cases hrecheck : bothOperational (c.recheck n) with
          | true =>
              rw [hrecheck] at hcycle
              cases hcycle
          | false =>
              rw [hrecheck] at hcycle
              cases hcycle
              constructor
              case stable =>
                symm
                apply Streak.succ_of_not
                rintro ⟨-, -, hsteady⟩
                rw [hrechecks] at hsteady
                cases hsteady
              case zero => exact hzero
              case confirmed =>
                rw [lastCheck, hrechecks, if_pos rfl, Option.any_some, hrecheck]

/-- When a cycle is reached, the counters have their meaning, and the exchanges before it were
tolerated. -/
theorem counts_of_before (hs : c.before n = some s) :
  c.Counts n s ∧ ∀ k < n, Tolerated c.wkc k
  := by
  induction n generalizing s with
  | zero =>
      cases hs
      refine ⟨⟨rfl, rfl, rfl⟩, ?_⟩
      intro k hk
      exact absurd hk (Nat.not_lt_zero k)
  | succ n ih =>
      rw [before] at hs
      obtain ⟨s', hs', hcycle⟩ := Option.bind_eq_some_iff.mp hs
      obtain ⟨hcounts, hbefore⟩ := ih hs'
      have hok : c.cycle n s' = .ok s := by
        cases h : c.cycle n s' with
        | error b =>
            rw [h] at hcycle
            cases hcycle
        | ok t =>
            rw [h] at hcycle
            cases hcycle
            rfl
      obtain ⟨htolerated, hcounts⟩ := hcounts.succ hs' hok
      exact ⟨hcounts, Nat.forall_lt_succ_right.mpr ⟨hbefore, htolerated⟩⟩

/-! ### Returning -/

/-- The cycles from one that is reached on return what the call returns in one of them, or zero
behind the last one. -/
theorem requestOpCycles_range' {m len : ℕ} (hs : c.before m = some s)
    (h : requestOpCycles (c.slave = c.axisCount) c.expectedWkc c.wkc c.check c.recheck
      (List.range' m len) s = true) :
  ∃ n < m + len, ∃ s, c.before n = some s ∧ c.cycle n s = .error true
  := by
  induction len generalizing m s with
  | zero => cases h
  | succ len ih =>
      rw [List.range'_succ, requestOpCycles] at h
      cases hcycle : c.cycle m s with
      | error b =>
          rw [cycle, checked] at hcycle
          rw [hcycle] at h
          dsimp only at h
          subst h
          exact ⟨m, by omega, s, hs, hcycle⟩
      | ok t =>
          have ht : c.before (m + 1) = some t := by
            rw [before, hs, Option.bind_some, hcycle]
            rfl
          rw [cycle, checked] at hcycle
          rw [hcycle] at h
          obtain ⟨n, hn, hreturns⟩ := ih ht h
          exact ⟨n, by omega, hreturns⟩

/-- Behind a cycle in which the call returns, none is reached. -/
theorem before_eq_none {m n : ℕ} (hm : c.before m = none) (hmn : m ≤ n) :
  c.before n = none
  := by
  induction n, hmn using Nat.le_induction with
  | base => apply hm
  | succ n _ ih => rw [before, ih, Option.bind_none]

/-- The cycles from one that is reached on return what the one does in which the call returns. -/
theorem requestOpCycles_of_error {m len : ℕ} {b : Bool} (hs : c.before m = some s) (hmn : m ≤ n)
    (hn : n < m + len) (ht : c.before n = some t) (hcycle : c.cycle n t = .error b) :
  requestOpCycles (c.slave = c.axisCount) c.expectedWkc c.wkc c.check c.recheck
    (List.range' m len) s = b
  := by
  induction len generalizing m s with
  | zero => omega
  | succ len ih =>
      rw [List.range'_succ, requestOpCycles]
      cases hm : c.cycle m s with
      | error b' =>
          have hnone : c.before (m + 1) = none := by
            rw [before, hs, Option.bind_some, hm]
            rfl
          have heq : m = n := by
            by_contra hne
            rw [before_eq_none hnone (by omega)] at ht
            cases ht
          subst heq
          rw [hs] at ht
          cases ht
          rw [hm] at hcycle
          cases hcycle
          rw [cycle, checked] at hm
          rw [hm]
      | ok s' =>
          have hs' : c.before (m + 1) = some s' := by
            rw [before, hs, Option.bind_some, hm]
            rfl
          have hne : m ≠ n := by
            rintro rfl
            rw [hs] at ht
            cases ht
            rw [hm] at hcycle
            cases hcycle
          have hrest := ih hs' (by omega) (by omega)
          rw [cycle, checked] at hm
          rw [hm]
          apply hrest

/-- A call for an axis that returns in one of its cycles returns what the cycle does. -/
theorem result_of_returnsAt {b : Bool} (hslave : 0 < c.slave ∧ c.slave ≤ c.axisCount)
    (h : c.ReturnsAt b n) :
  c.result = b
  := by
  obtain ⟨hn, t, ht, hcycle⟩ := h
  rw [result, ethercatMasterSlaveRequestOp, if_neg (by omega), List.range_eq_range']
  apply requestOpCycles_of_error rfl (Nat.zero_le n) _ ht hcycle
  rwa [Nat.zero_add]

/-- A call that returns 1 does so in one of its cycles. -/
theorem returnsAt_of_result (h : c.result = true) :
  ∃ n, c.ReturnsAt true n
  := by
  rw [result, ethercatMasterSlaveRequestOp] at h
  split at h
  · cases h
  · rw [List.range_eq_range'] at h
    obtain ⟨n, hn, hreturns⟩ := requestOpCycles_range' rfl h
    rw [Nat.zero_add] at hn
    exact ⟨n, hn, hreturns⟩

/-- A check that has reported the operational state without an error. -/
def Operational (check : UInt16 × UInt16) : Prop :=
  check.1 = ecStateOperational ∧ check.2 = ecStateOperational ∧ check.2 &&& ecStateError = 0

theorem operational_of_bothOperational {check : UInt16 × UInt16}
    (h : bothOperational check = true) :
  Operational check
  := by
  obtain ⟨hresult, hstate⟩ := of_decide_eq_true h
  refine ⟨hresult, hstate, ?_⟩
  rw [hstate]
  rfl

/-- The cycle is one of the last ones that were to be stable, up to `n`. -/
def Window (n k : ℕ) : Prop :=
  n + 1 - axisOpStableCycles ≤ k ∧ k ≤ n

/-- What is known of a call that returns in a cycle that the slave is operational. -/
structure Sound (c : OpCall) (n : ℕ) : Prop where
  cycles : axisOpStableCycles ≤ n + 1 ∧ n + 1 ≤ axisOpTimeoutCycles
  ready : ∀ k, Window n k →
    if c.slave = c.axisCount then 0 < c.expectedWkc ∧ c.expectedWkc ≤ c.wkc k else 0 < c.wkc k
  inForce : ∀ k, Window n k → ∃ check, c.inForce k = some check ∧ Operational check
  checks : ∀ k, Window n k → k % stateCheckInterval = 0 → Operational (c.check k)
  rechecked : c.rechecks n = true ∧ Operational (c.recheck n)
  rechecks : ∀ k, Window n k → c.rechecks k = true → k = n
  nonneg : ∀ k ≤ n, 0 ≤ c.wkc k
  zeros : ¬ ∃ m, m + (zeroWkcLimit + 1) ≤ n + 1
    ∧ ∀ k, m ≤ k → k < m + (zeroWkcLimit + 1) → c.wkc k = 0

/-- What the cycle in which a call returns 1 has found. -/
theorem returnsAt_spec (h : c.ReturnsAt true n) :
  (∀ k ≤ n, Tolerated c.wkc k)
    ∧ (∀ k, Window n k → (c.inForce k).any bothOperational = true ∧ c.ready k = true
      ∧ (c.rechecks k = true → k = n))
    ∧ axisOpStableCycles ≤ n + 1
    ∧ c.rechecks n = true ∧ bothOperational (c.recheck n) = true
  := by
  obtain ⟨-, s, hs, hcycle⟩ := h
  rw [cycle_eq hs] at hcycle
  obtain ⟨hcounts, hbefore⟩ := counts_of_before hs
  cases hcounted : c.counted n with
  | none =>
      rw [hcounted] at hcycle
      cases hcycle
  | some t =>
      obtain ⟨htolerated, -, -, hstable⟩ := counted_spec hs hcounts hcounted
      rw [hcounted] at hcycle
      dsimp only at hcycle
      split_ifs at hcycle with hrechecks hrecheck
      have hcount : axisOpStableCycles ≤ t.stableCount := by
        rw [rechecks, hcounted, Option.any_some] at hrechecks
        apply of_decide_eq_true hrechecks
      rw [hstable] at hcount
      split_ifs at hcount with hsteady
      · rw [Bool.and_eq_true] at hsteady
        have hrun : axisOpStableCycles - 1 ≤ streak c.Steady n := by omega
        have hlength := (Streak.le_iff.mp hrun).1
        refine ⟨?_, ?_, by omega, hrechecks, hrecheck⟩
        · intro k hk
          rcases hk.lt_or_eq with hk | rfl
          · apply hbefore k hk
          · exact htolerated
        · rintro k ⟨hfirst, hlast⟩
          rcases hlast.lt_or_eq with hk | rfl
          · obtain ⟨hforce, hready, hnot⟩ := Streak.holds hrun (by omega) hk
            refine ⟨hforce, hready, ?_⟩
            intro hk'
            rw [hnot] at hk'
            cases hk'
          · exact ⟨hsteady.1, hsteady.2, fun _ => rfl⟩
      · exact absurd hcount (by decide)

/-- If the call returns 1, then the last fifty exchanges before had acceptable working counters
while all checks found the slave operational, and a further check did; up to there the missing
answers were few. -/
theorem requestOp_sound (c : OpCall) (h : c.result = true) :
  ∃ n, c.ReturnsAt true n ∧ c.Sound n
  := by
  obtain ⟨n, hreturns⟩ := returnsAt_of_result h
  obtain ⟨htolerated, hwindow, hcount, hrechecks, hrecheck⟩ := returnsAt_spec hreturns
  refine ⟨n, hreturns, ?_⟩
  have hforce : ∀ k, Window n k → ∃ check, c.inForce k = some check ∧ Operational check := by
    intro k hk
    obtain ⟨check, hcheck, hboth⟩ := (Option.any_eq_true ..).mp (hwindow k hk).1
    exact ⟨check, hcheck, operational_of_bothOperational hboth⟩
  constructor
  case cycles => exact ⟨hcount, hreturns.1⟩
  case ready =>
    intro k hk
    have hready := (hwindow k hk).2.1
    rw [OpCall.ready, requestOpWkcReady] at hready
    split
    case isTrue hslave =>
      rw [if_pos (decide_eq_true hslave)] at hready
      apply of_decide_eq_true hready
    case isFalse hslave =>
      rw [if_neg (by simpa using hslave)] at hready
      apply of_decide_eq_true hready
  case inForce => exact hforce
  case checks =>
    intro k hk hinterval
    obtain ⟨check, hcheck, hoperational⟩ := hforce k hk
    rw [OpCall.inForce, checked, if_pos hinterval, Option.some_or] at hcheck
    cases hcheck
    apply hoperational
  case rechecked => exact ⟨hrechecks, operational_of_bothOperational hrecheck⟩
  case rechecks =>
    intro k hk
    apply (hwindow k hk).2.2
  case nonneg =>
    intro k hk
    apply (htolerated k hk).1
  case zeros =>
    intro hzeros
    obtain ⟨m, hm, hlong⟩ := Streak.exceeds_iff.mpr hzeros
    cases m with
    | zero => exact absurd hlong (Nat.not_lt_zero _)
    | succ m =>
        have hshort := (htolerated m (Nat.le_of_succ_le_succ hm)).2
        exact absurd hlong (not_lt.mpr hshort)

/-- A single axis whose exchanges and checks are all as expected. -/
def alone : OpCall where
  slave := 1
  axisCount := 1
  expectedWkc := 3
  wkc _ := 3
  check _ := (ecStateOperational, ecStateOperational)
  recheck _ := (ecStateOperational, ecStateOperational)

theorem requestOp_sound_alone :
  alone.result = true ∧ ∃ n, alone.ReturnsAt true n ∧ alone.Sound n
  := by
  have h : alone.result = true := by decide +kernel
  exact ⟨h, requestOp_sound alone h⟩

end OpCall

end EthercatMaster
