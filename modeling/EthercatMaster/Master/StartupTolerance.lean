import EthercatMaster.Gpt
import EthercatMaster.Master.RequestOp
import EthercatMaster.Soem.Receive

/-!
# Missing answers during the bring-up

The exchanges of the bring-up wait for the timer, and their result is the working counter.  An
exchange without a working counter is tolerated if it is not the sixth one in a row, by the warm-up
and by the requests for the state OP.  A frame that does not arrive at all is not: its result is the
one of a time-out of the timer.
-/

namespace EthercatMaster

/-! ### What is received -/

theorem receiveReply_nonneg (entry : IdxEntry) {wkc2 : ℤ} (hwkc2 : ecNoframe < wkc2)
    {x : ReceiveState} (h : 0 ≤ x.wkc) :
  0 ≤ (receiveReply entry wkc2 x).wkc
  := by
  by_cases hdata : IsProcessdata (x.context.port.rxbuf entry.idx ecCmdoffset)
  · obtain ⟨image, DCtime, wkc, heq, -, -, hnonneg⟩ := receiveReply_of_processdata hdata hwkc2
    rw [heq]
    apply hnonneg h
  · rw [receiveReply_of_not_processdata hdata]
    apply h

theorem receiveEntries_nonneg (waits : ℕ → Wait) (pos : ℕ) (entries : List IdxEntry)
    {x : ReceiveState} (h : 0 ≤ x.wkc) :
  0 ≤ (receiveEntries waits pos entries x).wkc
  := by
  induction entries generalizing pos x with
  | nil => exact h
  | cons entry entries ih =>
      rw [receiveEntries]
      apply ih
      rw [receiveEntry]
      apply receiveReply_nonneg entry (BufStat.noframe_lt _)
      exact h

/-- What is received is a working counter, or no frame at all. -/
theorem ecNoframe_le_receive (waits : ℕ → Wait) (c : Context) :
  ecNoframe ≤ (ecxReceiveProcessdataGroup waits c).1
  := by
  have hnonneg := receiveEntries_nonneg waits c.idxstack.pulled
    (c.idxstack.entries.drop c.idxstack.pulled) (x := ⟨c, 0, false, c.group.hasdc⟩) le_rfl
  rw [ecxReceiveProcessdataGroup]
  dsimp only
  split
  · apply le_trans _ hnonneg
    decide
  · rfl

/-! ### An exchange -/

/-- What an exchange of the bring-up comes upon: whether the semaphore of the timer is given in
time, what `ec_receive_processdata` returns and which system time it leaves. -/
structure StartupExchange where
  taken : Bool
  received : ℤ
  noframe_le : ecNoframe ≤ received
  dcTime : ℤ

/-- The exchange with the process data as it is received. -/
def StartupExchange.ofReceive (taken : Bool) (waits : ℕ → Wait) (c : Context) :
    StartupExchange where
  taken := taken
  received := (ecxReceiveProcessdataGroup waits c).1
  noframe_le := ecNoframe_le_receive waits c
  dcTime := (ecxReceiveProcessdataGroup waits c).2.DCtime.toInt64.toInt

/-- The variables of the exchanges; of the semaphore, whether there is one. -/
structure Startup where
  gptCycleSemaphore : Bool
  lastWkc : ℤ
  gpt : GptDcSync

/-- `ethercat_master_startup_pdo_exchange`. -/
def ethercatMasterStartupPdoExchange (e : StartupExchange) (s : Startup) : ℤ × Startup :=
  if !s.gptCycleSemaphore then (-1, s)
  else if !e.taken then (-1, s)
  else
    let s := { s with lastWkc := e.received }
    let s := if 0 < e.received then { s with gpt := gptDcSyncAdjust e.dcTime s.gpt } else s
    (e.received, s)

/-- The exchanges of a call, from the variables at its start. -/
structure StartupPhase where
  start : Startup
  exchange : ℕ → StartupExchange

namespace StartupPhase

variable (p : StartupPhase)

/-- The variables before an exchange. -/
def before : ℕ → Startup
  | 0 => p.start
  | n + 1 => (ethercatMasterStartupPdoExchange (p.exchange n) (before n)).2

/-- The result of an exchange. -/
def wkc (n : ℕ) : ℤ :=
  (ethercatMasterStartupPdoExchange (p.exchange n) (p.before n)).1

/-- The semaphore is taken in time. -/
def TakenAt (n : ℕ) : Prop :=
  p.start.gptCycleSemaphore = true ∧ (p.exchange n).taken = true

/-- The exchange lacks an answer. -/
def Lacking (n : ℕ) : Prop :=
  (p.exchange n).received = 0 ∨ (p.exchange n).received = ecNoframe

/-- More than five consecutive exchanges have lacked an answer, up to this one. -/
def Unanswered (n : ℕ) : Prop :=
  ∃ m, m + (zeroWkcLimit + 1) ≤ n + 1 ∧ ∀ k, m ≤ k → k < m + (zeroWkcLimit + 1) → p.Lacking k

/-- If no frame has arrived in the exchange, then more than five consecutive exchanges have lacked
an answer. -/
def LostLate (n : ℕ) : Prop :=
  (p.exchange n).received = ecNoframe → p.Unanswered n

variable {p} {n : ℕ}

theorem before_gptCycleSemaphore :
  (p.before n).gptCycleSemaphore = p.start.gptCycleSemaphore
  := by
  induction n with
  | zero => rfl
  | succ n ih =>
      rw [before, ethercatMasterStartupPdoExchange, ← ih]
      split
      · rfl
      · split
        · rfl
        · dsimp only
          split
          · rfl
          · rfl

/-- The result of an exchange is what is received, if the semaphore is taken in time. -/
theorem wkc_of_takenAt (h : p.TakenAt n) :
  p.wkc n = (p.exchange n).received
  := by
  rw [wkc, ethercatMasterStartupPdoExchange, before_gptCycleSemaphore, h.1, h.2]
  rfl

/-- A time-out has the result of an exchange without a frame. -/
theorem wkc_of_not_takenAt (h : ¬ p.TakenAt n) :
  p.wkc n = ecNoframe
  := by
  rw [wkc, ethercatMasterStartupPdoExchange, before_gptCycleSemaphore]
  cases hstart : p.start.gptCycleSemaphore with
  | false => rfl
  | true =>
      have htaken : (p.exchange n).taken = false := by
        apply Bool.eq_false_of_not_eq_true
        intro htaken
        apply h ⟨hstart, htaken⟩
      rw [htaken]
      rfl

/-- An exchange that is not tolerated is one without a frame, or the last one of too many without a
working counter. -/
theorem not_tolerated (htaken : ∀ n, p.TakenAt n) (h : ¬ Tolerated p.wkc n) :
  (p.exchange n).received = ecNoframe ∨ p.Unanswered n
  := by
  rw [Tolerated, not_and_or, not_le, not_le, wkc_of_takenAt (htaken n)] at h
  rcases h with hneg | hlong
  · left
    apply le_antisymm _ (p.exchange n).noframe_le
    rw [ecNoframe]
    omega
  · right
    obtain ⟨hle, hrun⟩ := Streak.le_iff.mp hlong
    refine ⟨n + 1 - (zeroWkcLimit + 1), by omega, ?_⟩
    intro k hmk hk
    left
    rw [← wkc_of_takenAt (htaken k)]
    apply hrun k hmk
    omega

theorem not_tolerated_of_noframe (h : p.wkc n = ecNoframe) :
  ¬ Tolerated p.wkc n
  := by
  rintro ⟨hnonneg, -⟩
  rw [h] at hnonneg
  cases hnonneg

/-- Where frames are lost late only, an exchange that is not tolerated is the last one of too many
without an answer. -/
theorem unanswered_of_not_tolerated (htaken : ∀ n, p.TakenAt n) (hlate : p.LostLate n)
    (h : ¬ Tolerated p.wkc n) :
  p.Unanswered n
  := by
  rcases not_tolerated htaken h with hlost | hunanswered
  · apply hlate hlost
  · apply hunanswered

end StartupPhase

/-! ### The warm-up -/

/-- A cycle of the warm-up: the number of successive exchanges without a working counter for the
next one, unless it gives up. -/
def warmupCycle (wkc : ℤ) (zeroWkcCount : ℕ) : Option ℕ :=
  if wkc < 0 then none
  else if wkc = 0 then
    if zeroWkcLimit < zeroWkcCount + 1 then none else some (zeroWkcCount + 1)
  else some 0

/-- The number before a cycle of the warm-up, if it reaches the cycle. -/
def warmupBefore (wkc : ℕ → ℤ) : ℕ → Option ℕ
  | 0 => some 0
  | n + 1 => (warmupBefore wkc n).bind (warmupCycle (wkc n))

section Warmup

variable {wkc : ℕ → ℤ} {n : ℕ}

theorem warmupCycle_eq_some {z : ℕ} :
  warmupCycle (wkc n) (streak (ZeroWkc wkc) n) = some z
    ↔ Tolerated wkc n ∧ streak (ZeroWkc wkc) (n + 1) = z
  := by
  rw [warmupCycle, Tolerated, Option.ite_none_left_eq_some, not_lt, and_assoc]
  apply and_congr_right
  intro _
  by_cases hzero : wkc n = 0
  · rw [if_pos hzero, Option.ite_none_left_eq_some, Option.some_inj, not_lt,
      Streak.succ_of_holds hzero]
  · rw [if_neg hzero, Option.some_inj, Streak.succ_of_not hzero]
    constructor
    · intro h
      exact ⟨Nat.zero_le _, h⟩
    · rintro ⟨-, h⟩
      apply h

/-- The warm-up reaches a cycle if all exchanges before were tolerated. -/
theorem warmupBefore_eq_some {z : ℕ} :
  warmupBefore wkc n = some z
    ↔ (∀ k < n, Tolerated wkc k) ∧ streak (ZeroWkc wkc) n = z
  := by
  induction n generalizing z with
  | zero =>
      rw [warmupBefore, Option.some_inj, streak]
      constructor
      · intro hz
        refine ⟨?_, hz⟩
        intro k hk
        exact absurd hk (Nat.not_lt_zero k)
      · rintro ⟨-, hz⟩
        apply hz
  | succ n ih =>
      rw [warmupBefore, Option.bind_eq_some_iff, Nat.forall_lt_succ_right, and_assoc,
        ← warmupCycle_eq_some]
      constructor
      · rintro ⟨y, hy, hz⟩
        obtain ⟨hbefore, rfl⟩ := ih.mp hy
        exact ⟨hbefore, hz⟩
      · rintro ⟨hbefore, hz⟩
        exact ⟨_, ih.mpr ⟨hbefore, rfl⟩, hz⟩

theorem warmupBefore_isSome :
  (warmupBefore wkc n).isSome = true ↔ ∀ k < n, Tolerated wkc k
  := by
  rw [Option.isSome_iff_exists]
  constructor
  · rintro ⟨z, hz⟩
    apply (warmupBefore_eq_some.mp hz).1
  · intro h
    exact ⟨_, warmupBefore_eq_some.mpr ⟨h, rfl⟩⟩

theorem warmupExchanges_cons {w : ℤ} {ws : List ℤ} {z : ℕ} :
  warmupExchanges (w :: ws) z = true
    ↔ ∃ y, warmupCycle w z = some y ∧ warmupExchanges ws y = true
  := by
  rw [warmupExchanges, warmupCycle]
  split_ifs
  all_goals simp

/-- The exchanges from a cycle on. -/
theorem warmupExchanges_range' {m len : ℕ} :
  warmupExchanges ((List.range' m len).map wkc) (streak (ZeroWkc wkc) m) = true
    ↔ ∀ k, m ≤ k → k < m + len → Tolerated wkc k
  := by
  induction len generalizing m with
  | zero =>
      apply iff_of_true rfl
      intro k hmk hk
      omega
  | succ len ih =>
      rw [List.range'_succ, List.map_cons, warmupExchanges_cons]
      constructor
      · rintro ⟨y, hy, hrest⟩ k hmk hk
        obtain ⟨htolerated, rfl⟩ := warmupCycle_eq_some.mp hy
        rcases hmk.eq_or_lt with rfl | hmk
        · apply htolerated
        · apply ih.mp hrest k hmk
          omega
      · intro h
        refine ⟨_, warmupCycle_eq_some.mpr ⟨h m le_rfl (by omega), rfl⟩, ih.mpr ?_⟩
        intro k hmk hk
        apply h k (Nat.le_of_succ_le hmk)
        omega

/-- The warm-up succeeds if all its exchanges are tolerated. -/
theorem ethercatMasterSafeOpWarmup_fst (received : ℕ → PdoInput) (x : Servos) :
  (ethercatMasterSafeOpWarmup wkc received x).1 = true
    ↔ ∀ k < safeOpWarmupCycles, Tolerated wkc k
  := by
  have hexchanges := @warmupExchanges_range' wkc 0 safeOpWarmupCycles
  rw [streak, Nat.zero_add, ← List.range_eq_range'] at hexchanges
  rw [ethercatMasterSafeOpWarmup]
  split
  case isTrue h =>
    apply iff_of_true rfl
    intro k hk
    apply hexchanges.mp h k (Nat.zero_le k) hk
  case isFalse h =>
    apply iff_of_false Bool.false_ne_true
    intro htolerated
    apply h
    apply hexchanges.mpr
    intro k _ hk
    apply htolerated k hk

end Warmup

/-! ### The requests -/

namespace OpCall

variable {c : OpCall} {n : ℕ} {s : OpRequest}

/-- The call is one for an axis, and it gives up in the cycle because of its exchange. -/
def GivesUpAt (c : OpCall) (n : ℕ) : Prop :=
  (0 < c.slave ∧ c.slave ≤ c.axisCount) ∧ n < axisOpTimeoutCycles
    ∧ ∃ s, c.before n = some s ∧ requestOpAnswered (c.wkc n) s = none

/-- In a cycle that is reached, the call gives up if the exchange is not tolerated. -/
theorem answered_eq_none (hs : c.before n = some s) :
  requestOpAnswered (c.wkc n) s = none ↔ ¬ Tolerated c.wkc n
  := by
  rw [requestOpAnswered_eq_none, (counts_of_before hs).1.zero]
  exact Iff.rfl

theorem GivesUpAt.result (h : c.GivesUpAt n) :
  c.result = false
  := by
  obtain ⟨hslave, hn, s, hs, hnone⟩ := h
  apply result_of_returnsAt hslave
  refine ⟨hn, s, hs, ?_⟩
  rw [cycle, requestOpCycle_eq, hnone]
  rfl

/-- A call whose working counters are never acceptable and whose checks never find an error. -/
def idle (wkc : ℕ → ℤ) : OpCall where
  slave := 1
  axisCount := 1
  expectedWkc := 0
  wkc := wkc
  check _ := (0, 0)
  recheck _ := (0, 0)

/-- Such a call goes on as long as its exchanges are tolerated. -/
theorem idle_before {wkc : ℕ → ℤ} (h : ∀ k < n, Tolerated wkc k) :
  ∃ s, (idle wkc).before n = some s
  := by
  induction n with
  | zero => exact ⟨_, rfl⟩
  | succ n ih =>
      obtain ⟨s, hs⟩ := ih fun k hk => h k (Nat.lt_succ_of_lt hk)
      have hready : (idle wkc).ready n = false := rfl
      have hanswered : requestOpAnswered (wkc n) s ≠ none := by
        intro hnone
        apply (answered_eq_none hs).mp hnone
        apply h n (Nat.lt_succ_self n)
      obtain ⟨s', hs'⟩ := Option.ne_none_iff_exists'.mp hanswered
      have hcheck : ((idle wkc).checked n).any (fun check => check.2 &&& ecStateError ≠ 0)
          = false := by
        have hnone : (0 : UInt16) &&& ecStateError = 0 := by decide
        rw [checked]
        split
        · exact decide_eq_false (not_not.mpr hnone)
        · rfl
      have hcounted : ∃ t, (idle wkc).counted n = some t := by
        have hwkc : (idle wkc).wkc n = wkc n := rfl
        rw [counted, hs, Option.bind_some, hwkc, hs', Option.bind_some, requestOpCounted,
          if_neg (by rw [hcheck]; exact Bool.false_ne_true)]
        exact ⟨_, rfl⟩
      obtain ⟨t, ht⟩ := hcounted
      obtain ⟨-, -, -, hstable⟩ := counted_spec hs (counts_of_before hs).1 ht
      rw [hready, Bool.and_false] at hstable
      have hrechecks : (idle wkc).rechecks n = false := by
        rw [rechecks, ht, Option.any_some, hstable]
        rfl
      refine ⟨t, ?_⟩
      rw [before, hs, Option.bind_some, cycle_eq hs, ht, hrechecks]
      rfl

end OpCall

/-! ### What is tolerated -/

namespace StartupPhase

/-- With the timer given in time, the warm-up and the requests give up only after more than five
consecutive exchanges without an answer, and the warm-up does so then; with a time-out they fail. -/
structure Tolerant (p : StartupPhase) : Prop where
  warmup : (∀ n, p.TakenAt n) → ∀ received x,
    ((ethercatMasterSafeOpWarmup p.wkc received x).1 = false
      ↔ ∃ m, m + (zeroWkcLimit + 1) ≤ safeOpWarmupCycles
        ∧ ∀ k, m ≤ k → k < m + (zeroWkcLimit + 1) →
          (warmupBefore p.wkc k).isSome = true ∧ p.Lacking k)
  requestOp : (∀ n, p.TakenAt n) → ∀ c : OpCall, c.wkc = p.wkc → ∀ n, c.GivesUpAt n →
    p.Unanswered n
  warmup_timeout : ∀ n < safeOpWarmupCycles, ¬ p.TakenAt n →
    ∀ received x, (ethercatMasterSafeOpWarmup p.wkc received x).1 = false
  requestOp_timeout : ∀ c : OpCall, c.wkc = p.wkc → 0 < c.slave ∧ c.slave ≤ c.axisCount →
    ∀ n < axisOpTimeoutCycles, c.before n ≠ none → ¬ p.TakenAt n → c.result = false

variable {p : StartupPhase} {n : ℕ}

theorem Unanswered.mono {m : ℕ} (hmn : m ≤ n) (h : p.Unanswered m) :
  p.Unanswered n
  := by
  obtain ⟨k, hk, hlacking⟩ := h
  exact ⟨k, by omega, hlacking⟩

/-- In a tolerant bring-up, a single exchange without an answer ends neither the warm-up nor a
request. -/
theorem Tolerant.of_single (h : p.Tolerant) (htaken : ∀ n, p.TakenAt n)
    (hsingle : ∀ k, k ≠ n → ¬ p.Lacking k) :
  (∀ received x, (ethercatMasterSafeOpWarmup p.wkc received x).1 = true)
    ∧ ∀ c : OpCall, c.wkc = p.wkc → ∀ m, ¬ c.GivesUpAt m
  := by
  have hfew : ∀ m, ¬ ∀ k, m ≤ k → k < m + (zeroWkcLimit + 1) → p.Lacking k := by
    intro m hlacking
    rw [zeroWkcLimit] at hlacking
    by_cases hm : m = n
    · apply hsingle (m + 1) (by omega)
      apply hlacking (m + 1) (by omega) (by omega)
    · apply hsingle m hm
      apply hlacking m le_rfl (by omega)
  constructor
  · intro received x
    rw [← Bool.not_eq_false, h.warmup htaken received x]
    rintro ⟨m, -, hmade⟩
    apply hfew m
    intro k hmk hk
    apply (hmade k hmk hk).2
  · intro c hwkc m hgivesUp
    obtain ⟨first, -, hlacking⟩ := h.requestOp htaken c hwkc m hgivesUp
    apply hfew first hlacking

/-- The first exchange that is not tolerated. -/
theorem exists_first {wkc : ℕ → ℤ} (h : ¬ Tolerated wkc n) :
  ∃ m ≤ n, (∀ k < m, Tolerated wkc k) ∧ ¬ Tolerated wkc m
  := by
  classical
  have hex : ∃ m, ¬ Tolerated wkc m := ⟨n, h⟩
  refine ⟨Nat.find hex, Nat.find_min' hex h, ?_, Nat.find_spec hex⟩
  intro k hk
  apply not_not.mp (Nat.find_min hex hk)

/-- Six consecutive exchanges that the warm-up makes, and that lack an answer, end it. -/
theorem not_tolerated_of_lacking (htaken : ∀ n, p.TakenAt n) {m : ℕ}
    (h : ∀ k, m ≤ k → k < m + (zeroWkcLimit + 1) →
      (warmupBefore p.wkc k).isSome = true ∧ p.Lacking k) :
  ¬ Tolerated p.wkc (m + zeroWkcLimit)
  := by
  intro hlast
  have htolerated : ∀ k < m + (zeroWkcLimit + 1), Tolerated p.wkc k := by
    intro k hk
    rcases Nat.lt_succ_iff_lt_or_eq.mp hk with hk | rfl
    · have hmade := (h (m + zeroWkcLimit) (Nat.le_add_right _ _) (Nat.lt_succ_self _)).1
      apply warmupBefore_isSome.mp hmade k hk
    · apply hlast
  have hlong : zeroWkcLimit < streak (ZeroWkc p.wkc) (m + zeroWkcLimit + 1) := by
    apply Streak.le_iff.mpr
    refine ⟨by omega, ?_⟩
    intro k hmk hk
    rcases (h k (by omega) hk).2 with hzero | hlost
    · rw [ZeroWkc, wkc_of_takenAt (htaken k), hzero]
    · rw [← wkc_of_takenAt (htaken k)] at hlost
      exact absurd (htolerated k hk) (not_tolerated_of_noframe hlost)
  exact absurd hlast.2 (not_le.mpr hlong)

/-- The warm-up is as tolerant as it should be, if frames are lost late only in its exchanges. -/
theorem warmup_iff (htaken : ∀ n, p.TakenAt n)
    (hlate : ∀ n < safeOpWarmupCycles, p.LostLate n) (received : ℕ → PdoInput) (x : Servos) :
  (ethercatMasterSafeOpWarmup p.wkc received x).1 = false
    ↔ ∃ m, m + (zeroWkcLimit + 1) ≤ safeOpWarmupCycles
      ∧ ∀ k, m ≤ k → k < m + (zeroWkcLimit + 1) →
        (warmupBefore p.wkc k).isSome = true ∧ p.Lacking k
  := by
  rw [← Bool.not_eq_true, ethercatMasterSafeOpWarmup_fst]
  constructor
  · intro h
    rw [not_forall] at h
    obtain ⟨n, h⟩ := h
    obtain ⟨hn, hnot⟩ := Classical.not_imp.mp h
    obtain ⟨first, hle, hbefore, hfirst⟩ := exists_first hnot
    have hunanswered := unanswered_of_not_tolerated htaken (hlate first (by omega)) hfirst
    obtain ⟨m, hm, hlacking⟩ := hunanswered
    refine ⟨m, by omega, ?_⟩
    intro k hmk hk
    refine ⟨warmupBefore_isSome.mpr ?_, hlacking k hmk hk⟩
    intro i hi
    apply hbefore i
    omega
  · rintro ⟨m, hm, hlacking⟩ htolerated
    apply not_tolerated_of_lacking htaken hlacking
    apply htolerated
    omega

/-- The bring-up is as tolerant as it should be exactly if no frame is lost before more than five
consecutive exchanges have lacked an answer. -/
theorem tolerant_iff (p : StartupPhase) :
  p.Tolerant ↔ ((∀ n, p.TakenAt n) → ∀ n < axisOpTimeoutCycles, p.LostLate n)
  := by
  constructor
  · intro h htaken n hn hlost
    rw [← wkc_of_takenAt (htaken n)] at hlost
    obtain ⟨first, hle, hbefore, hfirst⟩ := exists_first (not_tolerated_of_noframe hlost)
    obtain ⟨s, hs⟩ := OpCall.idle_before hbefore
    have hgivesUp : (OpCall.idle p.wkc).GivesUpAt first := by
      refine ⟨⟨Nat.one_pos, le_rfl⟩, by omega, s, hs, ?_⟩
      apply (OpCall.answered_eq_none hs).mpr hfirst
    apply Unanswered.mono hle
    apply h.requestOp htaken _ rfl first hgivesUp
  · intro hlate
    constructor
    case warmup =>
      intro htaken
      apply warmup_iff htaken
      intro n hn
      apply hlate htaken n
      apply lt_trans hn
      decide
    case requestOp =>
      rintro htaken c hwkc n ⟨-, hn, s, hs, hnone⟩
      have hnot := (OpCall.answered_eq_none hs).mp hnone
      rw [hwkc] at hnot
      apply unanswered_of_not_tolerated htaken (hlate htaken n hn) hnot
    case warmup_timeout =>
      intro n hn htimeout received x
      rw [← Bool.not_eq_true, ethercatMasterSafeOpWarmup_fst]
      intro htolerated
      apply not_tolerated_of_noframe (wkc_of_not_takenAt htimeout)
      apply htolerated n hn
    case requestOp_timeout =>
      intro c hwkc hslave n hn hreached htimeout
      obtain ⟨s, hs⟩ := Option.ne_none_iff_exists'.mp hreached
      have hgivesUp : c.GivesUpAt n := by
        refine ⟨hslave, hn, s, hs, (OpCall.answered_eq_none hs).mpr ?_⟩
        rw [hwkc]
        apply not_tolerated_of_noframe (wkc_of_not_takenAt htimeout)
      apply hgivesUp.result

/-- Everything is answered, except that the first frame is lost. -/
def firstLost : StartupPhase where
  start := ⟨true, 0, GptDcSync.init⟩
  exchange n :=
    if n = 0 then ⟨true, ecNoframe, le_rfl, 0⟩ else ⟨true, 3, by decide, 0⟩

theorem not_tolerant_firstLost :
  ¬ firstLost.Tolerant
  := by
  intro h
  have htaken : ∀ n, firstLost.TakenAt n := by
    intro n
    refine ⟨rfl, ?_⟩
    rw [firstLost]
    dsimp only
    split
    · rfl
    · rfl
  have hfails := (h.warmup htaken (fun _ => ⟨0, 0, 0, 0, 0, 0⟩) Servos.unbound).mp (by decide)
  obtain ⟨m, -, hlacking⟩ := hfails
  have hnext := (hlacking (m + 1) (Nat.le_succ m) (by rw [zeroWkcLimit]; omega)).2
  rw [Lacking, firstLost] at hnext
  dsimp only at hnext
  rw [if_neg (Nat.succ_ne_zero m)] at hnext
  revert hnext
  decide

end StartupPhase

end EthercatMaster
