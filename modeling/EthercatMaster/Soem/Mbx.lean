import EthercatMaster.Library.Bytes
import EthercatMaster.Soem.ErrorList

/-!
# Mailboxes

`ecx_mbxsend` and `ecx_mbxreceive` pass messages through the mailboxes of a slave, whose sync
managers tell whether they are full.  A mailbox error or an emergency is reported, and a message
whose frame was lost is asked for again.
-/

namespace EthercatMaster

/-- `EC_MAXMBX`. -/
def ecMaxmbx : ℕ := 1486

/-- `EC_TIMEOUT`. -/
def ecTimeout : ℤ := -5

/-- `EC_TIMEOUTRET`. -/
def ecTimeoutret : ℤ := 2000

/-- `EC_TIMEOUTRET3`. -/
def ecTimeoutret3 : ℤ := ecTimeoutret * 3

/-- `EC_TIMEOUTTXM`. -/
def ecTimeouttxm : ℤ := 20000

/-- `ECT_REG_SM0STAT`. -/
def ectRegSm0stat : UInt16 := 0x0805

/-- `ECT_REG_SM1STAT`. -/
def ectRegSm1stat : UInt16 := 0x080d

/-- `ECT_REG_SM1CONTR`. -/
def ectRegSm1contr : UInt16 := 0x080f

/-- `ECT_MBXT_EOE`. -/
def ectMbxtEoe : UInt8 := 0x02

/-- `ECT_MBXT_COE`. -/
def ectMbxtCoe : UInt8 := 0x03

/-- `EOE_FRAG_DATA`. -/
def eoeFragData : UInt16 := 0

/-! ### Transactions with a slave -/

/-- What goes on between the master and its slaves: the working counter of a transaction and the
data of its reply, `osal_current_time`, how many checks of a timer that is started now come before
it has expired, and the hook for EoE.  A timer that has expired stays so. -/
structure Link (σ : Type) where
  fprd (ADP ADO : UInt16) (length : ℕ) (timeout : ℤ) : σ → (ℤ × Bytes) × σ
  fpwr (ADP ADO : UInt16) (data : List UInt8) (timeout : ℤ) : σ → ℤ × σ
  currentTime : σ → UInt32 × UInt32
  checks (timeout : ℤ) : σ → ℕ
  EOEhook : Option (Bytes → σ → ℤ × σ)

/-- The fields of a slave for its mailboxes, and its number. -/
structure MbxSlave where
  Slave : UInt16
  configadr : UInt16
  mbx_l : UInt16
  mbx_wo : UInt16
  mbx_rl : UInt16
  mbx_ro : UInt16

/-- What the functions on the mailbox of a slave use and change: the slave itself, the counter of
the mailbox, and the list of errors. -/
structure CoeState (σ : Type) where
  link : σ
  mbx_cnt : UInt8
  errors : ErrorList

/-- `ec_nextmbxcnt`. -/
def ecNextmbxcnt (cnt : UInt8) : UInt8 :=
  if 7 < cnt + 1 then 1 else cnt + 1

/-- `ec_clearmbx`. -/
def ecClearmbx : Bytes := fun _ => 0

/-- The bit of a status that tells that a mailbox is full. -/
def mbxFull (SMstat : Bytes) : Bool :=
  SMstat 0 &&& 0x08 ≠ 0

section Link

variable {σ : Type} (link : Link σ)

/-- `ecx_FPRD`: the working counter, and the data. -/
def ecxFPRD (ADP ADO : UInt16) (length : ℕ) (data : Bytes) (timeout : ℤ) (s : σ) :
    (ℤ × Bytes) × σ :=
  let ((wkc, reply), s) := link.fprd ADP ADO length timeout s
  ((wkc, if 0 < wkc then data.copy 0 reply length else data), s)

/-- `ecx_FPWR`. -/
def ecxFPWR (ADP ADO : UInt16) (length : ℕ) (data : Bytes) (timeout : ℤ) (s : σ) : ℤ × σ :=
  link.fpwr ADP ADO (data.take length) timeout s

/-! ### Waiting for a register -/

/-- How waiting for a register ends: the last read, and the checks that are left of the timer. -/
structure Polled (σ : Type) where
  wkc : ℤ
  data : Bytes
  timer : ℕ
  s : σ

/-- A register is read into a variable, which may be cleared before, until it is as expected or the
timer has expired. -/
def poll (ADP ADO : UInt16) (length : ℕ) (clear : Bool) (done : ℤ → Bytes → Bool) :
    ℕ → Bytes → σ → Polled σ
  | 0, data, s =>
      let ((wkc, data), s) := ecxFPRD link ADP ADO length (if clear then ecClearmbx else data)
        ecTimeoutret s
      ⟨wkc, data, 0, s⟩
  | timer + 1, data, s =>
      let ((wkc, data), s) := ecxFPRD link ADP ADO length (if clear then ecClearmbx else data)
        ecTimeoutret s
      if done wkc data then ⟨wkc, data, timer + 1, s⟩
      else poll ADP ADO length clear done timer data s

theorem poll_timer_le {ADP ADO : UInt16} {length : ℕ} {clear : Bool} {done : ℤ → Bytes → Bool}
    (timer : ℕ) (data : Bytes) (s : σ) :
  (poll link ADP ADO length clear done timer data s).timer ≤ timer
  := by
  induction timer generalizing data s with
  | zero => exact Nat.le_refl 0
  | succ timer ih =>
      rw [poll]
      generalize ecxFPRD link ADP ADO length _ ecTimeoutret s = r
      dsimp only
      split
      case isTrue => exact Nat.le_refl _
      case isFalse => exact (ih _ _).trans (Nat.le_succ timer)

/-! ### Sending -/

/-- The status of the mailbox for requests says that it is empty. -/
def isEmpty (wkc : ℤ) (SMstat : Bytes) : Bool :=
  0 < wkc ∧ !mbxFull SMstat

/-- The status of the mailbox for answers says that it is full. -/
def isFull (wkc : ℤ) (SMstat : Bytes) : Bool :=
  0 < wkc ∧ mbxFull SMstat

variable (slave : MbxSlave)

/-- `ecx_mbxempty`. -/
def ecxMbxempty (timeout : ℤ) (s : σ) : Bool × σ :=
  let r := poll link slave.configadr ectRegSm0stat 1 true isEmpty (link.checks timeout s)
    ecClearmbx s
  (isEmpty r.wkc r.data, r.s)

/-- `ecx_mbxsend`: the working counter. -/
def ecxMbxsend (mbx : Bytes) (timeout : ℤ) (x : CoeState σ) : ℤ × CoeState σ :=
  let mbxl := slave.mbx_l.toNat
  if 0 < mbxl ∧ mbxl ≤ ecMaxmbx then
    let (empty, s) := ecxMbxempty link slave timeout x.link
    if empty then
      let (wkc, s) := ecxFPWR link slave.configadr slave.mbx_wo mbxl mbx ecTimeoutret3 s
      (wkc, { x with link := s })
    else (0, { x with link := s })
  else (0, x)

/-! ### Receiving -/

/-- The positions of `MbxHeader.mbxtype`, and of fields of `ec_mbxerrort`, `ec_emcyt` and
`ec_EOEt`. -/
def posMbxtype : ℕ := 5
def posDetail : ℕ := 8
def posCanOpen : ℕ := 6
def posErrorCode : ℕ := 8
def posErrorReg : ℕ := 10
def posBData : ℕ := 11
def posW1 : ℕ := 12
def posW2 : ℕ := 14
def posFrameinfo1 : ℕ := 6

/-- A mailbox error. -/
def isMbxerror (mbx : Bytes) : Bool :=
  mbx posMbxtype &&& 0x0f = 0

/-- A message of CoE. -/
def isCoe (mbx : Bytes) : Bool :=
  mbx posMbxtype &&& 0x0f = ectMbxtCoe

/-- An emergency of CoE. -/
def isEmergency (mbx : Bytes) : Bool :=
  isCoe mbx ∧ mbx.uint16 posCanOpen >>> 12 = 0x01

/-- A fragment of EoE, which goes to the hook if there is one. -/
def isFragment (mbx : Bytes) : Bool :=
  mbx posMbxtype &&& 0x0f = ectMbxtEoe ∧ mbx.uint16 posFrameinfo1 &&& 0x0f = eoeFragData

/-- A message has been received: an error or an emergency is reported, and a fragment of EoE may be
handled by the hook. -/
def takeMessage (wkc : ℤ) (mbx : Bytes) (x : CoeState σ) : ℤ × CoeState σ :=
  let Time := link.currentTime x.link
  if isMbxerror mbx then
    let errors := x.errors.mbxerror Time slave.Slave (mbx.uint16 posDetail)
    (0, { x with errors := errors })
  else if isCoe mbx then
    if isEmergency mbx then
      let errors := x.errors.mbxemergencyerror Time slave.Slave (mbx.uint16 posErrorCode)
        (mbx posErrorReg).toUInt16 (mbx posBData) (mbx.uint16 posW1) (mbx.uint16 posW2)
      (0, { x with errors := errors })
    else (wkc, x)
  else if isFragment mbx then
    match link.EOEhook with
    | some hook =>
        let (handled, s) := hook mbx x.link
        (if 0 < handled then 0 else wkc, { x with link := s })
    | none => (wkc, x)
  else (wkc, x)

/-- The variables of the loop of `ecx_mbxreceive`; the timer is given by the checks left of it. -/
structure MbxReceive (σ : Type) where
  wkc : ℤ
  mbx : Bytes
  SMstat : Bytes
  timer : ℕ
  x : CoeState σ

/-- The message is asked for again: the bit for that is toggled, and the slave answers with the same
bit of its own. -/
def MbxReceive.repeatRequest (r : MbxReceive σ) : MbxReceive σ :=
  let SMstat := r.SMstat.set8 1 (r.SMstat 1 ^^^ 0x02)
  let (_, s) := ecxFPWR link slave.configadr ectRegSm1stat 2 SMstat ecTimeoutret r.x.link
  let acknowledged := poll link slave.configadr ectRegSm1contr 1 false
    (fun wkc2 SMcontr => 0 < wkc2 ∧ SMcontr 0 &&& 0x02 = SMstat 1 &&& 0x02) r.timer ecClearmbx s
  let available := poll link slave.configadr ectRegSm1stat 2 false isFull acknowledged.timer SMstat
    acknowledged.s
  { r with
    SMstat := available.data
    timer := available.timer
    x := { r.x with link := available.s } }

/-- The mailbox is read. -/
def MbxReceive.read (r : MbxReceive σ) : MbxReceive σ :=
  let ((wkc, mbx), s) := ecxFPRD link slave.configadr slave.mbx_ro slave.mbx_rl.toNat r.mbx
    ecTimeoutret r.x.link
  let r := { r with wkc := wkc, mbx := mbx, x := { r.x with link := s } }
  if 0 < wkc then
    let (wkc, x) := takeMessage link slave wkc mbx r.x
    { r with wkc := wkc, x := x }
  else r.repeatRequest link slave

theorem MbxReceive.read_timer_le (r : MbxReceive σ) :
  (r.read link slave).timer ≤ r.timer
  := by
  rw [read]
  dsimp only
  split
  case isTrue => exact Nat.le_refl _
  case isFalse =>
    rw [repeatRequest]
    exact (poll_timer_le link _ _ _).trans (poll_timer_le link _ _ _)

/-- The mailbox is read until there is a message in it, or the timer has expired. -/
def mbxLoop (r : MbxReceive σ) : MbxReceive σ :=
  let next := r.read link slave
  if _h : 0 < next.wkc ∨ next.timer = 0 then next
  else mbxLoop { next with timer := next.timer - 1 }
termination_by r.timer
decreasing_by
  have hle := r.read_timer_le link slave
  have hpos := (not_or.mp _h).2
  change (r.read link slave).timer ≠ 0 at hpos
  omega

/-- `ecx_mbxreceive`: the working counter, and the message. -/
def ecxMbxreceive (mbx : Bytes) (timeout : ℤ) (x : CoeState σ) : (ℤ × Bytes) × CoeState σ :=
  let mbxl := slave.mbx_rl.toNat
  if 0 < mbxl ∧ mbxl ≤ ecMaxmbx then
    let r := poll link slave.configadr ectRegSm1stat 2 true isFull (link.checks timeout x.link)
      ecClearmbx x.link
    if isFull r.wkc r.data then
      let r := mbxLoop link slave ⟨r.wkc, mbx, r.data, r.timer, { x with link := r.s }⟩
      ((r.wkc, r.mbx), r.x)
    else ((if 0 < r.wkc then ecTimeout else r.wkc, mbx), { x with link := r.s })
  else ((0, mbx), x)

/-! ### What is received -/

variable {link slave}

theorem takeMessage_message {wkc : ℤ} {mbx : Bytes} {x : CoeState σ}
    (h : 0 < (takeMessage link slave wkc mbx x).1) :
  isMbxerror mbx = false ∧ isEmergency mbx = false
  := by
  rw [takeMessage] at h
  split at h
  case isTrue => exact absurd h (Int.lt_irrefl 0)
  case isFalse herror =>
    refine ⟨Bool.eq_false_iff.mpr herror, ?_⟩
    rw [Bool.eq_false_iff]
    intro hemergency
    have hcoe : isCoe mbx = true := (of_decide_eq_true hemergency).1
    rw [if_pos hcoe, if_pos hemergency] at h
    exact Int.lt_irrefl 0 h

theorem mbxLoop_message (r : MbxReceive σ) (h : 0 < (mbxLoop link slave r).wkc) :
  isMbxerror (mbxLoop link slave r).mbx = false ∧ isEmergency (mbxLoop link slave r).mbx = false
  := by
  induction r using mbxLoop.induct link slave with
  | case1 r next hends =>
      rw [mbxLoop, dif_pos hends] at h ⊢
      change 0 < (r.read link slave).wkc at h
      rw [MbxReceive.read] at h ⊢
      dsimp only at h ⊢
      split at h
      case isTrue hwkc =>
        rw [if_pos hwkc]
        exact takeMessage_message h
      case isFalse hwkc => exact absurd h hwkc
  | case2 r next hmore ih =>
      rw [mbxLoop, dif_neg hmore] at h ⊢
      exact ih h

/-- What is returned as a message is neither a mailbox error nor an emergency, whatever the slave
sends and whichever frames are lost: those are reported. -/
theorem ecxMbxreceive_message (mbx : Bytes) (timeout : ℤ) (x : CoeState σ)
    (h : 0 < (ecxMbxreceive link slave mbx timeout x).1.1) :
  isMbxerror (ecxMbxreceive link slave mbx timeout x).1.2 = false
    ∧ isEmergency (ecxMbxreceive link slave mbx timeout x).1.2 = false
  := by
  rw [ecxMbxreceive] at h ⊢
  dsimp only at h ⊢
  split at h
  case isTrue hroom =>
    rw [if_pos hroom]
    split at h
    case isTrue hfull =>
      rw [if_pos hfull]
      exact mbxLoop_message _ h
    case isFalse =>
      -- the working counter is that of a status, or `EC_TIMEOUT`
      dsimp only at h
      split at h
      case isTrue => exact absurd h (by decide)
      case isFalse hwkc => exact absurd h hwkc
  case isFalse => exact absurd h (Int.lt_irrefl 0)

/-- A message that is neither reported nor handled by the hook. -/
structure IsQuiet (mbx : Bytes) : Prop where
  not_error : isMbxerror mbx = false
  not_emergency : isEmergency mbx = false
  not_fragment : isFragment mbx = false

theorem takeMessage_of_isQuiet {wkc : ℤ} {mbx : Bytes} {x : CoeState σ} (h : IsQuiet mbx) :
  takeMessage link slave wkc mbx x = (wkc, x)
  := by
  rw [takeMessage, h.not_error, h.not_emergency, h.not_fragment]
  simp

/-! ### What a register shows -/

variable (link)

/-- A register is read into a variable that is zero. -/
def readRegister (ADP ADO : UInt16) (length : ℕ) (s : σ) : (ℤ × Bytes) × σ :=
  ecxFPRD link ADP ADO length ecClearmbx ecTimeoutret s

/-- A register is as expected in one of the reads that a timer leaves time for. -/
def Shows (ADP ADO : UInt16) (length : ℕ) (done : ℤ → Bytes → Bool) : ℕ → σ → Prop
  | 0, s => done.uncurry (readRegister link ADP ADO length s).1 = true
  | timer + 1, s => done.uncurry (readRegister link ADP ADO length s).1 = true
      ∨ Shows ADP ADO length done timer (readRegister link ADP ADO length s).2

section Poll

variable {link} {ADP ADO : UInt16} {length timer : ℕ} {done : ℤ → Bytes → Bool} {s : σ}
  {I : σ → Prop} (hI : ∀ s, I s → I (readRegister link ADP ADO length s).2)

include hI

/-- Waiting for a register that shows what is expected ends with that. -/
theorem poll_of_shows (h : Shows link ADP ADO length done timer s) (hs : I s) (data : Bytes) :
  ∃ t left, I t ∧ done.uncurry (readRegister link ADP ADO length t).1 = true
    ∧ poll link ADP ADO length true done timer data s
      = ⟨(readRegister link ADP ADO length t).1.1, (readRegister link ADP ADO length t).1.2, left,
        (readRegister link ADP ADO length t).2⟩
  := by
  induction timer generalizing data s with
  | zero => exact ⟨s, 0, hs, h, rfl⟩
  | succ timer ih =>
      by_cases hdone : done.uncurry (readRegister link ADP ADO length s).1 = true
      · refine ⟨s, timer + 1, hs, hdone, ?_⟩
        rw [poll]
        exact if_pos hdone
      · obtain ⟨t, left, ht, hread, hpoll⟩ := ih (h.resolve_left hdone) (hI s hs) _
        refine ⟨t, left, ht, hread, ?_⟩
        rw [poll, ← hpoll]
        exact if_neg hdone

/-- Waiting for a register that never shows what is expected ends without. -/
theorem poll_of_never (h : ∀ s, I s → done.uncurry (readRegister link ADP ADO length s).1 = false)
    (timer : ℕ) (hs : I s) (data : Bytes) :
  I (poll link ADP ADO length true done timer data s).s
    ∧ done (poll link ADP ADO length true done timer data s).wkc
      (poll link ADP ADO length true done timer data s).data = false
  := by
  induction timer generalizing data s with
  | zero => exact ⟨hI s hs, h s hs⟩
  | succ timer ih =>
      have hpoll : poll link ADP ADO length true done (timer + 1) data s
          = poll link ADP ADO length true done timer (readRegister link ADP ADO length s).1.2
            (readRegister link ADP ADO length s).2 := by
        rw [poll]
        exact if_neg (Bool.eq_false_iff.mp (h s hs))
      rw [hpoll]
      exact ih (hI s hs) _

end Poll

end Link

end EthercatMaster
