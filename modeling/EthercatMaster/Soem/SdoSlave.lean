import EthercatMaster.Soem.SdoServer

/-!
# Slaves with an SDO server

What a slave does at its sync managers if it has an SDO server and no frame is lost: it takes the
requests, and its answers come in time.  A request then brings the answer of the server.
-/

namespace EthercatMaster

open Bytes SdoServer

/-! ### The answers of a server -/

section Answers

variable {length service : UInt16} {Command : UInt8} {key : SdoKey} {b b' source : Bytes}
  {n i k : ℕ}

theorem coeAnswer_mbxtype :
  coeAnswer length service Command key posMbxtype = ectMbxtCoe
  := by
  rw [coeAnswer, set8_disjoint (by decide), set16_disjoint (by decide), set8_disjoint (by decide),
    set16_disjoint (by decide), set8_self]

theorem coeAnswer_canOpen :
  (coeAnswer length service Command key).uint16 posCanOpen = service <<< 12
  := by
  rw [coeAnswer, uint16_copy_disjoint (by decide), uint16_copy_disjoint (by decide),
    uint16_copy_disjoint (by decide), uint16_set16]

/-- What becomes of a message is told by its header. -/
theorem IsQuiet.congr (h : IsQuiet b) (hsame : ∀ i < 8, b' i = b i) :
  IsQuiet b'
  := by
  have htype : b' posMbxtype = b posMbxtype := hsame 5 (by decide)
  have hcan : b'.uint16 posCanOpen = b.uint16 posCanOpen := uint16_congr hsame
  obtain ⟨herror, hemergency, hfragment⟩ := h
  constructor
  case not_error => rw [isMbxerror, htype, ← herror, isMbxerror]
  case not_emergency =>
    rw [isEmergency, isCoe, htype, hcan, ← hemergency, isEmergency, isCoe]
  case not_fragment =>
    have hframeinfo : b'.uint16 posFrameinfo1 = b.uint16 posFrameinfo1 := hcan
    rw [isFragment, htype, hframeinfo, ← hfragment, isFragment]

/-- An answer is for the master, and fits into the mailbox. -/
structure IsAnswer (n : ℕ) (b : Bytes) : Prop where
  quiet : IsQuiet b
  zeroFrom : b.ZeroFrom n

theorem IsAnswer.copy (h : IsAnswer n b) (hi : 8 ≤ i) (hfits : i + k ≤ n) :
  IsAnswer n (b.copy i source k)
  := by
  refine ⟨h.quiet.congr ?_, h.zeroFrom.copy hfits⟩
  intro j hj
  apply copy_disjoint
  omega

/-- The answers of services other than emergencies. -/
theorem coeAnswer_isAnswer (hservice : service = ectCoesSdoreq ∨ service = ectCoesSdores)
    (hn : 16 ≤ n) :
  IsAnswer n (coeAnswer length service Command key)
  := by
  constructor
  case quiet =>
    constructor
    case not_error =>
      rw [isMbxerror, coeAnswer_mbxtype]
      rfl
    case not_emergency =>
      rw [isEmergency, coeAnswer_canOpen]
      apply decide_eq_false
      rcases hservice with rfl | rfl
      · exact fun h => absurd h.2 (by decide)
      · exact fun h => absurd h.2 (by decide)
    case not_fragment =>
      rw [isFragment, coeAnswer_mbxtype]
      rfl
  case zeroFrom =>
    have hzero : ecClearmbx.ZeroFrom n := fun _ _ => rfl
    rw [coeAnswer]
    refine (((((hzero.copy ?_).copy ?_).copy ?_).copy ?_).copy ?_).copy ?_
    all_goals
      simp only [posLength, posMbxtype, posCanOpen, posCommand, posIndex, posSubIndex]
      omega

theorem sdoConfirm_isAnswer (hn : 16 ≤ n) :
  IsAnswer n (sdoConfirm Command key)
  := coeAnswer_isAnswer (.inr rfl) hn

theorem sdoAbort_isAnswer {AbortCode : UInt32} (hn : 16 ≤ n) :
  IsAnswer n (sdoAbort AbortCode key)
  := (coeAnswer_isAnswer (.inl rfl) hn).copy (by decide) hn

theorem segmentAnswer_isAnswer {part : List UInt8} {last : Bool} {toggle : UInt8} (hn : 16 ≤ n)
    (hfits : posIndex + part.length ≤ n) :
  IsAnswer n (segmentAnswer part last toggle)
  := by
  rw [segmentAnswer]
  split
  · exact (coeAnswer_isAnswer (.inr rfl) hn).copy (by decide) hfits
  · exact (coeAnswer_isAnswer (.inr rfl) hn).copy (by decide) hfits

/-- A server answers each request. -/
theorem respond_isAnswer (rules : SdoRules) (hroom : 16 ≤ rules.mbx_rl) (request : Bytes)
    (s : SdoServer) :
  ∃ b, (s.respond rules request).mailbox = some b ∧ IsAnswer rules.mbx_rl b
  := by
  have hconfirm : ∀ Command key, IsAnswer rules.mbx_rl (sdoConfirm Command key) :=
    fun _ _ => sdoConfirm_isAnswer hroom
  have habort : ∀ AbortCode key, IsAnswer rules.mbx_rl (sdoAbort AbortCode key) :=
    fun _ _ => sdoAbort_isAnswer hroom
  have hfinish : ∀ (confirm : Bytes) (key : SdoKey) (value : List UInt8),
      IsAnswer rules.mbx_rl confirm →
      ∃ b, (s.finish rules confirm key value).mailbox = some b ∧ IsAnswer rules.mbx_rl b := by
    intro confirm key value h
    rw [SdoServer.finish]
    split
    · exact ⟨_, rfl, h⟩
    · exact ⟨_, rfl, habort _ _⟩
  rw [respond]
  split
  case h_1 =>
    rw [downloadSegment]
    split
    · dsimp only
      split
      · split
        · exact ⟨_, rfl, hconfirm _ _⟩
        · split
          · exact hfinish _ _ _ (hconfirm _ _)
          · exact ⟨_, rfl, habort _ _⟩
      · exact ⟨_, rfl, habort _ _⟩
    · exact ⟨_, rfl, habort _ _⟩
  case h_2 =>
    rw [initiateDownload]
    dsimp only
    split
    · exact hfinish _ _ _ (hconfirm _ _)
    · split
      · exact ⟨_, rfl, hconfirm _ _⟩
      · exact hfinish _ _ _ (hconfirm _ _)
  case h_3 =>
    rw [initiateUpload]
    dsimp only
    split
    case isTrue h =>
      refine ⟨_, rfl, (hconfirm _ _).copy (by decide) ?_⟩
      rw [posLdata]
      omega
    case isFalse h =>
      refine ⟨_, rfl, ((coeAnswer_isAnswer (.inr rfl) hroom).copy (by decide) hroom).copy
        (by decide) ?_⟩
      rw [posLdata1, List.length_take]
      omega
  case h_4 =>
    rw [uploadSegment]
    split
    · dsimp only
      split
      · split
        · refine ⟨_, rfl, segmentAnswer_isAnswer hroom ?_⟩
          rw [posIndex]
          omega
        · refine ⟨_, rfl, segmentAnswer_isAnswer hroom ?_⟩
          rw [posIndex, List.length_take]
          omega
      · exact ⟨_, rfl, habort _ _⟩
    · exact ⟨_, rfl, habort _ _⟩
  case h_5 => exact ⟨_, rfl, habort _ _⟩

end Answers

/-! ### A server at its mailboxes -/

section Serves

variable {σ : Type} (link : Link σ) (slave : MbxSlave)

/-- The status of the mailbox for requests, which is read with one byte. -/
def readSm0stat (s : σ) : (ℤ × Bytes) × σ :=
  readRegister link slave.configadr ectRegSm0stat 1 s

/-- The status of the mailbox for answers, which is read with the byte after it. -/
def readSm1stat (s : σ) : (ℤ × Bytes) × σ :=
  readRegister link slave.configadr ectRegSm1stat 2 s

/-- A timer leaves time until the mailbox for requests is seen to be empty. -/
def ShowsEmpty (timeout : ℤ) (s : σ) : Prop :=
  Shows link slave.configadr ectRegSm0stat 1 isEmpty (link.checks timeout s) s

/-- A timer leaves time until the mailbox for answers is seen to be full. -/
def ShowsFull (timeout : ℤ) (s : σ) : Prop :=
  Shows link slave.configadr ectRegSm1stat 2 isFull (link.checks timeout s) s

/-- A slave has an SDO server behind its mailboxes, and no frame is lost.  The states of the slave
tell the state of the server: reading the status of a mailbox does not change it, a request goes
to it when its mailbox is empty, and its answer can be fetched once the mailbox is full, which
takes it no longer than some time. -/
structure Serves (rules : SdoRules) (time : ℤ) (server : σ → SdoServer) : Prop where
  mbx_l : 16 ≤ slave.mbx_l.toNat ∧ slave.mbx_l.toNat ≤ ecMaxmbx
  mbx_rl : 16 ≤ rules.mbx_rl ∧ rules.mbx_rl ≤ ecMaxmbx
  length : slave.mbx_rl.toNat = rules.mbx_rl
  sm0stat : ∀ s, server (readSm0stat link slave s).2 = server s
  sm1stat : ∀ s, server (readSm1stat link slave s).2 = server s
  empties : ∀ s, ShowsEmpty link slave ecTimeouttxm s
  takes : ∀ s data, isEmpty.uncurry (readSm0stat link slave s).1 = true →
    data.length = slave.mbx_l.toNat →
    ∃ t, link.fpwr slave.configadr slave.mbx_wo data ecTimeoutret3 (readSm0stat link slave s).2
        = (1, t)
      ∧ server t = (server s).respond rules (.ofList data)
  answers : ∀ s timeout, (server s).mailbox ≠ none → time ≤ timeout →
    ShowsFull link slave timeout s
  silent : ∀ s, (server s).mailbox = none →
    isFull.uncurry (readSm1stat link slave s).1 = false
  fetched : ∀ s b, (server s).mailbox = some b →
    isFull.uncurry (readSm1stat link slave s).1 = true →
    ∃ reply t, link.fprd slave.configadr slave.mbx_ro slave.mbx_rl.toNat ecTimeoutret
        (readSm1stat link slave s).2 = ((1, reply), t)
      ∧ (∀ i < rules.mbx_rl, reply i = b i)
      ∧ server t = { server s with mailbox := none }

variable {link slave} {rules : SdoRules} {time Timeout : ℤ} {server : σ → SdoServer}
  {x : CoeState σ} {out b : Bytes} {objects : Objects} {transfer : SdoTransfer}

namespace Serves

/-- A request goes to the server. -/
theorem send (h : Serves link slave rules time server) (out : Bytes) (x : CoeState σ) :
  ∃ t, ecxMbxsend link slave out ecTimeouttxm x = (1, { x with link := t })
    ∧ server t = (server x.link).respond rules (.ofList (out.take slave.mbx_l.toNat))
  := by
  have hroom := h.mbx_l
  obtain ⟨s, left, hs, hempty, hpoll⟩ := poll_of_shows (I := fun s => server s = server x.link)
    (fun s hs => (h.sm0stat s).trans hs) (h.empties x.link) rfl ecClearmbx
  obtain ⟨t, hwrite, ht⟩ := h.takes s (out.take slave.mbx_l.toNat) hempty (length_take _ _)
  refine ⟨t, ?_, ht.trans (by rw [hs])⟩
  have hready : ecxMbxempty link slave ecTimeouttxm x.link
      = (true, (readSm0stat link slave s).2) := by
    rw [ecxMbxempty, hpoll]
    exact congrArg (·, _) hempty
  rw [ecxMbxsend]
  dsimp only
  rw [if_pos (by omega), hready]
  dsimp only
  rw [if_pos rfl, ecxFPWR, hwrite]

/-- A message that is seen in time is fetched. -/
theorem receive (h : Serves link slave rules time server)
    (hmailbox : (server x.link).mailbox = some b) (hquiet : IsQuiet b)
    (hshows : ShowsFull link slave Timeout x.link) :
  ∃ t, ecxMbxreceive link slave ecClearmbx Timeout x
      = ((1, ecClearmbx.copy 0 b rules.mbx_rl), { x with link := t })
    ∧ server t = { server x.link with mailbox := none }
  := by
  have hroom := h.mbx_rl
  have hlength := h.length
  obtain ⟨s, left, hs, hfull, hpoll⟩ := poll_of_shows (I := fun s => server s = server x.link)
    (fun s hs => (h.sm1stat s).trans hs) hshows rfl ecClearmbx
  obtain ⟨reply, t, hread, hreply, ht⟩ := h.fetched s b (by rw [hs, hmailbox]) hfull
  refine ⟨t, ?_, ht.trans (by rw [hs])⟩
  have hmbx : ecClearmbx.copy 0 reply slave.mbx_rl.toNat = ecClearmbx.copy 0 b rules.mbx_rl := by
    rw [hlength]
    exact copy_congr hreply
  have hmessage : IsQuiet (ecClearmbx.copy 0 b rules.mbx_rl) := by
    apply hquiet.congr
    intro i hi
    exact copy_zero_of_lt (by omega)
  rw [ecxMbxreceive]
  dsimp only
  rw [if_pos (by omega), hpoll]
  dsimp only [Function.uncurry] at hfull ⊢
  rw [if_pos hfull, mbxLoop]
  have hnext : ∀ r : MbxReceive σ, r.mbx = ecClearmbx → r.x.link = (readSm1stat link slave s).2 →
      r.read link slave = { r with
        wkc := 1, mbx := ecClearmbx.copy 0 b rules.mbx_rl, x := { r.x with link := t } } := by
    intro r hr hr'
    rw [MbxReceive.read, ecxFPRD, hr, hr', hread]
    dsimp only
    rw [if_pos Int.zero_lt_one, if_pos Int.zero_lt_one, hmbx, takeMessage_of_isQuiet hmessage]
  rw [hnext _ rfl rfl]
  dsimp only
  rw [dif_pos (.inl Int.zero_lt_one)]

/-- Without a message, nothing is received. -/
theorem receive_none (h : Serves link slave rules time server)
    (hmailbox : (server x.link).mailbox = none) (Timeout : ℤ) :
  ∃ t, (ecxMbxreceive link slave ecClearmbx Timeout x).2 = { x with link := t }
    ∧ server t = server x.link
  := by
  have hroom := h.mbx_rl
  have hlength := h.length
  obtain ⟨hs, hnot⟩ := poll_of_never (I := fun s => server s = server x.link)
    (fun s hs => (h.sm1stat s).trans hs) (fun s hs => h.silent s (by rw [hs, hmailbox]))
    (link.checks Timeout x.link) rfl ecClearmbx
  refine ⟨_, ?_, hs⟩
  rw [ecxMbxreceive]
  dsimp only
  rw [if_pos (by omega), if_neg (Bool.eq_false_iff.mp hnot)]

/-- A request brings the answer of the server. -/
theorem exchange (h : Serves link slave rules time server) (hTimeout : time ≤ Timeout)
    (hout : out.ZeroFrom slave.mbx_l.toNat)
    (hrespond : (server x.link).respond rules out = ⟨objects, transfer, some b⟩) :
  ∃ t, exchange link slave Timeout out x = ⟨1, some b, { x with link := t }⟩
    ∧ server t = ⟨objects, transfer, none⟩
  := by
  obtain ⟨s, hsend, hs⟩ := h.send out x
  rw [hout.ofList_take, hrespond] at hs
  obtain ⟨b', hb', hquiet, hzero⟩ := respond_isAnswer rules h.mbx_rl.1 out (server x.link)
  rw [hrespond] at hb'
  obtain rfl := Option.some.inj hb'
  obtain ⟨t, hreceive, ht⟩ := h.receive (x := { x with link := s }) (by rw [hs]) hquiet
    (h.answers s Timeout (by rw [hs]; exact Option.some_ne_none b) hTimeout)
  have hcopy : ecClearmbx.copy 0 b rules.mbx_rl = b := by
    funext i
    by_cases hi : i < rules.mbx_rl
    · exact copy_zero_of_lt hi
    · rw [copy_of_not_mem (by omega), hzero i (by omega)]
      rfl
  refine ⟨t, ?_, ht.trans (by rw [hs])⟩
  rw [EthercatMaster.exchange, hsend]
  dsimp only
  rw [if_pos Int.zero_lt_one, hreceive, hcopy]
  dsimp only
  rw [if_pos Int.zero_lt_one]

end Serves

variable (link slave server) in
/-- What the mailbox holds before a transfer: nothing, or a message which can be fetched at once and
is neither reported nor handled by the hook. -/
def Settled (x : CoeState σ) : Prop :=
  ∀ b, (server x.link).mailbox = some b → IsQuiet b ∧ ShowsFull link slave 0 x.link

theorem Settled.of_none (h : (server x.link).mailbox = none) :
  Settled link slave server x
  := by
  intro b hb
  rw [h] at hb
  cases hb

/-- The mailbox is emptied. -/
theorem Settled.emptyMbx (hx : Settled link slave server x)
    (h : Serves link slave rules time server) :
  ∃ t, emptyMbx link slave x = { x with link := t }
    ∧ server t = { server x.link with mailbox := none }
  := by
  cases hmailbox : (server x.link).mailbox with
  | none =>
      obtain ⟨t, hreceive, ht⟩ := h.receive_none hmailbox 0
      exact ⟨t, hreceive, by rw [ht, ← hmailbox]⟩
  | some b =>
      obtain ⟨hquiet, hshows⟩ := hx b hmailbox
      obtain ⟨t, hreceive, ht⟩ := h.receive hmailbox hquiet hshows
      exact ⟨t, by rw [EthercatMaster.emptyMbx, hreceive], ht⟩

/-- Before the first request, the objects of the slave and the errors are as they were. -/
theorem Settled.begins (hx : Settled link slave server x)
    (h : Serves link slave rules time server) :
  (server (EthercatMaster.emptyMbx link slave x).next.link).objects = (server x.link).objects
    ∧ (EthercatMaster.emptyMbx link slave x).next.errors = x.errors
  := by
  obtain ⟨t, hempty, ht⟩ := hx.emptyMbx h
  rw [hempty]
  refine ⟨?_, rfl⟩
  change (server t).objects = _
  rw [ht]

end Serves

/-! ### A slave that takes its time -/

/-- A slave with an SDO server: for how many reads of the status its answer is still under way. -/
structure SdoSlave (delay : ℕ) where
  server : SdoServer
  busy : ℕ
  busy_le : busy ≤ delay

namespace SdoSlave

variable {delay : ℕ} (rules : SdoRules) (slave : MbxSlave)

/-- The answer is in the mailbox. -/
def isReady (s : SdoSlave delay) : Bool :=
  s.server.mailbox.isSome && s.busy == 0

theorem isReady_iff {s : SdoSlave delay} :
  s.isReady = true ↔ s.server.mailbox ≠ none ∧ s.busy = 0
  := by
  simp [isReady, Option.isSome_iff_ne_none]

/-- The status of the mailbox for answers. -/
def sm1stat (s : SdoSlave delay) : Bytes :=
  .ofList [if s.isReady then 0x08 else 0x00, 0x00]

/-- The state after the status is read. -/
def look (s : SdoSlave delay) : SdoSlave delay where
  server := s.server
  busy := s.busy - 1
  busy_le := (Nat.sub_le _ _).trans s.busy_le

/-- The registers of the slave, with a timer that is checked once in a microsecond. -/
def link : Link (SdoSlave delay) where
  fprd ADP ADO _ _ s :=
    if ADP = slave.configadr then
      if ADO = ectRegSm1stat then ((1, s.sm1stat), s.look)
      else if ADO = slave.mbx_ro ∧ s.isReady then
        ((1, s.server.mailbox.getD ecClearmbx),
          { s with server := { s.server with mailbox := none } })
      else if ADO = slave.mbx_ro then ((0, ecClearmbx), s)
      else ((1, ecClearmbx), s)
    else ((0, ecClearmbx), s)
  fpwr ADP ADO data _ s :=
    if ADP = slave.configadr ∧ ADO = slave.mbx_wo ∧ data.length = slave.mbx_l.toNat then
      (1, ⟨s.server.respond rules (.ofList data), delay, le_rfl⟩)
    else (0, s)
  currentTime _ := (0, 0)
  checks timeout _ := timeout.toNat
  EOEhook := none

theorem link_sm1stat (s : SdoSlave delay) :
  (readSm1stat (link rules slave) slave s).2.server = s.server
    ∧ (readSm1stat (link rules slave) slave s).2.busy = s.busy - 1
    ∧ (isFull.uncurry (readSm1stat (link rules slave) slave s).1 = true ↔ s.isReady = true)
  := by
  have hread : (link rules slave).fprd slave.configadr ectRegSm1stat 2 ecTimeoutret s
      = ((1, s.sm1stat), s.look) := by
    rw [link]
    simp
  rw [readSm1stat, readRegister, ecxFPRD, hread]
  refine ⟨rfl, rfl, ?_⟩
  dsimp only [Function.uncurry]
  rw [isFull, mbxFull, if_pos Int.zero_lt_one, copy_zero_of_lt (by decide), sm1stat, ofList]
  cases s.isReady with
  | true => decide
  | false => decide

theorem link_shows {timer : ℕ} {s : SdoSlave delay} (hmailbox : s.server.mailbox ≠ none)
    (hbusy : s.busy ≤ timer) :
  Shows (link rules slave) slave.configadr ectRegSm1stat 2 isFull timer s
  := by
  obtain ⟨hserver, hnext, hfull⟩ := link_sm1stat rules slave s
  induction timer generalizing s with
  | zero =>
      apply hfull.mpr
      exact isReady_iff.mpr ⟨hmailbox, Nat.le_zero.mp hbusy⟩
  | succ timer ih =>
      by_cases hready : s.isReady = true
      · exact .inl (hfull.mpr hready)
      · right
        have hnext' := link_sm1stat rules slave (readSm1stat (link rules slave) slave s).2
        refine ih ?_ ?_ hnext'.1 hnext'.2.1 hnext'.2.2
        · change (readSm1stat (link rules slave) slave s).2.server.mailbox ≠ none
          rw [hserver]
          exact hmailbox
        · change (readSm1stat (link rules slave) slave s).2.busy ≤ timer
          omega

theorem link_fetch {s : SdoSlave delay} {length : ℕ} {timeout : ℤ}
    (hmbx_ro : slave.mbx_ro ≠ ectRegSm1stat) (h : s.isReady = true) :
  (link rules slave).fprd slave.configadr slave.mbx_ro length timeout s
    = ((1, s.server.mailbox.getD ecClearmbx),
      { s with server := { s.server with mailbox := none } })
  := by
  rw [link]
  simp only [if_true]
  rw [if_neg hmbx_ro, if_pos ⟨trivial, h⟩]

/-- A slave whose answers take no longer than some time. -/
theorem serves {time : ℤ} (hmbx_l : 16 ≤ slave.mbx_l.toNat ∧ slave.mbx_l.toNat ≤ ecMaxmbx)
    (hmbx_rl : 16 ≤ rules.mbx_rl ∧ rules.mbx_rl ≤ ecMaxmbx)
    (hlength : slave.mbx_rl.toNat = rules.mbx_rl) (hmbx_ro : slave.mbx_ro ≠ ectRegSm1stat)
    (hmbx_ro' : slave.mbx_ro ≠ ectRegSm0stat) (hdelay : delay ≤ time) :
  Serves (link rules slave) slave rules time (@SdoSlave.server delay)
  := by
  have hempty : ∀ s : SdoSlave delay, readSm0stat (link rules slave) slave s
      = ((1, ecClearmbx.copy 0 ecClearmbx 1), s) := by
    intro s
    have hread : (link rules slave).fprd slave.configadr ectRegSm0stat 1 ecTimeoutret s
        = ((1, ecClearmbx), s) := by
      rw [link]
      simp only [if_true]
      rw [if_neg (by decide), if_neg (fun h => hmbx_ro'.symm h.1), if_neg hmbx_ro'.symm]
    rw [readSm0stat, readRegister, ecxFPRD, hread]
    rfl
  constructor
  case mbx_l => exact hmbx_l
  case mbx_rl => exact hmbx_rl
  case length => exact hlength
  case sm0stat =>
    intro s
    rw [hempty]
  case sm1stat => exact fun s => (link_sm1stat rules slave s).1
  case empties =>
    intro s
    have hread : isEmpty.uncurry (readSm0stat (link rules slave) slave s).1 = true := by
      rw [hempty]
      dsimp only [Function.uncurry]
      decide
    rw [ShowsEmpty]
    cases (link rules slave).checks ecTimeouttxm s with
    | zero => exact hread
    | succ timer => exact .inl hread
  case takes =>
    intro s data _ hdata
    rw [hempty]
    refine ⟨_, if_pos ⟨rfl, rfl, hdata⟩, rfl⟩
  case answers =>
    intro s timeout hmailbox htimeout
    apply link_shows rules slave hmailbox
    have hbusy := s.busy_le
    change s.busy ≤ timeout.toNat
    omega
  case silent =>
    intro s hmailbox
    rw [← Bool.not_eq_true, (link_sm1stat rules slave s).2.2, isReady_iff]
    exact fun h => h.1 hmailbox
  case fetched =>
    intro s b hmailbox hfull
    obtain ⟨hserver, hbusy, hready⟩ := link_sm1stat rules slave s
    generalize (readSm1stat (link rules slave) slave s).2 = t at hserver hbusy ⊢
    have hready' : t.isReady = true := by
      rw [isReady_iff, hserver, hbusy]
      obtain ⟨hsome, hnone⟩ := isReady_iff.mp (hready.mp hfull)
      exact ⟨hsome, by rw [hnone]⟩
    refine ⟨b, { t with server := { t.server with mailbox := none } }, ?_, fun _ _ => rfl, ?_⟩
    · rw [link_fetch rules slave hmbx_ro hready', hserver, hmailbox]
      rfl
    · dsimp only
      rw [hserver]

end SdoSlave

end EthercatMaster
