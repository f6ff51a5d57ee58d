import EthercatMaster.Soem.Receive

/-!
# Transactions

A transaction sends one frame and waits for its reply.  When none comes before the timeout,
`ecx_srconfirm` returns 0, which is also the working counter of a reply that no slave has answered.
Its callers then look into the receive buffer, which has what an earlier transaction left there.
-/

namespace EthercatMaster

/-! ### Sending and waiting -/

/-- What happens around a transaction: whether its frame is sent, and the waits until the timer
expires. -/
structure Transaction where
  sendOk : Bool
  waits : List Wait

/-- The working counter that `ecx_srconfirm` reads from a reply: that of the last datagram sent. -/
def confirmedWkc (idx : ℕ) (p : Port) : ℤ :=
  let len := p.txbuflength idx - ethercatFrameHeader
  if 2 ≤ len then ((p.rxbuf idx).uint16 (len - 2)).toNat else 1

/-- The loop of `ecx_srconfirm`. -/
def srconfirmLoop (idx : ℕ) : List Wait → Port → ℤ × Port
  | [], p => (0, p)
  | wait :: waits, p =>
      if p.rxbufstat idx = .rcvd then (confirmedWkc idx p, p)
      else srconfirmLoop idx waits (p.wait idx wait).2

/-- `ecx_srconfirm`. -/
def ecxSrconfirm (idx : ℕ) (t : Transaction) (p : Port) : ℤ × Port :=
  srconfirmLoop idx t.waits (ecxOutframe idx t.sendOk p).2

/-! ### Replies -/

/-- The frame that is taken from the queue in a wait. -/
def Port.frameTaken (wait : Wait) (p : Port) : Option (List UInt8) :=
  (takeFrame (wait.yields.map arrived) (p.arrive wait.arrivals).frames).1

/-- The frame that is received as the reply for an index. -/
def replyTo (idx : ℕ) : List Wait → Port → Option (List UInt8)
  | [], _ => none
  | wait :: waits, p =>
      if p.rxbufstat idx = .rcvd then none
      else if (p.wait idx wait).2.rxbufstat idx = .rcvd then p.frameTaken wait
      else replyTo idx waits (p.wait idx wait).2

/-- The reply received in a transaction. -/
def Transaction.reply (idx : ℕ) (t : Transaction) (p : Port) : Option (List UInt8) :=
  replyTo idx t.waits (ecxOutframe idx t.sendOk p).2

/-- A receive buffer after a transaction: the payload of the reply over what was there. -/
def withReply (buffer : Bytes) (reply : Option (List UInt8)) : Bytes :=
  reply.elim buffer fun frame => buffer.copy 0 (receivedPayload frame) (payloadLength frame)

/-- A wait either receives the reply for an index, or leaves its buffer as it is. -/
theorem Port.wait_reply {p : Port} {idx : ℕ} (h : p.rxbufstat idx ≠ .rcvd) (wait : Wait) :
  ((p.wait idx wait).2.rxbufstat idx = .rcvd
      ∧ ∃ frame, p.frameTaken wait = some frame
        ∧ (p.wait idx wait).2.rxbuf idx = withReply (p.rxbuf idx) (some frame))
    ∨ ((p.wait idx wait).2.rxbufstat idx ≠ .rcvd
      ∧ (p.wait idx wait).2.rxbuf idx = p.rxbuf idx)
  := by
  obtain ⟨rxQueue, harrive⟩ := p.arrive_eq wait.arrivals
  have hrxbuf : (p.arrive wait.arrivals).rxbuf = p.rxbuf := by rw [harrive]
  have hne : (p.arrive wait.arrivals).rxbufstat idx ≠ .rcvd := by
    rw [harrive]
    apply h
  obtain ⟨rxQueue', -, heq⟩ := ecxWaitinframe_eq hne wait.yields
  rw [Port.wait, heq, Port.frameTaken]
  cases hframe : (takeFrame (wait.yields.map arrived) (p.arrive wait.arrivals).frames).1 with
  | none =>
      right
      exact ⟨hne, congrFun hrxbuf idx⟩
  | some frame =>
      by_cases haccepts : (p.arrive wait.arrivals).Accepts frame idx
      · left
        rw [Option.elim_some, Port.deliver_of_accepts haccepts]
        refine ⟨Function.update_self .., frame, rfl, ?_⟩
        exact (Function.update_self ..).trans (by rw [hrxbuf]; rfl)
      · right
        rw [Option.elim_some]
        by_cases hother : ∃ idx', (p.arrive wait.arrivals).Accepts frame idx'
        · obtain ⟨idx', hother⟩ := hother
          have hidx : idx ≠ idx' := by
            rintro rfl
            exact haccepts hother
          rw [Port.deliver_of_accepts hother]
          constructor
          · intro hrcvd
            apply hne
            exact (Function.update_of_ne hidx ..).symm.trans hrcvd
          · exact (Function.update_of_ne hidx ..).trans (congrFun hrxbuf idx)
        · rw [Port.deliver_of_not_accepts (not_exists.mp hother)]
          exact ⟨hne, congrFun hrxbuf idx⟩

/-- A wait does not touch the transmit buffers. -/
theorem Port.wait_txbuflength (idx : ℕ) (wait : Wait) (p : Port) :
  (p.wait idx wait).2.txbuflength = p.txbuflength
  := by
  obtain ⟨rxQueue, harrive⟩ := p.arrive_eq wait.arrivals
  have htxbuflength : (p.arrive wait.arrivals).txbuflength = p.txbuflength := by rw [harrive]
  rw [Port.wait, ← htxbuflength]
  generalize p.arrive wait.arrivals = q
  by_cases hrcvd : q.rxbufstat idx = .rcvd
  · rw [ecxWaitinframe, if_pos hrcvd]
  · obtain ⟨rxQueue', -, heq⟩ := ecxWaitinframe_eq hrcvd wait.yields
    rw [heq]
    cases (takeFrame (wait.yields.map arrived) q.frames).1 with
    | none => rfl
    | some frame =>
        rw [Option.elim_some]
        by_cases haccepts : ∃ idx', q.Accepts frame idx'
        · obtain ⟨idx', haccepts⟩ := haccepts
          rw [Port.deliver_of_accepts haccepts]
          rfl
        · rw [Port.deliver_of_not_accepts (not_exists.mp haccepts)]
          rfl

theorem confirmedWkc_nonneg (idx : ℕ) (p : Port) :
  0 ≤ confirmedWkc idx p
  := by
  rw [confirmedWkc]
  split
  · apply Int.natCast_nonneg
  · decide

/-- Once the reply is there, the loop leaves the port as it is. -/
theorem srconfirmLoop_of_rcvd {p : Port} {idx : ℕ} (h : p.rxbufstat idx = .rcvd)
    (waits : List Wait) :
  (srconfirmLoop idx waits p).2 = p
    ∧ ((srconfirmLoop idx waits p).1 = 0 ∨ (srconfirmLoop idx waits p).1 = confirmedWkc idx p)
  := by
  cases waits with
  | nil => exact ⟨rfl, Or.inl rfl⟩
  | cons wait waits =>
      rw [srconfirmLoop, if_pos h]
      exact ⟨rfl, Or.inr rfl⟩

/-- The loop puts the reply into the receive buffer.  It never reports that there was none. -/
theorem srconfirmLoop_spec {p : Port} {idx : ℕ} (h : p.rxbufstat idx ≠ .rcvd)
    (waits : List Wait) :
  (srconfirmLoop idx waits p).2.rxbuf idx = withReply (p.rxbuf idx) (replyTo idx waits p)
    ∧ (srconfirmLoop idx waits p).2.txbuflength = p.txbuflength
    ∧ ((srconfirmLoop idx waits p).1 = 0
      ∨ (srconfirmLoop idx waits p).1 = confirmedWkc idx (srconfirmLoop idx waits p).2)
    ∧ (replyTo idx waits p = none → (srconfirmLoop idx waits p).1 = 0)
  := by
  induction waits generalizing p with
  | nil => exact ⟨rfl, rfl, Or.inl rfl, fun _ => rfl⟩
  | cons wait waits ih =>
      rw [srconfirmLoop, if_neg h, replyTo, if_neg h, ← p.wait_txbuflength idx wait]
      rcases Port.wait_reply h wait with ⟨hrcvd, frame, hframe, hrxbuf⟩ | ⟨hnot, hrxbuf⟩
      · obtain ⟨hport, hwkc⟩ := srconfirmLoop_of_rcvd hrcvd waits
        rw [if_pos hrcvd, hframe, hport]
        refine ⟨hrxbuf, rfl, hwkc, ?_⟩
        intro hnone
        cases hnone
      · rw [if_neg hnot, ← hrxbuf]
        apply ih hnot

/-- What `ecx_srconfirm` leaves in the receive buffer, and what it returns. -/
theorem ecxSrconfirm_spec (idx : ℕ) (t : Transaction) (p : Port) :
  (ecxSrconfirm idx t p).2.rxbuf idx = withReply (p.rxbuf idx) (t.reply idx p)
    ∧ (ecxSrconfirm idx t p).2.txbuflength = p.txbuflength
    ∧ ((ecxSrconfirm idx t p).1 = 0
      ∨ (ecxSrconfirm idx t p).1 = confirmedWkc idx (ecxSrconfirm idx t p).2)
    ∧ (t.reply idx p = none → (ecxSrconfirm idx t p).1 = 0)
  := by
  obtain ⟨txbuf, hout⟩ := ecxOutframe_eq idx p
  have hnot : (ecxOutframe idx t.sendOk p).2.rxbufstat idx ≠ .rcvd := by
    rw [hout]
    dsimp only
    rw [Function.update_self]
    decide
  have hrxbuf : (ecxOutframe idx t.sendOk p).2.rxbuf = p.rxbuf := by rw [hout]
  have htxbuflength : (ecxOutframe idx t.sendOk p).2.txbuflength = p.txbuflength := by rw [hout]
  have hspec := srconfirmLoop_spec hnot t.waits
  rw [hrxbuf, htxbuflength] at hspec
  apply hspec

/-- `ecx_srconfirm` never returns a negative value. -/
theorem ecxSrconfirm_nonneg (idx : ℕ) (t : Transaction) (p : Port) :
  0 ≤ (ecxSrconfirm idx t p).1
  := by
  obtain ⟨-, -, hwkc, -⟩ := ecxSrconfirm_spec idx t p
  rcases hwkc with hwkc | hwkc
  · rw [hwkc]
  · rw [hwkc]
    apply confirmedWkc_nonneg

end EthercatMaster
