import EthercatMaster.Library.Machine
import EthercatMaster.Soem.Confirm

/-!
# Accesses to the receive buffers

A frame that is received goes through four buffers: the buffer of the interface, a slot of the
queue, `tempinbuf` and a receive buffer.  Each function on its way checks a length.  Here every
copy and every read on the way is recorded, with the size of what it may touch: the destination of
a copy, the part received of a frame whose header is read, and the payload of the reply in which
the working counter is looked up.
-/

namespace EthercatMaster

/-- An access to `length` bytes from `start` on, of `size` bytes. -/
structure Access where
  size : ℕ
  start : ℕ
  length : ℕ
deriving DecidableEq, Repr

/-- The access touches nothing else. -/
def Access.InBounds (a : Access) : Prop :=
  a.start + a.length ≤ a.size

instance (a : Access) : Decidable a.InBounds :=
  inferInstanceAs (Decidable (_ ≤ _))

/-! ### The accesses of the driver -/

/-- Those of `ethercat_frame_is_for_master`. -/
def headerAccesses (frame : NetifFrame) : List Access :=
  match ethercatFrameBuffer frame with
  | none => []
  | some buffer =>
      if frame.length < ethercatFrameHeader then []
      else if frame.port ≠ 0 ∧ frame.port &&& ethercatMasterPortMask = 0 then []
      else
        ⟨frame.length, 12, 1⟩ ::
          if buffer 12 = ethercatEthertypeHigh then [⟨frame.length, 13, 1⟩] else []

/-- Those of `ethercat_rx_queue_push`. -/
def pushAccesses (pBuffer : Option Bytes) (length : ℕ) : List Access :=
  match pBuffer with
  | none => []
  | some _ => if ethercatRxFrameBytes < length then [] else [⟨ethercatRxFrameBytes, 0, length⟩]

/-- Those of `ethercat_netif_callback`. -/
def callbackAccesses (pArgs : Option CallbackArgs) : List Access :=
  match pArgs with
  | none => []
  | some args =>
      if args.event ≠ .receiveEtherFrame then []
      else
        match args.pFramePacket with
        | none => []
        | some frame =>
            headerAccesses frame
              ++ if ethercatFrameIsForMaster frame then
                  pushAccesses (ethercatFrameBuffer frame) frame.length
                else []

/-- Those of `eth_receive`, with what the interface does during its yields. -/
def receiveAccesses (yields : List Arrivals) (p : Port) : List Access :=
  match ethercatRxQueuePop p with
  | some (frame, _) => [⟨ecBufsize, 0, frame.length⟩]
  | none =>
      match yields with
      | [] => []
      | arrivals :: yields =>
          arrivals.flatMap callbackAccesses ++ receiveAccesses yields (p.arrive arrivals)

/-- Those of the part of `ecx_waitinframe` after a frame has been put in `tempinbuf`. -/
def acceptAccesses (bytesRead : ℕ) (p : Port) : List Access :=
  if ethercatFrameHeader < bytesRead then
    ⟨bytesRead, 12, 1⟩ ::
      if p.tempinbuf 12 = ethercatEthertypeHigh then
        ⟨bytesRead, 13, 1⟩ ::
          if p.tempinbuf 13 = ethercatEthertypeLow then
            let rxIdx := (p.tempinbuf (ethercatFrameHeader + 3)).toNat
            let payloadLen := bytesRead - ethercatFrameHeader
            ⟨bytesRead, ethercatFrameHeader + 3, 1⟩ ::
              if ((0 < rxIdx ∧ rxIdx < ecMaxbuf)
                  ∧ (p.rxbufstat rxIdx = .tx ∨ p.rxbufstat rxIdx = .alloc))
                ∧ (0 < payloadLen ∧ payloadLen ≤ ecBufsize) then
                [⟨bytesRead, ethercatFrameHeader, payloadLen⟩, ⟨ecBufsize, 0, payloadLen⟩]
              else []
          else []
      else []
  else []

/-- Those of `ecx_waitinframe`, with what the interface does before it. -/
def waitAccesses (idx : ℕ) (wait : Wait) (p : Port) : List Access :=
  wait.arrivals.flatMap callbackAccesses
    ++ let p := p.arrive wait.arrivals
      if p.rxbufstat idx = .rcvd then []
      else
        receiveAccesses wait.yields p
          ++ acceptAccesses (ethReceive wait.yields p).1 (ethReceive wait.yields p).2

/-- The reads of the working counter, in the payload of the reply and in its buffer. -/
def confirmAccesses (idx : ℕ) (reply : List UInt8) (p : Port) : List Access :=
  let len := p.txbuflength idx - ethercatFrameHeader
  if 2 ≤ len then [⟨payloadLength reply, len - 2, 2⟩, ⟨ecBufsize, len - 2, 2⟩] else []

/-- Those of the loop of `ecx_srconfirm`, given the frame that was received last. -/
def srconfirmAccesses (idx : ℕ) : Option (List UInt8) → List Wait → Port → List Access
  | _, [], _ => []
  | last, wait :: waits, p =>
      if p.rxbufstat idx = .rcvd then confirmAccesses idx (last.getD []) p
      else
        waitAccesses idx wait p
          ++ srconfirmAccesses idx (p.frameTaken wait) waits (p.wait idx wait).2

/-! ### Runs -/

/-- What happens on the receive path.  Transmit buffers are set up by SOEM, and the states of
buffers are set by it. -/
inductive ReceiveEvent where
  | callback (pArgs : Option CallbackArgs)
  | receive (yields : List Arrivals)
  | waitinframe (idx : Fin ecMaxbuf) (wait : Wait)
  | srconfirm (idx : Fin ecMaxbuf) (t : Transaction)
  | setup (idx : Fin ecMaxbuf) (txbuf : Bytes) (txbuflength : Fin (ecBufsize + 1))
  | setbufstat (idx : Fin ecMaxbuf) (bufstat : BufStat)

namespace ReceivePath

/-- The port after an event. -/
def step (p : Port) : ReceiveEvent → Port
  | .callback pArgs => ethercatNetifCallback pArgs p
  | .receive yields => (ethReceive yields p).2
  | .waitinframe idx wait => (p.wait idx wait).2
  | .srconfirm idx t => (ecxSrconfirm idx t p).2
  | .setup idx txbuf txbuflength =>
      { p with
        txbuf := Function.update p.txbuf idx txbuf
        txbuflength := Function.update p.txbuflength idx txbuflength }
  | .setbufstat idx bufstat => ecxSetbufstat idx bufstat p

/-- The accesses of an event. -/
def accesses (p : Port) : ReceiveEvent → List Access
  | .callback pArgs => callbackAccesses pArgs
  | .receive yields => receiveAccesses yields p
  | .waitinframe idx wait => waitAccesses idx wait p
  | .srconfirm idx t => srconfirmAccesses idx none t.waits (ecxOutframe idx t.sendOk p).2
  | .setup _ _ _ => []
  | .setbufstat _ _ => []

/-- The port from its opening on. -/
def machine : Machine Port ReceiveEvent :=
  ⟨(ecxSetupnic false true Port.init).2, step⟩

/-- Every access of a run is in bounds. -/
def Safe (es : List ReceiveEvent) : Prop :=
  ∀ i e, es[i]? = some e → ∀ a ∈ accesses (machine.before es i) e, a.InBounds

/-! ### Frames -/

/-- The frames that are taken from the queue by the loop of `ecx_srconfirm`. -/
def srconfirmTaken (idx : ℕ) : List Wait → Port → List (List UInt8)
  | [], _ => []
  | wait :: waits, p =>
      if p.rxbufstat idx = .rcvd then []
      else (p.frameTaken wait).toList ++ srconfirmTaken idx waits (p.wait idx wait).2

/-- The reply in which the loop of `ecx_srconfirm` looks up the working counter: the frame that was
received last. -/
def srconfirmReply (idx : ℕ) : Option (List UInt8) → List Wait → Port → Option (List UInt8)
  | _, [], _ => none
  | last, wait :: waits, p =>
      if p.rxbufstat idx = .rcvd then some (last.getD [])
      else srconfirmReply idx (p.frameTaken wait) waits (p.wait idx wait).2

/-- The frames that an event takes from the queue. -/
def taken (p : Port) : ReceiveEvent → List (List UInt8)
  | .receive yields => (takeFrame (yields.map arrived) p.frames).1.toList
  | .waitinframe idx wait =>
      if p.rxbufstat idx = .rcvd then [] else (p.frameTaken wait).toList
  | .srconfirm idx t => srconfirmTaken idx t.waits (ecxOutframe idx t.sendOk p).2
  | _ => []

/-- A frame without a payload, or with the index of a datagram. -/
def HasIndex (frame : List UInt8) : Prop :=
  frame.length ≤ ethercatFrameHeader ∨ ethercatFrameHeader + 4 ≤ frame.length

/-- Every frame that is taken fits into `tempinbuf`, a frame that is looked at has an index, and a
reply in which the working counter is looked up is as long as the frame that was sent. -/
structure Fits (p : Port) (e : ReceiveEvent) : Prop where
  length_le : ∀ frame ∈ taken p e, frame.length ≤ ecBufsize
  hasIndex : (∀ yields, e ≠ .receive yields) → ∀ frame ∈ taken p e, HasIndex frame
  reply : ∀ idx t, e = .srconfirm idx t → ∀ reply,
    srconfirmReply idx none t.waits (ecxOutframe idx t.sendOk p).2 = some reply →
    ethercatFrameHeader + 2 ≤ p.txbuflength idx → p.txbuflength idx ≤ reply.length

/-! ### The callback -/

/-- All accesses of a list are in bounds. -/
def AllInBounds (l : List Access) : Prop := ∀ a ∈ l, a.InBounds

@[simp]
theorem allInBounds_nil :
  AllInBounds []
  := by
  intro a ha
  cases ha

@[simp]
theorem allInBounds_cons {a : Access} {l : List Access} :
  AllInBounds (a :: l) ↔ a.InBounds ∧ AllInBounds l
  := List.forall_mem_cons

@[simp]
theorem allInBounds_append {l l' : List Access} :
  AllInBounds (l ++ l') ↔ AllInBounds l ∧ AllInBounds l'
  := List.forall_mem_append

/-- The accesses of the callback are in bounds, whatever frame it is called with. -/
theorem allInBounds_callback (pArgs : Option CallbackArgs) :
  AllInBounds (callbackAccesses pArgs)
  := by
  have hheader : ∀ frame, AllInBounds (headerAccesses frame) := by
    intro frame
    have hsize : ethercatFrameHeader = 14 := rfl
    unfold headerAccesses
    split
    · apply allInBounds_nil
    · split_ifs
      · apply allInBounds_nil
      · apply allInBounds_nil
      · simp only [allInBounds_cons, allInBounds_nil, and_true, Access.InBounds]
        omega
      · simp only [allInBounds_cons, allInBounds_nil, and_true, Access.InBounds]
        omega
  have hpush : ∀ pBuffer length, AllInBounds (pushAccesses pBuffer length) := by
    intro pBuffer length
    unfold pushAccesses
    split
    · apply allInBounds_nil
    · split_ifs
      · apply allInBounds_nil
      · simp only [allInBounds_cons, allInBounds_nil, and_true, Access.InBounds]
        omega
  unfold callbackAccesses
  split
  · apply allInBounds_nil
  · split_ifs
    · apply allInBounds_nil
    · split
      · apply allInBounds_nil
      · rw [allInBounds_append]
        refine ⟨hheader _, ?_⟩
        split_ifs
        · apply hpush
        · apply allInBounds_nil

theorem allInBounds_arrivals (arrivals : Arrivals) :
  AllInBounds (arrivals.flatMap callbackAccesses)
  := by
  intro a ha
  obtain ⟨pArgs, -, ha⟩ := List.mem_flatMap.mp ha
  apply allInBounds_callback pArgs a ha

/-! ### The queue -/

/-- The frames in the queue come from the callback. -/
def QueueOk (p : Port) : Prop := ∀ frame ∈ p.frames, MasterFrame frame

variable {p : Port}

theorem QueueOk.arrive (h : QueueOk p) (arrivals : Arrivals) :
  QueueOk (p.arrive arrivals)
  := by
  intro frame hframe
  rw [p.frames_arrive] at hframe
  rcases mem_foldl_boundedPush hframe with hframe | hframe
  · apply h frame hframe
  · apply masterFrame_of_arrived hframe

/-- So do those that are taken, and those that are left. -/
theorem QueueOk.takeFrame (h : QueueOk p) {yields : List Arrivals} {frame : List UInt8}
    (hframe : (takeFrame (yields.map arrived) p.frames).1 = some frame
      ∨ frame ∈ (EthercatMaster.takeFrame (yields.map arrived) p.frames).2) :
  MasterFrame frame
  := by
  rcases mem_takeFrame hframe with hframe | ⟨frames, hframes, hframe⟩
  · apply h frame hframe
  · obtain ⟨arrivals, -, rfl⟩ := List.mem_map.mp hframes
    apply masterFrame_of_arrived hframe

theorem QueueOk.frameTaken (h : QueueOk p) {wait : Wait} {frame : List UInt8}
    (hframe : p.frameTaken wait = some frame) :
  MasterFrame frame
  := (h.arrive wait.arrivals).takeFrame (.inl hframe)

theorem QueueOk.wait (h : QueueOk p) (idx : ℕ) (wait : Wait) :
  QueueOk (p.wait idx wait).2
  := by
  intro frame hframe
  rcases (p.wait_step idx wait).1 frame hframe with hframe | hframe
  · apply h frame hframe
  · rcases List.mem_append.mp hframe with hframe | hframe
    · apply masterFrame_of_arrived hframe
    · obtain ⟨frames, hframes, hframe⟩ := List.mem_flatten.mp hframe
      obtain ⟨arrivals, -, rfl⟩ := List.mem_map.mp hframes
      apply masterFrame_of_arrived hframe

/-! ### A wait -/

/-- `eth_receive` stays in `tempinbuf` if the frame that it takes fits. -/
theorem allInBounds_receive (yields : List Arrivals) (p : Port) :
  AllInBounds (receiveAccesses yields p)
    ↔ ∀ frame, (takeFrame (yields.map arrived) p.frames).1 = some frame →
      frame.length ≤ ecBufsize
  := by
  induction yields generalizing p with
  | nil =>
      rw [receiveAccesses.eq_def]
      cases hframes : p.frames with
      | nil =>
          rw [ethercatRxQueuePop_of_nil hframes]
          apply iff_of_true allInBounds_nil
          rintro frame ⟨⟩
      | cons frame frames =>
          obtain ⟨slot, rxQueue, hpop, hslot, -⟩ := ethercatRxQueuePop_of_cons hframes
          have hlength : slot.length = frame.length := by
            rw [← hslot, RxFrame.bytes, Bytes.length_take]
          rw [hpop]
          simp [Access.InBounds, hlength]
  | cons arrivals yields ih =>
      rw [receiveAccesses.eq_def]
      cases hframes : p.frames with
      | nil =>
          rw [ethercatRxQueuePop_of_nil hframes]
          dsimp only
          rw [allInBounds_append, and_iff_right (allInBounds_arrivals arrivals), ih,
            p.frames_arrive, hframes]
          rfl
      | cons frame frames =>
          obtain ⟨slot, rxQueue, hpop, hslot, -⟩ := ethercatRxQueuePop_of_cons hframes
          have hlength : slot.length = frame.length := by
            rw [← hslot, RxFrame.bytes, Bytes.length_take]
          rw [hpop]
          simp [Access.InBounds, hlength]

/-- The header that is read of a frame in `tempinbuf` has been received if the frame has an
index; its payload fits. -/
theorem allInBounds_accept {frame : List UInt8} (h : MasterFrame frame) {q : Port}
    (htempinbuf : q.tempinbuf = p.taken frame) :
  AllInBounds (acceptAccesses frame.length q) ↔ HasIndex frame
  := by
  have hsize : ethercatFrameHeader = 14 := rfl
  rw [acceptAccesses, htempinbuf]
  by_cases hlong : ethercatFrameHeader < frame.length
  · have hhigh : p.taken frame 12 = ethercatEthertypeHigh := by
      exact (Port.taken_of_lt (by omega) (by decide)).trans h.high
    have hlow : p.taken frame 13 = ethercatEthertypeLow := by
      exact (Port.taken_of_lt (by omega) (by decide)).trans h.low
    rw [if_pos hlong, if_pos hhigh, if_pos hlow, HasIndex]
    simp only [allInBounds_cons, Access.InBounds]
    constructor
    · rintro ⟨-, -, hindex, -⟩
      omega
    · intro hindex
      refine ⟨by omega, by omega, by omega, ?_⟩
      split
      · rename_i haccepted
        simp only [allInBounds_cons, allInBounds_nil, and_true, Access.InBounds]
        omega
      · apply allInBounds_nil
  · rw [if_neg hlong]
    apply iff_of_true allInBounds_nil
    exact .inl (not_lt.mp hlong)

/-- A wait is in bounds if the frame that it takes fits and has an index. -/
theorem allInBounds_wait (h : QueueOk p) (idx : ℕ) (wait : Wait) :
  AllInBounds (waitAccesses idx wait p)
    ↔ p.rxbufstat idx = .rcvd
      ∨ ∀ frame, p.frameTaken wait = some frame → frame.length ≤ ecBufsize ∧ HasIndex frame
  := by
  obtain ⟨rxQueue, harrive⟩ := p.arrive_eq wait.arrivals
  have hstat : (p.arrive wait.arrivals).rxbufstat = p.rxbufstat := by rw [harrive]
  rw [waitAccesses, allInBounds_append, and_iff_right (allInBounds_arrivals wait.arrivals)]
  dsimp only
  rw [hstat]
  by_cases hrcvd : p.rxbufstat idx = .rcvd
  · rw [if_pos hrcvd]
    apply iff_of_true allInBounds_nil (.inl hrcvd)
  · rw [if_neg hrcvd, or_iff_right hrcvd, allInBounds_append, allInBounds_receive]
    obtain ⟨rxQueue', -, hreceive⟩ := ethReceive_eq wait.yields (p.arrive wait.arrivals)
    rw [hreceive]
    rw [show (takeFrame (wait.yields.map arrived) (p.arrive wait.arrivals).frames).1
      = p.frameTaken wait from rfl]
    cases hframe : p.frameTaken wait with
    | none =>
        rw [Option.elim_none, acceptAccesses, if_neg (Nat.not_lt_zero _)]
        simp
    | some frame =>
        rw [Option.elim_some, allInBounds_accept (h.frameTaken hframe) rfl]
        simp

/-! ### A transaction -/

/-- The working counter is looked up in the payload of the reply if the reply is long enough. -/
theorem allInBounds_confirm (idx : ℕ) (reply : List UInt8) {p : Port}
    (htx : p.txbuflength idx ≤ ecBufsize) :
  AllInBounds (confirmAccesses idx reply p)
    ↔ (ethercatFrameHeader + 2 ≤ p.txbuflength idx → p.txbuflength idx ≤ reply.length)
  := by
  have hsize : ethercatFrameHeader = 14 := rfl
  rw [confirmAccesses]
  split
  · simp only [allInBounds_cons, allInBounds_nil, and_true, Access.InBounds, payloadLength]
    omega
  · apply iff_of_true allInBounds_nil
    omega

/-- The loop of `ecx_srconfirm` is in bounds if the frames that it takes fit and have an index, and
the reply in which it looks up the working counter is long enough. -/
theorem allInBounds_srconfirm (idx : ℕ) {last : Option (List UInt8)} {waits : List Wait} {p : Port}
    (h : QueueOk p) (htx : p.txbuflength idx ≤ ecBufsize) :
  AllInBounds (srconfirmAccesses idx last waits p)
    ↔ (∀ frame ∈ srconfirmTaken idx waits p, frame.length ≤ ecBufsize ∧ HasIndex frame)
      ∧ ∀ reply, srconfirmReply idx last waits p = some reply →
        ethercatFrameHeader + 2 ≤ p.txbuflength idx → p.txbuflength idx ≤ reply.length
  := by
  induction waits generalizing last p with
  | nil =>
      apply iff_of_true allInBounds_nil
      constructor
      · intro frame hframe
        cases hframe
      · rintro reply ⟨⟩
  | cons wait waits ih =>
      rw [srconfirmAccesses, srconfirmTaken, srconfirmReply]
      by_cases hrcvd : p.rxbufstat idx = .rcvd
      · rw [if_pos hrcvd, if_pos hrcvd, if_pos hrcvd, allInBounds_confirm idx _ htx]
        simp
      · have hwait := p.wait_txbuflength idx wait
        rw [if_neg hrcvd, if_neg hrcvd, if_neg hrcvd, allInBounds_append,
          allInBounds_wait h, or_iff_right hrcvd,
          ih (h.wait idx wait) (by rw [hwait]; exact htx), hwait, ← and_assoc,
          List.forall_mem_append]
        simp only [Option.mem_toList]

/-! ### The run -/

/-- Between the events: the frames in the queue come from the callback, and no frame that is sent
is longer than its buffer. -/
structure Sound (p : Port) : Prop where
  queue : QueueOk p
  txbuflength : ∀ idx, p.txbuflength idx ≤ ecBufsize

theorem QueueOk.srconfirmLoop (h : QueueOk p) (idx : ℕ) (waits : List Wait) :
  QueueOk (EthercatMaster.srconfirmLoop idx waits p).2
  := by
  induction waits generalizing p with
  | nil => apply h
  | cons wait waits ih =>
      rw [EthercatMaster.srconfirmLoop]
      split
      · apply h
      · apply ih (h.wait idx wait)

theorem Sound.step (h : Sound p) (e : ReceiveEvent) :
  Sound (step p e)
  := by
  cases e with
  | callback pArgs =>
      obtain ⟨rxQueue, heq⟩ := ethercatNetifCallback_eq pArgs p
      constructor
      case queue => exact h.queue.arrive [pArgs]
      case txbuflength =>
        rw [ReceivePath.step, heq]
        apply h.txbuflength
  | receive yields =>
      obtain ⟨rxQueue, hrest, hreceive⟩ := ethReceive_eq yields p
      have hrest' : ∀ frame ∈ (takeFrame (yields.map arrived) p.frames).2, MasterFrame frame := by
        intro frame hframe
        apply h.queue.takeFrame (.inr hframe)
      rw [← hrest] at hrest'
      rw [ReceivePath.step, hreceive]
      cases (takeFrame (yields.map arrived) p.frames).1 with
      | none => exact ⟨hrest', h.txbuflength⟩
      | some frame => exact ⟨hrest', h.txbuflength⟩
  | waitinframe idx wait =>
      constructor
      case queue => apply h.queue.wait
      case txbuflength =>
        rw [ReceivePath.step, p.wait_txbuflength]
        apply h.txbuflength
  | srconfirm idx t =>
      obtain ⟨txbuf, houtframe⟩ := ecxOutframe_eq idx p
      constructor
      case queue =>
        apply QueueOk.srconfirmLoop
        rw [houtframe]
        apply h.queue
      case txbuflength =>
        rw [ReceivePath.step, (ecxSrconfirm_spec idx t p).2.1]
        apply h.txbuflength
  | setup idx txbuf txbuflength =>
      refine ⟨h.queue, ?_⟩
      intro idx'
      rw [ReceivePath.step]
      dsimp only
      rcases eq_or_ne idx' idx with rfl | hne
      · rw [Function.update_self]
        apply Nat.lt_succ_iff.mp txbuflength.isLt
      · rw [Function.update_of_ne hne]
        apply h.txbuflength
  | setbufstat idx bufstat => exact ⟨h.queue, h.txbuflength⟩

theorem sound_before (es : List ReceiveEvent) (i : ℕ) :
  Sound (machine.before es i)
  := by
  apply Machine.invariant_before (P := Sound) machine
  · constructor
    case queue =>
      intro frame hframe
      cases hframe
    case txbuflength =>
      intro idx
      apply Nat.zero_le
  · intro p e h
    apply h.step

/-- An event that takes no frame. -/
theorem fits_of_taken_nil {e : ReceiveEvent} (h : taken p e = [])
    (hne : ∀ idx t, e ≠ .srconfirm idx t) :
  Fits p e
  := by
  constructor
  case length_le =>
    rw [h]
    apply List.forall_mem_nil
  case hasIndex =>
    intro _
    rw [h]
    apply List.forall_mem_nil
  case reply =>
    intro idx t heq
    exact absurd heq (hne idx t)

/-- The accesses of an event are in bounds exactly if the frames that it takes fit. -/
theorem Sound.allInBounds_iff (h : Sound p) (e : ReceiveEvent) :
  AllInBounds (accesses p e) ↔ Fits p e
  := by
  cases e with
  | callback pArgs =>
      apply iff_of_true (allInBounds_callback pArgs)
      apply fits_of_taken_nil rfl
      rintro idx t ⟨⟩
  | receive yields =>
      rw [accesses, allInBounds_receive]
      constructor
      · intro hfits
        constructor
        case length_le =>
          intro frame hframe
          apply hfits frame (Option.mem_toList.mp hframe)
        case hasIndex =>
          intro hne
          exact absurd rfl (hne yields)
        case reply => rintro idx t ⟨⟩
      · intro hfits frame hframe
        apply hfits.length_le frame (Option.mem_toList.mpr hframe)
  | waitinframe idx wait =>
      rw [accesses, allInBounds_wait h.queue]
      constructor
      · intro hfits
        have hframes : ∀ frame ∈ taken p (.waitinframe idx wait),
            frame.length ≤ ecBufsize ∧ HasIndex frame := by
          intro frame hframe
          rw [taken] at hframe
          split at hframe
          · cases hframe
          · rename_i hrcvd
            apply hfits.resolve_left hrcvd frame (Option.mem_toList.mp hframe)
        constructor
        case length_le => exact fun frame hframe => (hframes frame hframe).1
        case hasIndex => exact fun _ frame hframe => (hframes frame hframe).2
        case reply => rintro idx t ⟨⟩
      · intro hfits
        by_cases hrcvd : p.rxbufstat idx = .rcvd
        · exact .inl hrcvd
        · right
          intro frame hframe
          have hmem : frame ∈ taken p (.waitinframe idx wait) := by
            rw [taken, if_neg hrcvd, Option.mem_toList]
            apply hframe
          exact ⟨hfits.length_le frame hmem, hfits.hasIndex (by rintro yields ⟨⟩) frame hmem⟩
  | srconfirm idx t =>
      obtain ⟨txbuf, houtframe⟩ := ecxOutframe_eq idx p
      have htx : (ecxOutframe idx t.sendOk p).2.txbuflength = p.txbuflength := by rw [houtframe]
      have hqueue : QueueOk (ecxOutframe idx t.sendOk p).2 := by
        rw [houtframe]
        apply h.queue
      rw [accesses, allInBounds_srconfirm idx hqueue (by rw [htx]; apply h.txbuflength), htx]
      constructor
      · rintro ⟨hframes, hreply⟩
        constructor
        case length_le => exact fun frame hframe => (hframes frame hframe).1
        case hasIndex => exact fun _ frame hframe => (hframes frame hframe).2
        case reply =>
          intro idx' t' heq
          cases heq
          apply hreply
      · intro hfits
        refine ⟨?_, hfits.reply idx t rfl⟩
        intro frame hframe
        exact ⟨hfits.length_le frame hframe, hfits.hasIndex (by rintro yields ⟨⟩) frame hframe⟩
  | setup idx txbuf txbuflength =>
      apply iff_of_true allInBounds_nil
      apply fits_of_taken_nil rfl
      rintro idx t ⟨⟩
  | setbufstat idx bufstat =>
      apply iff_of_true allInBounds_nil
      apply fits_of_taken_nil rfl
      rintro idx t ⟨⟩

/-- All accesses of a run are in bounds exactly if the frames that are taken in it fit, those that
are looked at have an index, and no reply in which a working counter is looked up is shorter than
the frame that was sent. -/
theorem safe_iff (es : List ReceiveEvent) :
  Safe es ↔ ∀ i e, es[i]? = some e → Fits (machine.before es i) e
  := by
  constructor
  · intro h i e he
    apply ((sound_before es i).allInBounds_iff e).mp (h i e he)
  · intro h i e he
    apply ((sound_before es i).allInBounds_iff e).mpr (h i e he)

namespace ForeignFrame

/-- A frame of some length with an index, as the interface receives it. -/
def frame (length : ℕ) (idx : UInt8) : Option CallbackArgs :=
  some ⟨.receiveEtherFrame,
    some ⟨length, 2, Bytes.ofList (ethernetHeader ++ [0, 0x10, 0, idx]), 0, none⟩⟩

/-- The index of the frames. -/
def index : Fin ecMaxbuf := ⟨1, by decide⟩

/-- A transaction with a frame of 100 bytes, which is answered by one of 60 bytes. -/
def shortReply : List ReceiveEvent :=
  [.setup index (fun _ => 0) ⟨100, by decide⟩, .callback (frame 60 1),
    .srconfirm index ⟨true, [⟨[], []⟩, ⟨[], []⟩]⟩]

/-- A frame that fits into the queue, but not into `tempinbuf`. -/
def longFrame : List ReceiveEvent :=
  [.callback (frame 1600 1), .waitinframe index ⟨[], []⟩]

/-- A frame that ends before its index. -/
def noIndex : List ReceiveEvent :=
  [.callback (frame 16 1), .waitinframe index ⟨[], []⟩]

theorem not_safe_of_mem {es : List ReceiveEvent} {i : ℕ} {e : ReceiveEvent} {a : Access}
    (he : es[i]? = some e) (ha : a ∈ accesses (machine.before es i) e) (hout : ¬ a.InBounds) :
  ¬ Safe es
  := by
  intro h
  apply hout (h i e he a ha)

/-- The working counter is looked up behind the payload of a short reply, a long frame overflows
`tempinbuf`, and the index of a very short one is read behind its end. -/
theorem not_safe :
  ¬ Safe shortReply ∧ ¬ Safe longFrame ∧ ¬ Safe noIndex
  := by
  refine ⟨?_, ?_, ?_⟩
  · apply not_safe_of_mem (i := 2) (a := ⟨46, 84, 2⟩) rfl
    · decide +kernel
    · decide
  · apply not_safe_of_mem (i := 1) (a := ⟨1518, 0, 1600⟩) rfl
    · decide +kernel
    · decide
  · apply not_safe_of_mem (i := 1) (a := ⟨16, 17, 1⟩) rfl
    · decide +kernel
    · decide

end ForeignFrame

end ReceivePath

end EthercatMaster
