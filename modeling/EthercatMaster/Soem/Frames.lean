import EthercatMaster.Soem.Nicdrv

/-!
# The port as a queue of frames

The ring of the driver is a queue of eight frames, a frame being the list of its bytes.  Waiting
for a reply takes at most one frame from the queue, and a frame that is taken goes to the receive
buffer of its index or is lost.
-/

namespace EthercatMaster

open RingBuffer

/-- The bytes of a received frame. -/
def RxFrame.bytes (frame : RxFrame) : List UInt8 :=
  frame.buffer.take frame.length

/-- The frames in the queue, from the oldest one. -/
def Port.frames (p : Port) : List (List UInt8) :=
  p.rxQueue.contents.map RxFrame.bytes

/-! ### Arrivals -/

/-- The frame that a call of the interface puts in the queue. -/
def frameOf (pArgs : Option CallbackArgs) : Option (List UInt8) := do
  let args ← pArgs
  let frame ← args.pFramePacket
  let buffer ← ethercatFrameBuffer frame
  if args.event = .receiveEtherFrame ∧ ethercatFrameIsForMaster frame = true
      ∧ frame.length ≤ ethercatRxFrameBytes then
    some (buffer.take frame.length)
  else none

/-- The frames among the arrivals. -/
def arrived (arrivals : Arrivals) : List (List UInt8) :=
  arrivals.filterMap frameOf

/-- A frame in the queue: it has the header of a frame for the master and fits into its slot. -/
structure MasterFrame (frame : List UInt8) : Prop where
  header_le : ethercatFrameHeader ≤ frame.length
  length_le : frame.length ≤ ethercatRxFrameBytes
  high : Bytes.ofList frame 12 = ethercatEthertypeHigh
  low : Bytes.ofList frame 13 = ethercatEthertypeLow

/-- A frame for the master has a header. -/
theorem header_of_isForMaster {frame : NetifFrame} (h : ethercatFrameIsForMaster frame = true) :
  ∃ buffer, ethercatFrameBuffer frame = some buffer ∧ ethercatFrameHeader ≤ frame.length
    ∧ buffer 12 = ethercatEthertypeHigh ∧ buffer 13 = ethercatEthertypeLow
  := by
  rw [ethercatFrameIsForMaster] at h
  cases hbuffer : ethercatFrameBuffer frame with
  | none =>
      rw [hbuffer] at h
      cases h
  | some buffer =>
      rw [hbuffer] at h
      dsimp only at h
      split_ifs at h with hshort hport
      rw [Bool.and_eq_true, decide_eq_true_iff, decide_eq_true_iff] at h
      exact ⟨buffer, rfl, not_lt.mp hshort, h⟩

/-- What the callback puts in the queue. -/
theorem masterFrame_of_frameOf {pArgs : Option CallbackArgs} {frame : List UInt8}
    (h : frameOf pArgs = some frame) :
  MasterFrame frame
  := by
  cases pArgs with
  | none => cases h
  | some args =>
      obtain ⟨event, packet⟩ := args
      cases packet with
      | none => cases h
      | some netifFrame =>
          cases hbuffer : ethercatFrameBuffer netifFrame with
          | none => simp [frameOf, hbuffer] at h
          | some buffer =>
              simp only [frameOf, hbuffer, Option.bind_eq_bind, Option.bind_some,
                Option.ite_none_right_eq_some, Option.some.injEq] at h
              obtain ⟨⟨-, hmaster, hlength⟩, rfl⟩ := h
              obtain ⟨buffer', hbuffer', hheader, hhigh, hlow⟩ := header_of_isForMaster hmaster
              rw [hbuffer, Option.some.injEq] at hbuffer'
              subst hbuffer'
              have hsize : ethercatFrameHeader = 14 := rfl
              constructor
              case header_le => rwa [Bytes.length_take]
              case length_le => rwa [Bytes.length_take]
              case high => rw [Bytes.ofList_take (by omega), hhigh]
              case low => rw [Bytes.ofList_take (by omega), hlow]

theorem masterFrame_of_arrived {arrivals : Arrivals} {frame : List UInt8}
    (h : frame ∈ arrived arrivals) :
  MasterFrame frame
  := by
  obtain ⟨pArgs, -, hframe⟩ := List.mem_filterMap.mp h
  apply masterFrame_of_frameOf hframe

/-- A frame pushed is a frame of the queue. -/
theorem frames_ethercatRxQueuePush (buffer : Bytes) {length : ℕ}
    (h : length ≤ ethercatRxFrameBytes) (p : Port) :
  (ethercatRxQueuePush (some buffer) length p).frames
    = boundedPush ethercatRxQueueSize p.frames (buffer.take length)
  := by
  rw [ethercatRxQueuePush, if_neg (not_lt.mpr h), Port.frames, contents_push, map_boundedPush,
    Port.frames]
  congr 1
  apply List.map_congr_left
  intro i hi
  apply Bytes.copy_zero_of_lt
  apply List.mem_range.mp hi

/-- A call of the interface changes the queue only. -/
theorem ethercatNetifCallback_eq (pArgs : Option CallbackArgs) (p : Port) :
  ∃ rxQueue, ethercatNetifCallback pArgs p = { p with rxQueue := rxQueue }
  := by
  unfold ethercatNetifCallback
  split
  · exact ⟨p.rxQueue, rfl⟩
  split
  · exact ⟨p.rxQueue, rfl⟩
  split
  · exact ⟨p.rxQueue, rfl⟩
  split
  · exact ⟨p.rxQueue, rfl⟩
  split
  · exact ⟨p.rxQueue, rfl⟩
  simp only [ethercatRxQueuePush]
  split
  · exact ⟨p.rxQueue, rfl⟩
  · exact ⟨_, rfl⟩

/-- The queue after a call of the interface. -/
theorem frames_ethercatNetifCallback (pArgs : Option CallbackArgs) (p : Port) :
  (ethercatNetifCallback pArgs p).frames
    = (frameOf pArgs).elim p.frames (boundedPush ethercatRxQueueSize p.frames)
  := by
  unfold ethercatNetifCallback
  cases pArgs with
  | none => rfl
  | some args =>
      obtain ⟨event, packet⟩ := args
      dsimp only
      by_cases hevent : event = .receiveEtherFrame
      · rw [if_neg (not_not.mpr hevent)]
        cases packet with
        | none => rfl
        | some frame =>
            cases hbuffer : ethercatFrameBuffer frame with
            | none =>
                simp [frameOf, hbuffer]
            | some buffer =>
                by_cases hmaster : ethercatFrameIsForMaster frame = true
                · by_cases hlength : frame.length ≤ ethercatRxFrameBytes
                  · simp [frameOf, hbuffer, hevent, hmaster, hlength,
                      frames_ethercatRxQueuePush]
                  · simp [frameOf, hbuffer, hmaster, hlength, ethercatRxQueuePush,
                      not_le.mp hlength]
                · simp [frameOf, hbuffer, hmaster]
      · rw [if_pos hevent]
        simp [frameOf, hevent]

/-- Arrivals change the queue only. -/
theorem Port.arrive_eq (arrivals : Arrivals) (p : Port) :
  ∃ rxQueue, p.arrive arrivals = { p with rxQueue := rxQueue }
  := by
  induction arrivals generalizing p with
  | nil => exact ⟨p.rxQueue, rfl⟩
  | cons pArgs arrivals ih =>
      obtain ⟨rxQueue, h⟩ := ethercatNetifCallback_eq pArgs p
      obtain ⟨rxQueue', h'⟩ := ih (ethercatNetifCallback pArgs p)
      use rxQueue'
      rw [arrive, List.foldl_cons, ← arrive, h', h]

/-- The queue after arrivals. -/
theorem Port.frames_arrive (arrivals : Arrivals) (p : Port) :
  (p.arrive arrivals).frames
    = (arrived arrivals).foldl (boundedPush ethercatRxQueueSize) p.frames
  := by
  induction arrivals generalizing p with
  | nil => rfl
  | cons pArgs arrivals ih =>
      rw [arrive, List.foldl_cons, ← arrive, ih, frames_ethercatNetifCallback, arrived, arrived,
        List.filterMap_cons]
      cases frameOf pArgs with
      | none => rfl
      | some frame => rfl

/-- A frame in the queue after arrivals was there or has arrived. -/
theorem mem_foldl_boundedPush {n : ℕ} {α : Type} {l l' : List α} {a : α}
    (h : a ∈ l'.foldl (boundedPush n) l) :
  a ∈ l ∨ a ∈ l'
  := by
  induction l' generalizing l with
  | nil =>
      left
      apply h
  | cons b l' ih =>
      rcases ih h with h | h
      · rcases mem_boundedPush h with h | rfl
        · left
          apply h
        · right
          exact List.mem_cons_self
      · right
        apply List.mem_cons_of_mem _ h

/-! ### Taking a frame -/

/-- The frame that `eth_receive` takes from a queue, and the queue left, given the frames that
arrive during each yield. -/
def takeFrame : List (List (List UInt8)) → List (List UInt8) →
    Option (List UInt8) × List (List UInt8)
  | _, frame :: frames => (some frame, frames)
  | [], [] => (none, [])
  | arrivals :: yields, [] =>
      takeFrame yields (arrivals.foldl (boundedPush ethercatRxQueueSize) [])

@[simp]
theorem takeFrame_cons (yields : List (List (List UInt8))) (frame : List UInt8)
    (frames : List (List UInt8)) :
  takeFrame yields (frame :: frames) = (some frame, frames)
  := by
  cases yields
  all_goals rfl

/-- `tempinbuf` after a frame has been copied to it and its length to `tempinbufs`. -/
def Port.taken (p : Port) (frame : List UInt8) : Bytes :=
  (p.tempinbuf.copy 0 (Bytes.ofList frame) frame.length).set32 tempinbufsOffset
    frame.length.toUInt32

/-- The port after a frame has been copied to `tempinbuf`.  A long frame reaches into the first
transmit buffer. -/
def Port.store (p : Port) (frame : List UInt8) : Port :=
  { p with
    tempinbuf := p.taken frame
    txbuf := Function.update p.txbuf 0
      ((p.txbuf 0).copy 0 ((Bytes.ofList frame).drop txbufOffset) (frame.length - txbufOffset)) }

@[simp]
theorem Port.store_tempinbuf (p : Port) (frame : List UInt8) :
  (p.store frame).tempinbuf = p.taken frame
  := rfl

@[simp]
theorem Port.store_rxbuf (p : Port) (frame : List UInt8) :
  (p.store frame).rxbuf = p.rxbuf
  := rfl

@[simp]
theorem Port.store_rxbufstat (p : Port) (frame : List UInt8) :
  (p.store frame).rxbufstat = p.rxbufstat
  := rfl

/-- In `tempinbuf` there is the frame, as far as the buffer goes. -/
theorem Port.taken_of_lt {p : Port} {frame : List UInt8} {i : ℕ} (h : i < frame.length)
    (hoffset : i < tempinbufsOffset) :
  p.taken frame i = frame.getD i 0
  := by
  rw [taken, Bytes.set32_disjoint (by left; omega)]
  apply Bytes.copy_zero_of_lt h

theorem ethercatRxQueuePop_of_nil {p : Port} (h : p.frames = []) :
  ethercatRxQueuePop p = none
  := by
  unfold ethercatRxQueuePop
  rw [pop_eq_none (List.map_eq_nil_iff.mp h)]
  rfl

theorem ethercatRxQueuePop_of_cons {p : Port} {frame : List UInt8} {frames : List (List UInt8)}
    (h : p.frames = frame :: frames) :
  ∃ (slot : RxFrame) (rxQueue : RingBuffer ethercatRxQueueSize RxFrame),
    ethercatRxQueuePop p = some (slot, { p with rxQueue := rxQueue })
    ∧ slot.bytes = frame ∧ rxQueue.contents.map RxFrame.bytes = frames
  := by
  obtain ⟨slot, slots, hcontents, hslot, hslots⟩ := List.map_eq_cons_iff.mp h
  obtain ⟨rxQueue, hpop, hrest⟩ := pop_eq_some hcontents
  refine ⟨slot, rxQueue, ?_, hslot, ?_⟩
  · unfold ethercatRxQueuePop
    rw [hpop]
    rfl
  · rw [hrest, hslots]

/-- The copy of a slot to `tempinbuf` is the copy of its frame. -/
theorem Port.store_bytes (p : Port) (slot : RxFrame) :
  { p with
    tempinbuf :=
      (p.tempinbuf.copy 0 slot.buffer slot.length).set32 tempinbufsOffset slot.length.toUInt32
    txbuf := Function.update p.txbuf 0
      ((p.txbuf 0).copy 0 (slot.buffer.drop txbufOffset) (slot.length - txbufOffset)) }
    = p.store slot.bytes
  := by
  have hframe : p.tempinbuf.copy 0 (Bytes.ofList slot.bytes) slot.length
      = p.tempinbuf.copy 0 slot.buffer slot.length := by
    apply Bytes.copy_congr
    intro i hi
    rw [RxFrame.bytes, Bytes.ofList_take hi]
  have hbehind : (p.txbuf 0).copy 0 ((Bytes.ofList slot.bytes).drop txbufOffset)
        (slot.length - txbufOffset)
      = (p.txbuf 0).copy 0 (slot.buffer.drop txbufOffset) (slot.length - txbufOffset) := by
    apply Bytes.copy_congr
    intro i hi
    rw [Bytes.drop, RxFrame.bytes, Bytes.ofList_take (by omega)]
    rfl
  have hlength : slot.bytes.length = slot.length := Bytes.length_take _ _
  rw [store, taken, hlength, hframe, hbehind]

/-- `eth_receive` takes the first frame of the queue at once. -/
theorem ethReceive_of_cons {p : Port} {frame : List UInt8} {frames : List (List UInt8)}
    (h : p.frames = frame :: frames) (yields : List Arrivals) :
  ∃ rxQueue : RingBuffer ethercatRxQueueSize RxFrame,
    rxQueue.contents.map RxFrame.bytes = frames
    ∧ ethReceive yields p = (frame.length, { p.store frame with rxQueue := rxQueue })
  := by
  obtain ⟨slot, rxQueue, hpop, rfl, hrest⟩ := ethercatRxQueuePop_of_cons h
  refine ⟨rxQueue, hrest, ?_⟩
  rw [ethReceive.eq_def, hpop, ← p.store_bytes, RxFrame.bytes, Bytes.length_take]

/-- `eth_receive` takes a frame from the queue, if one is there before the timer expires. -/
theorem ethReceive_eq (yields : List Arrivals) (p : Port) :
  ∃ rxQueue : RingBuffer ethercatRxQueueSize RxFrame,
    rxQueue.contents.map RxFrame.bytes = (takeFrame (yields.map arrived) p.frames).2
    ∧ ethReceive yields p
      = (takeFrame (yields.map arrived) p.frames).1.elim (0, { p with rxQueue := rxQueue })
        fun frame => (frame.length, { p.store frame with rxQueue := rxQueue })
  := by
  induction yields generalizing p with
  | nil =>
      cases hframes : p.frames with
      | nil =>
          refine ⟨p.rxQueue, hframes, ?_⟩
          rw [ethReceive.eq_def, ethercatRxQueuePop_of_nil hframes]
          rfl
      | cons frame frames => exact ethReceive_of_cons hframes []
  | cons arrivals yields ih =>
      cases hframes : p.frames with
      | nil =>
          obtain ⟨rxQueue, hrest, hreceive⟩ := ih (p.arrive arrivals)
          obtain ⟨rxQueue', harrive⟩ := p.arrive_eq arrivals
          rw [p.frames_arrive, hframes] at hrest hreceive
          refine ⟨rxQueue, hrest, ?_⟩
          rw [ethReceive.eq_def, ethercatRxQueuePop_of_nil hframes]
          dsimp only
          rw [hreceive, harrive]
          rfl
      | cons frame frames => exact ethReceive_of_cons hframes (arrivals :: yields)

/-- A frame taken was in the queue or has arrived while `eth_receive` waited, and so were the
frames left. -/
theorem mem_takeFrame {yields : List (List (List UInt8))} {frames : List (List UInt8)}
    {frame : List UInt8}
    (h : (takeFrame yields frames).1 = some frame ∨ frame ∈ (takeFrame yields frames).2) :
  frame ∈ frames ∨ ∃ arrivals ∈ yields, frame ∈ arrivals
  := by
  induction yields generalizing frames with
  | nil =>
      cases frames with
      | nil => simp [takeFrame] at h
      | cons first frames =>
          left
          simp only [takeFrame, Option.some.injEq] at h
          rcases h with rfl | h
          · exact List.mem_cons_self
          · apply List.mem_cons_of_mem _ h
  | cons arrivals yields ih =>
      cases frames with
      | nil =>
          right
          rcases ih h with h | ⟨arrivals', hmem, h⟩
          · rcases mem_foldl_boundedPush h with h | h
            · cases h
            · exact ⟨arrivals, List.mem_cons_self, h⟩
          · exact ⟨arrivals', List.mem_cons_of_mem _ hmem, h⟩
      | cons first frames =>
          left
          simp only [takeFrame, Option.some.injEq] at h
          rcases h with rfl | h
          · exact List.mem_cons_self
          · apply List.mem_cons_of_mem _ h

/-- With nothing in the queue and nothing arriving, there is nothing to take. -/
theorem takeFrame_of_flatten_nil {yields : List (List (List UInt8))} (h : yields.flatten = []) :
  takeFrame yields [] = (none, [])
  := by
  induction yields with
  | nil => rfl
  | cons arrivals yields ih =>
      rw [List.flatten_cons, List.append_eq_nil_iff] at h
      rw [takeFrame, h.1]
      apply ih h.2

/-- The only frame that arrives is the one taken. -/
theorem takeFrame_of_flatten_singleton {yields : List (List (List UInt8))} {frame : List UInt8}
    (h : yields.flatten = [frame]) :
  takeFrame yields [] = (some frame, [])
  := by
  induction yields with
  | nil => cases h
  | cons arrivals yields ih =>
      rw [List.flatten_cons] at h
      rw [takeFrame]
      rcases List.append_eq_singleton_iff.mp h with ⟨harrivals, hyields⟩ | ⟨harrivals, -⟩
      · rw [harrivals]
        apply ih hyields
      · rw [harrivals]
        apply takeFrame_cons

/-! ### Delivering a frame -/

/-- The payload of a frame, which follows the Ethernet header. -/
def payload (frame : List UInt8) : Bytes :=
  (Bytes.ofList frame).drop ethercatFrameHeader

/-- The number of bytes of the payload. -/
def payloadLength (frame : List UInt8) : ℕ :=
  frame.length - ethercatFrameHeader

/-- What is received as the payload of a frame: in a frame that is longer than `tempinbuf`,
`tempinbufs` has replaced four bytes. -/
def receivedPayload (frame : List UInt8) : Bytes :=
  ((Bytes.ofList frame).set32 tempinbufsOffset frame.length.toUInt32).drop ethercatFrameHeader

/-- As far as `tempinbuf` goes, the payload is received. -/
theorem receivedPayload_of_lt (frame : List UInt8) {i : ℕ}
    (h : ethercatFrameHeader + i < tempinbufsOffset) :
  receivedPayload frame i = payload frame i
  := by
  apply Bytes.set32_disjoint
  left
  omega

/-- The payload of a frame that fits into `tempinbuf` is received. -/
theorem receivedPayload_of_le {frame : List UInt8} (h : frame.length ≤ ecBufsize) {i : ℕ}
    (hi : i < payloadLength frame) :
  receivedPayload frame i = payload frame i
  := by
  apply receivedPayload_of_lt
  rw [payloadLength] at hi
  rw [ecBufsize] at h
  rw [tempinbufsOffset]
  omega

/-- A frame is taken as the reply for an index: it is long enough to have a payload and not too
long for a buffer, and in `tempinbuf` there is then the type of EtherCAT and the index, which
waits for a reply. -/
structure Port.Accepts (p : Port) (frame : List UInt8) (idx : ℕ) : Prop where
  lt_length : ethercatFrameHeader < frame.length
  length_le : payloadLength frame ≤ ecBufsize
  ethertype : p.taken frame 12 = ethercatEthertypeHigh ∧ p.taken frame 13 = ethercatEthertypeLow
  index : (p.taken frame (ethercatFrameHeader + 3)).toNat = idx
  index_mem : 0 < idx ∧ idx < ecMaxbuf
  waits : p.rxbufstat idx = .tx ∨ p.rxbufstat idx = .alloc

/-- The port after a frame has been taken from the queue. -/
def Port.deliver (p : Port) (frame : List UInt8) : Port :=
  acceptFrame frame.length (p.store frame)

/-- The payload of an accepted frame goes to the receive buffer of its index. -/
theorem Port.deliver_of_accepts {p : Port} {frame : List UInt8} {idx : ℕ}
    (h : p.Accepts frame idx) :
  p.deliver frame
    = { p.store frame with
        rxbuf := Function.update p.rxbuf idx
          ((p.rxbuf idx).copy 0 (receivedPayload frame) (payloadLength frame))
        rxbufstat := Function.update p.rxbufstat idx .rcvd }
  := by
  have hlength := h.lt_length
  have hpayload : (p.rxbuf idx).copy 0 ((p.taken frame).drop ethercatFrameHeader)
      (frame.length - ethercatFrameHeader)
        = (p.rxbuf idx).copy 0 (receivedPayload frame) (payloadLength frame) := by
    apply Bytes.copy_congr
    intro i hi
    apply Bytes.copy_apply_congr
    apply Bytes.copy_zero_of_lt
    omega
  rw [deliver, acceptFrame, if_pos hlength, store_tempinbuf, if_pos h.ethertype]
  dsimp only
  rw [h.index, store_rxbuf, store_rxbufstat, if_pos ⟨h.index_mem, h.waits⟩,
    if_pos ⟨Nat.sub_pos_of_lt hlength, h.length_le⟩, hpayload]
  rfl

/-- A frame that is not accepted is lost. -/
theorem Port.deliver_of_not_accepts {p : Port} {frame : List UInt8}
    (h : ∀ idx, ¬ p.Accepts frame idx) :
  p.deliver frame = p.store frame
  := by
  rw [deliver, acceptFrame]
  split
  · rename_i hlength
    split
    · rename_i hethertype
      dsimp only
      split
      · rename_i hindex
        split
        · rename_i hpayload
          exact absurd ⟨hlength, hpayload.2, hethertype, rfl, hindex.1, hindex.2⟩ (h _)
        · rfl
      · rfl
    · rfl
  · rfl

/-- Delivering a frame does not look at the queue. -/
theorem acceptFrame_withQueue (bytesRead : ℕ) (p : Port)
    (rxQueue : RingBuffer ethercatRxQueueSize RxFrame) :
  acceptFrame bytesRead { p with rxQueue := rxQueue }
    = { acceptFrame bytesRead p with rxQueue := rxQueue }
  := by
  unfold acceptFrame
  dsimp only
  split_ifs
  all_goals rfl

/-- `ecx_waitinframe` takes a frame from the queue and delivers it, unless the reply is there. -/
theorem ecxWaitinframe_eq {p : Port} {idx : ℕ} (h : p.rxbufstat idx ≠ .rcvd)
    (yields : List Arrivals) :
  ∃ rxQueue : RingBuffer ethercatRxQueueSize RxFrame,
    rxQueue.contents.map RxFrame.bytes = (takeFrame (yields.map arrived) p.frames).2
    ∧ (ecxWaitinframe idx yields p).2
      = { (takeFrame (yields.map arrived) p.frames).1.elim p p.deliver with rxQueue := rxQueue }
  := by
  obtain ⟨rxQueue, hrest, hreceive⟩ := ethReceive_eq yields p
  refine ⟨rxQueue, hrest, ?_⟩
  rw [ecxWaitinframe, if_neg h, hreceive]
  cases hframe : (takeFrame (yields.map arrived) p.frames).1 with
  | none => rfl
  | some frame =>
      exact acceptFrame_withQueue frame.length (p.store frame) rxQueue

end EthercatMaster
