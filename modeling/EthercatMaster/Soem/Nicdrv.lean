import EthercatMaster.Library.Bytes
import EthercatMaster.Library.RingBuffer

/-!
# The port

The port of SOEM on the network interface: the sixteen transmit and receive buffers with their
states, and the ring of received frames that the interface fills and `ecx_waitinframe` empties.
The mutexes make each operation on the ring, and each call of the port, one step.

In memory, `tempinbuf` is followed by `tempinbufs` and the transmit buffers.  A frame that is longer
than `tempinbuf` reaches into them, and `tempinbufs` is written after the frame; the buffer
`tempinbuf` here is the memory from there on, as far as a frame reaches.
-/

namespace EthercatMaster

/-- `EC_MAXBUF`. -/
def ecMaxbuf : ℕ := 16

/-- `EC_BUFSIZE`, the size of `ec_bufT`. -/
def ecBufsize : ℕ := 1518

/-- How far behind `tempinbuf` the number `tempinbufs` is in `ecx_portt`: it is aligned to four
bytes. -/
def tempinbufsOffset : ℕ := 1520

/-- How far behind `tempinbuf` the first transmit buffer is. -/
def txbufOffset : ℕ := 1524

/-- `ETHERCAT_FRAME_HEADER`, which is also `ETH_HEADERSIZE`. -/
def ethercatFrameHeader : ℕ := 14

/-- `ETHERCAT_ETHERTYPE_HIGH`. -/
def ethercatEthertypeHigh : UInt8 := 0x88

/-- `ETHERCAT_ETHERTYPE_LOW`. -/
def ethercatEthertypeLow : UInt8 := 0xA4

/-- `ETHERCAT_RX_QUEUE_SIZE`. -/
def ethercatRxQueueSize : ℕ := 8

/-- The size of the buffer of an `ethercat_rx_frame_t`. -/
def ethercatRxFrameBytes : ℕ := 1600

/-- `ETHERCAT_MASTER_PORT_MASK`. -/
def ethercatMasterPortMask : UInt32 := 0x00000002

/-- `ec_bufstate`: the state of a receive buffer. -/
inductive BufStat where
  | empty
  | alloc
  | tx
  | rcvd
  | complete
deriving DecidableEq, Repr

/-- The value of a buffer state as an `int`. -/
def BufStat.toInt : BufStat → ℤ
  | empty => 0
  | alloc => 1
  | tx => 2
  | rcvd => 3
  | complete => 4

/-- `ethercat_rx_frame_t`. -/
structure RxFrame where
  length : ℕ
  buffer : Bytes

/-- `ecx_portt`, with the static variables of the driver. -/
structure Port where
  sockhandle : ℤ
  rxbuf : ℕ → Bytes
  rxbufstat : ℕ → BufStat
  tempinbuf : Bytes
  txbuf : ℕ → Bytes
  txbuflength : ℕ → ℕ
  lastidx : ℕ
  rxQueue : RingBuffer ethercatRxQueueSize RxFrame
  callbackAdded : Bool

/-! ### Opening the port -/

/-- The variables after power-up. -/
def Port.init : Port where
  sockhandle := 0
  rxbuf := fun _ _ => 0
  rxbufstat := fun _ => .empty
  tempinbuf := fun _ => 0
  txbuf := fun _ _ => 0
  txbuflength := fun _ => 0
  lastidx := 0
  rxQueue := RingBuffer.empty ⟨0, fun _ => 0⟩ (by decide)
  callbackAdded := false

/-- The Ethernet header written by `ec_setupheader`: the broadcast address, `priMAC`, and the
type of EtherCAT. -/
def ethernetHeader : List UInt8 :=
  [0xff, 0xff, 0xff, 0xff, 0xff, 0xff, 0x02, 0x11, 0x22, 0x33, 0x44, 0x55,
    ethercatEthertypeHigh, ethercatEthertypeLow]

/-- `ec_setupheader`. -/
def ecSetupheader (p : Port) : Port :=
  { p with
    txbuf := fun i =>
      if i < ecMaxbuf then (p.txbuf i).copy 0 (Bytes.ofList ethernetHeader) ethercatFrameHeader
      else p.txbuf i }

/-- `ecx_setupnic`, given whether the interface accepts the callback. -/
def ecxSetupnic (secondary callbackAdd : Bool) (p : Port) : ℤ × Port :=
  if secondary then
    (0, p)
  else if !p.callbackAdded && !callbackAdd then
    (0, p)
  else
    (1,
      ecSetupheader
        { p with
          callbackAdded := true
          rxQueue := p.rxQueue.clear
          sockhandle := 1
          lastidx := 0 })

/-! ### Buffers -/

/-- `ecx_setbufstat`. -/
def ecxSetbufstat (idx : ℕ) (bufstat : BufStat) (p : Port) : Port :=
  { p with rxbufstat := Function.update p.rxbufstat idx bufstat }

@[simp]
theorem ecxSetbufstat_rxbufstat (idx : ℕ) (bufstat : BufStat) (p : Port) :
  (ecxSetbufstat idx bufstat p).rxbufstat = Function.update p.rxbufstat idx bufstat
  := rfl

/-- The index after another one, in the order in which `ecx_getindex` tries them. -/
def nextIndex (idx : ℕ) : ℕ :=
  if ecMaxbuf ≤ idx + 1 then 1 else idx + 1

/-- The loop of `ecx_getindex`, with the rounds left to it: the first free index, if there is
one. -/
def searchIndex (rxbufstat : ℕ → BufStat) : ℕ → ℕ → Option ℕ
  | 0, _ => none
  | rounds + 1, idx =>
      if rxbufstat idx = .empty then some idx
      else searchIndex rxbufstat rounds (nextIndex idx)

/-- `ecx_getindex`: a free index after the last one handed out, or 0. -/
def ecxGetindex (p : Port) : ℕ × Port :=
  match searchIndex p.rxbufstat ecMaxbuf (nextIndex p.lastidx) with
  | some idx => (idx, { ecxSetbufstat idx .alloc p with lastidx := idx })
  | none => (0, p)

/-- `ecx_outframe`, given whether the interface sends the frame: the result, and the frame given
to the interface.  A short frame is filled up with zeros. -/
def ecxOutframe (idx : ℕ) (sendOk : Bool) (p : Port) : (ℤ × Option (List UInt8)) × Port :=
  let length := p.txbuflength idx
  if 0 < length ∧ p.sockhandle ≠ 0 then
    let p :=
      if length < 60 then
        { p with
          txbuf := Function.update p.txbuf idx
            ((p.txbuf idx).copy length (fun _ => 0) (60 - length)) }
      else p
    ((if sendOk then 1 else 0, some ((p.txbuf idx).take (max length 60))),
      ecxSetbufstat idx .tx p)
  else
    ((0, none), ecxSetbufstat idx .tx p)

/-! ### Received frames -/

/-- `ethercat_rx_queue_push`.  The bytes of the slot behind the frame are kept. -/
def ethercatRxQueuePush (pBuffer : Option Bytes) (length : ℕ) (p : Port) : Port :=
  match pBuffer with
  | none => p
  | some buffer =>
      if ethercatRxFrameBytes < length then p
      else
        { p with
          rxQueue := p.rxQueue.push
            ⟨length, (p.rxQueue.slots p.rxQueue.head).buffer.copy 0 buffer length⟩ }

/-- `ethercat_rx_queue_pop`. -/
def ethercatRxQueuePop (p : Port) : Option (RxFrame × Port) :=
  p.rxQueue.pop.map fun (frame, rxQueue) => (frame, { p with rxQueue := rxQueue })

/-- `ether_netif_callback_event_t`. -/
inductive CallbackEvent where
  | linkUp
  | linkDown
  | receiveEtherFrame
deriving DecidableEq, Repr

/-- `ether_netif_frame_t`. -/
structure NetifFrame where
  length : ℕ
  port : UInt32
  buffer : Bytes
  bufferMode : UInt32
  pBuffer : Option Bytes

/-- `ether_netif_callback_args_t`. -/
structure CallbackArgs where
  event : CallbackEvent
  pFramePacket : Option NetifFrame

/-- `ethercat_frame_buffer`. -/
def ethercatFrameBuffer (frame : NetifFrame) : Option Bytes :=
  if frame.bufferMode &&& 1 ≠ 0 then frame.pBuffer else some frame.buffer

/-- `ethercat_frame_is_for_master`. -/
def ethercatFrameIsForMaster (frame : NetifFrame) : Bool :=
  match ethercatFrameBuffer frame with
  | none => false
  | some buffer =>
      if frame.length < ethercatFrameHeader then false
      else if frame.port ≠ 0 ∧ frame.port &&& ethercatMasterPortMask = 0 then false
      else buffer 12 = ethercatEthertypeHigh && buffer 13 = ethercatEthertypeLow

/-- `ethercat_netif_callback`: a frame for the master is put in the queue. -/
def ethercatNetifCallback (pArgs : Option CallbackArgs) (p : Port) : Port :=
  match pArgs with
  | none => p
  | some args =>
      if args.event ≠ .receiveEtherFrame then p
      else
        match args.pFramePacket with
        | none => p
        | some frame =>
            if !ethercatFrameIsForMaster frame then p
            else
              match ethercatFrameBuffer frame with
              | none => p
              | some buffer => ethercatRxQueuePush (some buffer) frame.length p

/-- The calls of the interface while another task waits, in their order. -/
abbrev Arrivals := List (Option CallbackArgs)

/-- The interface calls the callback for each of the arrivals. -/
def Port.arrive (arrivals : Arrivals) (p : Port) : Port :=
  arrivals.foldl (fun p pArgs => ethercatNetifCallback pArgs p) p

/-- `eth_receive`: the length of the frame put in `tempinbuf`, or 0.  The list `yields` has the
arrivals during each yield of the loop, until the timer expires. -/
def ethReceive (yields : List Arrivals) (p : Port) : ℕ × Port :=
  match ethercatRxQueuePop p with
  | some (frame, p) =>
      (frame.length,
        { p with
          -- `tempinbufs` is written over what a long frame has left there
          tempinbuf :=
            (p.tempinbuf.copy 0 frame.buffer frame.length).set32 tempinbufsOffset
              frame.length.toUInt32
          txbuf := Function.update p.txbuf 0
            ((p.txbuf 0).copy 0 (frame.buffer.drop txbufOffset) (frame.length - txbufOffset)) })
  | none =>
      match yields with
      | [] => (0, p)
      | arrivals :: yields => ethReceive yields (p.arrive arrivals)

/-- The part of `ecx_waitinframe` after a frame has been put in `tempinbuf`: its payload goes to
the receive buffer of its index, if that index waits for a reply. -/
def acceptFrame (bytesRead : ℕ) (p : Port) : Port :=
  if ethercatFrameHeader < bytesRead then
    if p.tempinbuf 12 = ethercatEthertypeHigh ∧ p.tempinbuf 13 = ethercatEthertypeLow then
      let rxIdx := (p.tempinbuf (ethercatFrameHeader + 3)).toNat
      if (0 < rxIdx ∧ rxIdx < ecMaxbuf) ∧ (p.rxbufstat rxIdx = .tx ∨ p.rxbufstat rxIdx = .alloc) then
        let payloadLen := bytesRead - ethercatFrameHeader
        if 0 < payloadLen ∧ payloadLen ≤ ecBufsize then
          ecxSetbufstat rxIdx .rcvd
            { p with
              rxbuf := Function.update p.rxbuf rxIdx
                ((p.rxbuf rxIdx).copy 0 (p.tempinbuf.drop ethercatFrameHeader) payloadLen) }
        else p
      else p
    else p
  else p

/-- `ecx_waitinframe`: unless the reply for the index is there, at most one frame is taken from
the queue.  The result is the state of the index. -/
def ecxWaitinframe (idx : ℕ) (yields : List Arrivals) (p : Port) : BufStat × Port :=
  if p.rxbufstat idx = .rcvd then
    (p.rxbufstat idx, p)
  else
    let (bytesRead, p) := ethReceive yields p
    let p := acceptFrame bytesRead p
    (p.rxbufstat idx, p)

end EthercatMaster
