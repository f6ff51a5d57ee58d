import EthercatMaster.Soem.Datagram

/-!
# The exchange of process data

`ecx_send_processdata_group` sends the process image in one frame for each segment, and
`ecx_receive_processdata_group` waits for the replies and copies them back.  A stack of indices
connects the two.  With distributed clocks, the first frame has a second datagram that reads the
system time.
-/

namespace EthercatMaster

/-- `EC_NOFRAME`. -/
def ecNoframe : ℤ := -1

/-- `ec_groupt`: the layout of the process image.  Pointers into the image are positions. -/
structure Group where
  logstartaddr : UInt32
  Obytes : ℕ
  outputs : ℕ
  Ibytes : ℕ
  inputs : ℕ
  hasdc : Bool
  DCnext : ℕ
  blockLRW : Bool
  nsegments : ℕ
  Isegment : ℕ
  Ioffset : ℕ
  outputsWKC : ℕ
  inputsWKC : ℕ
  IOsegment : ℕ → ℕ

/-- A place of the index stack: the index, where its data goes, and how much of it. -/
structure IdxEntry where
  idx : ℕ
  data : ℕ
  length : ℕ
deriving DecidableEq, Repr

/-- `ec_idxstackT`: the places pushed, and how many of them have been pulled. -/
structure Idxstack where
  entries : List IdxEntry
  pulled : ℕ
deriving DecidableEq, Repr

/-- `ecx_contextt`, with the process image. -/
structure Context where
  port : Port
  group : Group
  configadr : ℕ → UInt16
  idxstack : Idxstack
  DCtO : ℕ
  DCl : ℕ
  DCtime : UInt64
  image : Bytes

/-- The `uint16` of an `int`. -/
def uint16OfInt (n : ℤ) : ℕ := (n % 65536).toNat

/-! ### The index stack -/

/-- `ecx_pushindex`. -/
def ecxPushindex (entry : IdxEntry) (s : Idxstack) : Idxstack :=
  if s.entries.length < ecMaxbuf then { s with entries := s.entries ++ [entry] } else s

/-- `ecx_clearindex`. -/
def ecxClearindex : Idxstack := ⟨[], 0⟩

/-! ### Sending -/

/-- The variables of `ecx_main_send_processdata`. -/
structure SendState where
  context : Context
  first : Bool
  length : ℤ
  logAdr : UInt32
  data : ℕ

/-- The datagram of a segment is set up, with the datagram of the system time if it is the first
one and there are distributed clocks. -/
def setupSegment (com : EcCmdtype) (idx : ℕ) (sublength : ℤ) (x : SendState) : SendState :=
  let c := x.context
  let port := ecxSetupdatagram com idx x.logAdr.toUInt16 (x.logAdr >>> 16).toUInt16
    (uint16OfInt sublength) (c.image.drop x.data) c.port
  if x.first then
    let (offset, port) := ecxAdddatagram .frmw idx (c.configadr c.group.DCnext) ectRegDcsystime 8
      (Bytes.ofUInt64 c.DCtime) port
    { x with
      context := { c with port := port, DCl := uint16OfInt sublength, DCtO := offset }
      first := false }
  else { x with context := { c with port := port } }

/-- A round of the loops: a segment is sent, and its index pushed with the place for its reply. -/
def sendSegment (com : EcCmdtype) (sublength : ℤ) (offset : ℕ) (sendOk : ℕ → Bool)
    (x : SendState) : SendState :=
  let (idx, port) := ecxGetindex x.context.port
  let x := setupSegment com idx sublength { x with context := { x.context with port := port } }
  let port := (ecxOutframe idx (sendOk idx) x.context.port).2
  { x with
    context :=
      { x.context with
        port := port
        idxstack := ecxPushindex ⟨idx, x.data + offset, uint16OfInt sublength⟩ x.context.idxstack }
    length := x.length - sublength
    logAdr := x.logAdr + UInt32.ofInt sublength
    data := (x.data + sublength).toNat }

/-- The loops, from a segment on: `sublength` is the length of a segment, given what is left.
The number of rounds left is bounded by `rounds`. -/
def sendSegments (com : EcCmdtype) (sublength : ℕ → ℤ → ℤ) (offset : ℕ) (sendOk : ℕ → Bool) :
    ℕ → ℕ → SendState → SendState
  | rounds, currentsegment, x =>
      let y := sendSegment com (sublength currentsegment x.length) offset sendOk x
      match rounds with
      | 0 => y
      | rounds + 1 =>
          if y.length ≠ 0 ∧ currentsegment + 1 < x.context.group.nsegments then
            sendSegments com sublength offset sendOk rounds (currentsegment + 1) y
          else y

/-- The length of a segment of the inputs, the first of which may also hold outputs. -/
def inputSublength (g : Group) (currentsegment : ℕ) (_ : ℤ) : ℤ :=
  if currentsegment = g.Isegment then (g.IOsegment currentsegment : ℤ) - g.Ioffset
  else g.IOsegment currentsegment

/-- The length of a segment of the outputs, the last of which may also hold inputs. -/
def outputSublength (g : Group) (currentsegment : ℕ) (length : ℤ) : ℤ :=
  if length - g.IOsegment currentsegment < 0 then length else g.IOsegment currentsegment

/-- The length of a segment of the whole image. -/
def imageSublength (g : Group) (currentsegment : ℕ) (_ : ℤ) : ℤ :=
  g.IOsegment currentsegment

/-- The inputs are read, if there are any. -/
def sendInputs (sendOk : ℕ → Bool) (x : SendState) : SendState :=
  let g := x.context.group
  if g.Ibytes ≠ 0 then
    sendSegments .lrd (inputSublength g) 0 sendOk g.nsegments g.Isegment
      { x with data := g.inputs, length := g.Ibytes, logAdr := x.logAdr + g.Obytes.toUInt32 }
  else x

/-- The outputs are written, if there are any. -/
def sendOutputs (sendOk : ℕ → Bool) (x : SendState) : SendState :=
  let g := x.context.group
  if g.Obytes ≠ 0 then
    sendSegments .lwr (outputSublength g) 0 sendOk g.nsegments 0
      { x with data := g.outputs, length := g.Obytes, logAdr := g.logstartaddr }
  else x

/-- The image is written and read at once.  In an overlapping image, the inputs are stored behind
the outputs. -/
def sendImage (offset : ℕ) (sendOk : ℕ → Bool) (x : SendState) : SendState :=
  let g := x.context.group
  if g.Obytes ≠ 0 then
    sendSegments .lrw (imageSublength g) offset sendOk g.nsegments 0 { x with data := g.outputs }
  else
    sendSegments .lrw (imageSublength g) 0 sendOk g.nsegments 0 { x with data := g.inputs }

/-- `ecx_main_send_processdata`. -/
def ecxMainSendProcessdata (useOverlapIo : Bool) (sendOk : ℕ → Bool) (c : Context) :
    ℤ × Context :=
  let g := c.group
  let length := if useOverlapIo then max g.Obytes g.Ibytes else g.Obytes + g.Ibytes
  let x : SendState := ⟨c, g.hasdc, length, g.logstartaddr, 0⟩
  if length ≠ 0 then
    if g.blockLRW then (1, (sendOutputs sendOk (sendInputs sendOk x)).context)
    else (1, (sendImage (if useOverlapIo then g.Obytes else 0) sendOk x).context)
  else (0, c)

/-- `ec_send_processdata`. -/
def ecSendProcessdata (sendOk : ℕ → Bool) (c : Context) : ℤ × Context :=
  ecxMainSendProcessdata false sendOk c

/-! ### Receiving -/

/-- What happens on the network around a wait: what arrives before it, and during its yields. -/
structure Wait where
  arrivals : Arrivals
  yields : List Arrivals

/-- The variables of `ecx_receive_processdata_group`. -/
structure ReceiveState where
  context : Context
  wkc : ℤ
  validWkc : Bool
  first : Bool

/-- The reply to a command that reads is copied to the process image. -/
def receiveRead (entry : IdxEntry) (wkc2 : ℤ) (x : ReceiveState) : ReceiveState :=
  let c := x.context
  let rxbuf := c.port.rxbuf entry.idx
  if x.first then
    { context :=
        { c with
          image := c.image.copy entry.data (rxbuf.drop ecHeadersize) c.DCl
          DCtime := rxbuf.uint64 c.DCtO }
      wkc := (rxbuf.uint16 (ecHeadersize + c.DCl)).toNat
      validWkc := true
      first := false }
  else
    { x with
      context := { c with image := c.image.copy entry.data (rxbuf.drop ecHeadersize) entry.length }
      wkc := x.wkc + wkc2
      validWkc := true }

/-- The reply to a command that only writes. -/
def receiveWrite (entry : IdxEntry) (wkc2 : ℤ) (x : ReceiveState) : ReceiveState :=
  let c := x.context
  let rxbuf := c.port.rxbuf entry.idx
  if x.first then
    { context := { c with DCtime := rxbuf.uint64 c.DCtO }
      wkc := (rxbuf.uint16 (ecHeadersize + c.DCl)).toNat * 2
      validWkc := true
      first := false }
  else
    { x with wkc := x.wkc + wkc2 * 2, validWkc := true }

/-- What is done with the receive buffer of an index after the wait for it. -/
def receiveReply (entry : IdxEntry) (wkc2 : ℤ) (x : ReceiveState) : ReceiveState :=
  let com := x.context.port.rxbuf entry.idx ecCmdoffset
  if ecNoframe < wkc2 then
    if com = EcCmdtype.lrd.code ∨ com = EcCmdtype.lrw.code then receiveRead entry wkc2 x
    else if com = EcCmdtype.lwr.code then receiveWrite entry wkc2 x
    else x
  else x

/-- The port after the wait for an index. -/
def Port.wait (idx : ℕ) (wait : Wait) (p : Port) : BufStat × Port :=
  ecxWaitinframe idx wait.yields (p.arrive wait.arrivals)

/-- A round of the loop: the index is waited for and released. -/
def receiveEntry (entry : IdxEntry) (wait : Wait) (x : ReceiveState) : ReceiveState :=
  let (wkc2, port) := x.context.port.wait entry.idx wait
  let x := receiveReply entry wkc2.toInt { x with context := { x.context with port := port } }
  { x with
    context := { x.context with port := ecxSetbufstat entry.idx .empty x.context.port } }

/-- The loop over the places of the stack, from a position on. -/
def receiveEntries (waits : ℕ → Wait) : ℕ → List IdxEntry → ReceiveState → ReceiveState
  | _, [], x => x
  | pos, entry :: entries, x =>
      receiveEntries waits (pos + 1) entries (receiveEntry entry (waits pos) x)

/-- `ecx_receive_processdata_group`. -/
def ecxReceiveProcessdataGroup (waits : ℕ → Wait) (c : Context) : ℤ × Context :=
  let x := receiveEntries waits c.idxstack.pulled (c.idxstack.entries.drop c.idxstack.pulled)
    ⟨c, 0, false, c.group.hasdc⟩
  (if x.validWkc then x.wkc else ecNoframe, { x.context with idxstack := ecxClearindex })

end EthercatMaster
