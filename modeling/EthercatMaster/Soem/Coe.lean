import EthercatMaster.Library.Loop
import EthercatMaster.Soem.Mbx

/-!
# CANopen over EtherCAT

`ec_SDOwrite` and `ec_SDOread` write and read an object of a slave through its mailboxes.  An object
of up to four bytes is transferred with the request; a larger one follows it, in segments if it
does not fit into the mailbox.
-/

namespace EthercatMaster

/-- `ECT_COES_SDOREQ`. -/
def ectCoesSdoreq : UInt16 := 0x02

/-- `ECT_COES_SDORES`. -/
def ectCoesSdores : UInt16 := 0x03

/-- `ECT_SDO_DOWN_INIT`. -/
def ectSdoDownInit : UInt8 := 0x21

/-- `ECT_SDO_DOWN_EXP`. -/
def ectSdoDownExp : UInt8 := 0x23

/-- `ECT_SDO_DOWN_INIT_CA`. -/
def ectSdoDownInitCa : UInt8 := 0x31

/-- `ECT_SDO_UP_REQ`. -/
def ectSdoUpReq : UInt8 := 0x40

/-- `ECT_SDO_UP_REQ_CA`. -/
def ectSdoUpReqCa : UInt8 := 0x50

/-- `ECT_SDO_SEG_UP_REQ`. -/
def ectSdoSegUpReq : UInt8 := 0x60

/-- `ECT_SDO_ABORT`. -/
def ectSdoAbort : UInt8 := 0x80

/-! ### Messages -/

/-- The position of `MbxHeader.length` in `ec_SDOt`, and of the fields after it. -/
def posLength : ℕ := 0
def posAddress : ℕ := 2
def posPriority : ℕ := 4
def posCommand : ℕ := 8
def posIndex : ℕ := 9
def posSubIndex : ℕ := 11
def posLdata : ℕ := 12
def posLdata1 : ℕ := 16

/-- The fields that every request of an SDO service starts with. -/
def sdoHeader (length : UInt16) (cnt : UInt8) (out : Bytes) : Bytes :=
  ((((out.set16 posLength length).set16 posAddress 0).set8 posPriority 0).set8 posMbxtype
    (ectMbxtCoe + (cnt <<< 4))).set16 posCanOpen (ectCoesSdoreq <<< 12)

/-- The object that a request is about. -/
def sdoObject (Command : UInt8) (Index : UInt16) (SubIndex : UInt8) (out : Bytes) : Bytes :=
  ((out.set8 posCommand Command).set16 posIndex Index).set8 posSubIndex SubIndex

/-- The message is a response of an SDO service. -/
def isSdoResponse (b : Bytes) : Bool :=
  b posMbxtype &&& 0x0f = ectMbxtCoe ∧ b.uint16 posCanOpen >>> 12 = ectCoesSdores

/-- How an exchange ends: the work counter of the last step, and the answer if there is one. -/
structure Exchanged (σ : Type) where
  wkc : ℤ
  answer : Option Bytes
  x : CoeState σ

section Transfer

variable {σ : Type} (link : Link σ) (slave : MbxSlave)

/-- The counter of the mailbox goes on. -/
def CoeState.next (x : CoeState σ) : CoeState σ :=
  { x with mbx_cnt := ecNextmbxcnt x.mbx_cnt }

/-- A request is sent, and its answer is received into a cleared buffer. -/
def exchange (Timeout : ℤ) (out : Bytes) (x : CoeState σ) : Exchanged σ :=
  let (wkc, x) := ecxMbxsend link slave out ecTimeouttxm x
  if 0 < wkc then
    let ((wkc, MbxIn), x) := ecxMbxreceive link slave ecClearmbx Timeout x
    if 0 < wkc then ⟨wkc, some MbxIn, x⟩ else ⟨wkc, none, x⟩
  else ⟨wkc, none, x⟩

/-- An error is reported by `ecx_packeterror`. -/
def packetError (Index : UInt16) (SubIdx : UInt8) (ErrorCode : UInt16) (x : CoeState σ) :
    CoeState σ :=
  { x with errors :=
      x.errors.packeterror (link.currentTime x.link) slave.Slave Index SubIdx ErrorCode }

/-- An answer that is not expected is reported: it is an abort or an unexpected frame. -/
def unexpected (Index : UInt16) (SubIdx : UInt8) (answer : Bytes) (x : CoeState σ) : CoeState σ :=
  if answer posCommand = ectSdoAbort then
    let AbortCode := answer.uint32 posLdata
    { x with errors :=
        x.errors.sdoError (link.currentTime x.link) slave.Slave Index SubIdx AbortCode }
  else packetError link slave Index SubIdx 1 x

/-! ### Download -/

/-- How much of `psize` bytes goes into a frame with room for `maxdata`, and whether more are
left. -/
def frameData (psize maxdata : ℤ) : ℕ × Bool :=
  let framedatasize := psize % 65536
  if maxdata < framedatasize then ((maxdata % 65536).toNat, true) else (framedatasize.toNat, false)

/-- The variables of the loop over the segments of a download. -/
structure Download (σ : Type) where
  MbxOut : Bytes
  hp : ℕ
  psize : ℤ
  toggle : UInt8
  NotLast : Bool
  wkc : ℤ
  x : CoeState σ

/-- The command and the length of a segment. -/
def segmentCommand (framedatasize : ℕ) (NotLast : Bool) : UInt8 × UInt16 :=
  if !NotLast ∧ framedatasize < 7 then ((0x01 : UInt8) + (7 - framedatasize).toUInt8 <<< 1, 0x0a)
  else (if NotLast then 0x00 else 0x01, (framedatasize + 3).toUInt16)

/-- A segment is sent. -/
def Download.segment (Index : UInt16) (SubIdx : UInt8) (p : Bytes) (Timeout maxdata : ℤ)
    (d : Download σ) : Download σ :=
  let (framedatasize, NotLast) := frameData d.psize maxdata
  let (Command, length) := segmentCommand framedatasize NotLast
  let x := d.x.next
  let out := (sdoHeader length x.mbx_cnt d.MbxOut).set8 posCommand (Command + d.toggle)
  let out := out.copy posIndex (p.drop d.hp) framedatasize
  let r := exchange link slave Timeout out x
  let d := { d with
    MbxOut := out
    hp := d.hp + framedatasize
    psize := d.psize - framedatasize
    toggle := d.toggle ^^^ 0x10 }
  match r.answer with
  | none => { d with NotLast := NotLast, wkc := r.wkc, x := r.x }
  | some MbxIn =>
      if isSdoResponse MbxIn ∧ MbxIn posCommand &&& 0xe0 = 0x20 then
        { d with NotLast := NotLast, wkc := r.wkc, x := r.x }
      else { d with NotLast := false, wkc := 0, x := unexpected link slave Index SubIdx MbxIn r.x }

/-- The mailbox of the slave is emptied. -/
def emptyMbx (x : CoeState σ) : CoeState σ :=
  (ecxMbxreceive link slave ecClearmbx 0 x).2

/-- The answer to the request of a download is the one expected. -/
def isDownloadAnswer (out MbxIn : Bytes) : Bool :=
  isSdoResponse MbxIn ∧ MbxIn.uint16 posIndex = out.uint16 posIndex
    ∧ MbxIn posSubIndex = out posSubIndex

/-- The request of an expedited download. -/
def expeditedRequest (Index : UInt16) (SubIdx : UInt8) (psize : ℤ) (p : Bytes) (cnt : UInt8) :
    Bytes :=
  (sdoObject (ectSdoDownExp ||| (((4 - psize).toNat.toUInt8 <<< 2) &&& 0x0c)) Index SubIdx
    (sdoHeader 0x0a cnt ecClearmbx)).copy posLdata p psize.toNat

/-- The request of a normal download. -/
def downloadRequest (Index : UInt16) (SubIdx : UInt8) (CA : Bool) (psize : ℤ) (p : Bytes)
    (framedatasize : ℕ) (cnt : UInt8) : Bytes :=
  ((sdoObject (if CA then ectSdoDownInitCa else ectSdoDownInit) Index
    (if CA ∧ 1 < SubIdx then 1 else SubIdx)
    (sdoHeader (0x0a + framedatasize).toUInt16 cnt ecClearmbx)).set32 posLdata
      (psize % 4294967296).toNat.toUInt32).copy posLdata1 p framedatasize

/-- `ecx_SDOwrite`: the work counter, if it returns. -/
def ecxSDOwrite (Index : UInt16) (SubIdx : UInt8) (CA : Bool) (psize : ℤ) (p : Bytes) (Timeout : ℤ)
    (fuel : ℕ) (x : CoeState σ) : Option (ℤ × CoeState σ) :=
  let x := (emptyMbx link slave x).next
  let maxdata : ℤ := slave.mbx_l.toNat - 0x10
  if psize ≤ 4 ∧ !CA then
    let out := expeditedRequest Index SubIdx psize p x.mbx_cnt
    let r := exchange link slave Timeout out x
    match r.answer with
    | none => some (r.wkc, r.x)
    | some MbxIn =>
        if isDownloadAnswer out MbxIn then some (r.wkc, r.x)
        else some (0, unexpected link slave Index SubIdx MbxIn r.x)
  else
    let (framedatasize, NotLast) := frameData psize maxdata
    let out := downloadRequest Index SubIdx CA psize p framedatasize x.mbx_cnt
    let r := exchange link slave Timeout out x
    match r.answer with
    | none => some (r.wkc, r.x)
    | some MbxIn =>
        if isDownloadAnswer out MbxIn then
          (loop Download.NotLast
            (Download.segment link slave Index SubIdx p Timeout (maxdata + 7)) fuel
            ⟨out, framedatasize, psize - framedatasize, 0, NotLast, r.wkc, r.x⟩).map
              fun d => (d.wkc, d.x)
        else some (0, unexpected link slave Index SubIdx MbxIn r.x)

/-! ### Upload -/

/-- The variables of the loop over the segments of an upload. -/
structure Upload (σ : Type) where
  MbxOut : Bytes
  p : Bytes
  hp : ℕ
  psize : ℤ
  toggle : UInt8
  NotLast : Bool
  wkc : ℤ
  x : CoeState σ

/-- The size of the data in a message after some bytes, as a `uint16`. -/
def dataSize (MbxIn : Bytes) (before : UInt16) : ℕ :=
  (MbxIn.uint16 posLength - before).toNat

/-- The size of the data of a segment: the unused bytes of a last segment of seven are
subtracted. -/
def segmentSize (MbxIn : Bytes) : ℕ :=
  let Framedatasize := dataSize MbxIn 3
  if MbxIn posCommand &&& 0x01 ≠ 0 ∧ Framedatasize = 7 then
    7 - ((MbxIn posCommand &&& 0x0e) >>> 1).toNat
  else Framedatasize

/-- A segment is asked for. -/
def Upload.segment (index : UInt16) (subindex : UInt8) (timeout : ℤ) (u : Upload σ) : Upload σ :=
  let x := u.x.next
  let out := (sdoObject (ectSdoSegUpReq + u.toggle) index subindex
    (sdoHeader 0x0a x.mbx_cnt u.MbxOut)).set32 posLdata 0
  let r := exchange link slave timeout out x
  let u := { u with MbxOut := out, toggle := u.toggle ^^^ 0x10 }
  match r.answer with
  | none => { u with wkc := r.wkc, x := r.x }
  | some MbxIn =>
      if isSdoResponse MbxIn ∧ MbxIn posCommand &&& 0xe0 = 0x00 then
        { u with
          NotLast := MbxIn posCommand &&& 0x01 = 0
          p := u.p.copy u.hp (MbxIn.drop posIndex) (segmentSize MbxIn)
          hp := u.hp + segmentSize MbxIn
          psize := u.psize + segmentSize MbxIn
          wkc := r.wkc
          x := r.x }
      else
        { u with NotLast := false, wkc := 0, x := unexpected link slave index subindex MbxIn r.x }

/-- What `ecx_SDOread` returns: the work counter, the size and the buffer. -/
structure SdoRead where
  wkc : ℤ
  psize : ℤ
  p : Bytes

/-- The request of an upload. -/
def uploadRequest (index : UInt16) (subindex : UInt8) (CA : Bool) (cnt : UInt8) : Bytes :=
  (sdoObject (if CA then ectSdoUpReqCa else ectSdoUpReq) index subindex
    (sdoHeader 0x0a cnt ecClearmbx)).set32 posLdata 0

/-- `ecx_SDOread`: what it returns, if it does. -/
def ecxSDOread (index : UInt16) (subindex : UInt8) (CA : Bool) (psize : ℤ) (p : Bytes)
    (timeout : ℤ) (fuel : ℕ) (x : CoeState σ) : Option (SdoRead × CoeState σ) :=
  let x := (emptyMbx link slave x).next
  let subindex := if CA ∧ 1 < subindex then 1 else subindex
  let out := uploadRequest index subindex CA x.mbx_cnt
  let r := exchange link slave timeout out x
  let tooSmall := some (⟨0, psize, p⟩, packetError link slave index subindex 3 r.x)
  match r.answer with
  | none => some (⟨r.wkc, psize, p⟩, r.x)
  | some MbxIn =>
      if isSdoResponse MbxIn ∧ MbxIn.uint16 posIndex = out.uint16 posIndex then
        if MbxIn posCommand &&& 0x02 ≠ 0 then
          let bytesize := 4 - ((MbxIn posCommand >>> 2) &&& 0x03).toNat
          if bytesize ≤ psize then
            some (⟨r.wkc, bytesize, p.copy 0 (MbxIn.drop posLdata) bytesize⟩, r.x)
          else tooSmall
        else
          let SDOlen := (MbxIn.uint32 posLdata).toInt32.toInt
          if SDOlen ≤ psize then
            let Framedatasize := dataSize MbxIn 10
            if Framedatasize < SDOlen then
              (loop Upload.NotLast (Upload.segment link slave index subindex timeout) fuel
                ⟨out, p.copy 0 (MbxIn.drop posLdata1) Framedatasize, Framedatasize, Framedatasize,
                  0, true, r.wkc, r.x⟩).map fun u => (⟨u.wkc, u.psize, u.p⟩, u.x)
            else
              some (⟨r.wkc, SDOlen, p.copy 0 (MbxIn.drop posLdata1) SDOlen.toNat⟩, r.x)
          else tooSmall
      else some (⟨0, psize, p⟩, unexpected link slave index subindex MbxIn r.x)

end Transfer

end EthercatMaster
