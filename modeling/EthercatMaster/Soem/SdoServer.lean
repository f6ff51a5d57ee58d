import EthercatMaster.Soem.Coe

/-!
# SDO servers

What a slave makes of the requests of SDO transfers: the protocol of the object dictionary, which
the transfers of the master are compared with.  A slave may refuse a value; it then answers with an
abort.  An answer has room for as much data as the mailbox of the slave allows.
-/

namespace EthercatMaster

/-- An object of the dictionary, or all of its subindexes together. -/
structure SdoKey where
  index : UInt16
  subindex : UInt8
  complete : Bool
deriving DecidableEq, Repr

/-- The values of the objects. -/
abbrev Objects := SdoKey → List UInt8

/-- The objects of a list; all others are empty. -/
def Objects.ofList (l : List (SdoKey × List UInt8)) : Objects :=
  fun key => (l.lookup key).getD []

/-- The transfer that a server is in: what has been received of an object of some size, or what is
left to send; and the toggle bit of the next segment. -/
inductive SdoTransfer where
  | idle
  | download (key : SdoKey) (size : ℕ) (received : List UInt8) (toggle : UInt8)
  | upload (rest : List UInt8) (toggle : UInt8)

/-- An SDO server, with the answer in its mailbox that has not been read. -/
structure SdoServer where
  objects : Objects
  transfer : SdoTransfer
  mailbox : Option Bytes

/-- What servers differ in: the length of the mailbox for answers, the values that are accepted, and
the code of an abort. -/
structure SdoRules where
  mbx_rl : ℕ
  accepts : Objects → SdoKey → List UInt8 → Bool
  abortCode : Objects → SdoKey → List UInt8 → UInt32

/-! ### Answers -/

/-- The header of an answer of a CoE service. -/
def coeAnswer (length service : UInt16) (Command : UInt8) (key : SdoKey) : Bytes :=
  (((((ecClearmbx.set16 posLength length).set8 posMbxtype ectMbxtCoe).set16 posCanOpen
    (service <<< 12)).set8 posCommand Command).set16 posIndex key.index).set8 posSubIndex
      key.subindex

/-- An answer that takes an object. -/
def sdoConfirm (Command : UInt8) (key : SdoKey) : Bytes :=
  coeAnswer 0x0a ectCoesSdores Command key

/-- An abort is a request of the slave. -/
def sdoAbort (AbortCode : UInt32) (key : SdoKey) : Bytes :=
  (coeAnswer 0x0a ectCoesSdoreq ectSdoAbort key).set32 posLdata AbortCode

/-- The answer that brings an object of one to four bytes. -/
def expeditedAnswer (value : List UInt8) (key : SdoKey) : Bytes :=
  (sdoConfirm ((0x43 : UInt8) ||| (4 - value.length).toUInt8 <<< 2) key).copy posLdata
    (.ofList value) value.length

/-- The answer that brings the first part of an object. -/
def uploadAnswer (size : ℕ) (part : List UInt8) (key : SdoKey) : Bytes :=
  ((coeAnswer (part.length + 10).toUInt16 ectCoesSdores 0x41 key).set32 posLdata
    size.toUInt32).copy posLdata1 (.ofList part) part.length

/-- The answer that brings a segment of an object: a last segment of less than seven bytes tells how
many are unused. -/
def segmentAnswer (part : List UInt8) (last : Bool) (toggle : UInt8) : Bytes :=
  let header :=
    if last ∧ part.length < 7 then
      coeAnswer 0x0a ectCoesSdores ((0x01 : UInt8) ||| (7 - part.length).toUInt8 <<< 1 ||| toggle)
        ⟨0, 0, false⟩
    else
      coeAnswer (part.length + 3).toUInt16 ectCoesSdores ((if last then 0x01 else 0x00) ||| toggle)
        ⟨0, 0, false⟩
  header.copy posIndex (.ofList part) part.length

/-! ### Requests -/

/-- The object that a request names. -/
def requestKey (request : Bytes) : SdoKey where
  index := request.uint16 posIndex
  subindex := request posSubIndex
  complete := request posCommand &&& 0x10 ≠ 0

/-- The number of bytes that a segment brings. -/
def requestData (request : Bytes) : ℕ :=
  let length := (request.uint16 posLength).toNat
  if request posCommand &&& 0x01 ≠ 0 ∧ length = 10 then
    7 - ((request posCommand >>> 1) &&& 0x07).toNat
  else length - 3

namespace SdoServer

variable (rules : SdoRules)

/-- An answer is put into the mailbox. -/
def answer (b : Bytes) (transfer : SdoTransfer) (s : SdoServer) : SdoServer :=
  { s with transfer := transfer, mailbox := some b }

/-- An object has been received completely: it is stored and confirmed, or refused. -/
def finish (confirm : Bytes) (key : SdoKey) (value : List UInt8) (s : SdoServer) : SdoServer :=
  if rules.accepts s.objects key value then
    { objects := Function.update s.objects key value, transfer := .idle, mailbox := some confirm }
  else s.answer (sdoAbort (rules.abortCode s.objects key value) key) .idle

/-- A request starts a download. -/
def initiateDownload (request : Bytes) (s : SdoServer) : SdoServer :=
  let key := requestKey request
  let confirm := sdoConfirm 0x60 key
  if request posCommand &&& 0x02 ≠ 0 then
    s.finish rules confirm key
      (request.slice posLdata (4 - ((request posCommand >>> 2) &&& 0x03).toNat))
  else
    let size := (request.uint32 posLdata).toNat
    let received := request.slice posLdata1 ((request.uint16 posLength).toNat - 10)
    if received.length < size then s.answer confirm (.download key size received 0)
    else s.finish rules confirm key (received.take size)

/-- A request brings a segment of a download. -/
def downloadSegment (request : Bytes) (s : SdoServer) : SdoServer :=
  match s.transfer with
  | .download key size received toggle =>
      let received := received ++ request.slice posIndex (requestData request)
      let confirm := sdoConfirm (0x20 ||| toggle) key
      if request posCommand &&& 0x10 = toggle then
        if request posCommand &&& 0x01 = 0 then
          s.answer confirm (.download key size received (toggle ^^^ 0x10))
        else if received.length = size then s.finish rules confirm key received
        else s.answer (sdoAbort 0x06070010 key) .idle
      else s.answer (sdoAbort 0x05030000 key) .idle
  | _ => s.answer (sdoAbort 0x05040001 (requestKey request)) .idle

/-- A request starts an upload. -/
def initiateUpload (request : Bytes) (s : SdoServer) : SdoServer :=
  let key := requestKey request
  let value := s.objects key
  if 0 < value.length ∧ value.length ≤ 4 then s.answer (expeditedAnswer value key) .idle
  else
    let room := rules.mbx_rl - 16
    let transfer := if value.length ≤ room then .idle else .upload (value.drop room) 0
    s.answer (uploadAnswer value.length (value.take room) key) transfer

/-- A request asks for a segment of an upload. -/
def uploadSegment (request : Bytes) (s : SdoServer) : SdoServer :=
  match s.transfer with
  | .upload rest toggle =>
      let room := rules.mbx_rl - 9
      if request posCommand &&& 0x10 = toggle then
        if rest.length ≤ room then s.answer (segmentAnswer rest true toggle) .idle
        else
          s.answer (segmentAnswer (rest.take room) false toggle)
            (.upload (rest.drop room) (toggle ^^^ 0x10))
      else s.answer (sdoAbort 0x05030000 (requestKey request)) .idle
  | _ => s.answer (sdoAbort 0x05040001 (requestKey request)) .idle

/-- A request is answered. -/
def respond (request : Bytes) (s : SdoServer) : SdoServer :=
  match (request posCommand >>> 5).toNat with
  | 0 => s.downloadSegment rules request
  | 1 => s.initiateDownload rules request
  | 2 => s.initiateUpload rules request
  | 3 => s.uploadSegment rules request
  | _ => s.answer (sdoAbort 0x05040001 (requestKey request)) .idle

theorem respond_downloadSegment {request : Bytes} {s : SdoServer}
    (h : (request posCommand >>> 5).toNat = 0) :
  s.respond rules request = s.downloadSegment rules request
  := by
  rw [respond, h]
  rfl

theorem respond_initiateDownload {request : Bytes} {s : SdoServer}
    (h : (request posCommand >>> 5).toNat = 1) :
  s.respond rules request = s.initiateDownload rules request
  := by
  rw [respond, h]
  rfl

theorem respond_initiateUpload {request : Bytes} {s : SdoServer}
    (h : (request posCommand >>> 5).toNat = 2) :
  s.respond rules request = s.initiateUpload rules request
  := by
  rw [respond, h]
  rfl

theorem respond_uploadSegment {request : Bytes} {s : SdoServer}
    (h : (request posCommand >>> 5).toNat = 3) :
  s.respond rules request = s.uploadSegment rules request
  := by
  rw [respond, h]
  rfl

end SdoServer

end EthercatMaster
