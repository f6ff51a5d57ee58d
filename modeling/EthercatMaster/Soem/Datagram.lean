import EthercatMaster.Soem.Nicdrv

/-!
# Datagrams

How a datagram is written into a transmit buffer, and how a second datagram is added behind the
first one.
-/

namespace EthercatMaster

/-- `ec_cmdtype`. -/
inductive EcCmdtype where
  | nop
  | aprd
  | apwr
  | aprw
  | fprd
  | fpwr
  | fprw
  | brd
  | bwr
  | brw
  | lrd
  | lwr
  | lrw
  | armw
  | frmw
deriving DecidableEq, Repr

/-- The code of a command. -/
def EcCmdtype.code : EcCmdtype → UInt8
  | nop => 0
  | aprd => 1
  | apwr => 2
  | aprw => 3
  | fprd => 4
  | fpwr => 5
  | fprw => 6
  | brd => 7
  | bwr => 8
  | brw => 9
  | lrd => 10
  | lwr => 11
  | lrw => 12
  | armw => 13
  | frmw => 14

/-- `EC_HEADERSIZE`, the size of `ec_comt`. -/
def ecHeadersize : ℕ := 12

/-- `EC_ELENGTHSIZE`. -/
def ecElengthsize : ℕ := 2

/-- `EC_CMDOFFSET`. -/
def ecCmdoffset : ℕ := 2

/-- `EC_WKCSIZE`. -/
def ecWkcsize : ℕ := 2

/-- `EC_ECATTYPE`. -/
def ecEcattype : UInt16 := 0x1000

/-- `EC_DATAGRAMFOLLOWS`. -/
def ecDatagramfollows : UInt16 := 0x8000

/-- `ECT_REG_DCSYSTIME`. -/
def ectRegDcsystime : UInt16 := 0x0910

/-- `ecx_writedatagramdata`, at a position of the frame: a command that only reads sends
zeros. -/
def ecxWritedatagramdata (start : ℕ) (com : EcCmdtype) (length : ℕ) (data : Bytes)
    (frame : Bytes) : Bytes :=
  match com with
  | .nop | .aprd | .fprd | .brd | .lrd => frame.copy start (fun _ => 0) length
  | _ => frame.copy start data length

/-- The fields of an `ec_comt` from `command` on, at the position of that field. -/
def writeHeader (start : ℕ) (com : EcCmdtype) (idx : ℕ) (adp ado dlength : UInt16)
    (frame : Bytes) : Bytes :=
  let frame : Bytes := Function.update frame start com.code
  let frame : Bytes := Function.update frame (start + 1) idx.toUInt8
  let frame := frame.copy (start + 2) (Bytes.ofUInt16 adp) 2
  let frame := frame.copy (start + 4) (Bytes.ofUInt16 ado) 2
  frame.copy (start + 6) (Bytes.ofUInt16 dlength) 2

/-- `ecx_setupdatagram`, in the transmit buffer of the index. -/
def ecxSetupdatagram (com : EcCmdtype) (idx : ℕ) (adp ado : UInt16) (length : ℕ) (data : Bytes)
    (p : Port) : Port :=
  let frame := p.txbuf idx
  let frame := frame.copy ethercatFrameHeader
    (Bytes.ofUInt16 (ecEcattype + ecHeadersize.toUInt16 + length.toUInt16)) 2
  let frame := writeHeader (ethercatFrameHeader + ecElengthsize) com idx adp ado length.toUInt16 frame
  let frame := ecxWritedatagramdata (ethercatFrameHeader + ecHeadersize) com length data frame
  let frame := frame.copy (ethercatFrameHeader + ecHeadersize + length) (fun _ => 0) ecWkcsize
  { p with
    txbuf := Function.update p.txbuf idx frame
    txbuflength := Function.update p.txbuflength idx
      (ethercatFrameHeader + ecHeadersize + ecWkcsize + length) }

/-- `ecx_adddatagram` with `more` false, in the transmit buffer of the index: the position of the
data in the frame received. -/
def ecxAdddatagram (com : EcCmdtype) (idx : ℕ) (adp ado : UInt16) (length : ℕ) (data : Bytes)
    (p : Port) : ℕ × Port :=
  let frame := p.txbuf idx
  let prevlength := p.txbuflength idx
  let elength := frame.uint16 ethercatFrameHeader + ecHeadersize.toUInt16 + length.toUInt16
  let frame := frame.copy ethercatFrameHeader (Bytes.ofUInt16 elength) 2
  let dlength := frame.uint16 (ethercatFrameHeader + 8) ||| ecDatagramfollows
  let frame := frame.copy (ethercatFrameHeader + 8) (Bytes.ofUInt16 dlength) 2
  let frame := writeHeader prevlength com idx adp ado length.toUInt16 frame
  let start := prevlength + ecHeadersize - ecElengthsize
  let frame := ecxWritedatagramdata start com length data frame
  let frame := frame.copy (start + length) (fun _ => 0) ecWkcsize
  (start - ethercatFrameHeader,
    { p with
      txbuf := Function.update p.txbuf idx frame
      txbuflength := Function.update p.txbuflength idx (start + ecWkcsize + length) })

end EthercatMaster
