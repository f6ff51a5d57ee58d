import Mathlib.Data.Nat.Bitwise
import EthercatMaster.Soem.Datagram

/-!
# Datagrams on the wire

A slave reads the datagrams of a frame one after another: the length of the data tells where the
next one starts, and a bit beside it whether there is one.  What `ecx_setupdatagram` and
`ecx_adddatagram` write is read so.
-/

namespace EthercatMaster

/-- A datagram, as a slave reads it from a frame. -/
structure Datagram where
  com : UInt8
  idx : UInt8
  ADP : UInt16
  ADO : UInt16
  data : List UInt8
  wkc : UInt16
deriving DecidableEq, Repr

/-- The number of bytes of a datagram with its header and its working counter. -/
def Datagram.size (d : Datagram) : ℕ :=
  ecHeadersize + d.data.length

/-- The bits of `dlength` with the length of the data. -/
def dlengthMask : UInt16 := 0x07ff

/-- The datagrams of a frame from a position on, at most `fuel`. -/
def datagramsFrom (frame : Bytes) : ℕ → ℕ → List Datagram
  | 0, _ => []
  | fuel + 1, start =>
      let dlength := frame.uint16 (start + 6)
      let length := (dlength &&& dlengthMask).toNat
      let datagram : Datagram :=
        { com := frame start
          idx := frame (start + 1)
          ADP := frame.uint16 (start + 2)
          ADO := frame.uint16 (start + 4)
          data := frame.slice (start + 10) length
          wkc := frame.uint16 (start + 10 + length) }
      if dlength &&& ecDatagramfollows = 0 then [datagram]
      else datagram :: datagramsFrom frame fuel (start + datagram.size)

/-! ### A datagram in a frame -/

/-- A frame has a datagram at a position, and says whether another one follows. -/
structure HasDatagram (frame : Bytes) (start : ℕ) (follows : Bool) (d : Datagram) : Prop where
  com : frame start = d.com
  idx : frame (start + 1) = d.idx
  ADP : frame.uint16 (start + 2) = d.ADP
  ADO : frame.uint16 (start + 4) = d.ADO
  dlength : frame.uint16 (start + 6)
    = d.data.length.toUInt16 ||| if follows then ecDatagramfollows else 0
  data : frame.slice (start + 10) d.data.length = d.data
  wkc : frame.uint16 (start + 10 + d.data.length) = d.wkc

/-- The length of the data is read from `dlength`. -/
theorem dlength_length {length : ℕ} (h : length < 2048) (follows : Bool) :
  ((length.toUInt16 ||| if follows then ecDatagramfollows else 0) &&& dlengthMask).toNat = length
  := by
  have hlength : length.toUInt16.toNat = length := by
    rw [Nat.toUInt16_eq, UInt16.toNat_ofNat']
    exact Nat.mod_eq_of_lt (by omega)
  have hmask : dlengthMask.toNat = 2 ^ 11 - 1 := rfl
  rw [UInt16.toNat_and, UInt16.toNat_or, hlength, hmask, Nat.and_two_pow_sub_one_eq_mod]
  cases follows with
  | false =>
      have hzero : (if false = true then ecDatagramfollows else 0).toNat = 0 := rfl
      rw [hzero, Nat.or_zero]
      exact Nat.mod_eq_of_lt h
  | true =>
      have hbit : (if true = true then ecDatagramfollows else 0).toNat = 2 ^ 15 * 1 := rfl
      rw [hbit, Nat.or_comm, ← Nat.two_pow_add_eq_or_of_lt (by omega)]
      omega

theorem dlength_follows {length : ℕ} (h : length < 2048) (follows : Bool) :
  (length.toUInt16 ||| if follows then ecDatagramfollows else 0) &&& ecDatagramfollows = 0
    ↔ follows = false
  := by
  have hlength : length.toUInt16.toNat = length := by
    rw [Nat.toUInt16_eq, UInt16.toNat_ofNat']
    exact Nat.mod_eq_of_lt (by omega)
  have hbit : length.testBit 15 = false := Nat.testBit_lt_two_pow (by omega)
  have hfollows : ecDatagramfollows.toNat = 2 ^ 15 := rfl
  have hzero : (0 : UInt16).toNat = 0 := rfl
  rw [← UInt16.toNat_inj, UInt16.toNat_and, UInt16.toNat_or, hlength, hfollows, Nat.and_two_pow,
    Nat.testBit_or, hbit, Bool.false_or, hzero]
  cases follows with
  | false => decide
  | true => decide

variable {frame : Bytes} {start : ℕ} {follows : Bool} {d : Datagram}

/-- The bytes of a datagram decide that it is there. -/
theorem HasDatagram.congr (h : HasDatagram frame start follows d) (frame' : Bytes)
    (hframe : ∀ i, start ≤ i → i < start + d.size → frame' i = frame i) :
  HasDatagram frame' start follows d
  := by
  have hsize : d.size = 12 + d.data.length := rfl
  have huint : ∀ i, start ≤ i → i + 2 ≤ start + d.size → frame'.uint16 i = frame.uint16 i := by
    intro i hi hend
    rw [Bytes.uint16, Bytes.uint16, hframe i hi (by omega), hframe (i + 1) (by omega) (by omega)]
  constructor
  case com =>
    rw [hframe start le_rfl (by omega)]
    exact h.com
  case idx =>
    rw [hframe (start + 1) (by omega) (by omega)]
    exact h.idx
  case ADP =>
    rw [huint (start + 2) (by omega) (by omega)]
    exact h.ADP
  case ADO =>
    rw [huint (start + 4) (by omega) (by omega)]
    exact h.ADO
  case dlength =>
    rw [huint (start + 6) (by omega) (by omega)]
    exact h.dlength
  case data =>
    rw [← h.data, Bytes.length_slice]
    apply Bytes.slice_congr
    intro k hk
    exact hframe _ (by omega) (by omega)
  case wkc =>
    rw [huint _ (by omega) (by omega)]
    exact h.wkc

/-- A datagram that is there is read. -/
theorem HasDatagram.datagramsFrom (h : HasDatagram frame start follows d)
    (hlength : d.data.length < 2048) (fuel : ℕ) :
  datagramsFrom frame (fuel + 1) start
    = d :: if follows then datagramsFrom frame fuel (start + d.size) else []
  := by
  have hread : (⟨frame start, frame (start + 1), frame.uint16 (start + 2),
      frame.uint16 (start + 4), frame.slice (start + 10) d.data.length,
      frame.uint16 (start + 10 + d.data.length)⟩ : Datagram) = d := by
    rw [h.com, h.idx, h.ADP, h.ADO, h.data, h.wkc]
  rw [EthercatMaster.datagramsFrom]
  rw [h.dlength, dlength_length hlength, hread]
  cases follows with
  | false => rw [if_pos ((dlength_follows hlength false).mpr rfl), if_neg Bool.false_ne_true]
  | true =>
      have hne : ¬ (d.data.length.toUInt16 ||| if true = true then ecDatagramfollows else 0)
          &&& ecDatagramfollows = 0 := by
        rw [dlength_follows hlength]
        decide
      rw [if_neg hne, if_pos rfl]

/-! ### Writing datagrams -/

/-- A command that only reads. -/
def EcCmdtype.reads : EcCmdtype → Bool
  | nop | aprd | fprd | brd | lrd => true
  | _ => false

/-- The data that is sent with a command. -/
def EcCmdtype.sent (com : EcCmdtype) (data : Bytes) : Bytes :=
  if com.reads then fun _ => 0 else data

theorem ecxWritedatagramdata_eq (start : ℕ) (com : EcCmdtype) (length : ℕ) (data frame : Bytes) :
  ecxWritedatagramdata start com length data frame = frame.copy start (com.sent data) length
  := by
  cases com with
  | _ => rfl

/-- A datagram is written at a position, with the number of bytes of its data. -/
def writeDatagram (start : ℕ) (com : EcCmdtype) (idx : ℕ) (adp ado : UInt16) (length : ℕ)
    (data frame : Bytes) : Bytes :=
  let frame := writeHeader start com idx adp ado length.toUInt16 frame
  let frame := ecxWritedatagramdata (start + 10) com length data frame
  frame.copy (start + 10 + length) (fun _ => 0) ecWkcsize

/-- The datagram that is written. -/
def EcCmdtype.datagram (com : EcCmdtype) (idx : ℕ) (adp ado : UInt16) (length : ℕ)
    (data : Bytes) : Datagram :=
  ⟨com.code, idx.toUInt8, adp, ado, (com.sent data).take length, 0⟩

theorem EcCmdtype.datagram_length (com : EcCmdtype) (idx : ℕ) (adp ado : UInt16) (length : ℕ)
    (data : Bytes) :
  (com.datagram idx adp ado length data).data.length = length
  := Bytes.length_take _ _

/-- What is outside of a datagram stays when it is written. -/
theorem writeDatagram_of_not_mem (start : ℕ) (com : EcCmdtype) (idx : ℕ) (adp ado : UInt16)
    (length : ℕ) (data frame : Bytes) {i : ℕ}
    (h : i < start ∨ start + ecHeadersize + length ≤ i) :
  writeDatagram start com idx adp ado length data frame i = frame i
  := by
  have hheader : ecHeadersize = 12 := rfl
  have hwkc : ecWkcsize = 2 := rfl
  rw [writeDatagram, ecxWritedatagramdata_eq, Bytes.copy_disjoint (by omega),
    Bytes.copy_disjoint (by omega), writeHeader, Bytes.copy_disjoint (by omega),
    Bytes.copy_disjoint (by omega), Bytes.copy_disjoint (by omega),
    Function.update_of_ne (by omega), Function.update_of_ne (by omega)]

/-- A datagram that has been written is there. -/
theorem hasDatagram_writeDatagram (start : ℕ) (com : EcCmdtype) (idx : ℕ) (adp ado : UInt16)
    (length : ℕ) (data frame : Bytes) :
  HasDatagram (writeDatagram start com idx adp ado length data frame) start false
    (com.datagram idx adp ado length data)
  := by
  have hwkc : ecWkcsize = 2 := rfl
  have hlength := com.datagram_length idx adp ado length data
  rw [writeDatagram, ecxWritedatagramdata_eq, writeHeader]
  constructor
  case com =>
    rw [Bytes.copy_disjoint (by omega), Bytes.copy_disjoint (by omega),
      Bytes.copy_disjoint (by omega), Bytes.copy_disjoint (by omega),
      Bytes.copy_disjoint (by omega), Function.update_of_ne (by omega), Function.update_self]
    rfl
  case idx =>
    rw [Bytes.copy_disjoint (by omega), Bytes.copy_disjoint (by omega),
      Bytes.copy_disjoint (by omega), Bytes.copy_disjoint (by omega),
      Bytes.copy_disjoint (by omega), Function.update_self]
    rfl
  case ADP =>
    rw [Bytes.uint16_copy_disjoint (by omega), Bytes.uint16_copy_disjoint (by omega),
      Bytes.uint16_copy_disjoint (by omega), Bytes.uint16_copy_disjoint (by omega)]
    exact Bytes.uint16_set16
  case ADO =>
    rw [Bytes.uint16_copy_disjoint (by omega), Bytes.uint16_copy_disjoint (by omega),
      Bytes.uint16_copy_disjoint (by omega)]
    exact Bytes.uint16_set16
  case dlength =>
    rw [Bytes.uint16_copy_disjoint (by omega), Bytes.uint16_copy_disjoint (by omega), hlength,
      if_neg Bool.false_ne_true, UInt16.or_zero]
    exact Bytes.uint16_set16
  case data =>
    rw [hlength, Bytes.slice_copy_disjoint (by omega), Bytes.slice_copy le_rfl]
    rfl
  case wkc =>
    rw [hlength, Bytes.uint16, Bytes.copy_of_mem (by omega) (by omega),
      Bytes.copy_of_mem (by omega) (by omega)]
    rfl

/-- A datagram is marked to be followed by another one. -/
def markDatagram (start : ℕ) (frame : Bytes) : Bytes :=
  frame.copy (start + 6) (Bytes.ofUInt16 (frame.uint16 (start + 6) ||| ecDatagramfollows)) 2

theorem markDatagram_of_lt {i : ℕ} (h : i < start + 6) :
  markDatagram start frame i = frame i
  := Bytes.copy_disjoint (Or.inl h)

theorem HasDatagram.mark (h : HasDatagram frame start false d) :
  HasDatagram (markDatagram start frame) start true d
  := by
  have hdlength := h.dlength
  rw [if_neg Bool.false_ne_true, UInt16.or_zero] at hdlength
  rw [markDatagram]
  constructor
  case com =>
    rw [Bytes.copy_disjoint (by omega)]
    exact h.com
  case idx =>
    rw [Bytes.copy_disjoint (by omega)]
    exact h.idx
  case ADP =>
    rw [Bytes.uint16_copy_disjoint (by omega)]
    exact h.ADP
  case ADO =>
    rw [Bytes.uint16_copy_disjoint (by omega)]
    exact h.ADO
  case dlength =>
    rw [if_pos rfl, ← hdlength]
    exact Bytes.uint16_set16
  case data =>
    rw [Bytes.slice_copy_disjoint (by omega)]
    exact h.data
  case wkc =>
    rw [Bytes.uint16_copy_disjoint (by omega)]
    exact h.wkc

/-! ### Frames -/

/-- A frame has datagrams one after another, the last of which says so. -/
def HasDatagrams (frame : Bytes) : ℕ → List Datagram → Prop
  | _, [] => True
  | start, d :: ds =>
      HasDatagram frame start (!ds.isEmpty) d ∧ HasDatagrams frame (start + d.size) ds

/-- The number of bytes of datagrams. -/
def datagramsSize (ds : List Datagram) : ℕ :=
  (ds.map Datagram.size).sum

theorem datagramsSize_cons (d : Datagram) (ds : List Datagram) :
  datagramsSize (d :: ds) = d.size + datagramsSize ds
  := List.sum_cons

theorem datagramsSize_singleton (d : Datagram) :
  datagramsSize [d] = d.size
  := List.sum_singleton

theorem HasDatagrams.congr {ds : List Datagram} (h : HasDatagrams frame start ds) (frame' : Bytes)
    (hframe : ∀ i, start ≤ i → i < start + datagramsSize ds → frame' i = frame i) :
  HasDatagrams frame' start ds
  := by
  induction ds generalizing start with
  | nil => trivial
  | cons d ds ih =>
      rw [datagramsSize_cons] at hframe
      exact ⟨h.1.congr frame' fun i hi hlt => hframe i hi (by omega),
        ih h.2 fun i hi hlt => hframe i (by omega) (by omega)⟩

/-- The datagrams of a frame are read. -/
theorem HasDatagrams.datagramsFrom {ds : List Datagram} (h : HasDatagrams frame start ds)
    (hlength : ∀ d ∈ ds, d.data.length < 2048) (hne : ds ≠ []) {fuel : ℕ}
    (hfuel : ds.length ≤ fuel) :
  datagramsFrom frame fuel start = ds
  := by
  induction ds generalizing start fuel with
  | nil => contradiction
  | cons d ds ih =>
      obtain ⟨fuel, rfl⟩ := Nat.exists_eq_add_of_le' hfuel
      rw [List.length_cons, ← Nat.add_assoc,
        h.1.datagramsFrom (hlength d List.mem_cons_self)]
      cases ds with
      | nil => rfl
      | cons d' ds =>
          rw [List.isEmpty_cons, Bool.not_false, if_pos rfl]
          congr 1
          apply ih h.2 (fun e he => hlength e (List.mem_cons_of_mem d he)) (List.cons_ne_nil d' ds)
          exact Nat.le_add_left _ _

/-- A transmit buffer has a frame with datagrams: behind the Ethernet header there is the number of
their bytes, with the type of an EtherCAT frame, and then the datagrams. -/
structure CarriesFrame (frame : Bytes) (length : ℕ) (ds : List Datagram) : Prop where
  header : ∀ i < ethercatFrameHeader, frame i = ethernetHeader.getD i 0
  length : length = ethercatFrameHeader + ecElengthsize + datagramsSize ds
  elength : frame.uint16 ethercatFrameHeader = ecEcattype + (datagramsSize ds).toUInt16
  datagrams : HasDatagrams frame (ethercatFrameHeader + ecElengthsize) ds

/-- What is behind a frame in the transmit buffer does not matter. -/
theorem CarriesFrame.congr {length : ℕ} {ds : List Datagram} (h : CarriesFrame frame length ds)
    (frame' : Bytes) (hframe : ∀ i < length, frame' i = frame i) :
  CarriesFrame frame' length ds
  := by
  have hlength := h.length
  have helength : ecElengthsize = 2 := rfl
  constructor
  case header =>
    intro i hi
    rw [hframe i (by omega)]
    exact h.header i hi
  case length => exact hlength
  case elength =>
    rw [Bytes.uint16, hframe _ (by omega), hframe _ (by omega)]
    exact h.elength
  case datagrams => exact h.datagrams.congr frame' fun i _ hi => hframe i (by omega)

theorem toUInt16_add (m n : ℕ) :
  (m + n).toUInt16 = m.toUInt16 + n.toUInt16
  := UInt16.ofNat_add m n

variable (com : EcCmdtype) (idx : ℕ) (adp ado : UInt16) (length : ℕ) (data : Bytes) {p : Port}

theorem EcCmdtype.datagram_size :
  (com.datagram idx adp ado length data).size = ecHeadersize + length
  := by
  rw [Datagram.size, com.datagram_length]

/-- `ecx_setupdatagram` puts a frame with the datagram into the transmit buffer. -/
theorem carriesFrame_ecxSetupdatagram
    (header : ∀ i < ethercatFrameHeader, p.txbuf idx i = ethernetHeader.getD i 0) :
  CarriesFrame ((ecxSetupdatagram com idx adp ado length data p).txbuf idx)
    ((ecxSetupdatagram com idx adp ado length data p).txbuflength idx)
    [com.datagram idx adp ado length data]
  := by
  have hheader : ethercatFrameHeader = 14 := rfl
  have helength : ecElengthsize = 2 := rfl
  have hsize : datagramsSize [com.datagram idx adp ado length data] = ecHeadersize + length := by
    rw [datagramsSize_singleton, com.datagram_size]
  have htxbuf : (ecxSetupdatagram com idx adp ado length data p).txbuf idx
      = writeDatagram (ethercatFrameHeader + ecElengthsize) com idx adp ado length data
        ((p.txbuf idx).copy ethercatFrameHeader
          (Bytes.ofUInt16 (ecEcattype + ecHeadersize.toUInt16 + length.toUInt16)) 2) := by
    rw [ecxSetupdatagram]
    exact Function.update_self _ _ _
  rw [htxbuf]
  constructor
  case header =>
    intro i hi
    rw [writeDatagram_of_not_mem _ _ _ _ _ _ _ _ (by omega), Bytes.copy_disjoint (by omega)]
    exact header i hi
  case length =>
    rw [ecxSetupdatagram, hsize]
    dsimp only
    rw [Function.update_self]
    show 14 + 12 + 2 + length = 14 + 2 + (12 + length)
    omega
  case elength =>
    rw [Bytes.uint16, writeDatagram_of_not_mem _ _ _ _ _ _ _ _ (by omega),
      writeDatagram_of_not_mem _ _ _ _ _ _ _ _ (by omega), ← Bytes.uint16, hsize, UInt16.add_assoc,
      toUInt16_add]
    exact Bytes.uint16_set16
  case datagrams => exact ⟨hasDatagram_writeDatagram _ _ _ _ _ _ _ _, trivial⟩

/-- `ecx_adddatagram` adds a second datagram to a frame, and returns where its data will be in the
frame received. -/
theorem CarriesFrame.ecxAdddatagram {d : Datagram}
    (h : CarriesFrame (p.txbuf idx) (p.txbuflength idx) [d]) :
  CarriesFrame ((ecxAdddatagram com idx adp ado length data p).2.txbuf idx)
      ((ecxAdddatagram com idx adp ado length data p).2.txbuflength idx)
      [d, com.datagram idx adp ado length data]
    ∧ (ecxAdddatagram com idx adp ado length data p).1 = ecElengthsize + d.size + 10
  := by
  have hheader : ethercatFrameHeader = 14 := rfl
  have helength : ecElengthsize = 2 := rfl
  have hheadersize : ecHeadersize = 12 := rfl
  have hsize : datagramsSize [d, com.datagram idx adp ado length data]
      = d.size + (ecHeadersize + length) := by
    rw [datagramsSize_cons, datagramsSize_singleton, com.datagram_size]
  have hprev : p.txbuflength idx = ethercatFrameHeader + ecElengthsize + d.size := by
    rw [h.length, datagramsSize_singleton]
  have hfirst : d.size = 12 + d.data.length := rfl
  generalize hframe : (p.txbuf idx).copy ethercatFrameHeader
    (Bytes.ofUInt16 ((p.txbuf idx).uint16 ethercatFrameHeader + ecHeadersize.toUInt16
      + length.toUInt16)) 2 = frame
  have hstart : p.txbuflength idx + ecHeadersize - ecElengthsize = p.txbuflength idx + 10 := by
    omega
  have htxbuf : (EthercatMaster.ecxAdddatagram com idx adp ado length data p).2.txbuf idx
      = writeDatagram (p.txbuflength idx) com idx adp ado length data
        (markDatagram (ethercatFrameHeader + ecElengthsize) frame) := by
    rw [EthercatMaster.ecxAdddatagram]
    dsimp only
    rw [Function.update_self, hframe, hstart]
    rfl
  constructor
  · rw [htxbuf]
    constructor
    case header =>
      intro i hi
      rw [writeDatagram_of_not_mem _ _ _ _ _ _ _ _ (by omega), markDatagram_of_lt (by omega),
        ← hframe, Bytes.copy_disjoint (by omega)]
      exact h.header i hi
    case length =>
      rw [EthercatMaster.ecxAdddatagram, hsize]
      dsimp only
      rw [Function.update_self, hstart, hprev]
      show 14 + 2 + d.size + 10 + 2 + length = 14 + 2 + (d.size + (12 + length))
      omega
    case elength =>
      rw [Bytes.uint16, writeDatagram_of_not_mem _ _ _ _ _ _ _ _ (by omega),
        writeDatagram_of_not_mem _ _ _ _ _ _ _ _ (by omega), markDatagram_of_lt (by omega),
        markDatagram_of_lt (by omega), ← Bytes.uint16, ← hframe, hsize]
      refine Bytes.uint16_set16.trans ?_
      rw [h.elength, datagramsSize_singleton, toUInt16_add, toUInt16_add, UInt16.add_assoc,
        UInt16.add_assoc]
    case datagrams =>
      have hmarked := (h.datagrams.1.congr frame (fun i hi _ => by
        rw [← hframe, Bytes.copy_disjoint (by omega)])).mark
      refine ⟨hmarked.congr _ fun i _ hi => ?_, ?_, trivial⟩
      · apply writeDatagram_of_not_mem
        left
        omega
      · rw [← hprev]
        exact hasDatagram_writeDatagram _ _ _ _ _ _ _ _
  · rw [EthercatMaster.ecxAdddatagram]
    dsimp only
    rw [hstart]
    omega

end EthercatMaster
