import EthercatMaster.Library.Packing
import EthercatMaster.Master.Overlay
import EthercatMaster.Soem.Send

/-!
# The segments of the process image

`ec_config_map` divides the process image into segments that fit into a frame each, and
`ec_send_processdata` sends them.  Together the frames of a cycle carry each byte of the image once,
and the mapped area of a slave is not divided.
-/

namespace EthercatMaster

/-- `EC_MAXECATFRAME`. -/
def ecMaxecatframe : ℕ := 1518

/-- `EC_MAXLRWDATA`. -/
def ecMaxlrwdata : ℕ := ecMaxecatframe - 14 - 2 - 10 - 2 - 4

/-- `EC_FIRSTDCDATAGRAM`. -/
def ecFirstdcdatagram : ℕ := 20

/-- `EC_MAXIOSEGMENTS`. -/
def ecMaxiosegments : ℕ := 64

/-- How much of the process image a segment may have. -/
def maxSegment : ℕ := ecMaxlrwdata - ecFirstdcdatagram

/-! ### The division into segments -/

/-- The segments so far. -/
structure IoSegments where
  currentsegment : ℕ
  segmentsize : ℕ
  IOsegment : ℕ → ℕ

/-- The mapping of a slave goes to the current segment or to the next one. -/
def IoSegments.add (diff : ℕ) (s : IoSegments) : IoSegments :=
  if maxSegment < s.segmentsize + diff then
    let s := { s with IOsegment := Function.update s.IOsegment s.currentsegment s.segmentsize }
    if s.currentsegment < ecMaxiosegments - 1 then
      { s with currentsegment := s.currentsegment + 1, segmentsize := diff }
    else s
  else { s with segmentsize := s.segmentsize + diff }

/-- The slaves of a list are mapped, except those without bits, and divided into segments. -/
def mapSegments (slave : ℕ → EcSlave) (bits : EcSlave → UInt16)
    (create : EcSlave → ℕ → ℕ → Mapping) :
    List ℕ → MappedSlaves × IoSegments → MappedSlaves × IoSegments
  | [], x => x
  | n :: ns, (x, s) =>
      if bits (slave n) = 0 then mapSegments slave bits create ns (x, s)
      else
        let y := x.add n (create (slave n) x.LogAddr x.BitPos)
        mapSegments slave bits create ns (y, s.add (y.LogAddr - x.LogAddr))

/-- A byte that is used in part is not used further. -/
def closeSegments (x : MappedSlaves × IoSegments) : MappedSlaves × IoSegments :=
  if x.1.BitPos ≠ 0 then (x.1.close, x.2.add 1) else x

/-- What `ecx_config_map_group` sets of a group. -/
structure IoGroup where
  layout : IoLayout
  Obytes : ℕ
  Ibytes : ℕ
  nsegments : ℕ
  Isegment : ℕ
  Ioffset : ℕ
  IOsegment : ℕ → ℕ

/-- `ecx_config_map_group` for the group of all slaves, with the segments. -/
def ecxConfigMapSegments (slavecount : ℕ) (slave : ℕ → EcSlave) (IOsegment : ℕ → ℕ) : IoGroup :=
  let outputs := closeSegments
    (mapSegments slave EcSlave.Obits ecxConfigCreateOutputMappings (List.range' 1 slavecount)
      (⟨0, 0, fun _ => none, fun _ => []⟩, ⟨0, 0, IOsegment⟩))
  let inputs := closeSegments
    (mapSegments slave EcSlave.Ibits ecxConfigCreateInputMappings (List.range' 1 slavecount)
      (⟨outputs.1.LogAddr, outputs.1.BitPos, fun _ => none, fun _ => []⟩, outputs.2))
  { layout := ⟨outputs.1, inputs.1⟩
    Obytes := outputs.1.LogAddr
    Ibytes := inputs.1.LogAddr - outputs.1.LogAddr
    nsegments := inputs.2.currentsegment + 1
    Isegment := outputs.2.currentsegment
    Ioffset := outputs.2.segmentsize
    IOsegment := Function.update inputs.2.IOsegment inputs.2.currentsegment inputs.2.segmentsize }

section Division

variable {slave : ℕ → EcSlave} {bits : EcSlave → UInt16} {create : EcSlave → ℕ → ℕ → Mapping}
  {size : EcSlave → ℕ}

/-- The segments do not matter for the mapping. -/
theorem mapSegments_fst (ns : List ℕ) (x : MappedSlaves) (s : IoSegments) :
  (mapSegments slave bits create ns (x, s)).1 = mapSlaves slave bits create ns x
  := by
  induction ns generalizing x s with
  | nil => rfl
  | cons n ns ih =>
      rw [mapSegments, mapSlaves]
      split
      · apply ih
      · apply ih

theorem closeSegments_fst (x : MappedSlaves × IoSegments) :
  (closeSegments x).1 = x.1.close
  := by
  rw [closeSegments]
  split
  case isTrue => rfl
  case isFalse hclosed => rw [MappedSlaves.close_of_bitPos (not_not.mp hclosed)]

theorem ecxConfigMapSegments_layout (slavecount : ℕ) (slave : ℕ → EcSlave) (IOsegment : ℕ → ℕ) :
  (ecxConfigMapSegments slavecount slave IOsegment).layout = ecxConfigMapGroup slavecount slave
  := by
  rw [ecxConfigMapSegments, ecxConfigMapGroup]
  dsimp only
  rw [closeSegments_fst, closeSegments_fst, mapSegments_fst, mapSegments_fst]

theorem closeSegments_of_bitPos {x : MappedSlaves × IoSegments} (h : x.1.BitPos = 0) :
  closeSegments x = x
  := by
  rw [closeSegments, if_neg (not_not.mpr h)]

/-- The segments as bins. -/
def IoSegments.packing (s : IoSegments) : Packing :=
  ⟨s.currentsegment, s.segmentsize, s.IOsegment⟩

theorem IoSegments.packing_add {s : IoSegments} (h : s.currentsegment < ecMaxiosegments - 1)
    (diff : ℕ) :
  (s.add diff).packing = s.packing.add maxSegment diff
  := by
  rw [IoSegments.add, Packing.add]
  by_cases hfull : maxSegment < s.segmentsize + diff
  · have hfull' : maxSegment < s.packing.size + diff := hfull
    rw [if_pos hfull, if_pos hfull']
    dsimp only
    rw [if_pos h]
    rfl
  · have hfull' : ¬ maxSegment < s.packing.size + diff := hfull
    rw [if_neg hfull, if_neg hfull']
    rfl

/-- The slaves so far, given by the start and the size of their mapping, are divided into
segments. -/
structure Divided (items : List (ℕ × ℕ)) (x : MappedSlaves) (s : IoSegments) : Prop where
  total : s.packing.total = x.LogAddr
  sound : s.packing.Sound maxSegment items
  BitPos : x.BitPos = 0

/-- The process image does not need all segments. -/
theorem Divided.currentsegment_le {items : List (ℕ × ℕ)} {x : MappedSlaves} {s : IoSegments}
    (h : Divided items x s) (himage : x.LogAddr ≤ ioMapSize) :
  s.currentsegment ≤ 8
  := by
  have hbins := h.sound.bins
  rw [h.total] at hbins
  have hlimit : (maxSegment + 1) * s.currentsegment = 1467 * s.currentsegment := rfl
  have hmap : ioMapSize = 6000 := rfl
  change (maxSegment + 1) * s.currentsegment + s.segmentsize ≤ _ at hbins
  omega

theorem Divided.room {items : List (ℕ × ℕ)} {x : MappedSlaves} {s : IoSegments}
    (h : Divided items x s) (himage : x.LogAddr ≤ ioMapSize) :
  s.currentsegment < ecMaxiosegments - 1
  := (h.currentsegment_le himage).trans_lt (by decide)

/-- A slave more is mapped. -/
theorem Divided.add {items : List (ℕ × ℕ)} {x : MappedSlaves} {s : IoSegments} {n : ℕ}
    (h : Divided items x s) (hcreates : Creates bits create size (slave n))
    (hbits : bits (slave n) ≠ 0) (hsize : size (slave n) ≤ maxSegment)
    (himage : x.LogAddr ≤ ioMapSize) :
  Divided (items ++ [(x.LogAddr, size (slave n))])
    (x.add n (create (slave n) x.LogAddr x.BitPos))
    (s.add ((x.add n (create (slave n) x.LogAddr x.BitPos)).LogAddr - x.LogAddr))
  := by
  have hLogAddr : (x.add n (create (slave n) x.LogAddr x.BitPos)).LogAddr
      = x.LogAddr + size (slave n) := by
    rw [MappedSlaves.add, h.BitPos]
    apply hcreates.LogAddr hbits
  have hroom := h.room himage
  rw [hLogAddr, Nat.add_sub_cancel_left]
  constructor
  case total => rw [s.packing_add hroom, Packing.total_add, h.total, hLogAddr]
  case sound =>
    rw [s.packing_add hroom, ← h.total]
    exact h.sound.add hsize
  case BitPos =>
    rw [MappedSlaves.add, h.BitPos]
    exact hcreates.BitPos hbits x.LogAddr

/-- What the mapping of some slaves adds to the segments. -/
structure DividedFrom (bits : EcSlave → UInt16) (size : EcSlave → ℕ) (slave : ℕ → EcSlave)
    (k len : ℕ) (items : List (ℕ × ℕ)) (x : MappedSlaves) (s : IoSegments)
    (items' : List (ℕ × ℕ)) (y : MappedSlaves × IoSegments) : Prop where
  divided : Divided items' y.1 y.2
  old : ∀ item ∈ items, item ∈ items'
  new : ∀ n, k ≤ n → n < k + len → bits (slave n) ≠ 0 →
    (offset x.LogAddr k (fun n => size (slave n)) n, size (slave n)) ∈ items'
  continues : s.packing.Continues y.2.packing

/-- The slaves of a range are mapped and divided. -/
theorem Divided.mapSegments (hcreates : ∀ n, Creates bits create size (slave n)) (len : ℕ) {k : ℕ}
    {items : List (ℕ × ℕ)} {x : MappedSlaves} {s : IoSegments} (h : Divided items x s)
    (hsize : ∀ n, k ≤ n → n < k + len → size (slave n) ≤ maxSegment)
    (himage : offset x.LogAddr k (fun n => size (slave n)) (k + len) ≤ ioMapSize) :
  ∃ items', DividedFrom bits size slave k len items x s items'
    (mapSegments slave bits create (List.range' k len) (x, s))
  := by
  induction len generalizing k items x s with
  | zero =>
      exact ⟨items, h, fun _ hitem => hitem, fun n hn hlt => by omega, Packing.Continues.refl _⟩
  | succ len ih =>
      have hend : k + (len + 1) = k + 1 + len := by omega
      have hstep : ∀ n, k < n → offset x.LogAddr k (fun n => size (slave n)) n
          = offset (x.LogAddr + size (slave k)) (k + 1) (fun n => size (slave n)) n :=
        fun n hn => Layout.offset_of_lt hn
      rw [List.range'_succ, EthercatMaster.mapSegments]
      by_cases hbits : bits (slave k) = 0
      · have hnone : x.LogAddr + size (slave k) = x.LogAddr := by
          rw [(hcreates k).none hbits, Nat.add_zero]
        rw [if_pos hbits]
        rw [hend, hstep _ (by omega), hnone] at himage
        obtain ⟨items', hdivided, hold, hnew, hcontinues⟩ := ih h
          (fun n hn hlt => hsize n (by omega) (by omega)) himage
        refine ⟨items', hdivided, hold, ?_, hcontinues⟩
        intro n hn hlt hmapped
        rcases hn.eq_or_lt with rfl | hn
        · exact absurd hbits hmapped
        · rw [hstep n hn, hnone]
          exact hnew n hn (by omega) hmapped
      · have hfirst : x.LogAddr ≤ ioMapSize := Layout.start_le_offset.trans himage
        have hadd := h.add (hcreates k) hbits (hsize k le_rfl (by omega)) hfirst
        have hLogAddr : (x.add k (create (slave k) x.LogAddr x.BitPos)).LogAddr
            = x.LogAddr + size (slave k) := by
          rw [MappedSlaves.add, h.BitPos]
          exact (hcreates k).LogAddr hbits x.LogAddr
        rw [if_neg hbits]
        rw [hend, hstep _ (by omega), ← hLogAddr] at himage
        obtain ⟨items', hdivided, hold, hnew, hcontinues⟩ := ih hadd
          (fun n hn hlt => hsize n (by omega) (by omega)) himage
        have hkept : ∀ item ∈ items, item ∈ items' := fun item hitem =>
          hold item (List.mem_append_left _ hitem)
        refine ⟨items', hdivided, hkept, ?_, ?_⟩
        · intro n hn hlt hmapped
          rcases hn.eq_or_lt with rfl | hn
          · rw [Layout.offset_first]
            exact hold _ (List.mem_append_right _ List.mem_cons_self)
          · rw [hstep n hn, ← hLogAddr]
            exact hnew n hn (by omega) hmapped
        · rw [s.packing_add (h.room hfirst)] at hcontinues
          exact (Packing.continues_add _ _ _).trans hcontinues

end Division

/-! ### The group of all slaves -/

/-- The segments of a bus: they hold the outputs and then the inputs, each fits into a frame, and
the mapped area of a slave is within one of them. -/
structure MappedBus.Segmented (b : MappedBus) (g : IoGroup) : Prop where
  layout : g.layout = b.layout
  Obytes : g.Obytes = b.inputStart 1
  Ibytes : g.Obytes + g.Ibytes = b.inputStart (b.slavecount + 1)
  total : Packing.start g.IOsegment g.nsegments = g.Obytes + g.Ibytes
  le : ∀ k < g.nsegments, g.IOsegment k ≤ maxSegment
  few : g.nsegments ≤ 9
  Isegment : g.Isegment < g.nsegments
  Ioffset : Packing.start g.IOsegment g.Isegment + g.Ioffset = g.Obytes
    ∧ g.Ioffset ≤ g.IOsegment g.Isegment
  whole : ∀ o : Overlay, b.IsAxis o.axis → b.bits o ≠ 0 →
    Packing.InBin g.IOsegment g.nsegments (b.areaStart o, b.areaSize o)

/-- `ec_config_map` divides the image of a bus into segments, if it has room for it and each slave
fits into a frame. -/
theorem MappedBus.segmented (b : MappedBus) (IOsegment : ℕ → ℕ)
    (hslave : ∀ n, b.IsAxis n → b.outputSize n ≤ maxSegment ∧ b.inputSize n ≤ maxSegment)
    (himage : b.inputStart (b.slavecount + 1) ≤ ioMapSize) :
  b.Segmented (ecxConfigMapSegments b.slavecount b.slave IOsegment)
  := by
  have hlayout := ecxConfigMapSegments_layout b.slavecount b.slave IOsegment
  obtain ⟨hout, hin⟩ := b.laysOut
  rw [ecxConfigMapSegments] at hlayout ⊢
  dsimp only at hlayout ⊢
  -- the outputs
  have hstart : Divided [] ⟨0, 0, fun _ => none, fun _ => []⟩ ⟨0, 0, IOsegment⟩ :=
    ⟨rfl, Packing.sound_nil maxSegment, rfl⟩
  have hfirst : offset 0 1 (fun n => (b.slave n).outputSize) (1 + b.slavecount) ≤ ioMapSize := by
    rw [Nat.add_comm 1]
    exact Layout.start_le_offset.trans himage
  obtain ⟨items, hoDivided, -, hoNew, -⟩ := hstart.mapSegments
    (fun n => EcSlave.creates_outputs (b.byteOriented n).1) b.slavecount
    (fun n hn hlt => (hslave n ⟨hn, by omega⟩).1) hfirst
  generalize mapSegments b.slave EcSlave.Obits ecxConfigCreateOutputMappings
    (List.range' 1 b.slavecount) (⟨0, 0, fun _ => none, fun _ => []⟩, ⟨0, 0, IOsegment⟩) = outputs
    at hlayout hoDivided ⊢
  rw [closeSegments_of_bitPos hoDivided.BitPos] at hlayout ⊢
  rw [hoDivided.BitPos] at hlayout ⊢
  -- the inputs
  have hoLogAddr : outputs.1.LogAddr = b.inputStart 1 := by
    have heq : outputs.1 = b.layout.outputs := congrArg IoLayout.outputs hlayout
    rw [heq, hout.LogAddr, MappedBus.inputStart, Layout.offset_first]
    rfl
  have hmiddle : Divided items ⟨outputs.1.LogAddr, 0, fun _ => none, fun _ => []⟩ outputs.2 :=
    ⟨hoDivided.total, hoDivided.sound, rfl⟩
  have hsecond : offset outputs.1.LogAddr 1 (fun n => (b.slave n).inputSize) (1 + b.slavecount)
      ≤ ioMapSize := by
    rw [Nat.add_comm 1, hoLogAddr, MappedBus.inputStart, Layout.offset_first]
    exact himage
  obtain ⟨items', hiDivided, hiOld, hiNew, hcontinues⟩ := hmiddle.mapSegments
    (fun n => EcSlave.creates_inputs (b.byteOriented n).2) b.slavecount
    (fun n hn hlt => (hslave n ⟨hn, by omega⟩).2) hsecond
  generalize mapSegments b.slave EcSlave.Ibits ecxConfigCreateInputMappings
    (List.range' 1 b.slavecount) (⟨outputs.1.LogAddr, 0, fun _ => none, fun _ => []⟩, outputs.2)
    = inputs at hlayout hiDivided hcontinues ⊢
  rw [closeSegments_of_bitPos hiDivided.BitPos] at hlayout ⊢
  have hiLogAddr : inputs.1.LogAddr = b.inputStart (b.slavecount + 1) := by
    have heq : inputs.1 = b.layout.inputs := congrArg IoLayout.inputs hlayout
    rw [heq, hin.LogAddr]
    rfl
  have hle : outputs.1.LogAddr ≤ inputs.1.LogAddr := by
    rw [hoLogAddr, hiLogAddr]
    exact Layout.offset_mono (by omega)
  have hbytes : outputs.1.LogAddr + (inputs.1.LogAddr - outputs.1.LogAddr) = inputs.1.LogAddr := by
    omega
  have hstarts := hcontinues.start_eq (k := outputs.2.currentsegment) le_rfl
  constructor
  case layout => exact hlayout
  case Obytes => exact hoLogAddr
  case Ibytes => exact hbytes.trans hiLogAddr
  case total =>
    dsimp only
    rw [hbytes, ← hiDivided.total]
    exact inputs.2.packing.start_close
  case le =>
    intro k hk
    exact hiDivided.sound.le k (Nat.le_of_lt_succ hk)
  case few =>
    have hfew := hiDivided.currentsegment_le (hiLogAddr.trans_le himage)
    dsimp only
    omega
  case Isegment => exact Nat.lt_succ_of_le hcontinues.current
  case Ioffset =>
    refine ⟨?_, hcontinues.size⟩
    rw [← hoDivided.total, Packing.total]
    congr 1
  case whole =>
    intro o ho hbits
    cases o with
    | output n =>
        have hlast : n ≤ b.slavecount := ho.2
        apply hiDivided.sound.inBin
        exact hiOld _ (hoNew n ho.1 (by omega) hbits)
    | input n =>
        have hlast : n ≤ b.slavecount := ho.2
        apply hiDivided.sound.inBin
        have hmem := hiNew n ho.1 (by omega) hbits
        dsimp only at hmem
        rw [hoLogAddr, MappedBus.inputStart, Layout.offset_first] at hmem
        exact hmem

/-! ### The frames of a cycle -/

/-- Places of the index stack that hold data one after the other, from a position to another. -/
def Tiles : List IdxEntry → ℕ → ℕ → Prop
  | [], a, b => a = b
  | entry :: entries, a, b => entry.data = a ∧ Tiles entries (a + entry.length) b

theorem Tiles.mem {entries : List IdxEntry} {a b : ℕ} (h : Tiles entries a b) :
  a ≤ b ∧ ∀ entry ∈ entries, a ≤ entry.data ∧ entry.data + entry.length ≤ b
  := by
  induction entries generalizing a with
  | nil => exact ⟨h.le, fun entry hentry => absurd hentry List.not_mem_nil⟩
  | cons first entries ih =>
      obtain ⟨hdata, htiles⟩ := h
      obtain ⟨hle, hmem⟩ := ih htiles
      refine ⟨by omega, ?_⟩
      intro entry hentry
      rcases List.mem_cons.mp hentry with rfl | hentry
      · omega
      · have hbounds := hmem entry hentry
        omega

/-- No position is in two of the places. -/
def ApartEntries (entries : List IdxEntry) : Prop :=
  entries.Pairwise fun entry entry' =>
    Disjoint (Set.Ico entry.data (entry.data + entry.length))
      (Set.Ico entry'.data (entry'.data + entry'.length))

theorem Tiles.apart {entries : List IdxEntry} {a b : ℕ} (h : Tiles entries a b) :
  ApartEntries entries
  := by
  induction entries generalizing a with
  | nil => exact List.Pairwise.nil
  | cons first entries ih =>
      obtain ⟨hdata, htiles⟩ := h
      apply List.Pairwise.cons _ (ih htiles)
      intro entry hentry
      have hbounds := htiles.mem.2 entry hentry
      apply Set.Ico_disjoint_Ico.mpr
      omega

/-- The place of a position is the only one. -/
theorem ApartEntries.eq {entries : List IdxEntry} (h : ApartEntries entries) {x pos pos' : ℕ}
    {entry entry' : IdxEntry} (hentry : entries[pos]? = some entry)
    (hentry' : entries[pos']? = some entry')
    (hmem : x ∈ Set.Ico entry.data (entry.data + entry.length))
    (hmem' : x ∈ Set.Ico entry'.data (entry'.data + entry'.length)) :
  pos = pos'
  := by
  obtain ⟨hlt, rfl⟩ := List.getElem?_eq_some_iff.mp hentry
  obtain ⟨hlt', rfl⟩ := List.getElem?_eq_some_iff.mp hentry'
  rcases Nat.lt_trichotomy pos pos' with hbefore | heq | hbehind
  · exact absurd hmem'
      (Set.disjoint_left.mp (List.pairwise_iff_getElem.mp h _ _ hlt hlt' hbefore) hmem)
  · exact heq
  · exact absurd hmem
      (Set.disjoint_left.mp (List.pairwise_iff_getElem.mp h _ _ hlt' hlt hbehind) hmem')

section Cycle

/-- A number of segments are sent, from a segment on. -/
def sendRun (com : EcCmdtype) (f : ℕ → ℕ) (sendOk : ℕ → Bool) : ℕ → ℕ → SendState → SendState
  | _, 0, x => x
  | cur, m + 1, x => sendRun com f sendOk (cur + 1) m (sendSegment com (f cur) 0 sendOk x)

/-- A loop over segments starts at a place in the image. -/
structure SendState.Begins (x : SendState) (c : Context) (first : Bool) (data : ℕ) : Prop where
  context : x.context = c
  first : x.first = first
  logAdr : x.logAdr = c.group.logstartaddr + data.toUInt32
  data : x.data = data

/-- What a round of the loops does to the variables. -/
theorem sendSegment_kept (com : EcCmdtype) (sendOk : ℕ → Bool) (sub : ℕ) (x : SendState) :
  (sendSegment com sub 0 sendOk x).context.group = x.context.group
    ∧ (sendSegment com sub 0 sendOk x).length = x.length - sub
    ∧ (sendSegment com sub 0 sendOk x).data = x.data + sub
  := by
  obtain ⟨txbuf, txbuflength, first, DCl, DCtO, hsetup⟩ := setupSegment_eq com
    (ecxGetindex x.context.port).1 sub
    { x with context := { x.context with port := (ecxGetindex x.context.port).2 } }
  rw [sendSegment]
  dsimp only
  rw [hsetup]
  exact ⟨rfl, rfl, rfl⟩

/-- What a round of the loops does to the stack. -/
theorem sendSegment_entries (com : EcCmdtype) (sendOk : ℕ → Bool) {sub : ℕ} {x : SendState}
    (hroom : x.context.idxstack.entries.length < ecMaxbuf) (hsub : sub < 65536) :
  (sendSegment com sub 0 sendOk x).context.idxstack.entries
    = x.context.idxstack.entries ++ [⟨(ecxGetindex x.context.port).1, x.data, sub⟩]
  := by
  obtain ⟨txbuf, txbuflength, first, DCl, DCtO, hsetup⟩ := setupSegment_eq com
    (ecxGetindex x.context.port).1 sub
    { x with context := { x.context with port := (ecxGetindex x.context.port).2 } }
  have huint : uint16OfInt (sub : ℤ) = sub := by
    rw [uint16OfInt]
    omega
  rw [sendSegment]
  dsimp only
  rw [hsetup]
  dsimp only
  rw [ecxPushindex, if_pos hroom, huint]
  rfl

theorem sendRun_group (com : EcCmdtype) (f : ℕ → ℕ) (sendOk : ℕ → Bool) (cur m : ℕ)
    (x : SendState) :
  (sendRun com f sendOk cur m x).context.group = x.context.group
  := by
  induction m generalizing cur x with
  | zero => rfl
  | succ m ih =>
      rw [sendRun, ih]
      exact (sendSegment_kept com sendOk (f cur) x).1

/-- What the loops push: the segments from a number on, one after the other, until nothing is
left. -/
structure Pushed (f : ℕ → ℕ) (N cur a : ℕ) (entries : List IdxEntry) : Prop where
  tiles : Tiles entries a (a + ∑ i ∈ Finset.Ico cur N, f i)
  le : ∀ entry ∈ entries, entry.length ≤ maxSegment
  each : ∀ k, cur ≤ k → k < N → f k ≠ 0 →
    ∃ entry ∈ entries, entry.data = a + ∑ i ∈ Finset.Ico cur k, f i ∧ entry.length = f k
  few : entries.length ≤ N - cur

variable {f : ℕ → ℕ} {N cur a idx : ℕ}

/-- The first of the segments is pushed before the others. -/
theorem Pushed.cons {entries : List IdxEntry} (h : Pushed f N (cur + 1) (a + f cur) entries)
    (hcur : cur < N) (hle : f cur ≤ maxSegment) :
  Pushed f N cur a (⟨idx, a, f cur⟩ :: entries)
  := by
  have hsum : ∀ k, cur < k → a + ∑ i ∈ Finset.Ico cur k, f i
      = a + f cur + ∑ i ∈ Finset.Ico (cur + 1) k, f i := by
    intro k hk
    rw [Finset.sum_eq_sum_Ico_succ_bot hk, Nat.add_assoc]
  constructor
  case tiles =>
    rw [hsum N hcur]
    exact ⟨rfl, h.tiles⟩
  case le =>
    intro entry hentry
    rcases List.mem_cons.mp hentry with rfl | hentry
    · exact hle
    · exact h.le entry hentry
  case each =>
    intro k hk hkN hpos
    rcases hk.eq_or_lt with rfl | hk
    · refine ⟨_, List.mem_cons_self, ?_, rfl⟩
      rw [Finset.Ico_self, Finset.sum_empty, Nat.add_zero]
    · obtain ⟨entry, hentry, hdata, hlength⟩ := h.each k hk hkN hpos
      refine ⟨entry, List.mem_cons_of_mem _ hentry, ?_, hlength⟩
      rw [hdata, hsum k hk]
  case few =>
    have hfew := h.few
    rw [List.length_cons]
    omega

/-- Nothing is left to be pushed. -/
theorem pushed_nil (h : ∑ i ∈ Finset.Ico cur N, f i = 0) :
  Pushed f N cur a []
  := by
  constructor
  case tiles =>
    rw [h]
    rfl
  case le => exact fun entry hentry => absurd hentry List.not_mem_nil
  case each =>
    intro k hk hkN hpos
    rw [Finset.sum_eq_zero_iff] at h
    exact absurd (h k (Finset.mem_Ico.mpr ⟨hk, hkN⟩)) hpos
  case few => exact Nat.zero_le _

/-- The loops send all segments but empty ones at the end. -/
theorem sendSegments_eq (com : EcCmdtype) (sublength : ℕ → ℤ → ℤ) (sendOk : ℕ → Bool)
    (hsub : ∀ k < N, sublength k (∑ i ∈ Finset.Ico k N, f i : ℕ) = f k) (rounds : ℕ)
    (hcur : cur < N) (hrounds : N - cur ≤ rounds + 1) {x : SendState}
    (hN : N ≤ x.context.group.nsegments)
    (hlength : x.length = (∑ i ∈ Finset.Ico cur N, f i : ℕ)) :
  ∃ m, cur + m ≤ N ∧ ∑ i ∈ Finset.Ico (cur + m) N, f i = 0
    ∧ sendSegments com sublength 0 sendOk rounds cur x = sendRun com f sendOk cur m x
  := by
  induction rounds generalizing cur x with
  | zero =>
      refine ⟨1, hcur, ?_, ?_⟩
      · rw [Finset.Ico_eq_empty (by omega), Finset.sum_empty]
      · rw [sendSegments, hlength, hsub cur hcur]
        rfl
  | succ rounds ih =>
      obtain ⟨hgroup, hlength', -⟩ := sendSegment_kept com sendOk (f cur) x
      have hleft : (sendSegment com (f cur) 0 sendOk x).length
          = (∑ i ∈ Finset.Ico (cur + 1) N, f i : ℕ) := by
        rw [hlength', hlength, Finset.sum_eq_sum_Ico_succ_bot hcur]
        omega
      have hlast : ¬ cur + 1 < N → ∑ i ∈ Finset.Ico (cur + 1) N, f i = 0 := by
        intro hnext
        rw [Finset.Ico_eq_empty hnext, Finset.sum_empty]
      rw [sendSegments, hlength, hsub cur hcur]
      split
      case isTrue hmore =>
        have hnext : cur + 1 < N := by
          by_contra hnext
          apply hmore.1
          rw [hleft, hlast hnext]
          rfl
        obtain ⟨m, hm, hzero, heq⟩ := ih hnext (by omega) (hgroup ▸ hN) hleft
        refine ⟨m + 1, by omega, ?_, ?_⟩
        · rw [← Nat.add_assoc, Nat.add_right_comm]
          exact hzero
        · rw [heq, sendRun]
      case isFalse hdone =>
        have hzero : ∑ i ∈ Finset.Ico (cur + 1) N, f i = 0 := by
          by_cases hnext : cur + 1 < N
          · have hzero := not_and.mp hdone
            rw [hleft] at hzero
            by_contra hpos
            exact hzero (by exact_mod_cast hpos) (hnext.trans_le hN)
          · exact hlast hnext
        exact ⟨1, hcur, hzero, rfl⟩

/-- Segments that are sent one after the other are pushed. -/
theorem sendRun_pushed (com : EcCmdtype) (sendOk : ℕ → Bool) (hf : ∀ k < N, f k ≤ maxSegment)
    (cur m : ℕ) (hm : cur + m ≤ N) (hzero : ∑ i ∈ Finset.Ico (cur + m) N, f i = 0)
    {x : SendState} (hroom : x.context.idxstack.entries.length + m ≤ ecMaxbuf) :
  ∃ entries, (sendRun com f sendOk cur m x).context.idxstack.entries
      = x.context.idxstack.entries ++ entries
    ∧ entries.length = m ∧ Pushed f N cur x.data entries
  := by
  induction m generalizing cur x with
  | zero => exact ⟨[], (List.append_nil _).symm, rfl, pushed_nil hzero⟩
  | succ m ih =>
      have hcur : cur < N := by omega
      have hle := hf cur hcur
      have hlimit : maxSegment < 65536 := by decide
      have hentries := sendSegment_entries com sendOk (x := x) (by omega)
        (by omega : f cur < 65536)
      obtain ⟨-, -, hdata⟩ := sendSegment_kept com sendOk (f cur) x
      have hroom' : (sendSegment com (f cur) 0 sendOk x).context.idxstack.entries.length + m
          ≤ ecMaxbuf := by
        rw [hentries, List.length_append, List.length_singleton]
        omega
      have hzero' : ∑ i ∈ Finset.Ico (cur + 1 + m) N, f i = 0 := by
        rw [Nat.add_right_comm]
        exact hzero
      obtain ⟨entries, hpushed, hcount, h⟩ := ih (cur + 1) (by omega) hzero' hroom'
      rw [hdata] at h
      refine ⟨⟨(ecxGetindex x.context.port).1, x.data, f cur⟩ :: entries, ?_,
        congrArg Nat.succ hcount, h.cons hcur hle⟩
      rw [sendRun, hpushed, hentries, List.append_assoc, List.singleton_append]

/-- An item within a bin is within the frame that is pushed for it. -/
theorem Pushed.covers {entries : List IdxEntry} (h : Pushed f N cur a entries) {k : ℕ}
    (hk : cur ≤ k) (hkN : k < N) {item : ℕ × ℕ} (hpos : 0 < item.2)
    (hstart : a + ∑ i ∈ Finset.Ico cur k, f i ≤ item.1)
    (hend : item.1 + item.2 ≤ a + ∑ i ∈ Finset.Ico cur k, f i + f k) :
  ∃ entry ∈ entries, entry.data ≤ item.1 ∧ item.1 + item.2 ≤ entry.data + entry.length
  := by
  obtain ⟨entry, hentry, hdata, hlength⟩ := h.each k hk hkN (by omega)
  exact ⟨entry, hentry, by omega, by omega⟩

end Cycle

/-- A group has the segments that were found for it. -/
def IoGroup.set (g : IoGroup) (group : Group) : Group :=
  { group with
    Obytes := g.Obytes
    outputs := 0
    Ibytes := g.Ibytes
    inputs := g.Obytes
    nsegments := g.nsegments
    Isegment := g.Isegment
    Ioffset := g.Ioffset
    IOsegment := g.IOsegment }

/-- The segments of the inputs. -/
def IoGroup.inputSegment (g : IoGroup) (k : ℕ) : ℕ :=
  if k = g.Isegment then g.IOsegment k - g.Ioffset else g.IOsegment k

/-- The segments of the outputs. -/
def IoGroup.outputSegment (g : IoGroup) (k : ℕ) : ℕ :=
  min (g.IOsegment k) (g.Obytes - Packing.start g.IOsegment k)

section Sums

variable {b : MappedBus} {g : IoGroup}

theorem sum_IOsegment (g : IoGroup) (k : ℕ) :
  ∑ i ∈ Finset.Ico 0 k, g.IOsegment i = Packing.start g.IOsegment k
  := by
  rw [Packing.start, Finset.range_eq_Ico]

/-- The inputs before a segment end where the segment starts. -/
theorem MappedBus.Segmented.sum_inputs (h : b.Segmented g) {k : ℕ} (hk : g.Isegment < k) :
  g.Obytes + ∑ i ∈ Finset.Ico g.Isegment k, g.inputSegment i = Packing.start g.IOsegment k
  := by
  obtain ⟨hstart, hle⟩ := h.Ioffset
  have hrest : ∑ i ∈ Finset.Ico (g.Isegment + 1) k, g.inputSegment i
      = ∑ i ∈ Finset.Ico (g.Isegment + 1) k, g.IOsegment i := by
    apply Finset.sum_congr rfl
    intro i hi
    rw [IoGroup.inputSegment, if_neg (by have := (Finset.mem_Ico.mp hi).1; omega)]
  have hall := sum_IOsegment g k
  rw [← Finset.sum_Ico_consecutive g.IOsegment (Nat.zero_le g.Isegment) hk.le, sum_IOsegment,
    Finset.sum_eq_sum_Ico_succ_bot hk] at hall
  rw [Finset.sum_eq_sum_Ico_succ_bot hk, hrest, IoGroup.inputSegment, if_pos rfl]
  omega

/-- The outputs before a segment end where the segment starts, or there are none from there on. -/
theorem sum_outputs (g : IoGroup) {k n : ℕ} (hk : k ≤ n) :
  ∑ i ∈ Finset.Ico k n, g.outputSegment i
    = g.Obytes - Packing.start g.IOsegment k - (g.Obytes - Packing.start g.IOsegment n)
  := by
  induction n, hk using Nat.le_induction with
  | base => rw [Finset.Ico_self, Finset.sum_empty, Nat.sub_self]
  | succ n hk ih =>
      have hmono : Packing.start g.IOsegment k ≤ Packing.start g.IOsegment n :=
        Packing.start_mono hk
      rw [Finset.sum_Ico_succ_top hk, ih, IoGroup.outputSegment, Packing.start_succ]
      omega

/-- The outputs end in the segment where the inputs start. -/
theorem MappedBus.Segmented.sum_outputs (h : b.Segmented g) {k : ℕ} (hk : k ≤ g.Isegment + 1) :
  ∑ i ∈ Finset.Ico k (g.Isegment + 1), g.outputSegment i
    = g.Obytes - Packing.start g.IOsegment k
  := by
  obtain ⟨hstart, hend⟩ := h.Ioffset
  have hafter : g.Obytes ≤ Packing.start g.IOsegment (g.Isegment + 1) := by
    rw [Packing.start_succ]
    omega
  rw [EthercatMaster.sum_outputs g hk, Nat.sub_eq_zero_of_le hafter, Nat.sub_zero]

variable {group : Group} {x : SendState}

theorem MappedBus.Segmented.inputSegment_le (h : b.Segmented g) {k : ℕ} (hk : k < g.nsegments) :
  g.inputSegment k ≤ maxSegment
  := by
  have hle := h.le k hk
  rw [IoGroup.inputSegment]
  split
  · omega
  · exact hle

theorem MappedBus.Segmented.outputSegment_le (h : b.Segmented g) {k : ℕ}
    (hk : k < g.Isegment + 1) :
  g.outputSegment k ≤ maxSegment
  := (min_le_left _ _).trans (h.le k (hk.trans_le h.Isegment))

theorem MappedBus.Segmented.sum_Ibytes (h : b.Segmented g) :
  ∑ i ∈ Finset.Ico g.Isegment g.nsegments, g.inputSegment i = g.Ibytes
  := by
  have hsum := h.sum_inputs h.Isegment
  rw [h.total] at hsum
  omega

/-- The whole image is sent in its segments. -/
theorem MappedBus.Segmented.sendImage_eq (h : b.Segmented g) (sendOk : ℕ → Bool)
    (hgroup : x.context.group = g.set group) (hlength : x.length = (g.Obytes + g.Ibytes : ℕ)) :
  ∃ m ≤ g.nsegments, ∑ i ∈ Finset.Ico m g.nsegments, g.IOsegment i = 0
    ∧ sendImage 0 sendOk x = sendRun .lrw g.IOsegment sendOk 0 m { x with data := 0 }
  := by
  have hpos : 0 < g.nsegments := Nat.zero_lt_of_lt h.Isegment
  have hnsegments : x.context.group.nsegments = g.nsegments := by
    rw [hgroup]
    rfl
  obtain ⟨m, hm, hzero, heq⟩ := sendSegments_eq .lrw (imageSublength x.context.group) sendOk
    (f := g.IOsegment) (N := g.nsegments) (x := { x with data := 0 })
    (fun k _ => by rw [imageSublength, hgroup]; rfl) x.context.group.nsegments hpos (by omega)
    hnsegments.ge (by rw [hlength, sum_IOsegment, h.total])
  rw [Nat.zero_add] at hm hzero
  refine ⟨m, hm, hzero, ?_⟩
  rw [← heq, EthercatMaster.sendImage]
  split
  case isTrue =>
    have houtputs : x.context.group.outputs = 0 := by
      rw [hgroup]
      rfl
    rw [houtputs]
  case isFalse hnone =>
    have hinputs : x.context.group.inputs = 0 := by
      rw [hgroup, IoGroup.set] at hnone ⊢
      exact not_not.mp hnone
    rw [hinputs]

/-- The inputs are read in their segments. -/
theorem MappedBus.Segmented.sendInputs_eq (h : b.Segmented g) (sendOk : ℕ → Bool)
    (hgroup : x.context.group = g.set group) (hlogAdr : x.logAdr = x.context.group.logstartaddr) :
  ∃ m, g.Isegment + m ≤ g.nsegments
    ∧ ∑ i ∈ Finset.Ico (g.Isegment + m) g.nsegments, g.inputSegment i = 0
    ∧ ∃ y : SendState, y.Begins x.context x.first g.Obytes
      ∧ (sendInputs sendOk x).context
        = (sendRun .lrd g.inputSegment sendOk g.Isegment m y).context
      ∧ (sendInputs sendOk x).first = (sendRun .lrd g.inputSegment sendOk g.Isegment m y).first
  := by
  have hnsegments : x.context.group.nsegments = g.nsegments := by
    rw [hgroup]
    rfl
  have hsublength : ∀ k < g.nsegments, inputSublength x.context.group k
      (∑ i ∈ Finset.Ico k g.nsegments, g.inputSegment i : ℕ) = g.inputSegment k := by
    intro k hk
    have hIoffset := h.Ioffset.2
    rw [hgroup, IoGroup.set, inputSublength, IoGroup.inputSegment]
    dsimp only
    split
    case isTrue hfirst =>
      subst hfirst
      omega
    case isFalse => rfl
  have hIsegment : x.context.group.Isegment = g.Isegment := by
    rw [hgroup]
    rfl
  have hIbytes : x.context.group.Ibytes = g.Ibytes := by
    rw [hgroup]
    rfl
  have hObytes : x.context.group.Obytes = g.Obytes := by
    rw [hgroup]
    rfl
  have hinputs : x.context.group.inputs = g.Obytes := by
    rw [hgroup]
    rfl
  rw [EthercatMaster.sendInputs]
  rw [hIsegment, hIbytes, hObytes, hinputs, hlogAdr]
  split
  case isTrue hsome =>
    obtain ⟨m, hm, hzero, heq⟩ := sendSegments_eq .lrd (inputSublength x.context.group) sendOk
      (f := g.inputSegment) hsublength x.context.group.nsegments h.Isegment (by omega)
      (x := { x with
        data := g.Obytes
        length := g.Ibytes
        logAdr := x.context.group.logstartaddr + g.Obytes.toUInt32 })
      hnsegments.ge (by rw [h.sum_Ibytes])
    refine ⟨m, hm, hzero, _, ?_, congrArg SendState.context heq, congrArg SendState.first heq⟩
    exact ⟨rfl, rfl, rfl, rfl⟩
  case isFalse hnone =>
    refine ⟨0, h.Isegment.le, ?_,
      { x with
        data := g.Obytes
        logAdr := x.context.group.logstartaddr + g.Obytes.toUInt32 },
      ⟨rfl, rfl, rfl, rfl⟩, rfl, rfl⟩
    rw [Nat.add_zero, h.sum_Ibytes]
    exact not_not.mp hnone

/-- The outputs are written in their segments. -/
theorem MappedBus.Segmented.sendOutputs_eq (h : b.Segmented g) (sendOk : ℕ → Bool)
    (hgroup : x.context.group = g.set group) :
  ∃ m ≤ g.Isegment + 1, ∑ i ∈ Finset.Ico m (g.Isegment + 1), g.outputSegment i = 0
    ∧ ∃ y : SendState, y.Begins x.context x.first 0
      ∧ (sendOutputs sendOk x).context = (sendRun .lwr g.outputSegment sendOk 0 m y).context
  := by
  have hIsegment := h.Isegment
  have hnsegments : x.context.group.nsegments = g.nsegments := by
    rw [hgroup]
    rfl
  have hsublength : ∀ k < g.Isegment + 1, outputSublength x.context.group k
      (∑ i ∈ Finset.Ico k (g.Isegment + 1), g.outputSegment i : ℕ) = g.outputSegment k := by
    intro k hk
    rw [h.sum_outputs hk.le, hgroup, IoGroup.set, outputSublength, IoGroup.outputSegment]
    dsimp only
    split
    · omega
    · omega
  have hall : ∑ i ∈ Finset.Ico 0 (g.Isegment + 1), g.outputSegment i = g.Obytes :=
    h.sum_outputs (Nat.zero_le _)
  have hObytes : x.context.group.Obytes = g.Obytes := by
    rw [hgroup]
    rfl
  have houtputs : x.context.group.outputs = 0 := by
    rw [hgroup]
    rfl
  rw [EthercatMaster.sendOutputs]
  rw [hObytes, houtputs]
  split
  case isTrue hsome =>
    obtain ⟨m, hm, hzero, heq⟩ := sendSegments_eq .lwr (outputSublength x.context.group) sendOk
      (f := g.outputSegment) hsublength x.context.group.nsegments (Nat.succ_pos _) (by omega)
      (x := { x with data := 0, length := g.Obytes, logAdr := x.context.group.logstartaddr })
      (by dsimp only; omega) (by rw [hall])
    rw [Nat.zero_add] at hm hzero
    refine ⟨m, hm, hzero, _, ?_, congrArg SendState.context heq⟩
    exact ⟨rfl, rfl, (UInt32.add_zero _).symm, rfl⟩
  case isFalse hnone =>
    refine ⟨0, Nat.zero_le _, ?_, { x with data := 0, logAdr := x.context.group.logstartaddr },
      ⟨rfl, rfl, (UInt32.add_zero _).symm, rfl⟩, rfl⟩
    rw [hall]
    exact not_not.mp hnone

/-- In a cycle where the image is sent at once, one loop pushes all of its frames. -/
theorem MappedBus.Segmented.cycle_image (h : b.Segmented g) {c : Context}
    (hgroup : c.group = g.set group) (hstack : c.idxstack.entries = [])
    (hblock : group.blockLRW = false) (sendOk : ℕ → Bool) :
  ∃ entries, Pushed g.IOsegment g.nsegments 0 0 entries
    ∧ (ecSendProcessdata sendOk c).2.idxstack.entries = entries
    ∧ ∃ x : SendState, x.Begins c c.group.hasdc 0
      ∧ (ecSendProcessdata sendOk c).2
        = (sendRun .lrw g.IOsegment sendOk 0 entries.length x).context
  := by
  have hbuf : ecMaxbuf = 16 := rfl
  have hfew := h.few
  have hblocked : ¬ c.group.blockLRW = true := by
    rw [hgroup]
    exact ne_true_of_eq_false hblock
  have hbytes : c.group.Obytes + c.group.Ibytes = g.Obytes + g.Ibytes := by
    rw [hgroup]
    rfl
  have hrun : ∃ m ≤ g.nsegments, ∑ i ∈ Finset.Ico m g.nsegments, g.IOsegment i = 0
      ∧ ∃ x : SendState, x.Begins c c.group.hasdc 0
        ∧ (ecSendProcessdata sendOk c).2 = (sendRun .lrw g.IOsegment sendOk 0 m x).context := by
    rw [ecSendProcessdata, ecxMainSendProcessdata, if_neg Bool.false_ne_true,
      if_neg Bool.false_ne_true, if_neg hblocked]
    split
    case isTrue =>
      obtain ⟨m, hm, hzero, heq⟩ := h.sendImage_eq sendOk
        (x := ⟨c, c.group.hasdc, (c.group.Obytes + c.group.Ibytes : ℕ), c.group.logstartaddr, 0⟩)
        hgroup (congrArg _ hbytes)
      refine ⟨m, hm, hzero, _, ?_, congrArg SendState.context heq⟩
      exact ⟨rfl, rfl, (UInt32.add_zero _).symm, rfl⟩
    case isFalse hnone =>
      refine ⟨0, Nat.zero_le _, ?_, ⟨c, c.group.hasdc, 0, c.group.logstartaddr, 0⟩,
        ⟨rfl, rfl, (UInt32.add_zero _).symm, rfl⟩, rfl⟩
      rw [sum_IOsegment, h.total, ← hbytes]
      exact not_not.mp hnone
  obtain ⟨m, hm, hzero, x, hx, heq⟩ := hrun
  obtain ⟨entries, hentries, hlength, hpushed⟩ := sendRun_pushed .lrw sendOk h.le 0 m
    (by omega) (by rw [Nat.zero_add]; exact hzero) (x := x)
    (by rw [hx.context, hstack, List.length_nil]; omega)
  rw [hx.context, hstack, List.nil_append, ← heq] at hentries
  rw [hx.data] at hpushed
  rw [← hlength] at heq
  exact ⟨entries, hpushed, hentries, x, hx, heq⟩

/-- In a cycle where inputs and outputs are sent apart, a loop pushes the frames of the inputs and
another one those of the outputs. -/
theorem MappedBus.Segmented.cycle_blocks (h : b.Segmented g) {c : Context}
    (hgroup : c.group = g.set group) (hstack : c.idxstack.entries = [])
    (hblock : group.blockLRW = true) (sendOk : ℕ → Bool) :
  ∃ inputs outputs, Pushed g.inputSegment g.nsegments g.Isegment g.Obytes inputs
    ∧ Pushed g.outputSegment (g.Isegment + 1) 0 0 outputs
    ∧ (ecSendProcessdata sendOk c).2.idxstack.entries = inputs ++ outputs
    ∧ ∃ x y : SendState, x.Begins c c.group.hasdc g.Obytes
      ∧ y.Begins (sendRun .lrd g.inputSegment sendOk g.Isegment inputs.length x).context
        (sendRun .lrd g.inputSegment sendOk g.Isegment inputs.length x).first 0
      ∧ (ecSendProcessdata sendOk c).2
        = (sendRun .lwr g.outputSegment sendOk 0 outputs.length y).context
  := by
  have hbuf : ecMaxbuf = 16 := rfl
  have hfew := h.few
  have hIsegment := h.Isegment
  have hblocked : c.group.blockLRW = true := by
    rw [hgroup]
    exact hblock
  have hbytes : c.group.Obytes + c.group.Ibytes = g.Obytes + g.Ibytes := by
    rw [hgroup]
    rfl
  have hrun : ∃ m, g.Isegment + m ≤ g.nsegments
      ∧ ∑ i ∈ Finset.Ico (g.Isegment + m) g.nsegments, g.inputSegment i = 0
      ∧ ∃ m' ≤ g.Isegment + 1, ∑ i ∈ Finset.Ico m' (g.Isegment + 1), g.outputSegment i = 0
      ∧ ∃ x y : SendState, x.Begins c c.group.hasdc g.Obytes
        ∧ y.Begins (sendRun .lrd g.inputSegment sendOk g.Isegment m x).context
          (sendRun .lrd g.inputSegment sendOk g.Isegment m x).first 0
        ∧ (ecSendProcessdata sendOk c).2
          = (sendRun .lwr g.outputSegment sendOk 0 m' y).context := by
    rw [ecSendProcessdata, ecxMainSendProcessdata, if_neg Bool.false_ne_true, if_pos hblocked]
    split
    case isTrue =>
      obtain ⟨m, hm, hzero, x, hx, hcontext, hfirst⟩ := h.sendInputs_eq sendOk
        (x := ⟨c, c.group.hasdc, (c.group.Obytes + c.group.Ibytes : ℕ), c.group.logstartaddr, 0⟩)
        hgroup rfl
      have hgroup' := (congrArg Context.group hcontext).trans (sendRun_group ..)
      rw [hx.context] at hgroup'
      obtain ⟨m', hm', hzero', y, hy, heq⟩ := h.sendOutputs_eq sendOk (hgroup'.trans hgroup)
      rw [hcontext, hfirst] at hy
      exact ⟨m, hm, hzero, m', hm', hzero', x, y, hx, hy, heq⟩
    case isFalse hnone =>
      refine ⟨0, h.Isegment.le, ?_, 0, Nat.zero_le _, ?_,
        ⟨c, c.group.hasdc, 0, c.group.logstartaddr + g.Obytes.toUInt32, g.Obytes⟩,
        ⟨c, c.group.hasdc, 0, c.group.logstartaddr, 0⟩, ⟨rfl, rfl, rfl, rfl⟩,
        ⟨rfl, rfl, (UInt32.add_zero _).symm, rfl⟩, rfl⟩
      · rw [Nat.add_zero, h.sum_Ibytes]
        omega
      · rw [h.sum_outputs (Nat.zero_le _)]
        omega
  obtain ⟨m, hm, hzero, m', hm', hzero', x, y, hx, hy, heq⟩ := hrun
  obtain ⟨inputs, hinputs, hlength, hpushed⟩ := sendRun_pushed .lrd sendOk
    (fun k hk => h.inputSegment_le hk) g.Isegment m hm hzero (x := x)
    (by rw [hx.context, hstack, List.length_nil]; omega)
  rw [hx.context, hstack, List.nil_append] at hinputs
  rw [hx.data] at hpushed
  obtain ⟨outputs, houtputs, hlength', hpushed'⟩ := sendRun_pushed .lwr sendOk
    (fun k hk => h.outputSegment_le hk) 0 m' (by omega) (by rw [Nat.zero_add]; exact hzero')
    (x := y) (by rw [hy.context, hinputs]; omega)
  rw [hy.context, hinputs, ← heq] at houtputs
  rw [hy.data] at hpushed'
  rw [← hlength'] at heq
  rw [← hlength] at hy
  exact ⟨inputs, outputs, hpushed, hpushed', houtputs, x, y, hx, hy, heq⟩

/-! ### The areas of the slaves -/

/-- The frame of a segment carries the inputs in it. -/
theorem MappedBus.Segmented.covers_input (h : b.Segmented g) {entries : List IdxEntry}
    (hpushed : Pushed g.inputSegment g.nsegments g.Isegment g.Obytes entries) {item : ℕ × ℕ}
    (hitem : Packing.InBin g.IOsegment g.nsegments item) (hpos : 0 < item.2)
    (hinput : g.Obytes ≤ item.1) :
  ∃ entry ∈ entries, entry.data ≤ item.1 ∧ item.1 + item.2 ≤ entry.data + entry.length
  := by
  obtain ⟨k, hk, hfirst, hlast⟩ := hitem
  obtain ⟨hstart, hle⟩ := h.Ioffset
  have hge : g.Isegment ≤ k := by
    by_contra hlt
    have hmono : Packing.start g.IOsegment (k + 1) ≤ Packing.start g.IOsegment g.Isegment :=
      Packing.start_mono (by omega)
    omega
  rw [Packing.start_succ] at hlast
  apply hpushed.covers hge hk hpos
  · rcases hge.eq_or_lt with rfl | hgt
    · rw [Finset.Ico_self, Finset.sum_empty]
      exact hinput
    · rw [h.sum_inputs hgt]
      exact hfirst
  · rcases hge.eq_or_lt with rfl | hgt
    · rw [Finset.Ico_self, Finset.sum_empty, IoGroup.inputSegment, if_pos rfl]
      omega
    · rw [h.sum_inputs hgt, IoGroup.inputSegment, if_neg hgt.ne']
      exact hlast

/-- The frame of a segment carries the outputs in it. -/
theorem MappedBus.Segmented.covers_output (h : b.Segmented g) {entries : List IdxEntry}
    (hpushed : Pushed g.outputSegment (g.Isegment + 1) 0 0 entries) {item : ℕ × ℕ}
    (hitem : Packing.InBin g.IOsegment g.nsegments item) (hpos : 0 < item.2)
    (houtput : item.1 + item.2 ≤ g.Obytes) :
  ∃ entry ∈ entries, entry.data ≤ item.1 ∧ item.1 + item.2 ≤ entry.data + entry.length
  := by
  obtain ⟨k, hk, hfirst, hlast⟩ := hitem
  obtain ⟨hstart, hle⟩ := h.Ioffset
  have hlt : k < g.Isegment + 1 := by
    by_contra hge
    have hmono : Packing.start g.IOsegment (g.Isegment + 1) ≤ Packing.start g.IOsegment k :=
      Packing.start_mono (by omega)
    rw [Packing.start_succ] at hmono
    omega
  have hzero : Packing.start g.IOsegment 0 = 0 := rfl
  have hsum : 0 + ∑ i ∈ Finset.Ico 0 k, g.outputSegment i = Packing.start g.IOsegment k := by
    rw [EthercatMaster.sum_outputs g (Nat.zero_le k), hzero]
    omega
  rw [Packing.start_succ] at hlast
  apply hpushed.covers (Nat.zero_le k) hlt hpos
  · rw [hsum]
    exact hfirst
  · rw [hsum, IoGroup.outputSegment]
    omega

/-- The frame of a segment carries what is in it. -/
theorem covers_image {entries : List IdxEntry}
    (hpushed : Pushed g.IOsegment g.nsegments 0 0 entries) {item : ℕ × ℕ}
    (hitem : Packing.InBin g.IOsegment g.nsegments item) (hpos : 0 < item.2) :
  ∃ entry ∈ entries, entry.data ≤ item.1 ∧ item.1 + item.2 ≤ entry.data + entry.length
  := by
  obtain ⟨k, hk, hfirst, hlast⟩ := hitem
  rw [Packing.start_succ] at hlast
  apply hpushed.covers (Nat.zero_le k) hk hpos
  · rw [sum_IOsegment, Nat.zero_add]
    exact hfirst
  · rw [sum_IOsegment, Nat.zero_add]
    exact hlast

end Sums

namespace MappedBus

/-- The frames of a cycle carry the image once, inputs and outputs apart if they must not be in a
datagram together, each fits, and one of them carries all of the area of a slave. -/
structure CarriedBy (b : MappedBus) (blockLRW : Bool) (entries : List IdxEntry) : Prop where
  once : if blockLRW then
      ∃ inputs outputs, entries = inputs ++ outputs
        ∧ Tiles inputs (b.inputStart 1) (b.inputStart (b.slavecount + 1))
        ∧ Tiles outputs 0 (b.inputStart 1)
    else Tiles entries 0 (b.inputStart (b.slavecount + 1))
  le : ∀ entry ∈ entries, entry.length ≤ maxSegment
  whole : ∀ o : Overlay, b.IsAxis o.axis → b.bits o ≠ 0 → 0 < b.areaSize o →
    ∃ entry ∈ entries, b.area o ⊆ Set.Ico entry.data (entry.data + entry.length)

variable {b : MappedBus} {g : IoGroup}

theorem outputStart_slavecount (b : MappedBus) :
  b.outputStart (b.slavecount + 1) = b.inputStart 1
  := by
  rw [inputStart, Layout.offset_first]

/-- Inputs are behind all outputs. -/
theorem le_areaStart {n : ℕ} (hn : b.IsAxis n) :
  b.inputStart 1 ≤ b.areaStart (.input n)
  := Layout.offset_mono hn.1

theorem areaEnd_le {n : ℕ} (hn : b.IsAxis n) :
  b.areaStart (.output n) + b.areaSize (.output n) ≤ b.inputStart 1
  := by
  rw [← outputStart_slavecount, areaStart, areaSize, outputStart, ← Layout.offset_succ hn.1]
  exact Layout.offset_mono (Nat.succ_le_succ hn.2)

/-- The areas of the slaves are carried if the places in segments are. -/
theorem Segmented.whole_area (h : b.Segmented g) {entries : List IdxEntry}
    (hcovers : ∀ o : Overlay, b.IsAxis o.axis → 0 < b.areaSize o →
      Packing.InBin g.IOsegment g.nsegments (b.areaStart o, b.areaSize o) →
      ∃ entry ∈ entries, entry.data ≤ b.areaStart o
        ∧ b.areaStart o + b.areaSize o ≤ entry.data + entry.length)
    (o : Overlay) (ho : b.IsAxis o.axis) (hbits : b.bits o ≠ 0) (hpos : 0 < b.areaSize o) :
  ∃ entry ∈ entries, b.area o ⊆ Set.Ico entry.data (entry.data + entry.length)
  := by
  obtain ⟨entry, hentry, hfirst, hlast⟩ := hcovers o ho hpos (h.whole o ho hbits)
  rw [area_eq ho hbits]
  exact ⟨entry, hentry, Set.Ico_subset_Ico hfirst hlast⟩

/-- Inputs, outputs and the whole image are divided without gaps. -/
theorem Segmented.tiles_inputs (h : b.Segmented g) {entries : List IdxEntry}
    (hpushed : Pushed g.inputSegment g.nsegments g.Isegment g.Obytes entries) :
  Tiles entries (b.inputStart 1) (b.inputStart (b.slavecount + 1))
  := by
  have htiles := hpushed.tiles
  rw [h.sum_inputs h.Isegment, h.total, h.Ibytes, h.Obytes] at htiles
  exact htiles

theorem Segmented.tiles_outputs (h : b.Segmented g) {entries : List IdxEntry}
    (hpushed : Pushed g.outputSegment (g.Isegment + 1) 0 0 entries) :
  Tiles entries 0 (b.inputStart 1)
  := by
  have htiles := hpushed.tiles
  rw [h.sum_outputs (Nat.zero_le _), h.Obytes, Nat.zero_add] at htiles
  exact htiles

theorem Segmented.tiles_image (h : b.Segmented g) {entries : List IdxEntry}
    (hpushed : Pushed g.IOsegment g.nsegments 0 0 entries) :
  Tiles entries 0 (b.inputStart (b.slavecount + 1))
  := by
  have htiles := hpushed.tiles
  rw [sum_IOsegment, h.total, h.Ibytes, Nat.zero_add] at htiles
  exact htiles

/-- What `ec_config_map` makes of a bus is carried by the frames that `ec_send_processdata`
sends. -/
theorem Segmented.carried (h : b.Segmented g) {c : Context} {group : Group}
    (hgroup : c.group = g.set group) (hstack : c.idxstack.entries = []) (sendOk : ℕ → Bool) :
  b.CarriedBy group.blockLRW (ecSendProcessdata sendOk c).2.idxstack.entries
  := by
  cases hblock : group.blockLRW with
  | true =>
      obtain ⟨inputs, outputs, hinputs, houtputs, hentries, -⟩ :=
        h.cycle_blocks hgroup hstack hblock sendOk
      rw [hentries]
      constructor
      case once =>
        rw [if_pos rfl]
        exact ⟨inputs, outputs, rfl, h.tiles_inputs hinputs, h.tiles_outputs houtputs⟩
      case le =>
        intro entry hentry
        rcases List.mem_append.mp hentry with hentry | hentry
        · exact hinputs.le entry hentry
        · exact houtputs.le entry hentry
      case whole =>
        apply h.whole_area
        intro o ho hpos hitem
        cases o with
        | output n =>
            obtain ⟨entry, hentry, hcovers⟩ := h.covers_output houtputs hitem hpos
              ((areaEnd_le ho).trans h.Obytes.ge)
            exact ⟨entry, List.mem_append_right _ hentry, hcovers⟩
        | input n =>
            obtain ⟨entry, hentry, hcovers⟩ := h.covers_input hinputs hitem hpos
              (h.Obytes.le.trans (le_areaStart ho))
            exact ⟨entry, List.mem_append_left _ hentry, hcovers⟩
  | false =>
      obtain ⟨entries, hpushed, hentries, -⟩ := h.cycle_image hgroup hstack hblock sendOk
      rw [hentries]
      constructor
      case once =>
        rw [if_neg Bool.false_ne_true]
        exact h.tiles_image hpushed
      case le => exact hpushed.le
      case whole => exact h.whole_area fun o ho hpos hitem => covers_image hpushed hitem hpos

/-- From the mapping to the frames: what `ec_send_processdata` sends in a cycle carries the image
that `ec_config_map` has laid out, if there is room for it and each slave fits into a frame. -/
theorem cycle_carried (b : MappedBus)
    (hslave : ∀ n, b.IsAxis n → b.outputSize n ≤ maxSegment ∧ b.inputSize n ≤ maxSegment)
    (himage : b.inputStart (b.slavecount + 1) ≤ ioMapSize) (IOsegment : ℕ → ℕ) (group : Group)
    (c : Context)
    (hgroup : c.group = (ecxConfigMapSegments b.slavecount b.slave IOsegment).set group)
    (hstack : c.idxstack.entries = []) (sendOk : ℕ → Bool) :
  b.CarriedBy group.blockLRW (ecSendProcessdata sendOk c).2.idxstack.entries
  := (b.segmented IOsegment hslave himage).carried hgroup hstack sendOk

/-- Sixty drives with the mapping of `Servosetup`, which do not fit into a frame. -/
def sixtyDrives : MappedBus where
  slavecount := 60
  slave _ := driveWith 13
  count := by decide
  byteOriented _ := ⟨Or.inr (by decide), Or.inr (by decide)⟩

/-- A master that has mapped sixty drives. -/
def sixtyMapped : Context where
  port := Port.init
  group := (ecxConfigMapSegments 60 sixtyDrives.slave fun _ => 0).set
    ⟨0, 0, 0, 0, 0, true, 1, false, 0, 0, 0, 0, 0, fun _ => 0⟩
  configadr n := 0x1000 + n.toUInt16
  idxstack := ecxClearindex
  DCtO := 0
  DCl := 0
  DCtime := 0
  image := fun _ => 0

theorem cycle_carried_sixty :
  sixtyDrives.CarriedBy false (ecSendProcessdata (fun _ => true) sixtyMapped).2.idxstack.entries
    ∧ (ecSendProcessdata (fun _ => true) sixtyMapped).2.idxstack.entries
      = [⟨1, 0, 1460⟩, ⟨2, 1460, 340⟩]
  := by
  constructor
  · apply cycle_carried sixtyDrives ?_ (by decide +kernel) (fun _ => 0) _ sixtyMapped rfl rfl
    intro n _
    exact ⟨(by decide : (driveWith 13).outputSize ≤ maxSegment),
      (by decide : (driveWith 13).inputSize ≤ maxSegment)⟩
  · decide +kernel

end MappedBus

end EthercatMaster
