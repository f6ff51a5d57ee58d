import EthercatMaster.Library.Yields
import EthercatMaster.Soem.ConfigMap
import EthercatMaster.Soem.SdoUpload

/-!
# The mapping of the process data

`ec_readPDOmap` reads from the object dictionary of a slave which objects are mapped into its
process data, and adds up their bits.
-/

namespace EthercatMaster

open Bytes SdoServer

/-- `ECT_SDO_SMCOMMTYPE`. -/
def ectSdoSmcommtype : UInt16 := 0x1c00

/-- `ECT_SDO_PDOASSIGN`. -/
def ectSdoPdoassign : UInt16 := 0x1c10

/-- `EC_SMENABLEMASK`. -/
def ecSmenablemask : UInt32 := 0xfffeffff

/-- `EC_TIMEOUTRXM`. -/
def ecTimeoutrxm : ℤ := 700000

section Read

variable {σ : Type} (link : Link σ) (slave : MbxSlave) (fuel : ℕ)

/-- An object is read into a variable of some size that is zero before. -/
def readSdo (index : UInt16) (subindex : UInt8) (size : ℤ) : StateT (CoeState σ) Option SdoRead :=
  fun x => ecxSDOread link slave index subindex false size (fun _ => 0) ecTimeoutrxm fuel x

/-- The number of bits that an entry of a PDO adds. -/
def entryBits (rdat2 : UInt32) : ℕ :=
  if rdat2 &&& 0xff < 0xff then (rdat2 &&& 0xff).toNat else 0xff

/-- The bits of the entries of a PDO are added. -/
def readEntries (idx : UInt16) (bsize : ℕ) : StateT (CoeState σ) Option ℕ := do
  let r ← readSdo link slave fuel idx 0 1
  (List.range' 1 (r.p 0).toNat).foldlM (fun bsize subidxloop => do
    let r ← readSdo link slave fuel idx subidxloop.toUInt8 4
    return bsize + entryBits (r.p.uint32 0)) bsize

/-- `ecx_readPDOassign`: the total number of bits, if it returns.  A loop to the last 16-bit number
does not end. -/
def ecxReadPDOassign (PDOassign : UInt16) : StateT (CoeState σ) Option ℕ := do
  let r ← readSdo link slave fuel PDOassign 0 2
  let nidx := (r.p.uint16 0).toNat
  if 0 < r.wkc ∧ 0 < nidx then
    if nidx = 65535 then failure
    (List.range' 1 nidx).foldlM (fun bsize idxloop => do
      let r ← readSdo link slave fuel PDOassign idxloop.toUInt8 2
      let idx := r.p.uint16 0
      if 0 < idx then readEntries link slave fuel idx bsize else return bsize) 0
  else return 0

/-- What `ecx_readPDOmap` finds: the numbers of bits, and the sync managers of the slave. -/
@[ext]
structure PdoMap where
  Osize : ℕ
  Isize : ℕ
  SMtBugAdd : UInt8
  SMtype : ℕ → UInt8
  SMlength : ℕ → UInt16
  SMflags : ℕ → UInt32

/-- The type of a sync manager, and what is added to the following ones: some slaves number the
types from 0 on. -/
def adjustTypeCA (iSM : ℕ) (SMtBugAdd tSM : UInt8) : UInt8 × UInt8 :=
  let SMtBugAdd := if iSM = 2 ∧ tSM = 2 then 1 else SMtBugAdd
  (if tSM ≠ 0 then tSM + SMtBugAdd else tSM, SMtBugAdd)

/-- The same for the types that are read one by one: some slaves leave them 0. -/
def adjustType (iSM : ℕ) (SMtBugAdd tSM : UInt8) : UInt8 × UInt8 :=
  let (tSM, SMtBugAdd) := adjustTypeCA iSM SMtBugAdd tSM
  let tSM := if iSM = 2 ∧ tSM = 0 then 3 else tSM
  let tSM := if iSM = 3 ∧ tSM = 0 then 4 else tSM
  (tSM, SMtBugAdd)

/-- The type of a sync manager is set; one that is not used is disabled. -/
def PdoMap.setType (map : PdoMap) (iSM : ℕ) (adjusted : UInt8 × UInt8) : PdoMap :=
  { map with
    SMtBugAdd := adjusted.2
    SMtype := Function.update map.SMtype iSM adjusted.1
    SMflags := if adjusted.1 = 0 then
      Function.update map.SMflags iSM (map.SMflags iSM &&& ecSmenablemask) else map.SMflags }

/-- A sync manager is for outputs or for inputs. -/
def PdoMap.IsProcessData (map : PdoMap) (iSM : ℕ) : Prop :=
  map.SMtype iSM = 3 ∨ map.SMtype iSM = 4

instance (map : PdoMap) (iSM : ℕ) : Decidable (map.IsProcessData iSM) :=
  inferInstanceAs (Decidable (_ ∨ _))

/-- The length of a sync manager is set, and its bits are added to those of its kind. -/
def PdoMap.addBits (map : PdoMap) (iSM Tsize : ℕ) : PdoMap :=
  if Tsize = 0 then map
  else
    let map := { map with
      SMlength := Function.update map.SMlength iSM ((Tsize + 7) / 8).toUInt16 }
    if map.SMtype iSM = 3 then { map with Osize := map.Osize + Tsize }
    else { map with Isize := map.Isize + Tsize }

/-- A sync manager is looked at. -/
def readSyncManager (map : PdoMap) (iSM : ℕ) : StateT (CoeState σ) Option PdoMap := do
  let r ← readSdo link slave fuel ectSdoSmcommtype (iSM + 1).toUInt8 1
  if 0 < r.wkc then
    let map := map.setType iSM (adjustType iSM map.SMtBugAdd (r.p 0))
    if map.IsProcessData iSM then
      let Tsize ← ecxReadPDOassign link slave fuel (ectSdoPdoassign + iSM.toUInt16)
      return map.addBits iSM Tsize
    else return map
  else return map

/-- Some bits were found. -/
def PdoMap.retVal (map : PdoMap) : Bool :=
  0 < map.Isize ∨ 0 < map.Osize

/-- `ecx_readPDOmap`: whether bits were found, and what was found, if it returns. -/
def ecxReadPDOmap (map : PdoMap) : StateT (CoeState σ) Option (Bool × PdoMap) := do
  let map := { map with Osize := 0, Isize := 0, SMtBugAdd := 0 }
  let r ← readSdo link slave fuel ectSdoSmcommtype 0 1
  let nSM := (r.p 0).toNat
  let map ←
    if 0 < r.wkc ∧ 2 < nSM then
      (List.range' 2 (min nSM ecMaxsm - 2)).foldlM (readSyncManager link slave fuel) map
    else pure map
  return (map.retVal, map)

/-! ### Complete access -/

/-- The buffers for objects with all their subindexes: `SMcommtype`, `PDOassign` and `PDOdesc`. -/
structure MapBuffers where
  SMcommtype : Bytes
  PDOassign : Bytes
  PDOdesc : Bytes

/-- An object is read with all its subindexes into a buffer, whose number `n` is zero before. -/
def readSdoCA (index : UInt16) (size : ℤ) (p : Bytes) : StateT (CoeState σ) Option SdoRead :=
  fun x => ecxSDOread link slave index 0 true size (p.set8 0 0) ecTimeoutrxm fuel x

/-- The bits of the entries in `PDOdesc` are added. -/
def addEntries (PDOdesc : Bytes) (bsize : ℕ) : ℕ :=
  bsize + ((List.range' 1 (PDOdesc 0).toNat).map fun subidxloop =>
    (PDOdesc.uint32 (2 + 4 * (subidxloop - 1)) &&& 0xff).toNat).sum

/-- The bits of a PDO in `PDOassign` are added. -/
def readEntriesCA (x : ℕ × MapBuffers) (idxloop : ℕ) :
    StateT (CoeState σ) Option (ℕ × MapBuffers) := do
  let (bsize, buffers) := x
  let idx := buffers.PDOassign.uint16 (2 + 2 * (idxloop - 1))
  if 0 < idx then
    let r ← readSdoCA link slave fuel idx 1026 buffers.PDOdesc
    return (addEntries r.p bsize, { buffers with PDOdesc := r.p })
  else return (bsize, buffers)

/-- `ecx_readPDOassignCA`: the total number of bits, if it returns. -/
def ecxReadPDOassignCA (PDOassign : UInt16) (buffers : MapBuffers) :
    StateT (CoeState σ) Option (ℕ × MapBuffers) := do
  let r ← readSdoCA link slave fuel PDOassign 514 buffers.PDOassign
  let buffers := { buffers with PDOassign := r.p }
  if 0 < r.wkc ∧ 0 < r.p 0 then
    (List.range' 1 (r.p 0).toNat).foldlM (readEntriesCA link slave fuel) (0, buffers)
  else return (0, buffers)

/-- A sync manager in `SMcommtype` is looked at. -/
def readSyncManagerCA (x : PdoMap × MapBuffers) (iSM : ℕ) :
    StateT (CoeState σ) Option (PdoMap × MapBuffers) := do
  let (map, buffers) := x
  let map := map.setType iSM (adjustTypeCA iSM map.SMtBugAdd (buffers.SMcommtype (2 + iSM)))
  if map.IsProcessData iSM then
    let (Tsize, buffers) ←
      ecxReadPDOassignCA link slave fuel (ectSdoPdoassign + iSM.toUInt16) buffers
    return (map.addBits iSM Tsize, buffers)
  else return (map, buffers)

/-- More sync managers than fit are reported. -/
def reportMore (nSM : ℕ) : StateT (CoeState σ) Option Unit :=
  if ecMaxsm < nSM then modify (packetError link slave 0 0 10) else pure ()

/-- `ecx_readPDOmapCA`: whether bits were found, and what was found, if it returns. -/
def ecxReadPDOmapCA (map : PdoMap) (buffers : MapBuffers) :
    StateT (CoeState σ) Option (Bool × PdoMap × MapBuffers) := do
  let map := { map with Osize := 0, Isize := 0, SMtBugAdd := 0 }
  let r ← readSdoCA link slave fuel ectSdoSmcommtype 10 buffers.SMcommtype
  let buffers := { buffers with SMcommtype := r.p }
  let nSM := (r.p 0).toNat
  let (map, buffers) ←
    if 0 < r.wkc ∧ 2 < nSM then
      reportMore link slave nSM
      (List.range' 2 (min nSM ecMaxsm - 2)).foldlM (readSyncManagerCA link slave fuel)
        (map, buffers)
    else pure (map, buffers)
  return (map.retVal, map, buffers)

/-! ### The mapping of a slave -/

/-- `ec_slavet`: the fields that tell how the mapping of a slave is found. -/
structure MapSlave where
  configindex : UInt16
  mbx_proto : UInt16
  CoEdetails : UInt8

/-- `ECT_MBXPROT_COE`. -/
def ectMbxprotCoe : UInt16 := 0x0004

/-- `ECT_MBXPROT_SOE`. -/
def ectMbxprotSoe : UInt16 := 0x0010

/-- `ECT_COEDET_SDOCA`. -/
def ectCoedetSdoca : UInt8 := 0x20

/-- The mapping of a slave with CoE: complete access is tried first. -/
def mapCoe (CoEdetails : UInt8) (map : PdoMap) (buffers : MapBuffers) :
    StateT (CoeState σ) Option (PdoMap × MapBuffers) := do
  if CoEdetails &&& ectCoedetSdoca ≠ 0 then
    let (rval, map, buffers) ← ecxReadPDOmapCA link slave fuel map buffers
    if rval then return (map, buffers)
    else
      let (_, map) ← ecxReadPDOmap link slave fuel map
      return (map, buffers)
  else
    let (_, map) ← ecxReadPDOmap link slave fuel map
    return (map, buffers)

/-- `ecx_map_coe_soe`, after the check of the state; the hook of the slave and `ecx_readIDNmap` are
given. -/
def ecxMapCoeSoe (PO2SOconfig : StateT (CoeState σ) Option Unit)
    (ecxReadIDNmap : StateT (CoeState σ) Option (ℕ × ℕ)) (d : MapSlave) (map : PdoMap)
    (buffers : MapBuffers) : StateT (CoeState σ) Option (PdoMap × MapBuffers) := do
  PO2SOconfig
  if d.configindex = 0 then
    let (map, buffers) ←
      if d.mbx_proto &&& ectMbxprotCoe ≠ 0 then mapCoe link slave fuel d.CoEdetails map buffers
      else pure ({ map with Osize := 0, Isize := 0 }, buffers)
    if map.Isize = 0 ∧ map.Osize = 0 ∧ d.mbx_proto &&& ectMbxprotSoe ≠ 0 then
      let (Osize, Isize) ← ecxReadIDNmap
      return ({ map with
        Osize := Osize
        Isize := Isize
        SMlength := Function.update (Function.update map.SMlength 2 ((Osize + 7) / 8).toUInt16) 3
          ((Isize + 7) / 8).toUInt16 }, buffers)
    else return (map, buffers)
  else return (map, buffers)

end Read

end EthercatMaster
