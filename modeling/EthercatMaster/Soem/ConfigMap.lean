import EthercatMaster.Library.Layout
import Mathlib.Data.List.Basic
import Mathlib.Logic.Function.Basic

/-!
# The layout of the process image

`ec_config_map` lays out the process image: the outputs of all slaves, one after another, and then
their inputs.  What was found of the mapping of a slave, the number of bits and the sync managers
that hold them, is given; for each FMMU of a slave its logical range is the next one.
-/

namespace EthercatMaster

/-! ### Slaves -/

/-- `EC_MAXSM`. -/
def ecMaxsm : ℕ := 8

/-- `ec_smt`, with the `SMtype`. -/
structure SyncManager where
  startAddr : UInt16
  smLength : UInt16
  smType : UInt8

/-- `ec_slavet`: what was found of the mapping of a slave. -/
structure EcSlave where
  Obits : UInt16
  Ibits : UInt16
  SM : ℕ → SyncManager

/-- The number of bytes as `ecx_map_sm` sets it; a slave with fewer than eight bits has none, and
is mapped bit by bit. -/
def mapBytes (bits : UInt16) : ℕ :=
  if 7 < bits then (bits.toNat + 7) / 8 else 0

/-- What differs between the mappings of outputs and of inputs: the type of the sync managers, the
type of the FMMUs, and whether an FMMU is programmed even if it has no length. -/
structure MappingKind where
  smType : UInt8
  fmmuType : UInt8
  programsEmpty : Bool

/-- `ec_fmmut`. -/
structure Fmmu where
  logStart : ℕ
  logLength : ℕ
  logStartbit : ℕ
  logEndbit : ℕ
  physStart : UInt16
  fmmuType : UInt8

/-! ### Sync managers -/

/-- The next sync manager of a type, or the last one of all. -/
def nextSm (SM : ℕ → SyncManager) (smType : UInt8) : ℕ → ℕ → ℕ
  | 0, SMc => SMc
  | fuel + 1, SMc =>
      if SMc < ecMaxsm - 1 ∧ (SM SMc).smType ≠ smType then nextSm SM smType fuel (SMc + 1)
      else SMc

/-- The sync managers that are joined for an FMMU: the last one, the bits and the bytes so far, and
the physical address behind. -/
structure SmRun where
  SMc : ℕ
  BitCount : ℕ
  ByteCount : ℕ
  EndAddr : UInt16

/-- A sync manager is added. -/
def SmRun.add (sm : SyncManager) (SMc : ℕ) (x : SmRun) : SmRun where
  SMc := SMc
  BitCount := x.BitCount + sm.smLength.toNat * 8
  ByteCount := x.ByteCount + sm.smLength.toNat
  EndAddr := sm.startAddr + sm.smLength

/-- More sync managers are joined, until the bits are there or the addresses do not connect. -/
def moreSm (SM : ℕ → SyncManager) (smType : UInt8) (bits : ℕ) : ℕ → SmRun → SmRun
  | 0, x => x
  | fuel + 1, x =>
      if x.BitCount < bits ∧ x.SMc < ecMaxsm - 1 then
        let SMc := nextSm SM smType ecMaxsm (x.SMc + 1)
        if x.EndAddr < (SM SMc).startAddr then { x with SMc := SMc }
        else moreSm SM smType bits fuel (x.add (SM SMc) SMc)
      else x

/-! ### Logical ranges -/

/-- The logical range of an FMMU, with the next free bit. -/
structure LogRange where
  logStart : ℕ
  logStartbit : ℕ
  size : ℕ
  logEndbit : ℕ
  LogAddr : ℕ
  BitPos : ℕ

/-- Some bits further. -/
def advanceBits (bits LogAddr BitPos : ℕ) : ℕ × ℕ :=
  if 7 < BitPos + bits then (LogAddr + 1, BitPos + bits - 8) else (LogAddr, BitPos + bits)

/-- The range of a bit oriented slave. -/
def bitRange (bits LogAddr BitPos : ℕ) : LogRange :=
  let (lastAddr, logEndbit) := advanceBits (bits - 1) LogAddr BitPos
  let (nextAddr, nextPos) := advanceBits 1 lastAddr logEndbit
  ⟨LogAddr, BitPos, lastAddr - LogAddr + 1, logEndbit, nextAddr, nextPos⟩

/-- The length of an FMMU of a byte oriented slave. -/
def byteSize (bytes ByteCount FMMUdone : ℕ) : ℕ :=
  if bytes < ByteCount + FMMUdone then bytes - FMMUdone else ByteCount

/-- The range of a byte oriented slave. -/
def byteRange (size LogAddr BitPos : ℕ) : LogRange :=
  let LogAddr := if BitPos ≠ 0 then LogAddr + 1 else LogAddr
  ⟨LogAddr, 0, size, 7, LogAddr + size, 0⟩

/-! ### The mapping of a slave -/

/-- The variables of the mapping of a slave: its FMMUs, and the pointer `outputs` or `inputs` as a
position in the process image. -/
structure Mapping where
  SMc : ℕ
  BitCount : ℕ
  ByteCount : ℕ
  FMMUdone : ℕ
  LogAddr : ℕ
  BitPos : ℕ
  pointer : Option ℕ
  FMMU : List Fmmu

/-- The variables at the start. -/
def Mapping.init (LogAddr BitPos : ℕ) : Mapping :=
  ⟨0, 0, 0, 0, LogAddr, BitPos, none, []⟩

section Create

variable (kind : MappingKind) (SM : ℕ → SyncManager) (bits : UInt16)

/-- The sync managers of the next FMMU. -/
def Mapping.smRun (x : Mapping) : SmRun :=
  let SMc := nextSm SM kind.smType ecMaxsm x.SMc
  moreSm SM kind.smType bits.toNat ecMaxsm
    (SmRun.add (SM SMc) SMc ⟨x.SMc, x.BitCount, x.ByteCount, 0⟩)

/-- The logical range of the next FMMU. -/
def Mapping.logRange (x : Mapping) : LogRange :=
  if mapBytes bits = 0 then bitRange bits.toNat x.LogAddr x.BitPos
  else
    byteRange (byteSize (mapBytes bits) (x.smRun kind SM bits).ByteCount x.FMMUdone) x.LogAddr
      x.BitPos

/-- The next FMMU. -/
def createFmmu (x : Mapping) : Mapping :=
  let run := x.smRun kind SM bits
  let range := x.logRange kind SM bits
  let fmmu : Fmmu :=
    { logStart := range.logStart
      logLength := range.size
      logStartbit := range.logStartbit
      logEndbit := range.logEndbit
      physStart := (SM (nextSm SM kind.smType ecMaxsm x.SMc)).startAddr
      fmmuType := if kind.programsEmpty ∨ range.size ≠ 0 then kind.fmmuType else 0 }
  { SMc := run.SMc
    BitCount := run.BitCount
    ByteCount := run.ByteCount
    FMMUdone := x.FMMUdone + range.size
    LogAddr := range.LogAddr
    BitPos := range.BitPos
    pointer := x.pointer.or (some range.logStart)
    FMMU := x.FMMU ++ [fmmu] }

/-- There is more to be mapped. -/
def Mapping.Unfinished (x : Mapping) : Prop :=
  x.SMc < ecMaxsm - 1 ∧ x.FMMUdone < (bits.toNat + 7) / 8

instance (x : Mapping) : Decidable (x.Unfinished bits) :=
  inferInstanceAs (Decidable (_ ∧ _))

/-- The FMMUs of a slave, as long as there is more to be mapped. -/
def createFmmus : ℕ → Mapping → Mapping
  | 0, x => x
  | fuel + 1, x =>
      if x.Unfinished bits then createFmmus fuel (createFmmu kind SM bits x) else x

end Create

/-- The mappings of outputs. -/
def outputKind : MappingKind := ⟨3, 2, true⟩

/-- The mappings of inputs. -/
def inputKind : MappingKind := ⟨4, 1, false⟩

/-- `ecx_config_create_output_mappings`. -/
def ecxConfigCreateOutputMappings (s : EcSlave) (LogAddr BitPos : ℕ) : Mapping :=
  createFmmus outputKind s.SM s.Obits ecMaxsm (.init LogAddr BitPos)

/-- `ecx_config_create_input_mappings`. -/
def ecxConfigCreateInputMappings (s : EcSlave) (LogAddr BitPos : ℕ) : Mapping :=
  createFmmus inputKind s.SM s.Ibits ecMaxsm (.init LogAddr BitPos)

/-! ### The mapping of all slaves -/

/-- The mappings of the slaves in one direction, with the next free bit. -/
structure MappedSlaves where
  LogAddr : ℕ
  BitPos : ℕ
  pointer : ℕ → Option ℕ
  FMMU : ℕ → List Fmmu

/-- The mapping of a slave is added. -/
def MappedSlaves.add (n : ℕ) (m : Mapping) (x : MappedSlaves) : MappedSlaves where
  LogAddr := m.LogAddr
  BitPos := m.BitPos
  pointer := Function.update x.pointer n m.pointer
  FMMU := Function.update x.FMMU n m.FMMU

/-- The slaves of a list are mapped, except those without bits. -/
def mapSlaves (slave : ℕ → EcSlave) (bits : EcSlave → UInt16)
    (create : EcSlave → ℕ → ℕ → Mapping) : List ℕ → MappedSlaves → MappedSlaves
  | [], x => x
  | n :: ns, x =>
      if bits (slave n) = 0 then mapSlaves slave bits create ns x
      else
        mapSlaves slave bits create ns (x.add n (create (slave n) x.LogAddr x.BitPos))

/-- A byte that is used in part is not used further. -/
def MappedSlaves.close (x : MappedSlaves) : MappedSlaves :=
  if x.BitPos ≠ 0 then { x with LogAddr := x.LogAddr + 1, BitPos := 0 } else x

/-- The layout of the process image, which ends at the logical address behind the inputs. -/
structure IoLayout where
  outputs : MappedSlaves
  inputs : MappedSlaves

/-- `ecx_config_map_group` for the group of all slaves, which starts at the logical address 0. -/
def ecxConfigMapGroup (slavecount : ℕ) (slave : ℕ → EcSlave) : IoLayout :=
  let outputs :=
    (mapSlaves slave EcSlave.Obits ecxConfigCreateOutputMappings (List.range' 1 slavecount)
      ⟨0, 0, fun _ => none, fun _ => []⟩).close
  let inputs :=
    (mapSlaves slave EcSlave.Ibits ecxConfigCreateInputMappings (List.range' 1 slavecount)
      ⟨outputs.LogAddr, outputs.BitPos, fun _ => none, fun _ => []⟩).close
  ⟨outputs, inputs⟩

/-! ### Sizes -/

/-- A slave that is mapped byte by byte, or not at all. -/
def ByteOriented (bits : UInt16) : Prop :=
  bits = 0 ∨ mapBytes bits ≠ 0

/-- The number of bytes that are mapped, wherever they start. -/
def mappedSize (kind : MappingKind) (SM : ℕ → SyncManager) (bits : UInt16) : ℕ :=
  (createFmmus kind SM bits ecMaxsm (.init 0 0)).FMMUdone

/-- The number of bytes of the outputs of a slave that are mapped. -/
def EcSlave.outputSize (s : EcSlave) : ℕ :=
  mappedSize outputKind s.SM s.Obits

/-- The number of bytes of the inputs of a slave that are mapped. -/
def EcSlave.inputSize (s : EcSlave) : ℕ :=
  mappedSize inputKind s.SM s.Ibits

section Sizes

variable {kind : MappingKind} {SM : ℕ → SyncManager} {bits : UInt16} {x y : Mapping}

/-- Two mappings have come equally far. -/
structure Mapping.Agrees (x y : Mapping) : Prop where
  SMc : x.SMc = y.SMc
  BitCount : x.BitCount = y.BitCount
  ByteCount : x.ByteCount = y.ByteCount
  FMMUdone : x.FMMUdone = y.FMMUdone

theorem Mapping.Agrees.smRun (h : x.Agrees y) :
  x.smRun kind SM bits = y.smRun kind SM bits
  := by
  rw [Mapping.smRun, Mapping.smRun, h.SMc, h.BitCount, h.ByteCount]

/-- The length of the next FMMU of a byte oriented slave. -/
def Mapping.size (kind : MappingKind) (SM : ℕ → SyncManager) (bits : UInt16) (x : Mapping) : ℕ :=
  byteSize (mapBytes bits) (x.smRun kind SM bits).ByteCount x.FMMUdone

theorem Mapping.logRange_of_bytes (hbytes : mapBytes bits ≠ 0) (x : Mapping) :
  x.logRange kind SM bits = byteRange (x.size kind SM bits) x.LogAddr x.BitPos
  := if_neg hbytes

theorem createFmmu_FMMUdone (hbytes : mapBytes bits ≠ 0) (x : Mapping) :
  (createFmmu kind SM bits x).FMMUdone = x.FMMUdone + x.size kind SM bits
  := by
  rw [createFmmu]
  dsimp only
  rw [x.logRange_of_bytes hbytes, byteRange]

theorem Mapping.Agrees.createFmmu (hbytes : mapBytes bits ≠ 0) (h : x.Agrees y) :
  (createFmmu kind SM bits x).Agrees (createFmmu kind SM bits y)
  := by
  constructor
  case SMc => exact congrArg SmRun.SMc h.smRun
  case BitCount => exact congrArg SmRun.BitCount h.smRun
  case ByteCount => exact congrArg SmRun.ByteCount h.smRun
  case FMMUdone =>
    rw [createFmmu_FMMUdone hbytes, createFmmu_FMMUdone hbytes, size, size, h.smRun, h.FMMUdone]

/-- How many bytes are mapped does not depend on where they start. -/
theorem Mapping.Agrees.createFmmus (hbytes : mapBytes bits ≠ 0) (h : x.Agrees y) (fuel : ℕ) :
  (createFmmus kind SM bits fuel x).FMMUdone = (createFmmus kind SM bits fuel y).FMMUdone
  := by
  induction fuel generalizing x y with
  | zero => apply h.FMMUdone
  | succ fuel ih =>
      have hiff : x.Unfinished bits ↔ y.Unfinished bits := by
        rw [Unfinished, Unfinished, h.SMc, h.FMMUdone]
      rw [EthercatMaster.createFmmus, EthercatMaster.createFmmus]
      by_cases hmore : x.Unfinished bits
      · rw [if_pos hmore, if_pos (hiff.mp hmore)]
        apply ih (h.createFmmu hbytes)
      · rw [if_neg hmore, if_neg (mt hiff.mpr hmore)]
        apply h.FMMUdone

end Sizes

/-! ### Areas -/

/-- The logical addresses of an FMMU. -/
def Fmmu.range (f : Fmmu) : Set ℕ :=
  Set.Ico f.logStart (f.logStart + f.logLength)

/-- The logical addresses of the FMMUs of a slave. -/
def fmmuArea (fs : List Fmmu) : Set ℕ :=
  {a | ∃ f ∈ fs, a ∈ f.range}

theorem fmmuArea_append (fs : List Fmmu) (f : Fmmu) :
  fmmuArea (fs ++ [f]) = fmmuArea fs ∪ f.range
  := by
  ext a
  simp [fmmuArea, or_and_right, exists_or]

section Areas

variable (kind : MappingKind) (SM : ℕ → SyncManager) {bits : UInt16} {x : Mapping} {start : ℕ}

/-- The FMMUs so far lie one after another from a start on, where the pointer points to. -/
structure Mapping.Tiles (start : ℕ) (x : Mapping) : Prop where
  LogAddr : x.LogAddr = start + x.FMMUdone
  BitPos : x.BitPos = 0
  area : fmmuArea x.FMMU = Set.Ico start (start + x.FMMUdone)
  first : x.pointer = none → x.FMMUdone = 0
  pointer : ∀ p, x.pointer = some p → p = start

theorem Mapping.tiles_init (start : ℕ) :
  (Mapping.init start 0).Tiles start
  := by
  constructor
  case LogAddr => rfl
  case BitPos => rfl
  case area => simp [fmmuArea, Mapping.init]
  case first => exact fun _ => rfl
  case pointer => rintro p ⟨⟩

/-- A byte oriented slave gets its next FMMU directly behind the others. -/
theorem Mapping.Tiles.createFmmu (hbytes : mapBytes bits ≠ 0) (h : x.Tiles start) :
  (createFmmu kind SM bits x).Tiles start
    ∧ (createFmmu kind SM bits x).pointer = some start
  := by
  have hrange : x.logRange kind SM bits
      = ⟨x.LogAddr, 0, x.size kind SM bits, 7, x.LogAddr + x.size kind SM bits, 0⟩ := by
    rw [x.logRange_of_bytes hbytes, byteRange, h.BitPos]
    rfl
  have hpointer : (EthercatMaster.createFmmu kind SM bits x).pointer = some start := by
    rw [EthercatMaster.createFmmu]
    dsimp only
    rw [hrange]
    cases hx : x.pointer with
    | none =>
        rw [Option.none_or, h.LogAddr, h.first hx]
        rfl
    | some p =>
        rw [h.pointer p hx]
        rfl
  refine ⟨?_, hpointer⟩
  constructor
  case LogAddr =>
    rw [createFmmu_FMMUdone hbytes, EthercatMaster.createFmmu]
    dsimp only
    rw [hrange, h.LogAddr, Nat.add_assoc]
  case BitPos =>
    rw [EthercatMaster.createFmmu]
    dsimp only
    rw [hrange]
  case area =>
    rw [createFmmu_FMMUdone hbytes, EthercatMaster.createFmmu]
    dsimp only
    rw [hrange, fmmuArea_append, h.area, Fmmu.range, h.LogAddr, ← Nat.add_assoc]
    apply Set.Ico_union_Ico_eq_Ico
    · apply Nat.le_add_right
    · apply Nat.le_add_right
  case first =>
    intro hnone
    rw [hpointer] at hnone
    cases hnone
  case pointer =>
    intro p hp
    rw [hpointer] at hp
    cases hp
    rfl

/-- The FMMUs of a byte oriented slave lie one after another. -/
theorem Mapping.Tiles.createFmmus (hbytes : mapBytes bits ≠ 0) (fuel : ℕ) (h : x.Tiles start) :
  (createFmmus kind SM bits fuel x).Tiles start
    ∧ (x.pointer = some start ∨ 0 < fuel ∧ x.Unfinished bits →
      (createFmmus kind SM bits fuel x).pointer = some start)
  := by
  induction fuel generalizing x with
  | zero =>
      refine ⟨h, ?_⟩
      rintro (hpointer | ⟨hfuel, -⟩)
      · apply hpointer
      · exact absurd hfuel (Nat.lt_irrefl 0)
  | succ fuel ih =>
      rw [EthercatMaster.createFmmus]
      by_cases hmore : x.Unfinished bits
      · rw [if_pos hmore]
        obtain ⟨htiles, hpointer⟩ := h.createFmmu kind SM hbytes
        obtain ⟨hlast, hkeep⟩ := ih htiles
        exact ⟨hlast, fun _ => hkeep (Or.inl hpointer)⟩
      · rw [if_neg hmore]
        refine ⟨h, ?_⟩
        rintro (hpointer | ⟨-, hmore'⟩)
        · apply hpointer
        · contradiction

/-- A byte oriented slave is mapped from the next free byte on, with as many bytes as it takes
anywhere. -/
theorem createFmmus_spec (hbytes : mapBytes bits ≠ 0) (start : ℕ) :
  (createFmmus kind SM bits ecMaxsm (.init start 0)).LogAddr = start + mappedSize kind SM bits
    ∧ (createFmmus kind SM bits ecMaxsm (.init start 0)).BitPos = 0
    ∧ (createFmmus kind SM bits ecMaxsm (.init start 0)).pointer = some start
    ∧ fmmuArea (createFmmus kind SM bits ecMaxsm (.init start 0)).FMMU
      = Set.Ico start (start + mappedSize kind SM bits)
  := by
  have hsize : (createFmmus kind SM bits ecMaxsm (.init start 0)).FMMUdone
      = mappedSize kind SM bits := by
    apply Mapping.Agrees.createFmmus hbytes
    exact ⟨rfl, rfl, rfl, rfl⟩
  obtain ⟨htiles, hpointer⟩ :=
    (Mapping.tiles_init start).createFmmus kind SM hbytes ecMaxsm
  have hfirst : (Mapping.init start 0).Unfinished bits := by
    have hSMc : 0 < ecMaxsm - 1 := by decide
    refine ⟨hSMc, ?_⟩
    rw [mapBytes] at hbytes
    split at hbytes
    · apply Nat.pos_of_ne_zero hbytes
    · contradiction
  refine ⟨?_, htiles.BitPos, hpointer (Or.inr ⟨by decide, hfirst⟩), ?_⟩
  · rw [htiles.LogAddr, hsize]
  · rw [htiles.area, hsize]

end Areas

/-! ### The layout -/

/-- The bits of a slave in one direction, and what becomes of them: with bits, the slave is mapped
from the next free byte on; without, it has no size. -/
structure Creates (bits : EcSlave → UInt16) (create : EcSlave → ℕ → ℕ → Mapping)
    (size : EcSlave → ℕ) (s : EcSlave) : Prop where
  none : bits s = 0 → size s = 0
  LogAddr : bits s ≠ 0 → ∀ start, (create s start 0).LogAddr = start + size s
  BitPos : bits s ≠ 0 → ∀ start, (create s start 0).BitPos = 0
  pointer : bits s ≠ 0 → ∀ start, (create s start 0).pointer = some start
  area : bits s ≠ 0 → ∀ start,
    fmmuArea (create s start 0).FMMU = Set.Ico start (start + size s)

theorem createFmmus_of_finished {kind : MappingKind} {SM : ℕ → SyncManager} {bits : UInt16}
    {x : Mapping} (h : ¬ x.Unfinished bits) (fuel : ℕ) :
  createFmmus kind SM bits fuel x = x
  := by
  cases fuel with
  | zero => rfl
  | succ fuel => rw [createFmmus, if_neg h]

theorem mappedSize_zero (kind : MappingKind) (SM : ℕ → SyncManager) :
  mappedSize kind SM 0 = 0
  := by
  rw [mappedSize, createFmmus_of_finished]
  · rfl
  · rintro ⟨-, hmore⟩
    exact absurd hmore (by decide)

/-- A byte oriented slave is mapped as it should be. -/
theorem creates_of_byteOriented (kind : MappingKind) (bits : EcSlave → UInt16) {s : EcSlave}
    (h : ByteOriented (bits s)) :
  Creates bits
    (fun s LogAddr BitPos => createFmmus kind s.SM (bits s) ecMaxsm (.init LogAddr BitPos))
    (fun s => mappedSize kind s.SM (bits s)) s
  := by
  constructor
  case none =>
    intro hzero
    rw [hzero]
    apply mappedSize_zero
  case LogAddr =>
    intro hbits start
    apply (createFmmus_spec kind s.SM (h.resolve_left hbits) start).1
  case BitPos =>
    intro hbits start
    apply (createFmmus_spec kind s.SM (h.resolve_left hbits) start).2.1
  case pointer =>
    intro hbits start
    apply (createFmmus_spec kind s.SM (h.resolve_left hbits) start).2.2.1
  case area =>
    intro hbits start
    apply (createFmmus_spec kind s.SM (h.resolve_left hbits) start).2.2.2

theorem EcSlave.creates_outputs {s : EcSlave} (h : ByteOriented s.Obits) :
  Creates Obits ecxConfigCreateOutputMappings outputSize s
  := creates_of_byteOriented outputKind Obits h

theorem EcSlave.creates_inputs {s : EcSlave} (h : ByteOriented s.Ibits) :
  Creates Ibits ecxConfigCreateInputMappings inputSize s
  := creates_of_byteOriented inputKind Ibits h

section Slaves

variable {slave : ℕ → EcSlave} {bits : EcSlave → UInt16} {create : EcSlave → ℕ → ℕ → Mapping}
  {size : EcSlave → ℕ}

/-- The slaves from one on are mapped one after another. -/
structure MappedSlaves.LaysOut (slave : ℕ → EcSlave) (bits : EcSlave → UInt16)
    (size : EcSlave → ℕ) (start m k : ℕ) (x : MappedSlaves) : Prop where
  LogAddr : x.LogAddr = offset start m (fun n => size (slave n)) k
  BitPos : x.BitPos = 0
  pointer : ∀ n, m ≤ n → n < k → x.pointer n
    = if bits (slave n) = 0 then none else some (offset start m (fun n => size (slave n)) n)
  area : ∀ n, m ≤ n → n < k → bits (slave n) ≠ 0 → fmmuArea (x.FMMU n)
    = Set.Ico (offset start m (fun n => size (slave n)) n)
      (offset start m (fun n => size (slave n)) n + size (slave n))
  unmapped : ∀ n, k ≤ n → x.pointer n = none

/-- A slave without bits is skipped. -/
theorem MappedSlaves.LaysOut.skip {start m k : ℕ} (hmk : m ≤ k) {x : MappedSlaves}
    (h : x.LaysOut slave bits size start m k) (hcreates : Creates bits create size (slave k))
    (hbits : bits (slave k) = 0) :
  x.LaysOut slave bits size start m (k + 1)
  := by
  constructor
  case LogAddr => rw [h.LogAddr, Layout.offset_succ hmk, hcreates.none hbits, Nat.add_zero]
  case BitPos => apply h.BitPos
  case pointer =>
    intro n hmn hn
    rcases Nat.lt_succ_iff_lt_or_eq.mp hn with hn | rfl
    · apply h.pointer n hmn hn
    · rw [if_pos hbits]
      apply h.unmapped n le_rfl
  case area =>
    intro n hmn hn hmapped
    rcases Nat.lt_succ_iff_lt_or_eq.mp hn with hn | rfl
    · apply h.area n hmn hn hmapped
    · contradiction
  case unmapped =>
    intro n hn
    apply h.unmapped n (Nat.le_of_succ_le hn)

/-- A slave with bits comes next. -/
theorem MappedSlaves.LaysOut.add {start m k : ℕ} (hmk : m ≤ k) {x : MappedSlaves}
    (h : x.LaysOut slave bits size start m k) (hcreates : Creates bits create size (slave k))
    (hbits : bits (slave k) ≠ 0) :
  (x.add k (create (slave k) x.LogAddr x.BitPos)).LaysOut slave bits size start m (k + 1)
  := by
  rw [h.LogAddr, h.BitPos]
  constructor
  case LogAddr =>
    rw [MappedSlaves.add, Layout.offset_succ hmk]
    apply hcreates.LogAddr hbits
  case BitPos => apply hcreates.BitPos hbits
  case pointer =>
    intro n hmn hn
    rw [MappedSlaves.add]
    dsimp only
    rcases Nat.lt_succ_iff_lt_or_eq.mp hn with hn | rfl
    · rw [Function.update_of_ne hn.ne]
      apply h.pointer n hmn hn
    · rw [Function.update_self, if_neg hbits, hcreates.pointer hbits]
  case area =>
    intro n hmn hn hmapped
    rw [MappedSlaves.add]
    dsimp only
    rcases Nat.lt_succ_iff_lt_or_eq.mp hn with hn | rfl
    · rw [Function.update_of_ne hn.ne]
      apply h.area n hmn hn hmapped
    · rw [Function.update_self, hcreates.area hbits]
  case unmapped =>
    intro n hn
    rw [MappedSlaves.add]
    dsimp only
    rw [Function.update_of_ne (by omega)]
    apply h.unmapped n (Nat.le_of_succ_le hn)

/-- Mapping the slaves of a range lays them out one after another. -/
theorem MappedSlaves.LaysOut.mapSlaves {start m k : ℕ} (hmk : m ≤ k)
    (hcreates : ∀ n, Creates bits create size (slave n)) (len : ℕ) {x : MappedSlaves}
    (h : x.LaysOut slave bits size start m k) :
  (mapSlaves slave bits create (List.range' k len) x).LaysOut slave bits size start m (k + len)
  := by
  induction len generalizing k x with
  | zero => exact h
  | succ len ih =>
      rw [List.range'_succ, EthercatMaster.mapSlaves, Nat.add_comm len 1, ← Nat.add_assoc]
      by_cases hbits : bits (slave k) = 0
      · rw [if_pos hbits]
        apply ih (Nat.le_succ_of_le hmk)
        apply h.skip hmk (hcreates k) hbits
      · rw [if_neg hbits]
        apply ih (Nat.le_succ_of_le hmk)
        apply h.add hmk (hcreates k) hbits

theorem MappedSlaves.laysOut_first (start : ℕ) :
  (⟨start, 0, fun _ => none, fun _ => []⟩ : MappedSlaves).LaysOut slave bits size start 1 1
  := by
  constructor
  case LogAddr => exact Layout.offset_first.symm
  case BitPos => rfl
  case pointer =>
    intro n hn hn'
    omega
  case area =>
    intro n hn hn'
    omega
  case unmapped => exact fun _ _ => rfl

theorem MappedSlaves.close_of_bitPos {x : MappedSlaves} (h : x.BitPos = 0) :
  x.close = x
  := by
  rw [close, if_neg (not_not.mpr h)]

/-- The outputs of byte oriented slaves are laid out one after another from the start of the
process image on, and then their inputs. -/
theorem ecxConfigMapGroup_spec (slavecount : ℕ)
    (h : ∀ n, ByteOriented (slave n).Obits ∧ ByteOriented (slave n).Ibits) :
  (ecxConfigMapGroup slavecount slave).outputs.LaysOut slave EcSlave.Obits EcSlave.outputSize
      0 1 (slavecount + 1)
    ∧ (ecxConfigMapGroup slavecount slave).inputs.LaysOut slave EcSlave.Ibits EcSlave.inputSize
      (offset 0 1 (fun n => (slave n).outputSize) (slavecount + 1)) 1 (slavecount + 1)
  := by
  have houtputs := (MappedSlaves.laysOut_first 0).mapSlaves le_rfl
    (fun n => EcSlave.creates_outputs (h n).1) slavecount
  have hinputs := (MappedSlaves.laysOut_first (offset 0 1 (fun n => (slave n).outputSize)
      (slavecount + 1))).mapSlaves le_rfl
    (fun n => EcSlave.creates_inputs (h n).2) slavecount
  rw [Nat.add_comm 1 slavecount] at houtputs hinputs
  rw [ecxConfigMapGroup]
  dsimp only
  rw [MappedSlaves.close_of_bitPos houtputs.BitPos, houtputs.BitPos, houtputs.LogAddr]
  refine ⟨houtputs, ?_⟩
  rw [MappedSlaves.close_of_bitPos hinputs.BitPos]
  exact hinputs

end Slaves

/-! ### How much is mapped -/

/-- The bytes that the sync managers of a type hold, up to one of them. -/
def heldBytes (SM : ℕ → SyncManager) (smType : UInt8) (SMc : ℕ) : ℕ :=
  ∑ i ∈ Finset.range SMc, if (SM i).smType = smType then (SM i).smLength.toNat else 0

section Held

variable {kind : MappingKind} {SM : ℕ → SyncManager} {smType : UInt8} {bits : UInt16}

theorem heldBytes_succ_le (SMc : ℕ) :
  heldBytes SM smType (SMc + 1) ≤ heldBytes SM smType SMc + (SM SMc).smLength.toNat
  := by
  rw [heldBytes, Finset.sum_range_succ, heldBytes]
  split
  · rfl
  · apply Nat.add_le_add_left
    apply Nat.zero_le

theorem heldBytes_mono {c d : ℕ} (h : c ≤ d) :
  heldBytes SM smType c ≤ heldBytes SM smType d
  := by
  apply Finset.sum_le_sum_of_subset
  apply Finset.range_subset_range.mpr h

/-- No sync manager of the type is skipped. -/
theorem le_nextSm (fuel SMc : ℕ) :
  SMc ≤ nextSm SM smType fuel SMc
    ∧ heldBytes SM smType (nextSm SM smType fuel SMc) = heldBytes SM smType SMc
  := by
  induction fuel generalizing SMc with
  | zero => exact ⟨le_rfl, rfl⟩
  | succ fuel ih =>
      rw [nextSm]
      split
      case isTrue hskip =>
        obtain ⟨hle, hheld⟩ := ih (SMc + 1)
        refine ⟨Nat.le_of_succ_le hle, ?_⟩
        rw [hheld, heldBytes, Finset.sum_range_succ, if_neg hskip.2, Nat.add_zero]
        rfl
      case isFalse => exact ⟨le_rfl, rfl⟩

/-- With a step for each sync manager, the search ends by itself. -/
theorem nextSm_ended {fuel SMc : ℕ} (h : ecMaxsm - 1 ≤ SMc + fuel) :
  ¬ (nextSm SM smType fuel SMc < ecMaxsm - 1 ∧ (SM (nextSm SM smType fuel SMc)).smType ≠ smType)
  := by
  induction fuel generalizing SMc with
  | zero =>
      rintro ⟨hlt, -⟩
      rw [nextSm] at hlt
      omega
  | succ fuel ih =>
      rw [nextSm]
      split
      case isTrue =>
        apply ih
        omega
      case isFalse hfound => exact hfound

/-- With a step for each sync manager, no more are joined with more steps. -/
theorem moreSm_ended {bits fuel : ℕ} {x : SmRun} (h : ecMaxsm - 1 ≤ x.SMc + fuel) :
  moreSm SM smType bits (fuel + 1) x = moreSm SM smType bits fuel x
  := by
  induction fuel generalizing x with
  | zero =>
      have hlast : ¬ (x.BitCount < bits ∧ x.SMc < ecMaxsm - 1) := by
        rintro ⟨-, hlt⟩
        omega
      rw [moreSm, moreSm, if_neg hlast]
  | succ fuel ih =>
      rw [moreSm, moreSm]
      split
      · dsimp only
        split
        · rfl
        · apply ih
          have hle := (@le_nextSm SM smType ecMaxsm (x.SMc + 1)).1
          rw [SmRun.add]
          dsimp only
          omega
      · rfl

/-- The sync managers up to the last one are counted, that one included. -/
structure SmRun.Holds (SM : ℕ → SyncManager) (smType : UInt8) (x : SmRun) : Prop where
  bits : x.BitCount = 8 * x.ByteCount
  held : heldBytes SM smType (x.SMc + 1) ≤ x.ByteCount

theorem SmRun.Holds.add {x : SmRun} {c : ℕ} (hbits : x.BitCount = 8 * x.ByteCount)
    (hheld : heldBytes SM smType c ≤ x.ByteCount) :
  (x.add (SM c) c).Holds SM smType
  := by
  constructor
  case bits =>
    rw [SmRun.add, hbits]
    dsimp only
    omega
  case held =>
    have hsucc := @heldBytes_succ_le SM smType c
    rw [SmRun.add]
    dsimp only
    omega

/-- What joining more sync managers leads to: it goes on to another one, if there is need and if
there is one. -/
theorem moreSm_spec (bits fuel : ℕ) {x : SmRun} (h : x.Holds SM smType) :
  (moreSm SM smType bits fuel x).BitCount = 8 * (moreSm SM smType bits fuel x).ByteCount
    ∧ heldBytes SM smType (moreSm SM smType bits fuel x).SMc
      ≤ (moreSm SM smType bits fuel x).ByteCount
    ∧ x.SMc ≤ (moreSm SM smType bits fuel x).SMc
    ∧ (0 < fuel → x.BitCount < bits ∧ x.SMc < ecMaxsm - 1 →
      x.SMc < (moreSm SM smType bits fuel x).SMc)
    ∧ (¬ (x.BitCount < bits ∧ x.SMc < ecMaxsm - 1) → moreSm SM smType bits fuel x = x)
  := by
  induction fuel generalizing x with
  | zero =>
      rw [moreSm]
      refine ⟨h.bits, ?_, le_rfl, ?_, fun _ => rfl⟩
      · apply le_trans _ h.held
        apply heldBytes_mono (Nat.le_succ _)
      · intro hfuel
        exact absurd hfuel (Nat.lt_irrefl 0)
  | succ fuel ih =>
      rw [moreSm]
      split
      case isTrue hmore =>
        dsimp only
        obtain ⟨hle, hheld⟩ := @le_nextSm SM smType ecMaxsm (x.SMc + 1)
        have hcount := h.held
        rw [← hheld] at hcount
        generalize nextSm SM smType ecMaxsm (x.SMc + 1) = c at hle hcount ⊢
        split
        case isTrue =>
          refine ⟨h.bits, hcount, ?_, ?_, ?_⟩
          · apply Nat.le_of_succ_le hle
          · exact fun _ _ => hle
          · exact fun hnot => absurd hmore hnot
        case isFalse =>
          obtain ⟨hbits, hheld', hle', -, -⟩ := ih (SmRun.Holds.add h.bits hcount)
          have hlt : x.SMc < (moreSm SM smType bits fuel (x.add (SM c) c)).SMc := by
            apply lt_of_lt_of_le hle hle'
          refine ⟨hbits, hheld', hlt.le, ?_, ?_⟩
          · exact fun _ _ => hlt
          · exact fun hnot => absurd hmore hnot
      case isFalse hdone =>
        refine ⟨h.bits, ?_, le_rfl, ?_, fun _ => rfl⟩
        · apply le_trans _ h.held
          apply heldBytes_mono (Nat.le_succ _)
        · exact fun _ hmore => absurd hmore hdone

/-- All bytes that the sync managers before hold are counted, and mapped as far as the slave has
them. -/
structure Mapping.Held (kind : MappingKind) (SM : ℕ → SyncManager) (bits : UInt16) (x : Mapping) :
    Prop where
  count : x.BitCount = 8 * x.ByteCount
  held : heldBytes SM kind.smType x.SMc ≤ x.ByteCount
  done : min (mapBytes bits) x.ByteCount ≤ x.FMMUdone
  le : x.FMMUdone ≤ mapBytes bits

theorem mapBytes_of_ne_zero (hbytes : mapBytes bits ≠ 0) :
  mapBytes bits = (bits.toNat + 7) / 8
  := by
  rw [mapBytes] at hbytes ⊢
  split at hbytes
  case isTrue h => rw [if_pos h]
  case isFalse => contradiction

/-- After another FMMU, the mapping is finished or has come further. -/
theorem Mapping.Held.createFmmu (hbytes : mapBytes bits ≠ 0) {x : Mapping}
    (h : x.Held kind SM bits) :
  (createFmmu kind SM bits x).Held kind SM bits
    ∧ ((createFmmu kind SM bits x).Unfinished bits →
      x.SMc < (createFmmu kind SM bits x).SMc)
  := by
  obtain ⟨hle, hheld⟩ := @le_nextSm SM kind.smType ecMaxsm x.SMc
  have hcount := h.held
  rw [← hheld] at hcount
  generalize hc : nextSm SM kind.smType ecMaxsm x.SMc = c at hle hcount
  have hfirst := @SmRun.Holds.add SM kind.smType ⟨x.SMc, x.BitCount, x.ByteCount, 0⟩ c h.count
    hcount
  have hrun : x.smRun kind SM bits
      = moreSm SM kind.smType bits.toNat ecMaxsm
        (SmRun.add (SM c) c ⟨x.SMc, x.BitCount, x.ByteCount, 0⟩) := by
    rw [smRun, hc]
  obtain ⟨hbits, hheld', hle', hmore, hstay⟩ := moreSm_spec bits.toNat ecMaxsm hfirst
  rw [← hrun] at hbits hheld' hle' hmore hstay
  have hdone : (EthercatMaster.createFmmu kind SM bits x).Held kind SM bits := by
    have hbefore := h.le
    constructor
    case count => exact hbits
    case held => exact hheld'
    case done =>
      rw [createFmmu_FMMUdone hbytes, size, byteSize]
      split
      · apply le_trans (min_le_left _ _)
        omega
      · apply le_trans (min_le_right _ _)
        apply Nat.le_add_left
    case le =>
      rw [createFmmu_FMMUdone hbytes, size, byteSize]
      split
      · omega
      · omega
  refine ⟨hdone, ?_⟩
  rintro ⟨hSMc, hunfinished⟩
  rw [← mapBytes_of_ne_zero hbytes] at hunfinished
  by_contra hnot
  have hlast : (x.smRun kind SM bits).SMc = c := by
    apply le_antisymm _ hle'
    apply le_trans (not_lt.mp hnot) hle
  -- nothing more was joined, although the sync managers go on: the bits are all there
  have hfinished : ¬ (x.BitCount + (SM c).smLength.toNat * 8 < bits.toNat ∧ c < ecMaxsm - 1) := by
    intro hcond
    apply absurd (hmore (by decide) hcond)
    rw [hlast]
    apply lt_irrefl
  have hall : bits.toNat ≤ (x.smRun kind SM bits).BitCount := by
    rw [hstay hfinished]
    apply not_lt.mp
    intro hlt
    apply hfinished
    refine ⟨hlt, ?_⟩
    rw [← hlast]
    exact hSMc
  have hmapped := hdone.done
  have hbytecount : (EthercatMaster.createFmmu kind SM bits x).ByteCount
      = (x.smRun kind SM bits).ByteCount := rfl
  rw [hbytecount] at hmapped
  have hmap := mapBytes_of_ne_zero hbytes
  omega

/-- The mapping of a byte oriented slave is finished in the end. -/
theorem createFmmus_finished (hbytes : mapBytes bits ≠ 0) (fuel : ℕ) {x : Mapping}
    (h : x.Held kind SM bits) (hfuel : ecMaxsm - 1 ≤ x.SMc + fuel) :
  (createFmmus kind SM bits fuel x).Held kind SM bits
    ∧ ¬ (createFmmus kind SM bits fuel x).Unfinished bits
  := by
  induction fuel generalizing x with
  | zero =>
      refine ⟨h, ?_⟩
      rintro ⟨hSMc, -⟩
      exact absurd hSMc (not_lt.mpr hfuel)
  | succ fuel ih =>
      rw [createFmmus]
      split
      case isTrue =>
        obtain ⟨hnext, hprogress⟩ := h.createFmmu hbytes
        by_cases hmore : (createFmmu kind SM bits x).Unfinished bits
        · apply ih hnext
          have hlt := hprogress hmore
          omega
        · rw [createFmmus_of_finished hmore]
          exact ⟨hnext, hmore⟩
      case isFalse hdone => exact ⟨h, hdone⟩

/-- A byte oriented slave is mapped whole, if its sync managers hold it. -/
theorem mappedSize_eq (hbytes : mapBytes bits ≠ 0)
    (hheld : mapBytes bits ≤ heldBytes SM kind.smType (ecMaxsm - 1)) :
  mappedSize kind SM bits = mapBytes bits
  := by
  have hinit : (Mapping.init 0 0).Held kind SM bits := by
    constructor
    case count => rfl
    case held => exact le_rfl
    case done => apply min_le_right
    case le => apply Nat.zero_le
  obtain ⟨h, hfinished⟩ := createFmmus_finished hbytes ecMaxsm hinit (by decide)
  rw [mappedSize]
  apply le_antisymm h.le
  have hdone := h.done
  have hcounted := h.held
  generalize createFmmus kind SM bits ecMaxsm (.init 0 0) = x at *
  rw [Mapping.Unfinished, not_and_or, not_lt, not_lt, ← mapBytes_of_ne_zero hbytes] at hfinished
  rcases hfinished with hlast | hall
  · have hmono := @heldBytes_mono SM kind.smType _ _ hlast
    apply le_trans _ hdone
    apply le_min le_rfl
    apply le_trans hheld
    apply le_trans hmono hcounted
  · apply hall

end Held

end EthercatMaster
