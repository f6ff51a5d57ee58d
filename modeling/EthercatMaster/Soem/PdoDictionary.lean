import Mathlib.Algebra.BigOperators.Intervals
import EthercatMaster.Soem.PdoMap

/-!
# The mapping in the object dictionary

What the object dictionary of a slave says about its process data, and that `ec_readPDOmap` finds
it.
-/

namespace EthercatMaster

open Bytes SdoServer

/-- A PDO: its index, and the objects that are mapped into it. -/
structure Pdo where
  index : UInt16
  entries : List UInt32

/-- The number of bits of a PDO. -/
def Pdo.bits (pdo : Pdo) : ℕ :=
  (pdo.entries.map entryBits).sum

/-- A PDO is in the dictionary: the number of its entries, and the entries. -/
structure Pdo.Stored (objects : Objects) (pdo : Pdo) : Prop where
  count : objects ⟨pdo.index, 0, false⟩ = [pdo.entries.length.toUInt8]
  few : pdo.entries.length < 256
  entry : ∀ i < pdo.entries.length, objects ⟨pdo.index, (1 + i).toUInt8, false⟩
    = (ofUInt32 (pdo.entries.getD i 0)).take 4

/-- Some PDOs are assigned to a sync manager. -/
structure Assigned (objects : Objects) (PDOassign : UInt16) (pdos : List Pdo) : Prop where
  count : objects ⟨PDOassign, 0, false⟩ = [pdos.length.toUInt8]
  few : pdos.length < 256
  index : ∀ i < pdos.length, objects ⟨PDOassign, (1 + i).toUInt8, false⟩
    = (ofUInt16 ((pdos.map Pdo.index).getD i 0)).take 2
  stored : ∀ pdo ∈ pdos, pdo.index ≠ 0 ∧ pdo.Stored objects

/-- The total number of bits of some PDOs. -/
def totalBits (pdos : List Pdo) : ℕ :=
  (pdos.map Pdo.bits).sum

/-- One PDO is assigned. -/
theorem Assigned.single {objects : Objects} {PDOassign : UInt16} {pdo : Pdo}
    (hcount : objects ⟨PDOassign, 0, false⟩ = [1])
    (hindex : objects ⟨PDOassign, 1, false⟩ = (ofUInt16 pdo.index).take 2) (hpos : pdo.index ≠ 0)
    (hstored : pdo.Stored objects) :
  Assigned objects PDOassign [pdo]
  := by
  constructor
  case count => exact hcount
  case few => exact Nat.one_lt_succ_succ 254
  case index =>
    intro i hi
    obtain rfl : i = 0 := Nat.lt_one_iff.mp hi
    exact hindex
  case stored =>
    intro pdo' h
    rw [List.mem_singleton.mp h]
    exact ⟨hpos, hstored⟩

/-- What is added to the types: the first sync manager that is looked at decides it. -/
def typeBugAdd (types : ℕ → UInt8) : UInt8 :=
  if types 2 = 2 then 1 else 0

/-- The type that a sync manager is given. -/
def smType (types : ℕ → UInt8) (iSM : ℕ) : UInt8 :=
  (adjustType iSM (typeBugAdd types) (types iSM)).1

/-- The type that a sync manager is given by complete access. -/
def smTypeCA (types : ℕ → UInt8) (iSM : ℕ) : UInt8 :=
  (adjustTypeCA iSM (typeBugAdd types) (types iSM)).1

/-- The dictionary has the types of the sync managers, and those of outputs and inputs have PDOs
assigned. -/
structure Mapped (objects : Objects) (nSM : UInt8) (types : ℕ → UInt8) (pdos : ℕ → List Pdo) :
    Prop where
  count : objects ⟨ectSdoSmcommtype, 0, false⟩ = [nSM]
  type : ∀ iSM, 2 ≤ iSM → iSM < min nSM.toNat ecMaxsm →
    objects ⟨ectSdoSmcommtype, (iSM + 1).toUInt8, false⟩ = [types iSM]
  assigned : ∀ iSM, 2 ≤ iSM → iSM < min nSM.toNat ecMaxsm →
    smType types iSM = 3 ∨ smType types iSM = 4 →
    Assigned objects (ectSdoPdoassign + iSM.toUInt16) (pdos iSM)

/-- What the sync managers before some number amount to. -/
def PdoMap.found (type : ℕ → UInt8) (SMtBugAdd : UInt8) (bits : ℕ → ℕ) (map : PdoMap) (nSM : ℕ) :
    PdoMap where
  Osize := ∑ iSM ∈ Finset.Ico 2 nSM with type iSM = 3, bits iSM
  Isize := ∑ iSM ∈ Finset.Ico 2 nSM with type iSM = 4, bits iSM
  SMtBugAdd := if 2 < nSM then SMtBugAdd else 0
  SMtype iSM := if 2 ≤ iSM ∧ iSM < nSM then type iSM else map.SMtype iSM
  SMlength iSM :=
    if 2 ≤ iSM ∧ iSM < nSM ∧ (type iSM = 3 ∨ type iSM = 4) ∧ 0 < bits iSM then
      ((bits iSM + 7) / 8).toUInt16 else map.SMlength iSM
  SMflags iSM := if 2 ≤ iSM ∧ iSM < nSM ∧ type iSM = 0 then
    map.SMflags iSM &&& ecSmenablemask else map.SMflags iSM

section Found

variable {type types : ℕ → UInt8} {bug : UInt8} {bits : ℕ → ℕ} {map : PdoMap} {iSM : ℕ}

/-- The correction of the types is decided by the first sync manager that is looked at. -/
theorem adjustTypeCA_found (h : 2 ≤ iSM) :
  adjustTypeCA iSM (map.found type (typeBugAdd types) bits iSM).SMtBugAdd (types iSM)
    = (smTypeCA types iSM, typeBugAdd types)
  := by
  rcases h.eq_or_lt with rfl | h
  · by_cases hbug : types 2 = 2
    · simp [smTypeCA, adjustTypeCA, typeBugAdd, hbug]
    · simp [PdoMap.found, smTypeCA, adjustTypeCA, typeBugAdd, hbug]
  · simp [PdoMap.found, smTypeCA, adjustTypeCA, h, h.ne']

theorem adjustType_found (h : 2 ≤ iSM) :
  adjustType iSM (map.found type (typeBugAdd types) bits iSM).SMtBugAdd (types iSM)
    = (smType types iSM, typeBugAdd types)
  := by
  have hsame : adjustTypeCA iSM (typeBugAdd types) (types iSM)
      = (smTypeCA types iSM, typeBugAdd types) := by
    by_cases hfirst : iSM = 2
    · simp [smTypeCA, adjustTypeCA, typeBugAdd, hfirst]
    · simp [smTypeCA, adjustTypeCA, hfirst]
  rw [smType, adjustType, adjustType, adjustTypeCA_found h, hsame]

/-- The types that complete access gives are the same, unless the slave leaves the first two 0. -/
theorem smTypeCA_eq (h : iSM = 2 ∨ iSM = 3 → smTypeCA types iSM ≠ 0) :
  smTypeCA types iSM = smType types iSM
  := by
  rw [smTypeCA] at h ⊢
  by_cases hfirst : iSM = 2 ∨ iSM = 3
  · simp [smType, adjustType, h hfirst]
  · obtain ⟨hsecond, hthird⟩ := not_or.mp hfirst
    simp [smType, adjustType, hsecond, hthird]

/-- The kind of a sync manager whose type is set. -/
theorem isProcessData_setType {tSM : UInt8} :
  (map.setType iSM (tSM, bug)).IsProcessData iSM ↔ tSM = 3 ∨ tSM = 4
  := by
  simp [PdoMap.IsProcessData, PdoMap.setType]

/-- A function that is changed on some numbers up to a bound is updated at the bound. -/
theorem ite_lt_succ {α : Type} {P : ℕ → Prop} [DecidablePred P] (f g : ℕ → α) (h : 2 ≤ iSM) :
  (fun i => if 2 ≤ i ∧ i < iSM + 1 ∧ P i then f i else g i)
    = if P iSM then
        Function.update (fun i => if 2 ≤ i ∧ i < iSM ∧ P i then f i else g i) iSM (f iSM)
      else fun i => if 2 ≤ i ∧ i < iSM ∧ P i then f i else g i
  := by
  funext i
  by_cases hi : i = iSM
  · subst hi
    by_cases hP : P i
    · simp [h, hP]
    · simp [hP]
  · have hlt : i < iSM + 1 ↔ i < iSM := by omega
    by_cases hP : P iSM
    · simp [hi, hP, hlt]
    · simp [hP, hlt]

/-- A sync manager more is looked at. -/
theorem found_succ (h : 2 ≤ iSM) :
  map.found type bug bits (iSM + 1)
    = let map := (map.found type bug bits iSM).setType iSM (type iSM, bug)
      if map.IsProcessData iSM then map.addBits iSM (bits iSM) else map
  := by
  have htype := ite_lt_succ (P := fun _ => True) type map.SMtype h
  simp only [and_true, if_true] at htype
  rw [PdoMap.found, htype, ite_lt_succ _ _ h, ite_lt_succ _ _ h]
  by_cases hkind : type iSM = 3 ∨ type iSM = 4
  · have hused : type iSM ≠ 0 := by
      rcases hkind with hkind | hkind <;> rw [hkind] <;> decide
    by_cases hbits : bits iSM = 0
    · simp [PdoMap.setType, PdoMap.IsProcessData, PdoMap.addBits, PdoMap.found, Finset.sum_filter,
        Finset.sum_Ico_succ_top h, hbits, hused, h]
    · rcases hkind with hkind | hkind
      · simp [PdoMap.setType, PdoMap.IsProcessData, PdoMap.addBits, PdoMap.found, Finset.sum_filter,
          Finset.sum_Ico_succ_top h, hbits, hkind, h, Nat.pos_of_ne_zero hbits]
      · simp [PdoMap.setType, PdoMap.IsProcessData, PdoMap.addBits, PdoMap.found, Finset.sum_filter,
          Finset.sum_Ico_succ_top h, hbits, hkind, h, Nat.pos_of_ne_zero hbits]
  · obtain ⟨hnot, hnot'⟩ := not_or.mp hkind
    simp [PdoMap.setType, PdoMap.IsProcessData, PdoMap.found, Finset.sum_filter,
      Finset.sum_Ico_succ_top h, hnot, hnot', h]

/-- There are sync managers for process data from the third on. -/
theorem found_of_le {nSM : ℕ} (h : nSM ≤ 2) :
  map.found type bug bits nSM = { map with Osize := 0, Isize := 0, SMtBugAdd := 0 }
  := by
  have hnone : ∀ i, ¬ (2 ≤ i ∧ i < nSM) := by omega
  have hfirst : ¬ 2 < nSM := by omega
  simp [PdoMap.found, Finset.Ico_eq_empty_of_le h, hfirst, ← and_assoc, hnone]

/-- What is found does not change if it is found again. -/
theorem found_found {nSM : ℕ} :
  (map.found type bug bits nSM).found type bug bits nSM = map.found type bug bits nSM
  := by
  apply PdoMap.ext
  · rfl
  · rfl
  · rfl
  · funext i
    simp only [PdoMap.found]
    split <;> rfl
  · funext i
    simp only [PdoMap.found]
    split <;> rfl
  · funext i
    simp only [PdoMap.found]
    split
    case isTrue => rw [UInt32.and_assoc, UInt32.and_self]
    case isFalse => rfl

/-- Only the types of the sync managers that are looked at matter. -/
theorem found_congr {type' : ℕ → UInt8} {nSM : ℕ}
    (h : ∀ iSM, 2 ≤ iSM → iSM < nSM → type iSM = type' iSM) :
  map.found type bug bits nSM = map.found type' bug bits nSM
  := by
  have hsum : ∀ tSM : UInt8, ∑ iSM ∈ Finset.Ico 2 nSM with type iSM = tSM, bits iSM
      = ∑ iSM ∈ Finset.Ico 2 nSM with type' iSM = tSM, bits iSM := by
    intro tSM
    congr 1
    apply Finset.filter_congr
    intro iSM hiSM
    rw [Finset.mem_Ico] at hiSM
    rw [h iSM hiSM.1 hiSM.2]
  have hfield : ∀ iSM, (2 ≤ iSM ∧ iSM < nSM) ∧ type iSM = type' iSM ∨ ¬ (2 ≤ iSM ∧ iSM < nSM) := by
    intro iSM
    by_cases hiSM : 2 ≤ iSM ∧ iSM < nSM
    · exact .inl ⟨hiSM, h iSM hiSM.1 hiSM.2⟩
    · exact .inr hiSM
  apply PdoMap.ext
  · exact hsum 3
  · exact hsum 4
  · rfl
  all_goals
    funext iSM
    rcases hfield iSM with ⟨hiSM, heq⟩ | hiSM
    · simp [PdoMap.found, heq]
    · simp [PdoMap.found, ← and_assoc, hiSM]

end Found

/-- The numbers at the positions of a list, counted from one. -/
theorem map_range'_getD {α β : Type} (l : List α) (d : α) (g : α → β) :
  (List.range' 1 l.length).map (fun k => g (l.getD (k - 1) d)) = l.map g
  := by
  apply List.ext_getElem
  · simp
  · intro i h h'
    simp at h h'
    simp [h]

section Server

variable {σ : Type} {link : Link σ} {slave : MbxSlave} {rules : SdoRules} {server : σ → SdoServer}
  {fuel : ℕ} {objects : Objects} {errors : ErrorList}

variable (link slave server) in
/-- The slave has some objects, the list of errors is some list, and a transfer can begin. -/
structure Holds (objects : Objects) (errors : ErrorList) (x : CoeState σ) : Prop where
  objects : (server x.link).objects = objects
  errors : x.errors = errors
  settled : Settled link slave server x

variable (hserves : Serves link slave rules ecTimeoutrxm server)

include hserves

/-- An object is read that fits into its variable. -/
theorem readSdo_yields (hfuel : 4 ≤ fuel) {index : UInt16} {subindex : UInt8} {size : ℤ}
    {value : List UInt8} (hvalue : objects ⟨index, subindex, false⟩ = value)
    (hsize : value.length ≤ size) (hsize' : size ≤ 4) :
  Yields (Holds link slave server objects errors) (readSdo link slave fuel index subindex size)
    (Exactly ⟨1, value.length, Bytes.copy (fun _ => 0) 0 (.ofList value) value.length⟩
      (Holds link slave server objects errors))
  := by
  rintro x ⟨hobjects, herrors, hsettled⟩
  have hread : (server x.link).objects
      ⟨index, if false = true ∧ 1 < subindex then 1 else subindex, false⟩ = value := by
    rw [hobjects, if_neg (fun h => Bool.false_ne_true h.1), hvalue]
  have hfuel' : value.length ≤ fuel := by omega
  obtain ⟨x', hread, hobjects', hmailbox', herrors'⟩ := ecxSDOread_value hserves le_rfl index
    subindex false size (fun _ => 0) hsettled hread (by omega) hfuel'
  rw [if_pos (by omega)] at hread herrors'
  exact ⟨_, x', hread, rfl, hobjects'.trans hobjects, herrors'.trans herrors, .of_none hmailbox'⟩

omit hserves

/-- A byte that was read. -/
theorem copy_singleton (c : UInt8) :
  Bytes.copy (fun _ => 0) 0 (.ofList [c]) [c].length 0 = c
  := rfl

theorem uint16_copy_singleton (c : UInt8) :
  ((Bytes.copy (fun _ => 0) 0 (.ofList [c]) [c].length).uint16 0).toNat = c.toNat
  := by
  have hlt := c.toNat_lt
  simp [uint16, copy, ofList]

variable (hroom : 16 ≤ rules.mbx_rl) (hroom' : rules.mbx_rl < 65536) (hfuel : 4 ≤ fuel)

include hserves hfuel

/-- The bits of a PDO are added. -/
theorem readEntries_yields {pdo : Pdo} (hstored : pdo.Stored objects) (bsize : ℕ) :
  Yields (Holds link slave server objects errors)
    (readEntries link slave fuel pdo.index bsize)
    (Exactly (bsize + pdo.bits) (Holds link slave server objects errors))
  := by
  obtain ⟨hcount, hfew, hentry⟩ := hstored
  have hlength : pdo.entries.length.toUInt8.toNat = pdo.entries.length := by
    simp
    omega
  apply (readSdo_yields hserves hfuel hcount (by simp) (by omega)).bind_exactly
  dsimp only
  rw [copy_singleton, hlength, Pdo.bits,
    ← map_range'_getD pdo.entries 0 entryBits]
  apply Yields.foldlM_sum
  intro k hk bsize
  rw [List.mem_range'_1] at hk
  have hvalue := hentry (k - 1) (by omega)
  rw [show 1 + (k - 1) = k by omega] at hvalue
  apply (readSdo_yields hserves hfuel hvalue (by simp) (by omega)).bind_exactly
  dsimp only
  rw [length_take, uint32_copy_take]
  apply Yields.pure_exactly

/-- `ec_readPDOassign` adds up the bits of the PDOs that are assigned. -/
theorem ecxReadPDOassign_yields {PDOassign : UInt16} {pdos : List Pdo}
    (hassigned : Assigned objects PDOassign pdos) :
  Yields (Holds link slave server objects errors)
    (ecxReadPDOassign link slave fuel PDOassign)
    (Exactly (totalBits pdos) (Holds link slave server objects errors))
  := by
  obtain ⟨hcount, hfew, hindex, hstored⟩ := hassigned
  have hlength : pdos.length.toUInt8.toNat = pdos.length := by
    simp
    omega
  apply (readSdo_yields hserves hfuel hcount (by simp) (by omega)).bind_exactly
  dsimp only
  rw [uint16_copy_singleton, hlength]
  by_cases hnone : 0 < pdos.length
  · rw [if_pos ⟨by decide, hnone⟩, if_neg (by omega), totalBits,
      ← map_range'_getD pdos ⟨0, []⟩ Pdo.bits, ← Nat.zero_add (List.sum _)]
    apply Yields.foldlM_sum
    intro k hk bsize
    rw [List.mem_range'_1] at hk
    have hvalue := hindex (k - 1) (by omega)
    rw [show 1 + (k - 1) = k by omega] at hvalue
    apply (readSdo_yields hserves hfuel hvalue (by simp) (by omega)).bind_exactly
    dsimp only
    have hmem : pdos.getD (k - 1) ⟨0, []⟩ ∈ pdos := by
      rw [List.getD_eq_getElem?_getD, List.getElem?_eq_getElem (by omega), Option.getD_some]
      apply List.getElem_mem
    obtain ⟨hpos, hpdo⟩ := hstored _ hmem
    have hget : (pdos.map Pdo.index).getD (k - 1) 0 = (pdos.getD (k - 1) ⟨0, []⟩).index := by
      simp [show k - 1 < pdos.length by omega]
    rw [length_take, uint16_copy_take, hget, if_pos (UInt16.pos_iff_ne_zero.mpr hpos)]
    apply readEntries_yields hserves hfuel hpdo
  · have hnil : pdos = [] := List.eq_nil_of_length_eq_zero (by omega)
    rw [if_neg (fun h => hnone h.2), hnil]
    apply Yields.pure_exactly

/-- A sync manager is found as the dictionary has it. -/
theorem readSyncManager_yields {nSM : UInt8} {types : ℕ → UInt8} {pdos : ℕ → List Pdo}
    (hmapped : Mapped objects nSM types pdos) {map : PdoMap} {iSM : ℕ} (hstart : 2 ≤ iSM)
    (hlast : iSM < min nSM.toNat ecMaxsm) :
  Yields (Holds link slave server objects errors)
    (readSyncManager link slave fuel
      (map.found (smType types) (typeBugAdd types) (totalBits ∘ pdos) iSM) iSM)
    (Exactly (map.found (smType types) (typeBugAdd types) (totalBits ∘ pdos) (iSM + 1))
      (Holds link slave server objects errors))
  := by
  apply (readSdo_yields hserves hfuel (hmapped.type iSM hstart hlast) (by simp)
    (by omega)).bind_exactly
  dsimp only
  simp only [copy_singleton, adjustType_found hstart]
  rw [if_pos (by decide), found_succ hstart]
  dsimp only
  by_cases hkind : smType types iSM = 3 ∨ smType types iSM = 4
  · rw [if_pos (isProcessData_setType.mpr hkind), if_pos (isProcessData_setType.mpr hkind)]
    apply (ecxReadPDOassign_yields hserves hfuel
      (hmapped.assigned iSM hstart hlast hkind)).bind_exactly
    apply Yields.pure_exactly
  · rw [if_neg (mt isProcessData_setType.mp hkind), if_neg (mt isProcessData_setType.mp hkind)]
    apply Yields.pure_exactly

/-- `ec_readPDOmap` finds the bits of the PDOs that are assigned to outputs and to inputs, and sets
the sync managers accordingly. -/
theorem ecxReadPDOmap_found {nSM : UInt8} {types : ℕ → UInt8} {pdos : ℕ → List Pdo}
    (hmapped : Mapped objects nSM types pdos) (map : PdoMap) :
  Yields (Holds link slave server objects errors)
    (ecxReadPDOmap link slave fuel map)
    (Exactly
      ((map.found (smType types) (typeBugAdd types) (totalBits ∘ pdos)
          (min nSM.toNat ecMaxsm)).retVal,
        map.found (smType types) (typeBugAdd types) (totalBits ∘ pdos) (min nSM.toNat ecMaxsm))
      (Holds link slave server objects errors))
  := by
  apply (readSdo_yields hserves hfuel hmapped.count (by simp) (by omega)).bind_exactly
  dsimp only
  by_cases hmore : 2 < nSM.toNat
  · have hlast : min nSM.toNat ecMaxsm = 2 + (min nSM.toNat ecMaxsm - 2) := by
      rw [ecMaxsm]
      omega
    rw [if_pos ⟨by decide, hmore⟩, copy_singleton, ← found_of_le (Nat.le_refl 2)]
    apply Yields.bind_exactly (Q := Holds link slave server objects errors)
    · apply Yields.foldlM_range'_exactly
      intro iSM hstart hlt
      apply readSyncManager_yields hserves hfuel hmapped hstart (by omega)
    · rw [← hlast]
      apply Yields.pure_exactly
  · rw [if_neg (fun h => hmore h.2), found_of_le (by omega)]
    apply Yields.pure_exactly

end Server

end EthercatMaster
