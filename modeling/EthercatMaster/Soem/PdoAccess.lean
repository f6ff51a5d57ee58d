import EthercatMaster.Soem.PdoDictionary

/-!
# The mapping by complete access

`ec_readPDOmapCA` reads each object of the mapping as a whole.  It finds the same as
`ec_readPDOmap`, and so does `ec_map_coe_soe`, whichever it takes.
-/

namespace EthercatMaster

open Bytes SdoServer

/-! ### Whole objects -/

/-- A PDO as a whole object. -/
def Pdo.whole (pdo : Pdo) (nu1 : UInt8) : List UInt8 :=
  pdo.entries.length.toUInt8 :: nu1 :: pdo.entries.flatMap fun rdat2 => (ofUInt32 rdat2).take 4

/-- A PDO is in the dictionary as a whole. -/
structure Pdo.StoredCA (objects : Objects) (pdo : Pdo) : Prop where
  few : pdo.entries.length < 256
  whole : ∃ nu1, objects ⟨pdo.index, 0, true⟩ = pdo.whole nu1

/-- Assigned PDOs as a whole object. -/
def wholeAssign (pdos : List Pdo) (nu1 : UInt8) : List UInt8 :=
  pdos.length.toUInt8 :: nu1 :: pdos.flatMap fun pdo => (ofUInt16 pdo.index).take 2

/-- Some PDOs are assigned to a sync manager, as a whole. -/
structure AssignedCA (objects : Objects) (PDOassign : UInt16) (pdos : List Pdo) : Prop where
  few : pdos.length < 256
  whole : ∃ nu1, objects ⟨PDOassign, 0, true⟩ = wholeAssign pdos nu1
  stored : ∀ pdo ∈ pdos, pdo.index ≠ 0 ∧ pdo.StoredCA objects

/-- The dictionary has the types of the sync managers as a whole, and those of outputs and inputs
have PDOs assigned. -/
structure MappedCA (objects : Objects) (nSM : UInt8) (types : ℕ → UInt8) (pdos : ℕ → List Pdo) :
    Prop where
  few : nSM.toNat ≤ ecMaxsm
  whole : ∃ nu1, objects ⟨ectSdoSmcommtype, 0, true⟩ = nSM :: nu1
    :: (List.range nSM.toNat).map types
  assigned : ∀ iSM, 2 ≤ iSM → iSM < nSM.toNat → smTypeCA types iSM = 3 ∨ smTypeCA types iSM = 4 →
    AssignedCA objects (ectSdoPdoassign + iSM.toUInt16) (pdos iSM)

section Records

variable {b : Bytes} {n nu1 : UInt8}

/-- A record of an object that was read as a whole. -/
theorem record_whole {α : Type} {f : α → List UInt8} {w : ℕ} (hw : ∀ a, (f a).length = w)
    {l : List α} (d : α) {k : ℕ} (hk : k < l.length) {i : ℕ} (hi : i < w) :
  b.copy 0 (.ofList (n :: nu1 :: l.flatMap f)) (n :: nu1 :: l.flatMap f).length (2 + w * k + i)
    = (f (l.getD k d)).getD i 0
  := by
  have hlength : (l.flatMap f).length = w * l.length := by
    simp [List.length_flatMap, hw, Nat.mul_comm]
  have hrecord : w * k + w ≤ w * l.length := Nat.mul_le_mul_left w hk
  rw [copy_zero_of_lt (by simp [hlength]; omega), ofList,
    show 2 + w * k + i = w * k + i + 1 + 1 by omega, List.getD_cons_succ, List.getD_cons_succ,
    getD_flatMap hw d hk hi]

theorem uint32_whole {pdo : Pdo} {k : ℕ} (hk : k < pdo.entries.length) :
  (b.copy 0 (.ofList (pdo.whole nu1)) (pdo.whole nu1).length).uint32 (2 + 4 * k)
    = pdo.entries.getD k 0
  := by
  rw [uint32_eq, ← uint32_ofUInt32 (pdo.entries.getD k 0)]
  apply uint32_congr
  intro i hi
  rw [Bytes.drop, Pdo.whole, record_whole (fun z => length_take _ _) 0 hk (by omega)]
  exact ofList_take (by omega)

theorem uint16_whole {pdos : List Pdo} {k : ℕ} (hk : k < pdos.length) :
  (b.copy 0 (.ofList (wholeAssign pdos nu1)) (wholeAssign pdos nu1).length).uint16 (2 + 2 * k)
    = (pdos.getD k ⟨0, []⟩).index
  := by
  rw [uint16_eq, ← uint16_ofUInt16 (pdos.getD k ⟨0, []⟩).index]
  apply uint16_congr
  intro i hi
  rw [Bytes.drop, wholeAssign, record_whole (fun pdo => length_take _ _) ⟨0, []⟩ hk (by omega)]
  exact ofList_take (by omega)

/-- The type of a sync manager. -/
theorem type_whole {types : ℕ → UInt8} {iSM : ℕ} (h : iSM < n.toNat) :
  b.copy 0 (.ofList (n :: nu1 :: (List.range n.toNat).map types))
    (n :: nu1 :: (List.range n.toNat).map types).length (2 + iSM) = types iSM
  := by
  rw [copy_zero_of_lt (by simp; omega), ofList, show 2 + iSM = iSM + 1 + 1 by omega,
    List.getD_cons_succ, List.getD_cons_succ]
  simp [h]

/-- The number of the records. -/
theorem n_whole {rest : List UInt8} :
  b.copy 0 (.ofList (n :: rest)) (n :: rest).length 0 = n
  := by
  rw [copy_zero_of_lt (by simp)]
  rfl

end Records

/-- The bits of an entry are the low byte. -/
theorem entryBits_eq (rdat2 : UInt32) :
  entryBits rdat2 = (rdat2 &&& 0xff).toNat
  := by
  rw [entryBits]
  split
  case isTrue => rfl
  case isFalse hlarge =>
    have hle : (rdat2 &&& 0xff).toNat ≤ 0xff := by
      rw [UInt32.toNat_and]
      exact Nat.and_le_right
    have hge : 0xff ≤ (rdat2 &&& 0xff).toNat := UInt32.le_iff_toNat_le.mp (UInt32.not_lt.mp hlarge)
    omega

/-- The bits of the entries of a PDO that was read as a whole. -/
theorem addEntries_whole {b : Bytes} {nu1 : UInt8} {pdo : Pdo} (hfew : pdo.entries.length < 256)
    (bsize : ℕ) :
  addEntries (b.copy 0 (.ofList (pdo.whole nu1)) (pdo.whole nu1).length) bsize = bsize + pdo.bits
  := by
  have hlength : pdo.entries.length.toUInt8.toNat = pdo.entries.length := by
    simp
    omega
  have hn : b.copy 0 (.ofList (pdo.whole nu1)) (pdo.whole nu1).length 0
      = pdo.entries.length.toUInt8 := n_whole
  rw [addEntries, hn, hlength, Pdo.bits, ← map_range'_getD pdo.entries 0 entryBits]
  congr 2
  apply List.map_congr_left
  intro k hk
  rw [List.mem_range'_1] at hk
  rw [uint32_whole (by omega), entryBits_eq]

theorem Pdo.length_whole (pdo : Pdo) (nu1 : UInt8) :
  (pdo.whole nu1).length = 2 + 4 * pdo.entries.length
  := by
  simp [Pdo.whole, List.length_flatMap]
  omega

theorem length_wholeAssign (pdos : List Pdo) (nu1 : UInt8) :
  (wholeAssign pdos nu1).length = 2 + 2 * pdos.length
  := by
  simp [wholeAssign, List.length_flatMap]
  omega

/-- The bits up to a PDO. -/
theorem totalBits_take {pdos : List Pdo} {k : ℕ} (hk : 1 ≤ k) (hlast : k < 1 + pdos.length) :
  totalBits (pdos.take k) = totalBits (pdos.take (k - 1)) + (pdos.getD (k - 1) ⟨0, []⟩).bits
  := by
  obtain ⟨k, rfl⟩ : ∃ i, k = i + 1 := ⟨k - 1, by omega⟩
  rw [Nat.add_sub_cancel, totalBits, totalBits, List.take_succ_eq_append_getElem (by omega),
    List.map_append, List.sum_append, List.getD_eq_getElem?_getD,
    List.getElem?_eq_getElem (by omega)]
  simp

section Server

variable {σ : Type} {link : Link σ} {slave : MbxSlave} {rules : SdoRules} {server : σ → SdoServer}
  {fuel : ℕ} {objects : Objects} {errors : ErrorList}

variable (link slave server) in
/-- The PDOs before a number have been added up. -/
structure Summed (objects : Objects) (errors : ErrorList) (pdos : List Pdo) (buffers : MapBuffers)
    (idxloop : ℕ) (r : ℕ × MapBuffers) (x : CoeState σ) : Prop where
  bits : r.1 = totalBits (pdos.take (idxloop - 1))
  PDOassign : r.2.PDOassign = buffers.PDOassign
  SMcommtype : r.2.SMcommtype = buffers.SMcommtype
  holds : Holds link slave server objects errors x

variable (hserves : Serves link slave rules ecTimeoutrxm server) (hfuel : 1026 ≤ fuel)

include hserves hfuel

/-- A whole object is read that fits into its buffer. -/
theorem readSdoCA_yields {index : UInt16} {size : ℤ} {value : List UInt8} (p : Bytes)
    (hvalue : objects ⟨index, 0, true⟩ = value) (hsize : value.length ≤ size)
    (hsize' : size ≤ 1026) :
  Yields (Holds link slave server objects errors) (readSdoCA link slave fuel index size p)
    (Exactly ⟨1, value.length, (p.set8 0 0).copy 0 (.ofList value) value.length⟩
      (Holds link slave server objects errors))
  := by
  rintro x ⟨hobjects, herrors, hsettled⟩
  have hread : (server x.link).objects
      ⟨index, if true = true ∧ (1 : UInt8) < 0 then 1 else 0, true⟩ = value := by
    rw [hobjects, if_neg (fun h => absurd h.2 (by decide)), hvalue]
  have hfuel' : value.length ≤ fuel := by omega
  obtain ⟨x', hread, hobjects', hmailbox', herrors'⟩ := ecxSDOread_value hserves le_rfl index
    0 true size (p.set8 0 0) hsettled hread (by omega) hfuel'
  rw [if_pos (by omega)] at hread herrors'
  exact ⟨_, x', hread, rfl, hobjects'.trans hobjects, herrors'.trans herrors, .of_none hmailbox'⟩

/-- The bits of a PDO are added. -/
theorem readEntriesCA_yields {pdos : List Pdo} (hstored : ∀ pdo ∈ pdos, pdo.index ≠ 0 ∧
    pdo.StoredCA objects) {nu1 : UInt8} {b : Bytes} {buffers : MapBuffers}
    (hbuffers : buffers.PDOassign = b.copy 0 (.ofList (wholeAssign pdos nu1))
      (wholeAssign pdos nu1).length) {k : ℕ} (r : ℕ × MapBuffers) (hk : 1 ≤ k)
    (hlast : k < 1 + pdos.length) :
  Yields (Summed link slave server objects errors pdos buffers k r)
    (readEntriesCA link slave fuel r k)
    (Summed link slave server objects errors pdos buffers (k + 1))
  := by
  rintro x ⟨hbits, hassign, hcomm, hx⟩
  have hmem : pdos.getD (k - 1) ⟨0, []⟩ ∈ pdos := by
    rw [List.getD_eq_getElem?_getD, List.getElem?_eq_getElem (by omega), Option.getD_some]
    apply List.getElem_mem
  obtain ⟨hpos, hfew, nu1', hwhole⟩ := hstored _ hmem
  have hsize : (((pdos.getD (k - 1) ⟨0, []⟩).whole nu1').length : ℤ) ≤ 1026 := by
    rw [Pdo.length_whole]
    omega
  suffices hyields : Yields (Holds link slave server objects errors)
      (readEntriesCA link slave fuel r k)
      (Summed link slave server objects errors pdos buffers (k + 1)) from hyields x hx
  rw [readEntriesCA, hassign, hbuffers, uint16_whole (by omega),
    if_pos (UInt16.pos_iff_ne_zero.mpr hpos)]
  apply (readSdoCA_yields hserves hfuel r.2.PDOdesc hwhole hsize (le_refl _)).bind_exactly
  apply Yields.pure
  intro x' hx'
  refine ⟨?_, hbuffers.symm, hcomm, hx'⟩
  rw [Nat.add_sub_cancel, totalBits_take hk hlast, ← hbits]
  exact addEntries_whole hfew r.1

/-- `ec_readPDOassignCA` adds up the bits of the PDOs that are assigned. -/
theorem ecxReadPDOassignCA_yields {PDOassign : UInt16} {pdos : List Pdo}
    (hassigned : AssignedCA objects PDOassign pdos) (buffers : MapBuffers) :
  Yields (Holds link slave server objects errors)
    (ecxReadPDOassignCA link slave fuel PDOassign buffers)
    (fun r x => r.1 = totalBits pdos ∧ r.2.SMcommtype = buffers.SMcommtype
      ∧ Holds link slave server objects errors x)
  := by
  obtain ⟨hfew, ⟨nu1, hwhole⟩, hstored⟩ := hassigned
  have hlength : pdos.length.toUInt8.toNat = pdos.length := by
    simp
    omega
  have hsize : ((wholeAssign pdos nu1).length : ℤ) ≤ 514 := by
    rw [length_wholeAssign]
    omega
  apply (readSdoCA_yields hserves hfuel buffers.PDOassign hwhole hsize (by omega)).bind_exactly
  dsimp only
  have hn : (buffers.PDOassign.set8 0 0).copy 0 (.ofList (wholeAssign pdos nu1))
      (wholeAssign pdos nu1).length 0 = pdos.length.toUInt8 := n_whole
  simp only [hn, hlength]
  by_cases hnone : 0 < pdos.length.toUInt8
  · rw [if_pos ⟨by decide, hnone⟩]
    generalize hbuffers : MapBuffers.mk buffers.SMcommtype
      ((buffers.PDOassign.set8 0 0).copy 0 (.ofList (wholeAssign pdos nu1))
        (wholeAssign pdos nu1).length) buffers.PDOdesc = buffers'
    have hassign : buffers'.PDOassign = (buffers.PDOassign.set8 0 0).copy 0
        (.ofList (wholeAssign pdos nu1)) (wholeAssign pdos nu1).length := by
      rw [← hbuffers]
    apply Yields.imp (Yields.foldlM_range'
      (I := Summed link slave server objects errors pdos buffers') pdos.length
      fun i r hi hlt => readEntriesCA_yields hserves hfuel hstored hassign r hi hlt)
    · intro x hx
      exact ⟨rfl, rfl, rfl, hx⟩
    · rintro r x ⟨hbits, -, hcomm, hx⟩
      refine ⟨?_, hcomm.trans ?_, hx⟩
      swap
      · rw [← hbuffers]
      rw [hbits, Nat.add_sub_cancel_left, List.take_length]
  · have hnil : pdos = [] := by
      apply List.eq_nil_of_length_eq_zero
      rw [UInt8.not_lt, UInt8.le_iff_toNat_le, hlength] at hnone
      exact Nat.le_zero.mp hnone
    rw [if_neg (fun h => hnone h.2), hnil]
    exact Yields.pure fun x hx => ⟨rfl, rfl, hx⟩

/-- A sync manager is found as the dictionary has it. -/
theorem readSyncManagerCA_yields {nSM nu1 : UInt8} {types : ℕ → UInt8} {pdos : ℕ → List Pdo}
    (hmapped : MappedCA objects nSM types pdos) {map : PdoMap} {b : Bytes} {iSM : ℕ}
    (r : PdoMap × MapBuffers) (hstart : 2 ≤ iSM) (hlast : iSM < nSM.toNat) :
  Yields
    (fun x => r.1 = map.found (smTypeCA types) (typeBugAdd types) (totalBits ∘ pdos) iSM
      ∧ r.2.SMcommtype = b.copy 0 (.ofList (nSM :: nu1 :: (List.range nSM.toNat).map types))
        (nSM :: nu1 :: (List.range nSM.toNat).map types).length
      ∧ Holds link slave server objects errors x)
    (readSyncManagerCA link slave fuel r iSM)
    (fun r x => r.1 = map.found (smTypeCA types) (typeBugAdd types) (totalBits ∘ pdos) (iSM + 1)
      ∧ r.2.SMcommtype = b.copy 0 (.ofList (nSM :: nu1 :: (List.range nSM.toNat).map types))
        (nSM :: nu1 :: (List.range nSM.toNat).map types).length
      ∧ Holds link slave server objects errors x)
  := by
  obtain ⟨map', buffers⟩ := r
  rintro x ⟨rfl, hcomm, hx⟩
  suffices hyields : Yields (Holds link slave server objects errors)
      (readSyncManagerCA link slave fuel
        (map.found (smTypeCA types) (typeBugAdd types) (totalBits ∘ pdos) iSM, buffers) iSM) _ from
      hyields x hx
  dsimp only at hcomm
  rw [readSyncManagerCA]
  simp only [hcomm, type_whole hlast, adjustTypeCA_found hstart]
  rw [found_succ hstart]
  dsimp only
  by_cases hkind : smTypeCA types iSM = 3 ∨ smTypeCA types iSM = 4
  · rw [if_pos (isProcessData_setType.mpr hkind), if_pos (isProcessData_setType.mpr hkind)]
    apply (ecxReadPDOassignCA_yields hserves hfuel (hmapped.assigned iSM hstart hlast hkind)
      buffers).bind
    rintro ⟨Tsize, buffers'⟩
    apply Yields.pure
    rintro x' ⟨rfl, hcomm', hx'⟩
    exact ⟨rfl, hcomm'.trans hcomm, hx'⟩
  · rw [if_neg (mt isProcessData_setType.mp hkind), if_neg (mt isProcessData_setType.mp hkind)]
    exact Yields.pure fun x' hx' => ⟨rfl, hcomm, hx'⟩

/-- `ec_readPDOmapCA` finds the bits of the PDOs that are assigned to outputs and to inputs. -/
theorem ecxReadPDOmapCA_found {nSM : UInt8} {types : ℕ → UInt8} {pdos : ℕ → List Pdo}
    (hmapped : MappedCA objects nSM types pdos) (map : PdoMap) (buffers : MapBuffers) :
  Yields (Holds link slave server objects errors)
    (ecxReadPDOmapCA link slave fuel map buffers)
    (fun r x => r.1 = r.2.1.retVal
      ∧ r.2.1 = map.found (smTypeCA types) (typeBugAdd types) (totalBits ∘ pdos) nSM.toNat
      ∧ Holds link slave server objects errors x)
  := by
  obtain ⟨nu1, hwhole⟩ := hmapped.whole
  have hfew := hmapped.few
  have hsize : ((nSM :: nu1 :: (List.range nSM.toNat).map types).length : ℤ) ≤ 10 := by
    rw [ecMaxsm] at hfew
    simp
    omega
  apply (readSdoCA_yields hserves hfuel buffers.SMcommtype hwhole hsize
    (by omega)).bind_exactly
  dsimp only
  simp only [n_whole]
  by_cases hmore : 2 < nSM.toNat
  · have hmin : min nSM.toNat ecMaxsm = nSM.toNat := Nat.min_eq_left hfew
    have hlast : 2 + (nSM.toNat - 2) = nSM.toNat := by omega
    rw [if_pos ⟨by decide, hmore⟩, hmin, reportMore, if_neg (Nat.not_lt.mpr hfew)]
    apply (Yields.pure_exactly ()).bind_exactly
    apply Yields.bind
    · apply Yields.imp (Yields.foldlM_range' (nSM.toNat - 2) fun iSM r hstart hlt =>
        readSyncManagerCA_yields hserves hfuel hmapped r hstart (by omega))
      · intro x hx
        exact ⟨(found_of_le (Nat.le_refl 2)).symm, rfl, hx⟩
      · intro r x hx
        rw [hlast] at hx
        exact hx
    · rintro ⟨map', buffers'⟩
      apply Yields.pure
      rintro x ⟨hmap, -, hx⟩
      exact ⟨rfl, hmap, hx⟩
  · rw [if_neg (fun h => hmore h.2), found_of_le (by omega)]
    exact Yields.pure fun x hx => ⟨rfl, rfl, hx⟩

/-- A slave with CoE gets the mapping that its dictionary has, whether it is read by complete access
or not. -/
theorem mapCoe_found {nSM : UInt8} {types : ℕ → UInt8} {pdos : ℕ → List Pdo}
    (hmapped : Mapped objects nSM types pdos) {CoEdetails : UInt8}
    (hCA : CoEdetails &&& ectCoedetSdoca ≠ 0 → MappedCA objects nSM types pdos
      ∧ ∀ iSM, iSM = 2 ∨ iSM = 3 → smTypeCA types iSM ≠ 0) (map : PdoMap) (buffers : MapBuffers) :
  Yields (Holds link slave server objects errors)
    (mapCoe link slave fuel CoEdetails map buffers)
    (fun r x => r.1 = map.found (smType types) (typeBugAdd types) (totalBits ∘ pdos)
      (min nSM.toNat ecMaxsm) ∧ Holds link slave server objects errors x)
  := by
  rw [mapCoe]
  split
  case isTrue hdetails =>
    obtain ⟨hmappedCA, htypes⟩ := hCA hdetails
    have hmin : min nSM.toNat ecMaxsm = nSM.toNat := Nat.min_eq_left hmappedCA.few
    have hsame : map.found (smTypeCA types) (typeBugAdd types) (totalBits ∘ pdos) nSM.toNat
        = map.found (smType types) (typeBugAdd types) (totalBits ∘ pdos) nSM.toNat :=
      found_congr fun iSM _ _ => smTypeCA_eq (htypes iSM)
    apply (ecxReadPDOmapCA_found hserves hfuel hmappedCA map buffers).bind
    rintro ⟨rval, map', buffers'⟩ x ⟨-, hmap, hx⟩
    dsimp only at hmap
    subst hmap
    suffices hyields : Yields (Holds link slave server objects errors) _ _ from hyields x hx
    dsimp only
    split
    case isTrue =>
      rw [hmin, ← hsame]
      exact Yields.pure fun x' hx' => ⟨rfl, hx'⟩
    case isFalse =>
      -- nothing was found, and the types that were set are set again
      apply (ecxReadPDOmap_found hserves (by omega) hmapped _).bind_exactly
      rw [hsame, hmin]
      exact Yields.pure fun x' hx' => ⟨found_found, hx'⟩
  case isFalse =>
    apply (ecxReadPDOmap_found hserves (by omega) hmapped map).bind_exactly
    exact Yields.pure fun x' hx' => ⟨rfl, hx'⟩

end Server

/-- The dictionary of a slave with a PDO of 16 bits in each direction. -/
def smallObjects : Objects := .ofList
  [(⟨0x1c00, 0, false⟩, [4]), (⟨0x1c00, 3, false⟩, [3]), (⟨0x1c00, 4, false⟩, [4]),
    (⟨0x1c12, 0, false⟩, [1]), (⟨0x1c12, 1, false⟩, [0x00, 0x16]),
    (⟨0x1600, 0, false⟩, [1]), (⟨0x1600, 1, false⟩, [0x10, 0x00, 0x40, 0x60]),
    (⟨0x1c13, 0, false⟩, [1]), (⟨0x1c13, 1, false⟩, [0x00, 0x1a]),
    (⟨0x1a00, 0, false⟩, [1]), (⟨0x1a00, 1, false⟩, [0x10, 0x00, 0x41, 0x60]),
    (⟨0x1c00, 0, true⟩, [4, 0, 1, 2, 3, 4]),
    (⟨0x1c12, 0, true⟩, [1, 0, 0x00, 0x16]), (⟨0x1600, 0, true⟩, [1, 0, 0x10, 0x00, 0x40, 0x60]),
    (⟨0x1c13, 0, true⟩, [1, 0, 0x00, 0x1a]), (⟨0x1a00, 0, true⟩, [1, 0, 0x10, 0x00, 0x41, 0x60])]

/-- Its PDOs. -/
def smallPdos (iSM : ℕ) : List Pdo :=
  if iSM = 2 then [⟨0x1600, [0x60400010]⟩] else [⟨0x1a00, [0x60410010]⟩]

theorem smallPdos_stored (iSM : ℕ) :
  ∀ pdo ∈ smallPdos iSM, pdo.index ≠ 0 ∧ pdo.Stored smallObjects ∧ pdo.StoredCA smallObjects
  := by
  have hentry : ∀ {i}, i < [(0 : UInt32)].length → i = 0 := Nat.lt_one_iff.mp
  intro pdo hpdo
  rw [smallPdos] at hpdo
  split at hpdo
  all_goals
    rw [List.mem_singleton.mp hpdo]
    refine ⟨by decide, ⟨by decide, by decide, fun i hi => ?_⟩, ⟨by decide, 0, by decide⟩⟩
    rw [hentry hi]
    decide

theorem mapped_small :
  Mapped smallObjects 4 (fun iSM => (iSM + 1).toUInt8) smallPdos
    ∧ MappedCA smallObjects 4 (fun iSM => (iSM + 1).toUInt8) smallPdos
  := by
  have hcases : ∀ {iSM}, 2 ≤ iSM → iSM < 4 → iSM = 2 ∨ iSM = 3 := by omega
  refine ⟨⟨by decide, fun iSM h h' => ?_, fun iSM h h' _ => ?_⟩,
    ⟨by decide, ⟨0, by decide⟩, fun iSM h h' _ => ?_⟩⟩
  · rcases hcases h h' with rfl | rfl <;> decide
  · rcases hcases h h' with rfl | rfl
    · obtain ⟨hpos, hstored, -⟩ := smallPdos_stored 2 _ List.mem_cons_self
      exact .single (by decide) (by decide) hpos hstored
    · obtain ⟨hpos, hstored, -⟩ := smallPdos_stored 3 _ List.mem_cons_self
      exact .single (by decide) (by decide) hpos hstored
  · rcases hcases h h' with rfl | rfl
    · exact ⟨by decide, ⟨0, by decide⟩, fun pdo hpdo =>
        ⟨(smallPdos_stored 2 pdo hpdo).1, (smallPdos_stored 2 pdo hpdo).2.2⟩⟩
    · exact ⟨by decide, ⟨0, by decide⟩, fun pdo hpdo =>
        ⟨(smallPdos_stored 3 pdo hpdo).1, (smallPdos_stored 3 pdo hpdo).2.2⟩⟩

/-- The slave. -/
def smallMapSlave : MbxSlave := ⟨1, 0x1001, 128, 0x1000, 128, 0x1080⟩

/-- What it accepts. -/
def smallMapRules : SdoRules := ⟨128, fun _ _ _ => true, fun _ _ _ => 0⟩

theorem smallMapSlave_serves :
  Serves (SdoSlave.link smallMapRules smallMapSlave) smallMapSlave smallMapRules ecTimeoutrxm
    (@SdoSlave.server 2)
  := SdoSlave.serves _ _ (by decide) (by decide) (by decide) (by decide) (by decide) (by decide)

/-- With complete access, 16 bits of outputs and of inputs are found. -/
theorem mapCoe_found_small :
  ∃ map buffers x, mapCoe (SdoSlave.link smallMapRules smallMapSlave) smallMapSlave 1026
      ectCoedetSdoca
      ⟨0, 0, 0, fun _ => 0, fun _ => 0, fun _ => 0⟩ ⟨fun _ => 0, fun _ => 0, fun _ => 0⟩
      (⟨⟨⟨smallObjects, .idle, none⟩, 0, by decide⟩, 0, .init⟩ : CoeState (SdoSlave 2))
      = some ((map, buffers), x)
    ∧ map.Osize = 16 ∧ map.Isize = 16 ∧ map.SMlength 2 = 2 ∧ map.SMlength 3 = 2
  := by
  have htypes : ∀ iSM, iSM = 2 ∨ iSM = 3 → smTypeCA (fun iSM => (iSM + 1).toUInt8) iSM ≠ 0 := by
    rintro iSM (rfl | rfl) <;> decide
  have hyields : Yields
      (Holds (SdoSlave.link smallMapRules smallMapSlave) smallMapSlave (@SdoSlave.server 2)
        smallObjects .init)
      (mapCoe (SdoSlave.link smallMapRules smallMapSlave) smallMapSlave 1026 ectCoedetSdoca
        ⟨0, 0, 0, fun _ => 0, fun _ => 0, fun _ => 0⟩ ⟨fun _ => 0, fun _ => 0, fun _ => 0⟩) _ :=
    mapCoe_found smallMapSlave_serves (le_refl 1026) mapped_small.1
      (fun _ => ⟨mapped_small.2, htypes⟩) _ _
  obtain ⟨⟨map, buffers⟩, x, hrun, hmap, -⟩ := hyields
    ⟨⟨⟨smallObjects, .idle, none⟩, 0, by decide⟩, 0, .init⟩ ⟨rfl, rfl, .of_none rfl⟩
  refine ⟨map, buffers, x, hrun, ?_⟩
  dsimp only at hmap
  rw [hmap]
  decide

end EthercatMaster
