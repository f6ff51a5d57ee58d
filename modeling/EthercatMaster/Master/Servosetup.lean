import EthercatMaster.Master.Overlay
import EthercatMaster.Soem.PdoAccess

/-!
# The mapping of the drives

`Servosetup` writes to a drive which objects are mapped into its process data.  If the drive accepts
what is written, then `ec_config_map` lays out the process image such that the records of the axes
fit.
-/

namespace EthercatMaster

open Bytes SdoServer

/-! ### Writing objects -/

section Write

variable {σ : Type} (link : Link σ) (slvcnt : MbxSlave) (fuel : ℕ)

/-- Some bytes are written to an object. -/
def writeObject (index : UInt16) (subindex : UInt8) (temp : List UInt8) (Timeout : ℤ) :
    StateT (CoeState σ) Option ℤ :=
  fun x => ecxSDOwrite link slvcnt index subindex false temp.length (.ofList temp) Timeout fuel x

/-- `write8`. -/
def write8 (index : UInt16) (subindex : UInt8) (value : ℤ) : StateT (CoeState σ) Option ℤ :=
  writeObject link slvcnt fuel index subindex [UInt8.ofInt value] ecTimeoutrxm

/-- `write16`. -/
def write16 (index : UInt16) (subindex : UInt8) (value : ℤ) : StateT (CoeState σ) Option ℤ :=
  writeObject link slvcnt fuel index subindex ((ofUInt16 (UInt16.ofInt value)).take 2)
    (ecTimeoutrxm * 20)

/-- `write32`. -/
def write32 (index : UInt16) (subindex : UInt8) (value : ℤ) : StateT (CoeState σ) Option ℤ :=
  writeObject link slvcnt fuel index subindex ((ofUInt32 (UInt32.ofInt value)).take 4)
    (ecTimeoutrxm * 20)

/-- `Servosetup`. -/
def servosetup : StateT (CoeState σ) Option Unit := do
  let _ ← write8 link slvcnt fuel 0x1C12 0 0
  let _ ← write8 link slvcnt fuel 0x1600 0 0
  let _ ← write32 link slvcnt fuel 0x1600 1 0x60400010
  let _ ← write32 link slvcnt fuel 0x1600 2 0x607A0020
  let _ ← write32 link slvcnt fuel 0x1600 3 0x60FF0020
  let _ ← write32 link slvcnt fuel 0x1600 4 0x60600008
  let _ ← write32 link slvcnt fuel 0x1600 5 0x60B80010
  let _ ← write8 link slvcnt fuel 0x1600 0 5
  let _ ← write16 link slvcnt fuel 0x1C12 1 0x1600
  let _ ← write8 link slvcnt fuel 0x1C12 0 1
  let _ ← write8 link slvcnt fuel 0x1C13 0 0
  let _ ← write8 link slvcnt fuel 0x1A00 0 0
  let _ ← write32 link slvcnt fuel 0x1A00 1 0x60410010
  let _ ← write32 link slvcnt fuel 0x1A00 2 0x60640020
  let _ ← write32 link slvcnt fuel 0x1A00 3 0x60610008
  let _ ← write32 link slvcnt fuel 0x1A00 4 0x60B90010
  let _ ← write32 link slvcnt fuel 0x1A00 5 0x60BA0020
  let _ ← write32 link slvcnt fuel 0x1A00 6 0x60FD0020
  let _ ← write8 link slvcnt fuel 0x1A00 0 6
  let _ ← write16 link slvcnt fuel 0x1C13 1 0x1A00
  let _ ← write8 link slvcnt fuel 0x1C13 0 1

/-! ### The configuration of a PDO -/

/-- An entry is written to a PDO. -/
def writeEntry (pdo : Pdo) (_ : Unit) (k : ℕ) : StateT (CoeState σ) Option Unit := do
  let _ ← writeObject link slvcnt fuel pdo.index k.toUInt8
    ((ofUInt32 (pdo.entries.getD (k - 1) 0)).take 4) (ecTimeoutrxm * 20)

/-- How a PDO is configured and assigned to a sync manager. -/
def configurePdo (PDOassign : UInt16) (pdo : Pdo) : StateT (CoeState σ) Option Unit := do
  let _ ← write8 link slvcnt fuel PDOassign 0 0
  let _ ← write8 link slvcnt fuel pdo.index 0 0
  (List.range' 1 pdo.entries.length).foldlM (writeEntry link slvcnt fuel pdo) ()
  let _ ← writeObject link slvcnt fuel pdo.index 0 [pdo.entries.length.toUInt8] ecTimeoutrxm
  let _ ← writeObject link slvcnt fuel PDOassign 1 ((ofUInt16 pdo.index).take 2) (ecTimeoutrxm * 20)
  let _ ← write8 link slvcnt fuel PDOassign 0 1

/-- The PDO of the outputs of an axis. -/
def rxPdo : Pdo := ⟨0x1600, [0x60400010, 0x607A0020, 0x60FF0020, 0x60600008, 0x60B80010]⟩

/-- The PDO of the inputs of an axis. -/
def txPdo : Pdo :=
  ⟨0x1A00, [0x60410010, 0x60640020, 0x60610008, 0x60B90010, 0x60BA0020, 0x60FD0020]⟩

/-- The two PDOs are configured one after the other. -/
theorem servosetup_eq :
  servosetup link slvcnt fuel
    = configurePdo link slvcnt fuel 0x1C12 rxPdo >>= fun _ =>
      configurePdo link slvcnt fuel 0x1C13 txPdo
  := by
  simp [servosetup, configurePdo, rxPdo, txPdo, List.range'_succ, writeEntry, write16, write32,
    write8]
  rfl

end Write

/-! ### Drives that can be configured -/

/-- A drive accepts the configuration of a PDO in the order of the profile: nothing is changed in a
PDO that is assigned or that has entries, and only what is complete is put to use. -/
structure Configurable (rules : SdoRules) (PDOassign : UInt16) (pdo : Pdo) : Prop where
  unassign : ∀ objects, rules.accepts objects ⟨PDOassign, 0, false⟩ [0] = true
  clear : ∀ objects, objects ⟨PDOassign, 0, false⟩ = [0] →
    rules.accepts objects ⟨pdo.index, 0, false⟩ [0] = true
  entry : ∀ objects, objects ⟨PDOassign, 0, false⟩ = [0] → objects ⟨pdo.index, 0, false⟩ = [0] →
    ∀ i < pdo.entries.length, rules.accepts objects ⟨pdo.index, (1 + i).toUInt8, false⟩
      ((ofUInt32 (pdo.entries.getD i 0)).take 4) = true
  count : ∀ objects, objects ⟨PDOassign, 0, false⟩ = [0] →
    (∀ i < pdo.entries.length, objects ⟨pdo.index, (1 + i).toUInt8, false⟩
      = (ofUInt32 (pdo.entries.getD i 0)).take 4) →
    rules.accepts objects ⟨pdo.index, 0, false⟩ [pdo.entries.length.toUInt8] = true
  assign : ∀ objects, objects ⟨PDOassign, 0, false⟩ = [0] → pdo.Stored objects →
    rules.accepts objects ⟨PDOassign, 1, false⟩ ((ofUInt16 pdo.index).take 2) = true
  activate : ∀ objects, objects ⟨PDOassign, 1, false⟩ = (ofUInt16 pdo.index).take 2 →
    pdo.Stored objects → rules.accepts objects ⟨PDOassign, 0, false⟩ [1] = true

/-- A dictionary that differs from another one in two objects only. -/
def Frame (PDOassign index : UInt16) (before objects : Objects) : Prop :=
  ∀ key : SdoKey, key.index ≠ PDOassign → key.index ≠ index → objects key = before key

theorem Frame.refl (PDOassign index : UInt16) (before : Objects) :
  Frame PDOassign index before before
  := fun _ _ _ => rfl

theorem Frame.update {PDOassign index : UInt16} {before objects : Objects} {key : SdoKey}
    {value : List UInt8} (h : Frame PDOassign index before objects)
    (hkey : key.index = PDOassign ∨ key.index = index) :
  Frame PDOassign index before (Function.update objects key value)
  := by
  intro key' hassign hindex
  have hne : key' ≠ key := by
    rintro rfl
    rcases hkey with hkey | hkey
    · exact hassign hkey
    · exact hindex hkey
  rw [Function.update_of_ne hne, h key' hassign hindex]

/-- The entries of a PDO before a subindex have been written. -/
structure Entered (PDOassign : UInt16) (pdo : Pdo) (before : Objects) (k : ℕ) (objects : Objects) :
    Prop where
  unassigned : objects ⟨PDOassign, 0, false⟩ = [0]
  cleared : objects ⟨pdo.index, 0, false⟩ = [0]
  entry : ∀ i < k - 1, objects ⟨pdo.index, (1 + i).toUInt8, false⟩
    = (ofUInt32 (pdo.entries.getD i 0)).take 4
  frame : Frame PDOassign pdo.index before objects

/-- The subindexes of the entries of a PDO are different. -/
theorem toUInt8_ne {i k : ℕ} (hi : i < 256) (hk : k < 256) (h : i ≠ k) :
  i.toUInt8 ≠ k.toUInt8
  := by
  intro heq
  apply h
  have hnat := congrArg UInt8.toNat heq
  simp at hnat
  omega

/-- A key with another index or subindex is not changed. -/
theorem update_other {objects : Objects} {index index' : UInt16} {subindex subindex' : UInt8}
    {value : List UInt8} (h : index' ≠ index ∨ subindex' ≠ subindex) :
  Function.update objects ⟨index, subindex, false⟩ value ⟨index', subindex', false⟩
    = objects ⟨index', subindex', false⟩
  := by
  apply Function.update_of_ne
  rw [Ne, SdoKey.mk.injEq]
  rintro ⟨hindex, hsubindex, -⟩
  rcases h with h | h
  · exact h hindex
  · exact h hsubindex

/-- A PDO stays as it is if another object is written. -/
theorem Pdo.Stored.update {objects : Objects} {pdo : Pdo} (h : pdo.Stored objects)
    {index : UInt16} {subindex : UInt8} {value : List UInt8} (hne : index ≠ pdo.index) :
  pdo.Stored (Function.update objects ⟨index, subindex, false⟩ value)
  := by
  constructor
  case count => rw [update_other (.inl hne.symm), h.count]
  case few => exact h.few
  case entry =>
    intro i hi
    rw [update_other (.inl hne.symm), h.entry i hi]

/-- An entry more has been written. -/
theorem Entered.succ {PDOassign : UInt16} {pdo : Pdo} {before objects : Objects} {k : ℕ}
    (h : Entered PDOassign pdo before k objects) (hne : PDOassign ≠ pdo.index) (hk : 1 ≤ k)
    (hk' : k < 256) :
  Entered PDOassign pdo before (k + 1) (Function.update objects ⟨pdo.index, k.toUInt8, false⟩
    ((ofUInt32 (pdo.entries.getD (k - 1) 0)).take 4))
  := by
  constructor
  case unassigned => rw [update_other (.inl hne), h.unassigned]
  case cleared =>
    have hzero : (0 : UInt8) ≠ k.toUInt8 := toUInt8_ne (i := 0) (by decide) hk' (by omega)
    rw [update_other (.inr hzero), h.cleared]
  case entry =>
    intro i hi
    by_cases hlast : 1 + i = k
    · rw [hlast, Function.update_self, ← hlast, Nat.add_sub_cancel_left]
    · rw [update_other (.inr (toUInt8_ne (by omega) hk' hlast)), h.entry i (by omega)]
  case frame => exact h.frame.update (.inr rfl)

section Server

variable {σ : Type} {link : Link σ} {slvcnt : MbxSlave} {rules : SdoRules} {server : σ → SdoServer}
  {fuel : ℕ} {errors : ErrorList}

variable (link slvcnt server) in
/-- The dictionary of the slave has some property, no error has been added, and a transfer can
begin. -/
structure Has (P : Objects → Prop) (errors : ErrorList) (x : CoeState σ) : Prop where
  objects : P (server x.link).objects
  errors : x.errors = errors
  settled : Settled link slvcnt server x

variable (hserves : Serves link slvcnt rules ecTimeoutrxm server)

include hserves

/-- What a write that is accepted makes of the dictionary. -/
theorem writeObject_yields {P Q : Objects → Prop} {index : UInt16} {subindex : UInt8}
    {temp : List UInt8} {Timeout : ℤ} (hTimeout : ecTimeoutrxm ≤ Timeout) (htemp : 0 < temp.length)
    (htemp' : temp.length ≤ 4) (hfuel : 4 ≤ fuel)
    (haccepts : ∀ objects, P objects → rules.accepts objects ⟨index, subindex, false⟩ temp = true)
    (hQ : ∀ objects, P objects → Q (Function.update objects ⟨index, subindex, false⟩ temp)) :
  Yields (Has link slvcnt server P errors)
    (writeObject link slvcnt fuel index subindex temp Timeout)
    (Exactly 1 (Has link slvcnt server Q errors))
  := by
  rintro x ⟨hP, herrors, hsettled⟩
  have hfuel' : temp.length ≤ fuel := by omega
  obtain ⟨wkc, x', hrun, hwritten⟩ := ecxSDOwrite_written hserves hTimeout index subindex false
    (.ofList temp) hsettled htemp (by omega) hfuel'
  rw [take_ofList, if_neg (fun h => Bool.false_ne_true h.1)] at hwritten
  obtain ⟨rfl, hobjects, herrors'⟩ := hwritten.stored (haccepts _ hP)
  refine ⟨1, x', hrun, rfl, ?_, herrors'.trans herrors, .of_none hwritten.mailbox⟩
  rw [hobjects]
  exact hQ _ hP

/-- A drive that can be configured has the PDO assigned afterwards. -/
theorem configurePdo_yields {PDOassign : UInt16} {pdo : Pdo} {before : Objects}
    (hfuel : 4 ≤ fuel)
    (hdrive : Configurable rules PDOassign pdo) (hne : PDOassign ≠ pdo.index)
    (hpos : pdo.index ≠ 0) (hfew : pdo.entries.length < 256) :
  Yields (Has link slvcnt server (· = before) errors)
    (configurePdo link slvcnt fuel PDOassign pdo)
    (Exactly () (Has link slvcnt server (fun objects => Assigned objects PDOassign [pdo]
      ∧ Frame PDOassign pdo.index before objects) errors))
  := by
  have hunassign : Yields (Has link slvcnt server (· = before) errors)
      (write8 link slvcnt fuel PDOassign 0 0)
      (Exactly 1 (Has link slvcnt server (fun objects => objects ⟨PDOassign, 0, false⟩ = [0]
        ∧ Frame PDOassign pdo.index before objects) errors)) := by
    apply writeObject_yields hserves (by decide) (by decide) (by decide) hfuel
    · exact fun objects _ => hdrive.unassign objects
    · rintro objects rfl
      refine ⟨Function.update_self _ _ _, ?_⟩
      exact (Frame.refl PDOassign pdo.index objects).update (.inl rfl)
  have hclear : Yields (Has link slvcnt server (fun objects => objects ⟨PDOassign, 0, false⟩ = [0]
        ∧ Frame PDOassign pdo.index before objects) errors)
      (write8 link slvcnt fuel pdo.index 0 0)
      (Exactly 1 (Has link slvcnt server (Entered PDOassign pdo before 1) errors)) := by
    apply writeObject_yields hserves (by decide) (by decide) (by decide) hfuel
    · exact fun objects h => hdrive.clear objects h.1
    · rintro objects ⟨hassign, hframe⟩
      constructor
      case unassigned => rw [update_other (.inl hne), hassign]
      case cleared => exact Function.update_self _ _ _
      case entry => exact fun i hi => absurd hi (Nat.not_lt_zero i)
      case frame => exact hframe.update (.inr rfl)
  have hentry : ∀ k (u : Unit), 1 ≤ k → k < 1 + pdo.entries.length →
      Yields (Has link slvcnt server (Entered PDOassign pdo before k) errors)
        (writeEntry link slvcnt fuel pdo u k)
        (fun _ => Has link slvcnt server (Entered PDOassign pdo before (k + 1)) errors) := by
    intro k u hk hlt
    apply Yields.bind_exactly (a := 1)
      (Q := Has link slvcnt server (Entered PDOassign pdo before (k + 1)) errors)
    · apply writeObject_yields hserves (by decide) (by simp) (by simp) hfuel
      · intro objects h
        have haccepts := hdrive.entry objects h.unassigned h.cleared (k - 1) (by omega)
        rwa [show 1 + (k - 1) = k by omega] at haccepts
      · exact fun objects h => h.succ hne hk (by omega)
    · exact Yields.pure fun x hx => hx
  have hcount : Yields
      (Has link slvcnt server (Entered PDOassign pdo before (1 + pdo.entries.length)) errors)
      (writeObject link slvcnt fuel pdo.index 0 [pdo.entries.length.toUInt8] ecTimeoutrxm)
      (Exactly 1 (Has link slvcnt server (fun objects => objects ⟨PDOassign, 0, false⟩ = [0]
        ∧ pdo.Stored objects ∧ Frame PDOassign pdo.index before objects) errors)) := by
    apply writeObject_yields hserves (by decide) (by simp) (by simp) hfuel
    · exact fun objects h => hdrive.count objects h.unassigned fun i hi => h.entry i (by omega)
    · intro objects h
      refine ⟨?_, ⟨Function.update_self _ _ _, hfew, fun i hi => ?_⟩, h.frame.update (.inr rfl)⟩
      · rw [update_other (.inl hne), h.unassigned]
      · have hzero : (1 + i).toUInt8 ≠ 0 := toUInt8_ne (k := 0) (by omega) (by decide) (by omega)
        rw [update_other (.inr hzero), h.entry i (by omega)]
  have hassign : Yields (Has link slvcnt server (fun objects => objects ⟨PDOassign, 0, false⟩ = [0]
        ∧ pdo.Stored objects ∧ Frame PDOassign pdo.index before objects) errors)
      (writeObject link slvcnt fuel PDOassign 1 ((ofUInt16 pdo.index).take 2) (ecTimeoutrxm * 20))
      (Exactly 1 (Has link slvcnt server (fun objects => objects ⟨PDOassign, 1, false⟩
          = (ofUInt16 pdo.index).take 2 ∧ pdo.Stored objects
        ∧ Frame PDOassign pdo.index before objects) errors)) := by
    apply writeObject_yields hserves (by decide) (by simp) (by simp) hfuel
    · exact fun objects h => hdrive.assign objects h.1 h.2.1
    · rintro objects ⟨-, hstored, hframe⟩
      exact ⟨Function.update_self _ _ _, hstored.update hne, hframe.update (.inl rfl)⟩
  have hactivate : Yields (Has link slvcnt server (fun objects => objects ⟨PDOassign, 1, false⟩
          = (ofUInt16 pdo.index).take 2 ∧ pdo.Stored objects
        ∧ Frame PDOassign pdo.index before objects) errors)
      (write8 link slvcnt fuel PDOassign 0 1)
      (Exactly 1 (Has link slvcnt server (fun objects => Assigned objects PDOassign [pdo]
        ∧ Frame PDOassign pdo.index before objects) errors)) := by
    apply writeObject_yields hserves (by decide) (by decide) (by decide) hfuel
    · exact fun objects h => hdrive.activate objects h.1 h.2.1
    · rintro objects ⟨hindex, hstored, hframe⟩
      refine ⟨.single (Function.update_self _ _ _) ?_ hpos (hstored.update hne),
        hframe.update (.inl rfl)⟩
      rw [update_other (.inr (by decide)), hindex]
  apply hunassign.bind_exactly
  apply hclear.bind_exactly
  apply Yields.bind (Yields.foldlM_range' pdo.entries.length hentry)
  intro u
  apply hcount.bind_exactly
  apply hassign.bind_exactly
  apply hactivate.bind_exactly
  apply Yields.pure_exactly

end Server

/-! ### Drives -/

/-- What `ecx_map_coe_soe` sets of a slave. -/
def PdoMap.toSlave (map : PdoMap) (startAddr : ℕ → UInt16) : EcSlave where
  Obits := map.Osize.toUInt16
  Ibits := map.Isize.toUInt16
  SM iSM := ⟨startAddr iSM, map.SMlength iSM, map.SMtype iSM⟩

/-- The types of the sync managers of a drive. -/
def driveTypes (iSM : ℕ) : UInt8 := (iSM + 1).toUInt8

/-- The PDOs of a drive. -/
def drivePdos (iSM : ℕ) : List Pdo :=
  if iSM = 2 then [rxPdo] else [txPdo]

/-- A dictionary has the types of the sync managers. -/
structure HasTypes (objects : Objects) : Prop where
  count : objects ⟨ectSdoSmcommtype, 0, false⟩ = [4]
  outputs : objects ⟨ectSdoSmcommtype, 3, false⟩ = [3]
  inputs : objects ⟨ectSdoSmcommtype, 4, false⟩ = [4]

theorem HasTypes.frame {PDOassign index : UInt16} {before objects : Objects} (h : HasTypes before)
    (hframe : Frame PDOassign index before objects) (hassign : ectSdoSmcommtype ≠ PDOassign)
    (hindex : ectSdoSmcommtype ≠ index) :
  HasTypes objects
  := by
  constructor
  case count => rw [hframe _ hassign hindex, h.count]
  case outputs => rw [hframe _ hassign hindex, h.outputs]
  case inputs => rw [hframe _ hassign hindex, h.inputs]

/-- Assigned PDOs stay assigned if other objects are written. -/
theorem Assigned.frame {A PDOassign index : UInt16} {before objects : Objects} {pdo : Pdo}
    (h : Assigned before A [pdo]) (hframe : Frame PDOassign index before objects)
    (hA : A ≠ PDOassign ∧ A ≠ index) (hpdo : pdo.index ≠ PDOassign ∧ pdo.index ≠ index) :
  Assigned objects A [pdo]
  := by
  obtain ⟨hpos, hstored⟩ := h.stored pdo List.mem_cons_self
  apply Assigned.single
  · rw [hframe _ hA.1 hA.2]
    exact h.count
  · rw [hframe _ hA.1 hA.2]
    exact h.index 0 Nat.one_pos
  · exact hpos
  · constructor
    case count => rw [hframe _ hpdo.1 hpdo.2, hstored.count]
    case few => exact hstored.few
    case entry =>
      intro i hi
      rw [hframe _ hpdo.1 hpdo.2, hstored.entry i hi]

/-- A drive with CoE, but without complete access, that accepts the configuration of its PDOs. -/
structure ServoDrive (σ : Type) where
  link : Link σ
  slvcnt : MbxSlave
  rules : SdoRules
  server : σ → SdoServer
  info : MapSlave
  startAddr : ℕ → UInt16
  serves : Serves link slvcnt rules ecTimeoutrxm server
  unlisted : info.configindex = 0
  coe : info.mbx_proto &&& ectMbxprotCoe ≠ 0
  noAccess : info.CoEdetails &&& ectCoedetSdoca = 0
  outputs : Configurable rules 0x1C12 rxPdo
  inputs : Configurable rules 0x1C13 txPdo

namespace ServoDrive

variable {σ : Type} (drive : ServoDrive σ) {fuel : ℕ} {errors : ErrorList}

/-- The dictionary of a drive has some property, no error has been added, and a transfer can
begin. -/
abbrev Has (P : Objects → Prop) (errors : ErrorList) : CoeState σ → Prop :=
  EthercatMaster.Has drive.link drive.slvcnt drive.server P errors

/-- The mapping of a drive whose hook is `Servosetup`. -/
def mapping (fuel : ℕ) (ecxReadIDNmap : StateT (CoeState σ) Option (ℕ × ℕ)) (map : PdoMap)
    (buffers : MapBuffers) : StateT (CoeState σ) Option (PdoMap × MapBuffers) :=
  ecxMapCoeSoe drive.link drive.slvcnt fuel
    (servosetup drive.link drive.slvcnt fuel) ecxReadIDNmap
    drive.info map buffers

/-- Both PDOs of a drive are assigned. -/
theorem mapped_drive {objects : Objects} (htypes : HasTypes objects)
    (houtputs : Assigned objects 0x1C12 [rxPdo]) (hinputs : Assigned objects 0x1C13 [txPdo]) :
  Mapped objects 4 driveTypes drivePdos
  := by
  have hcases : ∀ {iSM}, 2 ≤ iSM → iSM < min (4 : UInt8).toNat ecMaxsm → iSM = 2 ∨ iSM = 3 := by
    intro iSM h h'
    have hlt : iSM < 4 := h'
    omega
  constructor
  case count => exact htypes.count
  case type =>
    intro iSM h h'
    rcases hcases h h' with rfl | rfl
    · exact htypes.outputs
    · exact htypes.inputs
  case assigned =>
    intro iSM h h' _
    rcases hcases h h' with rfl | rfl
    · exact houtputs
    · exact hinputs

/-- `Servosetup` assigns the PDOs of the axis. -/
theorem servosetup_yields (hfuel : 4 ≤ fuel) :
  Yields (drive.Has HasTypes errors)
    (servosetup drive.link drive.slvcnt fuel)
    (Exactly () (drive.Has (fun objects => Mapped objects 4 driveTypes drivePdos) errors))
  := by
  rw [servosetup_eq]
  rintro x ⟨htypes, herrors, hsettled⟩
  apply Yields.bind_exactly (P := drive.Has (· = (drive.server x.link).objects) errors)
    (configurePdo_yields drive.serves hfuel drive.outputs (by decide) (by decide) (by decide))
    ?_ x ⟨rfl, herrors, hsettled⟩
  rintro y ⟨⟨houtputs, hframe⟩, herrors', hsettled'⟩
  obtain ⟨u, z, hrun, -, ⟨hinputs, hframe'⟩, herrors'', hsettled''⟩ := configurePdo_yields
    drive.serves hfuel drive.inputs (by decide) (by decide) (by decide) y ⟨rfl, herrors', hsettled'⟩
  refine ⟨u, z, hrun, rfl, ?_, herrors'', hsettled''⟩
  apply mapped_drive
  · exact (htypes.frame hframe (by decide) (by decide)).frame hframe' (by decide) (by decide)
  · exact houtputs.frame hframe' ⟨by decide, by decide⟩ ⟨by decide, by decide⟩
  · exact hinputs

/-- What `mapping` finds. -/
def found (map : PdoMap) : PdoMap :=
  map.found (smType driveTypes) (typeBugAdd driveTypes) (totalBits ∘ drivePdos) 4

/-- The sizes and the sync managers of the records. -/
theorem found_eq (map : PdoMap) :
  (found map).Osize = 104 ∧ (found map).Isize = 136
    ∧ (found map).SMtype 2 = 3 ∧ (found map).SMlength 2 = 13
    ∧ (found map).SMtype 3 = 4 ∧ (found map).SMlength 3 = 17
  := ⟨rfl, rfl, rfl, rfl, rfl, rfl⟩

/-- The mapping that is found for a drive. -/
theorem mapping_yields (hfuel : 1026 ≤ fuel)
    (ecxReadIDNmap : StateT (CoeState σ) Option (ℕ × ℕ)) (map : PdoMap)
    (buffers : MapBuffers) :
  Yields (drive.Has HasTypes errors) (drive.mapping fuel ecxReadIDNmap map buffers)
    (fun r x => r.1 = found map ∧ x.errors = errors)
  := by
  apply (drive.servosetup_yields (by omega)).bind_exactly
  rw [if_pos drive.unlisted, if_pos drive.coe]
  apply Yields.bind (Q := fun r x => r.1 = found map ∧ x.errors = errors)
  · rintro x ⟨hmapped, herrors, hsettled⟩
    obtain ⟨r, y, hrun, hmap, hholds⟩ := mapCoe_found drive.serves hfuel hmapped
      (fun hCA => absurd drive.noAccess hCA) map buffers x ⟨rfl, herrors, hsettled⟩
    exact ⟨r, y, hrun, hmap, hholds.errors⟩
  · rintro ⟨map', buffers'⟩ x ⟨rfl, herrors⟩
    suffices hyields : Yields (fun x : CoeState σ => x.errors = errors) _ _ from
      hyields x herrors
    dsimp only
    have hsize : ¬ ((found map).Isize = 0 ∧ (found map).Osize = 0
        ∧ drive.info.mbx_proto &&& ectMbxprotSoe ≠ 0) := by
      rw [(found_eq map).1]
      exact fun h => absurd h.2.1 (by decide)
    rw [if_neg hsize]
    exact Yields.pure fun x hx => ⟨rfl, hx⟩

end ServoDrive

/-! ### The bus of the drives -/

open ServoDrive

/-- The bits of a drive are those of its records. -/
theorem toSlave_bits (map : PdoMap) (startAddr : ℕ → UInt16) :
  ((found map).toSlave startAddr).Obits = 104 ∧ ((found map).toSlave startAddr).Ibits = 136
  := ⟨rfl, rfl⟩

/-- The sync managers of a drive hold its records. -/
theorem toSlave_held (map : PdoMap) (startAddr : ℕ → UInt16) :
  13 ≤ heldBytes ((found map).toSlave startAddr).SM 3 (ecMaxsm - 1)
    ∧ 17 ≤ heldBytes ((found map).toSlave startAddr).SM 4 (ecMaxsm - 1)
  := by
  obtain ⟨-, -, houtput, houtput', hinput, hinput'⟩ := found_eq map
  have htype : (((found map).toSlave startAddr).SM 2).smType = 3 := houtput
  have htype' : (((found map).toSlave startAddr).SM 3).smType = 4 := hinput
  have hlength : (((found map).toSlave startAddr).SM 2).smLength = 13 := houtput'
  have hlength' : (((found map).toSlave startAddr).SM 3).smLength = 17 := hinput'
  constructor
  · refine le_trans ?_ (Finset.single_le_sum (fun _ _ => Nat.zero_le _)
      (Finset.mem_range.mpr (by decide : 2 < ecMaxsm - 1)))
    rw [if_pos htype, hlength]
    decide
  · refine le_trans ?_ (Finset.single_le_sum (fun _ _ => Nat.zero_le _)
      (Finset.mem_range.mpr (by decide : 3 < ecMaxsm - 1)))
    rw [if_pos htype', hlength']
    decide

/-- A bus of drives that have been configured. -/
def configuredBus {slavecount : ℕ} (hcount : 0 < slavecount ∧ slavecount < ecMaxslave)
    (map : ℕ → PdoMap) (startAddr : ℕ → ℕ → UInt16) : MappedBus where
  slavecount := slavecount
  slave n := (found (map n)).toSlave (startAddr n)
  count := hcount
  byteOriented n := by
    obtain ⟨houtputs, hinputs⟩ := toSlave_bits (map n) (startAddr n)
    rw [houtputs, hinputs]
    exact ⟨Or.inr (by decide), Or.inr (by decide)⟩

theorem configuredBus_fits {slavecount : ℕ} (hcount : 0 < slavecount ∧ slavecount < ecMaxslave)
    (map : ℕ → PdoMap) (startAddr : ℕ → ℕ → UInt16) :
  (configuredBus hcount map startAddr).Fits
  := by
  have hbits : ∀ n, ((configuredBus hcount map startAddr).slave n).Obits = 104
      ∧ ((configuredBus hcount map startAddr).slave n).Ibits = 136 :=
    fun n => toSlave_bits (map n) (startAddr n)
  have houtputs : ∀ n, (configuredBus hcount map startAddr).outputSize n = 13 := by
    intro n
    obtain ⟨hO, -⟩ := hbits n
    rw [MappedBus.outputSize_eq, hO]
    · rfl
    · rw [hO]
      decide
    · rw [hO]
      exact (toSlave_held (map n) (startAddr n)).1
  have hinputs : ∀ n, (configuredBus hcount map startAddr).inputSize n = 17 := by
    intro n
    obtain ⟨-, hI⟩ := hbits n
    rw [MappedBus.inputSize_eq, hI]
    · rfl
    · rw [hI]
      decide
    · rw [hI]
      exact (toSlave_held (map n) (startAddr n)).2
  constructor
  case outputs => exact fun n _ => (houtputs n).ge
  case inputs => exact fun n _ => (hinputs n).ge
  case image =>
    have hslaves : (configuredBus hcount map startAddr).slavecount = slavecount := rfl
    have hlast : slavecount < 200 := hcount.2
    simp only [houtputs, hinputs, hslaves, Finset.sum_const, Nat.card_Ico, nsmul_eq_mul,
      Nat.cast_id]
    rw [ioMapSize, ecMaxslave, pdoOutputSize, pdoInputSize]
    omega

/-- Drives that accept the configuration by `Servosetup` get the 104 bits of outputs and 136 bits of
inputs of the records, and are bound as axes whose records are apart from each other. -/
theorem configured_separate {σ : Type} {slavecount : ℕ}
    (hcount : 0 < slavecount ∧ slavecount < ecMaxslave) (drive : ℕ → ServoDrive σ)
    {x : ℕ → CoeState σ} (hx : ∀ n, (drive n).Has HasTypes (x n).errors (x n)) {fuel : ℕ}
    (hfuel : 1026 ≤ fuel) (ecxReadIDNmap : StateT (CoeState σ) Option (ℕ × ℕ)) (map : ℕ → PdoMap)
    (buffers : ℕ → MapBuffers) :
  ∃ b : MappedBus, b.slavecount = slavecount
    ∧ (∀ n, ∃ r y, (drive n).mapping fuel ecxReadIDNmap (map n) (buffers n) (x n) = some (r, y)
      ∧ b.slave n = r.1.toSlave (drive n).startAddr
      ∧ (b.slave n).Obits = 104 ∧ (b.slave n).Ibits = 136
      ∧ y.errors = (x n).errors)
    ∧ b.Separate ∧ ∀ image, b.bind image = true
  := by
  refine ⟨configuredBus hcount map fun n => (drive n).startAddr, rfl, ?_, ?_, ?_⟩
  · intro n
    obtain ⟨r, y, hrun, hmap, herrors⟩ := (drive n).mapping_yields hfuel ecxReadIDNmap (map n)
      (buffers n) (x n) (hx n)
    obtain ⟨houtputs, hinputs⟩ := toSlave_bits (map n) (drive n).startAddr
    refine ⟨r, y, hrun, ?_, houtputs, hinputs, herrors⟩
    rw [hmap]
    rfl
  · exact (configuredBus_fits hcount map _).separate
  · intro image
    rw [MappedBus.bind_iff]
    intro o ho
    cases o with
    | output n => exact (by decide : (104 : UInt16) ≠ 0)
    | input n => exact (by decide : (136 : UInt16) ≠ 0)

/-- A drive that accepts all values, and answers after some reads of its status. -/
def plainDrive : ServoDrive (SdoSlave 2) where
  link := SdoSlave.link smallMapRules smallMapSlave
  slvcnt := smallMapSlave
  rules := smallMapRules
  server := SdoSlave.server
  info := ⟨0, ectMbxprotCoe, 0⟩
  startAddr iSM := (0x1000 + 0x100 * iSM).toUInt16
  serves := smallMapSlave_serves
  unlisted := rfl
  coe := by decide
  noAccess := by decide
  outputs := by constructor <;> intros <;> rfl
  inputs := by constructor <;> intros <;> rfl

/-- The dictionary of a drive before it is configured. -/
def driveObjects : Objects :=
  .ofList [(⟨0x1c00, 0, false⟩, [4]), (⟨0x1c00, 3, false⟩, [3]), (⟨0x1c00, 4, false⟩, [4])]

/-- Two drives are bound as two axes. -/
theorem configured_separate_two :
  ∃ b : MappedBus, b.slavecount = 2
    ∧ (∀ n, ∃ r y, plainDrive.mapping 1026 failure ⟨0, 0, 0, fun _ => 0, fun _ => 0, fun _ => 0⟩
        ⟨fun _ => 0, fun _ => 0, fun _ => 0⟩
        ⟨⟨⟨driveObjects, .idle, none⟩, 0, by decide⟩, 0, .init⟩ = some (r, y)
      ∧ b.slave n = r.1.toSlave plainDrive.startAddr
      ∧ (b.slave n).Obits = 104 ∧ (b.slave n).Ibits = 136
      ∧ y.errors = .init)
    ∧ b.Separate ∧ ∀ image, b.bind image = true
  := by
  apply configured_separate
    (x := fun _ => ⟨⟨⟨driveObjects, .idle, none⟩, 0, by decide⟩, 0, .init⟩)
    (by decide : 0 < 2 ∧ 2 < ecMaxslave) (fun _ => plainDrive) ?_ (le_refl 1026) failure
  intro n
  refine ⟨⟨?_, ?_, ?_⟩, rfl, .of_none rfl⟩
  · decide
  · decide
  · decide

end EthercatMaster
