import EthercatMaster.Master.Bringup
import EthercatMaster.Soem.ConfigMap

/-!
# The overlays in the process image

`ethercat_master_axis_pdo_bind` takes the mapped outputs of each slave for a `PDO_Output` and its
mapped inputs for a `PDO_Input`, whatever their sizes are.
-/

namespace EthercatMaster

/-! ### What a record depends on -/

/-- `sizeof(PDO_Output)`. -/
def pdoOutputSize : ℕ := 13

/-- `sizeof(PDO_Input)`. -/
def pdoInputSize : ℕ := 17

/-- `sizeof(IOmap)`. -/
def ioMapSize : ℕ := ecMaxslave * (pdoOutputSize + pdoInputSize)

theorem PdoOutput.ofBytes_congr {b b' : Bytes} (h : ∀ i < pdoOutputSize, b i = b' i) :
  PdoOutput.ofBytes b = PdoOutput.ofBytes b'
  := by
  have hrest : ∀ k ≤ pdoOutputSize, ∀ i < k, b i = b' i :=
    fun k hk i hi => h i (lt_of_lt_of_le hi hk)
  rw [ofBytes, ofBytes, Bytes.uint16_congr (hrest 2 (by decide)),
    Bytes.uint32_congr (hrest 6 (by decide)), Bytes.uint32_congr (hrest 10 (by decide)),
    h 10 (by decide), Bytes.uint16_congr (hrest 13 (by decide))]

theorem PdoInput.ofBytes_congr {b b' : Bytes} (h : ∀ i < pdoInputSize, b i = b' i) :
  PdoInput.ofBytes b = PdoInput.ofBytes b'
  := by
  have hrest : ∀ k ≤ pdoInputSize, ∀ i < k, b i = b' i :=
    fun k hk i hi => h i (lt_of_lt_of_le hi hk)
  rw [ofBytes, ofBytes, Bytes.uint16_congr (hrest 2 (by decide)),
    Bytes.uint32_congr (hrest 6 (by decide)), h 6 (by decide),
    Bytes.uint16_congr (hrest 9 (by decide)), Bytes.uint32_congr (hrest 13 (by decide)),
    Bytes.uint32_congr (hrest 17 (by decide))]

/-! ### Binding -/

theorem bindAxes_fst {inputs : ℕ → Option PdoInput} {outputs : ℕ → Option PdoOutput}
    {slaves : List ℕ} {x : Servos} :
  (bindAxes inputs outputs slaves x).1 = true
    ↔ ∀ n ∈ slaves, (inputs n).isSome = true ∧ (outputs n).isSome = true
  := by
  induction slaves generalizing x with
  | nil => simp [bindAxes]
  | cons n slaves ih =>
      rw [bindAxes, List.forall_mem_cons]
      dsimp only
      cases hinput : inputs n with
      | none => simp
      | some input =>
          cases houtput : outputs n with
          | none => simp
          | some output =>
              dsimp only
              rw [ih]
              simp

theorem ethercatMasterAxisPdoBind_fst {slavecount : ℕ} {inputs : ℕ → Option PdoInput}
    {outputs : ℕ → Option PdoOutput} (h : 0 < slavecount ∧ slavecount < ecMaxslave) :
  (ethercatMasterAxisPdoBind slavecount inputs outputs).1 = true
    ↔ ∀ n, 0 < n ∧ n ≤ slavecount → (inputs n).isSome = true ∧ (outputs n).isSome = true
  := by
  have hcount : ¬ ((slavecount : ℤ) ≤ 0 ∨ (ecMaxslave : ℤ) ≤ slavecount) := by omega
  have hbind := @bindAxes_fst inputs outputs (slavesTo slavecount) Servos.unbound
  simp only [mem_slavesTo] at hbind
  rw [ethercatMasterAxisPdoBind, if_neg hcount, Int.toNat_natCast, ← hbind]
  dsimp only
  split
  case isTrue hbound => exact iff_of_true rfl hbound
  case isFalse hbound => exact iff_of_false Bool.false_ne_true hbound

/-! ### The overlays -/

/-- A bus after its configuration: slaves that are mapped byte by byte. -/
structure MappedBus where
  slavecount : ℕ
  slave : ℕ → EcSlave
  count : 0 < slavecount ∧ slavecount < ecMaxslave
  byteOriented : ∀ n, ByteOriented (slave n).Obits ∧ ByteOriented (slave n).Ibits

/-- A record in the process image: the outputs or the inputs of an axis. -/
inductive Overlay where
  | output (n : ℕ)
  | input (n : ℕ)
deriving DecidableEq

/-- The axis of a record. -/
def Overlay.axis : Overlay → ℕ
  | output n => n
  | input n => n

/-- The size of a record. -/
def Overlay.size : Overlay → ℕ
  | output _ => pdoOutputSize
  | input _ => pdoInputSize

theorem Overlay.size_pos (o : Overlay) :
  0 < o.size
  := by
  cases o with
  | output _ => exact Nat.succ_pos 12
  | input _ => exact Nat.succ_pos 16

/-- The bytes of a record that starts at a position. -/
def Overlay.range (o : Overlay) (start : ℕ) : Set ℕ :=
  Set.Ico start (start + o.size)

namespace MappedBus

variable (b : MappedBus)

/-- The layout of the process image. -/
def layout : IoLayout :=
  ecxConfigMapGroup b.slavecount b.slave

/-- The records of the axes in a process image. -/
def axes (image : Bytes) : Axes :=
  Axes.ofImage image b.slavecount b.layout.inputs.pointer b.layout.outputs.pointer

/-- Whether the axes can be bound. -/
def bind (image : Bytes) : Bool :=
  (ethercatMasterAxisPdoBind b.slavecount (b.axes image).axisInputs (b.axes image).axisOutputs).1

/-- The slave has been numbered. -/
def IsAxis (n : ℕ) : Prop :=
  0 < n ∧ n ≤ b.slavecount

instance (n : ℕ) : Decidable (b.IsAxis n) :=
  inferInstanceAs (Decidable (_ ∧ _))

/-- Where a record starts. -/
def start : Overlay → Option ℕ
  | .output n => b.layout.outputs.pointer n
  | .input n => b.layout.inputs.pointer n

/-- The mapped area of the slave for a record. -/
def area : Overlay → Set ℕ
  | .output n => fmmuArea (b.layout.outputs.FMMU n)
  | .input n => fmmuArea (b.layout.inputs.FMMU n)

/-- The records of the axes are apart from each other, in the process image and in the areas of
their own slaves, and what is written to the outputs of an axis changes no other record. -/
structure Separate : Prop where
  disjoint : ∀ o o', b.IsAxis o.axis → b.IsAxis o'.axis → o ≠ o' →
    ∀ s s', b.start o = some s → b.start o' = some s' → Disjoint (o.range s) (o'.range s')
  inside : ∀ o, b.IsAxis o.axis → ∀ s, b.start o = some s → o.range s ⊆ Set.Ico 0 ioMapSize
  own : ∀ o, b.IsAxis o.axis → ∀ s, b.start o = some s → o.range s ⊆ b.area o
  written : ∀ n, b.IsAxis n → ∀ s, b.start (.output n) = some s → ∀ image image',
    Set.EqOn image image' ((Overlay.output n).range s)ᶜ → ∀ k, b.IsAxis k →
      (b.axes image').axisInputs k = (b.axes image).axisInputs k
        ∧ (k ≠ n → (b.axes image').axisOutputs k = (b.axes image).axisOutputs k)

/-- What the outputs of a slave take. -/
def outputSize (n : ℕ) : ℕ :=
  (b.slave n).outputSize

/-- What the inputs of a slave take. -/
def inputSize (n : ℕ) : ℕ :=
  (b.slave n).inputSize

/-- Where the outputs of a slave start. -/
def outputStart (n : ℕ) : ℕ :=
  offset 0 1 b.outputSize n

/-- Where the inputs of a slave start, behind all outputs. -/
def inputStart (n : ℕ) : ℕ :=
  offset (b.outputStart (b.slavecount + 1)) 1 b.inputSize n

/-- Where the area for a record starts. -/
def areaStart : Overlay → ℕ
  | .output n => b.outputStart n
  | .input n => b.inputStart n

/-- The size of the area for a record. -/
def areaSize : Overlay → ℕ
  | .output n => b.outputSize n
  | .input n => b.inputSize n

/-- The bits of a slave for a record. -/
def bits : Overlay → UInt16
  | .output n => (b.slave n).Obits
  | .input n => (b.slave n).Ibits

variable {b}

/-- The areas have the sizes that were found, if the sync managers hold them. -/
theorem outputSize_eq {n : ℕ} (hbits : (b.slave n).Obits ≠ 0)
    (hheld : mapBytes (b.slave n).Obits ≤ heldBytes (b.slave n).SM 3 (ecMaxsm - 1)) :
  b.outputSize n = mapBytes (b.slave n).Obits
  := mappedSize_eq ((b.byteOriented n).1.resolve_left hbits) hheld

theorem inputSize_eq {n : ℕ} (hbits : (b.slave n).Ibits ≠ 0)
    (hheld : mapBytes (b.slave n).Ibits ≤ heldBytes (b.slave n).SM 4 (ecMaxsm - 1)) :
  b.inputSize n = mapBytes (b.slave n).Ibits
  := mappedSize_eq ((b.byteOriented n).2.resolve_left hbits) hheld

theorem laysOut (b : MappedBus) :
  b.layout.outputs.LaysOut b.slave EcSlave.Obits EcSlave.outputSize 0 1 (b.slavecount + 1)
    ∧ b.layout.inputs.LaysOut b.slave EcSlave.Ibits EcSlave.inputSize
      (b.outputStart (b.slavecount + 1)) 1 (b.slavecount + 1)
  := ecxConfigMapGroup_spec b.slavecount b.byteOriented

/-- A record starts where the area of its slave starts, if the slave is mapped. -/
theorem start_eq {o : Overlay} (ho : b.IsAxis o.axis) :
  b.start o = if b.bits o = 0 then none else some (b.areaStart o)
  := by
  cases o with
  | output n => apply b.laysOut.1.pointer n ho.1 (Nat.lt_succ_of_le ho.2)
  | input n => apply b.laysOut.2.pointer n ho.1 (Nat.lt_succ_of_le ho.2)

theorem area_eq {o : Overlay} (ho : b.IsAxis o.axis) (hbits : b.bits o ≠ 0) :
  b.area o = Set.Ico (b.areaStart o) (b.areaStart o + b.areaSize o)
  := by
  cases o with
  | output n => apply b.laysOut.1.area n ho.1 (Nat.lt_succ_of_le ho.2) hbits
  | input n => apply b.laysOut.2.area n ho.1 (Nat.lt_succ_of_le ho.2) hbits

/-- A record has a place if its slave is mapped. -/
theorem eq_areaStart {o : Overlay} (ho : b.IsAxis o.axis) {s : ℕ} (hs : b.start o = some s) :
  b.bits o ≠ 0 ∧ s = b.areaStart o
  := by
  rw [start_eq ho] at hs
  split at hs
  · cases hs
  · cases hs
    exact ⟨‹_›, rfl⟩

/-- The axes can be bound if all slaves have outputs and inputs. -/
theorem bind_iff (image : Bytes) :
  b.bind image = true ↔ ∀ o : Overlay, b.IsAxis o.axis → b.bits o ≠ 0
  := by
  have hstart : ∀ o : Overlay, b.IsAxis o.axis → ((b.start o).isSome = true ↔ b.bits o ≠ 0) := by
    intro o ho
    rw [start_eq ho]
    split
    case isTrue h => simp [h]
    case isFalse h => simp [h]
  rw [bind, ethercatMasterAxisPdoBind_fst b.count]
  constructor
  · intro h o ho
    apply (hstart o ho).mp
    obtain ⟨hinput, houtput⟩ := h o.axis ho
    cases o with
    | output n =>
        rw [axes, Axes.ofImage, Option.isSome_map] at houtput
        exact houtput
    | input n =>
        rw [axes, Axes.ofImage, Option.isSome_map] at hinput
        exact hinput
  · intro h n hn
    rw [axes, Axes.ofImage]
    dsimp only
    rw [Option.isSome_map, Option.isSome_map]
    constructor
    · apply (hstart (.input n) hn).mpr
      apply h (.input n) hn
    · apply (hstart (.output n) hn).mpr
      apply h (.output n) hn

/-- The outputs of an axis end before all inputs. -/
theorem outputStart_add_le {n k : ℕ} (hn : b.IsAxis n) :
  b.outputStart n + b.outputSize n ≤ b.inputStart k
  := by
  have hend := @Layout.offset_add_le 0 1 n (b.slavecount + 1) b.outputSize hn.1
    (Nat.lt_succ_of_le hn.2)
  apply le_trans hend Layout.start_le_offset

/-- The areas of different records are disjoint. -/
theorem disjoint_areas {o o' : Overlay} (ho : b.IsAxis o.axis) (ho' : b.IsAxis o'.axis)
    (hne : o ≠ o') :
  Disjoint (Set.Ico (b.areaStart o) (b.areaStart o + b.areaSize o))
    (Set.Ico (b.areaStart o') (b.areaStart o' + b.areaSize o'))
  := by
  cases o with
  | output n =>
      cases o' with
      | output k =>
          apply Layout.disjoint_blocks ho.1 ho'.1
          rintro rfl
          apply hne rfl
      | input k =>
          rw [Set.Ico_disjoint_Ico]
          apply min_le_of_left_le
          apply le_max_of_le_right
          apply outputStart_add_le ho
  | input n =>
      cases o' with
      | output k =>
          rw [Set.Ico_disjoint_Ico]
          apply min_le_of_right_le
          apply le_max_of_le_left
          apply outputStart_add_le ho'
      | input k =>
          apply Layout.disjoint_blocks ho.1 ho'.1
          rintro rfl
          apply hne rfl

/-- What is read of a record does not depend on the bytes of another one that is apart. -/
theorem record_of_eqOn (n : ℕ) {t : Set ℕ} {image image' : Bytes}
    (himage : Set.EqOn image image' tᶜ) :
  ((∀ s, b.start (.input n) = some s → Disjoint t ((Overlay.input n).range s)) →
      (b.axes image').axisInputs n = (b.axes image).axisInputs n)
    ∧ ((∀ s, b.start (.output n) = some s → Disjoint t ((Overlay.output n).range s)) →
      (b.axes image').axisOutputs n = (b.axes image).axisOutputs n)
  := by
  have hbyte : ∀ (o : Overlay) (s i : ℕ), Disjoint t (o.range s) → i < o.size →
      image'.drop s i = image.drop s i := by
    intro o s i hdisjoint hi
    symm
    apply himage
    apply Set.disjoint_right.mp hdisjoint
    exact ⟨Nat.le_add_right s i, Nat.add_lt_add_left hi s⟩
  rw [axes, axes, Axes.ofImage, Axes.ofImage]
  dsimp only
  constructor
  · intro hdisjoint
    apply Option.map_congr
    intro s hs
    apply PdoInput.ofBytes_congr
    intro i hi
    apply hbyte (.input n) s i (hdisjoint s hs) hi
  · intro hdisjoint
    apply Option.map_congr
    intro s hs
    apply PdoOutput.ofBytes_congr
    intro i hi
    apply hbyte (.output n) s i (hdisjoint s hs) hi

/-- The areas are large enough, and so is the process image. -/
structure Fits (b : MappedBus) : Prop where
  outputs : ∀ n, b.IsAxis n → pdoOutputSize ≤ b.outputSize n
  inputs : ∀ n, b.IsAxis n → pdoInputSize ≤ b.inputSize n
  image : ∑ n ∈ Finset.Ico 1 (b.slavecount + 1), b.outputSize n
    + ∑ n ∈ Finset.Ico 1 b.slavecount, b.inputSize n + pdoInputSize ≤ ioMapSize

theorem inputStart_slavecount :
  b.inputStart b.slavecount = ∑ n ∈ Finset.Ico 1 (b.slavecount + 1), b.outputSize n
    + ∑ n ∈ Finset.Ico 1 b.slavecount, b.inputSize n
  := by
  rw [inputStart, offset, outputStart, offset, Nat.zero_add]

theorem Fits.size_le (h : b.Fits) {o : Overlay} (ho : b.IsAxis o.axis) :
  o.size ≤ b.areaSize o
  := by
  cases o with
  | output n => apply h.outputs n ho
  | input n => apply h.inputs n ho

/-- Every record ends in the process image. -/
theorem Fits.end_le (h : b.Fits) {o : Overlay} (ho : b.IsAxis o.axis) :
  b.areaStart o + o.size ≤ ioMapSize
  := by
  have himage := h.image
  rw [← inputStart_slavecount] at himage
  have hsize := h.size_le ho
  cases o with
  | output n =>
      have hend := @outputStart_add_le b n b.slavecount ho
      apply le_trans (Nat.add_le_add_left hsize _)
      apply le_trans hend
      apply le_trans (Nat.le_add_right _ _) himage
  | input n =>
      rcases ho.2.lt_or_eq with hn | rfl
      · have hend := @Layout.offset_add_le (b.outputStart (b.slavecount + 1)) 1 n b.slavecount
          b.inputSize ho.1 hn
        apply le_trans (Nat.add_le_add_left hsize _)
        apply le_trans hend
        apply le_trans (Nat.le_add_right _ _) himage
      · exact himage

/-- With areas and a process image that are large enough, the records are apart. -/
theorem Fits.separate (h : b.Fits) :
  b.Separate
  := by
  have hsubset : ∀ o, b.IsAxis o.axis → ∀ s, b.start o = some s →
      o.range s ⊆ Set.Ico (b.areaStart o) (b.areaStart o + b.areaSize o) := by
    intro o ho s hs
    rw [(eq_areaStart ho hs).2]
    apply Set.Ico_subset_Ico_right
    apply Nat.add_le_add_left (h.size_le ho)
  have hdisjoint : ∀ o o', b.IsAxis o.axis → b.IsAxis o'.axis → o ≠ o' →
      ∀ s s', b.start o = some s → b.start o' = some s' →
        Disjoint (o.range s) (o'.range s') := by
    intro o o' ho ho' hne s s' hs hs'
    apply Set.disjoint_of_subset (hsubset o ho s hs) (hsubset o' ho' s' hs')
    apply disjoint_areas ho ho' hne
  constructor
  case disjoint => exact hdisjoint
  case inside =>
    intro o ho s hs
    rw [(eq_areaStart ho hs).2]
    apply Set.Ico_subset_Ico (Nat.zero_le _)
    apply h.end_le ho
  case own =>
    intro o ho s hs
    rw [area_eq ho (eq_areaStart ho hs).1]
    apply hsubset o ho s hs
  case written =>
    intro n hn s hs image image' himage k hk
    obtain ⟨hinput, houtput⟩ := record_of_eqOn k himage
    constructor
    · apply hinput
      intro s' hs'
      apply hdisjoint (.output n) (.input k) hn hk _ s s' hs hs'
      rintro ⟨⟩
    · intro hne
      apply houtput
      intro s' hs'
      apply hdisjoint (.output n) (.output k) hn hk _ s s' hs hs'
      rintro ⟨⟩
      apply hne rfl

/-- The records of bound axes are apart exactly if the area of each is as large as the record and
the process image holds them all. -/
theorem separate_iff (b : MappedBus) :
  (∀ image, b.bind image = true → b.Separate)
    ↔ (∃ n, b.IsAxis n ∧ ((b.slave n).Obits = 0 ∨ (b.slave n).Ibits = 0)) ∨ b.Fits
  := by
  constructor
  · intro h
    by_cases hunmapped : ∃ n, b.IsAxis n ∧ ((b.slave n).Obits = 0 ∨ (b.slave n).Ibits = 0)
    · apply Or.inl hunmapped
    · right
      have hmapped : ∀ o : Overlay, b.IsAxis o.axis → b.bits o ≠ 0 := by
        intro o ho hbits
        apply hunmapped
        refine ⟨o.axis, ho, ?_⟩
        cases o with
        | output n => exact Or.inl hbits
        | input n => exact Or.inr hbits
      have hseparate := h (fun _ => 0) ((bind_iff _).mpr hmapped)
      have hstart : ∀ o : Overlay, b.IsAxis o.axis → b.start o = some (b.areaStart o) := by
        intro o ho
        rw [start_eq ho, if_neg (hmapped o ho)]
      have hsize : ∀ o : Overlay, b.IsAxis o.axis → o.size ≤ b.areaSize o := by
        intro o ho
        have hown := hseparate.own o ho _ (hstart o ho)
        rw [area_eq ho (hmapped o ho)] at hown
        apply (Layout.Ico_subset_iff o.size_pos).mp hown
      constructor
      case outputs =>
        intro n hn
        apply hsize (.output n) hn
      case inputs =>
        intro n hn
        apply hsize (.input n) hn
      case image =>
        have hlast : b.IsAxis b.slavecount := ⟨b.count.1, le_rfl⟩
        have hinside := hseparate.inside (.input b.slavecount) hlast _ (hstart _ hlast)
        rw [← inputStart_slavecount]
        apply ((Set.Ico_subset_Ico_iff _).mp hinside).2
        apply Nat.lt_add_of_pos_right (Overlay.size_pos _)
  · rintro (⟨n, hn, hbits⟩ | hfits) image hbind
    · have hmapped := (bind_iff image).mp hbind
      rcases hbits with hbits | hbits
      · exact absurd hbits (hmapped (.output n) hn)
      · exact absurd hbits (hmapped (.input n) hn)
    · exact hfits.separate

end MappedBus

/-! ### Drives that keep their mapping -/

/-- A drive whose outputs have some number of bytes in sync manager 2, and whose inputs are as
`Servosetup` would have them, in sync manager 3. -/
def driveWith (outputBytes : UInt16) : EcSlave where
  Obits := 8 * outputBytes
  Ibits := 136
  SM := fun n =>
    if n = 2 then ⟨0x1100, outputBytes, 3⟩
    else if n = 3 then ⟨0x1400, 17, 4⟩
    else ⟨0, 0, 0⟩

/-- Two drives that have kept a mapping of eight bytes. -/
def MappedBus.keptMapping : MappedBus where
  slavecount := 2
  slave _ := driveWith 8
  count := by decide
  byteOriented _ := ⟨Or.inr (by decide), Or.inr (by decide)⟩

theorem MappedBus.keptMapping_not_separate :
  ¬ ∀ image, keptMapping.bind image = true → keptMapping.Separate
  := by
  intro h
  have hmapped : ∀ o : Overlay, keptMapping.bits o ≠ 0 := by
    intro o
    cases o with
    | output n => exact (by decide : (driveWith 8).Obits ≠ 0)
    | input n => exact (by decide : (driveWith 8).Ibits ≠ 0)
  have hseparate := h (fun _ => 0) ((bind_iff _).mpr fun o _ => hmapped o)
  have hfirst : keptMapping.start (.output 1) = some 0 := by decide
  have hsecond : keptMapping.start (.output 2) = some 8 := by decide
  have hdisjoint := hseparate.disjoint (.output 1) (.output 2) (by decide) (by decide) (by decide)
    0 8 hfirst hsecond
  have hshared : 8 ∈ (Overlay.output 1).range 0 ∧ 8 ∈ (Overlay.output 2).range 8 := by
    constructor
    · exact ⟨by decide, by decide⟩
    · exact ⟨by decide, by decide⟩
  apply Set.disjoint_left.mp hdisjoint hshared.1 hshared.2

end EthercatMaster
