import EthercatMaster.Master.Overlay
import EthercatMaster.Soem.Esc

/-!
# The FMMUs of the slaves

`ec_config_map` programs the FMMUs of the slaves.  They map to a slave what is in its areas of the
process image, and as the areas are disjoint, no other slave has process data there.
-/

namespace EthercatMaster

/-- An FMMU of a mapping maps whole bytes, and has its type, or none if it has no length. -/
structure Fmmu.IsOf (kind : MappingKind) (f : Fmmu) : Prop where
  type : f.fmmuType = kind.fmmuType ∨ f.fmmuType = 0 ∧ f.logLength = 0
  bytewise : f.Bytewise

/-- The FMMUs of a byte oriented slave. -/
theorem createFmmus_isOf (kind : MappingKind) (SM : ℕ → SyncManager) {bits : UInt16}
    (hbytes : mapBytes bits ≠ 0) (fuel : ℕ) {x : Mapping} (hBitPos : x.BitPos = 0)
    (h : ∀ f ∈ x.FMMU, f.IsOf kind) :
  (createFmmus kind SM bits fuel x).BitPos = 0
    ∧ ∀ f ∈ (createFmmus kind SM bits fuel x).FMMU, f.IsOf kind
  := by
  induction fuel generalizing x with
  | zero => exact ⟨hBitPos, h⟩
  | succ fuel ih =>
      rw [createFmmus]
      split
      case isFalse => exact ⟨hBitPos, h⟩
      case isTrue =>
        have hrange : x.logRange kind SM bits
            = ⟨x.LogAddr, 0, x.size kind SM bits, 7, x.LogAddr + x.size kind SM bits, 0⟩ := by
          rw [x.logRange_of_bytes hbytes, byteRange, hBitPos]
          rfl
        apply ih
        · rw [createFmmu]
          dsimp only
          rw [hrange]
        · intro f hf
          rw [createFmmu, hrange] at hf
          rcases List.mem_append.mp hf with hf | hf
          · exact h f hf
          · rw [List.mem_singleton.mp hf]
            constructor
            case type =>
              dsimp only
              split
              case isTrue => exact Or.inl rfl
              case isFalse hnone => exact Or.inr ⟨rfl, not_not.mp (not_or.mp hnone).2⟩
            case bytewise => exact ⟨rfl, rfl⟩

/-- The FMMUs of a slave come from its mapping. -/
theorem mapSlaves_FMMU {slave : ℕ → EcSlave} {bits : EcSlave → UInt16}
    {create : EcSlave → ℕ → ℕ → Mapping} {P : ℕ → Fmmu → Prop}
    (hcreate : ∀ n, bits (slave n) ≠ 0 → ∀ LogAddr, (create (slave n) LogAddr 0).BitPos = 0
      ∧ ∀ f ∈ (create (slave n) LogAddr 0).FMMU, P n f)
    (ns : List ℕ) {x : MappedSlaves} (hBitPos : x.BitPos = 0) (h : ∀ n, ∀ f ∈ x.FMMU n, P n f) :
  ∀ n, ∀ f ∈ (mapSlaves slave bits create ns x).FMMU n, P n f
  := by
  induction ns generalizing x with
  | nil => exact h
  | cons m ns ih =>
      rw [mapSlaves]
      split
      case isTrue => exact ih hBitPos h
      case isFalse hbits =>
        obtain ⟨hpos, hFMMU⟩ := hcreate m hbits x.LogAddr
        rw [hBitPos]
        apply ih
        · exact hpos
        · intro n f hf
          rw [MappedSlaves.add] at hf
          dsimp only at hf
          by_cases hn : n = m
          · subst hn
            rw [Function.update_self] at hf
            exact hFMMU f hf
          · rw [Function.update_of_ne hn] at hf
            exact h n f hf

theorem MappedSlaves.close_FMMU (x : MappedSlaves) : x.close.FMMU = x.FMMU
  := by
  rw [MappedSlaves.close]
  split
  · rfl
  · rfl

namespace MappedBus

variable {b : MappedBus}

theorem close_BitPos (x : MappedSlaves) : x.close.BitPos = 0
  := by
  rw [MappedSlaves.close]
  split
  case isTrue => rfl
  case isFalse h => exact not_not.mp h

/-- Only mapped slaves have FMMUs, of the type for their direction. -/
theorem FMMU_isOf (b : MappedBus) (n : ℕ) :
  (∀ f ∈ b.layout.outputs.FMMU n, (b.slave n).Obits ≠ 0 ∧ f.IsOf outputKind)
    ∧ ∀ f ∈ b.layout.inputs.FMMU n, (b.slave n).Ibits ≠ 0 ∧ f.IsOf inputKind
  := by
  rw [layout, ecxConfigMapGroup]
  dsimp only
  rw [MappedSlaves.close_FMMU, MappedSlaves.close_FMMU]
  constructor
  · apply mapSlaves_FMMU (P := fun n f => (b.slave n).Obits ≠ 0 ∧ f.IsOf outputKind)
    · intro n hbits LogAddr
      have hcreated := createFmmus_isOf outputKind (b.slave n).SM
        ((b.byteOriented n).1.resolve_left hbits) ecMaxsm (x := .init LogAddr 0) rfl
        fun _ h => absurd h List.not_mem_nil
      exact ⟨hcreated.1, fun f hf => ⟨hbits, hcreated.2 f hf⟩⟩
    · rfl
    · exact fun _ _ h => absurd h List.not_mem_nil
  · apply mapSlaves_FMMU (P := fun n f => (b.slave n).Ibits ≠ 0 ∧ f.IsOf inputKind)
    · intro n hbits LogAddr
      have hcreated := createFmmus_isOf inputKind (b.slave n).SM
        ((b.byteOriented n).2.resolve_left hbits) ecMaxsm (x := .init LogAddr 0) rfl
        fun _ h => absurd h List.not_mem_nil
      exact ⟨hcreated.1, fun f hf => ⟨hbits, hcreated.2 f hf⟩⟩
    · exact close_BitPos _
    · exact fun _ _ h => absurd h List.not_mem_nil

/-- A slave without bits has no area. -/
theorem bits_ne_zero {o : Overlay} {a : ℕ} (ha : a ∈ b.area o) :
  b.bits o ≠ 0
  := by
  cases o with
  | output n =>
      obtain ⟨f, hf, -⟩ := ha
      exact ((b.FMMU_isOf n).1 f hf).1
  | input n =>
      obtain ⟨f, hf, -⟩ := ha
      exact ((b.FMMU_isOf n).2 f hf).1

theorem mem_area_iff {o : Overlay} (ho : b.IsAxis o.axis) (a : ℕ) :
  a ∈ b.area o ↔ b.areaStart o ≤ a ∧ a < b.areaStart o + b.areaSize o
  := by
  by_cases hbits : b.bits o = 0
  · have hsize : b.areaSize o = 0 := by
      cases o with
      | output n => exact (EcSlave.creates_outputs (b.byteOriented n).1).none hbits
      | input n => exact (EcSlave.creates_inputs (b.byteOriented n).2).none hbits
    rw [hsize]
    exact iff_of_false (fun ha => bits_ne_zero ha hbits)
      fun hmem => absurd hmem.2 (Nat.not_lt.mpr hmem.1)
  · rw [area_eq ho hbits]
    rfl

theorem isAxis_of_mem_range' {n : ℕ} (hn : n ∈ List.range' 1 b.slavecount) :
  b.IsAxis n
  := by
  obtain ⟨hge, hlt⟩ := List.mem_range'_1.mp hn
  exact ⟨hge, by omega⟩

theorem mem_range'_of_isAxis {n : ℕ} (hn : b.IsAxis n) :
  n ∈ List.range' 1 b.slavecount
  := List.mem_range'_1.mpr ⟨hn.1, by have := hn.2; omega⟩

variable (b) in
/-- The slaves are programmed with the FMMUs of the layout, and what they map for the outputs of a
slave has places of its own. -/
structure Programs {σ : Type} (esc : Esc σ) (states : ℕ → σ) : Prop where
  FMMU : ∀ n, b.IsAxis n →
    esc.FMMU (states n) = b.layout.outputs.FMMU n ++ b.layout.inputs.FMMU n
  distinct : ∀ n, b.IsAxis n → ∀ a a' p, esc.output (states n) a = some p →
    esc.output (states n) a' = some p → a = a'

end MappedBus

/-- What FMMUs of two kinds map with one of them is the area of that kind. -/
theorem place_isSome_iff {kind other : MappingKind} (hother : other.fmmuType ≠ kind.fmmuType)
    (hzero : kind.fmmuType ≠ 0) {fs gs : List Fmmu} (hfs : ∀ f ∈ fs, f.IsOf kind)
    (hgs : ∀ f ∈ gs, f.IsOf other) (a : ℕ) :
  (∃ f, (f ∈ fs ∨ f ∈ gs) ∧ (f.place kind.fmmuType a).isSome = true) ↔ a ∈ fmmuArea fs
  := by
  have hplace : ∀ f : Fmmu, (f.place kind.fmmuType a).isSome = true
      ↔ f.fmmuType = kind.fmmuType ∧ a ∈ f.range := by
    intro f
    rw [Fmmu.place]
    split
    case isTrue h => exact iff_of_true rfl h
    case isFalse h => exact iff_of_false Bool.false_ne_true h
  constructor
  · rintro ⟨f, hf | hf, hsome⟩
    · exact ⟨f, hf, ((hplace f).mp hsome).2⟩
    · obtain ⟨htype, -⟩ := (hplace f).mp hsome
      rcases (hgs f hf).type with h | ⟨h, -⟩
      · exact absurd (h.symm.trans htype) hother
      · exact absurd (htype.symm.trans h) hzero
  · rintro ⟨f, hf, ha⟩
    refine ⟨f, Or.inl hf, (hplace f).mpr ⟨?_, ha⟩⟩
    rcases (hfs f hf).type with h | ⟨-, h⟩
    · exact h
    · obtain ⟨hge, hlt⟩ := ha
      omega

namespace MappedBus.Programs

variable {σ : Type} {b : MappedBus} {esc : Esc σ} {states : ℕ → σ} {n : ℕ}

/-- The slaves map whole bytes. -/
theorem bytewise (h : b.Programs esc states) (hn : b.IsAxis n) :
  ∀ f ∈ esc.FMMU (states n), f.Bytewise
  := by
  obtain ⟨hout, hin⟩ := b.FMMU_isOf n
  intro f hf
  rw [h.FMMU n hn] at hf
  rcases List.mem_append.mp hf with hf | hf
  · exact (hout f hf).2.bytewise
  · exact (hin f hf).2.bytewise

theorem output_isSome (h : b.Programs esc states) (hn : b.IsAxis n) (a : ℕ) :
  (esc.output (states n) a).isSome = true ↔ a ∈ b.area (.output n)
  := by
  obtain ⟨hout, hin⟩ := b.FMMU_isOf n
  rw [Esc.output, h.FMMU n hn, List.findSome?_isSome_iff]
  simp only [List.mem_append]
  exact place_isSome_iff (by decide) (by decide) (fun f hf => (hout f hf).2)
    (fun f hf => (hin f hf).2) a

theorem input_isSome (h : b.Programs esc states) (hn : b.IsAxis n) (a : ℕ) :
  (esc.input (states n) a).isSome = true ↔ a ∈ b.area (.input n)
  := by
  obtain ⟨hout, hin⟩ := b.FMMU_isOf n
  rw [Esc.input, h.FMMU n hn, List.findSome?_isSome_iff]
  simp only [List.mem_append, or_comm (a := _ ∈ b.layout.outputs.FMMU n)]
  exact place_isSome_iff (by decide) (by decide) (fun f hf => (hin f hf).2)
    (fun f hf => (hout f hf).2) a

/-- Only one slave has inputs at a logical address. -/
theorem input_unique (h : b.Programs esc states) (hn : b.IsAxis n) {k : ℕ} (hk : b.IsAxis k)
    {a : ℕ} (ha : a ∈ b.area (.input n)) (hne : k ≠ n) :
  esc.input (states k) a = none
  := by
  rw [← Option.not_isSome_iff_eq_none]
  intro hsome
  rw [mem_area_iff (o := .input n) hn] at ha
  rw [h.input_isSome hk, mem_area_iff (o := .input k) hk] at hsome
  have hdisjoint := @disjoint_areas b (.input n) (.input k) hn hk
    (fun heq => hne (Overlay.input.inj heq).symm)
  exact Set.disjoint_left.mp hdisjoint ha hsome

/-- Where a slave has outputs, no slave has inputs. -/
theorem input_eq_none (h : b.Programs esc states) (hn : b.IsAxis n) {k : ℕ} (hk : b.IsAxis k)
    {a : ℕ} (ha : a ∈ b.area (.output n)) :
  esc.input (states k) a = none
  := by
  rw [← Option.not_isSome_iff_eq_none]
  intro hsome
  rw [mem_area_iff (o := .output n) hn] at ha
  rw [h.input_isSome hk, mem_area_iff (o := .input k) hk] at hsome
  have hdisjoint := @disjoint_areas b (.output n) (.input k) hn hk
    (fun heq => by cases heq)
  exact Set.disjoint_left.mp hdisjoint ha hsome

end MappedBus.Programs

end EthercatMaster
