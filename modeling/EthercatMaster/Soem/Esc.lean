import EthercatMaster.Soem.ConfigMap
import EthercatMaster.Soem.Wire

/-!
# Slave controllers

The controllers of the slaves are hardware.  They are a parameter here: what is known of a
controller in a state, and what it makes of a datagram that passes.  `Esc.Behaves` says what the
master relies on: an FMMU maps logical addresses to the memory of its slave, a command that reads
takes the inputs from there, one that writes brings the outputs there, and the system time of one
slave is handed on to the others.

Between two datagrams a slave may change by itself: its clock runs, and its application takes the
outputs and gives new inputs.  So each slave has a state of its own for each datagram that reaches
it.
-/

namespace EthercatMaster

/-- The controllers of slaves with states in `σ`: the station address, the FMMUs, the memory and the
system time in a state, and what becomes of a datagram and of the state when the datagram passes. -/
structure Esc (σ : Type) where
  configadr : σ → UInt16
  FMMU : σ → List Fmmu
  memory : σ → Bytes
  systemTime : σ → UInt64
  process : Datagram → σ → Datagram × σ

/-- Where an FMMU maps a logical address to, if it is of a type. -/
def Fmmu.place (fmmuType : UInt8) (a : ℕ) (f : Fmmu) : Option ℕ :=
  if f.fmmuType = fmmuType ∧ f.logStart ≤ a ∧ a < f.logStart + f.logLength then
    some (f.physStart.toNat + (a - f.logStart))
  else none

/-- An FMMU that maps whole bytes. -/
def Fmmu.Bytewise (f : Fmmu) : Prop :=
  f.logStartbit = 0 ∧ f.logEndbit = 7

instance (f : Fmmu) : Decidable f.Bytewise :=
  inferInstanceAs (Decidable (_ ∧ _))

/-! ### Datagrams of a cycle -/

/-- The logical address of a datagram. -/
def Datagram.address (d : Datagram) : ℕ :=
  d.ADP.toNat + 65536 * d.ADO.toNat

/-- The logical addresses of a datagram. -/
def Datagram.range (d : Datagram) : Set ℕ :=
  Set.Ico d.address (d.address + d.data.length)

/-- A command that takes inputs from the slaves. -/
def Datagram.Loads (d : Datagram) : Prop :=
  d.com = EcCmdtype.lrd.code ∨ d.com = EcCmdtype.lrw.code

/-- A command that puts outputs into the slaves. -/
def Datagram.Stores (d : Datagram) : Prop :=
  d.com = EcCmdtype.lwr.code ∨ d.com = EcCmdtype.lrw.code

/-- A datagram that hands the system time on. -/
structure Datagram.IsClock (d : Datagram) : Prop where
  com : d.com = EcCmdtype.frmw.code
  ADO : d.ADO = ectRegDcsystime
  length : d.data.length = 8

/-- A datagram as `ec_send_processdata` sends them. -/
def Datagram.IsCyclic (d : Datagram) : Prop :=
  d.Loads ∨ d.Stores ∨ d.IsClock

instance (d : Datagram) : Decidable d.Loads :=
  inferInstanceAs (Decidable (_ ∨ _))

instance (d : Datagram) : Decidable d.Stores :=
  inferInstanceAs (Decidable (_ ∨ _))

/-! ### The controllers -/

namespace Esc

variable {σ : Type} (esc : Esc σ)

/-- Where the inputs of a slave for a logical address are. -/
def input (s : σ) (a : ℕ) : Option ℕ :=
  (esc.FMMU s).findSome? (Fmmu.place inputKind.fmmuType a)

/-- Where the outputs of a slave for a logical address are. -/
def output (s : σ) (a : ℕ) : Option ℕ :=
  (esc.FMMU s).findSome? (Fmmu.place outputKind.fmmuType a)

/-- What the master relies on in the controllers.

A datagram of a cycle keeps its header and its length.  A controller whose FMMUs map whole bytes
puts its inputs into a datagram that loads, and lets the other bytes pass.  A datagram that stores
and has all outputs of the controller brings each of them to its place, if nothing else goes there.
Of a datagram with the system time, the controller with its address makes one with its own system
time at that moment, and the others let the system time pass. -/
structure Behaves : Prop where
  header : ∀ d s, d.IsCyclic → (esc.process d s).1
    = { d with data := (esc.process d s).1.data, wkc := (esc.process d s).1.wkc }
  length : ∀ d s, d.IsCyclic → (esc.process d s).1.data.length = d.data.length
  load : ∀ d s, d.Loads → (∀ f ∈ esc.FMMU s, f.Bytewise) → ∀ i < d.data.length,
    (esc.process d s).1.data.getD i 0
      = (esc.input s (d.address + i)).elim (d.data.getD i 0) (esc.memory s)
  pass : ∀ d s, d.Stores → ¬ d.Loads → (esc.process d s).1.data = d.data
  store : ∀ d s, d.Stores → (∀ f ∈ esc.FMMU s, f.Bytewise) →
    (∀ a, (esc.output s a).isSome = true → a ∈ d.range) →
    ∀ i < d.data.length, ∀ p, esc.output s (d.address + i) = some p →
      (∀ a, esc.output s a = some p → a = d.address + i) →
      esc.memory (esc.process d s).2 p = d.data.getD i 0
  clock : ∀ d s, d.IsClock → esc.configadr s = d.ADP →
    (Bytes.ofList (esc.process d s).1.data).uint64 0 = esc.systemTime s
  handOn : ∀ d s, d.IsClock → esc.configadr s ≠ d.ADP → (esc.process d s).1.data = d.data

/-- A datagram behind slaves, each in its state. -/
def passed {σ : Type} (esc : Esc σ) (states : ℕ → σ) : List ℕ → Datagram → Datagram
  | [], d => d
  | n :: ns, d => esc.passed states ns (esc.process d (states n)).1

/-- The state of a slave when a datagram has passed it, which first passes the slaves before it. -/
def after (states : ℕ → σ) (n : ℕ) (d : Datagram) : σ :=
  (esc.process (esc.passed states (List.range' 1 (n - 1)) d) (states n)).2

/-! ### A datagram passes -/

variable {esc} {states : ℕ → σ} {ns : List ℕ} {n i p : ℕ} {d : Datagram}

/-- A datagram of a cycle stays one. -/
theorem Behaves.isCyclic (h : esc.Behaves) (hd : d.IsCyclic) (s : σ) :
  (esc.process d s).1.IsCyclic
  := by
  have hlength := h.length d s hd
  rw [h.header d s hd]
  refine hd.imp_right fun hd => hd.imp_right fun hclock => ?_
  exact ⟨hclock.com, hclock.ADO, hlength.trans hclock.length⟩

/-- Behind the slaves, a datagram has its header and its length. -/
theorem Behaves.passed_header (h : esc.Behaves) (hd : d.IsCyclic) :
  esc.passed states ns d
      = { d with data := (esc.passed states ns d).data, wkc := (esc.passed states ns d).wkc }
    ∧ (esc.passed states ns d).data.length = d.data.length
  := by
  induction ns generalizing d with
  | nil => exact ⟨rfl, rfl⟩
  | cons m ns ih =>
      obtain ⟨hheader, hlength⟩ := ih (h.isCyclic hd (states m))
      have hfirst := h.header d (states m) hd
      refine ⟨?_, hlength.trans (h.length d _ hd)⟩
      rw [passed]
      generalize (esc.process d (states m)).1 = d₁ at *
      rw [hheader, hfirst]

/-- A slave without an input there lets a byte of process data pass. -/
theorem Behaves.getD_process (h : esc.Behaves) (hd : d.Loads ∨ d.Stores) {s : σ}
    (hbytes : ∀ f ∈ esc.FMMU s, f.Bytewise) (hi : i < d.data.length)
    (hinput : esc.input s (d.address + i) = none) :
  (esc.process d s).1.data.getD i 0 = d.data.getD i 0
  := by
  by_cases hloads : d.Loads
  · rw [h.load d s hloads hbytes i hi, hinput]
    rfl
  · rw [h.pass d s (hd.resolve_left hloads) hloads]

/-- A byte of process data passes all slaves that have no input there. -/
theorem Behaves.getD_passed (h : esc.Behaves) (hd : d.Loads ∨ d.Stores)
    (hbytes : ∀ m ∈ ns, ∀ f ∈ esc.FMMU (states m), f.Bytewise) (hi : i < d.data.length)
    (hinput : ∀ m ∈ ns, esc.input (states m) (d.address + i) = none) :
  (esc.passed states ns d).data.getD i 0 = d.data.getD i 0
  := by
  induction ns generalizing d with
  | nil => rfl
  | cons m ns ih =>
      have hcyclic : d.IsCyclic := hd.imp_right Or.inl
      have hheader := h.header d (states m) hcyclic
      have hlength := h.length d (states m) hcyclic
      have hbyte := h.getD_process hd (hbytes m List.mem_cons_self) hi
        (hinput m List.mem_cons_self)
      rw [passed, ← hbyte]
      generalize (esc.process d (states m)).1 = d₁ at *
      have haddress : d₁.address = d.address := by
        rw [hheader]
        rfl
      apply ih
      · rw [hheader]
        exact hd
      · exact fun k hk => hbytes k (List.mem_cons_of_mem m hk)
      · exact hlength.symm ▸ hi
      · rw [haddress]
        exact fun k hk => hinput k (List.mem_cons_of_mem m hk)

/-- The byte that the only slave with an input there has put in comes back. -/
theorem Behaves.getD_passed_input (h : esc.Behaves) (hd : d.Loads) (hnodup : ns.Nodup)
    (hbytes : ∀ m ∈ ns, ∀ f ∈ esc.FMMU (states m), f.Bytewise) (hi : i < d.data.length)
    (hn : n ∈ ns) (hp : esc.input (states n) (d.address + i) = some p)
    (hothers : ∀ m ∈ ns, m ≠ n → esc.input (states m) (d.address + i) = none) :
  (esc.passed states ns d).data.getD i 0 = esc.memory (states n) p
  := by
  induction ns generalizing d with
  | nil => cases hn
  | cons m ns ih =>
      obtain ⟨hm, hnodup⟩ := List.nodup_cons.mp hnodup
      have hcyclic : d.IsCyclic := Or.inl hd
      have hheader := h.header d (states m) hcyclic
      have hlength := h.length d (states m) hcyclic
      have hload := h.load d (states m) hd (hbytes m List.mem_cons_self) i hi
      have hrest : ∀ k ∈ ns, ∀ f ∈ esc.FMMU (states k), f.Bytewise :=
        fun k hk => hbytes k (List.mem_cons_of_mem m hk)
      rw [passed]
      generalize (esc.process d (states m)).1 = d₁ at *
      have haddress : d₁.address = d.address := by
        rw [hheader]
        rfl
      have hd₁ : d₁.Loads := by
        rw [hheader]
        exact hd
      have hi₁ : i < d₁.data.length := hlength.symm ▸ hi
      rw [← haddress] at hothers hp
      by_cases hself : n = m
      · subst hself
        rw [h.getD_passed (Or.inl hd₁) hrest hi₁, hload, ← haddress, hp]
        · rfl
        · intro k hk
          have hne : k ≠ n := by
            rintro rfl
            exact hm hk
          exact hothers k (List.mem_cons_of_mem n hk) hne
      · exact ih hd₁ hnodup hrest hi₁ ((List.mem_cons.mp hn).resolve_left hself) hp
          fun k hk => hothers k (List.mem_cons_of_mem m hk)

/-- An output that no slave before it touches gets to its place in the memory of its slave. -/
theorem Behaves.memory_after (h : esc.Behaves) (hd : d.Stores)
    (hbytes : ∀ m, 1 ≤ m → m ≤ n → ∀ f ∈ esc.FMMU (states m), f.Bytewise) (hn : 1 ≤ n)
    (hrange : ∀ a, (esc.output (states n) a).isSome = true → a ∈ d.range)
    (hi : i < d.data.length) (hp : esc.output (states n) (d.address + i) = some p)
    (hdistinct : ∀ a, esc.output (states n) a = some p → a = d.address + i)
    (hinput : ∀ m, 1 ≤ m → m < n → esc.input (states m) (d.address + i) = none) :
  esc.memory (esc.after states n d) p = d.data.getD i 0
  := by
  have hbefore : ∀ m ∈ List.range' 1 (n - 1), 1 ≤ m ∧ m < n := by
    intro m hm
    have hmem := List.mem_range'_1.mp hm
    omega
  have hcyclic : d.IsCyclic := Or.inr (Or.inl hd)
  obtain ⟨hheader, hlength⟩ := @h.passed_header _ _ states (List.range' 1 (n - 1)) d hcyclic
  have hbytes' : ∀ m ∈ List.range' 1 (n - 1), ∀ f ∈ esc.FMMU (states m), f.Bytewise :=
    fun m hm => hbytes m (hbefore m hm).1 (hbefore m hm).2.le
  have hbyte := h.getD_passed (Or.inr hd) hbytes' hi
    fun m hm => hinput m (hbefore m hm).1 (hbefore m hm).2
  rw [after, ← hbyte]
  generalize esc.passed states (List.range' 1 (n - 1)) d = d₁ at *
  have haddress : d₁.address = d.address := by
    rw [hheader]
    rfl
  have hrange₁ : d₁.range = d.range := by
    rw [Datagram.range, Datagram.range, haddress, hlength]
  apply h.store d₁ (states n)
  · rw [hheader]
    exact hd
  · exact hbytes n hn le_rfl
  · rw [hrange₁]
    exact hrange
  · exact hlength.symm ▸ hi
  · rw [haddress]
    exact hp
  · rw [haddress]
    exact hdistinct

/-- Slaves with other addresses hand the system time on. -/
theorem Behaves.data_passed (h : esc.Behaves) (hd : d.IsClock)
    (hns : ∀ m ∈ ns, esc.configadr (states m) ≠ d.ADP) :
  (esc.passed states ns d).data = d.data
  := by
  induction ns generalizing d with
  | nil => rfl
  | cons m ns ih =>
      have hcyclic : d.IsCyclic := Or.inr (Or.inr hd)
      have hheader := h.header d (states m) hcyclic
      have hdata := h.handOn d (states m) hd (hns m List.mem_cons_self)
      rw [passed, ← hdata]
      generalize (esc.process d (states m)).1 = d₁ at *
      apply ih
      · rw [hheader]
        exact ⟨hd.com, hd.ADO, (congrArg List.length hdata).trans hd.length⟩
      · rw [hheader]
        exact fun k hk => hns k (List.mem_cons_of_mem m hk)

/-- The system time of the slave that is addressed comes back, as it was when the datagram
passed. -/
theorem Behaves.uint64_passed (h : esc.Behaves) (hd : d.IsClock) (hnodup : ns.Nodup) (hn : n ∈ ns)
    (haddress : esc.configadr (states n) = d.ADP)
    (hunique : ∀ m ∈ ns, m ≠ n → esc.configadr (states m) ≠ d.ADP) :
  (Bytes.ofList (esc.passed states ns d).data).uint64 0 = esc.systemTime (states n)
  := by
  induction ns generalizing d with
  | nil => cases hn
  | cons m ns ih =>
      obtain ⟨hm, hrest⟩ := List.nodup_cons.mp hnodup
      have hcyclic : d.IsCyclic := Or.inr (Or.inr hd)
      have hheader := h.header d (states m) hcyclic
      have hlength := h.length d (states m) hcyclic
      have hclock := h.clock d (states m) hd
      rw [passed]
      generalize (esc.process d (states m)).1 = d₁ at *
      have hADP : d₁.ADP = d.ADP := by
        rw [hheader]
      have hd₁ : d₁.IsClock := by
        rw [hheader]
        exact ⟨hd.com, hd.ADO, hlength.trans hd.length⟩
      rw [← hADP] at haddress hunique
      by_cases hself : n = m
      · subst hself
        rw [h.data_passed hd₁, hclock (haddress.trans hADP)]
        intro k hk
        have hne : k ≠ n := by
          rintro rfl
          exact hm hk
        exact hunique k (List.mem_cons_of_mem n hk) hne
      · exact ih hd₁ hrest ((List.mem_cons.mp hn).resolve_left hself) haddress
          fun k hk => hunique k (List.mem_cons_of_mem m hk)

end Esc

/-! ### Controllers with plain memory -/

/-- A controller whose FMMUs map to plain memory. -/
structure PlainEsc where
  configadr : UInt16
  FMMU : List Fmmu
  memory : Bytes

namespace PlainEsc

variable (s : PlainEsc)

/-- Where FMMUs of a type map a logical address to. -/
def place (fmmuType : UInt8) (a : ℕ) : Option ℕ :=
  s.FMMU.findSome? (Fmmu.place fmmuType a)

/-- The inputs are put into data, from a logical address on. -/
def load (a : ℕ) (data : List UInt8) : List UInt8 :=
  data.mapIdx fun i x => (s.place inputKind.fmmuType (a + i)).elim x s.memory

/-- The outputs are taken from data, from a logical address on. -/
def store (a : ℕ) (data : List UInt8) : Bytes := fun p =>
  ((List.range data.length).find? fun i => s.place outputKind.fmmuType (a + i) = some p).elim
    (s.memory p) fun i => data.getD i 0

/-- A datagram is counted by a controller that maps addresses of it. -/
def counts (fmmuType : UInt8) (d : Datagram) : UInt16 :=
  if (List.range d.data.length).any fun i => (s.place fmmuType (d.address + i)).isSome then 1
  else 0

/-- What becomes of a datagram. -/
def process (d : Datagram) : Datagram × PlainEsc :=
  let read := s.counts inputKind.fmmuType d
  let written := s.counts outputKind.fmmuType d
  if d.com = EcCmdtype.lrd.code then
    ({ d with data := s.load d.address d.data, wkc := d.wkc + read }, s)
  else if d.com = EcCmdtype.lwr.code then
    ({ d with wkc := d.wkc + written }, { s with memory := s.store d.address d.data })
  else if d.com = EcCmdtype.lrw.code then
    ({ d with data := s.load d.address d.data, wkc := d.wkc + read + 2 * written },
      { s with memory := s.store d.address d.data })
  else if d.com = EcCmdtype.frmw.code then
    if s.configadr = d.ADP then
      ({ d with data := s.memory.slice d.ADO.toNat d.data.length, wkc := d.wkc + 1 }, s)
    else
      ({ d with wkc := d.wkc + 1 },
        { s with memory := s.memory.copy d.ADO.toNat (Bytes.ofList d.data) d.data.length })
  else (d, s)

end PlainEsc

/-- Controllers with plain memory, with the system time in its register. -/
def plainEsc : Esc PlainEsc where
  configadr := PlainEsc.configadr
  FMMU := PlainEsc.FMMU
  memory := PlainEsc.memory
  systemTime s := s.memory.uint64 ectRegDcsystime.toNat
  process d s := s.process d

/-- A datagram with process data at a controller with plain memory. -/
theorem PlainEsc.process_eq {d : Datagram} (h : d.Loads ∨ d.Stores) (s : PlainEsc) :
  ∃ wkc, s.process d
    = ({ d with data := if d.Loads then s.load d.address d.data else d.data, wkc := wkc },
      { s with memory := if d.Stores then s.store d.address d.data else s.memory })
  := by
  have hcom : d.com = EcCmdtype.lrd.code ∨ d.com = EcCmdtype.lwr.code
      ∨ d.com = EcCmdtype.lrw.code := by
    rcases h with (h | h) | h | h
    · exact Or.inl h
    · exact Or.inr (Or.inr h)
    · exact Or.inr (Or.inl h)
    · exact Or.inr (Or.inr h)
  rw [process]
  rcases hcom with hcom | hcom | hcom
  · have hloads : d.Loads := Or.inl hcom
    have hstores : ¬ d.Stores := by
      rw [Datagram.Stores, hcom]
      decide
    rw [if_pos hcom, if_pos hloads, if_neg hstores]
    exact ⟨_, rfl⟩
  · have hloads : ¬ d.Loads := by
      rw [Datagram.Loads, hcom]
      decide
    have hstores : d.Stores := Or.inl hcom
    have hne : d.com ≠ EcCmdtype.lrd.code := by
      rw [hcom]
      decide
    rw [if_neg hne, if_pos hcom, if_neg hloads, if_pos hstores]
    exact ⟨_, rfl⟩
  · have hloads : d.Loads := Or.inr hcom
    have hstores : d.Stores := Or.inr hcom
    have hne : d.com ≠ EcCmdtype.lrd.code := by
      rw [hcom]
      decide
    have hne' : d.com ≠ EcCmdtype.lwr.code := by
      rw [hcom]
      decide
    rw [if_neg hne, if_neg hne', if_pos hcom, if_pos hloads, if_pos hstores]
    exact ⟨_, rfl⟩

/-- The datagram with the system time at a controller with plain memory. -/
theorem PlainEsc.process_clock {d : Datagram} (h : d.IsClock) (s : PlainEsc) :
  s.process d = if s.configadr = d.ADP then
      ({ d with data := s.memory.slice d.ADO.toNat d.data.length, wkc := d.wkc + 1 }, s)
    else
      ({ d with wkc := d.wkc + 1 },
        { s with memory := s.memory.copy d.ADO.toNat (Bytes.ofList d.data) d.data.length })
  := by
  have hother : d.com ≠ EcCmdtype.lrd.code ∧ d.com ≠ EcCmdtype.lwr.code
      ∧ d.com ≠ EcCmdtype.lrw.code := by
    rw [h.com]
    decide
  rw [process, if_neg hother.1, if_neg hother.2.1, if_neg hother.2.2, if_pos h.com]

theorem PlainEsc.store_of_mem {s : PlainEsc} {a i p : ℕ} {data : List UInt8}
    (hi : i < data.length) (hp : s.place outputKind.fmmuType (a + i) = some p)
    (hdistinct : ∀ a', s.place outputKind.fmmuType a' = some p → a' = a + i) :
  s.store a data p = data.getD i 0
  := by
  rw [store]
  cases hfind : (List.range data.length).find?
      fun i => decide (s.place outputKind.fmmuType (a + i) = some p) with
  | none =>
      have hnot := List.find?_eq_none.mp hfind i (List.mem_range.mpr hi)
      exact absurd (decide_eq_true hp) hnot
  | some k =>
      have hfound := List.find?_some hfind
      have hk : s.place outputKind.fmmuType (a + k) = some p := of_decide_eq_true hfound
      obtain rfl : k = i := Nat.add_left_cancel (hdistinct _ hk)
      rfl

theorem plainEsc_process (d : Datagram) (s : PlainEsc) :
  plainEsc.process d s = s.process d
  := rfl

/-- Controllers with plain memory behave as the master relies on. -/
theorem plainEsc_behaves : plainEsc.Behaves
  := by
  constructor
  case header =>
    intro d s hd
    rcases or_assoc.mpr hd with hd | hd
    · obtain ⟨wkc, heq⟩ := s.process_eq hd
      rw [plainEsc_process, heq]
    · rw [plainEsc_process, s.process_clock hd]
      split
      · rfl
      · rfl
  case length =>
    intro d s hd
    rcases or_assoc.mpr hd with hd | hd
    · obtain ⟨wkc, heq⟩ := s.process_eq hd
      rw [plainEsc_process, heq]
      dsimp only
      split
      · exact List.length_mapIdx
      · rfl
    · rw [plainEsc_process, s.process_clock hd]
      split
      · exact Bytes.length_slice ..
      · rfl
  case load =>
    intro d s hd _ i hi
    obtain ⟨wkc, heq⟩ := s.process_eq (Or.inl hd)
    have hlength : i < (s.load d.address d.data).length := by
      rw [PlainEsc.load, List.length_mapIdx]
      exact hi
    rw [plainEsc_process, heq]
    dsimp only
    rw [if_pos hd, List.getD_eq_getElem _ _ hlength, List.getD_eq_getElem _ _ hi]
    simp only [PlainEsc.load, List.getElem_mapIdx]
    rfl
  case pass =>
    intro d s hd hnot
    obtain ⟨wkc, heq⟩ := s.process_eq (Or.inr hd)
    rw [plainEsc_process, heq]
    exact if_neg hnot
  case store =>
    intro d s hd _ _ i hi p hp hdistinct
    obtain ⟨wkc, heq⟩ := s.process_eq (Or.inr hd)
    rw [plainEsc_process, heq]
    dsimp only
    rw [if_pos hd]
    exact PlainEsc.store_of_mem hi hp hdistinct
  case clock =>
    intro d s hd haddress
    have hown : s.configadr = d.ADP := haddress
    rw [plainEsc_process, s.process_clock hd, if_pos hown, hd.ADO, hd.length]
    apply Bytes.uint64_of_slice
    apply Bytes.slice_congr
    intro k hk
    rw [Nat.zero_add, Bytes.ofList_slice hk]
  case handOn =>
    intro d s hd haddress
    have hother : s.configadr ≠ d.ADP := haddress
    rw [plainEsc_process, s.process_clock hd, if_neg hother]

end EthercatMaster
