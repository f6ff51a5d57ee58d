import EthercatMaster.Soem.Esc
import EthercatMaster.Soem.SentFrames

/-!
# Frames go through the slaves

The frames of a cycle go through all slaves.  What comes back has the inputs of the slaves where the
command reads, and the slaves have the outputs where it writes.  A slave has a state for each
datagram: that of the frame at a position of the stack, and of the datagram at a position in the
frame.
-/

namespace EthercatMaster

/-- The datagrams that the slaves read in the frame at a position of the stack, until one says that
it is the last.  A frame has fewer datagrams than bytes. -/
def Context.wire (c : Context) (pos : ℕ) : List Datagram :=
  c.idxstack.entries[pos]?.elim [] fun entry =>
    datagramsFrom (c.port.txbuf entry.idx) ecMaxecatframe (ethercatFrameHeader + ecElengthsize)

/-- The datagrams that come back in the reply at a position. -/
def Context.returned {σ : Type} (c : Context) (esc : Esc σ) (ns : List ℕ)
    (states : ℕ → ℕ → ℕ → σ) (pos : ℕ) : List Datagram :=
  (c.wire pos).mapIdx fun k d => esc.passed (states pos k) ns d

/-- The state of a slave when a datagram of the frame at a position has passed it. -/
def Context.after {σ : Type} (c : Context) (esc : Esc σ) (states : ℕ → ℕ → ℕ → σ) (pos k n : ℕ) :
    σ :=
  (c.wire pos)[k]?.elim (states pos k n) (esc.after (states pos k) n)

variable {c sent : Context} {com : EcCmdtype} {coms : List EcCmdtype} {entry : IdxEntry}

theorem segmentDatagram_address (hlogstartaddr : c.group.logstartaddr = 0)
    (hdata : entry.data < 4294967296) :
  (c.segmentDatagram com entry).address = entry.data
  := by
  have hlogAdr : (c.group.logstartaddr + entry.data.toUInt32).toNat = entry.data := by
    rw [hlogstartaddr, UInt32.zero_add, Nat.toUInt32_eq, UInt32.toNat_ofNat']
    exact Nat.mod_eq_of_lt hdata
  rw [Context.segmentDatagram]
  generalize c.group.logstartaddr + entry.data.toUInt32 = logAdr at hlogAdr ⊢
  have hshift : (logAdr >>> 16).toNat = logAdr.toNat / 65536 := by
    rw [UInt32.toNat_shiftRight, Nat.shiftRight_eq_div_pow]
    rfl
  rw [Datagram.address, EcCmdtype.datagram]
  dsimp only
  rw [UInt32.toNat_toUInt16, UInt32.toNat_toUInt16, hshift]
  omega

theorem segmentDatagram_getD {i : ℕ} (hi : i < entry.length) :
  (c.segmentDatagram com entry).data.getD i 0
    = if com.reads then 0 else c.image (entry.data + i)
  := by
  rw [Context.segmentDatagram, EcCmdtype.datagram]
  dsimp only
  rw [List.getD_eq_getElem _ _ (by rw [Bytes.length_take]; exact hi)]
  simp only [Bytes.take, List.getElem_map, List.getElem_range, EcCmdtype.sent]
  split
  · rfl
  · rfl

theorem clockDatagram_isClock (c : Context) (idx : ℕ) :
  (c.clockDatagram idx).IsClock
  := ⟨rfl, rfl, EcCmdtype.frmw.datagram_length _ _ _ _ _⟩

/-- What the slaves do with the datagram of a segment. -/
theorem segmentDatagram_loads (hcom : com = .lrd ∨ com = .lwr ∨ com = .lrw) :
  ((c.segmentDatagram com entry).Loads ↔ com ≠ .lwr)
    ∧ ((c.segmentDatagram com entry).Stores ↔ com ≠ .lrd)
  := by
  have hcode : (c.segmentDatagram com entry).com = com.code := rfl
  rw [Datagram.Loads, Datagram.Stores, hcode]
  rcases hcom with rfl | rfl | rfl
  all_goals decide

theorem segmentDatagram_isCyclic (hcom : com = .lrd ∨ com = .lwr ∨ com = .lrw) :
  (c.segmentDatagram com entry).IsCyclic
  := by
  obtain ⟨hloads, hstores⟩ := @segmentDatagram_loads c com entry hcom
  by_cases hwrite : com = .lwr
  · right
    left
    rw [hstores, hwrite]
    decide
  · exact Or.inl (hloads.mpr hwrite)

theorem segmentDatagram_length :
  (c.segmentDatagram com entry).data.length = entry.length
  := com.datagram_length _ _ _ _ _

/-- What has been sent in a cycle, as far as the exchange of the image goes: the wire has the
datagrams of the segments, for inputs and outputs apart or at once. -/
structure Transmits (c : Context) (blocked : Bool) (coms : List EcCmdtype) (sent : Context) :
    Prop where
  kept : c.SentFrom sent
  length : coms.length = sent.idxstack.entries.length
  commands : ∀ com ∈ coms, if blocked then com = .lrd ∨ com = .lwr else com = .lrw
  wire : ∀ pos entry com, sent.idxstack.entries[pos]? = some entry → coms[pos]? = some com →
    sent.wire pos = c.sentDatagrams com pos entry
  data : ∀ entry ∈ sent.idxstack.entries, entry.data < 4294967296
  logstartaddr : c.group.logstartaddr = 0
  clock : c.group.hasdc = true → ∀ entry, sent.idxstack.entries[0]? = some entry →
    entry.length = sent.DCl ∧ sent.DCtO = clockOffset entry.length

/-- The logical addresses in the frames before a position whose commands satisfy a condition. -/
def Context.range (sent : Context) (coms : List EcCmdtype) (P : EcCmdtype → Prop) (pos : ℕ) :
    Set ℕ :=
  {a | ∃ pos' < pos, ∃ entry com, sent.idxstack.entries[pos']? = some entry
    ∧ coms[pos']? = some com ∧ P com ∧ a ∈ Set.Ico entry.data (entry.data + entry.length)}

theorem Context.range_succ {P : EcCmdtype → Prop} [DecidablePred P] {pos : ℕ}
    (hentry : sent.idxstack.entries[pos]? = some entry) (hcom : coms[pos]? = some com) :
  sent.range coms P (pos + 1)
    = if P com then sent.range coms P pos ∪ Set.Ico entry.data (entry.data + entry.length)
      else sent.range coms P pos
  := by
  ext a
  have hiff : a ∈ sent.range coms P (pos + 1)
      ↔ a ∈ sent.range coms P pos ∨ P com ∧ a ∈ Set.Ico entry.data (entry.data + entry.length) := by
    constructor
    · rintro ⟨pos', hpos', entry', com', hentry', hcom', hP, ha⟩
      rcases Nat.lt_succ_iff_lt_or_eq.mp hpos' with hlt | rfl
      · exact Or.inl ⟨pos', hlt, entry', com', hentry', hcom', hP, ha⟩
      · cases hentry.symm.trans hentry'
        cases hcom.symm.trans hcom'
        exact Or.inr ⟨hP, ha⟩
    · rintro (⟨pos', hpos', h⟩ | ⟨hP, ha⟩)
      · exact ⟨pos', Nat.lt_succ_of_lt hpos', h⟩
      · exact ⟨pos, Nat.lt_succ_self pos, entry, com, hentry, hcom, hP, ha⟩
  rw [hiff]
  split
  case isTrue hP => exact or_congr_right (and_iff_right hP)
  case isFalse hP => exact or_iff_left fun h => hP h.1

namespace Transmits

variable {blocked : Bool}

theorem com_mem (h : Transmits c blocked coms sent) {pos : ℕ} (hcom : coms[pos]? = some com) :
  com = .lrd ∨ com = .lwr ∨ com = .lrw
  := by
  have hmem := h.commands com (List.mem_of_getElem? hcom)
  split at hmem
  · exact hmem.imp_right Or.inl
  · exact Or.inr (Or.inr hmem)

/-- There is a command for each place of the stack. -/
theorem exists_com (h : Transmits c blocked coms sent) {pos : ℕ}
    (hentry : sent.idxstack.entries[pos]? = some entry) :
  ∃ com, coms[pos]? = some com
  := by
  obtain ⟨hlt, -⟩ := List.getElem?_eq_some_iff.mp hentry
  exact ⟨_, List.getElem?_eq_getElem (h.length.symm ▸ hlt)⟩

/-- What comes back at a position: the datagram of the segment and, in the first frame with
distributed clocks, that of the system time. -/
theorem returned {σ : Type} (h : Transmits c blocked coms sent) (esc : Esc σ) (ns : List ℕ)
    (states : ℕ → ℕ → ℕ → σ) {pos : ℕ} (hentry : sent.idxstack.entries[pos]? = some entry)
    (hcom : coms[pos]? = some com) :
  sent.returned esc ns states pos = esc.passed (states pos 0) ns (c.segmentDatagram com entry)
    :: if c.group.hasdc = true ∧ pos = 0 then
        [esc.passed (states pos 1) ns (c.clockDatagram entry.idx)]
      else []
  := by
  rw [Context.returned, h.wire pos entry com hentry hcom, Context.sentDatagrams, List.mapIdx_cons]
  congr 1
  split
  · rfl
  · rfl

/-- The state of a slave behind the datagram of a segment. -/
theorem after {σ : Type} (h : Transmits c blocked coms sent) (esc : Esc σ)
    (states : ℕ → ℕ → ℕ → σ) {pos : ℕ} (hentry : sent.idxstack.entries[pos]? = some entry)
    (hcom : coms[pos]? = some com) (n : ℕ) :
  sent.after esc states pos 0 n = esc.after (states pos 0) n (c.segmentDatagram com entry)
  := by
  rw [Context.after, h.wire pos entry com hentry hcom]
  rfl

end Transmits

end EthercatMaster
