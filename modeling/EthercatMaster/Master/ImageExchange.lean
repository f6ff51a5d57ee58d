import EthercatMaster.Master.WorkingCounter
import EthercatMaster.Soem.EscMapping
import EthercatMaster.Soem.Passing

/-!
# The exchange of the process image

In a cycle the frames go through all slaves and come back.  When the frame with the area of a slave
passes it, the outputs in the process image get to the places in its memory where `ec_config_map`
has mapped them, and the inputs that are in its memory at that moment get into the process image.
-/

namespace EthercatMaster

variable {c sent : Context} {com : EcCmdtype} {coms : List EcCmdtype} {entry : IdxEntry}

/-! ### The replies are received -/

/-- What becomes of the image with the reply in a receive buffer. -/
theorem receiveReply_image {x : ReceiveState} {wkc2 : ℤ} (hwkc2 : ecNoframe < wkc2)
    (hcom : com = .lrd ∨ com = .lwr ∨ com = .lrw)
    (h : x.context.port.rxbuf entry.idx ecCmdoffset = com.code)
    (hlength : x.first = true → x.context.DCl = entry.length) :
  (receiveReply entry wkc2 x).context.image
    = if com = .lwr then x.context.image
      else x.context.image.copy entry.data
        ((x.context.port.rxbuf entry.idx).drop ecHeadersize) entry.length
  := by
  rw [receiveReply, if_pos hwkc2, h]
  by_cases hwrite : com = .lwr
  · subst hwrite
    rw [if_neg (by decide), if_pos rfl, if_pos rfl, receiveWrite]
    split
    · rfl
    · rfl
  · have hread : com.code = EcCmdtype.lrd.code ∨ com.code = EcCmdtype.lrw.code := by
      rcases hcom with rfl | rfl | rfl
      · exact Or.inl rfl
      · exact absurd rfl hwrite
      · exact Or.inr rfl
    rw [if_pos hread, if_neg hwrite, receiveRead]
    split
    case isTrue hfirst => rw [hlength hfirst]
    case isFalse => rfl

theorem HasDatagram.getD {frame : Bytes} {start : ℕ} {follows : Bool} {d : Datagram}
    (h : HasDatagram frame start follows d) {i : ℕ} (hi : i < d.data.length) :
  d.data.getD i 0 = frame (start + 10 + i)
  := by
  have hslice : i < (frame.slice (start + 10) d.data.length).length := by
    rw [Bytes.length_slice]
    exact hi
  have hdata := congrArg (fun l => l.getD i 0) h.data
  rw [← hdata, List.getD_eq_getElem _ _ hslice]
  simp only [Bytes.slice, Bytes.take, List.getElem_map, List.getElem_range, Bytes.drop]

section Receive

variable {σ : Type} {esc : Esc σ} {states : ℕ → ℕ → ℕ → σ} {ns : List ℕ} {waits : ℕ → Wait}
  {replies : ℕ → List UInt8} {blocked : Bool}

/-- The logical address of a frame is where its data are in the process image. -/
theorem Transmits.address (h : Transmits c blocked coms sent) {pos : ℕ}
    (hentry : sent.idxstack.entries[pos]? = some entry) (com : EcCmdtype) :
  (c.segmentDatagram com entry).address = entry.data
  := segmentDatagram_address h.logstartaddr (h.data entry (List.mem_of_getElem? hentry))

/-- What the reply at a position has: its command, and the data behind the slaves. -/
theorem Transmits.reply (h : Transmits c blocked coms sent) (hesc : esc.Behaves) {frame : Bytes}
    {pos : ℕ} (hentry : sent.idxstack.entries[pos]? = some entry) (hcom : coms[pos]? = some com)
    (hframe : HasDatagrams frame ecElengthsize (sent.returned esc ns states pos)) :
  frame ecCmdoffset = com.code
    ∧ ∀ i < entry.length, frame (ecHeadersize + i)
      = (esc.passed (states pos 0) ns (c.segmentDatagram com entry)).data.getD i 0
  := by
  have hcyclic := @segmentDatagram_isCyclic c com entry (h.com_mem hcom)
  obtain ⟨hheader, hlength⟩ := @hesc.passed_header _ _ (states pos 0) ns _ hcyclic
  rw [h.returned esc ns states hentry hcom] at hframe
  obtain ⟨hhas, -⟩ := hframe
  constructor
  · refine hhas.com.trans ?_
    rw [hheader]
    rfl
  · intro i hi
    rw [hhas.getD (hlength.symm ▸ segmentDatagram_length.symm ▸ hi)]
    rfl

/-- Before a position of the receive loop, the image has what came back so far. -/
theorem Transmits.receiveBefore_image (h : Transmits c blocked coms sent) (hesc : esc.Behaves)
    (hreplied : AllReplied waits sent replies)
    (hreturned : ∀ pos < sent.idxstack.entries.length,
      HasDatagrams (payload (replies pos)) ecElengthsize (sent.returned esc ns states pos))
    (hapart : ApartEntries sent.idxstack.entries) {pos : ℕ}
    (hpos : pos ≤ sent.idxstack.entries.length) (a : ℕ) :
  (∀ pos' < pos, ∀ entry com, sent.idxstack.entries[pos']? = some entry → coms[pos']? = some com →
      com ≠ .lwr → a ∈ Set.Ico entry.data (entry.data + entry.length) →
      (receiveBefore waits sent pos).context.image a
        = (esc.passed (states pos' 0) ns (c.segmentDatagram com entry)).data.getD
          (a - entry.data) 0)
    ∧ (a ∉ sent.range coms (· ≠ .lwr) pos →
      (receiveBefore waits sent pos).context.image a = c.image a)
  := by
  induction pos with
  | zero =>
      refine ⟨fun pos' hpos' => absurd hpos' (Nat.not_lt_zero pos'), fun _ => ?_⟩
      exact congrFun h.kept.image a
  | succ pos ih =>
      have hle := Nat.le_of_succ_le hpos
      have hentry : sent.idxstack.entries[pos]? = some sent.idxstack.entries[pos] :=
        List.getElem?_eq_getElem hpos
      obtain ⟨com, hcom⟩ := h.exists_com hentry
      obtain ⟨hcode, hread⟩ := h.reply hesc hentry hcom (hreturned pos hpos)
      obtain ⟨hDCl, hfirst, -, -⟩ := hreplied.receiveBefore
        (fun hdc entry hentry => (h.clock (h.kept.group ▸ hdc) entry hentry).1) hle
      obtain ⟨hrcvd, hbytes⟩ := hreplied.received pos _ hentry
      have hfield := hreplied.wkc_le pos _ hentry
      have hlength : (receiveBefore waits sent pos).first = true →
          sent.DCl = sent.idxstack.entries[pos].length := by
        intro htrue
        obtain ⟨hdc, hzero⟩ := hfirst.mp htrue
        exact (h.clock (h.kept.group ▸ hdc) _ (hzero ▸ hentry)).1.symm
      rw [Context.range_succ hentry hcom, receiveBefore_succ hentry]
      specialize ih hle
      generalize hlast : sent.idxstack.entries[pos] = entry at *
      rw [receiveEntry]
      dsimp only
      rw [Port.wait_fst, hrcvd]
      generalize ((receiveBefore waits sent pos).context.port.wait entry.idx (waits pos)).2 = port
        at *
      generalize receiveBefore waits sent pos = x at *
      have hheader : ecHeadersize = 12 := rfl
      have hcmd : port.rxbuf entry.idx ecCmdoffset = com.code := by
        rw [← hcode]
        exact hbytes ecCmdoffset ((by decide : ecCmdoffset < ecHeadersize).trans_le (by omega))
      rw [receiveReply_image (x := { x with context := { x.context with port := port } })
        (by decide : ecNoframe < BufStat.rcvd.toInt) (h.com_mem hcom) hcmd
        (fun htrue => hDCl.trans (hlength htrue))]
      by_cases hwrite : com = .lwr
      · rw [if_pos hwrite, if_neg (not_not.mpr hwrite)]
        refine ⟨?_, ih.2⟩
        intro pos' hpos' entry' com' hentry' hcom' hread' hmem'
        have hne : pos' ≠ pos := by
          rintro rfl
          rw [hcom, Option.some.injEq] at hcom'
          exact hread' (hcom' ▸ hwrite)
        exact ih.1 pos' (by omega) entry' com' hentry' hcom' hread' hmem'
      · rw [if_neg hwrite, if_pos hwrite]
        by_cases hmem : a ∈ Set.Ico entry.data (entry.data + entry.length)
        · refine ⟨?_, fun hnot => absurd (Set.mem_union_right _ hmem) hnot⟩
          intro pos' hpos' entry' com' hentry' hcom' _ hmem'
          -- no other frame holds the address
          obtain rfl := hapart.eq hentry' hentry hmem' hmem
          rw [hentry, Option.some.injEq] at hentry'
          rw [hcom, Option.some.injEq] at hcom'
          subst hentry' hcom'
          obtain ⟨i, rfl⟩ := Nat.exists_eq_add_of_le hmem.1
          have hi : i < entry.length := by
            have := hmem.2
            omega
          rw [Bytes.copy_of_mem hmem.1 hmem.2, Nat.add_sub_cancel_left, ← hread i hi]
          exact hbytes _ (by omega)
        · rw [Bytes.copy_of_not_mem hmem]
          constructor
          · intro pos' hpos' entry' com' hentry' hcom' hread' hmem'
            have hne : pos' ≠ pos := by
              rintro rfl
              rw [hentry, Option.some.injEq] at hentry'
              exact hmem (hentry' ▸ hmem')
            exact ih.1 pos' (by omega) entry' com' hentry' hcom' hread' hmem'
          · exact fun hnot => ih.2 fun hbefore => hnot (Or.inl hbefore)

end Receive

/-! ### The cycle -/

namespace MappedBus

variable {b : MappedBus}

/-- What the frames of a cycle cover: the area of a slave is in one frame, with a command that
stores or loads. -/
structure Covers (b : MappedBus) (blocked : Bool) (coms : List EcCmdtype) (sent : Context) :
    Prop where
  commands : ∀ com ∈ coms, if blocked then com = .lrd ∨ com = .lwr else com = .lrw
  data : ∀ entry ∈ sent.idxstack.entries,
    entry.data + entry.length ≤ b.inputStart (b.slavecount + 1)
  outputs : ∀ n, b.IsAxis n → (b.area (.output n)).Nonempty →
    ∃ (pos : ℕ) (entry : IdxEntry) (com : EcCmdtype),
      sent.idxstack.entries[pos]? = some entry ∧ coms[pos]? = some com ∧ com ≠ .lrd
        ∧ b.area (.output n) ⊆ Set.Ico entry.data (entry.data + entry.length)
  inputs : ∀ n, b.IsAxis n → (b.area (.input n)).Nonempty →
    ∃ (pos : ℕ) (entry : IdxEntry) (com : EcCmdtype),
      sent.idxstack.entries[pos]? = some entry ∧ coms[pos]? = some com ∧ com ≠ .lwr
        ∧ b.area (.input n) ⊆ Set.Ico entry.data (entry.data + entry.length)
  apart : ApartEntries sent.idxstack.entries
  onlyInputs : blocked = true → ∀ a ∈ sent.range coms (· ≠ .lwr) sent.idxstack.entries.length,
    b.inputStart 1 ≤ a ∧ a < b.inputStart (b.slavecount + 1)

/-- Where the frames with a command of a cycle lie, if outputs and inputs must be apart. -/
theorem Commands.sides {coms : List EcCmdtype} {entries : List IdxEntry}
    (h : b.Commands true entries coms) {pos : ℕ} {entry : IdxEntry} {com : EcCmdtype}
    (hentry : entries[pos]? = some entry) (hcom : coms[pos]? = some com) :
  (com = .lrd ∧ b.inputStart 1 ≤ entry.data
      ∧ entry.data + entry.length ≤ b.inputStart (b.slavecount + 1))
    ∨ (com = .lwr ∧ entry.data + entry.length ≤ b.inputStart 1)
  := by
  rw [Commands, if_pos rfl] at h
  obtain ⟨inputs, outputs, rfl, rfl, hinputs, houtputs⟩ := h
  by_cases hpos : pos < inputs.length
  · left
    rw [List.getElem?_append_left hpos] at hentry
    rw [List.getElem?_append_left (by rw [List.length_replicate]; exact hpos)] at hcom
    exact ⟨List.eq_of_mem_replicate (List.mem_of_getElem? hcom),
      hinputs.mem.2 entry (List.mem_of_getElem? hentry)⟩
  · right
    rw [List.getElem?_append_right (by omega)] at hentry
    rw [List.getElem?_append_right (by rw [List.length_replicate]; omega)] at hcom
    exact ⟨List.eq_of_mem_replicate (List.mem_of_getElem? hcom),
      (houtputs.mem.2 entry (List.mem_of_getElem? hentry)).2⟩

theorem Commands.apart {blocked : Bool} {coms : List EcCmdtype} {entries : List IdxEntry}
    (h : b.Commands blocked entries coms) :
  ApartEntries entries
  := by
  cases blocked with
  | true =>
      rw [Commands, if_pos rfl] at h
      obtain ⟨inputs, outputs, rfl, -, hinputs, houtputs⟩ := h
      apply List.pairwise_append.mpr
      refine ⟨hinputs.apart, houtputs.apart, ?_⟩
      intro input hinput output houtput
      obtain ⟨hge, -⟩ := hinputs.mem.2 input hinput
      obtain ⟨-, hle⟩ := houtputs.mem.2 output houtput
      apply Set.Ico_disjoint_Ico.mpr
      omega
  | false =>
      rw [Commands, if_neg Bool.false_ne_true] at h
      exact h.2.apart

theorem Commands.data_le {blocked : Bool} {coms : List EcCmdtype} {entries : List IdxEntry}
    (h : b.Commands blocked entries coms) {entry : IdxEntry} (hentry : entry ∈ entries) :
  entry.data + entry.length ≤ b.inputStart (b.slavecount + 1)
  := by
  cases blocked with
  | true =>
      rw [Commands, if_pos rfl] at h
      obtain ⟨inputs, outputs, rfl, -, hinputs, houtputs⟩ := h
      rcases List.mem_append.mp hentry with hentry | hentry
      · exact (hinputs.mem.2 entry hentry).2
      · exact (houtputs.mem.2 entry hentry).2.trans (Layout.offset_mono (by omega))
  | false =>
      rw [Commands, if_neg Bool.false_ne_true] at h
      exact (h.2.mem.2 entry hentry).2

theorem Commands.mem {blocked : Bool} {coms : List EcCmdtype} {entries : List IdxEntry}
    (h : b.Commands blocked entries coms) :
  coms.length = entries.length
    ∧ ∀ com ∈ coms, if blocked then com = .lrd ∨ com = .lwr else com = .lrw
  := by
  cases blocked with
  | true =>
      rw [Commands, if_pos rfl] at h
      obtain ⟨inputs, outputs, rfl, rfl, -, -⟩ := h
      constructor
      · rw [List.length_append, List.length_append, List.length_replicate, List.length_replicate]
      · intro com hcom
        rw [List.mem_append, List.mem_replicate, List.mem_replicate] at hcom
        exact hcom.imp And.right And.right
  | false =>
      rw [Commands, if_neg Bool.false_ne_true] at h
      obtain ⟨rfl, -⟩ := h
      exact ⟨List.length_replicate, fun com hcom => List.eq_of_mem_replicate hcom⟩

/-- The frame with the area of a slave, and its command. -/
theorem CarriedBy.exists_frame {blocked : Bool} {coms : List EcCmdtype}
    {entries : List IdxEntry} (h : b.CarriedBy blocked entries)
    (hcoms : b.Commands blocked entries coms) {o : Overlay} (ho : b.IsAxis o.axis)
    (hne : (b.area o).Nonempty) :
  ∃ (pos : ℕ) (entry : IdxEntry) (com : EcCmdtype), entries[pos]? = some entry
    ∧ coms[pos]? = some com ∧ b.area o ⊆ Set.Ico entry.data (entry.data + entry.length)
  := by
  obtain ⟨a, ha⟩ := hne
  obtain ⟨hge, hlt⟩ := (mem_area_iff ho a).mp ha
  obtain ⟨entry, hentry, harea⟩ := h.whole o ho (bits_ne_zero ha) (by omega)
  obtain ⟨pos, hpos⟩ := List.getElem?_of_mem hentry
  obtain ⟨hlt, -⟩ := List.getElem?_eq_some_iff.mp hpos
  exact ⟨pos, entry, _, hpos, List.getElem?_eq_getElem (hcoms.mem.1.symm ▸ hlt), harea⟩

theorem Commands.covers {blocked : Bool} {coms : List EcCmdtype} {sent : Context}
    (h : b.Commands blocked sent.idxstack.entries coms)
    (hcarried : b.CarriedBy blocked sent.idxstack.entries) :
  b.Covers blocked coms sent
  := by
  constructor
  case commands => exact h.mem.2
  case data => exact fun entry hentry => h.data_le hentry
  case apart => exact h.apart
  case outputs =>
    intro n hn hne
    obtain ⟨pos, entry, com, hentry, hcom, harea⟩ :=
      hcarried.exists_frame (o := .output n) h hn hne
    refine ⟨pos, entry, com, hentry, hcom, ?_, harea⟩
    cases blocked with
    | true =>
        obtain ⟨a, ha⟩ := hne
        have hmem := harea ha
        rw [mem_area_iff (o := .output n) hn] at ha
        have hle := areaEnd_le hn
        rcases h.sides hentry hcom with ⟨-, hge, -⟩ | ⟨rfl, -⟩
        · have := hmem.1
          omega
        · decide
    | false =>
        have hlrw : com = .lrw := h.mem.2 com (List.mem_of_getElem? hcom)
        rw [hlrw]
        decide
  case inputs =>
    intro n hn hne
    obtain ⟨pos, entry, com, hentry, hcom, harea⟩ :=
      hcarried.exists_frame (o := .input n) h hn hne
    refine ⟨pos, entry, com, hentry, hcom, ?_, harea⟩
    cases blocked with
    | true =>
        obtain ⟨a, ha⟩ := hne
        have hmem := harea ha
        rw [mem_area_iff (o := .input n) hn] at ha
        have hge := le_areaStart hn
        rcases h.sides hentry hcom with ⟨rfl, -⟩ | ⟨-, hle⟩
        · decide
        · have := hmem.2
          omega
    | false =>
        have hlrw : com = .lrw := h.mem.2 com (List.mem_of_getElem? hcom)
        rw [hlrw]
        decide
  case onlyInputs =>
    rintro rfl a ⟨pos, -, entry, com, hentry, hcom, hread, hmem⟩
    rcases h.sides hentry hcom with ⟨-, hge, hle⟩ | ⟨hwrite, -⟩
    · exact ⟨hge.trans hmem.1, hmem.2.trans_le hle⟩
    · exact absurd hwrite hread

variable (b) in
/-- The process image has been exchanged.  When a frame has passed a slave, all its outputs are at
their places in its memory.  The inputs that were at their places in its memory when a frame reached
it are in the process image, which is otherwise as before. -/
structure Exchanged {σ : Type} (esc : Esc σ) (states : ℕ → ℕ → ℕ → σ) (image : Bytes)
    (sent : Context) (image' : Bytes) : Prop where
  outputs : ∀ n, b.IsAxis n → (b.area (.output n)).Nonempty →
    ∃ pos < sent.idxstack.entries.length, ∀ a ∈ b.area (.output n), ∃ p,
      esc.output (states pos 0 n) a = some p
        ∧ esc.memory (sent.after esc states pos 0 n) p = image a
  inputs : ∀ n, b.IsAxis n → (b.area (.input n)).Nonempty →
    ∃ pos < sent.idxstack.entries.length, ∀ a ∈ b.area (.input n), ∃ p,
      esc.input (states pos 0 n) a = some p ∧ image' a = esc.memory (states pos 0 n) p
  kept : ∀ a, (∀ n, b.IsAxis n → a ∉ b.area (.input n)) → image' a = image a

/-- What a cycle sends carries the image over the wire, and covers the inputs and the outputs. -/
theorem Segmented.transmits {g : IoGroup} (h : b.Segmented g)
    (himage : b.inputStart (b.slavecount + 1) ≤ ioMapSize) {c : Context} {group : Group}
    (hlogstartaddr : group.logstartaddr = 0) (hgroup : c.group = g.set group)
    (hstack : c.idxstack.entries = []) (hheaders : c.port.HasHeaders) (hfree : c.port.Free)
    (sendOk : ℕ → Bool) :
  ∃ coms, Transmits c group.blockLRW coms (ecSendProcessdata sendOk c).2
    ∧ b.Covers group.blockLRW coms (ecSendProcessdata sendOk c).2
  := by
  obtain ⟨coms, hcoms, hsends⟩ := h.sends hgroup hstack hheaders hfree sendOk
  have hcarried := h.carried hgroup hstack sendOk
  have hcovers := Commands.covers hcoms hcarried
  refine ⟨coms, ?_, hcovers⟩
  generalize (ecSendProcessdata sendOk c).2 = sent at *
  constructor
  case kept => exact hsends.kept
  case length => exact hsends.length
  case commands => exact hcovers.commands
  case wire =>
    intro pos entry com hentry hcom
    rw [Context.wire, hentry, Option.elim_some]
    exact (onWire (hsends.frames pos entry com hentry hcom)
      (hcarried.le entry (List.mem_of_getElem? hentry))).datagrams ecMaxecatframe
      (by decide)
  case data =>
    intro entry hentry
    have hle := (hcovers.data entry hentry).trans himage
    have hmap : ioMapSize = 6000 := rfl
    omega
  case logstartaddr =>
    rw [hgroup]
    exact hlogstartaddr
  case clock =>
    intro hdc entry hentry
    obtain ⟨hDCl, hDCtO⟩ := hsends.clock hdc entry hentry
    exact ⟨hDCl.symm, hDCtO⟩

/-- An address in the range of the inputs belongs to a slave. -/
theorem exists_mem_area {a : ℕ} (hge : b.inputStart 1 ≤ a)
    (hlt : a < b.inputStart (b.slavecount + 1)) :
  ∃ n, b.IsAxis n ∧ a ∈ b.area (.input n)
  := by
  rw [← outputStart_slavecount] at hge
  obtain ⟨n, hn, hnlt, hstart, hend⟩ :=
    Layout.exists_block (Nat.le_add_left 1 b.slavecount) hge hlt
  have hn : b.IsAxis n := ⟨hn, Nat.le_of_lt_succ hnlt⟩
  exact ⟨n, hn, (mem_area_iff (o := .input n) hn a).mpr ⟨hstart, hend⟩⟩

section Exchanged

variable {σ : Type} {esc : Esc σ} {states : ℕ → ℕ → ℕ → σ} {blocked : Bool} {waits : ℕ → Wait}
  {replies : ℕ → List UInt8}

/-- The outputs of a slave get to their places in its memory. -/
theorem Covers.outputs_exchanged (h : b.Covers blocked coms sent)
    (htransmits : Transmits c blocked coms sent) (hesc : esc.Behaves)
    (hprograms : ∀ pos < sent.idxstack.entries.length, b.Programs esc (states pos 0)) {n : ℕ}
    (hn : b.IsAxis n) (hne : (b.area (.output n)).Nonempty) :
  ∃ pos < sent.idxstack.entries.length, ∀ a ∈ b.area (.output n), ∃ p,
    esc.output (states pos 0 n) a = some p
      ∧ esc.memory (sent.after esc states pos 0 n) p = c.image a
  := by
  obtain ⟨pos, entry, com, hentry, hcom, hread, harea⟩ := h.outputs n hn hne
  obtain ⟨hpos, -⟩ := List.getElem?_eq_some_iff.mp hentry
  have hp := hprograms pos hpos
  have hdata := htransmits.address hentry com
  have hstores : (c.segmentDatagram com entry).Stores :=
    (segmentDatagram_loads (htransmits.com_mem hcom)).2.mpr hread
  have hreads : ¬ com.reads = true := by
    rcases htransmits.com_mem hcom with rfl | rfl | rfl
    · exact absurd rfl hread
    · decide
    · decide
  refine ⟨pos, hpos, ?_⟩
  intro a ha
  obtain ⟨p, hout⟩ := Option.isSome_iff_exists.mp ((hp.output_isSome hn a).mpr ha)
  refine ⟨p, hout, ?_⟩
  obtain ⟨i, rfl⟩ := Nat.exists_eq_add_of_le (harea ha).1
  have hi : i < entry.length := by
    have := (harea ha).2
    omega
  have hinput : ∀ m, 1 ≤ m → m < n → esc.input (states pos 0 m) (entry.data + i) = none :=
    fun m hm hmn => hp.input_eq_none hn ⟨hm, hmn.le.trans hn.2⟩ ha
  rw [htransmits.after esc states hentry hcom]
  rw [← hdata] at hout hinput
  rw [hesc.memory_after hstores (fun m hm hmn => hp.bytewise ⟨hm, hmn.trans hn.2⟩) hn.1 ?_
      (segmentDatagram_length.symm ▸ hi) hout ?_ hinput,
    segmentDatagram_getD hi, if_neg hreads]
  · intro a' ha'
    rw [Datagram.range, hdata, segmentDatagram_length]
    exact harea ((hp.output_isSome hn a').mp ha')
  · exact fun a' ha' => hp.distinct n hn a' _ p ha' hout

variable (h : b.Covers blocked coms sent) (htransmits : Transmits c blocked coms sent)
  (hpulled : sent.idxstack.pulled = 0) (hesc : esc.Behaves)
  (hprograms : ∀ pos < sent.idxstack.entries.length, b.Programs esc (states pos 0))
  (hreplied : AllReplied waits sent replies)
  (hreturned : ∀ pos < sent.idxstack.entries.length,
    HasDatagrams (payload (replies pos)) ecElengthsize
      (sent.returned esc (List.range' 1 b.slavecount) states pos))

include h htransmits hpulled hesc hreplied hreturned

/-- The image after the cycle has what came back under the commands that read, and is otherwise as
it was sent. -/
theorem Covers.image_received (a : ℕ) :
  (∀ pos < sent.idxstack.entries.length, ∀ entry com, sent.idxstack.entries[pos]? = some entry →
      coms[pos]? = some com → com ≠ .lwr → a ∈ Set.Ico entry.data (entry.data + entry.length) →
      (ecxReceiveProcessdataGroup waits sent).2.image a
        = (esc.passed (states pos 0) (List.range' 1 b.slavecount)
          (c.segmentDatagram com entry)).data.getD (a - entry.data) 0)
    ∧ (a ∉ sent.range coms (· ≠ .lwr) sent.idxstack.entries.length →
      (ecxReceiveProcessdataGroup waits sent).2.image a = c.image a)
  := by
  have hresult : (ecxReceiveProcessdataGroup waits sent).2.image
      = (receiveBefore waits sent sent.idxstack.entries.length).context.image := by
    rw [ecxReceiveProcessdataGroup, receiveBefore, hpulled, List.drop_zero, List.take_length]
  rw [hresult]
  exact htransmits.receiveBefore_image hesc hreplied hreturned h.apart le_rfl a

include hprograms

/-- The inputs in the memory of a slave get into the image. -/
theorem Covers.inputs_exchanged {n : ℕ} (hn : b.IsAxis n) (hne : (b.area (.input n)).Nonempty) :
  ∃ pos < sent.idxstack.entries.length, ∀ a ∈ b.area (.input n), ∃ p,
    esc.input (states pos 0 n) a = some p
      ∧ (ecxReceiveProcessdataGroup waits sent).2.image a = esc.memory (states pos 0 n) p
  := by
  obtain ⟨pos, entry, com, hentry, hcom, hwrite, harea⟩ := h.inputs n hn hne
  obtain ⟨hpos, -⟩ := List.getElem?_eq_some_iff.mp hentry
  have hp := hprograms pos hpos
  have hdata := htransmits.address hentry com
  have hloads : (c.segmentDatagram com entry).Loads :=
    (segmentDatagram_loads (htransmits.com_mem hcom)).1.mpr hwrite
  refine ⟨pos, hpos, ?_⟩
  intro a ha
  obtain ⟨p, hin⟩ := Option.isSome_iff_exists.mp ((hp.input_isSome hn a).mpr ha)
  refine ⟨p, hin, ?_⟩
  rw [(h.image_received htransmits hpulled hesc hreplied hreturned a).1 pos hpos entry com hentry
    hcom hwrite (harea ha)]
  obtain ⟨i, rfl⟩ := Nat.exists_eq_add_of_le (harea ha).1
  have hi : i < entry.length := by
    have := (harea ha).2
    omega
  rw [Nat.add_sub_cancel_left]
  have hothers : ∀ m ∈ List.range' 1 b.slavecount, m ≠ n →
      esc.input (states pos 0 m) (entry.data + i) = none :=
    fun m hm hne => hp.input_unique hn (isAxis_of_mem_range' hm) ha hne
  rw [← hdata] at hin hothers
  exact hesc.getD_passed_input hloads List.nodup_range'
    (fun m hm => hp.bytewise (isAxis_of_mem_range' hm)) (segmentDatagram_length.symm ▸ hi)
    (mem_range'_of_isAxis hn) hin hothers

/-- What is no input stays as it is. -/
theorem Covers.image_kept {a : ℕ} (ha : ∀ n, b.IsAxis n → a ∉ b.area (.input n)) :
  (ecxReceiveProcessdataGroup waits sent).2.image a = c.image a
  := by
  have hreceived := h.image_received htransmits hpulled hesc hreplied hreturned a
  by_cases hread : a ∈ sent.range coms (· ≠ .lwr) sent.idxstack.entries.length
  · obtain ⟨pos, hpos, entry, com, hentry, hcom, hwrite, hmem⟩ := hread
    have hp := hprograms pos hpos
    have hdata := htransmits.address hentry com
    rw [hreceived.1 pos hpos entry com hentry hcom hwrite hmem]
    obtain ⟨i, rfl⟩ := Nat.exists_eq_add_of_le hmem.1
    have hi : i < entry.length := by
      have := hmem.2
      omega
    have hnone : ∀ m ∈ List.range' 1 b.slavecount,
        esc.input (states pos 0 m) (entry.data + i) = none := by
      intro m hm
      have hm := isAxis_of_mem_range' hm
      rw [← Option.not_isSome_iff_eq_none, hp.input_isSome hm]
      exact ha m hm
    have hloads : (c.segmentDatagram com entry).Loads :=
      (segmentDatagram_loads (htransmits.com_mem hcom)).1.mpr hwrite
    rw [← hdata] at hnone
    rw [Nat.add_sub_cancel_left, hesc.getD_passed (Or.inl hloads)
      (fun m hm => hp.bytewise (isAxis_of_mem_range' hm)) (segmentDatagram_length.symm ▸ hi) hnone,
      segmentDatagram_getD hi]
    split
    case isFalse => rfl
    case isTrue hreads =>
      -- the frames that only read hold nothing but inputs
      have hblocked : blocked = true := by
        have hcommand := h.commands com (List.mem_of_getElem? hcom)
        cases blocked with
        | true => rfl
        | false =>
            have hlrw : com = .lrw := hcommand
            rw [hlrw] at hreads
            cases hreads
      obtain ⟨hge, hlt⟩ := h.onlyInputs hblocked (entry.data + i)
        ⟨pos, hpos, entry, com, hentry, hcom, hwrite, hmem⟩
      obtain ⟨n, hn, hmem⟩ := exists_mem_area hge hlt
      exact absurd hmem (ha n hn)
  · exact hreceived.2 hread

/-- What covers the inputs and the outputs exchanges the process image. -/
theorem Covers.exchanged :
  b.Exchanged esc states c.image sent (ecxReceiveProcessdataGroup waits sent).2.image
  := by
  constructor
  case outputs => exact fun n hn hne => h.outputs_exchanged htransmits hesc hprograms hn hne
  case inputs =>
    intro n hn hne
    exact h.inputs_exchanged htransmits hpulled hesc hprograms hreplied hreturned hn hne
  case kept =>
    intro a ha
    exact h.image_kept htransmits hpulled hesc hprograms hreplied hreturned ha

end Exchanged

/-- A cycle exchanges the process image with the slaves: if the slaves have been programmed with the
layout when the frames pass, and the replies are the frames that come back from them and are
received in time, the outputs of each slave get to their places in its memory with one of the
frames, and its inputs from there into the process image. -/
theorem cycle_exchanged (b : MappedBus)
    (hslave : ∀ n, b.IsAxis n → b.outputSize n ≤ maxSegment ∧ b.inputSize n ≤ maxSegment)
    (himage : b.inputStart (b.slavecount + 1) ≤ ioMapSize) (IOsegment : ℕ → ℕ) (group : Group)
    (hlogstartaddr : group.logstartaddr = 0) (c : Context)
    (hgroup : c.group = (ecxConfigMapSegments b.slavecount b.slave IOsegment).set group)
    (hstack : c.idxstack = ecxClearindex) (hheaders : c.port.HasHeaders) (hfree : c.port.Free)
    (sendOk : ℕ → Bool) {σ : Type} (esc : Esc σ) (hesc : esc.Behaves)
    (states : ℕ → ℕ → ℕ → σ)
    (hprograms : ∀ pos < (ecSendProcessdata sendOk c).2.idxstack.entries.length,
      b.Programs esc (states pos 0))
    (waits : ℕ → Wait) (replies : ℕ → List UInt8)
    (hreplied : AllReplied waits (ecSendProcessdata sendOk c).2 replies)
    (hreturned : ∀ pos < (ecSendProcessdata sendOk c).2.idxstack.entries.length,
      HasDatagrams (payload (replies pos)) ecElengthsize
        ((ecSendProcessdata sendOk c).2.returned esc (List.range' 1 b.slavecount) states pos)) :
  b.Exchanged esc states c.image (ecSendProcessdata sendOk c).2
    (ecxReceiveProcessdataGroup waits (ecSendProcessdata sendOk c).2).2.image
  := by
  have hempty : c.idxstack.entries = [] := by
    rw [hstack]
    rfl
  obtain ⟨coms, htransmits, hcovers⟩ := (b.segmented IOsegment hslave himage).transmits himage
    hlogstartaddr hgroup hempty hheaders hfree sendOk
  apply hcovers.exchanged htransmits ?_ hesc hprograms hreplied hreturned
  rw [htransmits.kept.pulled, hstack]
  rfl

/-- A drive with the mapping of `Servosetup`. -/
def oneDrive : MappedBus :=
  { sixtyDrives with
    slavecount := 1
    count := ⟨Nat.one_pos, by decide⟩ }

/-- A master that has mapped the drive, with distributed clocks. -/
def oneMapped : Context where
  port := ecSetupheader Port.init
  group := (ecxConfigMapSegments 1 oneDrive.slave fun _ => 0).set
    ⟨0, 0, 0, 0, 0, true, 1, false, 0, 0, 0, 0, 0, fun _ => 0⟩
  configadr n := 0x1000 + n.toUInt16
  idxstack := ecxClearindex
  DCtO := 0
  DCl := 0
  DCtime := 0
  image i := (i + 1).toUInt8

/-- The drive, programmed with the layout; when the second datagram reaches it, each byte of its
memory has moved on. -/
def oneStates (_pos k n : ℕ) : PlainEsc where
  configadr := 0x1001
  FMMU := oneDrive.layout.outputs.FMMU n ++ oneDrive.layout.inputs.FMMU n
  memory p := (p + k).toUInt8

/-- The frame that comes back: the inputs behind the outputs, and the system time. -/
def oneReply : List UInt8 :=
  ethernetHeader ++ [62, 0x10] ++ [EcCmdtype.lrw.code, 1, 0, 0, 0, 0, 30, 0x80, 0, 0]
    ++ (List.range' 1 13).map Nat.toUInt8 ++ (List.range 17).map Nat.toUInt8 ++ [3, 0]
    ++ [EcCmdtype.frmw.code, 1, 1, 0x10, 0x10, 0x09, 8, 0, 0, 0]
    ++ (List.range' 17 8).map Nat.toUInt8 ++ [1, 0]

/-- It arrives before it is waited for. -/
def oneAnswer : ℕ → Wait := fun _ =>
  ⟨[some ⟨.receiveEtherFrame, some ⟨78, 2, Bytes.ofList oneReply, 0, none⟩⟩], []⟩

theorem oneMapped_entries :
  (ecSendProcessdata (fun _ => true) oneMapped).2.idxstack.entries = [⟨1, 0, 30⟩]
  := by
  decide +kernel

theorem oneStates_programs (pos : ℕ) :
  oneDrive.Programs plainEsc (oneStates pos 0)
  := by
  constructor
  case FMMU => exact fun _ _ => rfl
  case distinct =>
    intro n hn a a' p hp hp'
    have hlast : n ≤ 1 := hn.2
    obtain rfl : n = 1 := Nat.le_antisymm hlast hn.1
    have hFMMU : plainEsc.FMMU (oneStates pos 0 1)
        = [⟨0, 13, 0, 7, 0x1100, 2⟩, ⟨13, 17, 0, 7, 0x1400, 1⟩] := rfl
    have hout : ∀ a p, plainEsc.output (oneStates pos 0 1) a = some p → p = 0x1100 + a := by
      intro a p hp
      rw [Esc.output, hFMMU] at hp
      by_cases ha : a < 13
      · simp [Fmmu.place, outputKind, ha] at hp
        exact hp.symm
      · simp [Fmmu.place, outputKind, ha] at hp
    have := hout a p hp
    have := hout a' p hp'
    omega

theorem oneReply_allReplied :
  AllReplied oneAnswer (ecSendProcessdata (fun _ => true) oneMapped).2 fun _ => oneReply
  := by
  have hentry : ∀ (pos : ℕ) (entry : IdxEntry),
      (ecSendProcessdata (fun _ => true) oneMapped).2.idxstack.entries[pos]? = some entry →
      entry = ⟨1, 0, 30⟩ := by
    intro pos entry h
    rw [oneMapped_entries] at h
    exact List.mem_singleton.mp (List.mem_of_getElem? h)
  constructor
  case received =>
    intro pos entry hpos
    have hzero : pos = 0 := by
      rw [oneMapped_entries] at hpos
      obtain ⟨hlt, -⟩ := List.getElem?_eq_some_iff.mp hpos
      exact Nat.lt_one_iff.mp hlt
    subst hzero
    rw [hentry 0 entry hpos]
    apply Port.hasReceived_wait
    · decide +kernel
    · decide +kernel
    · decide +kernel
    · exact ⟨by decide +kernel, by decide +kernel, ⟨rfl, rfl⟩, rfl, by decide⟩
  case com => exact fun _ _ _ => Or.inl (Or.inr rfl)
  case wkc_le =>
    intro pos entry hpos
    rw [hentry pos entry hpos]
    decide +kernel

theorem oneReply_returned :
  HasDatagrams (payload oneReply) ecElengthsize
    ((ecSendProcessdata (fun _ => true) oneMapped).2.returned plainEsc [1] oneStates 0)
  := by
  have hreturned : (ecSendProcessdata (fun _ => true) oneMapped).2.returned plainEsc [1] oneStates 0
      = datagramsFrom (payload oneReply) 2 ecElengthsize := by decide +kernel
  rw [hreturned]
  refine ⟨?_, ?_, trivial⟩
  · constructor
    all_goals decide +kernel
  · constructor
    all_goals decide +kernel

theorem cycle_exchanged_one :
  oneDrive.Exchanged plainEsc oneStates oneMapped.image
    (ecSendProcessdata (fun _ => true) oneMapped).2
    (ecxReceiveProcessdataGroup oneAnswer (ecSendProcessdata (fun _ => true) oneMapped).2).2.image
  := by
  have hone : (ecSendProcessdata (fun _ => true) oneMapped).2.idxstack.entries.length = 1 := by
    rw [oneMapped_entries]
    rfl
  apply cycle_exchanged oneDrive
    (fun _ _ => ⟨(by decide : (driveWith 13).outputSize ≤ maxSegment),
      (by decide : (driveWith 13).inputSize ≤ maxSegment)⟩)
    (by decide +kernel) (fun _ => 0) ⟨0, 0, 0, 0, 0, true, 1, false, 0, 0, 0, 0, 0, fun _ => 0⟩ rfl
    oneMapped rfl rfl (hasHeaders_ecSetupheader Port.init) (fun _ _ _ => rfl) (fun _ => true)
    plainEsc plainEsc_behaves oneStates (fun pos _ => oneStates_programs pos) oneAnswer
    (fun _ => oneReply) oneReply_allReplied
  intro pos hpos
  rw [hone] at hpos
  obtain rfl : pos = 0 := Nat.lt_one_iff.mp hpos
  exact oneReply_returned

end MappedBus

end EthercatMaster
