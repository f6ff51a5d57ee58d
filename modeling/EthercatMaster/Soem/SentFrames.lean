import EthercatMaster.Soem.Index
import EthercatMaster.Soem.Segments
import EthercatMaster.Soem.Wire

/-!
# The frames of a cycle

The frame of a segment has the datagram of that segment: its logical address, and its part of the
process image unless the command only reads.  With distributed clocks, the first frame has a second
datagram that reads the system time.
-/

namespace EthercatMaster

/-- The datagram of a segment. -/
def Context.segmentDatagram (c : Context) (com : EcCmdtype) (entry : IdxEntry) : Datagram :=
  let logAdr := c.group.logstartaddr + entry.data.toUInt32
  com.datagram entry.idx logAdr.toUInt16 (logAdr >>> 16).toUInt16 entry.length
    (c.image.drop entry.data)

/-- The datagram that reads the system time. -/
def Context.clockDatagram (c : Context) (idx : ℕ) : Datagram :=
  EcCmdtype.frmw.datagram idx (c.configadr c.group.DCnext) ectRegDcsystime 8
    (Bytes.ofUInt64 c.DCtime)

/-- The datagrams of the frame at a position of the stack. -/
def Context.sentDatagrams (c : Context) (com : EcCmdtype) (pos : ℕ) (entry : IdxEntry) :
    List Datagram :=
  c.segmentDatagram com entry
    :: if c.group.hasdc = true ∧ pos = 0 then [c.clockDatagram entry.idx] else []

/-- The Ethernet headers are in the transmit buffers, as `ecx_setupnic` puts them there. -/
def Port.HasHeaders (p : Port) : Prop :=
  ∀ idx < ecMaxbuf, ∀ i < ethercatFrameHeader, p.txbuf idx i = ethernetHeader.getD i 0

theorem hasHeaders_ecSetupheader (p : Port) :
  (ecSetupheader p).HasHeaders
  := by
  intro idx hidx i hi
  rw [ecSetupheader]
  dsimp only
  rw [if_pos hidx, Bytes.copy_zero_of_lt hi]
  rfl

/-- No index is taken. -/
def Port.Free (p : Port) : Prop :=
  ∀ k, 0 < k → k < ecMaxbuf → p.rxbufstat k = .empty

/-- Where the system time will be in the frame received, behind a segment. -/
def clockOffset (length : ℕ) : ℕ :=
  ecElengthsize + (ecHeadersize + length) + 10

/-! ### A segment -/

theorem ecxGetindex_txbuf (p : Port) :
  (ecxGetindex p).2.txbuf = p.txbuf ∧ (ecxGetindex p).2.txbuflength = p.txbuflength
  := by
  rcases ecxGetindex_cases p with ⟨-, h⟩ | h
  · rw [h]
    exact ⟨rfl, rfl⟩
  · rw [h]
    exact ⟨rfl, rfl⟩

/-- A frame is handed to the interface as it is in the transmit buffer; a short one is filled up. -/
theorem ecxOutframe_txbuf (idx : ℕ) (sendOk : Bool) (p : Port) :
  (∀ i ≠ idx, (ecxOutframe idx sendOk p).2.txbuf i = p.txbuf i)
    ∧ (∀ j < p.txbuflength idx, (ecxOutframe idx sendOk p).2.txbuf idx j = p.txbuf idx j)
    ∧ (ecxOutframe idx sendOk p).2.txbuflength = p.txbuflength
  := by
  rw [ecxOutframe]
  by_cases hsent : 0 < p.txbuflength idx ∧ p.sockhandle ≠ 0
  · rw [if_pos hsent]
    by_cases hshort : p.txbuflength idx < 60
    · simp only [if_pos hshort]
      refine ⟨fun i hi => Function.update_of_ne hi _ _, ?_, rfl⟩
      intro j hj
      rw [ecxSetbufstat]
      dsimp only
      rw [Function.update_self]
      exact Bytes.copy_disjoint (Or.inl hj)
    · simp only [if_neg hshort]
      exact ⟨fun _ _ => rfl, fun _ _ => rfl, rfl⟩
  · rw [if_neg hsent]
    exact ⟨fun _ _ => rfl, fun _ _ => rfl, rfl⟩

variable {idx sub : ℕ}

/-- What sets up the frame of a segment. -/
structure SetsUp (com : EcCmdtype) (idx sub : ℕ) (x y : SendState) : Prop where
  frame : CarriesFrame (y.context.port.txbuf idx) (y.context.port.txbuflength idx)
    (com.datagram idx x.logAdr.toUInt16 (x.logAdr >>> 16).toUInt16 sub
        (x.context.image.drop x.data)
      :: if x.first then [x.context.clockDatagram idx] else [])
  others : ∀ i ≠ idx, y.context.port.txbuf i = x.context.port.txbuf i
    ∧ y.context.port.txbuflength i = x.context.port.txbuflength i
  first : y.first = false
  clock : if x.first then y.context.DCl = sub ∧ y.context.DCtO = clockOffset sub
    else y.context.DCl = x.context.DCl ∧ y.context.DCtO = x.context.DCtO
  rxbufstat : y.context.port.rxbufstat = x.context.port.rxbufstat
  configadr : y.context.configadr = x.context.configadr
  idxstack : y.context.idxstack = x.context.idxstack
  logAdr : y.logAdr = x.logAdr
  data : y.data = x.data

/-- The frame of a segment is set up in the buffer of its index. -/
theorem setsUp_setupSegment (com : EcCmdtype) (idx : ℕ) {x : SendState} (hsub : sub < 65536)
    (header : ∀ i < ethercatFrameHeader, x.context.port.txbuf idx i = ethernetHeader.getD i 0) :
  SetsUp com idx sub x (setupSegment com idx sub x)
  := by
  have huint : uint16OfInt (sub : ℤ) = sub := by
    rw [uint16OfInt]
    omega
  have hframe := carriesFrame_ecxSetupdatagram com idx x.logAdr.toUInt16
    (x.logAdr >>> 16).toUInt16 sub (x.context.image.drop x.data) header
  rw [setupSegment, huint]
  dsimp only
  cases hfirst : x.first with
  | true =>
      obtain ⟨hframe', hoffset⟩ := hframe.ecxAdddatagram .frmw idx
        (x.context.configadr x.context.group.DCnext) ectRegDcsystime 8
        (Bytes.ofUInt64 x.context.DCtime)
      rw [if_pos rfl]
      constructor
      case frame =>
        rw [hfirst, if_pos rfl]
        exact hframe'
      case others =>
        intro i hi
        exact ⟨(Function.update_of_ne hi _ _).trans (Function.update_of_ne hi _ _),
          (Function.update_of_ne hi _ _).trans (Function.update_of_ne hi _ _)⟩
      case clock =>
        rw [hfirst, if_pos rfl]
        refine ⟨rfl, hoffset.trans ?_⟩
        rw [com.datagram_size]
        rfl
      all_goals rfl
  | false =>
      rw [if_neg Bool.false_ne_true]
      constructor
      case frame =>
        rw [hfirst, if_neg Bool.false_ne_true]
        exact hframe
      case others =>
        intro i hi
        exact ⟨Function.update_of_ne hi _ _, Function.update_of_ne hi _ _⟩
      case clock =>
        rw [hfirst, if_neg Bool.false_ne_true]
        exact ⟨rfl, rfl⟩
      all_goals rfl

/-! ### The loops -/

/-- While process data is sent: the frames so far are in the transmit buffers of their indices. -/
structure SendState.Carries (c : Context) (coms : List EcCmdtype) (x : SendState) : Prop where
  sent : c.SentFrom x.context
  configadr : x.context.configadr = c.configadr
  logAdr : x.logAdr = c.group.logstartaddr + x.data.toUInt32
  headers : x.context.port.HasHeaders
  taken : ∀ k, 0 < k → k < ecMaxbuf → x.context.port.rxbufstat k ≠ .empty →
    ∃ entry ∈ x.context.idxstack.entries, entry.idx = k
  idx_pos : ∀ entry ∈ x.context.idxstack.entries, 0 < entry.idx
  first : x.first = true ↔ c.group.hasdc = true ∧ x.context.idxstack.entries = []
  length : coms.length = x.context.idxstack.entries.length
  clock : c.group.hasdc = true → ∀ entry, x.context.idxstack.entries[0]? = some entry →
    x.context.DCl = entry.length ∧ x.context.DCtO = clockOffset entry.length
  frames : ∀ pos entry com, x.context.idxstack.entries[pos]? = some entry →
    coms[pos]? = some com →
    CarriesFrame (x.context.port.txbuf entry.idx) (x.context.port.txbuflength entry.idx)
      (c.sentDatagrams com pos entry)

variable {c : Context} {coms : List EcCmdtype} {x : SendState}

theorem uint32OfInt_natCast (n : ℕ) :
  UInt32.ofInt n = n.toUInt32
  := by
  apply UInt32.toNat.inj
  rw [Nat.toUInt32_eq, UInt32.toNat_ofNat', UInt32.ofInt, UInt32.toNat_ofNat']
  omega

/-- The frame that is set up for a segment is the one for its place on the stack. -/
theorem SendState.Carries.datagrams (h : x.Carries c coms) (com : EcCmdtype) (idx sub : ℕ)
    (port : Port) :
  (com.datagram idx x.logAdr.toUInt16 (x.logAdr >>> 16).toUInt16 sub
      (x.context.image.drop x.data)
    :: if x.first = true then [({ x.context with port := port } : Context).clockDatagram idx]
      else [])
    = c.sentDatagrams com x.context.idxstack.entries.length ⟨idx, x.data, sub⟩
  := by
  have hclock : ({ x.context with port := port } : Context).clockDatagram idx
      = c.clockDatagram idx := by
    rw [Context.clockDatagram, Context.clockDatagram, h.configadr, h.sent.group, h.sent.DCtime]
  have hfirst : x.first = true
      ↔ c.group.hasdc = true ∧ x.context.idxstack.entries.length = 0 := by
    rw [h.first, List.length_eq_zero_iff]
  rw [hclock, Context.sentDatagrams, Context.segmentDatagram, ← h.logAdr, h.sent.image]
  simp only [hfirst]

/-- There is an index for another frame. -/
theorem SendState.Carries.getindex (h : x.Carries c coms)
    (hroom : x.context.idxstack.entries.length + 1 < ecMaxbuf) :
  0 < (ecxGetindex x.context.port).1
    ∧ (ecxGetindex x.context.port).2.rxbufstat
      = Function.update x.context.port.rxbufstat (ecxGetindex x.context.port).1 .alloc
  := by
  rcases ecxGetindex_spec x.context.port with ⟨hpos, -, -, hstat⟩ | ⟨-, hnone⟩
  · exact ⟨hpos, hstat⟩
  · have hsub : Finset.Ioo 0 ecMaxbuf
        ⊆ (x.context.idxstack.entries.map IdxEntry.idx).toFinset := by
      intro k hk
      obtain ⟨hpos, hlt⟩ := Finset.mem_Ioo.mp hk
      rw [List.mem_toFinset, List.mem_map]
      exact h.taken k hpos hlt (hnone k hpos hlt)
    have hcard := (Finset.card_le_card hsub).trans (List.toFinset_card_le _)
    rw [Nat.card_Ioo, List.length_map] at hcard
    omega

/-- The place of the system time is the one in the first frame. -/
theorem SendState.Carries.clock_append (h : x.Carries c coms) {next entry : IdxEntry} {y : Context}
    (hclock : if x.first = true then y.DCl = next.length ∧ y.DCtO = clockOffset next.length
      else y.DCl = x.context.DCl ∧ y.DCtO = x.context.DCtO)
    (hdc : c.group.hasdc = true)
    (hentry : (x.context.idxstack.entries ++ [next])[0]? = some entry) :
  y.DCl = entry.length ∧ y.DCtO = clockOffset entry.length
  := by
  cases hx : x.context.idxstack.entries with
  | nil =>
      rw [hx] at hentry
      rw [if_pos (h.first.mpr ⟨hdc, hx⟩)] at hclock
      cases hentry
      exact hclock
  | cons first entries =>
      have hfirst : ¬ x.first = true := by
        rw [h.first, hx]
        exact fun hfalse => List.cons_ne_nil _ _ hfalse.2
      rw [if_neg hfirst] at hclock
      rw [hx] at hentry
      rw [hclock.1, hclock.2]
      apply h.clock hdc
      rw [hx]
      exact hentry

/-- A frame more is put into a transmit buffer, and the frames before are in others. -/
theorem SendState.Carries.frames_append (h : x.Carries c coms) {next entry : IdxEntry} {p : Port}
    {com com' : EcCmdtype} {pos : ℕ}
    (hframe : CarriesFrame (p.txbuf next.idx) (p.txbuflength next.idx)
      (c.sentDatagrams com x.context.idxstack.entries.length next))
    (hothers : ∀ i ≠ next.idx, p.txbuf i = x.context.port.txbuf i
      ∧ p.txbuflength i = x.context.port.txbuflength i)
    (hfree : ∀ entry ∈ x.context.idxstack.entries, entry.idx ≠ next.idx)
    (hentry : (x.context.idxstack.entries ++ [next])[pos]? = some entry)
    (hcom : (coms ++ [com])[pos]? = some com') :
  CarriesFrame (p.txbuf entry.idx) (p.txbuflength entry.idx) (c.sentDatagrams com' pos entry)
  := by
  rcases Nat.lt_trichotomy pos x.context.idxstack.entries.length with hpos | hpos | hpos
  · rw [List.getElem?_append_left hpos] at hentry
    rw [List.getElem?_append_left (h.length.symm ▸ hpos)] at hcom
    obtain ⟨htxbuf, htxbuflength⟩ := hothers _ (hfree entry (List.mem_of_getElem? hentry))
    rw [htxbuf, htxbuflength]
    exact h.frames pos entry com' hentry hcom
  · rw [hpos, List.getElem?_append_right le_rfl, Nat.sub_self] at hentry
    rw [hpos, ← h.length, List.getElem?_append_right le_rfl, Nat.sub_self] at hcom
    cases hentry
    cases hcom
    rw [hpos]
    exact hframe
  · rw [List.getElem?_eq_none (by rw [List.length_append]; exact hpos)] at hentry
    cases hentry

/-- A segment more is sent. -/
theorem SendState.Carries.sendSegment (h : x.Carries c coms) (com : EcCmdtype)
    (sendOk : ℕ → Bool) (hsub : sub < 65536)
    (hroom : x.context.idxstack.entries.length + 1 < ecMaxbuf) :
  (sendSegment com sub 0 sendOk x).Carries c (coms ++ [com])
  := by
  have hsent := h.sent.sendSegment com sub 0 sendOk
  have hentries := sendSegment_entries com sendOk (x := x) (by omega) hsub
  obtain ⟨hpos, hstat⟩ := h.getindex hroom
  have hdatagrams := h.datagrams com (ecxGetindex x.context.port).1 sub
    (ecxGetindex x.context.port).2
  obtain ⟨htxbuf, htxbuflength⟩ := ecxGetindex_txbuf x.context.port
  have hlt := ecxGetindex_lt x.context.port
  have hfree := fun entry hentry =>
    (ecxGetindex_tx (h.sent.waits entry hentry)).2
  have hsetup := setsUp_setupSegment com (ecxGetindex x.context.port).1 hsub
    (x := { x with context := { x.context with port := (ecxGetindex x.context.port).2 } })
    (by rw [htxbuf]; exact h.headers _ hlt)
  rw [EthercatMaster.sendSegment] at hsent hentries ⊢
  dsimp only at hsent hentries ⊢
  generalize (ecxGetindex x.context.port).2 = port at *
  generalize (ecxGetindex x.context.port).1 = idx at *
  generalize EthercatMaster.setupSegment com idx sub
    { x with context := { x.context with port := port } } = y at *
  obtain ⟨hothers, hsame, hlengths⟩ := ecxOutframe_txbuf idx (sendOk idx) y.context.port
  have hframe := hsetup.frame
  dsimp only at hframe
  rw [hdatagrams] at hframe
  have hout := hframe.congr _ hsame
  constructor
  case sent => exact hsent
  case configadr => exact hsetup.configadr.trans h.configadr
  case logAdr =>
    have hdata : (y.data + (sub : ℤ)).toNat = x.data + sub := by
      rw [hsetup.data]
      rfl
    dsimp only
    rw [hsetup.logAdr, hdata, uint32OfInt_natCast, h.logAdr, UInt32.add_assoc]
    congr 1
    exact (UInt32.ofNat_add _ _).symm
  case headers =>
    intro i hi
    by_cases hidx : i = idx
    · rw [hidx]
      exact hout.header
    · dsimp only
      rw [hothers i hidx, (hsetup.others i hidx).1, htxbuf]
      exact h.headers i hi
  case taken =>
    intro k hk hklt hne
    have hrxbufstat : (ecxOutframe idx (sendOk idx) y.context.port).2.rxbufstat
        = Function.update (Function.update x.context.port.rxbufstat idx .alloc) idx .tx := by
      obtain ⟨_, heq⟩ := ecxOutframe_eq idx y.context.port
      rw [heq, hsetup.rxbufstat, ← hstat]
    rw [hentries]
    by_cases hidx : k = idx
    · exact ⟨_, List.mem_append_right _ (List.mem_singleton_self _), hidx.symm⟩
    · dsimp only at hne
      rw [hrxbufstat, Function.update_of_ne hidx, Function.update_of_ne hidx] at hne
      obtain ⟨entry, hentry, hk⟩ := h.taken k hk hklt hne
      exact ⟨entry, List.mem_append_left _ hentry, hk⟩
  case idx_pos =>
    intro entry hentry
    rw [hentries] at hentry
    rcases List.mem_append.mp hentry with hentry | hentry
    · exact h.idx_pos entry hentry
    · rw [List.mem_singleton.mp hentry]
      exact hpos
  case first =>
    dsimp only
    rw [hsetup.first, hentries]
    simp
  case length =>
    rw [hentries, List.length_append, List.length_append, h.length]
    rfl
  case clock =>
    intro hdc entry hentry
    rw [hentries] at hentry
    exact h.clock_append (y := y.context) hsetup.clock hdc hentry
  case frames =>
    intro pos entry com' hentry hcom
    rw [hentries] at hentry
    refine h.frames_append ?_ ?_ ?_ hentry hcom
    · dsimp only
      rw [hlengths]
      exact hout
    · intro i hi
      dsimp only
      rw [hothers i hi, hlengths, (hsetup.others i hi).1, (hsetup.others i hi).2, htxbuf,
        htxbuflength]
      exact ⟨rfl, rfl⟩
    · intro entry hmem heq
      exact (h.idx_pos entry hmem).ne' (hfree entry hmem heq)

/-- Segments that are sent one after the other. -/
theorem SendState.Carries.sendRun (h : x.Carries c coms) (com : EcCmdtype) (sendOk : ℕ → Bool)
    {f : ℕ → ℕ} (cur m : ℕ) (hf : ∀ k, cur ≤ k → k < cur + m → f k ≤ maxSegment)
    (hroom : x.context.idxstack.entries.length + m < ecMaxbuf) :
  (sendRun com f sendOk cur m x).Carries c (coms ++ List.replicate m com)
  := by
  induction m generalizing cur coms x with
  | zero =>
      rw [List.replicate_zero, List.append_nil]
      exact h
  | succ m ih =>
      have hlimit : maxSegment < 65536 := by decide
      have hsub := hf cur le_rfl (by omega)
      have hstep := h.sendSegment com sendOk (by omega : f cur < 65536) (by omega)
      have hlength := hstep.length
      rw [List.length_append, List.length_singleton, h.length] at hlength
      rw [EthercatMaster.sendRun, List.replicate_succ, List.append_cons]
      exact ih hstep (cur + 1) (fun k hk hlt => hf k (by omega) (by omega)) (by omega)

/-! ### The cycle -/

/-- The frames of a cycle: a transmit buffer has the frame for each place of the stack. -/
structure Context.Sends (c : Context) (coms : List EcCmdtype) (sent : Context) : Prop where
  kept : c.SentFrom sent
  length : coms.length = sent.idxstack.entries.length
  clock : c.group.hasdc = true → ∀ entry, sent.idxstack.entries[0]? = some entry →
    sent.DCl = entry.length ∧ sent.DCtO = clockOffset entry.length
  idx_pos : ∀ entry ∈ sent.idxstack.entries, 0 < entry.idx
  frames : ∀ pos entry com, sent.idxstack.entries[pos]? = some entry →
    coms[pos]? = some com →
    CarriesFrame (sent.port.txbuf entry.idx) (sent.port.txbuflength entry.idx)
      (c.sentDatagrams com pos entry)

theorem SendState.Carries.sends (h : x.Carries c coms) :
  c.Sends coms x.context
  := ⟨h.sent, h.length, h.clock, h.idx_pos, h.frames⟩

/-- Only the place in the image changes between the loops. -/
theorem SendState.Carries.restart (h : x.Carries c coms) {y : SendState} {data : ℕ}
    (hy : y.Begins x.context x.first data) :
  y.Carries c coms
  := by
  constructor
  case logAdr => rw [hy.logAdr, hy.data, h.sent.group]
  case first =>
    rw [hy.first, hy.context]
    exact h.first
  all_goals rw [hy.context]
  case sent => exact h.sent
  case configadr => exact h.configadr
  case headers => exact h.headers
  case taken => exact h.taken
  case idx_pos => exact h.idx_pos
  case length => exact h.length
  case clock => exact h.clock
  case frames => exact h.frames

/-- Nothing has been sent when the first loop starts. -/
theorem SendState.Begins.carries {data : ℕ} (hx : x.Begins c c.group.hasdc data)
    (hstack : c.idxstack.entries = []) (hheaders : c.port.HasHeaders) (hfree : c.port.Free) :
  x.Carries c []
  := by
  obtain ⟨rfl, hfirst, hlogAdr, rfl⟩ := hx
  constructor
  case sent => exact x.context.sentFrom_self hstack
  case configadr => rfl
  case logAdr => exact hlogAdr
  case headers => exact hheaders
  case taken =>
    intro k hk hlt hne
    exact absurd (hfree k hk hlt) hne
  case first =>
    rw [hfirst]
    exact (and_iff_left hstack).symm
  all_goals rw [hstack]
  case idx_pos => exact fun entry hentry => absurd hentry List.not_mem_nil
  case length => rfl
  case clock =>
    intro _ entry hentry
    cases hentry
  case frames =>
    intro pos entry com hentry
    cases hentry

/-- The commands of a cycle: the image is written and read at once, or the inputs are read and then
the outputs written. -/
def MappedBus.Commands (b : MappedBus) (blockLRW : Bool) (entries : List IdxEntry)
    (coms : List EcCmdtype) : Prop :=
  if blockLRW then
    ∃ inputs outputs, entries = inputs ++ outputs
      ∧ coms = List.replicate inputs.length .lrd ++ List.replicate outputs.length .lwr
      ∧ Tiles inputs (b.inputStart 1) (b.inputStart (b.slavecount + 1))
      ∧ Tiles outputs 0 (b.inputStart 1)
  else
    coms = List.replicate entries.length .lrw ∧ Tiles entries 0 (b.inputStart (b.slavecount + 1))

/-- The frames of a cycle carry the image with the commands for it. -/
theorem MappedBus.Segmented.sends {b : MappedBus} {g : IoGroup} (h : b.Segmented g) {c : Context}
    {group : Group} (hgroup : c.group = g.set group) (hstack : c.idxstack.entries = [])
    (hheaders : c.port.HasHeaders) (hfree : c.port.Free) (sendOk : ℕ → Bool) :
  ∃ coms, b.Commands group.blockLRW (ecSendProcessdata sendOk c).2.idxstack.entries coms
    ∧ c.Sends coms (ecSendProcessdata sendOk c).2
  := by
  have hbuf : ecMaxbuf = 16 := rfl
  have hfew := h.few
  have hIsegment := h.Isegment
  cases hblock : group.blockLRW with
  | true =>
      obtain ⟨inputs, outputs, hinputs, houtputs, hentries, x, y, hx, hy, heq⟩ :=
        h.cycle_blocks hgroup hstack hblock sendOk
      have hread := (hx.carries hstack hheaders hfree).sendRun .lrd sendOk (f := g.inputSegment)
        g.Isegment inputs.length
        (fun k _ hk => h.inputSegment_le (by have := hinputs.few; omega))
        (by have := hinputs.few; rw [hx.context, hstack, List.length_nil]; omega)
      have hreadlen := hread.length
      rw [List.nil_append, List.length_replicate, ← hy.context] at hreadlen
      have hwritten := (hread.restart hy).sendRun .lwr sendOk (f := g.outputSegment) 0
        outputs.length (fun k _ hk => h.outputSegment_le (by have := houtputs.few; omega))
        (by have := hinputs.few; have := houtputs.few; omega)
      have hsends := hwritten.sends
      rw [← heq, List.nil_append] at hsends
      refine ⟨_, ?_, hsends⟩
      rw [Commands, if_pos rfl, hentries]
      exact ⟨inputs, outputs, rfl, rfl, h.tiles_inputs hinputs, h.tiles_outputs houtputs⟩
  | false =>
      obtain ⟨entries, hpushed, hentries, x, hx, heq⟩ :=
        h.cycle_image hgroup hstack hblock sendOk
      have hcarries := (hx.carries hstack hheaders hfree).sendRun .lrw sendOk (f := g.IOsegment) 0
        entries.length (fun k _ hk => h.le k (by have := hpushed.few; omega))
        (by have := hpushed.few; rw [hx.context, hstack, List.length_nil]; omega)
      have hsends := hcarries.sends
      rw [← heq, List.nil_append] at hsends
      refine ⟨_, ?_, hsends⟩
      rw [Commands, if_neg Bool.false_ne_true, hentries]
      exact ⟨rfl, h.tiles_image hpushed⟩

namespace MappedBus

variable {b : MappedBus} {coms : List EcCmdtype}

/-- A frame on the wire: behind the Ethernet header a slave reads the datagrams of a place of the
stack and no others, however many it would read, and the frame is not too long. -/
structure OnWire (c : Context) (com : EcCmdtype) (pos : ℕ) (entry : IdxEntry) (p : Port) :
    Prop where
  header : (p.txbuf entry.idx).take ethercatFrameHeader = ethernetHeader
  elength : (p.txbuf entry.idx).uint16 ethercatFrameHeader
    = ecEcattype + (datagramsSize (c.sentDatagrams com pos entry)).toUInt16
  datagrams : ∀ fuel, 2 ≤ fuel →
    datagramsFrom (p.txbuf entry.idx) fuel (ethercatFrameHeader + ecElengthsize)
      = c.sentDatagrams com pos entry
  length_le : p.txbuflength entry.idx ≤ ecMaxecatframe

theorem sentDatagrams_length (c : Context) (com : EcCmdtype) (pos : ℕ) {entry : IdxEntry}
    (hlength : entry.length ≤ maxSegment) :
  (∀ d ∈ c.sentDatagrams com pos entry, d.data.length < 2048)
    ∧ (c.sentDatagrams com pos entry).length ≤ 2
    ∧ datagramsSize (c.sentDatagrams com pos entry) ≤ ecHeadersize + entry.length + 20
  := by
  have hlimit : maxSegment < 2048 := by decide
  have hsegment : (c.segmentDatagram com entry).data.length = entry.length :=
    com.datagram_length _ _ _ _ _
  have hsize : (c.segmentDatagram com entry).size = ecHeadersize + entry.length :=
    com.datagram_size _ _ _ _ _
  have hclock : (c.clockDatagram entry.idx).data.length = 8 :=
    EcCmdtype.frmw.datagram_length _ _ _ _ _
  have hclocksize : (c.clockDatagram entry.idx).size = 20 :=
    EcCmdtype.frmw.datagram_size _ _ _ _ _
  rw [Context.sentDatagrams]
  split
  case isTrue =>
    refine ⟨?_, le_rfl, ?_⟩
    · intro d hd
      rcases List.mem_pair.mp hd with rfl | rfl
      · omega
      · omega
    · rw [datagramsSize_cons, datagramsSize_singleton, hsize, hclocksize]
  case isFalse =>
    refine ⟨?_, Nat.le_succ 1, ?_⟩
    · intro d hd
      rw [List.mem_singleton.mp hd]
      omega
    · rw [datagramsSize_singleton, hsize]
      omega

/-- A frame in a transmit buffer is read from the wire. -/
theorem onWire {c : Context} {com : EcCmdtype} {pos : ℕ} {entry : IdxEntry} {p : Port}
    (h : CarriesFrame (p.txbuf entry.idx) (p.txbuflength entry.idx) (c.sentDatagrams com pos entry))
    (hlength : entry.length ≤ maxSegment) :
  OnWire c com pos entry p
  := by
  obtain ⟨hlengths, hcount, hsize⟩ := sentDatagrams_length c com pos hlength
  constructor
  case header =>
    apply List.ext_getElem
    · exact Bytes.length_take _ _
    · intro i hi hi'
      have hlt : i < ethercatFrameHeader := hi'
      simp only [Bytes.take, List.getElem_map, List.getElem_range]
      rw [h.header i hlt, List.getD_eq_getElem _ _ hi']
  case elength => exact h.elength
  case datagrams =>
    intro fuel hfuel
    exact h.datagrams.datagramsFrom hlengths (List.cons_ne_nil _ _) (hcount.trans hfuel)
  case length_le =>
    have hlimit : ethercatFrameHeader + ecElengthsize + (ecHeadersize + maxSegment + 20)
      ≤ ecMaxecatframe := by decide
    rw [h.length]
    omega

/-- From the mapping to the wire: in a cycle that starts with free indices, each frame is read by
the slaves as the datagram of its segment, the first one with the datagram of the system time, and
is not too long; the commands are those for the image. -/
theorem cycle_onWire (b : MappedBus)
    (hslave : ∀ n, b.IsAxis n → b.outputSize n ≤ maxSegment ∧ b.inputSize n ≤ maxSegment)
    (himage : b.inputStart (b.slavecount + 1) ≤ ioMapSize) (IOsegment : ℕ → ℕ) (group : Group)
    (c : Context)
    (hgroup : c.group = (ecxConfigMapSegments b.slavecount b.slave IOsegment).set group)
    (hstack : c.idxstack.entries = []) (hheaders : c.port.HasHeaders) (hfree : c.port.Free)
    (sendOk : ℕ → Bool) :
  ∃ coms, b.Commands group.blockLRW (ecSendProcessdata sendOk c).2.idxstack.entries coms
    ∧ ∀ pos entry com, (ecSendProcessdata sendOk c).2.idxstack.entries[pos]? = some entry →
      coms[pos]? = some com → OnWire c com pos entry (ecSendProcessdata sendOk c).2.port
  := by
  have hsegmented := b.segmented IOsegment hslave himage
  obtain ⟨coms, hcoms, hsends⟩ := hsegmented.sends hgroup hstack hheaders hfree sendOk
  refine ⟨coms, hcoms, ?_⟩
  intro pos entry com hentry hcom
  apply onWire (hsends.frames pos entry com hentry hcom)
  exact (hsegmented.carried hgroup hstack sendOk).le entry (List.mem_of_getElem? hentry)

/-- Sixty drives whose outputs and inputs must not be in a datagram together. -/
def sixtyBlocked : Context :=
  { sixtyMapped with
    port := ecSetupheader Port.init
    group := (ecxConfigMapSegments 60 sixtyDrives.slave fun _ => 0).set
      ⟨0, 0, 0, 0, 0, true, 1, true, 0, 0, 0, 0, 0, fun _ => 0⟩ }

theorem cycle_onWire_sixty :
  ∃ coms, sixtyDrives.Commands true
      (ecSendProcessdata (fun _ => true) sixtyBlocked).2.idxstack.entries coms
    ∧ ∀ pos entry com,
      (ecSendProcessdata (fun _ => true) sixtyBlocked).2.idxstack.entries[pos]? = some entry →
      coms[pos]? = some com →
      OnWire sixtyBlocked com pos entry (ecSendProcessdata (fun _ => true) sixtyBlocked).2.port
  := by
  apply cycle_onWire sixtyDrives ?_ (by decide +kernel) (fun _ => 0)
    ⟨0, 0, 0, 0, 0, true, 1, true, 0, 0, 0, 0, 0, fun _ => 0⟩ sixtyBlocked rfl rfl
    (hasHeaders_ecSetupheader _) (fun _ _ _ => rfl)
  intro n _
  exact ⟨(by decide : (driveWith 13).outputSize ≤ maxSegment),
    (by decide : (driveWith 13).inputSize ≤ maxSegment)⟩

end MappedBus

end EthercatMaster
