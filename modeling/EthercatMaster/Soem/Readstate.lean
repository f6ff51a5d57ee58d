import EthercatMaster.Soem.Confirm

/-!
# Reading the states of the slaves

`ecx_readstate` first asks all slaves at once.  If they do not all report the same state, it asks
them one by one, up to 64 of them in one frame.
-/

namespace EthercatMaster

/-! ### Primitives -/

/-- `ECT_REG_ALSTAT`. -/
def ectRegAlstat : UInt16 := 0x0130

/-- The index of a transaction that is begun now. -/
def Port.nextIdx (p : Port) : ℕ := (ecxGetindex p).1

/-- The port when the frame of a broadcast is ready to be sent. -/
def brdSetup (adp ado : UInt16) (length : ℕ) (data : Bytes) (p : Port) : Port :=
  ecxSetupdatagram .brd p.nextIdx adp ado length data (ecxGetindex p).2

/-- `ecx_BRD`: the working counter, and the data. -/
def ecxBRD (adp ado : UInt16) (length : ℕ) (data : Bytes) (t : Transaction) (p : Port) :
    ℤ × Bytes × Port :=
  let idx := p.nextIdx
  let (wkc, p) := ecxSrconfirm idx t (brdSetup adp ado length data p)
  (wkc, if 0 < wkc then data.copy 0 ((p.rxbuf idx).drop ecHeadersize) length else data,
    ecxSetbufstat idx .empty p)

/-- `ec_alstatust`. -/
structure AlStatus where
  alstatus : UInt16
  unused : UInt16
  alstatuscode : UInt16
deriving DecidableEq, Repr

/-- The size of an `ec_alstatust`. -/
def alStatusSize : ℕ := 6

/-- `MAX_FPRD_MULTI`. -/
def maxFprdMulti : ℕ := 64

/-- An `ec_alstatust` in a buffer. -/
def AlStatus.read (b : Bytes) (pos : ℕ) : AlStatus :=
  ⟨b.uint16 pos, b.uint16 (pos + 2), b.uint16 (pos + 4)⟩

/-- `ecx_adddatagram`: a datagram that is not the last one says so. -/
def adddatagram (more : Bool) (com : EcCmdtype) (idx : ℕ) (adp ado : UInt16) (length : ℕ)
    (data : Bytes) (p : Port) : ℕ × Port :=
  let (offset, q) := ecxAdddatagram com idx adp ado length data p
  if more then
    (offset, { q with
      txbuf := Function.update q.txbuf idx ((q.txbuf idx).copy (p.txbuflength idx + 6)
        (Bytes.ofUInt16 (length.toUInt16 ||| ecDatagramfollows)) 2) })
  else (offset, q)

/-- The loop of `ecx_FPRD_multi` that adds datagrams, with the positions of their data. -/
def addDatagrams (n idx : ℕ) (configlst : ℕ → UInt16) :
    (count slcnt : ℕ) → (ℕ → ℕ) × Port → (ℕ → ℕ) × Port
  | 0, _, x => x
  | count + 1, slcnt, (sldatapos, p) =>
      let (offset, p) := adddatagram (slcnt + 1 < n) .fprd idx (configlst slcnt) ectRegAlstat
        alStatusSize (fun _ => 0) p
      addDatagrams n idx configlst count (slcnt + 1) (Function.update sldatapos slcnt offset, p)

/-- The port when the frame of `ecx_FPRD_multi` is ready to be sent, with the positions of its
data. -/
def fprdSetup (n : ℕ) (configlst : ℕ → UInt16) (p : Port) : (ℕ → ℕ) × Port :=
  addDatagrams n p.nextIdx configlst (n - 1) 1
    (fun _ => ecHeadersize,
      ecxSetupdatagram .fprd p.nextIdx (configlst 0) ectRegAlstat alStatusSize (fun _ => 0)
        (ecxGetindex p).2)

/-- `ecx_FPRD_multi`: the working counter, and the states. -/
def ecxFPRDMulti (n : ℕ) (configlst : ℕ → UInt16) (slstatlst : ℕ → AlStatus) (t : Transaction)
    (p : Port) : ℤ × (ℕ → AlStatus) × Port :=
  let idx := p.nextIdx
  let (sldatapos, p) := fprdSetup n configlst p
  let (wkc, p) := ecxSrconfirm idx t p
  (wkc,
    if 0 ≤ wkc then
      fun slcnt =>
        if slcnt < n then AlStatus.read (p.rxbuf idx) (sldatapos slcnt) else slstatlst slcnt
    else slstatlst,
    ecxSetbufstat idx .empty p)

/-! ### Their replies -/

theorem adddatagram_spec (more : Bool) (com : EcCmdtype) (idx : ℕ) (adp ado : UInt16) (length : ℕ)
    (data : Bytes) (p : Port) :
  (adddatagram more com idx adp ado length data p).1
      = p.txbuflength idx + ecHeadersize - ecElengthsize - ethercatFrameHeader
    ∧ (adddatagram more com idx adp ado length data p).2.txbuflength idx
      = p.txbuflength idx + ecHeadersize - ecElengthsize + ecWkcsize + length
    ∧ (adddatagram more com idx adp ado length data p).2.rxbuf = p.rxbuf
  := by
  rw [adddatagram]
  cases more with
  | true => exact ⟨rfl, Function.update_self .., rfl⟩
  | false => exact ⟨rfl, Function.update_self .., rfl⟩

/-- Where the data of a datagram of `ecx_FPRD_multi` is. -/
def alStatusPos (slcnt : ℕ) : ℕ := ecHeadersize + 18 * slcnt

theorem addDatagrams_spec (n idx : ℕ) (configlst : ℕ → UInt16) (count : ℕ) {slcnt : ℕ}
    {x : (ℕ → ℕ) × Port} (hpos : ∀ k < slcnt, x.1 k = alStatusPos k)
    (hlength : x.2.txbuflength idx = alStatusPos slcnt + 4) :
  (∀ k < slcnt + count, (addDatagrams n idx configlst count slcnt x).1 k = alStatusPos k)
    ∧ (addDatagrams n idx configlst count slcnt x).2.rxbuf = x.2.rxbuf
  := by
  induction count generalizing slcnt x with
  | zero => exact ⟨hpos, rfl⟩
  | succ count ih =>
      obtain ⟨sldatapos, p⟩ := x
      obtain ⟨hoffset, hnext, hrxbuf⟩ := adddatagram_spec (slcnt + 1 < n) .fprd idx
        (configlst slcnt) ectRegAlstat alStatusSize (fun _ => 0) p
      dsimp only at hpos hlength
      rw [hlength] at hoffset hnext
      rw [addDatagrams, ← hrxbuf]
      dsimp only
      rw [show slcnt + (count + 1) = slcnt + 1 + count by omega]
      apply ih
      · intro k hk
        rcases Nat.lt_succ_iff_lt_or_eq.mp hk with hk | rfl
        · exact (Function.update_of_ne hk.ne ..).trans (hpos k hk)
        · exact (Function.update_self ..).trans hoffset
      · rw [hnext]
        simp only [alStatusPos, ecHeadersize, ecElengthsize, ecWkcsize, alStatusSize]
        omega

theorem fprdSetup_spec (n : ℕ) (configlst : ℕ → UInt16) (p : Port) :
  (∀ k < n, (fprdSetup n configlst p).1 k = alStatusPos k)
    ∧ (fprdSetup n configlst p).2.rxbuf = p.rxbuf
  := by
  have hfirst : ∀ k < 1, ((fun _ => ecHeadersize, ecxSetupdatagram .fprd p.nextIdx (configlst 0)
      ectRegAlstat alStatusSize (fun _ => 0) (ecxGetindex p).2) : (ℕ → ℕ) × Port).1 k
        = alStatusPos k := by
    intro k hk
    rw [Nat.lt_one_iff.mp hk]
    rfl
  obtain ⟨hpos, hrxbuf⟩ := addDatagrams_spec n p.nextIdx configlst (n - 1) hfirst
    (Function.update_self ..)
  constructor
  · intro k hk
    apply hpos k
    omega
  · exact hrxbuf.trans (ecxGetindex_rx p).1

/-! ### The states -/

/-- `ecx_contextt` as far as the states of the slaves are concerned.  There are less than
`EC_MAXSLAVE` slaves, so that a number of a slave is a `uint16`. -/
structure Bus where
  port : Port
  slavecount : ℕ
  configadr : ℕ → UInt16
  state : ℕ → UInt16
  ALstatuscode : ℕ → UInt16

/-- The transactions of a call of `ecx_readstate`. -/
structure ReadIo where
  brd : Transaction
  fprd : ℕ → Transaction

/-- A state that all slaves can be in at once. -/
def isSlaveState (bitwisestate : UInt16) : Bool :=
  bitwisestate ∈ [0x01, 0x02, 0x03, 0x04, 0x08]

/-- The loop that stores the states of a block of slaves, and finds the lowest. -/
def storeStates (fslave : ℕ) (sl : ℕ → AlStatus) : List ℕ → UInt16 × Bus → UInt16 × Bus
  | [], x => x
  | slave :: slaves, (lowest, b) =>
      let rval := (sl (slave - fslave)).alstatus
      let code := (sl (slave - fslave)).alstatuscode
      let ALstatuscode := Function.update b.ALstatuscode slave code
      storeStates fslave sl slaves
        (if rval &&& 0xf < lowest then rval &&& 0xf else lowest,
          { b with
            ALstatuscode := Function.update ALstatuscode 0 (ALstatuscode 0 ||| code)
            state := Function.update b.state slave rval })

/-- The last slave of the block that begins with `fslave`. -/
def lslave (slavecount fslave : ℕ) : ℕ :=
  if (maxFprdMulti : ℤ) ≤ slavecount - fslave then fslave + maxFprdMulti - 1 else slavecount

/-- The blocks of slaves that are asked with one frame each, as the loop of `ecx_readstate` finds
them.  The number of rounds is bounded by `rounds`. -/
def slaveBlocks (slavecount : ℕ) : (rounds fslave : ℕ) → List (ℕ × ℕ)
  | 0, _ => []
  | rounds + 1, fslave =>
      (fslave, lslave slavecount fslave) ::
        if lslave slavecount fslave < slavecount then
          slaveBlocks slavecount rounds (lslave slavecount fslave + 1)
        else []

/-- The number of slaves in a block. -/
def blockSize (block : ℕ × ℕ) : ℕ := block.2 + 1 - block.1

/-- A round of the loop: a block of slaves is asked. -/
def readBlock (t : Transaction) (block : ℕ × ℕ) (x : UInt16 × Bus) : UInt16 × Bus :=
  let (lowest, b) := x
  let (_, sl, port) := ecxFPRDMulti (blockSize block) (fun slcnt => b.configadr (block.1 + slcnt))
    (fun _ => ⟨0, 0, 0⟩) t b.port
  storeStates block.1 sl (List.range' block.1 (blockSize block)) (lowest, { b with port := port })

/-- The loop over the blocks. -/
def readBlocks (fprd : ℕ → Transaction) :
    ℕ → List (ℕ × ℕ) → UInt16 × Bus → UInt16 × Bus
  | _, [], x => x
  | i, block :: blocks, x => readBlocks fprd (i + 1) blocks (readBlock (fprd i) block x)

/-- The working counter and the states of all slaves at once. -/
def readBroadcast (io : ReadIo) (b : Bus) : ℤ × UInt16 × Port :=
  let (wkc, rval, port) := ecxBRD 0 ectRegAlstat 2 (fun _ => 0) io.brd b.port
  (wkc, rval.uint16 0, port)

/-- All slaves have answered with the same state, and none with an error. -/
def allSame (io : ReadIo) (b : Bus) : Bool :=
  let (wkc, rval, _) := readBroadcast io b
  rval &&& 0x10 = 0 && isSlaveState (rval &&& 0xf) && decide ((b.slavecount : ℤ) ≤ wkc)

/-- After the slaves were asked at once. -/
def afterBroadcast (io : ReadIo) (b : Bus) : Bus :=
  let (_, rval, port) := readBroadcast io b
  { b with
    port := port
    ALstatuscode :=
      if rval &&& 0x10 = 0 then Function.update b.ALstatuscode 0 0 else b.ALstatuscode
    state :=
      if isSlaveState (rval &&& 0xf) then Function.update b.state 0 (rval &&& 0xf)
      else b.state }

/-- The blocks of slaves. -/
def Bus.blocks (b : Bus) : List (ℕ × ℕ) :=
  slaveBlocks b.slavecount (b.slavecount + 1) 1

/-- Before the slaves are asked one by one. -/
def beforeBlocks (io : ReadIo) (b : Bus) : Bus :=
  let b := afterBroadcast io b
  { b with ALstatuscode := Function.update b.ALstatuscode 0 0 }

/-- `ecx_readstate`: the lowest state. -/
def ecxReadstate (io : ReadIo) (b : Bus) : UInt16 × Bus :=
  let bitwisestate := (readBroadcast io b).2.1 &&& 0xf
  if allSame io b then
    let c := afterBroadcast io b
    (bitwisestate,
      { c with
        ALstatuscode := fun slave =>
          if 0 < slave ∧ slave ≤ b.slavecount then 0 else c.ALstatuscode slave
        state := fun slave =>
          if 0 < slave ∧ slave ≤ b.slavecount then bitwisestate else c.state slave })
  else
    let (lowest, c) := readBlocks io.fprd 0 b.blocks (0xff, beforeBlocks io b)
    (lowest, { c with state := Function.update c.state 0 lowest })

/-! ### The blocks -/

theorem lslave_spec (slavecount fslave : ℕ) :
  lslave slavecount fslave ≤ slavecount
    ∧ (lslave slavecount fslave < slavecount → fslave ≤ lslave slavecount fslave)
  := by
  rw [lslave]
  have hpos : 0 < maxFprdMulti := by decide
  split
  · constructor
    · omega
    · intro _
      omega
  · constructor
    · apply le_rfl
    · intro hlt
      omega

theorem slaveBlocks_bounds (slavecount rounds fslave : ℕ) :
  ∀ block ∈ slaveBlocks slavecount rounds fslave, fslave ≤ block.1
  := by
  induction rounds generalizing fslave with
  | zero =>
      intro block hblock
      cases hblock
  | succ rounds ih =>
      intro block hblock
      rw [slaveBlocks] at hblock
      rcases List.mem_cons.mp hblock with rfl | hblock
      · apply le_rfl
      · split at hblock
        · rename_i hlt
          have hle := (lslave_spec slavecount fslave).2 hlt
          have := ih _ block hblock
          omega
        · cases hblock

/-- A block fits into one frame. -/
theorem slaveBlocks_size (slavecount rounds fslave : ℕ) :
  ∀ block ∈ slaveBlocks slavecount rounds fslave, block.2 < block.1 + maxFprdMulti
  := by
  induction rounds generalizing fslave with
  | zero =>
      intro block hblock
      cases hblock
  | succ rounds ih =>
      intro block hblock
      rw [slaveBlocks] at hblock
      rcases List.mem_cons.mp hblock with rfl | hblock
      · have hpos : 0 < maxFprdMulti := by decide
        dsimp only
        rw [lslave]
        split
        · omega
        · omega
      · split at hblock
        · apply ih _ block hblock
        · cases hblock

/-- No slave is in two blocks. -/
theorem slaveBlocks_pairwise (slavecount rounds fslave : ℕ) :
  (slaveBlocks slavecount rounds fslave).Pairwise fun block block' => block.2 < block'.1
  := by
  induction rounds generalizing fslave with
  | zero => apply List.Pairwise.nil
  | succ rounds ih =>
      rw [slaveBlocks]
      apply List.Pairwise.cons
      · intro block hblock
        split at hblock
        · apply slaveBlocks_bounds _ _ _ block hblock
        · cases hblock
      · split
        · apply ih
        · apply List.Pairwise.nil

/-- Each slave is in a block. -/
theorem exists_slaveBlock {slavecount rounds fslave slave : ℕ}
    (hrounds : slavecount < rounds + fslave) (hle : fslave ≤ slave) (hslave : slave ≤ slavecount) :
  ∃ block ∈ slaveBlocks slavecount rounds fslave, block.1 ≤ slave ∧ slave ≤ block.2
  := by
  induction rounds generalizing fslave with
  | zero => omega
  | succ rounds ih =>
      rw [slaveBlocks]
      by_cases hin : slave ≤ lslave slavecount fslave
      · exact ⟨_, List.mem_cons_self, hle, hin⟩
      · have hlt : lslave slavecount fslave < slavecount := by omega
        have hnext := (lslave_spec slavecount fslave).2 hlt
        rw [if_pos hlt]
        have hrounds' : slavecount < rounds + (lslave slavecount fslave + 1) := by omega
        obtain ⟨block, hblock, hmem⟩ := ih hrounds' (by omega)
        exact ⟨block, List.mem_cons_of_mem _ hblock, hmem⟩

theorem Bus.exists_block {b : Bus} {slave : ℕ} (hpos : 0 < slave) (hslave : slave ≤ b.slavecount) :
  ∃ (i : ℕ) (block : ℕ × ℕ), b.blocks[i]? = some block ∧ block.1 ≤ slave ∧ slave ≤ block.2
  := by
  have hrounds : b.slavecount < b.slavecount + 1 + 1 := by omega
  obtain ⟨block, hblock, hmem⟩ := exists_slaveBlock hrounds hpos hslave
  obtain ⟨i, hi⟩ := List.mem_iff_getElem?.mp hblock
  exact ⟨i, block, hi, hmem⟩

/-- The port when the frame for a block is ready to be sent. -/
def Bus.fprdReady (b : Bus) (block : ℕ × ℕ) : Port :=
  (fprdSetup (blockSize block) (fun slcnt => b.configadr (block.1 + slcnt)) b.port).2

/-- The reply that is received for a block. -/
def Bus.fprdReply (b : Bus) (block : ℕ × ℕ) (t : Transaction) : Option (List UInt8) :=
  t.reply b.port.nextIdx (b.fprdReady block)

/-- The receive buffer after a block was asked. -/
def Bus.fprdBuffer (b : Bus) (block : ℕ × ℕ) (t : Transaction) : Bytes :=
  withReply (b.port.rxbuf b.port.nextIdx) (b.fprdReply block t)

/-- The states that `ecx_FPRD_multi` returns are in the receive buffer. -/
theorem ecxFPRDMulti_alstatus (n : ℕ) (configlst : ℕ → UInt16) (slstatlst : ℕ → AlStatus)
    (t : Transaction) (p : Port) {slcnt : ℕ} (h : slcnt < n) :
  (ecxFPRDMulti n configlst slstatlst t p).2.1 slcnt
    = AlStatus.read (withReply (p.rxbuf p.nextIdx) (t.reply p.nextIdx (fprdSetup n configlst p).2))
      (alStatusPos slcnt)
  := by
  obtain ⟨hpos, hrxbuf⟩ := fprdSetup_spec n configlst p
  obtain ⟨hbuffer, -⟩ := ecxSrconfirm_spec p.nextIdx t (fprdSetup n configlst p).2
  have hwkc := ecxSrconfirm_nonneg p.nextIdx t (fprdSetup n configlst p).2
  rw [ecxFPRDMulti]
  dsimp only
  rw [if_pos hwkc, if_pos h, hbuffer, hrxbuf, hpos slcnt h]

theorem storeStates_spec (fslave : ℕ) (sl : ℕ → AlStatus) {slaves : List ℕ} (hslaves : slaves.Nodup)
    (x : UInt16 × Bus) (slave : ℕ) :
  (storeStates fslave sl slaves x).2.state slave
      = (if slave ∈ slaves then (sl (slave - fslave)).alstatus else x.2.state slave)
  := by
  induction slaves generalizing x with
  | nil => rfl
  | cons first slaves ih =>
      obtain ⟨lowest, b⟩ := x
      obtain ⟨hfirst, hslaves⟩ := List.nodup_cons.mp hslaves
      rw [storeStates]
      dsimp only
      rw [ih hslaves]
      dsimp only
      rcases eq_or_ne slave first with rfl | hne
      · rw [if_neg hfirst, if_pos List.mem_cons_self, Function.update_self]
      · simp [hne]

/-- What a round of the loop does to the states. -/
theorem readBlock_state (t : Transaction) (block : ℕ × ℕ) (x : UInt16 × Bus) (slave : ℕ) :
  (readBlock t block x).2.state slave
    = if block.1 ≤ slave ∧ slave ≤ block.2 then
        (x.2.fprdBuffer block t).uint16 (alStatusPos (slave - block.1))
      else x.2.state slave
  := by
  obtain ⟨lowest, b⟩ := x
  rw [readBlock]
  dsimp only
  rw [storeStates_spec block.1 _ List.nodup_range']
  have hmem : slave ∈ List.range' block.1 (blockSize block) ↔ block.1 ≤ slave ∧ slave ≤ block.2 := by
    rw [List.mem_range'_1, blockSize]
    omega
  by_cases hin : block.1 ≤ slave ∧ slave ≤ block.2
  · have hlt : slave - block.1 < blockSize block := by
      rw [blockSize]
      omega
    rw [if_pos (hmem.mpr hin), if_pos hin, ecxFPRDMulti_alstatus _ _ _ _ _ hlt]
    rfl
  · rw [if_neg (fun h => hin (hmem.mp h)), if_neg hin]

theorem readBlocks_state_of_notMem (fprd : ℕ → Transaction) (i : ℕ) {blocks : List (ℕ × ℕ)}
    {slave : ℕ} (h : ∀ block ∈ blocks, ¬ (block.1 ≤ slave ∧ slave ≤ block.2)) (x : UInt16 × Bus) :
  (readBlocks fprd i blocks x).2.state slave = x.2.state slave
  := by
  induction blocks generalizing i x with
  | nil => rfl
  | cons block blocks ih =>
      rw [readBlocks, ih _ (fun block hblock => h block (List.mem_cons_of_mem _ hblock)),
        readBlock_state, if_neg (h block List.mem_cons_self)]

/-- The state of a slave is read in its block. -/
theorem readBlocks_state (fprd : ℕ → Transaction) (j : ℕ) {blocks : List (ℕ × ℕ)}
    (hblocks : blocks.Pairwise fun block block' => block.2 < block'.1) {i : ℕ} {block : ℕ × ℕ}
    (hi : blocks[i]? = some block) {slave : ℕ} (hslave : block.1 ≤ slave ∧ slave ≤ block.2)
    (x : UInt16 × Bus) :
  (readBlocks fprd j blocks x).2.state slave
    = ((readBlocks fprd j (blocks.take i) x).2.fprdBuffer block (fprd (j + i))).uint16
      (alStatusPos (slave - block.1))
  := by
  induction blocks generalizing i j x with
  | nil => cases hi
  | cons first blocks ih =>
      obtain ⟨hfirst, hblocks⟩ := List.pairwise_cons.mp hblocks
      rw [readBlocks]
      cases i with
      | zero =>
          rw [List.getElem?_cons_zero, Option.some.injEq] at hi
          subst hi
          rw [readBlocks_state_of_notMem, readBlock_state, if_pos hslave]
          · rfl
          · intro block hblock
            have := hfirst block hblock
            omega
      | succ i =>
          rw [List.getElem?_cons_succ] at hi
          rw [ih (j + 1) hblocks hi, List.take_succ_cons, readBlocks,
            show j + (i + 1) = j + 1 + i by omega]

end EthercatMaster
