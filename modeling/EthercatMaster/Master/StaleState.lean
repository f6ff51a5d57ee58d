import EthercatMaster.Master.Bringup
import EthercatMaster.Soem.Readstate

/-!
# States from replies

The states that `ecx_readstate` stores come from replies to its own frames as long as every frame
has a reply that is long enough.  Without a reply the port reports a working counter of zero, and
the states of slaves are read from what is left in the receive buffer.
-/

namespace EthercatMaster

/-! ### The transactions of a call -/

section Readstate

variable (io : ReadIo) (b : Bus)

/-- The reply received for the broadcast. -/
def brdReply : Option (List UInt8) :=
  io.brd.reply b.port.nextIdx (brdSetup 0 ectRegAlstat 2 (fun _ => 0) b.port)

/-- The bus before a block of slaves is asked. -/
def busBefore (i : ℕ) : Bus :=
  (readBlocks io.fprd 0 (b.blocks.take i) (0xff, beforeBlocks io b)).2

/-- The reply received for a block. -/
def blockReply (i : ℕ) (block : ℕ × ℕ) : Option (List UInt8) :=
  (busBefore io b i).fprdReply block (io.fprd i)

/-- The result of asking a block. -/
def blockResult (i : ℕ) (block : ℕ × ℕ) : ℤ × (ℕ → AlStatus) × Port :=
  ecxFPRDMulti (blockSize block) (fun slcnt => (busBefore io b i).configadr (block.1 + slcnt))
    (fun _ => ⟨0, 0, 0⟩) (io.fprd i) (busBefore io b i).port

/-- A 16-bit number at a position of a reply. -/
def InReply (reply : Option (List UInt8)) (pos : ℕ) (value : UInt16) : Prop :=
  ∃ frame, reply = some frame ∧ pos + 2 ≤ payloadLength frame ∧ (payload frame).uint16 pos = value

/-- A slave has reported the state OPERATIONAL in a reply of the call: in the reply to the broadcast,
with the working counter of all slaves, or in the reply to its block. -/
def ReportedOperational (slave : ℕ) : Prop :=
  (allSame io b = true
      ∧ ∃ status wkc, InReply (brdReply io b) ecHeadersize status
        ∧ status &&& 0xf = ecStateOperational
        ∧ InReply (brdReply io b) (ecHeadersize + 2) wkc ∧ b.slavecount ≤ wkc.toNat)
    ∨ (allSame io b = false
      ∧ ∃ (i : ℕ) (block : ℕ × ℕ), b.blocks[i]? = some block ∧ (block.1 ≤ slave ∧ slave ≤ block.2)
        ∧ InReply (blockReply io b i block) (alStatusPos (slave - block.1)) ecStateOperational)

/-- No stale state: a transaction without a reply is reported as such and its data is left as it
was, each state of a slave that was asked for comes from a reply or is zero, and a result of the
requests for OPERATIONAL rests on replies. -/
structure NoStaleState (returned : Bool) : Prop where
  broadcast : brdReply io b = none →
    (readBroadcast io b).1 < 0 ∧ (readBroadcast io b).2.1 = 0
  blocks : allSame io b = false → ∀ i block, b.blocks[i]? = some block →
    blockReply io b i block = none →
    (blockResult io b i block).1 < 0 ∧ (blockResult io b i block).2.1 = fun _ => ⟨0, 0, 0⟩
  states : allSame io b = false → ∀ (i : ℕ) (block : ℕ × ℕ), b.blocks[i]? = some block →
    ∀ slave, 0 < slave → block.1 ≤ slave ∧ slave ≤ block.2 →
      (ecxReadstate io b).2.state slave = 0
        ∨ InReply (blockReply io b i block) (alStatusPos (slave - block.1))
          ((ecxReadstate io b).2.state slave)
  operational : returned = true → ∀ slave ∈ slavesTo b.slavecount, ReportedOperational io b slave

/-- Every transaction has a reply.  It reaches to the state of each slave of its block, unless the
bytes there, which are left from before, are zero; and the reply to the broadcast reaches to its
working counter, if it is found that all slaves are OPERATIONAL. -/
structure AllReported (requested : Bool) : Prop where
  broadcast : brdReply io b ≠ none
  blocks : allSame io b = false → ∀ i block, b.blocks[i]? = some block →
    blockReply io b i block ≠ none
  states : allSame io b = false → ∀ (i : ℕ) (block : ℕ × ℕ), b.blocks[i]? = some block →
    ∀ slave, 0 < slave → block.1 ≤ slave ∧ slave ≤ block.2 →
      (∃ frame, blockReply io b i block = some frame
        ∧ alStatusPos (slave - block.1) + 2 ≤ payloadLength frame)
      ∨ ((busBefore io b i).fprdBuffer block (io.fprd i)).uint16 (alStatusPos (slave - block.1)) = 0
  operational : requested = true → 0 < b.slavecount → b.slavecount < ecMaxslave →
    allSame io b = true → (readBroadcast io b).2.1 &&& 0xf = ecStateOperational →
    ∃ frame, brdReply io b = some frame ∧ ecHeadersize + 4 ≤ payloadLength frame

variable {io b}

/-- Where a reply reaches to, the receive buffer has its bytes, as far as `tempinbuf` goes. -/
theorem withReply_uint16 (buffer : Bytes) {frame : List UInt8} {pos : ℕ}
    (h : pos + 2 ≤ payloadLength frame)
    (hoffset : ethercatFrameHeader + pos + 2 ≤ tempinbufsOffset) :
  (withReply buffer (some frame)).uint16 pos = (payload frame).uint16 pos
  := by
  apply Bytes.uint16_congr
  intro i hi
  rw [withReply, Option.elim_some, Bytes.copy_zero_of_lt (by omega)]
  apply receivedPayload_of_lt
  omega

/-- The states of the slaves of a block are in the part of the reply that fits into `tempinbuf`. -/
theorem Bus.alStatusPos_le {i : ℕ} {block : ℕ × ℕ} (hi : b.blocks[i]? = some block) {slave : ℕ}
    (hslave : block.1 ≤ slave ∧ slave ≤ block.2) :
  ethercatFrameHeader + alStatusPos (slave - block.1) + 2 ≤ tempinbufsOffset
  := by
  have hsize := slaveBlocks_size _ _ _ block (List.mem_of_getElem? hi)
  rw [maxFprdMulti] at hsize
  rw [alStatusPos, ethercatFrameHeader, ecHeadersize, tempinbufsOffset]
  omega

/-- What the broadcast returns, in terms of the receive buffer. -/
theorem readBroadcast_spec (io : ReadIo) (b : Bus) :
  ((readBroadcast io b).1 = 0
      ∨ (readBroadcast io b).1
        = ((withReply (b.port.rxbuf b.port.nextIdx) (brdReply io b)).uint16
          (ecHeadersize + 2)).toNat)
    ∧ (brdReply io b = none → (readBroadcast io b).1 = 0)
    ∧ (readBroadcast io b).2.1
      = if 0 < (readBroadcast io b).1 then
          (withReply (b.port.rxbuf b.port.nextIdx) (brdReply io b)).uint16 ecHeadersize
        else 0
  := by
  obtain ⟨hbuffer, htxbuflength, hwkc, hnone⟩ := ecxSrconfirm_spec b.port.nextIdx io.brd
    (brdSetup 0 ectRegAlstat 2 (fun _ => 0) b.port)
  have hrxbuf : (brdSetup 0 ectRegAlstat 2 (fun _ => 0) b.port).rxbuf = b.port.rxbuf :=
    (ecxGetindex_rx b.port).1
  have hlength : (brdSetup 0 ectRegAlstat 2 (fun _ => 0) b.port).txbuflength b.port.nextIdx = 30 :=
    Function.update_self ..
  rw [hrxbuf] at hbuffer
  rw [readBroadcast, ecxBRD, brdReply]
  dsimp only
  generalize ecxSrconfirm b.port.nextIdx io.brd (brdSetup 0 ectRegAlstat 2 (fun _ => 0) b.port)
    = result at hbuffer htxbuflength hwkc hnone
  obtain ⟨wkc, p⟩ := result
  dsimp only at hbuffer htxbuflength hwkc hnone ⊢
  refine ⟨?_, hnone, ?_⟩
  · rcases hwkc with hwkc | hwkc
    · left
      apply hwkc
    · right
      rw [hwkc, confirmedWkc, htxbuflength, hlength, hbuffer]
      rfl
  · split
    · rw [← hbuffer, Bytes.uint16, Bytes.uint16, Bytes.copy_zero_of_lt (by decide),
        Bytes.copy_zero_of_lt (by decide)]
      rfl
    · rfl

/-- Asking a block never reports that there was no reply. -/
theorem blockResult_nonneg (i : ℕ) (block : ℕ × ℕ) :
  0 ≤ (blockResult io b i block).1
  := by
  apply ecxSrconfirm_nonneg

/-- The state of a slave that was asked for is what is in the receive buffer of its block. -/
theorem ecxReadstate_state (hsame : allSame io b = false) {i : ℕ} {block : ℕ × ℕ}
    (hi : b.blocks[i]? = some block) {slave : ℕ} (hpos : 0 < slave)
    (hslave : block.1 ≤ slave ∧ slave ≤ block.2) :
  (ecxReadstate io b).2.state slave
    = ((busBefore io b i).fprdBuffer block (io.fprd i)).uint16 (alStatusPos (slave - block.1))
  := by
  have hread := readBlocks_state io.fprd 0 (slaveBlocks_pairwise _ _ _) hi hslave
    (0xff, beforeBlocks io b)
  rw [Nat.zero_add] at hread
  rw [ecxReadstate, hsame, if_neg Bool.false_ne_true]
  exact (Function.update_of_ne hpos.ne' ..).trans hread

theorem ecxReadstate_state_of_allSame (hsame : allSame io b = true) {slave : ℕ} (hpos : 0 < slave)
    (hslave : slave ≤ b.slavecount) :
  (ecxReadstate io b).2.state slave = (readBroadcast io b).2.1 &&& 0xf
  := by
  rw [ecxReadstate, hsame, if_pos rfl]
  exact if_pos ⟨hpos, hslave⟩

/-- What the requests for OPERATIONAL return, after the last `ec_readstate`. -/
def requestOpResult (axisCount : ℕ) (request : ℕ → Bool) (m : PdoCheck) (io : ReadIo) (b : Bus) :
    Bool :=
  ethercatMasterRequestOpSequential axisCount request
    { m with slavecount := b.slavecount, slaveState := (ecxReadstate io b).2.state }

theorem requestOpResult_iff (axisCount : ℕ) (request : ℕ → Bool) (m : PdoCheck) :
  requestOpResult axisCount request m io b = true
    ↔ (slavesTo axisCount).all request = true ∧ (0 < b.slavecount ∧ b.slavecount < ecMaxslave)
      ∧ ∀ slave ∈ slavesTo b.slavecount, (ecxReadstate io b).2.state slave = ecStateOperational
  := by
  rw [requestOpResult, ethercatMasterRequestOpSequential, Bool.and_eq_true,
    ethercatMasterAllSlavesInState]
  apply and_congr_right
  intro _
  dsimp only
  split
  · constructor
    · intro hfalse
      cases hfalse
    · rintro ⟨hcount, -⟩
      omega
  · rw [and_iff_right (by omega), Int.toNat_natCast, List.all_eq_true]
    simp only [decide_eq_true_eq]

/-- With all replies, no state is stale. -/
theorem AllReported.noStaleState {axisCount : ℕ} {request : ℕ → Bool} {m : PdoCheck}
    (h : AllReported io b ((slavesTo axisCount).all request)) :
  NoStaleState io b (requestOpResult axisCount request m io b)
  := by
  have hstates : allSame io b = false → ∀ (i : ℕ) (block : ℕ × ℕ), b.blocks[i]? = some block →
      ∀ slave, 0 < slave → block.1 ≤ slave ∧ slave ≤ block.2 →
        (ecxReadstate io b).2.state slave = 0
          ∨ InReply (blockReply io b i block) (alStatusPos (slave - block.1))
            ((ecxReadstate io b).2.state slave) := by
    intro hsame i block hi slave hpos hslave
    rw [ecxReadstate_state hsame hi hpos hslave]
    rcases h.states hsame i block hi slave hpos hslave with ⟨frame, hframe, hreach⟩ | hzero
    · right
      refine ⟨frame, hframe, hreach, ?_⟩
      have hreply : (busBefore io b i).fprdReply block (io.fprd i) = some frame := hframe
      rw [Bus.fprdBuffer, hreply, withReply_uint16 _ hreach (Bus.alStatusPos_le hi hslave)]
    · left
      apply hzero
  constructor
  case broadcast =>
    intro hnone
    apply absurd hnone h.broadcast
  case blocks =>
    intro hsame i block hi hnone
    apply absurd hnone (h.blocks hsame i block hi)
  case states => apply hstates
  case operational =>
    intro hreturned slave hslave
    obtain ⟨hrequested, ⟨hcount, hmax⟩, hoperational⟩ :=
      (requestOpResult_iff axisCount request m).mp hreturned
    have hstate := hoperational slave hslave
    obtain ⟨hpos, hle⟩ := mem_slavesTo.mp hslave
    cases hsame : allSame io b with
    | true =>
        left
        rw [ecxReadstate_state_of_allSame hsame hpos hle] at hstate
        obtain ⟨frame, hframe, hreach⟩ := h.operational hrequested hcount hmax hsame hstate
        have hwkc : (b.slavecount : ℤ) ≤ (readBroadcast io b).1 := by
          rw [allSame, Bool.and_eq_true, decide_eq_true_eq] at hsame
          apply hsame.2
        have hwkcPos : 0 < (readBroadcast io b).1 := by omega
        obtain ⟨hfield, -, hrval⟩ := readBroadcast_spec io b
        rw [if_pos hwkcPos, hframe, withReply_uint16 _ (by omega) (by decide)] at hrval
        rw [hframe, withReply_uint16 _ hreach (by decide)] at hfield
        rw [hrval] at hstate
        refine ⟨hsame, _, _, ⟨frame, hframe, by omega, rfl⟩, hstate,
          ⟨frame, hframe, hreach, rfl⟩, ?_⟩
        omega
    | false =>
        right
        obtain ⟨i, block, hi, hmem⟩ := Bus.exists_block hpos hle
        refine ⟨hsame, i, block, hi, hmem, ?_⟩
        rcases hstates hsame i block hi slave hpos hmem with hzero | hreply
        · rw [hstate] at hzero
          cases hzero
        · rw [hstate] at hreply
          apply hreply

/-- Without stale states, every transaction has had its reply. -/
theorem NoStaleState.allReported {axisCount : ℕ} {request : ℕ → Bool} {m : PdoCheck}
    (h : NoStaleState io b (requestOpResult axisCount request m io b)) :
  AllReported io b ((slavesTo axisCount).all request)
  := by
  obtain ⟨-, hnone, -⟩ := readBroadcast_spec io b
  constructor
  case broadcast =>
    intro hreply
    have := (h.broadcast hreply).1
    rw [hnone hreply] at this
    cases this
  case blocks =>
    intro hsame i block hi hreply
    have := (h.blocks hsame i block hi hreply).1
    have := @blockResult_nonneg io b i block
    omega
  case states =>
    intro hsame i block hi slave hpos hslave
    rcases h.states hsame i block hi slave hpos hslave with hzero | ⟨frame, hframe, hreach, -⟩
    · right
      rw [← ecxReadstate_state hsame hi hpos hslave, hzero]
    · left
      exact ⟨frame, hframe, hreach⟩
  case operational =>
    intro hrequested hcount hmax hsame hstate
    have hreturned : requestOpResult axisCount request m io b = true := by
      apply (requestOpResult_iff axisCount request m).mpr
      refine ⟨hrequested, ⟨hcount, hmax⟩, ?_⟩
      intro slave hslave
      obtain ⟨hpos, hle⟩ := mem_slavesTo.mp hslave
      rw [ecxReadstate_state_of_allSame hsame hpos hle, hstate]
    have hone : 1 ∈ slavesTo b.slavecount := mem_slavesTo.mpr ⟨Nat.one_pos, hcount⟩
    rcases h.operational hreturned 1 hone with ⟨-, _, _, -, -, ⟨frame, hframe, hreach, -⟩, -⟩ | hnot
    · exact ⟨frame, hframe, hreach⟩
    · rw [hsame] at hnot
      cases hnot.1

end Readstate

/-- A transaction without a reply is reported as such exactly if there is none without, and a call of
`ec_readstate` at the end of the requests for OPERATIONAL leaves no stale state exactly if all its
transactions have replies that are long enough. -/
theorem no_stale_state_iff (idx : ℕ) (t : Transaction) (p : Port) (io : ReadIo) (b : Bus)
    (axisCount : ℕ) (request : ℕ → Bool) (m : PdoCheck) :
  ((t.reply idx p = none → (ecxSrconfirm idx t p).1 < 0) ↔ t.reply idx p ≠ none)
    ∧ (NoStaleState io b (requestOpResult axisCount request m io b)
      ↔ AllReported io b ((slavesTo axisCount).all request))
  := by
  constructor
  · constructor
    · intro h hnone
      have := h hnone
      have := ecxSrconfirm_nonneg idx t p
      omega
    · intro h hnone
      apply absurd hnone h
  · constructor
    · apply NoStaleState.allReported
    · apply AllReported.noStaleState

/-! ### A stale state -/

namespace StaleOperational

/-- One slave.  In the receive buffers there is the state OPERATIONAL from before. -/
def bus : Bus where
  port := { (ecxSetupnic false true Port.init).2 with
    rxbuf := fun _ i => if i = ecHeadersize then 0x08 else 0 }
  slavecount := 1
  configadr := fun _ => 0x1001
  state := fun _ => 0x04
  ALstatuscode := fun _ => 0

/-- No reply comes. -/
def silence : ReadIo where
  brd := ⟨true, [⟨[], []⟩]⟩
  fprd := fun _ => ⟨true, [⟨[], []⟩]⟩

/-- No reply is received, but the slave is found to be OPERATIONAL. -/
theorem stale_operational :
  brdReply silence bus = none ∧ (readBroadcast silence bus).1 = 0
    ∧ blockReply silence bus 0 (1, 1) = none ∧ (ecxReadstate silence bus).2.state 1 = 0x08
    ∧ requestOpResult 1 (fun _ => true) PdoCheck.oneDrive silence bus = true
    ∧ ¬ NoStaleState silence bus
      (requestOpResult 1 (fun _ => true) PdoCheck.oneDrive silence bus)
  := by
  have hnone : brdReply silence bus = none := by decide +kernel
  have hwkc : (readBroadcast silence bus).1 = 0 := by decide +kernel
  refine ⟨hnone, hwkc, ?_, ?_, ?_, ?_⟩
  · decide +kernel
  · decide +kernel
  · decide +kernel
  · intro h
    have := (h.broadcast hnone).1
    rw [hwkc] at this
    cases this

end StaleOperational

end EthercatMaster
