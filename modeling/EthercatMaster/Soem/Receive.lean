import EthercatMaster.Soem.Turn

/-!
# Where received process data comes from

`ecx_waitinframe` returns the state of the index also when no reply has come, and the loop of
`ecx_receive_processdata_group` then looks into a receive buffer that still has the reply of an
earlier cycle.  An exchange is orderly if no such reply is left there.  In an orderly exchange
everything received comes from a reply that arrived after the frames had been sent.
-/

namespace EthercatMaster

/-! ### Waiting -/

/-- A wait leaves the receive buffers as they are, or puts the payload of one frame into one of
them. -/
theorem Port.wait_step (idx : ℕ) (wait : Wait) (p : Port) :
  (∀ frame ∈ (p.wait idx wait).2.frames, frame ∈ p.frames ∨ frame ∈ wait.frames)
    ∧ (((p.wait idx wait).2.rxbuf = p.rxbuf ∧ (p.wait idx wait).2.rxbufstat = p.rxbufstat)
      ∨ ∃ frame idx', (frame ∈ p.frames ∨ frame ∈ wait.frames)
        ∧ (p.arrive wait.arrivals).Accepts frame idx'
        ∧ (p.wait idx wait).2.rxbuf = Function.update p.rxbuf idx'
          ((p.rxbuf idx').copy 0 (receivedPayload frame) (payloadLength frame))
        ∧ (p.wait idx wait).2.rxbufstat = Function.update p.rxbufstat idx' .rcvd)
  := by
  obtain ⟨rxQueue, harrive⟩ := p.arrive_eq wait.arrivals
  have hrxbuf : (p.arrive wait.arrivals).rxbuf = p.rxbuf := by rw [harrive]
  have hrxbufstat : (p.arrive wait.arrivals).rxbufstat = p.rxbufstat := by rw [harrive]
  -- a frame in the queue when the wait begins
  have hqueue : ∀ frame ∈ (p.arrive wait.arrivals).frames,
      frame ∈ p.frames ∨ frame ∈ wait.frames := by
    intro frame hframe
    rw [p.frames_arrive] at hframe
    rcases mem_foldl_boundedPush hframe with hframe | hframe
    · left
      apply hframe
    · right
      apply List.mem_append_left _ hframe
  by_cases hrcvd : (p.arrive wait.arrivals).rxbufstat idx = .rcvd
  · rw [Port.wait, ecxWaitinframe, if_pos hrcvd]
    refine ⟨hqueue, ?_⟩
    left
    exact ⟨hrxbuf, hrxbufstat⟩
  obtain ⟨rxQueue', hrest, heq⟩ := ecxWaitinframe_eq hrcvd wait.yields
  have htaken : ∀ frame, (takeFrame (wait.yields.map arrived) (p.arrive wait.arrivals).frames).1
        = some frame
      ∨ frame ∈ (takeFrame (wait.yields.map arrived) (p.arrive wait.arrivals).frames).2 →
      frame ∈ p.frames ∨ frame ∈ wait.frames := by
    intro frame hframe
    rcases mem_takeFrame hframe with hframe | ⟨frames, hframes, hframe⟩
    · apply hqueue frame hframe
    · right
      apply List.mem_append_right
      exact List.mem_flatten.mpr ⟨frames, hframes, hframe⟩
  constructor
  · intro frame hframe
    apply htaken
    right
    rw [← hrest]
    rw [Port.wait, heq] at hframe
    apply hframe
  rw [Port.wait, heq]
  cases hframe : (takeFrame (wait.yields.map arrived) (p.arrive wait.arrivals).frames).1 with
  | none =>
      left
      exact ⟨hrxbuf, hrxbufstat⟩
  | some frame =>
      by_cases haccepts : ∃ idx', (p.arrive wait.arrivals).Accepts frame idx'
      · obtain ⟨idx', haccepts⟩ := haccepts
        right
        refine ⟨frame, idx', htaken frame (Or.inl hframe), haccepts, ?_, ?_⟩
        · rw [Option.elim_some, Port.deliver_of_accepts haccepts, hrxbuf]
        · rw [Option.elim_some, Port.deliver_of_accepts haccepts, hrxbufstat]
      · left
        rw [Option.elim_some, Port.deliver_of_not_accepts (not_exists.mp haccepts)]
        exact ⟨hrxbuf, hrxbufstat⟩

/-! ### Orderly exchanges -/

section Exchange

variable (waits : ℕ → Wait) (c : Context)

/-- After the frames of a cycle have been sent, the exchange is orderly: no frame that is left in
the queue has an index of the cycle, and what arrives under such an index is a reply.  Where the
receive buffer of an index has process data from before, its reply comes, and comes in its turn.
With distributed clocks, the first frame is not the only one without a reply. -/
structure Orderly : Prop where
  index_lt : ∀ frame,
    frame ∈ c.port.frames ∨ frame ∈ arrivedBefore waits c.idxstack.entries.length →
    ethercatFrameHeader + 3 < frame.length
  queue : ∀ frame ∈ c.port.frames, ∀ entry ∈ c.idxstack.entries, frameIndex frame ≠ entry.idx
  reply : ∀ frame ∈ arrivedBefore waits c.idxstack.entries.length, ∀ pos entry,
    c.idxstack.entries[pos]? = some entry → frameIndex frame = entry.idx →
    IsReply c pos entry frame
  stale : ∀ pos entry, c.idxstack.entries[pos]? = some entry →
    IsProcessdata (c.port.rxbuf entry.idx ecCmdoffset) → InTurn waits c ∧ Comes waits c pos
  clock : c.group.hasdc = true → ∀ pos, 0 < pos → Comes waits c pos →
    InTurn waits c ∧ Comes waits c 0

/-- The reply at a position: it has come before the end of the wait for it, and is received. -/
structure ReplyAt (pos : ℕ) (entry : IdxEntry) (frame : List UInt8) : Prop where
  pushed : c.idxstack.entries[pos]? = some entry
  answered : AnsweredAt waits c pos
  comes : frame ∈ arrivedBefore waits (pos + 1)
  belongs : BelongsTo c pos frame
  reply : IsReply c pos entry frame

/-- The receive buffer of an index has the payload of a frame that has come in the waits before a
position. -/
def Port.HasReply (n : ℕ) (p : Port) (idx : ℕ) : Prop :=
  ∃ frame ∈ arrivedBefore waits n, frameIndex frame = idx ∧ 0 < idx
    ∧ ∀ i < payloadLength frame, p.rxbuf idx i = receivedPayload frame i

/-- What holds in the receive loop before a position is looked at, after `n` waits. -/
structure ReceiveInvariant (pos n : ℕ) (x : ReceiveState) : Prop where
  group : x.context.group = c.group
  DCl : x.context.DCl = c.DCl
  DCtO : x.context.DCtO = c.DCtO
  index_lt : ∀ frame ∈ x.context.port.frames, ethercatFrameHeader + 3 < frame.length
  queue : ∀ frame ∈ x.context.port.frames, ∀ entry ∈ c.idxstack.entries,
    frameIndex frame = entry.idx → frame ∈ arrivedBefore waits n
  ahead : ∀ pos' entry, pos ≤ pos' → c.idxstack.entries[pos']? = some entry →
    (x.context.port.rxbufstat entry.idx ≠ .rcvd
        ∧ x.context.port.rxbuf entry.idx = c.port.rxbuf entry.idx)
      ∨ (x.context.port.rxbufstat entry.idx = .rcvd ∧ x.context.port.HasReply waits n entry.idx)
  image : ∀ a, x.context.image a = c.image a ∨ ∃ pos' entry frame,
    ReplyAt waits c pos' entry frame ∧ entry.data ≤ a ∧ a < entry.data + datagramLength c pos' entry
      ∧ x.context.image a = payload frame (ecHeadersize + (a - entry.data))
  DCtime : x.context.DCtime = c.DCtime ∨ ∃ entry frame,
    ReplyAt waits c 0 entry frame ∧ x.context.DCtime = (payload frame).uint64 c.DCtO
  validWkc : x.validWkc = true → ∃ pos' entry frame, ReplyAt waits c pos' entry frame
  first : x.first = true → c.group.hasdc = true ∧ ∀ pos' < pos, ¬ AnsweredAt waits c pos'
  start : pos = 0 → x.first = c.group.hasdc

variable {waits c}

/-- A reply that is awaited because of what is in its buffer is received. -/
theorem Orderly.not_processdata (h : Orderly waits c) (hwaiting : c.Waiting) {pos : ℕ}
    {entry : IdxEntry} (hentry : c.idxstack.entries[pos]? = some entry)
    (hunanswered : ¬ AnsweredAt waits c pos) :
  ¬ IsProcessdata (c.port.rxbuf entry.idx ecCmdoffset)
  := by
  intro hstale
  obtain ⟨hturn, hcomes⟩ := h.stale pos entry hentry hstale
  exact hunanswered (hturn.answeredAt hwaiting h.reply hcomes)

/-- With distributed clocks, the first frame is answered if another one is. -/
theorem Orderly.answeredAt_zero (h : Orderly waits c) (hwaiting : c.Waiting)
    (hclock : c.group.hasdc = true) {pos : ℕ} {entry : IdxEntry} {frame : List UInt8}
    (hat : ReplyAt waits c pos entry frame) :
  AnsweredAt waits c 0
  := by
  rcases Nat.eq_zero_or_pos pos with rfl | hpos
  · apply hat.answered
  · have hlt := (List.getElem?_eq_some_iff.mp hat.pushed).1
    obtain ⟨hturn, hcomes⟩ := h.clock hclock pos hpos
      ⟨frame, (arrivedBefore_mono hlt).subset hat.comes, hat.belongs⟩
    apply hturn.answeredAt hwaiting h.reply hcomes

/-- The loop begins after the frames have been sent. -/
theorem Orderly.receiveInvariant (h : Orderly waits c) (hwaiting : c.Waiting) :
  ReceiveInvariant waits c 0 0 ⟨c, 0, false, c.group.hasdc⟩
  := by
  constructor
  case group => rfl
  case DCl => rfl
  case DCtO => rfl
  case index_lt =>
    intro frame hframe
    apply h.index_lt
    left
    apply hframe
  case queue =>
    intro frame hframe entry hentry hindex
    exact absurd hindex (h.queue frame hframe entry hentry)
  case ahead =>
    intro pos' entry _ hentry
    left
    refine ⟨?_, rfl⟩
    dsimp only
    rw [hwaiting.waits entry (List.mem_of_getElem? hentry)]
    decide
  case image =>
    intro a
    left
    rfl
  case DCtime =>
    left
    rfl
  case validWkc =>
    intro hvalid
    cases hvalid
  case first =>
    intro hfirst
    refine ⟨hfirst, ?_⟩
    intro pos' hlt
    cases hlt
  case start =>
    intro _
    rfl

/-- The port after the wait at a position, and before the buffer is looked at. -/
theorem ReceiveInvariant.wait {pos : ℕ} {x : ReceiveState} (h : ReceiveInvariant waits c pos pos x)
    (horderly : Orderly waits c) (hpos : pos < c.idxstack.entries.length) (idx : ℕ) :
  ReceiveInvariant waits c pos (pos + 1)
    { x with context := { x.context with port := (x.context.port.wait idx (waits pos)).2 } }
  := by
  obtain ⟨hframes, hstep⟩ := x.context.port.wait_step idx (waits pos)
  have hcomes : ∀ frame ∈ (waits pos).frames, frame ∈ arrivedBefore waits (pos + 1) :=
    fun frame hframe => mem_arrivedBefore.mpr ⟨pos, Nat.lt_succ_self pos, hframe⟩
  have hkept : ∀ frame ∈ arrivedBefore waits pos, frame ∈ arrivedBefore waits (pos + 1) :=
    fun frame hframe => (arrivedBefore_mono (Nat.le_succ pos)).subset hframe
  have hindex_lt : ∀ frame, frame ∈ x.context.port.frames ∨ frame ∈ (waits pos).frames →
      ethercatFrameHeader + 3 < frame.length := by
    rintro frame (hframe | hframe)
    · apply h.index_lt frame hframe
    · apply horderly.index_lt
      right
      apply (arrivedBefore_mono hpos).subset (hcomes frame hframe)
  have hqueue : ∀ frame, frame ∈ x.context.port.frames ∨ frame ∈ (waits pos).frames →
      ∀ entry ∈ c.idxstack.entries, frameIndex frame = entry.idx →
      frame ∈ arrivedBefore waits (pos + 1) := by
    rintro frame (hframe | hframe) entry hentry hindex
    · apply hkept frame (h.queue frame hframe entry hentry hindex)
    · apply hcomes frame hframe
  constructor
  case group => apply h.group
  case DCl => apply h.DCl
  case DCtO => apply h.DCtO
  case index_lt =>
    intro frame hframe
    apply hindex_lt frame (hframes frame hframe)
  case queue =>
    intro frame hframe
    apply hqueue frame (hframes frame hframe)
  case ahead =>
    intro pos' entry hle hentry
    dsimp only
    have hahead : (x.context.port.rxbufstat entry.idx ≠ .rcvd
          ∧ x.context.port.rxbuf entry.idx = c.port.rxbuf entry.idx)
        ∨ (x.context.port.rxbufstat entry.idx = .rcvd
          ∧ x.context.port.HasReply waits (pos + 1) entry.idx) := by
      rcases h.ahead pos' entry hle hentry with hnot | ⟨hrcvd, frame, hframe, hreply⟩
      · left
        apply hnot
      · right
        exact ⟨hrcvd, frame, hkept frame hframe, hreply⟩
    rcases hstep with ⟨hrxbuf, hrxbufstat⟩ | ⟨frame, idx', hframe, haccepts, hrxbuf, hrxbufstat⟩
    · rw [Port.HasReply, hrxbuf, hrxbufstat]
      apply hahead
    · by_cases hidx : entry.idx = idx'
      · -- the frame is the reply for the index
        right
        have hindex : frameIndex frame = entry.idx := by
          rw [hidx, haccepts.eq_frameIndex (hindex_lt frame hframe)]
        constructor
        · rw [hrxbufstat, hidx, Function.update_self]
        · refine ⟨frame, hqueue frame hframe entry (List.mem_of_getElem? hentry) hindex, hindex, ?_,
            ?_⟩
          · rw [hidx]
            apply haccepts.index_mem.1
          · intro i hi
            rw [hrxbuf, hidx, Function.update_self, Bytes.copy_zero_of_lt hi]
      · rw [Port.HasReply, hrxbuf, hrxbufstat, Function.update_of_ne hidx,
          Function.update_of_ne hidx]
        apply hahead
  case image => apply h.image
  case DCtime => apply h.DCtime
  case validWkc => apply h.validWkc
  case first => apply h.first
  case start => apply h.start

/-- A receive buffer without process data is not looked at. -/
theorem receiveReply_of_not_processdata {entry : IdxEntry} {x : ReceiveState}
    (h : ¬ IsProcessdata (x.context.port.rxbuf entry.idx ecCmdoffset)) (wkc2 : ℤ) :
  receiveReply entry wkc2 x = x
  := by
  obtain ⟨hread, hwrite⟩ := not_or.mp h
  rw [receiveReply, if_neg hread, if_neg hwrite, ite_self]

/-- What is done with process data in a receive buffer. -/
theorem receiveReply_of_processdata {entry : IdxEntry} {x : ReceiveState} {wkc2 : ℤ}
    (h : IsProcessdata (x.context.port.rxbuf entry.idx ecCmdoffset)) (hwkc2 : ecNoframe < wkc2) :
  ∃ image DCtime wkc,
    receiveReply entry wkc2 x
      = ⟨{ x.context with image := image, DCtime := DCtime }, wkc, true, false⟩
    ∧ (∀ a, image a = x.context.image a
      ∨ entry.data ≤ a ∧ a < entry.data + (if x.first then x.context.DCl else entry.length)
        ∧ image a = x.context.port.rxbuf entry.idx (ecHeadersize + (a - entry.data)))
    ∧ (DCtime = x.context.DCtime
      ∨ x.first = true
        ∧ DCtime = (x.context.port.rxbuf entry.idx).uint64 x.context.DCtO)
    ∧ (0 ≤ x.wkc → 0 ≤ wkc)
  := by
  obtain ⟨context, wkc, validWkc, first⟩ := x
  have hwkc2' : 0 ≤ wkc2 := hwkc2
  have hcopy : ∀ length a,
      context.image.copy entry.data ((context.port.rxbuf entry.idx).drop ecHeadersize) length a
          = context.image a
        ∨ entry.data ≤ a ∧ a < entry.data + length
          ∧ context.image.copy entry.data ((context.port.rxbuf entry.idx).drop ecHeadersize) length a
            = context.port.rxbuf entry.idx (ecHeadersize + (a - entry.data)) := by
    intro length a
    by_cases hmem : entry.data ≤ a ∧ a < entry.data + length
    · right
      exact ⟨hmem.1, hmem.2, Bytes.copy_of_mem hmem.1 hmem.2⟩
    · left
      apply Bytes.copy_of_not_mem hmem
  rw [receiveReply, if_pos hwkc2]
  dsimp only at h ⊢
  by_cases hread : context.port.rxbuf entry.idx ecCmdoffset = EcCmdtype.lrd.code
      ∨ context.port.rxbuf entry.idx ecCmdoffset = EcCmdtype.lrw.code
  · rw [if_pos hread]
    cases first with
    | false => exact ⟨_, _, _, rfl, hcopy _, Or.inl rfl, fun h => Int.add_nonneg h hwkc2'⟩
    | true => exact ⟨_, _, _, rfl, hcopy _, Or.inr ⟨rfl, rfl⟩, fun _ => Int.natCast_nonneg _⟩
  · rw [if_neg hread, if_pos (h.resolve_left hread)]
    cases first with
    | false =>
        refine ⟨_, _, _, rfl, fun a => Or.inl rfl, Or.inl rfl, fun h => ?_⟩
        apply Int.add_nonneg h
        omega
    | true =>
        refine ⟨_, _, _, rfl, fun a => Or.inl rfl, Or.inr ⟨rfl, rfl⟩, fun h => ?_⟩
        omega

/-- An index that is released. -/
theorem ReceiveInvariant.ahead_release {pos : ℕ} {x : ReceiveState} {entry : IdxEntry}
    (h : ReceiveInvariant waits c pos (pos + 1) x) (hwaiting : c.Waiting)
    (hentry : c.idxstack.entries[pos]? = some entry) (pos' : ℕ) (entry' : IdxEntry)
    (hle : pos + 1 ≤ pos') (hentry' : c.idxstack.entries[pos']? = some entry') :
  ((ecxSetbufstat entry.idx .empty x.context.port).rxbufstat entry'.idx ≠ .rcvd
      ∧ x.context.port.rxbuf entry'.idx = c.port.rxbuf entry'.idx)
    ∨ ((ecxSetbufstat entry.idx .empty x.context.port).rxbufstat entry'.idx = .rcvd
      ∧ x.context.port.HasReply waits (pos + 1) entry'.idx)
  := by
  have hahead := h.ahead pos' entry' (by omega) hentry'
  by_cases hidx : entry'.idx = entry.idx
  · -- only the index 0 is there twice, and it has no reply
    have hzero : entry'.idx = 0 := by
      obtain ⟨hpos, rfl⟩ := List.getElem?_eq_some_iff.mp hentry
      obtain ⟨hpos', rfl⟩ := List.getElem?_eq_some_iff.mp hentry'
      rw [hidx]
      apply List.pairwise_iff_getElem.mp hwaiting.distinct pos pos' hpos hpos' hle hidx.symm
    left
    rcases hahead with ⟨-, hrxbuf⟩ | ⟨-, frame, -, -, hpositive, -⟩
    · refine ⟨?_, hrxbuf⟩
      rw [hidx, ecxSetbufstat_rxbufstat, Function.update_self]
      decide
    · omega
  · rw [ecxSetbufstat_rxbufstat, Function.update_of_ne hidx]
    apply hahead

/-- A round of the loop in which no reply has come and nothing is done but to release the
index. -/
theorem ReceiveInvariant.unanswered {pos : ℕ} {x : ReceiveState} {entry : IdxEntry}
    (h : ReceiveInvariant waits c pos (pos + 1) x) (hwaiting : c.Waiting)
    (hentry : c.idxstack.entries[pos]? = some entry) (hunanswered : ¬ AnsweredAt waits c pos) :
  ReceiveInvariant waits c (pos + 1) (pos + 1)
    { x with
      context := { x.context with port := ecxSetbufstat entry.idx .empty x.context.port } }
  := by
  constructor
  case group => apply h.group
  case DCl => apply h.DCl
  case DCtO => apply h.DCtO
  case index_lt => apply h.index_lt
  case queue => apply h.queue
  case ahead => apply h.ahead_release hwaiting hentry
  case image => apply h.image
  case DCtime => apply h.DCtime
  case validWkc => apply h.validWkc
  case first =>
    intro hfirst
    obtain ⟨hclock, hbefore⟩ := h.first hfirst
    refine ⟨hclock, ?_⟩
    intro pos' hlt
    rcases Nat.lt_succ_iff_lt_or_eq.mp hlt with hlt | rfl
    · apply hbefore pos' hlt
    · apply hunanswered
  case start =>
    intro hzero
    cases hzero

/-- While no datagram has been taken for the first one, a reply is that to the first frame. -/
theorem ReceiveInvariant.eq_zero {pos n : ℕ} {x : ReceiveState} {entry : IdxEntry}
    {frame : List UInt8} (h : ReceiveInvariant waits c pos n x) (horderly : Orderly waits c)
    (hwaiting : c.Waiting) (hat : ReplyAt waits c pos entry frame) (hfirst : x.first = true) :
  c.group.hasdc = true ∧ pos = 0
  := by
  obtain ⟨hclock, hbefore⟩ := h.first hfirst
  refine ⟨hclock, ?_⟩
  by_contra hne
  exact hbefore 0 (Nat.pos_of_ne_zero hne) (horderly.answeredAt_zero hwaiting hclock hat)

/-- What is copied of a reply to the process image. -/
theorem ReceiveInvariant.length_eq {pos n : ℕ} {x : ReceiveState} {entry : IdxEntry}
    {frame : List UInt8} (h : ReceiveInvariant waits c pos n x) (horderly : Orderly waits c)
    (hwaiting : c.Waiting) (hat : ReplyAt waits c pos entry frame) :
  (if x.first then x.context.DCl else entry.length) = datagramLength c pos entry
    ∧ ecHeadersize + datagramLength c pos entry ≤ payloadLength frame
  := by
  have hdata := hat.reply.data_le
  rw [datagramLength, h.DCl]
  cases hfirst : x.first with
  | true =>
      have hzero := h.eq_zero horderly hwaiting hat hfirst
      have hclock := (hat.reply.clock_le hzero.2 hzero.1).1
      rw [if_pos rfl, if_pos hzero]
      refine ⟨rfl, ?_⟩
      omega
  | false =>
      have hzero : ¬ (c.group.hasdc = true ∧ pos = 0) := by
        rintro ⟨hclock, hpos⟩
        have hstart := h.start hpos
        rw [hfirst, hclock] at hstart
        cases hstart
      rw [if_neg Bool.false_ne_true, if_neg hzero]
      exact ⟨rfl, hdata⟩

/-- A round of the loop in which the reply has come: what is copied is part of it. -/
theorem ReceiveInvariant.replied {pos : ℕ} {x : ReceiveState} {entry : IdxEntry}
    {frame : List UInt8} {wkc2 : ℤ} (h : ReceiveInvariant waits c pos (pos + 1) x)
    (horderly : Orderly waits c) (hwaiting : c.Waiting)
    (hat : ReplyAt waits c pos entry frame)
    (hbytes : ∀ i < payloadLength frame, x.context.port.rxbuf entry.idx i = payload frame i)
    (hwkc2 : ecNoframe < wkc2) :
  ReceiveInvariant waits c (pos + 1) (pos + 1)
    { receiveReply entry wkc2 x with
      context :=
        { (receiveReply entry wkc2 x).context with
          port := ecxSetbufstat entry.idx .empty (receiveReply entry wkc2 x).context.port } }
  := by
  have hcom := hat.reply.com
  rw [← hbytes ecCmdoffset hat.reply.com_lt] at hcom
  obtain ⟨image, DCtime, wkc, heq, himage, hDCtime, -⟩ := receiveReply_of_processdata hcom hwkc2
  rw [heq]
  constructor
  case group => apply h.group
  case DCl => apply h.DCl
  case DCtO => apply h.DCtO
  case index_lt => apply h.index_lt
  case queue => apply h.queue
  case ahead => apply h.ahead_release hwaiting hat.pushed
  case image =>
    intro a
    dsimp only
    rcases himage a with ha | ⟨hle, hlt, ha⟩
    · rw [ha]
      apply h.image a
    · right
      obtain ⟨hlength, hbound⟩ := h.length_eq horderly hwaiting hat
      rw [hlength] at hlt
      exact ⟨pos, entry, frame, hat, hle, hlt, ha.trans (hbytes _ (by omega))⟩
  case DCtime =>
    dsimp only
    rcases hDCtime with hDCtime | ⟨hfirst, hDCtime⟩
    · rw [hDCtime]
      apply h.DCtime
    · right
      have hzero := h.eq_zero horderly hwaiting hat hfirst
      have hclock := (hat.reply.clock_le hzero.2 hzero.1).2
      obtain ⟨-, rfl⟩ := hzero
      refine ⟨entry, frame, hat, ?_⟩
      rw [hDCtime, h.DCtO]
      apply Bytes.uint64_congr
      intro i hi
      apply hbytes
      omega
  case validWkc =>
    intro _
    exact ⟨pos, entry, frame, hat⟩
  case first =>
    intro hfirst
    cases hfirst
  case start =>
    intro hzero
    cases hzero

/-- A round of the loop. -/
theorem ReceiveInvariant.receiveEntry {pos : ℕ} {entry : IdxEntry}
    (h : ReceiveInvariant waits c pos pos (receiveBefore waits c pos)) (horderly : Orderly waits c)
    (hwaiting : c.Waiting)
    (hentry : c.idxstack.entries[pos]? = some entry) :
  ReceiveInvariant waits c (pos + 1) (pos + 1)
    (receiveEntry entry (waits pos) (receiveBefore waits c pos))
  := by
  have hpos := (List.getElem?_eq_some_iff.mp hentry).1
  have hwait := h.wait horderly hpos entry.idx
  have hanswered : AnsweredAt waits c pos
      ↔ ((receiveBefore waits c pos).context.port.wait entry.idx (waits pos)).1 = .rcvd := by
    constructor
    · rintro ⟨entry', hentry', hrcvd⟩
      rw [hentry, Option.some.injEq] at hentry'
      rw [hentry']
      apply hrcvd
    · intro hrcvd
      exact ⟨entry, hentry, hrcvd⟩
  rw [Port.wait_fst] at hanswered
  rw [EthercatMaster.receiveEntry]
  dsimp only
  rw [Port.wait_fst]
  generalize hport : ((receiveBefore waits c pos).context.port.wait entry.idx (waits pos)).2 = port
    at hwait hanswered ⊢
  generalize receiveBefore waits c pos = x at h hwait ⊢
  rcases hwait.ahead pos entry le_rfl hentry with
    ⟨hnot, hrxbuf⟩ | ⟨hrcvd, frame, hcomes, hindex, hpositive, hbytes⟩
  · have hunanswered : ¬ AnsweredAt waits c pos := fun h => hnot (hanswered.mp h)
    have hstale := horderly.not_processdata hwaiting hentry hunanswered
    rw [← hrxbuf] at hstale
    rw [receiveReply_of_not_processdata hstale]
    apply hwait.unanswered hwaiting hentry hunanswered
  · have hreply := horderly.reply frame ((arrivedBefore_mono hpos).subset hcomes) pos entry hentry
      hindex
    have hat : ReplyAt waits c pos entry frame :=
      ⟨hentry, hanswered.mpr hrcvd, hcomes, ⟨entry, hentry, hpositive, hindex⟩, hreply⟩
    apply hwait.replied horderly hwaiting hat
    · intro i hi
      exact (hbytes i hi).trans (receivedPayload_of_le hreply.length_le hi)
    dsimp only at hrcvd
    rw [hrcvd]
    decide

/-! ### The exchange -/

/-- The invariant holds throughout the loop. -/
theorem Orderly.receiveInvariant_before (h : Orderly waits c) (hwaiting : c.Waiting)
    {pos : ℕ} (hle : pos ≤ c.idxstack.entries.length) :
  ReceiveInvariant waits c pos pos (receiveBefore waits c pos)
  := by
  induction pos with
  | zero => apply h.receiveInvariant hwaiting
  | succ pos ih =>
      have hentry : c.idxstack.entries[pos]? = some c.idxstack.entries[pos] :=
        List.getElem?_eq_getElem hle
      rw [receiveBefore_succ hentry]
      apply (ih (Nat.le_of_succ_le hle)).receiveEntry h hwaiting hentry

variable (waits c) in
/-- What is received comes from replies that arrived after the frames had been sent: with no
reply there is no frame, and the process image and the system time stay; a working counter, a
changed byte of the image and a changed system time each have their reply, the byte in the part of
the image that the frame at its position is for, and the system time that to the first frame. -/
structure FromReplies (wkc : ℤ) (c' : Context) : Prop where
  noframe : (∀ pos entry frame, ¬ ReplyAt waits c pos entry frame) →
    wkc = ecNoframe ∧ c'.image = c.image ∧ c'.DCtime = c.DCtime
  wkc : 0 ≤ wkc → ∃ pos entry frame, ReplyAt waits c pos entry frame
  image : ∀ a, c'.image a ≠ c.image a → ∃ pos entry frame,
    ReplyAt waits c pos entry frame ∧ entry.data ≤ a ∧ a < entry.data + datagramLength c pos entry
      ∧ c'.image a = payload frame (ecHeadersize + (a - entry.data))
  DCtime : c'.DCtime ≠ c.DCtime → ∃ entry frame,
    ReplyAt waits c 0 entry frame ∧ c'.DCtime = (payload frame).uint64 c.DCtO

/-- In an orderly exchange, what is received comes from replies. -/
theorem Orderly.fromReplies (h : Orderly waits c) (hwaiting : c.Waiting)
    (hpulled : c.idxstack.pulled = 0) :
  FromReplies waits c (ecxReceiveProcessdataGroup waits c).1
    (ecxReceiveProcessdataGroup waits c).2
  := by
  have hlast := h.receiveInvariant_before hwaiting le_rfl
  rw [ecxReceiveProcessdataGroup, hpulled, List.drop_zero]
  rw [receiveBefore, List.take_length] at hlast
  generalize receiveEntries waits 0 c.idxstack.entries ⟨c, 0, false, c.group.hasdc⟩ = x at hlast ⊢
  constructor
  case noframe =>
    intro hnone
    refine ⟨?_, ?_, ?_⟩
    · cases hvalid : x.validWkc with
      | true =>
          obtain ⟨pos, entry, frame, hat⟩ := hlast.validWkc hvalid
          exact absurd hat (hnone pos entry frame)
      | false => rfl
    · funext a
      rcases hlast.image a with ha | ⟨pos, entry, frame, hat, -⟩
      · apply ha
      · exact absurd hat (hnone pos entry frame)
    · rcases hlast.DCtime with ha | ⟨entry, frame, hat, -⟩
      · apply ha
      · exact absurd hat (hnone 0 entry frame)
  case wkc =>
    intro hnonneg
    cases hvalid : x.validWkc with
    | true => apply hlast.validWkc hvalid
    | false =>
        rw [hvalid] at hnonneg
        cases hnonneg
  case image =>
    intro a hne
    apply (hlast.image a).resolve_left hne
  case DCtime =>
    intro hne
    apply hlast.DCtime.resolve_left hne

/-! ### Silence -/

theorem BufStat.noframe_lt (bufstat : BufStat) :
  ecNoframe < bufstat.toInt
  := by
  cases bufstat
  all_goals decide

/-- With no frame at all, a wait changes no receive buffer. -/
theorem Port.wait_of_silence {p : Port} {wait : Wait} (hqueue : p.frames = [])
    (hwait : wait.frames = []) (idx : ℕ) :
  (p.wait idx wait).2.frames = [] ∧ (p.wait idx wait).2.rxbuf = p.rxbuf
  := by
  obtain ⟨hframes, hstep⟩ := p.wait_step idx wait
  rw [hqueue, hwait] at hframes
  constructor
  · apply List.eq_nil_iff_forall_not_mem.mpr
    intro frame hframe
    rcases hframes frame hframe with h | h
    · cases h
    · cases h
  · rcases hstep with ⟨hrxbuf, -⟩ | ⟨frame, idx', hframe, -⟩
    · apply hrxbuf
    · rw [hqueue, hwait] at hframe
      rcases hframe with h | h
      · cases h
      · cases h

/-- With no frame at all, the loop looks into the receive buffers as they are. -/
theorem receiveBefore_of_silence (hqueue : c.port.frames = [])
    (hwaits : ∀ pos, (waits pos).frames = []) {pos : ℕ}
    (hle : pos ≤ c.idxstack.entries.length) :
  (receiveBefore waits c pos).context.port.frames = []
    ∧ (receiveBefore waits c pos).context.port.rxbuf = c.port.rxbuf
    ∧ 0 ≤ (receiveBefore waits c pos).wkc
    ∧ ((receiveBefore waits c pos).validWkc = true
      ↔ ∃ entry ∈ c.idxstack.entries.take pos,
        IsProcessdata (c.port.rxbuf entry.idx ecCmdoffset))
  := by
  induction pos with
  | zero => exact ⟨hqueue, rfl, le_rfl, by simp [receiveBefore, receiveEntries]⟩
  | succ pos ih =>
      obtain ⟨hframes, hrxbuf, hwkc, hvalid⟩ := ih (Nat.le_of_succ_le hle)
      have hentry : c.idxstack.entries[pos]? = some c.idxstack.entries[pos] :=
        List.getElem?_eq_getElem hle
      rw [receiveBefore_succ hentry, List.take_add_one, hentry, Option.toList_some, receiveEntry]
      generalize c.idxstack.entries[pos] = entry
      generalize receiveBefore waits c pos = x at *
      obtain ⟨hframes', hrxbuf'⟩ := Port.wait_of_silence hframes (hwaits pos) entry.idx
      dsimp only
      generalize x.context.port.wait entry.idx (waits pos) = result at *
      obtain ⟨bufstat, port⟩ := result
      dsimp only at hframes' hrxbuf' ⊢
      rw [hrxbuf] at hrxbuf'
      by_cases hdata : IsProcessdata (c.port.rxbuf entry.idx ecCmdoffset)
      · have hdata' := hdata
        rw [← hrxbuf'] at hdata'
        obtain ⟨image, DCtime, wkc, heq, -, -, hnonneg⟩ :=
          @receiveReply_of_processdata entry { x with context := { x.context with port := port } } _
            hdata' bufstat.noframe_lt
        rw [heq]
        refine ⟨hframes', hrxbuf', hnonneg hwkc, ?_⟩
        simp [hdata]
      · have hdata' := hdata
        rw [← hrxbuf'] at hdata'
        rw [@receiveReply_of_not_processdata entry
          { x with context := { x.context with port := port } } hdata']
        refine ⟨hframes', hrxbuf', hwkc, ?_⟩
        simpa [hdata, or_and_right, exists_or] using hvalid

/-- With no frame at all, the lack of replies is noticed exactly if no receive buffer has process
data from before. -/
theorem noframe_iff_of_silence (hqueue : c.port.frames = [])
    (hwaits : ∀ pos, (waits pos).frames = []) (hpulled : c.idxstack.pulled = 0) :
  (ecxReceiveProcessdataGroup waits c).1 = ecNoframe
    ↔ ∀ entry ∈ c.idxstack.entries, ¬ IsProcessdata (c.port.rxbuf entry.idx ecCmdoffset)
  := by
  obtain ⟨-, -, hwkc, hvalid⟩ := receiveBefore_of_silence hqueue hwaits le_rfl
  rw [receiveBefore, List.take_length] at hwkc hvalid
  rw [ecxReceiveProcessdataGroup, hpulled, List.drop_zero]
  generalize receiveEntries waits 0 c.idxstack.entries ⟨c, 0, false, c.group.hasdc⟩ = x
    at hwkc hvalid ⊢
  dsimp only
  cases hx : x.validWkc with
  | true =>
      obtain ⟨entry, hentry, hdata⟩ := hvalid.mp hx
      constructor
      · intro heq
        rw [if_pos rfl] at heq
        rw [heq] at hwkc
        cases hwkc
      · intro hnone
        exact absurd hdata (hnone entry hentry)
  | false =>
      constructor
      · intro _ entry hentry hdata
        rw [hvalid.mpr ⟨entry, hentry, hdata⟩] at hx
        cases hx
      · intro _
        rfl

end Exchange

end EthercatMaster
