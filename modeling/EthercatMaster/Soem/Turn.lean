import EthercatMaster.Soem.Send

/-!
# Replies in their turn

A wait of the receive loop takes one frame from the queue.  If the replies to the frames of a cycle
arrive in the order in which the frames were sent, each before the end of its own wait, then every
reply that comes is received by then, whether or not others are lost.
-/

namespace EthercatMaster

open RingBuffer

/-! ### Waiting -/

/-- The frames that arrive around a wait. -/
def Wait.frames (wait : Wait) : List (List UInt8) :=
  arrived wait.arrivals ++ (wait.yields.map arrived).flatten

/-- The index in a frame. -/
def frameIndex (frame : List UInt8) : ℕ :=
  (frame.getD (ethercatFrameHeader + 3) 0).toNat

/-- A frame that reaches to its index is accepted under that index. -/
theorem Port.Accepts.eq_frameIndex {p : Port} {frame : List UInt8} {idx : ℕ}
    (h : p.Accepts frame idx) (hlength : ethercatFrameHeader + 3 < frame.length) :
  idx = frameIndex frame
  := by
  rw [← h.index, Port.taken_of_lt hlength (by decide)]
  rfl

theorem Port.wait_fst (idx : ℕ) (wait : Wait) (p : Port) :
  (p.wait idx wait).1 = (p.wait idx wait).2.rxbufstat idx
  := by
  rw [Port.wait, ecxWaitinframe]
  split
  · rfl
  · rfl

theorem Port.arrive_rxbufstat (arrivals : Arrivals) (p : Port) :
  (p.arrive arrivals).rxbufstat = p.rxbufstat
  := by
  obtain ⟨rxQueue, h⟩ := p.arrive_eq arrivals
  rw [h]

/-- A frame carries the reply for an index. -/
structure CarriesReply (idx : ℕ) (frame : List UInt8) : Prop where
  index_lt : ethercatFrameHeader + 3 < frame.length
  length_le : frame.length ≤ ecBufsize
  ethertype : frame.getD 12 0 = ethercatEthertypeHigh ∧ frame.getD 13 0 = ethercatEthertypeLow
  index : frameIndex frame = idx
  index_mem : 0 < idx ∧ idx < ecMaxbuf

/-- The reply for an index that waits is accepted. -/
theorem CarriesReply.accepts {idx : ℕ} {frame : List UInt8} (h : CarriesReply idx frame) {p : Port}
    (hwaits : p.rxbufstat idx = .tx) :
  p.Accepts frame idx
  := by
  have hlength := h.index_lt
  have htaken : ∀ i ≤ ethercatFrameHeader + 3, p.taken frame i = frame.getD i 0 := by
    intro i hi
    apply Port.taken_of_lt (by omega)
    apply lt_of_le_of_lt hi
    decide
  constructor
  case lt_length => omega
  case length_le => apply le_trans (Nat.sub_le _ _) h.length_le
  case ethertype =>
    rw [htaken 12 (by decide), htaken 13 (by decide)]
    apply h.ethertype
  case index =>
    rw [htaken _ le_rfl]
    apply h.index
  case index_mem => apply h.index_mem
  case waits =>
    left
    apply hwaits

theorem Wait.masterFrame {wait : Wait} {frame : List UInt8} (h : frame ∈ wait.frames) :
  MasterFrame frame
  := by
  rcases List.mem_append.mp h with h | h
  · apply masterFrame_of_arrived h
  · obtain ⟨frames, hframes, h⟩ := List.mem_flatten.mp h
    obtain ⟨arrivals, -, rfl⟩ := List.mem_map.mp hframes
    apply masterFrame_of_arrived h

/-! ### The loop -/

/-- A command with which process data is exchanged. -/
def IsProcessdata (com : UInt8) : Prop :=
  (com = EcCmdtype.lrd.code ∨ com = EcCmdtype.lrw.code) ∨ com = EcCmdtype.lwr.code

/-- The indices on the stack wait for their replies. -/
structure Context.Waiting (c : Context) : Prop where
  index_lt : ∀ entry ∈ c.idxstack.entries, entry.idx < ecMaxbuf
  waits : ∀ entry ∈ c.idxstack.entries, c.port.rxbufstat entry.idx = .tx
  distinct : c.idxstack.entries.Pairwise fun entry entry' => entry.idx = entry'.idx → entry.idx = 0

theorem Context.SentFrom.waiting {c x : Context} (h : c.SentFrom x) :
  x.Waiting
  := ⟨h.index_lt, h.waits, h.distinct⟩

/-- Looking into a receive buffer does not change the port. -/
theorem receiveReply_port (entry : IdxEntry) (wkc2 : ℤ) (x : ReceiveState) :
  (receiveReply entry wkc2 x).context.port = x.context.port
  := by
  unfold receiveReply receiveRead receiveWrite
  dsimp only
  split_ifs
  all_goals rfl

theorem receiveEntries_append (waits : ℕ → Wait) (pos : ℕ) (entries : List IdxEntry)
    (entry : IdxEntry) (x : ReceiveState) :
  receiveEntries waits pos (entries ++ [entry]) x
    = receiveEntry entry (waits (pos + entries.length)) (receiveEntries waits pos entries x)
  := by
  induction entries generalizing pos x with
  | nil => rfl
  | cons first entries ih =>
      rw [List.cons_append, receiveEntries, ih, receiveEntries, List.length_cons,
        Nat.add_assoc, Nat.add_comm 1]

section Exchange

variable (waits : ℕ → Wait) (c : Context)

/-- The variables of the receive loop before a position. -/
def receiveBefore (pos : ℕ) : ReceiveState :=
  receiveEntries waits 0 (c.idxstack.entries.take pos) ⟨c, 0, false, c.group.hasdc⟩

/-- The wait at a position ends with the reply. -/
def AnsweredAt (pos : ℕ) : Prop :=
  ∃ entry, c.idxstack.entries[pos]? = some entry
    ∧ ((receiveBefore waits c pos).context.port.wait entry.idx (waits pos)).1 = .rcvd

/-- The frames that arrive in the waits before a position, in their order. -/
def arrivedBefore (pos : ℕ) : List (List UInt8) :=
  (List.range pos).flatMap fun k => (waits k).frames

/-- A frame is one for the index at a position. -/
def BelongsTo (pos : ℕ) (frame : List UInt8) : Prop :=
  ∃ entry, c.idxstack.entries[pos]? = some entry ∧ 0 < entry.idx ∧ frameIndex frame = entry.idx

/-- Some frame for the index at a position arrives while the replies are waited for. -/
def Comes (pos : ℕ) : Prop :=
  ∃ frame ∈ arrivedBefore waits c.idxstack.entries.length, BelongsTo c pos frame

/-- The process data of a frame is behind its header; that of the first one is followed by the
datagram with the system time, if there are distributed clocks. -/
def datagramLength (pos : ℕ) (entry : IdxEntry) : ℕ :=
  if c.group.hasdc = true ∧ pos = 0 then c.DCl else entry.length

/-- A frame is a reply to the frame sent at a position: it has the index and a command that
exchanges process data, and it is as long as what is copied from it. -/
structure IsReply (pos : ℕ) (entry : IdxEntry) (frame : List UInt8) : Prop where
  index : frameIndex frame = entry.idx
  com : IsProcessdata (payload frame ecCmdoffset)
  com_lt : ecCmdoffset < payloadLength frame
  length_le : frame.length ≤ ecBufsize
  data_le : ecHeadersize + entry.length ≤ payloadLength frame
  clock_le : pos = 0 → c.group.hasdc = true →
    ecHeadersize + c.DCl + ecWkcsize ≤ payloadLength frame ∧ c.DCtO + 8 ≤ payloadLength frame

/-- The frames of a cycle come in their turn: none is there before, the queue has room for them,
each is for an index of the cycle and comes before the end of the wait for it, in the order of the
waits.  A wait that has to yield gets a single frame, when nothing else is to be waited for. -/
structure InTurn : Prop where
  queue : c.port.frames = []
  room : (arrivedBefore waits c.idxstack.entries.length).length ≤ ethercatRxQueueSize
  inTime : ∀ pos < c.idxstack.entries.length, ∀ frame ∈ (waits pos).frames,
    ∃ pos', pos ≤ pos' ∧ BelongsTo c pos' frame
  inOrder : (arrivedBefore waits c.idxstack.entries.length).Pairwise fun frame frame' =>
    ∀ pos pos', BelongsTo c pos frame → BelongsTo c pos' frame' → pos < pos'
  yields : ∀ pos < c.idxstack.entries.length, ((waits pos).yields.map arrived).flatten ≠ [] →
    (waits pos).frames.length = 1
      ∧ ∀ frame ∈ arrivedBefore waits pos, ∀ pos', BelongsTo c pos' frame → pos' < pos

/-- After some waits: the frames that have been taken, and those in the queue, which are for later
positions.  The indices from a position on wait, or their reply has been taken. -/
structure Turn (pos n : ℕ) (taken : List (List UInt8)) (p : Port) : Prop where
  before : arrivedBefore waits n = taken ++ p.frames
  ahead : ∀ frame ∈ p.frames, ∀ pos', BelongsTo c pos' frame → n ≤ pos'
  stat : ∀ pos' entry, pos ≤ pos' → c.idxstack.entries[pos']? = some entry →
    (p.rxbufstat entry.idx = .rcvd ∧ ∃ frame ∈ taken, BelongsTo c pos' frame)
      ∨ (p.rxbufstat entry.idx ≠ .rcvd ∧ (0 < entry.idx → p.rxbufstat entry.idx = .tx)
        ∧ ∀ frame ∈ taken, ¬ BelongsTo c pos' frame)

variable {waits c}

theorem arrivedBefore_succ (pos : ℕ) :
  arrivedBefore waits (pos + 1) = arrivedBefore waits pos ++ (waits pos).frames
  := by
  rw [arrivedBefore, List.range_succ, List.flatMap_append, List.flatMap_singleton]
  rfl

theorem arrivedBefore_mono {n m : ℕ} (h : n ≤ m) :
  arrivedBefore waits n <+: arrivedBefore waits m
  := by
  induction m, h using Nat.le_induction with
  | base => exact List.prefix_rfl
  | succ m _ ih =>
      rw [arrivedBefore_succ]
      apply ih.trans (List.prefix_append _ _)

theorem mem_arrivedBefore {n : ℕ} {frame : List UInt8} :
  frame ∈ arrivedBefore waits n ↔ ∃ pos < n, frame ∈ (waits pos).frames
  := by
  simp [arrivedBefore]

/-- A frame belongs to one position. -/
theorem Context.Waiting.belongsTo_unique (h : c.Waiting) {pos pos' : ℕ} {frame : List UInt8}
    (hpos : BelongsTo c pos frame) (hpos' : BelongsTo c pos' frame) :
  pos = pos'
  := by
  obtain ⟨entry, hentry, hpositive, hindex⟩ := hpos
  obtain ⟨entry', hentry', -, hindex'⟩ := hpos'
  obtain ⟨hlt, rfl⟩ := List.getElem?_eq_some_iff.mp hentry
  obtain ⟨hlt', rfl⟩ := List.getElem?_eq_some_iff.mp hentry'
  have hidx := hindex.symm.trans hindex'
  rcases lt_trichotomy pos pos' with hpos | hpos | hpos
  · have hzero := List.pairwise_iff_getElem.mp h.distinct pos pos' hlt hlt' hpos hidx
    omega
  · apply hpos
  · have hzero := List.pairwise_iff_getElem.mp h.distinct pos' pos hlt' hlt hpos hidx.symm
    omega

/-- The frames of a cycle that have come before a position are in order. -/
theorem InTurn.pairwise (h : InTurn waits c) {n : ℕ} (hn : n ≤ c.idxstack.entries.length) :
  (arrivedBefore waits n).Pairwise fun frame frame' =>
    ∀ pos pos', BelongsTo c pos frame → BelongsTo c pos' frame' → pos < pos'
  := h.inOrder.sublist (arrivedBefore_mono hn).sublist

/-- A frame that has come belongs to a position. -/
theorem InTurn.belongsTo (h : InTurn waits c) {n : ℕ} (hn : n ≤ c.idxstack.entries.length)
    {frame : List UInt8} (hframe : frame ∈ arrivedBefore waits n) :
  ∃ pos, BelongsTo c pos frame
  := by
  obtain ⟨k, hk, hframe⟩ := mem_arrivedBefore.mp hframe
  obtain ⟨pos, -, hpos⟩ := h.inTime k (by omega) frame hframe
  exact ⟨pos, hpos⟩

variable {pos : ℕ} {taken : List (List UInt8)} {p : Port}

/-- A wait takes the first of the frames that are in the queue or come. -/
theorem InTurn.takeFrame (h : InTurn waits c) (hturn : Turn waits c pos pos taken p)
    (hpos : pos < c.idxstack.entries.length) :
  (p.arrive (waits pos).arrivals).frames = p.frames ++ arrived (waits pos).arrivals
    ∧ ((takeFrame ((waits pos).yields.map arrived) (p.arrive (waits pos).arrivals).frames
            = (none, [])
        ∧ p.frames ++ (waits pos).frames = [])
      ∨ ∃ frame frames,
        takeFrame ((waits pos).yields.map arrived) (p.arrive (waits pos).arrivals).frames
            = (some frame, frames)
          ∧ p.frames ++ (waits pos).frames = frame :: frames)
  := by
  have hroom : p.frames.length + (arrived (waits pos).arrivals).length ≤ ethercatRxQueueSize := by
    have hsucc : (arrivedBefore waits (pos + 1)).length
        ≤ (arrivedBefore waits c.idxstack.entries.length).length :=
      (arrivedBefore_mono hpos).length_le
    have hle := h.room
    rw [arrivedBefore_succ, hturn.before, Wait.frames] at hsucc
    simp only [List.length_append] at hsucc
    omega
  have harrive := p.frames_arrive (waits pos).arrivals
  rw [foldl_boundedPush_of_le hroom] at harrive
  refine ⟨harrive, ?_⟩
  rw [harrive]
  by_cases hyields : ((waits pos).yields.map arrived).flatten = []
  · rw [Wait.frames, hyields, List.append_nil]
    cases p.frames ++ arrived (waits pos).arrivals with
    | nil =>
        left
        exact ⟨takeFrame_of_flatten_nil hyields, rfl⟩
    | cons frame frames =>
        right
        exact ⟨frame, frames, takeFrame_cons _ _ _, rfl⟩
  · obtain ⟨hone, hbefore⟩ := h.yields pos hpos hyields
    -- nothing is in the queue
    have hqueue : p.frames = [] := by
      apply List.eq_nil_iff_forall_not_mem.mpr
      intro frame hframe
      have hmem : frame ∈ arrivedBefore waits pos := by
        rw [hturn.before]
        apply List.mem_append_right _ hframe
      obtain ⟨pos', hpos'⟩ := h.belongsTo hpos.le hmem
      have hle := hturn.ahead frame hframe pos' hpos'
      have hlt := hbefore frame hmem pos' hpos'
      omega
    have harrivals : arrived (waits pos).arrivals = [] := by
      apply List.length_eq_zero_iff.mp
      have hpositive := List.length_pos_iff.mpr hyields
      rw [Wait.frames, List.length_append] at hone
      omega
    rw [Wait.frames, harrivals, List.nil_append] at hone ⊢
    obtain ⟨frame, hframe⟩ := List.length_eq_one_iff.mp hone
    right
    refine ⟨frame, [], ?_, ?_⟩
    · rw [hqueue]
      apply takeFrame_of_flatten_singleton hframe
    · rw [hqueue, hframe]
      rfl

/-- A frame that arrives for an index of the cycle carries the reply for it. -/
theorem IsReply.carriesReply {entry : IdxEntry} {frame : List UInt8}
    (h : IsReply c pos entry frame) (hwaiting : c.Waiting) (hentry : entry ∈ c.idxstack.entries)
    (hpositive : 0 < entry.idx) {wait : Wait} (hframe : frame ∈ wait.frames) :
  CarriesReply entry.idx frame
  := by
  have hdata := h.data_le
  constructor
  case index_lt =>
    rw [payloadLength, ecHeadersize] at hdata
    omega
  case length_le => apply h.length_le
  case ethertype => exact ⟨(Wait.masterFrame hframe).high, (Wait.masterFrame hframe).low⟩
  case index => apply h.index
  case index_mem => exact ⟨hpositive, hwaiting.index_lt entry hentry⟩

/-- Later waits take the frames behind one that has been taken. -/
theorem InTurn.ahead (h : InTurn waits c) (hpos : pos < c.idxstack.entries.length)
    {frame : List UInt8} {frames frames' : List (List UInt8)}
    (hframes : arrivedBefore waits (pos + 1) = frames ++ frames') (hframe : frame ∈ frames)
    {pos' : ℕ} (hle : pos ≤ pos') (hat : BelongsTo c pos' frame) :
  ∀ frame' ∈ frames', ∀ pos'', BelongsTo c pos'' frame' → pos + 1 ≤ pos''
  := by
  intro frame' hframe' pos'' hat'
  have hpairwise := h.pairwise hpos
  rw [Nat.succ_eq_add_one, hframes, List.pairwise_append] at hpairwise
  have hlt := hpairwise.2.2 frame hframe frame' hframe' pos' pos'' hat hat'
  omega

/-- The index of a frame that is taken waits: no second frame comes for a position. -/
theorem Turn.waits_next (h : Turn waits c pos pos taken p) (hin : InTurn waits c)
    (hpos : pos < c.idxstack.entries.length) {frame : List UInt8} {frames : List (List UInt8)}
    (harrived : arrivedBefore waits (pos + 1) = (taken ++ [frame]) ++ frames) {pos' : ℕ}
    (hle : pos ≤ pos') (hat : BelongsTo c pos' frame) {entry : IdxEntry}
    (hentry : c.idxstack.entries[pos']? = some entry) (hpositive : 0 < entry.idx) :
  p.rxbufstat entry.idx = .tx
  := by
  rcases h.stat pos' entry hle hentry with ⟨-, first, hfirst, hat'⟩ | ⟨-, htx, -⟩
  · have hpairwise := hin.pairwise hpos
    rw [Nat.succ_eq_add_one, harrived, List.pairwise_append, List.pairwise_append] at hpairwise
    have hlt := hpairwise.1.2.2 first hfirst frame (List.mem_singleton_self frame) pos' pos'
      hat' hat
    omega
  · apply htx hpositive

/-- When a frame has been taken, its index has its reply, and the others are as before. -/
theorem Turn.stat_taken {n : ℕ} (h : Turn waits c pos n taken p) {frame : List UInt8} {idx : ℕ}
    (hpositive : 0 < idx) (hindex : frameIndex frame = idx) {pos' : ℕ} {entry : IdxEntry}
    (hle : pos ≤ pos') (hentry : c.idxstack.entries[pos']? = some entry) :
  (Function.update p.rxbufstat idx .rcvd entry.idx = .rcvd
      ∧ ∃ first ∈ taken ++ [frame], BelongsTo c pos' first)
    ∨ (Function.update p.rxbufstat idx .rcvd entry.idx ≠ .rcvd
      ∧ (0 < entry.idx → Function.update p.rxbufstat idx .rcvd entry.idx = .tx)
      ∧ ∀ first ∈ taken ++ [frame], ¬ BelongsTo c pos' first)
  := by
  by_cases hidx : entry.idx = idx
  · left
    rw [hidx, Function.update_self]
    refine ⟨rfl, frame, List.mem_append_right _ (List.mem_singleton_self frame), entry, hentry, ?_,
      ?_⟩
    · rw [hidx]
      apply hpositive
    · rw [hidx]
      apply hindex
  · rw [Function.update_of_ne hidx]
    rcases h.stat pos' entry hle hentry with ⟨hrcvd, first, hfirst, hat⟩ | ⟨hne, htx, hnone⟩
    · left
      exact ⟨hrcvd, first, List.mem_append_left _ hfirst, hat⟩
    · right
      refine ⟨hne, htx, ?_⟩
      intro first hfirst hat
      rcases List.mem_append.mp hfirst with hfirst | hfirst
      · exact hnone first hfirst hat
      · obtain ⟨entry', hentry', -, hindex'⟩ := hat
        rw [hentry, Option.some.injEq] at hentry'
        rw [List.mem_singleton.mp hfirst, hindex, ← hentry'] at hindex'
        exact hidx hindex'.symm

/-- The frame that a wait takes is for the position or a later one. -/
theorem Turn.belongsTo_next (h : Turn waits c pos pos taken p) (hin : InTurn waits c)
    (hpos : pos < c.idxstack.entries.length) {frame : List UInt8} {frames : List (List UInt8)}
    (hframes : p.frames ++ (waits pos).frames = frame :: frames)
    (hmem : frame ∈ arrivedBefore waits (pos + 1)) :
  ∃ pos', pos ≤ pos' ∧ BelongsTo c pos' frame
  := by
  have hfirst : frame ∈ p.frames ++ (waits pos).frames := by
    rw [hframes]
    exact List.mem_cons_self
  obtain ⟨pos', hat⟩ := hin.belongsTo hpos hmem
  rcases List.mem_append.mp hfirst with hfirst | hfirst
  · exact ⟨pos', h.ahead frame hfirst pos' hat, hat⟩
  · apply hin.inTime pos hpos frame hfirst

/-- A wait. -/
theorem Turn.wait (h : Turn waits c pos pos taken p) (hin : InTurn waits c) (hwaiting : c.Waiting)
    (hreply : ∀ frame ∈ arrivedBefore waits c.idxstack.entries.length, ∀ pos entry,
      c.idxstack.entries[pos]? = some entry → frameIndex frame = entry.idx →
      IsReply c pos entry frame)
    {entry : IdxEntry} (hentry : c.idxstack.entries[pos]? = some entry) :
  ∃ taken', Turn waits c pos (pos + 1) taken' (p.wait entry.idx (waits pos)).2
  := by
  have hpos := (List.getElem?_eq_some_iff.mp hentry).1
  obtain ⟨harrive, htake⟩ := hin.takeFrame h hpos
  have hstat := p.arrive_rxbufstat (waits pos).arrivals
  rw [Port.wait]
  rcases h.stat pos entry le_rfl hentry with ⟨hrcvd, frame, hframe, hat⟩ | ⟨hnot, -, hnone⟩
  · -- the reply has been taken before
    use taken
    rw [ecxWaitinframe, hstat, if_pos hrcvd]
    have hyields : ((waits pos).yields.map arrived).flatten = [] := by
      by_contra hyields
      have hlt := (hin.yields pos hpos hyields).2 frame
        (by rw [h.before]; exact List.mem_append_left _ hframe) pos hat
      omega
    have harrived : arrivedBefore waits (pos + 1)
        = taken ++ (p.arrive (waits pos).arrivals).frames := by
      rw [arrivedBefore_succ, h.before, harrive, Wait.frames, hyields, List.append_nil,
        List.append_assoc]
    constructor
    case before => apply harrived
    case ahead => apply hin.ahead hpos harrived hframe le_rfl hat
    case stat =>
      rw [hstat]
      apply h.stat
  · have hne : (p.arrive (waits pos).arrivals).rxbufstat entry.idx ≠ .rcvd := by
      rw [hstat]
      apply hnot
    obtain ⟨rxQueue, hrest, heq⟩ := ecxWaitinframe_eq hne (waits pos).yields
    rw [heq]
    rcases htake with ⟨htake, hnothing⟩ | ⟨frame, frames, htake, hframes⟩
    · -- nothing comes
      use taken
      rw [htake] at hrest ⊢
      obtain ⟨hqueue, hsilent⟩ := List.append_eq_nil_iff.mp hnothing
      constructor
      case before =>
        rw [arrivedBefore_succ, h.before, hqueue, hsilent, List.append_nil, List.append_nil]
        exact (List.append_nil taken).symm.trans (congrArg _ hrest.symm)
      case ahead =>
        intro frame hframe
        rw [Port.frames] at hframe
        dsimp only at hframe
        rw [hrest] at hframe
        cases hframe
      case stat =>
        dsimp only [Option.elim_none]
        rw [hstat]
        apply h.stat
    · -- a reply for this position or a later one is taken
      use taken ++ [frame]
      rw [htake] at hrest ⊢
      dsimp only at hrest
      have harrived : arrivedBefore waits (pos + 1) = (taken ++ [frame]) ++ frames := by
        rw [arrivedBefore_succ, h.before, List.append_assoc, hframes, List.append_assoc,
          List.singleton_append]
      have hmem : frame ∈ arrivedBefore waits (pos + 1) := by
        rw [harrived]
        apply List.mem_append_left
        exact List.mem_append_right _ (List.mem_singleton_self frame)
      obtain ⟨pos', hle, hat⟩ := h.belongsTo_next hin hpos hframes hmem
      have hahead := hin.ahead hpos harrived
        (List.mem_append_right taken (List.mem_singleton_self frame)) hle hat
      have hat' := hat
      obtain ⟨entry', hentry', hpositive, hindex⟩ := hat'
      obtain ⟨k, -, hwait⟩ := mem_arrivedBefore.mp hmem
      have hcarries : CarriesReply entry'.idx frame :=
        (hreply frame ((arrivedBefore_mono hpos).subset hmem) pos' entry' hentry'
          hindex).carriesReply hwaiting (List.mem_of_getElem? hentry') hpositive hwait
      have haccepts : (p.arrive (waits pos).arrivals).Accepts frame entry'.idx := by
        apply hcarries.accepts
        rw [hstat]
        apply h.waits_next hin hpos harrived hle hat hentry' hpositive
      rw [Option.elim_some, Port.deliver_of_accepts haccepts]
      have hqueue : ∀ q : Port, { q with rxQueue := rxQueue }.frames = frames := fun _ => hrest
      constructor
      case before => rw [harrived, hqueue]
      case ahead =>
        rw [hqueue]
        apply hahead
      case stat =>
        intro pos'' entry'' hle'' hentry''
        dsimp only
        rw [hstat]
        apply h.stat_taken hpositive hindex hle'' hentry''

/-- The index of the position is released. -/
theorem Turn.release (h : Turn waits c pos (pos + 1) taken p) (hwaiting : c.Waiting)
    {entry : IdxEntry} (hentry : c.idxstack.entries[pos]? = some entry) :
  Turn waits c (pos + 1) (pos + 1) taken (ecxSetbufstat entry.idx .empty p)
  := by
  constructor
  case before => apply h.before
  case ahead => apply h.ahead
  case stat =>
    intro pos' entry' hle hentry'
    rw [ecxSetbufstat_rxbufstat]
    have hstat := h.stat pos' entry' (by omega) hentry'
    by_cases hidx : entry'.idx = entry.idx
    · -- only the index 0 is there twice, and no frame belongs to it
      have hzero : entry'.idx = 0 := by
        obtain ⟨hpos, rfl⟩ := List.getElem?_eq_some_iff.mp hentry
        obtain ⟨hpos', rfl⟩ := List.getElem?_eq_some_iff.mp hentry'
        rw [hidx]
        apply List.pairwise_iff_getElem.mp hwaiting.distinct pos pos' hpos hpos' hle hidx.symm
      right
      rw [hidx, Function.update_self, ← hidx, hzero]
      refine ⟨by decide, fun hpositive => absurd hpositive (lt_irrefl 0), ?_⟩
      rintro frame - ⟨entry'', hentry'', hpositive, -⟩
      rw [hentry', Option.some.injEq] at hentry''
      rw [← hentry'', hzero] at hpositive
      exact lt_irrefl 0 hpositive
    · rw [Function.update_of_ne hidx]
      apply hstat

theorem receiveBefore_succ {pos : ℕ} {entry : IdxEntry}
    (h : c.idxstack.entries[pos]? = some entry) :
  receiveBefore waits c (pos + 1) = receiveEntry entry (waits pos) (receiveBefore waits c pos)
  := by
  have hlt := (List.getElem?_eq_some_iff.mp h).1
  rw [receiveBefore, List.take_add_one, h, Option.toList_some, receiveEntries_append,
    List.length_take_of_le hlt.le, Nat.zero_add]
  rfl

/-- Throughout the loop. -/
theorem InTurn.turn (h : InTurn waits c) (hwaiting : c.Waiting)
    (hreply : ∀ frame ∈ arrivedBefore waits c.idxstack.entries.length, ∀ pos entry,
      c.idxstack.entries[pos]? = some entry → frameIndex frame = entry.idx →
      IsReply c pos entry frame)
    (hpos : pos ≤ c.idxstack.entries.length) :
  ∃ taken, Turn waits c pos pos taken (receiveBefore waits c pos).context.port
  := by
  induction pos with
  | zero =>
      use []
      constructor
      case before => exact h.queue.symm
      case ahead =>
        intro frame hframe
        have hframe' : frame ∈ c.port.frames := hframe
        rw [h.queue] at hframe'
        cases hframe'
      case stat =>
        intro pos' entry _ hentry
        right
        have htx : c.port.rxbufstat entry.idx = .tx :=
          hwaiting.waits entry (List.mem_of_getElem? hentry)
        refine ⟨?_, fun _ => htx, fun frame hframe => nomatch hframe⟩
        intro hrcvd
        have hstat := htx.symm.trans hrcvd
        cases hstat
  | succ pos ih =>
      obtain ⟨taken, hturn⟩ := ih (Nat.le_of_succ_le hpos)
      have hentry : c.idxstack.entries[pos]? = some c.idxstack.entries[pos] :=
        List.getElem?_eq_getElem hpos
      obtain ⟨taken', hwait⟩ := hturn.wait h hwaiting hreply hentry
      use taken'
      rw [receiveBefore_succ hentry, receiveEntry]
      dsimp only
      rw [receiveReply_port]
      apply hwait.release hwaiting hentry

/-- A reply that comes in its turn is received. -/
theorem InTurn.answeredAt (h : InTurn waits c) (hwaiting : c.Waiting)
    (hreply : ∀ frame ∈ arrivedBefore waits c.idxstack.entries.length, ∀ pos entry,
      c.idxstack.entries[pos]? = some entry → frameIndex frame = entry.idx →
      IsReply c pos entry frame)
    (hcomes : Comes waits c pos) :
  AnsweredAt waits c pos
  := by
  obtain ⟨frame, hmem, hat⟩ := hcomes
  have hat' := hat
  obtain ⟨entry, hentry, -, -⟩ := hat'
  have hpos := (List.getElem?_eq_some_iff.mp hentry).1
  obtain ⟨taken, hturn⟩ := h.turn hwaiting hreply hpos.le
  obtain ⟨taken', hwait⟩ := hturn.wait h hwaiting hreply hentry
  -- the frame comes before the end of the wait
  have hmem' : frame ∈ arrivedBefore waits (pos + 1) := by
    obtain ⟨k, hk, hframe⟩ := mem_arrivedBefore.mp hmem
    obtain ⟨pos', hle, hat'⟩ := h.inTime k hk frame hframe
    rw [← hwaiting.belongsTo_unique hat hat'] at hle
    exact mem_arrivedBefore.mpr ⟨k, Nat.lt_succ_of_le hle, hframe⟩
  rw [hwait.before] at hmem'
  refine ⟨entry, hentry, ?_⟩
  rw [Port.wait_fst]
  rcases List.mem_append.mp hmem' with hmem' | hmem'
  · rcases hwait.stat pos entry le_rfl hentry with ⟨hrcvd, -⟩ | ⟨-, -, hnone⟩
    · apply hrcvd
    · exact absurd hat (hnone frame hmem')
  · have hlt := hwait.ahead frame hmem' pos hat
    omega

end Exchange

end EthercatMaster
