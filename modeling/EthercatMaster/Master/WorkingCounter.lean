import Mathlib.Algebra.BigOperators.Group.Finset.Basic
import Mathlib.Algebra.BigOperators.Ring.Finset
import EthercatMaster.Master.OwnReply

/-!
# The working counter

`ecx_receive_processdata_group` adds up what `ecx_waitinframe` returns.  On this port that is the
state of the buffer and not the working counter of the reply; only the counter of the frame with the
system time is read from the buffer.
-/

namespace EthercatMaster

/-! ### The length of the first frame -/

/-- While process data is sent: the frame with the system time is the first one, and its length is
remembered. -/
def SendState.ClockFirst (x : SendState) : Prop :=
  if x.first then x.context.idxstack.entries = []
  else x.context.group.hasdc = true →
    ∃ entry ∈ x.context.idxstack.entries.head?, entry.length = x.context.DCl

theorem setupSegment_clock (com : EcCmdtype) (idx : ℕ) (sublength : ℤ) (x : SendState) :
  (setupSegment com idx sublength x).first = false
    ∧ (setupSegment com idx sublength x).context.idxstack = x.context.idxstack
    ∧ (setupSegment com idx sublength x).context.group = x.context.group
    ∧ (setupSegment com idx sublength x).context.DCl
      = if x.first then uint16OfInt sublength else x.context.DCl
  := by
  unfold setupSegment
  dsimp only
  cases x.first with
  | true => exact ⟨rfl, rfl, rfl, rfl⟩
  | false => exact ⟨rfl, rfl, rfl, rfl⟩

theorem SendState.ClockFirst.sendSegment {x : SendState} (h : x.ClockFirst) (com : EcCmdtype)
    (sublength : ℤ) (offset : ℕ) (sendOk : ℕ → Bool) :
  (sendSegment com sublength offset sendOk x).ClockFirst
  := by
  obtain ⟨hfirst, hstack, hgroup, hDCl⟩ := setupSegment_clock com (ecxGetindex x.context.port).1
    sublength { x with context := { x.context with port := (ecxGetindex x.context.port).2 } }
  rw [EthercatMaster.sendSegment, ClockFirst]
  dsimp only
  rw [hfirst, if_neg Bool.false_ne_true, hstack, hgroup, hDCl]
  dsimp only
  intro hdc
  rw [ClockFirst] at h
  cases hx : x.first with
  | true =>
      rw [hx, if_pos rfl] at h
      rw [ecxPushindex, h, if_pos (by decide)]
      exact ⟨_, rfl, rfl⟩
  | false =>
      rw [hx, if_neg Bool.false_ne_true] at h
      obtain ⟨entry, hentry, hlength⟩ := h hdc
      rw [if_neg Bool.false_ne_true]
      refine ⟨entry, ?_, hlength⟩
      rw [ecxPushindex]
      split
      · exact List.mem_head?_append_of_mem_head? hentry
      · apply hentry

theorem SendState.ClockFirst.sendSegments {x : SendState} (h : x.ClockFirst) (com : EcCmdtype)
    (sublength : ℕ → ℤ → ℤ) (offset : ℕ) (sendOk : ℕ → Bool) (rounds currentsegment : ℕ) :
  (sendSegments com sublength offset sendOk rounds currentsegment x).ClockFirst
  := by
  induction rounds generalizing currentsegment x with
  | zero => apply h.sendSegment
  | succ rounds ih =>
      rw [EthercatMaster.sendSegments]
      split
      · apply ih
        apply h.sendSegment
      · apply h.sendSegment

theorem SendState.ClockFirst.sendInputs {x : SendState} (h : x.ClockFirst) (sendOk : ℕ → Bool) :
  (sendInputs sendOk x).ClockFirst
  := by
  rw [EthercatMaster.sendInputs]
  split
  · apply ClockFirst.sendSegments
    apply h
  · apply h

theorem SendState.ClockFirst.sendOutputs {x : SendState} (h : x.ClockFirst) (sendOk : ℕ → Bool) :
  (sendOutputs sendOk x).ClockFirst
  := by
  rw [EthercatMaster.sendOutputs]
  split
  · apply ClockFirst.sendSegments
    apply h
  · apply h

theorem SendState.ClockFirst.sendImage {x : SendState} (h : x.ClockFirst) (offset : ℕ)
    (sendOk : ℕ → Bool) :
  (sendImage offset sendOk x).ClockFirst
  := by
  rw [EthercatMaster.sendImage]
  split
  · apply ClockFirst.sendSegments
    apply h
  · apply ClockFirst.sendSegments
    apply h

theorem SendState.ClockFirst.length_eq {x : SendState} (h : x.ClockFirst)
    (hdc : x.context.group.hasdc = true) {entry : IdxEntry}
    (hentry : x.context.idxstack.entries[0]? = some entry) :
  entry.length = x.context.DCl
  := by
  rw [ClockFirst] at h
  split at h
  · rw [h] at hentry
    cases hentry
  · obtain ⟨entry', hentry', hlength⟩ := h hdc
    rw [List.head?_eq_getElem?, hentry, Option.mem_some_iff] at hentry'
    rw [hentry', hlength]

/-- The length of the frame with the system time is that of the first frame. -/
theorem length_eq_DCl {c : Context} (h : c.idxstack.entries = []) (sendOk : ℕ → Bool)
    (hdc : (ecSendProcessdata sendOk c).2.group.hasdc = true) {entry : IdxEntry}
    (hentry : (ecSendProcessdata sendOk c).2.idxstack.entries[0]? = some entry) :
  entry.length = (ecSendProcessdata sendOk c).2.DCl
  := by
  have hstart : ∀ length, (⟨c, c.group.hasdc, length, c.group.logstartaddr, 0⟩ :
      SendState).ClockFirst := by
    intro length
    rw [SendState.ClockFirst]
    split
    · apply h
    · intro hdc
      contradiction
  rw [ecSendProcessdata, ecxMainSendProcessdata, if_neg Bool.false_ne_true,
    if_neg Bool.false_ne_true] at hdc hentry ⊢
  split at hentry
  · rename_i hlength
    rw [if_pos hlength] at hdc ⊢
    split at hentry
    · rename_i hblock
      rw [if_pos hblock] at hdc ⊢
      apply ((hstart _).sendInputs sendOk |>.sendOutputs sendOk).length_eq hdc hentry
    · rename_i hblock
      rw [if_neg hblock] at hdc ⊢
      apply ((hstart _).sendImage 0 sendOk).length_eq hdc hentry
  · rw [h] at hentry
    cases hentry

/-! ### Counting -/

/-- How often the counter of a reply counts: that of a command that only writes counts twice. -/
def wkcWeight (com : UInt8) : ℤ :=
  if com = EcCmdtype.lwr.code then 2 else 1

section Exchange

variable (waits : ℕ → Wait) (c : Context) (replies : ℕ → List UInt8)

/-- All replies of a cycle are received in time: at each position the receive buffer has the reply,
which has a command that exchanges process data and reaches to its working counter. -/
structure AllReplied : Prop where
  received : ∀ pos entry, c.idxstack.entries[pos]? = some entry →
    ((receiveBefore waits c pos).context.port.wait entry.idx (waits pos)).2.HasReceived entry.idx
      (replies pos)
  com : ∀ pos entry, c.idxstack.entries[pos]? = some entry →
    IsProcessdata (payload (replies pos) ecCmdoffset)
  wkc_le : ∀ pos entry, c.idxstack.entries[pos]? = some entry →
    ecHeadersize + entry.length + ecWkcsize ≤ payloadLength (replies pos)

/-- The working counter of the process data in the reply at a position, with its weight. -/
def replyWkc (pos : ℕ) : ℤ :=
  c.idxstack.entries[pos]?.elim 0 fun entry =>
    wkcWeight (payload (replies pos) ecCmdoffset)
      * ((payload (replies pos)).uint16 (ecHeadersize + entry.length)).toNat

/-- The frame at a position has the system time. -/
def HasClock (pos : ℕ) : Prop :=
  c.group.hasdc = true ∧ pos = 0

instance (pos : ℕ) : Decidable (HasClock c pos) :=
  inferInstanceAs (Decidable (_ ∧ _))

/-- What is added at a position. -/
def addedWkc (pos : ℕ) : ℤ :=
  if HasClock c pos then replyWkc c replies pos
  else wkcWeight (payload (replies pos) ecCmdoffset) * BufStat.rcvd.toInt

variable {waits c replies}

/-- The working counter after a reply with process data. -/
theorem receiveReply_wkc {entry : IdxEntry} {x : ReceiveState} {wkc2 : ℤ}
    (h : IsProcessdata (x.context.port.rxbuf entry.idx ecCmdoffset)) (hwkc2 : ecNoframe < wkc2) :
  (receiveReply entry wkc2 x).wkc
    = if x.first then
        wkcWeight (x.context.port.rxbuf entry.idx ecCmdoffset)
          * ((x.context.port.rxbuf entry.idx).uint16 (ecHeadersize + x.context.DCl)).toNat
      else x.wkc + wkcWeight (x.context.port.rxbuf entry.idx ecCmdoffset) * wkc2
  := by
  obtain ⟨context, wkc, validWkc, first⟩ := x
  rw [receiveReply, if_pos hwkc2, wkcWeight]
  dsimp only at h ⊢
  by_cases hread : context.port.rxbuf entry.idx ecCmdoffset = EcCmdtype.lrd.code
      ∨ context.port.rxbuf entry.idx ecCmdoffset = EcCmdtype.lrw.code
  · have hwrite : context.port.rxbuf entry.idx ecCmdoffset ≠ EcCmdtype.lwr.code := by
      rcases hread with hread | hread
      · rw [hread]
        decide
      · rw [hread]
        decide
    rw [if_pos hread, if_neg hwrite, one_mul, one_mul]
    cases first with
    | true => rfl
    | false => rfl
  · have hwrite := h.resolve_left hread
    rw [if_neg hread, if_pos hwrite, if_pos hwrite, mul_comm 2, mul_comm 2]
    cases first with
    | true => rfl
    | false => rfl

/-- The loop when all replies are received. -/
theorem AllReplied.receiveBefore (h : AllReplied waits c replies)
    (hDCl : c.group.hasdc = true → ∀ entry, c.idxstack.entries[0]? = some entry →
      entry.length = c.DCl) {pos : ℕ} (hle : pos ≤ c.idxstack.entries.length) :
  (receiveBefore waits c pos).context.DCl = c.DCl
    ∧ ((receiveBefore waits c pos).first = true ↔ HasClock c pos)
    ∧ ((receiveBefore waits c pos).validWkc = true ↔ pos ≠ 0)
    ∧ (receiveBefore waits c pos).wkc = ∑ pos ∈ Finset.range pos, addedWkc c replies pos
  := by
  induction pos with
  | zero =>
      refine ⟨rfl, (and_iff_left rfl).symm, ?_, rfl⟩
      simp [EthercatMaster.receiveBefore, receiveEntries]
  | succ pos ih =>
      obtain ⟨hlength, hfirst, -, hwkc⟩ := ih (Nat.le_of_succ_le hle)
      have hentry : c.idxstack.entries[pos]? = some c.idxstack.entries[pos] :=
        List.getElem?_eq_getElem hle
      rw [receiveBefore_succ hentry, Finset.sum_range_succ, ← hwkc]
      obtain ⟨hrcvd, hbytes⟩ := h.received pos _ hentry
      have hcom := h.com pos _ hentry
      have hfield := h.wkc_le pos _ hentry
      generalize c.idxstack.entries[pos] = entry at *
      rw [receiveEntry]
      dsimp only
      rw [Port.wait_fst, hrcvd]
      generalize ((EthercatMaster.receiveBefore waits c pos).context.port.wait entry.idx
        (waits pos)).2 = port at *
      generalize EthercatMaster.receiveBefore waits c pos = x at *
      have hcom' : port.rxbuf entry.idx ecCmdoffset = payload (replies pos) ecCmdoffset := by
        apply hbytes
        have : ecCmdoffset < ecHeadersize := by decide
        omega
      rw [← hcom'] at hcom
      have hwkc2 : ecNoframe < BufStat.rcvd.toInt := by decide
      obtain ⟨image, DCtime, wkc, heq, -⟩ := @receiveReply_of_processdata entry
        { x with context := { x.context with port := port } } _ hcom hwkc2
      have hadded := @receiveReply_wkc entry
        { x with context := { x.context with port := port } } _ hcom hwkc2
      rw [heq] at hadded ⊢
      dsimp only at hadded ⊢
      refine ⟨hlength, ?_, by simp, ?_⟩
      · constructor
        · intro hfalse
          cases hfalse
        · rintro ⟨-, hzero⟩
          cases hzero
      · rw [hadded, hcom', addedWkc]
        by_cases hclock : HasClock c pos
        · rw [if_pos (hfirst.mpr hclock), if_pos hclock, replyWkc, hentry, Option.elim_some]
          obtain ⟨hdc, rfl⟩ := hclock
          rw [hwkc, Finset.sum_range_zero, zero_add, hlength, ← hDCl hdc entry hentry]
          rw [Bytes.uint16_congr (fun i hi => hbytes i (lt_of_lt_of_le hi hfield))]
        · rw [if_neg (fun h => hclock (hfirst.mp h)), if_neg hclock]

/-- The value returned when all replies are received. -/
theorem AllReplied.wkc_eq (h : AllReplied waits c replies)
    (hDCl : c.group.hasdc = true → ∀ entry, c.idxstack.entries[0]? = some entry →
      entry.length = c.DCl) (hpulled : c.idxstack.pulled = 0) :
  (ecxReceiveProcessdataGroup waits c).1
    = if c.idxstack.entries.length = 0 then ecNoframe
      else ∑ pos ∈ Finset.range c.idxstack.entries.length, addedWkc c replies pos
  := by
  obtain ⟨-, -, hvalid, hwkc⟩ := h.receiveBefore hDCl le_rfl
  rw [EthercatMaster.receiveBefore, List.take_length] at hvalid hwkc
  rw [ecxReceiveProcessdataGroup, hpulled, List.drop_zero]
  dsimp only
  split
  · rename_i htrue
    rw [if_neg (hvalid.mp htrue), hwkc]
  · rename_i hfalse
    rw [if_pos (not_not.mp (fun hne => hfalse (hvalid.mpr hne)))]

end Exchange

/-- The positions of the frames without the system time. -/
def unclocked (c : Context) : Finset ℕ :=
  (Finset.range c.idxstack.entries.length).filter fun pos => ¬ HasClock c pos

/-- In a cycle in which all replies are received, the value returned is the sum of the working
counters of the replies exactly if some frame was sent and the counters of the frames without the
system time are three on average. -/
theorem wkc_eq_sum_iff (c : Context) (hstack : c.idxstack = ecxClearindex) (sendOk : ℕ → Bool)
    (waits : ℕ → Wait) (replies : ℕ → List UInt8)
    (h : AllReplied waits (ecSendProcessdata sendOk c).2 replies) :
  (ecxReceiveProcessdataGroup waits (ecSendProcessdata sendOk c).2).1
      = ∑ pos ∈ Finset.range (ecSendProcessdata sendOk c).2.idxstack.entries.length,
        replyWkc (ecSendProcessdata sendOk c).2 replies pos
  ↔ (ecSendProcessdata sendOk c).2.idxstack.entries ≠ []
    ∧ ∑ pos ∈ unclocked (ecSendProcessdata sendOk c).2,
        replyWkc (ecSendProcessdata sendOk c).2 replies pos
      = ∑ pos ∈ unclocked (ecSendProcessdata sendOk c).2,
        wkcWeight (payload (replies pos) ecCmdoffset) * 3
  := by
  have hempty : c.idxstack.entries = [] := by
    rw [hstack]
    rfl
  have hDCl := fun hdc entry => @length_eq_DCl c hempty sendOk hdc entry
  have hpulled : (ecSendProcessdata sendOk c).2.idxstack.pulled = 0 := by
    rw [(sentFrom_ecSendProcessdata hempty sendOk).pulled, hstack]
    rfl
  rw [h.wkc_eq hDCl hpulled]
  generalize (ecSendProcessdata sendOk c).2 = sent
  rw [ne_eq, ← List.length_eq_zero_iff]
  split
  · rename_i hlength
    rw [hlength, Finset.sum_range_zero]
    constructor
    · intro hfalse
      cases hfalse
    · rintro ⟨hfalse, -⟩
      contradiction
  · rename_i hlength
    rw [and_iff_right hlength, unclocked,
      ← Finset.sum_filter_add_sum_filter_not _ (HasClock sent),
      ← Finset.sum_filter_add_sum_filter_not (Finset.range sent.idxstack.entries.length)
        (HasClock sent) (replyWkc sent replies)]
    have hclocked : ∑ pos ∈ (Finset.range sent.idxstack.entries.length).filter (HasClock sent),
        addedWkc sent replies pos
        = ∑ pos ∈ (Finset.range sent.idxstack.entries.length).filter (HasClock sent),
          replyWkc sent replies pos := by
      apply Finset.sum_congr rfl
      intro pos hpos
      apply if_pos (Finset.mem_filter.mp hpos).2
    have hothers : ∑ pos ∈ (Finset.range sent.idxstack.entries.length).filter
          (fun pos => ¬ HasClock sent pos), addedWkc sent replies pos
        = ∑ pos ∈ (Finset.range sent.idxstack.entries.length).filter
          (fun pos => ¬ HasClock sent pos), wkcWeight (payload (replies pos) ecCmdoffset) * 3 := by
      apply Finset.sum_congr rfl
      intro pos hpos
      apply if_neg (Finset.mem_filter.mp hpos).2
    rw [hclocked, hothers, add_right_inj]
    apply eq_comm

/-! ### A drive that does not answer -/

namespace UnansweredDrive

/-- One drive without distributed clocks. -/
def start : Exchange :=
  { LostReply.start with
    context := { LostReply.start.context with group := { LostReply.group with hasdc := false } } }

/-- The reply to the first frame, with a working counter. -/
def reply (wkc : UInt8) : List UInt8 :=
  ethernetHeader ++ [0, 0x10, EcCmdtype.lrw.code, 1] ++ List.replicate 8 0
    ++ List.replicate 30 0 ++ [wkc, 0] ++ List.replicate 2 0

/-- The reply arrives before it is waited for. -/
def answer (wkc : UInt8) : ℕ → Wait := fun _ =>
  ⟨[some ⟨.receiveEtherFrame, some ⟨60, 2, Bytes.ofList (reply wkc), 0, none⟩⟩], []⟩

/-- The context after the frame has been sent. -/
def sent : Context :=
  (ecSendProcessdata (fun _ => true) start.context).2

theorem entries_sent :
  sent.idxstack.entries = [⟨1, 0, 30⟩]
  := by
  decide +kernel

theorem allReplied {wkc : UInt8} (hframes : (answer wkc 0).frames = [reply wkc]) :
  AllReplied (answer wkc) sent fun _ => reply wkc
  := by
  have hentry : ∀ pos entry, sent.idxstack.entries[pos]? = some entry →
      pos = 0 ∧ entry = ⟨1, 0, 30⟩ := by
    intro pos entry h
    rw [entries_sent, List.getElem?_singleton] at h
    split at h
    · cases h
      exact ⟨by assumption, rfl⟩
    · cases h
  have hreply : CarriesReply 1 (reply wkc) := by
    constructor
    case index_lt =>
      show 17 < 60
      decide
    case length_le =>
      show 60 ≤ 1518
      decide
    case ethertype => exact ⟨rfl, rfl⟩
    case index => rfl
    case index_mem => decide
  constructor
  case received =>
    intro pos entry hpos
    obtain ⟨rfl, rfl⟩ := hentry pos entry hpos
    have hwaits : sent.port.rxbufstat 1 = .tx := by decide +kernel
    have hqueue : sent.port.frames = [] := by decide +kernel
    apply Port.hasReceived_wait hwaits hqueue hframes hreply
  case com =>
    intro pos entry _
    left
    right
    rfl
  case wkc_le =>
    intro pos entry hpos
    obtain ⟨rfl, rfl⟩ := hentry pos entry hpos
    show 44 ≤ 46
    decide

/-- If the drive answers, the value returned happens to be its working counter. -/
theorem wkc_of_answered :
  (ecxReceiveProcessdataGroup (answer 3) sent).1
    = ∑ pos ∈ Finset.range sent.idxstack.entries.length, replyWkc sent (fun _ => reply 3) pos
  := by
  apply (wkc_eq_sum_iff start.context rfl (fun _ => true) (answer 3) (fun _ => reply 3)
    (allReplied (by decide +kernel))).mpr
  decide +kernel

/-- If the drive does not answer, its reply has the working counter zero, but the same value is
returned, and the cycle is found to be good. -/
theorem wkc_of_unanswered :
  AllReplied (answer 0) sent (fun _ => reply 0)
    ∧ ∑ pos ∈ Finset.range sent.idxstack.entries.length, replyWkc sent (fun _ => reply 0) pos = 0
    ∧ (ecxReceiveProcessdataGroup (answer 0) sent).1 = 3
    ∧ (start.checked (fun _ => true) (answer 0)).1 = true
  := by
  refine ⟨allReplied (by decide +kernel), ?_, ?_, ?_⟩
  · decide +kernel
  · decide +kernel
  · decide +kernel

end UnansweredDrive

end EthercatMaster
