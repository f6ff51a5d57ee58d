import EthercatMaster.Soem.Processdata
import EthercatMaster.Soem.Frames

/-!
# What sending leaves behind

Sending process data touches the transmit buffers and the states of the indices.  Afterwards every
index on the stack waits for its reply, and no index is there twice, but for the index 0 which is
used when all others are taken and never has a reply.
-/

namespace EthercatMaster

/-- What a context keeps from before the process data is sent. -/
structure Context.SentFrom (c x : Context) : Prop where
  rxbuf : x.port.rxbuf = c.port.rxbuf
  rxQueue : x.port.rxQueue = c.port.rxQueue
  tempinbuf : x.port.tempinbuf = c.port.tempinbuf
  group : x.group = c.group
  image : x.image = c.image
  DCtime : x.DCtime = c.DCtime
  pulled : x.idxstack.pulled = c.idxstack.pulled
  index_lt : ∀ entry ∈ x.idxstack.entries, entry.idx < ecMaxbuf
  waits : ∀ entry ∈ x.idxstack.entries, x.port.rxbufstat entry.idx = .tx
  distinct : x.idxstack.entries.Pairwise fun entry entry' => entry.idx = entry'.idx → entry.idx = 0

theorem Context.sentFrom_self (c : Context) (h : c.idxstack.entries = []) :
  c.SentFrom c
  := by
  constructor
  case index_lt =>
    rw [h]
    intro entry hentry
    cases hentry
  case waits =>
    rw [h]
    intro entry hentry
    cases hentry
  case distinct =>
    rw [h]
    apply List.Pairwise.nil
  all_goals rfl

/-- The search of `ecx_getindex` ends at a free index. -/
theorem searchIndex_empty {rxbufstat : ℕ → BufStat} {rounds idx found : ℕ}
    (h : searchIndex rxbufstat rounds idx = some found) :
  rxbufstat found = .empty
  := by
  induction rounds generalizing idx with
  | zero => cases h
  | succ rounds ih =>
      rw [searchIndex] at h
      split at h
      · rename_i hempty
        cases h
        apply hempty
      · apply ih h

theorem nextIndex_mem (idx : ℕ) :
  0 < nextIndex idx ∧ nextIndex idx < ecMaxbuf
  := by
  have hmax : ecMaxbuf = 16 := rfl
  rw [nextIndex]
  split
  · omega
  · omega

/-- The search goes through the indices of the buffers. -/
theorem searchIndex_lt {rxbufstat : ℕ → BufStat} {rounds idx found : ℕ} (hidx : idx < ecMaxbuf)
    (h : searchIndex rxbufstat rounds idx = some found) :
  found < ecMaxbuf
  := by
  induction rounds generalizing idx with
  | zero => cases h
  | succ rounds ih =>
      rw [searchIndex] at h
      split at h
      · cases h
        apply hidx
      · apply ih (nextIndex_mem idx).2 h

theorem ecxGetindex_lt (p : Port) :
  (ecxGetindex p).1 < ecMaxbuf
  := by
  unfold ecxGetindex
  split
  · rename_i idx hsearch
    apply searchIndex_lt (nextIndex_mem _).2 hsearch
  · exact Nat.succ_pos 15

/-- `ecx_getindex` reserves a free index, or returns 0. -/
theorem ecxGetindex_cases (p : Port) :
  (p.rxbufstat (ecxGetindex p).1 = .empty
      ∧ (ecxGetindex p).2
        = { ecxSetbufstat (ecxGetindex p).1 .alloc p with lastidx := (ecxGetindex p).1 })
    ∨ (ecxGetindex p) = (0, p)
  := by
  unfold ecxGetindex
  split
  · rename_i idx hsearch
    left
    exact ⟨searchIndex_empty hsearch, rfl⟩
  · right
    rfl

/-- A frame sent is waited for. -/
theorem ecxOutframe_eq (idx : ℕ) (p : Port) :
  ∃ txbuf, ∀ sendOk, (ecxOutframe idx sendOk p).2
    = { p with rxbufstat := Function.update p.rxbufstat idx .tx, txbuf := txbuf }
  := by
  unfold ecxOutframe
  dsimp only
  split_ifs
  · exact ⟨_, fun _ => rfl⟩
  · exact ⟨_, fun _ => rfl⟩
  · exact ⟨_, fun _ => rfl⟩

/-- Setting up the datagrams of a segment touches transmit buffers only. -/
theorem setupSegment_eq (com : EcCmdtype) (idx : ℕ) (sublength : ℤ) (x : SendState) :
  ∃ txbuf txbuflength first DCl DCtO,
    setupSegment com idx sublength x
      = { x with
          context :=
            { x.context with
              port := { x.context.port with txbuf := txbuf, txbuflength := txbuflength }
              DCl := DCl
              DCtO := DCtO }
          first := first }
  := by
  unfold setupSegment
  dsimp only
  split
  · exact ⟨_, _, _, _, _, rfl⟩
  · exact ⟨_, _, _, _, _, rfl⟩

theorem ecxGetindex_rx (p : Port) :
  (ecxGetindex p).2.rxbuf = p.rxbuf ∧ (ecxGetindex p).2.rxQueue = p.rxQueue
    ∧ (ecxGetindex p).2.tempinbuf = p.tempinbuf
  := by
  rcases ecxGetindex_cases p with ⟨-, h⟩ | h
  · rw [h]
    exact ⟨rfl, rfl, rfl⟩
  · rw [h]
    exact ⟨rfl, rfl, rfl⟩

/-- An index that is waited for is not the one reserved. -/
theorem ecxGetindex_tx {p : Port} {idx : ℕ} (h : p.rxbufstat idx = .tx) :
  (ecxGetindex p).2.rxbufstat idx = .tx ∧ (idx = (ecxGetindex p).1 → idx = 0)
  := by
  rcases ecxGetindex_cases p with ⟨hempty, heq⟩ | heq
  · have hne : idx ≠ (ecxGetindex p).1 := by
      intro hidx
      rw [hidx, hempty] at h
      cases h
    constructor
    · rw [heq]
      exact (Function.update_of_ne hne _ _).trans h
    · intro hidx
      exact absurd hidx hne
  · rw [heq]
    exact ⟨h, id⟩

variable {c : Context} {x : SendState}

/-- A round of the loops. -/
theorem Context.SentFrom.sendSegment (h : c.SentFrom x.context) (com : EcCmdtype) (sublength : ℤ)
    (offset : ℕ) (sendOk : ℕ → Bool) :
  c.SentFrom (sendSegment com sublength offset sendOk x).context
  := by
  obtain ⟨txbuf, txbuflength, first, DCl, DCtO, hsetup⟩ := setupSegment_eq com
    (ecxGetindex x.context.port).1 sublength
    { x with context := { x.context with port := (ecxGetindex x.context.port).2 } }
  obtain ⟨hrxbuf, hqueue, htempinbuf⟩ := ecxGetindex_rx x.context.port
  rw [EthercatMaster.sendSegment]
  dsimp only
  rw [hsetup]
  dsimp only
  obtain ⟨txbuf', hout⟩ := ecxOutframe_eq (ecxGetindex x.context.port).1
    { (ecxGetindex x.context.port).2 with txbuf := txbuf, txbuflength := txbuflength }
  have hwaits : ∀ entry ∈ x.context.idxstack.entries,
      Function.update (ecxGetindex x.context.port).2.rxbufstat (ecxGetindex x.context.port).1
        BufStat.tx entry.idx = .tx := by
    intro entry hentry
    by_cases hidx : entry.idx = (ecxGetindex x.context.port).1
    · rw [hidx, Function.update_self]
    · rw [Function.update_of_ne hidx]
      apply (ecxGetindex_tx (h.waits entry hentry)).1
  constructor
  case rxbuf =>
    rw [hout]
    apply hrxbuf.trans h.rxbuf
  case rxQueue =>
    rw [hout]
    apply hqueue.trans h.rxQueue
  case tempinbuf =>
    rw [hout]
    apply htempinbuf.trans h.tempinbuf
  case group => apply h.group
  case image => apply h.image
  case DCtime => apply h.DCtime
  case pulled =>
    dsimp only
    rw [ecxPushindex]
    split
    · apply h.pulled
    · apply h.pulled
  case index_lt =>
    dsimp only
    intro entry hentry
    rw [ecxPushindex] at hentry
    split at hentry
    · rcases List.mem_append.mp hentry with hentry | hentry
      · apply h.index_lt entry hentry
      · rw [List.mem_singleton.mp hentry]
        apply ecxGetindex_lt
    · apply h.index_lt entry hentry
  case waits =>
    rw [hout]
    dsimp only
    intro entry hentry
    rw [ecxPushindex] at hentry
    split at hentry
    · rcases List.mem_append.mp hentry with hentry | hentry
      · apply hwaits entry hentry
      · rw [List.mem_singleton.mp hentry]
        apply Function.update_self
    · apply hwaits entry hentry
  case distinct =>
    dsimp only
    rw [ecxPushindex]
    split
    · rw [List.pairwise_append]
      refine ⟨h.distinct, List.pairwise_singleton _ _, ?_⟩
      intro entry hentry entry' hentry'
      rw [List.mem_singleton.mp hentry']
      apply (ecxGetindex_tx (h.waits entry hentry)).2
    · apply h.distinct

/-- The loops. -/
theorem Context.SentFrom.sendSegments (h : c.SentFrom x.context) (com : EcCmdtype)
    (sublength : ℕ → ℤ → ℤ) (offset : ℕ) (sendOk : ℕ → Bool) (rounds currentsegment : ℕ) :
  c.SentFrom (sendSegments com sublength offset sendOk rounds currentsegment x).context
  := by
  induction rounds generalizing currentsegment x with
  | zero => apply h.sendSegment
  | succ rounds ih =>
      rw [EthercatMaster.sendSegments]
      split
      · apply ih
        apply h.sendSegment
      · apply h.sendSegment

theorem Context.SentFrom.sendInputs (h : c.SentFrom x.context) (sendOk : ℕ → Bool) :
  c.SentFrom (sendInputs sendOk x).context
  := by
  rw [EthercatMaster.sendInputs]
  split
  · apply Context.SentFrom.sendSegments
    apply h
  · apply h

theorem Context.SentFrom.sendOutputs (h : c.SentFrom x.context) (sendOk : ℕ → Bool) :
  c.SentFrom (sendOutputs sendOk x).context
  := by
  rw [EthercatMaster.sendOutputs]
  split
  · apply Context.SentFrom.sendSegments
    apply h
  · apply h

theorem Context.SentFrom.sendImage (h : c.SentFrom x.context) (offset : ℕ) (sendOk : ℕ → Bool) :
  c.SentFrom (sendImage offset sendOk x).context
  := by
  rw [EthercatMaster.sendImage]
  split
  · apply Context.SentFrom.sendSegments
    apply h
  · apply Context.SentFrom.sendSegments
    apply h

/-- Sending process data with nothing on the stack. -/
theorem sentFrom_ecSendProcessdata (h : c.idxstack.entries = []) (sendOk : ℕ → Bool) :
  c.SentFrom (ecSendProcessdata sendOk c).2
  := by
  have hself := c.sentFrom_self h
  rw [ecSendProcessdata, ecxMainSendProcessdata, if_neg Bool.false_ne_true,
    if_neg Bool.false_ne_true]
  split
  · split
    · apply Context.SentFrom.sendOutputs
      apply Context.SentFrom.sendInputs
      apply hself
    · apply Context.SentFrom.sendImage
      apply hself
  · apply hself

end EthercatMaster
