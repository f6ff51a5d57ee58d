import EthercatMaster.Master.ImageExchange

/-!
# The system time

The first frame of a cycle hands the system time of one slave on to the others.  After the cycle the
master has the system time that this slave had when the frame passed it.
-/

namespace EthercatMaster

variable {sent : Context} {entry : IdxEntry}

/-- What becomes of the system time when the reply to a frame has been received. -/
theorem receiveEntry_DCtime {x : ReceiveState} {wait : Wait} {reply : List UInt8}
    (hreceived : (x.context.port.wait entry.idx wait).2.HasReceived entry.idx reply)
    (hcom : IsProcessdata (payload reply ecCmdoffset)) (hlength : ecCmdoffset < payloadLength reply)
    (hclock : x.first = true → x.context.DCtO + 8 ≤ payloadLength reply) :
  (receiveEntry entry wait x).context.DCtime
    = if x.first then (payload reply).uint64 x.context.DCtO else x.context.DCtime
  := by
  obtain ⟨hrcvd, hbytes⟩ := hreceived
  rw [receiveEntry]
  dsimp only
  rw [Port.wait_fst, hrcvd]
  generalize (x.context.port.wait entry.idx wait).2 = port at *
  have huint : x.first = true → (port.rxbuf entry.idx).uint64 x.context.DCtO
      = (payload reply).uint64 x.context.DCtO := by
    intro hfirst
    have hle := hclock hfirst
    exact Bytes.uint64_congr fun i hi => hbytes i (by omega)
  rw [← hbytes ecCmdoffset hlength] at hcom
  rw [receiveReply, if_pos (by decide : ecNoframe < BufStat.rcvd.toInt)]
  dsimp only
  by_cases hread : port.rxbuf entry.idx ecCmdoffset = EcCmdtype.lrd.code
      ∨ port.rxbuf entry.idx ecCmdoffset = EcCmdtype.lrw.code
  · rw [if_pos hread, receiveRead]
    split
    case isTrue hfirst => exact huint hfirst
    case isFalse => rfl
  · rw [if_neg hread, if_pos (hcom.resolve_left hread), receiveWrite]
    split
    case isTrue hfirst => exact huint hfirst
    case isFalse => rfl

/-- The system time comes from the first reply. -/
theorem AllReplied.DCtime {waits : ℕ → Wait} {replies : ℕ → List UInt8}
    (h : AllReplied waits sent replies)
    (hDCl : sent.group.hasdc = true → ∀ entry, sent.idxstack.entries[0]? = some entry →
      entry.length = sent.DCl)
    (hdc : sent.group.hasdc = true) (hDCtO : sent.DCtO + 8 ≤ payloadLength (replies 0)) {pos : ℕ}
    (hpos : 1 ≤ pos) (hle : pos ≤ sent.idxstack.entries.length) :
  (EthercatMaster.receiveBefore waits sent pos).context.DCtime
    = (payload (replies 0)).uint64 sent.DCtO
  := by
  have hlength : ∀ (pos : ℕ) (entry : IdxEntry), sent.idxstack.entries[pos]? = some entry →
      ecCmdoffset < payloadLength (replies pos) := by
    intro pos entry hentry
    have hfield := h.wkc_le pos entry hentry
    exact (by decide : ecCmdoffset < ecHeadersize).trans_le (by omega)
  induction pos, hpos using Nat.le_induction with
  | base =>
      have hentry : sent.idxstack.entries[0]? = some sent.idxstack.entries[0] :=
        List.getElem?_eq_getElem hle
      rw [receiveBefore_succ hentry, receiveEntry_DCtime (h.received 0 _ hentry)
        (h.com 0 _ hentry) (hlength 0 _ hentry) (fun _ => hDCtO)]
      exact if_pos hdc
  | succ pos hpos ih =>
      have hentry : sent.idxstack.entries[pos]? = some sent.idxstack.entries[pos] :=
        List.getElem?_eq_getElem hle
      have hnext : ¬ (EthercatMaster.receiveBefore waits sent pos).first = true := by
        rw [(h.receiveBefore hDCl (Nat.le_of_succ_le hle)).2.1]
        exact fun hclock => (Nat.ne_of_gt hpos) hclock.2
      rw [receiveBefore_succ hentry, receiveEntry_DCtime (h.received pos _ hentry)
        (h.com pos _ hentry) (hlength pos _ hentry) (fun hfirst => absurd hfirst hnext),
        if_neg hnext]
      exact ih (Nat.le_of_succ_le hle)

namespace MappedBus

/-- A cycle with distributed clocks brings the system time of the first slave with a clock to the
master, as it was when the frame passed, if that slave alone has its address, and the first reply
comes back whole. -/
theorem cycle_system_time (b : MappedBus)
    (hslave : ∀ n, b.IsAxis n → b.outputSize n ≤ maxSegment ∧ b.inputSize n ≤ maxSegment)
    (himage : b.inputStart (b.slavecount + 1) ≤ ioMapSize) (IOsegment : ℕ → ℕ) (group : Group)
    (hlogstartaddr : group.logstartaddr = 0) (hdc : group.hasdc = true) (c : Context)
    (hgroup : c.group = (ecxConfigMapSegments b.slavecount b.slave IOsegment).set group)
    (hstack : c.idxstack = ecxClearindex) (hheaders : c.port.HasHeaders) (hfree : c.port.Free)
    (sendOk : ℕ → Bool) {σ : Type} (esc : Esc σ) (hesc : esc.Behaves)
    (states : ℕ → ℕ → ℕ → σ) (n : ℕ) (hn : b.IsAxis n)
    (haddress : esc.configadr (states 0 1 n) = c.configadr c.group.DCnext)
    (hunique : ∀ k, b.IsAxis k → k ≠ n →
      esc.configadr (states 0 1 k) ≠ c.configadr c.group.DCnext)
    (waits : ℕ → Wait) (replies : ℕ → List UInt8)
    (hreplied : AllReplied waits (ecSendProcessdata sendOk c).2 replies)
    (hsent : 0 < (ecSendProcessdata sendOk c).2.idxstack.entries.length)
    (hreturned : HasDatagrams (payload (replies 0)) ecElengthsize
      ((ecSendProcessdata sendOk c).2.returned esc (List.range' 1 b.slavecount) states 0))
    (hwhole : ecElengthsize + datagramsSize
        ((ecSendProcessdata sendOk c).2.returned esc (List.range' 1 b.slavecount) states 0)
      ≤ payloadLength (replies 0)) :
  (ecxReceiveProcessdataGroup waits (ecSendProcessdata sendOk c).2).2.DCtime
    = esc.systemTime (states 0 1 n)
  := by
  have hempty : c.idxstack.entries = [] := by
    rw [hstack]
    rfl
  have hdc' : c.group.hasdc = true := by
    rw [hgroup]
    exact hdc
  obtain ⟨coms, htransmits, -⟩ := (b.segmented IOsegment hslave himage).transmits himage
    hlogstartaddr hgroup hempty hheaders hfree sendOk
  have hpulled : (ecSendProcessdata sendOk c).2.idxstack.pulled = 0 := by
    rw [htransmits.kept.pulled, hstack]
    rfl
  generalize (ecSendProcessdata sendOk c).2 = sent at *
  have hentry : sent.idxstack.entries[0]? = some sent.idxstack.entries[0] :=
    List.getElem?_eq_getElem hsent
  generalize sent.idxstack.entries[0] = entry at hentry
  obtain ⟨com, hcom⟩ := htransmits.exists_com hentry
  have hsegment := @hesc.passed_header _ _ (states 0 0) (List.range' 1 b.slavecount) _
    (@segmentDatagram_isCyclic c com entry (htransmits.com_mem hcom))
  have hclock := clockDatagram_isClock c entry.idx
  have hpassed := @hesc.passed_header _ _ (states 0 1) (List.range' 1 b.slavecount) _
    (Or.inr (Or.inr hclock))
  have htime := hesc.uint64_passed hclock List.nodup_range' (mem_range'_of_isAxis hn) haddress
    fun k hk => hunique k (isAxis_of_mem_range' hk)
  rw [htransmits.returned esc _ states hentry hcom, if_pos ⟨hdc', rfl⟩] at hreturned hwhole
  generalize esc.passed (states 0 0) (List.range' 1 b.slavecount) (c.segmentDatagram com entry) = d
    at *
  generalize esc.passed (states 0 1) (List.range' 1 b.slavecount) (c.clockDatagram entry.idx)
    = clock at *
  obtain ⟨-, hhas, -⟩ := hreturned
  obtain ⟨-, hDCtO⟩ := htransmits.clock hdc' entry hentry
  have hsize : d.size = ecHeadersize + entry.length := by
    rw [Datagram.size, hsegment.2, segmentDatagram_length]
  have hlength : clock.data.length = 8 := hpassed.2.trans hclock.length
  have hoffset : sent.DCtO = ecElengthsize + d.size + 10 := by
    rw [hDCtO, clockOffset, hsize]
  have hend : sent.DCtO + 8 ≤ payloadLength (replies 0) := by
    have hclocksize : clock.size = ecHeadersize + 8 := by
      rw [Datagram.size, hlength]
    have hheader : ecHeadersize = 12 := rfl
    rw [datagramsSize_cons, datagramsSize_singleton] at hwhole
    omega
  have hclocked : sent.group.hasdc = true := by
    rw [htransmits.kept.group]
    exact hdc'
  have hlast := hreplied.DCtime (fun _ entry hentry => (htransmits.clock hdc' entry hentry).1)
    hclocked hend hsent le_rfl
  rw [receiveBefore, List.take_length] at hlast
  rw [ecxReceiveProcessdataGroup, hpulled, List.drop_zero]
  dsimp only
  rw [hlast, hoffset, ← htime]
  apply Bytes.uint64_of_slice
  have hdata := hhas.data
  rw [hlength] at hdata
  rw [hdata]
  apply List.ext_getElem
  · rw [hlength, Bytes.length_slice]
  · intro i hi hi'
    simp only [Bytes.slice, Bytes.take, Bytes.drop, List.getElem_map, List.getElem_range,
      Bytes.ofList, Nat.zero_add]
    rw [List.getD_eq_getElem _ _ hi]

theorem oneMapped_system_time :
  (ecxReceiveProcessdataGroup oneAnswer (ecSendProcessdata (fun _ => true) oneMapped).2).2.DCtime
    = plainEsc.systemTime (oneStates 0 1 1)
  := by
  apply cycle_system_time oneDrive
    (fun _ _ => ⟨(by decide : (driveWith 13).outputSize ≤ maxSegment),
      (by decide : (driveWith 13).inputSize ≤ maxSegment)⟩)
    (by decide +kernel) (fun _ => 0) ⟨0, 0, 0, 0, 0, true, 1, false, 0, 0, 0, 0, 0, fun _ => 0⟩ rfl
    rfl oneMapped rfl rfl (hasHeaders_ecSetupheader Port.init) (fun _ _ _ => rfl) (fun _ => true)
    plainEsc plainEsc_behaves oneStates 1 ⟨Nat.one_pos, le_rfl⟩ (by decide +kernel) ?_ oneAnswer
    (fun _ => oneReply) oneReply_allReplied (by decide +kernel) oneReply_returned
    (by decide +kernel)
  rintro k ⟨hpos, hle⟩ hne
  exact absurd (Nat.le_antisymm hle hpos) hne

end MappedBus

end EthercatMaster
