import EthercatMaster.Master.Exchange

/-!
# Waiting for one's own reply

`ecx_waitinframe` takes one frame from the queue and returns, whether or not it was the reply it
was called for.  A reply behind another frame is therefore not received; and since every cycle
takes one frame and brings one, a late frame keeps all later replies behind.  As long as there is
no such frame, every reply that comes in time is received.
-/

namespace EthercatMaster

open RingBuffer

/-- The reply for an index has been received: its payload is in the receive buffer. -/
def Port.HasReceived (p : Port) (idx : ℕ) (frame : List UInt8) : Prop :=
  p.rxbufstat idx = .rcvd ∧ ∀ i < payloadLength frame, p.rxbuf idx i = payload frame i

/-- After an accepted frame, the receive buffer has its payload over what was there. -/
theorem Port.Accepts.hasReceived_iff {p : Port} {idx : ℕ} {frame : List UInt8}
    (h : p.Accepts frame idx) (reply : List UInt8) :
  (p.deliver frame).HasReceived idx reply
    ↔ ∀ i < payloadLength reply,
      (p.rxbuf idx).copy 0 (receivedPayload frame) (payloadLength frame) i = payload reply i
  := by
  rw [HasReceived, Port.deliver_of_accepts h]
  dsimp only
  rw [Function.update_self, Function.update_self]
  apply and_iff_right rfl

/-- The payload of a reply is left in the receive buffer. -/
theorem CarriesReply.hasReceived {idx : ℕ} {reply : List UInt8} (h : CarriesReply idx reply)
    {p : Port} (hwaits : p.rxbufstat idx = .tx) :
  (p.deliver reply).HasReceived idx reply
  := by
  apply ((h.accepts hwaits).hasReceived_iff reply).mpr
  intro i hi
  rw [Bytes.copy_zero_of_lt hi]
  apply receivedPayload_of_le h.length_le hi

/-- A frame that is not accepted under an index brings no reply for it. -/
theorem Port.not_hasReceived {p : Port} {idx : ℕ} {frame : List UInt8}
    (hwaits : p.rxbufstat idx = .tx) (h : ¬ p.Accepts frame idx) (reply : List UInt8) :
  ¬ (p.deliver frame).HasReceived idx reply
  := by
  rintro ⟨hrcvd, -⟩
  have hstat : (p.deliver frame).rxbufstat idx = .tx := by
    by_cases haccepts : ∃ idx', p.Accepts frame idx'
    · obtain ⟨idx', haccepts⟩ := haccepts
      have hne : idx ≠ idx' := by
        rintro rfl
        exact h haccepts
      rw [Port.deliver_of_accepts haccepts]
      exact (Function.update_of_ne hne _ _).trans hwaits
    · rw [Port.deliver_of_not_accepts (not_exists.mp haccepts)]
      apply hwaits
  rw [hstat] at hrcvd
  cases hrcvd

/-- The first frame of the queue is the one that is delivered. -/
theorem hasReceived_waitinframe {p : Port} {idx : ℕ} (hwaits : p.rxbufstat idx = .tx)
    {frame : List UInt8} {frames : List (List UInt8)} (hframes : p.frames = frame :: frames)
    (yields : List Arrivals) (reply : List UInt8) :
  (ecxWaitinframe idx yields p).2.HasReceived idx reply
    ↔ (p.deliver frame).HasReceived idx reply
  := by
  have hne : p.rxbufstat idx ≠ .rcvd := by
    rw [hwaits]
    decide
  obtain ⟨rxQueue, -, heq⟩ := ecxWaitinframe_eq hne yields
  rw [heq, hframes, takeFrame_cons]
  rfl

/-- A reply in the queue is received if it is the first frame there.  Behind another frame it is
received exactly if that frame is taken for it, and leaves the same payload. -/
theorem hasReceived_iff {p : Port} {idx : ℕ} (hwaits : p.rxbufstat idx = .tx)
    {frames : List (List UInt8)} {reply : List UInt8} {rest : List (List UInt8)}
    (hframes : p.frames = frames ++ reply :: rest) (hreply : CarriesReply idx reply)
    (yields : List Arrivals) :
  (ecxWaitinframe idx yields p).2.HasReceived idx reply
    ↔ frames = [] ∨ ∃ frame ∈ frames.head?, p.Accepts frame idx ∧ ∀ i < payloadLength reply,
      (p.rxbuf idx).copy 0 (receivedPayload frame) (payloadLength frame) i = payload reply i
  := by
  cases frames with
  | nil =>
      rw [hasReceived_waitinframe hwaits hframes]
      constructor
      · intro _
        left
        rfl
      · intro _
        apply hreply.hasReceived hwaits
  | cons frame frames =>
      rw [hasReceived_waitinframe hwaits hframes]
      constructor
      · intro hreceived
        right
        have haccepts : p.Accepts frame idx := by
          by_contra h
          exact Port.not_hasReceived hwaits h reply hreceived
        exact ⟨frame, rfl, haccepts, (haccepts.hasReceived_iff reply).mp hreceived⟩
      · rintro (hnil | ⟨frame', hframe', haccepts, hpayload⟩)
        · cases hnil
        · cases hframe'
          apply (haccepts.hasReceived_iff reply).mpr hpayload

/-! ### Runs without late frames -/

/-- The only frame around a wait is taken, if nothing is in the queue. -/
theorem Port.takeFrame_wait {p : Port} (hqueue : p.frames = []) {wait : Wait}
    {reply : List UInt8} (hwait : wait.frames = [reply]) :
  takeFrame (wait.yields.map arrived) (p.arrive wait.arrivals).frames = (some reply, [])
  := by
  rw [p.frames_arrive, hqueue]
  rcases List.append_eq_singleton_iff.mp hwait with ⟨harrivals, hyields⟩ | ⟨harrivals, -⟩
  · rw [harrivals]
    apply takeFrame_of_flatten_singleton hyields
  · rw [harrivals]
    apply takeFrame_cons

/-- With no frame in the queue and none around a wait, nothing is taken. -/
theorem Port.takeFrame_silence {p : Port} (hqueue : p.frames = []) {wait : Wait}
    (hwait : wait.frames = []) :
  takeFrame (wait.yields.map arrived) (p.arrive wait.arrivals).frames = (none, [])
  := by
  obtain ⟨harrivals, hyields⟩ := List.append_eq_nil_iff.mp hwait
  rw [p.frames_arrive, hqueue, harrivals]
  apply takeFrame_of_flatten_nil hyields

/-- The reply that is the only frame around a wait is received. -/
theorem Port.hasReceived_wait {p : Port} {idx : ℕ} (hwaits : p.rxbufstat idx = .tx)
    (hqueue : p.frames = []) {wait : Wait} {reply : List UInt8} (hwait : wait.frames = [reply])
    (hreply : CarriesReply idx reply) :
  (p.wait idx wait).2.HasReceived idx reply
  := by
  rw [← p.arrive_rxbufstat wait.arrivals] at hwaits
  have hne : (p.arrive wait.arrivals).rxbufstat idx ≠ .rcvd := by
    rw [hwaits]
    decide
  obtain ⟨rxQueue, -, heq⟩ := ecxWaitinframe_eq hne wait.yields
  rw [Port.wait, heq, Port.takeFrame_wait hqueue hwait]
  apply hreply.hasReceived hwaits

namespace Exchange

/-- An event brings no late frame and no frame too many: outside of cycles nothing arrives, and a
cycle of one frame has at most its own reply. -/
def Prompt (x : Exchange) : NetEvent → Prop
  | .arrive arrivals => arrived arrivals = []
  | .cycle sendOk waits =>
      ∃ entry, (x.sent sendOk).idxstack.entries = [entry]
        ∧ ((waits 0).frames = []
          ∨ ∃ reply, (waits 0).frames = [reply] ∧ CarriesReply entry.idx reply)
  | _ => True

variable {x : Exchange}

/-- After a cycle of one frame the queue is as after the wait for its reply. -/
theorem frames_received {sendOk : ℕ → Bool} {waits : ℕ → Wait} {entry : IdxEntry}
    (hpulled : (x.sent sendOk).idxstack.pulled = 0)
    (hentries : (x.sent sendOk).idxstack.entries = [entry]) :
  (x.received sendOk waits).2.port.frames
    = ((x.sent sendOk).port.wait entry.idx (waits 0)).2.frames
  := by
  rw [received, ecxReceiveProcessdataGroup, hpulled, hentries, List.drop_zero]
  rw [receiveEntries, receiveEntries, receiveEntry]
  dsimp only
  rw [receiveReply_port]
  rfl

/-- A prompt event leaves no frame in the queue. -/
theorem Prompt.frames_step {e : NetEvent} (h : x.Prompt e) (hready : x.Ready)
    (hqueue : x.context.port.frames = []) :
  (x.step e).context.port.frames = []
  := by
  cases e with
  | arrive arrivals =>
      have harrivals : arrived arrivals = [] := h
      exact (x.context.port.frames_arrive arrivals).trans (by rw [harrivals, hqueue]; rfl)
  | application image => apply hqueue
  | slaveStates slaveState => apply hqueue
  | cycle sendOk waits =>
      obtain ⟨entry, hentries, hframes⟩ := h
      have hsent := hready.sentFrom sendOk
      have hpulled : (x.sent sendOk).idxstack.pulled = 0 := by
        rw [hsent.pulled, hready.idxstack]
        rfl
      have hqueue' : (x.sent sendOk).port.frames = [] := by
        rw [Port.frames, hsent.rxQueue]
        apply hqueue
      apply (frames_received hpulled hentries).trans
      have hwaits : (x.sent sendOk).port.rxbufstat entry.idx = .tx := by
        apply hsent.waits
        rw [hentries]
        exact List.mem_singleton_self entry
      rw [← (x.sent sendOk).port.arrive_rxbufstat (waits 0).arrivals] at hwaits
      have hne : ((x.sent sendOk).port.arrive (waits 0).arrivals).rxbufstat entry.idx ≠ .rcvd := by
        rw [hwaits]
        decide
      obtain ⟨rxQueue, hrest, heq⟩ := ecxWaitinframe_eq hne (waits 0).yields
      rw [Port.wait, heq]
      apply hrest.trans
      rcases hframes with hframes | ⟨reply, hframes, -⟩
      · rw [Port.takeFrame_silence hqueue' hframes]
      · rw [Port.takeFrame_wait hqueue' hframes]

/-- In a run of prompt events there is no frame in the queue between the events. -/
theorem frames_before (hx : x.Ready) (hqueue : x.context.port.frames = []) {es : List NetEvent}
    (hprompt : ∀ i e, es[i]? = some e → ((machine x).before es i).Prompt e) (i : ℕ) :
  ((machine x).before es i).context.port.frames = []
  := by
  induction i with
  | zero => apply hqueue
  | succ i ih =>
      cases he : es[i]? with
      | none =>
          rw [Machine.before_succ_of_none (machine x) he]
          apply ih
      | some e =>
          rw [Machine.before_succ (machine x) he]
          apply (hprompt i e he).frames_step (hx.before es i) ih

end Exchange

/-- A reply in the queue is received exactly if it is the first frame there, or if the first frame
is taken for it and leaves the same payload, and so in every run; and in a run without late frames
and without frames too many, every cycle receives the reply that comes in time. -/
theorem own_reply_received (idx : ℕ) (reply : List UInt8) (hreply : CarriesReply idx reply) :
  (∀ (p : Port) (frames rest : List (List UInt8)) (yields : List Arrivals),
    p.rxbufstat idx = .tx → p.frames = frames ++ reply :: rest →
    ((ecxWaitinframe idx yields p).2.HasReceived idx reply
      ↔ frames = [] ∨ ∃ frame ∈ frames.head?, p.Accepts frame idx ∧ ∀ i < payloadLength reply,
        (p.rxbuf idx).copy 0 (receivedPayload frame) (payloadLength frame) i = payload reply i))
  ∧ (∀ (x : Exchange) (es : List NetEvent), x.Ready →
    ∀ i sendOk waits entry, es[i]? = some (.cycle sendOk waits) →
      (((Exchange.machine x).before es i).sent sendOk).idxstack.entries = [entry] →
      entry.idx = idx →
      let p := (((Exchange.machine x).before es i).sent sendOk).port
      ∀ frames rest, (p.arrive (waits 0).arrivals).frames = frames ++ reply :: rest →
        ((p.wait idx (waits 0)).2.HasReceived idx reply
          ↔ frames = [] ∨ ∃ frame ∈ frames.head?, (p.arrive (waits 0).arrivals).Accepts frame idx
            ∧ ∀ i < payloadLength reply,
              ((p.arrive (waits 0).arrivals).rxbuf idx).copy 0 (receivedPayload frame)
                (payloadLength frame) i = payload reply i))
  ∧ ∀ (x : Exchange) (es : List NetEvent), x.Ready → x.context.port.frames = [] →
    (∀ i e, es[i]? = some e → ((Exchange.machine x).before es i).Prompt e) →
    ∀ i sendOk waits entry, es[i]? = some (.cycle sendOk waits) →
      (((Exchange.machine x).before es i).sent sendOk).idxstack.entries = [entry] →
      entry.idx = idx → (waits 0).frames = [reply] →
      ((((Exchange.machine x).before es i).sent sendOk).port.wait idx
        (waits 0)).2.HasReceived idx reply
  := by
  refine ⟨?_, ?_, ?_⟩
  · intro p frames rest yields hwaits hframes
    apply hasReceived_iff hwaits hframes hreply
  · intro x es hx i sendOk waits entry hi hentries hidx p frames rest hframes
    apply hasReceived_iff _ hframes hreply
    rw [p.arrive_rxbufstat, ← hidx]
    apply ((hx.before es i).sentFrom sendOk).waits
    rw [hentries]
    exact List.mem_singleton_self entry
  · intro x es hx hqueue hprompt i sendOk waits entry hi hentries hidx hwait
    have hready := hx.before es i
    have hsent := hready.sentFrom sendOk
    apply Port.hasReceived_wait _ _ hwait hreply
    · rw [← hidx]
      apply hsent.waits
      rw [hentries]
      exact List.mem_singleton_self entry
    · rw [Port.frames, hsent.rxQueue]
      apply Exchange.frames_before hx hqueue hprompt i

/-! ### A late reply -/

namespace LateReply

open LostReply

/-- The port when the reply to the first frame is waited for. -/
def waiting : Port :=
  (start.sent fun _ => true).port.arrive (answer 1).arrivals

theorem carriesReply {idx : ℕ} (h : 0 < idx ∧ idx < ecMaxbuf)
    (hindex : (idx.toUInt8).toNat = idx) :
  CarriesReply idx (reply idx.toUInt8)
  := by
  constructor
  case index_lt =>
    show 17 < 78
    decide
  case length_le =>
    show 78 ≤ 1518
    decide
  case ethertype => exact ⟨rfl, rfl⟩
  case index => apply hindex
  case index_mem => apply h

/-- The reply to the first frame is received, in the call and in the run of one cycle. -/
theorem own_reply_received_first :
  (ecxWaitinframe 1 [] waiting).2.HasReceived 1 (reply 1)
    ∧ ((start.sent fun _ => true).port.wait 1 (answer 1)).2.HasReceived 1 (reply 1)
  := by
  have hreply : CarriesReply 1 (reply 1) := carriesReply (by decide) (by decide)
  have hentries : (start.sent fun _ => true).idxstack.entries = [⟨1, 0, 30⟩] := by
    decide +kernel
  have hframes : (answer 1).frames = [reply 1] := by decide +kernel
  constructor
  · apply ((own_reply_received 1 (reply 1) hreply).1 waiting [] [] [] (by decide +kernel)
      (by decide +kernel)).mpr
    left
    rfl
  · apply (own_reply_received 1 (reply 1) hreply).2.2 start
      [.cycle (fun _ => true) fun _ => answer 1] start_ready (by decide +kernel) _ 0
      (fun _ => true) (fun _ => answer 1) ⟨1, 0, 30⟩ rfl hentries rfl hframes
    intro i e hi
    rw [List.getElem?_singleton] at hi
    split at hi
    · rename_i hzero
      cases hi
      subst hzero
      exact ⟨_, hentries, Or.inr ⟨reply 1, hframes, hreply⟩⟩
    · cases hi

/-- The reply to the first frame arrives after its cycle, those to the next two in time. -/
def events : List NetEvent :=
  [.cycle (fun _ => true) silence, .arrive (answer 1).arrivals,
    .cycle (fun _ => true) fun _ => answer 2, .cycle (fun _ => true) fun _ => answer 3]

/-- After one late reply, the replies to the next two frames are in the queue behind another frame
when they are waited for, and are not received. -/
theorem late_reply :
  let y := ((Exchange.machine start).before events 2).sent fun _ => true
  let z := ((Exchange.machine start).before events 3).sent fun _ => true
  (y.port.rxbufstat 2 = .tx ∧ (y.port.arrive (answer 2).arrivals).frames = [reply 1, reply 2]
      ∧ CarriesReply 2 (reply 2) ∧ ¬ (y.port.wait 2 (answer 2)).2.HasReceived 2 (reply 2))
    ∧ z.port.rxbufstat 3 = .tx ∧ (z.port.arrive (answer 3).arrivals).frames = [reply 2, reply 3]
      ∧ CarriesReply 3 (reply 3) ∧ ¬ (z.port.wait 3 (answer 3)).2.HasReceived 3 (reply 3)
  := by
  refine ⟨⟨?_, ?_, carriesReply (by decide) (by decide), ?_⟩,
    ?_, ?_, carriesReply (by decide) (by decide), ?_⟩
  · decide +kernel
  · decide +kernel
  · rintro ⟨h, -⟩
    revert h
    decide +kernel
  · decide +kernel
  · decide +kernel
  · rintro ⟨h, -⟩
    revert h
    decide +kernel

end LateReply

end EthercatMaster
