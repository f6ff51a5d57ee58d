import EthercatMaster.Library.Machine
import EthercatMaster.Master.Check
import EthercatMaster.Soem.Receive

/-!
# Cycles of process data

In each cycle the master sends the process data, receives the replies and checks the working
counter.  Between the cycles frames may arrive, the application writes the process image, and the
states of the slaves change.
-/

namespace EthercatMaster

/-- The master as far as it exchanges process data, with the positions of the areas of the axes in
the process image. -/
structure Exchange where
  context : Context
  check : PdoCheck
  axisCount : ℕ
  inputs : ℕ → Option ℕ
  outputs : ℕ → Option ℕ

/-- What happens to the exchange of process data. -/
inductive NetEvent where
  | arrive (arrivals : Arrivals)
  | application (image : Bytes)
  | slaveStates (slaveState : ℕ → UInt16)
  | cycle (sendOk : ℕ → Bool) (waits : ℕ → Wait)

namespace Exchange

/-- The context after the frames of a cycle have been sent. -/
def sent (sendOk : ℕ → Bool) (x : Exchange) : Context :=
  (ecSendProcessdata sendOk x.context).2

/-- The working counter and the context after the replies have been waited for. -/
def received (sendOk : ℕ → Bool) (waits : ℕ → Wait) (x : Exchange) : ℤ × Context :=
  ecxReceiveProcessdataGroup waits (x.sent sendOk)

/-- The check of a cycle. -/
def checked (sendOk : ℕ → Bool) (waits : ℕ → Wait) (x : Exchange) : Bool × PdoCheck :=
  ethercatMasterPdoProcessCheck (x.received sendOk waits).1
    (Axes.ofImage (x.received sendOk waits).2.image x.axisCount x.inputs x.outputs) x.check

/-- One event. -/
def step (x : Exchange) : NetEvent → Exchange
  | .arrive arrivals =>
      { x with context := { x.context with port := x.context.port.arrive arrivals } }
  | .application image => { x with context := { x.context with image := image } }
  | .slaveStates slaveState => { x with check := { x.check with slaveState := slaveState } }
  | .cycle sendOk waits =>
      { x with
        context := (x.received sendOk waits).2
        check := (x.checked sendOk waits).2 }

/-- The exchange from a state on, as a machine. -/
def machine (x : Exchange) : Machine Exchange NetEvent :=
  ⟨x, step⟩

/-! ### Replies -/

/-- Between the cycles: the stack is empty, and the expected working counter is known. -/
structure Ready (x : Exchange) : Prop where
  idxstack : x.context.idxstack = ecxClearindex
  expectedWkc : 0 < x.check.expectedWkc

variable {x : Exchange}

theorem Ready.sentFrom (h : x.Ready) (sendOk : ℕ → Bool) :
  x.context.SentFrom (x.sent sendOk)
  := by
  apply sentFrom_ecSendProcessdata
  rw [h.idxstack]
  rfl

theorem Ready.step (h : x.Ready) (e : NetEvent) :
  (x.step e).Ready
  := by
  cases e with
  | arrive arrivals => exact ⟨h.idxstack, h.expectedWkc⟩
  | application image => exact ⟨h.idxstack, h.expectedWkc⟩
  | slaveStates slaveState => exact ⟨h.idxstack, h.expectedWkc⟩
  | cycle sendOk waits =>
      refine ⟨rfl, ?_⟩
      apply lt_of_lt_of_eq h.expectedWkc
      apply (ethercatMasterPdoProcessCheck_expectedWkc _ _ h.expectedWkc).symm

theorem Ready.before (h : x.Ready) (es : List NetEvent) (i : ℕ) :
  ((machine x).before es i).Ready
  := by
  apply Machine.invariant_before (P := Ready) (machine x) h
  intro y e hy
  apply hy.step

/-- In every run, what an orderly cycle receives comes from replies to its own frames, and a cycle
that is found to be good has a reply. -/
theorem received_from_replies (hx : x.Ready) {es : List NetEvent} {i : ℕ} {sendOk : ℕ → Bool}
    {waits : ℕ → Wait} (hi : es[i]? = some (.cycle sendOk waits))
    (horderly : Orderly waits (((machine x).before es i).sent sendOk)) :
  let y := (machine x).before es i
  (machine x).before es (i + 1)
      = { y with
          context := (y.received sendOk waits).2
          check := (y.checked sendOk waits).2 }
    ∧ (y.sent sendOk).image = y.context.image ∧ (y.sent sendOk).DCtime = y.context.DCtime
    ∧ FromReplies waits (y.sent sendOk) (y.received sendOk waits).1 (y.received sendOk waits).2
    ∧ ((y.checked sendOk waits).1 = true →
      ∃ pos entry frame, ReplyAt waits (y.sent sendOk) pos entry frame)
  := by
  have hready := hx.before es i
  have hsent := hready.sentFrom sendOk
  have hpulled : (((machine x).before es i).sent sendOk).idxstack.pulled = 0 := by
    rw [hsent.pulled, hready.idxstack]
    rfl
  have hreplies := horderly.fromReplies hsent.waiting hpulled
  refine ⟨?_, hsent.image, hsent.DCtime, hreplies, ?_⟩
  · rw [Machine.before_succ (machine x) hi]
    rfl
  · intro hok
    apply hreplies.wkc
    apply le_of_lt
    apply ethercatMasterPdoProcessCheck_fst _ _ hready.expectedWkc hok

end Exchange

/-! ### A lost reply -/

namespace LostReply

/-- One drive with distributed clocks. -/
def group : Group where
  logstartaddr := 0
  Obytes := 13
  outputs := 0
  Ibytes := 17
  inputs := 13
  hasdc := true
  DCnext := 1
  blockLRW := false
  nsegments := 1
  Isegment := 0
  Ioffset := 13
  outputsWKC := 1
  inputsWKC := 1
  IOsegment := fun segment => if segment = 0 then 30 else 0

/-- The master after the port has been opened, with the drive operational. -/
def start : Exchange where
  context :=
    { port := (ecxSetupnic false true Port.init).2
      group := group
      configadr := fun _ => 0x1001
      idxstack := ecxClearindex
      DCtO := 0
      DCl := 0
      DCtime := 0
      image := fun _ => 0 }
  check := PdoCheck.oneDrive
  axisCount := 1
  inputs := fun _ => some 13
  outputs := fun _ => some 0

/-- The reply of the drive under an index, with the working counter 3. -/
def reply (idx : UInt8) : List UInt8 :=
  ethernetHeader ++ [0, 0x10, EcCmdtype.lrw.code, idx] ++ List.replicate 8 0
    ++ List.replicate 30 0 ++ [3, 0] ++ List.replicate 20 0

/-- The reply arrives before it is waited for. -/
def answer (idx : UInt8) : Wait :=
  ⟨[some ⟨.receiveEtherFrame, some ⟨78, 2, Bytes.ofList (reply idx), 0, none⟩⟩], []⟩

/-- Nothing arrives. -/
def silence : ℕ → Wait := fun _ => ⟨[], []⟩

/-- Fifteen cycles with their replies, so that each index has been used, and one without. -/
def events : List NetEvent :=
  (List.range' 1 15).map (fun idx => .cycle (fun _ => true) fun _ => answer idx.toUInt8)
    ++ [.cycle (fun _ => true) silence]

theorem start_ready :
  start.Ready
  := ⟨rfl, by decide⟩

/-- The first cycle, whose reply arrives, is orderly. -/
theorem orderly_first :
  Orderly (fun _ => answer 1) (start.sent fun _ => true)
  := by
  have hqueue : (start.sent fun _ => true).port.frames = [] := by decide +kernel
  have hentries : (start.sent fun _ => true).idxstack.entries = [⟨1, 0, 30⟩] := by
    decide +kernel
  have harrived : arrivedBefore (fun _ => answer 1)
      (start.sent fun _ => true).idxstack.entries.length = [reply 1] := by
    rw [hentries]
    decide +kernel
  have hentry : ∀ pos entry, (start.sent fun _ => true).idxstack.entries[pos]? = some entry →
      pos = 0 ∧ entry = ⟨1, 0, 30⟩ := by
    intro pos entry h
    rw [hentries, List.getElem?_singleton] at h
    split at h
    · cases h
      exact ⟨by assumption, rfl⟩
    · cases h
  constructor
  case index_lt =>
    rintro frame (hframe | hframe)
    · rw [hqueue] at hframe
      cases hframe
    · rw [harrived, List.mem_singleton] at hframe
      rw [hframe]
      decide
  case queue =>
    intro frame hframe
    rw [hqueue] at hframe
    cases hframe
  case reply =>
    intro frame hframe pos entry hpos _
    obtain ⟨rfl, rfl⟩ := hentry pos entry hpos
    rw [harrived, List.mem_singleton] at hframe
    rw [hframe]
    constructor
    case index => decide +kernel
    case com =>
      left
      right
      decide +kernel
    case com_lt => decide +kernel
    case length_le => decide +kernel
    case data_le => decide +kernel
    case clock_le =>
      intro _ _
      decide +kernel
  case stale =>
    -- the receive buffers are still empty
    intro pos entry hpos hstale
    obtain ⟨rfl, rfl⟩ := hentry pos entry hpos
    have hempty : (start.sent fun _ => true).port.rxbuf 1 ecCmdoffset = 0 := by decide +kernel
    have hnot : ¬ IsProcessdata 0 := by
      unfold IsProcessdata
      decide
    rw [hempty] at hstale
    exact absurd hstale hnot
  case clock =>
    rintro _ pos hpos ⟨-, -, entry, hat, -⟩
    obtain ⟨rfl, -⟩ := hentry pos entry hat
    exact absurd hpos (lt_irrefl 0)

/-- The reply of the first cycle is where its process data comes from. -/
theorem received_first :
  start.Ready ∧ Orderly (fun _ => answer 1) (start.sent fun _ => true)
    ∧ FromReplies (fun _ => answer 1) (start.sent fun _ => true)
      (start.received (fun _ => true) fun _ => answer 1).1
      (start.received (fun _ => true) fun _ => answer 1).2
  := by
  refine ⟨start_ready, orderly_first, ?_⟩
  have hi : events[0]? = some (.cycle (fun _ => true) fun _ => answer 1) := rfl
  apply (Exchange.received_from_replies start_ready hi orderly_first).2.2.2.1

/-- After the sixteenth frame has been lost, the reply to the first one is taken for its reply: no
frame arrives and none is in the queue, but a working counter is returned and the cycle is found
to be good. -/
theorem stale_reply :
  let y := (Exchange.machine start).before events 15
  events[15]? = some (.cycle (fun _ => true) silence)
    ∧ y.context.port.frames = [] ∧ (∀ pos, (silence pos).frames = [])
    ∧ (y.received (fun _ => true) silence).1 = 3 ∧ (y.checked (fun _ => true) silence).1 = true
  := by
  refine ⟨rfl, ?_, fun _ => rfl, ?_, ?_⟩
  · decide +kernel
  · decide +kernel
  · decide +kernel

end LostReply

end EthercatMaster
