import EthercatMaster.Host.Listener

/-!
# The stream of a connection

The bytes that a connection receives come in chunks.  The parser of the connection consumes them
in order, and each command that is executed is the data of a frame in the stream, unless a response
is not sent before the last byte of a chunk: the rest of that chunk is then lost.
-/

namespace EthercatMaster

/-! ### One chunk -/

/-- The bytes of a chunk. -/
def chunkBytes (chunk : Chunk) : List UInt8 :=
  chunk.map Prod.fst

/-- The command of an event, if there is one. -/
def HostEvent.commands : HostEvent → List UInt8
  | .command data => [data]
  | _ => []

/-- The status sent back after an event, if there is one. -/
def HostEvent.responses (reply : Reply) : HostEvent → List HostProtocolStatus
  | .none => []
  | .command _ => [reply.status]
  | .frameError => [.frameError]

/-- First `h`, and then `h'`. -/
def Handled.andThen (h h' : Handled) : Handled :=
  ⟨h'.parser, h.consumed ++ h'.consumed, h.commands ++ h'.commands, h.responses ++ h'.responses⟩

/-- The parser consumes one byte. -/
def handleByte (parser : HostParser) (byte : UInt8) (reply : Reply) : Handled :=
  let (event, parser) := hostProtocolBytePush parser byte
  ⟨parser, [byte], event.commands, event.responses reply⟩

/-- The chunk is read on after a byte. -/
def ReadsOn (parser : HostParser) (byte : UInt8) (reply : Reply) : Prop :=
  (hostProtocolBytePush parser byte).1 ≠ .none → tcpServerStatusSend reply.sent = true

theorem handleBytes_cons_of_readsOn {parser : HostParser} {byte : UInt8} {reply : Reply}
    (chunk : Chunk) (h : ReadsOn parser byte reply) :
  handleBytes parser ((byte, reply) :: chunk)
    = (handleByte parser byte reply).andThen
        (handleBytes (hostProtocolBytePush parser byte).2 chunk)
  := by
  rw [ReadsOn] at h
  rw [handleBytes, handleByte]
  generalize hostProtocolBytePush parser byte = push at h ⊢
  obtain ⟨event, parser⟩ := push
  cases event with
  | none => rfl
  | command command =>
      rw [show tcpServerStatusSend reply.sent = true from h nofun]
      rfl
  | frameError =>
      rw [show tcpServerStatusSend reply.sent = true from h nofun]
      rfl

theorem handleBytes_cons_of_not {parser : HostParser} {byte : UInt8} {reply : Reply}
    (chunk : Chunk) (h : ¬ ReadsOn parser byte reply) :
  handleBytes parser ((byte, reply) :: chunk) = handleByte parser byte reply
  := by
  rw [ReadsOn, Classical.not_imp] at h
  rw [handleBytes, handleByte]
  generalize hostProtocolBytePush parser byte = push at h ⊢
  obtain ⟨event, parser⟩ := push
  cases event with
  | none => apply absurd rfl h.1
  | command command => exact if_neg h.2
  | frameError => exact if_neg h.2

/-- The parser consumes the bytes at the beginning of a chunk. -/
theorem handleBytes_consumed (parser : HostParser) (chunk : Chunk) :
  (handleBytes parser chunk).consumed <+: chunkBytes chunk
    ∧ (handleBytes parser chunk).parser = parser.after (handleBytes parser chunk).consumed
  := by
  induction chunk generalizing parser with
  | nil => exact ⟨List.nil_prefix, rfl⟩
  | cons head chunk ih =>
      obtain ⟨byte, reply⟩ := head
      by_cases h : ReadsOn parser byte reply
      · rw [handleBytes_cons_of_readsOn chunk h]
        obtain ⟨hconsumed, hparser⟩ := ih (hostProtocolBytePush parser byte).2
        exact ⟨List.cons_prefix_cons.mpr ⟨rfl, hconsumed⟩, hparser⟩
      · rw [handleBytes_cons_of_not chunk h]
        exact ⟨List.cons_prefix_cons.mpr ⟨rfl, List.nil_prefix⟩, rfl⟩

theorem handleByte_commands {parser : HostParser} {bytes : List UInt8}
    (h : parser.seen <:+ bytes) (byte : UInt8) (reply : Reply) :
  (handleByte parser byte reply).parser.seen <:+ bytes ++ [byte]
    ∧ ∀ command ∈ (handleByte parser byte reply).commands,
      hostFrame command <:+: bytes ++ [byte]
  := by
  obtain ⟨hseen, hcommand⟩ := seen_hostProtocolBytePush h byte
  use hseen
  intro command hmem
  apply List.IsSuffix.isInfix
  apply hcommand
  rw [handleByte] at hmem
  generalize hostProtocolBytePush parser byte = push at hmem ⊢
  obtain ⟨event, parser⟩ := push
  cases event with
  | none => cases hmem
  | command command' => rw [List.mem_singleton.mp hmem]
  | frameError => cases hmem

/-- Each command executed is the data of a frame that the parser has consumed. -/
theorem handleBytes_commands {parser : HostParser} {bytes : List UInt8}
    (h : parser.seen <:+ bytes) (chunk : Chunk) :
  (handleBytes parser chunk).parser.seen <:+ bytes ++ (handleBytes parser chunk).consumed
    ∧ ∀ command ∈ (handleBytes parser chunk).commands,
      hostFrame command <:+: bytes ++ (handleBytes parser chunk).consumed
  := by
  induction chunk generalizing parser bytes with
  | nil =>
      constructor
      · rw [handleBytes, Handled.idle, List.append_nil]
        apply h
      · intro command hmem
        cases hmem
  | cons head chunk ih =>
      obtain ⟨byte, reply⟩ := head
      obtain ⟨hseen, hcommand⟩ := handleByte_commands h byte reply
      by_cases hgoes : ReadsOn parser byte reply
      · rw [handleBytes_cons_of_readsOn chunk hgoes]
        obtain ⟨hseen', hcommand'⟩ := ih hseen
        rw [List.append_assoc] at hseen' hcommand'
        use hseen'
        intro command hmem
        rcases List.mem_append.mp hmem with hmem | hmem
        · apply (hcommand command hmem).trans
          apply List.IsPrefix.isInfix
          apply (List.prefix_append_right_inj bytes).mpr
          apply List.prefix_append
        · apply hcommand' command hmem
      · rw [handleBytes_cons_of_not chunk hgoes]
        exact ⟨hseen, hcommand⟩

/-- Each response in a chunk is sent, up to one after its last byte. -/
def Answered (parser : HostParser) (chunk : Chunk) : Prop :=
  ∀ pre byte reply post, chunk = pre ++ (byte, reply) :: post → post ≠ [] →
    ReadsOn (parser.after (chunkBytes pre)) byte reply

theorem answered_cons (parser : HostParser) (byte : UInt8) (reply : Reply) (chunk : Chunk) :
  Answered parser ((byte, reply) :: chunk)
    ↔ (chunk ≠ [] → ReadsOn parser byte reply)
      ∧ Answered (hostProtocolBytePush parser byte).2 chunk
  := by
  constructor
  · intro h
    constructor
    · apply h [] byte reply chunk rfl
    · intro pre byte' reply' post heq
      apply h ((byte, reply) :: pre) byte' reply' post
      rw [heq]
      rfl
  · rintro ⟨hhead, htail⟩ pre byte' reply' post heq
    cases pre with
    | nil =>
        cases heq
        apply hhead
    | cons head pre =>
        cases heq
        apply htail pre byte' reply' post rfl

/-- The whole of a chunk is consumed exactly if its responses are sent. -/
theorem handleBytes_consumed_iff (parser : HostParser) (chunk : Chunk) :
  (handleBytes parser chunk).consumed = chunkBytes chunk ↔ Answered parser chunk
  := by
  induction chunk generalizing parser with
  | nil =>
      constructor
      · intro _ pre byte reply post heq
        cases pre <;> cases heq
      · intro _
        rfl
  | cons head chunk ih =>
      obtain ⟨byte, reply⟩ := head
      rw [answered_cons, ← ih]
      by_cases h : ReadsOn parser byte reply
      · rw [handleBytes_cons_of_readsOn chunk h]
        simp [handleByte, Handled.andThen, chunkBytes, h]
      · rw [handleBytes_cons_of_not chunk h]
        cases chunk with
        | nil => simp [handleByte, chunkBytes, handleBytes, Handled.idle]
        | cons head chunk => simp [handleByte, chunkBytes, h]

/-! ### One chunk after another -/

/-- The bytes of all chunks. -/
def stream (chunks : List Chunk) : List UInt8 :=
  (chunks.map chunkBytes).flatten

/-- What chunk after chunk leads to. -/
def handleChunks (parser : HostParser) : List Chunk → Handled
  | [] => .idle parser
  | chunk :: chunks =>
      (handleBytes parser chunk).andThen (handleChunks (handleBytes parser chunk).parser chunks)

/-- In each chunk, each response is sent up to one after its last byte. -/
def AllAnswered (parser : HostParser) (chunks : List Chunk) : Prop :=
  ∀ pre chunk post, chunks = pre ++ chunk :: post → Answered (parser.after (stream pre)) chunk

theorem allAnswered_cons (parser : HostParser) (chunk : Chunk) (chunks : List Chunk) :
  AllAnswered parser (chunk :: chunks)
    ↔ Answered parser chunk ∧ AllAnswered (parser.after (chunkBytes chunk)) chunks
  := by
  have key : ∀ pre, parser.after (stream (chunk :: pre))
      = (parser.after (chunkBytes chunk)).after (stream pre) := by
    intro pre
    apply parser.after_append
  constructor
  · intro h
    constructor
    · apply h [] chunk chunks rfl
    · intro pre chunk' post heq
      rw [← key]
      apply h (chunk :: pre) chunk' post
      rw [heq]
      rfl
  · rintro ⟨hhead, htail⟩ pre chunk' post heq
    cases pre with
    | nil =>
        cases heq
        apply hhead
    | cons head pre =>
        cases heq
        rw [key]
        apply htail pre chunk' post rfl

theorem length_handleChunks (parser : HostParser) (chunks : List Chunk) :
  (handleChunks parser chunks).consumed.length ≤ (stream chunks).length
  := by
  induction chunks generalizing parser with
  | nil => apply le_rfl
  | cons chunk chunks ih =>
      have hlength := (handleBytes_consumed parser chunk).1.length_le
      have := ih (handleBytes parser chunk).parser
      simp only [handleChunks, Handled.andThen, stream, List.map_cons, List.flatten_cons,
        List.length_append] at *
      omega

/-- The whole stream is consumed exactly if the responses are sent. -/
theorem handleChunks_consumed_iff (parser : HostParser) (chunks : List Chunk) :
  (handleChunks parser chunks).consumed = stream chunks ↔ AllAnswered parser chunks
  := by
  induction chunks generalizing parser with
  | nil =>
      constructor
      · intro _ pre chunk post heq
        cases pre <;> cases heq
      · intro _
        rfl
  | cons chunk chunks ih =>
      obtain ⟨hconsumed, hparser⟩ := handleBytes_consumed parser chunk
      rw [allAnswered_cons, ← handleBytes_consumed_iff]
      show (handleBytes parser chunk).consumed
        ++ (handleChunks (handleBytes parser chunk).parser chunks).consumed
          = chunkBytes chunk ++ stream chunks ↔ _
      constructor
      · intro heq
        -- neither part can be longer than what it was given, so both are complete
        have hlength := congrArg List.length heq
        rw [List.length_append, List.length_append] at hlength
        have hrest := length_handleChunks (handleBytes parser chunk).parser chunks
        have hle := hconsumed.length_le
        have hchunk := hconsumed.eq_of_length (by omega)
        use hchunk
        rw [hchunk] at hparser
        rw [hchunk, hparser, List.append_cancel_left_eq] at heq
        apply (ih _).mp heq
      · rintro ⟨hchunk, hrest⟩
        rw [hchunk] at hparser
        rw [hchunk, hparser, (ih _).mpr hrest]

/-- Each command executed is the data of a frame in what was consumed. -/
theorem handleChunks_commands {parser : HostParser} {bytes : List UInt8}
    (h : parser.seen <:+ bytes) (chunks : List Chunk) :
  ∀ command ∈ (handleChunks parser chunks).commands,
    hostFrame command <:+: bytes ++ (handleChunks parser chunks).consumed
  := by
  induction chunks generalizing parser bytes with
  | nil =>
      intro command hmem
      cases hmem
  | cons chunk chunks ih =>
      obtain ⟨hseen, hcommand⟩ := handleBytes_commands h chunk
      intro command hmem
      rw [handleChunks, Handled.andThen, ← List.append_assoc]
      rcases List.mem_append.mp hmem with hmem | hmem
      · apply (hcommand command hmem).trans
        apply List.infix_append_left
      · apply ih hseen command hmem

/-! ### A connection in the server -/

/-- What the connection `fd` receives in an event. -/
def ServerEvent.chunk (fd : Fd) : ServerEvent → Option Chunk
  | .ready fd' _ (.data chunk) => if fd' = fd then some chunk else none
  | _ => none

/-- What the connection `fd` receives. -/
def received (fd : Fd) (es : List ServerEvent) : List Chunk :=
  es.filterMap (ServerEvent.chunk fd)

namespace TcpServer

/-- What an event leads to for the connection `fd`. -/
def handled (fd : Fd) (s : TcpServer) : ServerEvent → Handled
  | .ready fd' _ recv =>
      if fd' = fd ∧ fd ∉ s.fdsetListners ∧ fd ∈ s.fdsetClients then
        (tcpServerHandleConnectedSocket fd recv s).1
      else .idle (s.protocolParser fd)
  | _ => .idle (s.protocolParser fd)

/-- What the events of a run lead to for the connection `fd`. -/
def log (fd : Fd) : TcpServer → List ServerEvent → Handled
  | s, [] => .idle (s.protocolParser fd)
  | s, e :: es => (s.handled fd e).andThen (log fd (s.step e) es)

theorem Connected.step {s : TcpServer} {fd : Fd} {ipAddress : UInt32}
    (h : s.Connected ipAddress fd) {e : ServerEvent} (hopen : (s.step e).sockets fd ≠ none) :
  (s.step e).Connected ipAddress fd
  := by
  rw [Connected] at h ⊢
  cases s.step_change e with
  | keeps hs => rw [hs.sockets, h]
  | opens fd' socket hs =>
      rw [hs.sockets, Function.update_of_ne, h]
      rintro rfl
      rw [hs.free] at h
      cases h
  | closes fd' hs =>
      rw [hs.sockets] at hopen ⊢
      rw [Function.update_of_ne, h]
      rintro rfl
      apply hopen
      apply Function.update_self

theorem Connected.notMem_listners {s : TcpServer} (hs : s.Consistent) {fd : Fd}
    {ipAddress : UInt32} (h : s.Connected ipAddress fd) :
  fd ∉ s.fdsetListners
  := by
  intro hmem
  obtain ⟨ip, hlistens⟩ := (hs.listners fd).mp hmem
  rw [h] at hlistens
  cases hlistens

/-- Accepting a connection touches no parser of another one. -/
theorem protocolParser_handleListnerSocket (listner : Fd) (accepted : Option Fd) {s : TcpServer}
    {fd : Fd} (hopen : s.sockets fd ≠ none) :
  (tcpServerHandleListnerSocket listner accepted s).protocolParser fd = s.protocolParser fd
  := by
  unfold tcpServerHandleListnerSocket
  split
  · split
    · rename_i h
      apply Function.update_of_ne
      rintro rfl
      apply hopen h.1
    · rfl
  · rfl

/-- What a connection receives touches no parser of another one. -/
theorem protocolParser_handleConnectedSocket {fd fd' : Fd} (hne : fd ≠ fd') (recv : Recv)
    (s : TcpServer) :
  (tcpServerHandleConnectedSocket fd' recv s).2.protocolParser fd = s.protocolParser fd
  := by
  unfold tcpServerHandleConnectedSocket
  split
  · rfl
  · rfl
  · apply Function.update_of_ne hne
  · apply Function.update_of_ne hne

/-- As long as a connection stays open, an event feeds what it receives to its parser and no other
event touches that parser. -/
theorem Connected.handled {s : TcpServer} (hs : s.Consistent) {fd : Fd} {ipAddress : UInt32}
    (h : s.Connected ipAddress fd) {e : ServerEvent} (hopen : (s.step e).sockets fd ≠ none) :
  s.handled fd e = ((e.chunk fd).elim (.idle (s.protocolParser fd))
      (handleBytes (s.protocolParser fd)))
    ∧ (s.step e).protocolParser fd = (s.handled fd e).parser
  := by
  have hsocket : s.sockets fd = some ⟨.client, ipAddress⟩ := h
  have hfd : s.sockets fd ≠ none := by
    rw [hsocket]
    nofun
  have hlistners := h.notMem_listners hs
  have hclients := hs.clients fd ipAddress h
  cases e with
  | address ip => exact ⟨rfl, rfl⟩
  | netifUp fd' => exact ⟨rfl, congrFun (addListenerSocket_frame fd' s).2 fd⟩
  | netifDown => exact ⟨rfl, congrFun (removeListenerSocket_frame s).2 fd⟩
  | ready fd' accepted recv =>
      rw [TcpServer.step] at hopen ⊢
      rw [TcpServer.handled]
      rcases eq_or_ne fd' fd with rfl | hne
      · rw [if_neg hlistners, if_pos hclients] at hopen ⊢
        rw [if_pos ⟨rfl, hlistners, hclients⟩]
        cases recv with
        | wouldBlock =>
            simp [ServerEvent.chunk, tcpServerHandleConnectedSocket, hsocket, Handled.idle]
        | closed => simp [tcpServerHandleConnectedSocket, hsocket] at hopen
        | data chunk => simp [ServerEvent.chunk, tcpServerHandleConnectedSocket, hsocket]
      · have hchunk : (ServerEvent.ready fd' accepted recv).chunk fd = none := by
          cases recv <;> simp [ServerEvent.chunk, hne]
        rw [hchunk, if_neg (fun h => hne h.1)]
        use rfl
        split
        · apply protocolParser_handleListnerSocket _ _ hfd
        · split
          · apply protocolParser_handleConnectedSocket hne.symm
          · rfl

/-- As long as a connection stays open, its chunks are handled one after another. -/
theorem Connected.log {s : TcpServer} (hs : s.Consistent) {fd : Fd} {ipAddress : UInt32}
    (h : s.Connected ipAddress fd) {es : List ServerEvent}
    (hopen : ∀ i ≤ es.length, ((es.take i).foldl TcpServer.step s).sockets fd ≠ none) :
  s.log fd es = handleChunks (s.protocolParser fd) (received fd es)
  := by
  induction es generalizing s with
  | nil => rfl
  | cons e es ih =>
      have hnext : (s.step e).sockets fd ≠ none := hopen 1 (by simp)
      obtain ⟨hhandled, hparser⟩ := h.handled hs hnext
      have hrest := ih (hs.step e) (h.step hnext) fun i hi => hopen (i + 1) (by simpa using hi)
      rw [TcpServer.log, hrest, hparser, hhandled]
      cases hchunk : e.chunk fd with
      | none =>
          rw [show received fd (e :: es) = received fd es from List.filterMap_cons_none hchunk]
          rfl
      | some chunk =>
          rw [show received fd (e :: es) = chunk :: received fd es from
            List.filterMap_cons_some hchunk]
          rfl

/-- A descriptor that was not in use is that of a client once it is accepted, and its parser is
reset. -/
theorem connected_of_accepted {s : TcpServer} {listner fd : Fd} {recv : Recv}
    (hclosed : s.sockets fd = none)
    (hopen : (s.step (.ready listner (some fd) recv)).sockets fd ≠ none) :
  ∃ ipAddress, (s.step (.ready listner (some fd) recv)).Connected ipAddress fd
    ∧ (s.step (.ready listner (some fd) recv)).protocolParser fd = hostProtocolParserReset
  := by
  rw [step] at hopen ⊢
  split at hopen
  · rename_i hlistner
    rw [if_pos hlistner]
    cases hsocket : s.sockets listner with
    | none => simp [tcpServerHandleListnerSocket, hsocket, hclosed] at hopen
    | some socket =>
        by_cases hkind : socket.kind = .listner
        · use socket.ipAddress
          simp [tcpServerHandleListnerSocket, hsocket, hclosed, hkind, Connected]
        · simp [tcpServerHandleListnerSocket, hsocket, hclosed, hkind] at hopen
  · exfalso
    split at hopen
    · unfold tcpServerHandleConnectedSocket at hopen
      split at hopen
      · apply hopen hclosed
      · apply hopen hclosed
      · apply hopen
        show Function.update s.sockets listner none fd = none
        rw [Function.update_apply]
        split
        · rfl
        · apply hclosed
      · apply hopen hclosed
    · apply hopen hclosed

/-- From the time a connection is accepted and as long as it stays open, its stream is consumed as
a whole, and the commands executed are the data of frames in it, exactly if each response is sent up
to one after the last byte of a chunk. -/
theorem stream_consumed_iff (es₀ es : List ServerEvent) (listner fd : Fd) (recv : Recv)
    (hclosed : (machine.run es₀).sockets fd = none)
    (hopen : ∀ i ≤ es.length,
      (machine.run (es₀ ++ .ready listner (some fd) recv :: es.take i)).sockets fd ≠ none) :
  (((machine.run (es₀ ++ [.ready listner (some fd) recv])).log fd es).consumed
      = stream (received fd es)
    ∧ ∀ command ∈ ((machine.run (es₀ ++ [.ready listner (some fd) recv])).log fd es).commands,
      hostFrame command <:+: stream (received fd es))
  ↔ AllAnswered hostProtocolParserReset (received fd es)
  := by
  have hrun : machine.run (es₀ ++ [.ready listner (some fd) recv])
      = (machine.run es₀).step (.ready listner (some fd) recv) := machine.run_append_singleton _ _
  have hs : (machine.run es₀).Consistent :=
    machine.invariant consistent_init (fun _ e h => h.step e) es₀
  have hfirst := hopen 0 (Nat.zero_le _)
  rw [List.take_zero, hrun] at hfirst
  obtain ⟨ipAddress, hconnected, hparser⟩ := connected_of_accepted hclosed hfirst
  have hlog : TcpServer.log fd ((machine.run es₀).step (.ready listner (some fd) recv)) es
      = handleChunks hostProtocolParserReset (received fd es) := by
    rw [← hparser]
    apply hconnected.log (hs.step _)
    intro i hi
    rw [← hrun]
    show (List.foldl machine.step _ _).sockets fd ≠ none
    rw [← machine.run_append, List.append_assoc]
    apply hopen i hi
  rw [hrun, hlog]
  constructor
  · rintro ⟨hconsumed, _⟩
    apply (handleChunks_consumed_iff _ _).mp hconsumed
  · intro hanswered
    have hconsumed := (handleChunks_consumed_iff _ _).mpr hanswered
    use hconsumed
    rw [← hconsumed]
    have hseen : hostProtocolParserReset.seen <:+ [] := List.suffix_rfl
    apply handleChunks_commands hseen

/-! ### A lost byte -/

namespace LostByte

/-- A byte of the stream, and whether a response to it is sent. -/
def byte (byte : UInt8) (sent : Bool) : UInt8 × Reply :=
  (byte, ⟨.stateError, fun _ => if sent then 5 else -1⟩)

/-- The server listens. -/
def up : List ServerEvent :=
  [.address 0xC0A8010A, .netifUp 0]

/-- A frame that is not closed, whose rest follows in the next chunk. -/
def events (sent : Bool) : List ServerEvent :=
  [.ready 1 none (.data
      [byte 0x77 true, byte 0x44 true, byte 0x01 true, byte 0x77 sent, byte 0x00 true]),
    .ready 1 none (.data [byte 0x44 true, byte 0x05 true, byte 0x44 true, byte 0x77 true])]

theorem closed_up :
  (machine.run up).sockets 1 = none
  := by
  decide +kernel

theorem open_events (sent : Bool) :
  ∀ i ≤ (events sent).length,
    (machine.run (up ++ .ready 0 (some 1) .wouldBlock :: (events sent).take i)).sockets 1 ≠ none
  := by
  revert sent
  decide +kernel

/-- If the response to the frame that is not closed is sent, no byte is lost. -/
theorem consumed_iff_answered :
  (((machine.run (up ++ [.ready 0 (some 1) .wouldBlock])).log 1 (events true)).consumed
      = stream (received 1 (events true))
    ∧ ∀ command ∈ ((machine.run (up ++ [.ready 0 (some 1) .wouldBlock])).log 1
        (events true)).commands, hostFrame command <:+: stream (received 1 (events true)))
  ↔ AllAnswered hostProtocolParserReset (received 1 (events true))
  := stream_consumed_iff up (events true) 0 1 .wouldBlock closed_up (open_events true)

/-- If it is not sent, a byte is lost and the command `05` is executed, which is not the data of a
frame in the stream. -/
theorem not_consumed :
  ((machine.run (up ++ [.ready 0 (some 1) .wouldBlock])).log 1 (events false)).consumed
      ≠ stream (received 1 (events false))
    ∧ 0x05 ∈ ((machine.run (up ++ [.ready 0 (some 1) .wouldBlock])).log 1
        (events false)).commands
    ∧ ¬ hostFrame 0x05 <:+: stream (received 1 (events false))
  := by
  decide +kernel

end LostByte

end TcpServer

end EthercatMaster
