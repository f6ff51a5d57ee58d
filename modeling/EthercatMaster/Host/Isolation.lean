import EthercatMaster.Host.Connection
import EthercatMaster.Host.Frames

/-!
# Isolation of connections

The parsers of the connections are in an array that is indexed by descriptors, and a descriptor is
used again after its socket was closed.  The events of the parser that serves a connection depend
on nothing but the bytes that the connection has received since it was accepted.
-/

namespace EthercatMaster

/-! ### The events of a chunk -/

/-- The events of `host_protocol_byte_push` in the loop of `tcp_server_handle_connected_socket`. -/
def byteEvents (parser : HostParser) : Chunk → List HostEvent
  | [] => []
  | (byte, reply) :: chunk =>
      match hostProtocolBytePush parser byte with
      | (.none, parser) => .none :: byteEvents parser chunk
      | (event, parser) =>
          if tcpServerStatusSend reply.sent then event :: byteEvents parser chunk else [event]

/-- Each response in a chunk is sent. -/
def Sent (chunk : Chunk) : Prop :=
  ∀ entry ∈ chunk, tcpServerStatusSend entry.2.sent = true

theorem byteEvents_cons_of_readsOn {parser : HostParser} {byte : UInt8} {reply : Reply}
    (chunk : Chunk) (h : ReadsOn parser byte reply) :
  byteEvents parser ((byte, reply) :: chunk)
    = (hostProtocolBytePush parser byte).1
      :: byteEvents (hostProtocolBytePush parser byte).2 chunk
  := by
  rw [ReadsOn] at h
  rw [byteEvents]
  generalize hostProtocolBytePush parser byte = push at h ⊢
  obtain ⟨event, parser⟩ := push
  cases event with
  | none => rfl
  | command command =>
      apply if_pos
      apply h
      rintro ⟨⟩
  | frameError =>
      apply if_pos
      apply h
      rintro ⟨⟩

theorem byteEvents_cons_of_not {parser : HostParser} {byte : UInt8} {reply : Reply}
    (chunk : Chunk) (h : ¬ ReadsOn parser byte reply) :
  byteEvents parser ((byte, reply) :: chunk) = [(hostProtocolBytePush parser byte).1]
  := by
  rw [ReadsOn, Classical.not_imp] at h
  rw [byteEvents]
  generalize hostProtocolBytePush parser byte = push at h ⊢
  obtain ⟨event, parser⟩ := push
  cases event with
  | none => exact absurd rfl h.1
  | command command => exact if_neg h.2
  | frameError => exact if_neg h.2

/-- The events of a chunk are those of the bytes that are consumed. -/
theorem byteEvents_eq (parser : HostParser) (chunk : Chunk) :
  byteEvents parser chunk = parser.events (handleBytes parser chunk).consumed
  := by
  induction chunk generalizing parser with
  | nil => rfl
  | cons head chunk ih =>
      obtain ⟨byte, reply⟩ := head
      by_cases h : ReadsOn parser byte reply
      · rw [byteEvents_cons_of_readsOn chunk h, handleBytes_cons_of_readsOn chunk h, ih]
        rfl
      · rw [byteEvents_cons_of_not chunk h, handleBytes_cons_of_not chunk h]
        rfl

theorem Sent.consumed {chunk : Chunk} (h : Sent chunk) (parser : HostParser) :
  (handleBytes parser chunk).consumed = chunkBytes chunk
  := by
  rw [handleBytes_consumed_iff]
  intro pre byte reply post heq _ _
  apply h (byte, reply)
  rw [heq]
  apply List.mem_append_right _ List.mem_cons_self

/-! ### The events of a connection -/

namespace TcpServer

/-- The events of the parser of the descriptor `fd` while the server handles an event. -/
def parserEvents (fd : Fd) (s : TcpServer) : ServerEvent → List HostEvent
  | .ready fd' _ (.data chunk) =>
      if fd' = fd ∧ fd ∉ s.fdsetListners ∧ fd ∈ s.fdsetClients ∧ s.sockets fd ≠ none then
        byteEvents (s.protocolParser fd) chunk
      else []
  | _ => []

/-- The events of the parser of the descriptor `fd` in a run from a state. -/
def parserLog (fd : Fd) : TcpServer → List ServerEvent → List HostEvent
  | _, [] => []
  | s, e :: es => s.parserEvents fd e ++ parserLog fd (s.step e) es

/-- A connection feeds what it receives to its parser. -/
theorem Connected.parserEvents {s : TcpServer} (hs : s.Consistent) {fd : Fd} {ipAddress : UInt32}
    (h : s.Connected ipAddress fd) (e : ServerEvent) :
  s.parserEvents fd e = (e.chunk fd).elim [] (byteEvents (s.protocolParser fd))
  := by
  have hopen : s.sockets fd ≠ none := by
    rw [show s.sockets fd = _ from h]
    nofun
  cases e with
  | ready fd' accepted recv =>
      cases recv with
      | data chunk =>
          rw [TcpServer.parserEvents, ServerEvent.chunk]
          rcases eq_or_ne fd' fd with rfl | hne
          · rw [if_pos ⟨rfl, h.notMem_listners hs, hs.clients fd' ipAddress h, hopen⟩, if_pos rfl]
            rfl
          · rw [if_neg (fun hfd => hne hfd.1), if_neg hne]
            rfl
      | wouldBlock => rfl
      | closed => rfl
  | _ => rfl

/-- As long as a connection stays open, its parser is fed the bytes that it receives. -/
theorem Connected.parserLog {s : TcpServer} (hs : s.Consistent) {fd : Fd} {ipAddress : UInt32}
    (h : s.Connected ipAddress fd) {es : List ServerEvent}
    (hopen : ∀ i < es.length, ((es.take i).foldl TcpServer.step s).sockets fd ≠ none)
    (hsent : ∀ chunk ∈ received fd es, Sent chunk) :
  s.parserLog fd es = (s.protocolParser fd).events (stream (received fd es))
  := by
  induction es generalizing s with
  | nil => rfl
  | cons e es ih =>
      have hreceived : received fd (e :: es) = (e.chunk fd).toList ++ received fd es := by
        rw [received, List.filterMap_cons]
        cases e.chunk fd <;> rfl
      have hstream : stream (received fd (e :: es))
          = stream (e.chunk fd).toList ++ stream (received fd es) := by
        rw [hreceived, stream, List.map_append, List.flatten_append]
        rfl
      have hfirst : s.parserEvents fd e
          = (s.protocolParser fd).events (stream (e.chunk fd).toList) := by
        rw [h.parserEvents hs]
        cases hchunk : e.chunk fd with
        | none => rfl
        | some chunk =>
            have hchunk : Sent chunk := hsent chunk (by simp [hreceived, hchunk])
            simp [byteEvents_eq, hchunk.consumed, stream]
      rw [TcpServer.parserLog, hstream, HostParser.events_append, hfirst]
      congr 1
      cases es with
      | nil => rfl
      | cons e' es =>
          have hnext : (s.step e).sockets fd ≠ none := hopen 1 (by simp)
          obtain ⟨hhandled, hparser⟩ := h.handled hs hnext
          rw [ih (hs.step e) (h.step hnext) (fun i hi => hopen (i + 1) (by simpa using hi))
            (fun chunk hmem => hsent chunk (by rw [hreceived]; exact List.mem_append_right _ hmem)),
            hparser, hhandled]
          congr 1
          cases hchunk : e.chunk fd with
          | none => rfl
          | some chunk =>
              have hchunk : Sent chunk := hsent chunk (by simp [hreceived, hchunk])
              have hafter := (handleBytes_consumed (s.protocolParser fd) chunk).2
              rw [hchunk.consumed] at hafter
              simp [hafter, stream]

/-! ### Connections of a run -/

/-- A connection in a run of the server: what happened before it was accepted, and what happens
from then on until its socket is closed at last.  Its responses are sent. -/
structure Connection where
  past : List ServerEvent
  listner : Fd
  fd : Fd
  recv : Recv
  events : List ServerEvent
  free : (machine.run past).sockets fd = none
  opened : ∀ i < events.length,
    (machine.run (past ++ .ready listner (some fd) recv :: events.take i)).sockets fd ≠ none
  sent : ∀ chunk ∈ received fd events, Sent chunk

namespace Connection

/-- The server when it has accepted the connection. -/
def accepted (c : Connection) : TcpServer :=
  machine.run (c.past ++ [.ready c.listner (some c.fd) c.recv])

/-- The bytes that the connection receives. -/
def bytes (c : Connection) : List UInt8 :=
  stream (received c.fd c.events)

/-- The events of the parser that serves the connection. -/
def parserLog (c : Connection) : List HostEvent :=
  c.accepted.parserLog c.fd c.events

theorem accepted_eq (c : Connection) :
  c.accepted = (machine.run c.past).step (.ready c.listner (some c.fd) c.recv)
  := machine.run_append_singleton _ _

theorem run_events (c : Connection) (es : List ServerEvent) :
  machine.run (c.past ++ .ready c.listner (some c.fd) c.recv :: es)
    = es.foldl TcpServer.step c.accepted
  := by
  rw [List.append_cons, machine.run_append]
  rfl

theorem parserLog_eq (c : Connection) :
  c.parserLog = hostProtocolParserReset.events c.bytes
  := by
  have hs : (machine.run c.past).Consistent :=
    machine.invariant consistent_init (fun _ e h => h.step e) c.past
  rcases List.eq_nil_or_concat' c.events with hnil | ⟨es, e, hcons⟩
  · rw [parserLog, bytes, hnil]
    rfl
  · have hfirst := c.opened 0 (by simp [hcons])
    rw [run_events, List.take_zero, List.foldl_nil, accepted_eq] at hfirst
    obtain ⟨ipAddress, hconnected, hparser⟩ := connected_of_accepted c.free hfirst
    rw [parserLog, bytes, ← hparser, accepted_eq]
    apply hconnected.parserLog (hs.step _) _ c.sent
    intro i hi
    rw [← accepted_eq, ← run_events]
    apply c.opened i hi

/-- The events of the parser that serves a connection are those of a reset parser that is fed the
bytes of the connection, and so they are the same for every connection, in this or another run, that
receives the same bytes. -/
theorem isolated (c : Connection) :
  c.parserLog = hostProtocolParserReset.events c.bytes
    ∧ ∀ c' : Connection, c'.bytes = c.bytes → c'.parserLog = c.parserLog
  := by
  use c.parserLog_eq
  intro c' hbytes
  rw [c'.parserLog_eq, c.parserLog_eq, hbytes]

/-! ### A descriptor used again -/

/-- A byte whose response is sent. -/
def byte (byte : UInt8) : UInt8 × Reply :=
  (byte, ⟨.ok, fun _ => 5⟩)

/-- A client is cut off in the middle of a frame, and the next one gets its descriptor and sends the
rest of the frame while a third one sends a frame of its own. -/
def reused : Connection where
  past := [.address 0xC0A8010A, .netifUp 0, .ready 0 (some 1) .wouldBlock,
    .ready 1 none (.data [byte 0x77, byte 0x44]), .ready 1 none .closed,
    .ready 0 (some 2) .wouldBlock]
  listner := 0
  fd := 1
  recv := .wouldBlock
  events := [.ready 2 none (.data [byte 0x77, byte 0x44]),
    .ready 1 none (.data [byte 0x05, byte 0x44]), .ready 2 none (.data [byte 0x01]),
    .ready 1 none (.data [byte 0x77]), .ready 1 none .closed]
  free := by decide +kernel
  opened := by decide +kernel
  sent := by
    show ∀ chunk ∈ received _ _, ∀ entry ∈ chunk, tcpServerStatusSend entry.2.sent = true
    decide +kernel

/-- No command is executed for the second client. -/
theorem isolated_reused :
  reused.parserLog = [.none, .none, .none]
    ∧ ∀ c' : Connection, c'.bytes = [0x05, 0x44, 0x77] → c'.parserLog = [.none, .none, .none]
  := by
  obtain ⟨hlog, hothers⟩ := isolated reused
  have hbytes : reused.bytes = [0x05, 0x44, 0x77] := by decide +kernel
  rw [hbytes] at hlog hothers
  constructor
  · exact hlog
  · intro c' hc'
    rw [hothers c' hc', hlog]
    rfl

end Connection

end TcpServer

end EthercatMaster
