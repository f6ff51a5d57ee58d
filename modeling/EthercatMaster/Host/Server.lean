import Mathlib.Algebra.Order.Ring.Nat
import Mathlib.Data.Finset.Insert
import Mathlib.Data.Fin.Tuple.Basic
import Mathlib.Data.Fintype.Basic
import EthercatMaster.Library.Machine
import EthercatMaster.Host.Protocol

/-!
# The TCP server

The server listens at the address of the network interface and keeps a parser for each
connection.  The callback of the interface opens and closes listening sockets; the task of the
server accepts connections and handles what they receive.  The sockets themselves are lwIP's, and
what its calls return is given.
-/

namespace EthercatMaster

/-! ### Sockets -/

/-- `MEMP_NUM_NETCONN`. -/
def mempNumNetconn : ℕ := 10

instance : NeZero mempNumNetconn := ⟨by decide⟩

/-- A descriptor of lwIP.  `LWIP_SOCKET_OFFSET` is zero, so there is a parser for each. -/
abbrev Fd := Fin mempNumNetconn

/-- What a socket is for. -/
inductive SocketKind where
  | listner
  | client
deriving DecidableEq, Repr

/-- An open socket with its local address. -/
structure Socket where
  kind : SocketKind
  ipAddress : UInt32
deriving DecidableEq, Repr

/-- `tcp_server_ctrl_t`, with the address of the interface and the open sockets of lwIP. -/
structure TcpServer where
  ipAddress : UInt32
  sockets : Fd → Option Socket
  maxFd : ℤ
  numOfSocket : UInt32
  fdsetListners : Finset Fd
  fdsetClients : Finset Fd
  fdsetAll : Finset Fd
  protocolParser : Fd → HostParser

/-- The server as `lwip_port_user_main` starts it. -/
def TcpServer.init : TcpServer where
  ipAddress := 0
  sockets := fun _ => none
  maxFd := -1
  numOfSocket := 0
  fdsetListners := ∅
  fdsetClients := ∅
  fdsetAll := ∅
  protocolParser := fun _ => hostProtocolParserReset

/-! ### Listening sockets -/

/-- `tcp_server_get_socket_by_ip_address`: the least descriptor of a socket with the address. -/
@[irreducible] def tcpServerGetSocketByIpAddress (ipAddress : UInt32) (s : TcpServer) : Option Fd :=
  Fin.find? fun fd =>
    (fd.val : ℤ) ≤ s.maxFd ∧ (s.sockets fd).map Socket.ipAddress = some ipAddress

/-- `tcp_server_create_new_listner_socket` when lwIP gives the descriptor `fd`. -/
def tcpServerCreateNewListnerSocket (ipAddress : UInt32) (fd : Fd) (s : TcpServer) :
    Option TcpServer :=
  if s.sockets fd = none then
    some { s with sockets := Function.update s.sockets fd (some ⟨.listner, ipAddress⟩) }
  else none

/-- `tcp_server_add_listener_socket`. -/
def tcpServerAddListenerSocket (fd : Fd) (s : TcpServer) : TcpServer :=
  match tcpServerGetSocketByIpAddress s.ipAddress s with
  | some _ => s
  | none =>
      match tcpServerCreateNewListnerSocket s.ipAddress fd s with
      | none => s
      | some s =>
          { s with
            fdsetListners := insert fd s.fdsetListners
            fdsetAll := insert fd s.fdsetAll
            maxFd := if (fd.val : ℤ) > s.maxFd then fd.val else s.maxFd
            numOfSocket := s.numOfSocket + 1 }

/-- `tcp_server_remove_listener_socket`. -/
def tcpServerRemoveListenerSocket (s : TcpServer) : TcpServer :=
  match tcpServerGetSocketByIpAddress s.ipAddress s with
  | none => s
  | some fd =>
      { s with
        sockets := Function.update s.sockets fd none
        fdsetListners := s.fdsetListners.erase fd
        fdsetAll := s.fdsetAll.erase fd
        numOfSocket := s.numOfSocket - 1 }

/-- `tcp_server_handle_listner_socket` when `lwip_accept` on the socket gives `accepted`. -/
def tcpServerHandleListnerSocket (listner : Fd) (accepted : Option Fd) (s : TcpServer) :
    TcpServer :=
  match s.sockets listner, accepted with
  | some socket, some fd =>
      if s.sockets fd = none ∧ socket.kind = .listner then
        { s with
          sockets := Function.update s.sockets fd (some ⟨.client, socket.ipAddress⟩)
          fdsetClients := insert fd s.fdsetClients
          fdsetAll := insert fd s.fdsetAll
          maxFd := if (fd.val : ℤ) > s.maxFd then fd.val else s.maxFd
          numOfSocket := s.numOfSocket + 1
          protocolParser := Function.update s.protocolParser fd hostProtocolParserReset }
      else s
  | _, _ => s

/-! ### Responses -/

/-- The loop of `tcp_server_status_send`, with the results of the calls of `lwip_send`. -/
def statusSendLoop (sent : ℕ → ℤ) : (fuel call totalSent : ℕ) → Option Bool
  | 0, _, _ => none
  | fuel + 1, call, totalSent =>
      if totalSent < hostProtocolFrameSize then
        if sent call ≤ 0 then some false
        else statusSendLoop sent fuel (call + 1) (totalSent + (sent call).toNat)
      else some true

/-- The loop ends, because each call that does not fail sends a byte. -/
theorem statusSendLoop_isSome (sent : ℕ → ℤ) {fuel call totalSent : ℕ}
    (h : hostProtocolFrameSize - totalSent < fuel) :
  (statusSendLoop sent fuel call totalSent).isSome
  := by
  induction fuel generalizing call totalSent with
  | zero => apply absurd h (Nat.not_lt_zero _)
  | succ fuel ih =>
      rw [statusSendLoop]
      split
      · split
        · rfl
        · apply ih
          omega
      · rfl

/-- `tcp_server_status_send`: whether the whole frame is sent. -/
def tcpServerStatusSend (sent : ℕ → ℤ) : Bool :=
  (statusSendLoop sent (hostProtocolFrameSize + 1) 0 0).getD false

/-! ### Connections -/

/-- What happens when a byte leads to a response: the status that `host_command_execute` returns
if the byte completes a command, and the results of the calls of `lwip_send`. -/
structure Reply where
  status : HostProtocolStatus
  sent : ℕ → ℤ

/-- The bytes that one call of `lwip_recv` returns. -/
abbrev Chunk := List (UInt8 × Reply)

/-- What `lwip_recv` returns: no data for now, the end of the connection or an error, or bytes. -/
inductive Recv where
  | wouldBlock
  | closed
  | data (chunk : Chunk)

/-- What the bytes of a chunk lead to: the bytes that the parser consumes, the commands passed to
`host_command_execute`, and the statuses sent back. -/
structure Handled where
  parser : HostParser
  consumed : List UInt8
  commands : List UInt8
  responses : List HostProtocolStatus

/-- Nothing is received. -/
def Handled.idle (parser : HostParser) : Handled := ⟨parser, [], [], []⟩

/-- The loop of `tcp_server_handle_connected_socket` over the bytes of a chunk.  It ends early when
a response is not sent. -/
def handleBytes (parser : HostParser) : Chunk → Handled
  | [] => .idle parser
  | (byte, reply) :: chunk =>
      match hostProtocolBytePush parser byte with
      | (.none, parser) =>
          let h := handleBytes parser chunk
          { h with consumed := byte :: h.consumed }
      | (.command command, parser) =>
          if tcpServerStatusSend reply.sent then
            let h := handleBytes parser chunk
            ⟨h.parser, byte :: h.consumed, command :: h.commands, reply.status :: h.responses⟩
          else ⟨parser, [byte], [command], [reply.status]⟩
      | (.frameError, parser) =>
          if tcpServerStatusSend reply.sent then
            let h := handleBytes parser chunk
            ⟨h.parser, byte :: h.consumed, h.commands, .frameError :: h.responses⟩
          else ⟨parser, [byte], [], [.frameError]⟩

/-- `tcp_server_handle_connected_socket`.  Calls on a descriptor that is not open fail. -/
def tcpServerHandleConnectedSocket (fd : Fd) (recv : Recv) (s : TcpServer) :
    Handled × TcpServer :=
  match s.sockets fd, recv with
  | none, _ => (.idle (s.protocolParser fd), s)
  | some _, .wouldBlock => (.idle (s.protocolParser fd), s)
  | some _, .closed =>
      (.idle (s.protocolParser fd), { s with
        sockets := Function.update s.sockets fd none
        fdsetClients := s.fdsetClients.erase fd
        fdsetAll := s.fdsetAll.erase fd
        numOfSocket := if s.numOfSocket > 0 then s.numOfSocket - 1 else s.numOfSocket
        protocolParser := Function.update s.protocolParser fd hostProtocolParserReset })
  | some _, .data chunk =>
      let h := handleBytes (s.protocolParser fd) chunk
      (h, { s with protocolParser := Function.update s.protocolParser fd h.parser })

/-! ### The server among its tasks -/

/-- What happens to the server: the interface gets an address, its callback is called, or the task
finds the socket `fd` ready, with what lwIP returns then. -/
inductive ServerEvent where
  | address (ipAddress : UInt32)
  | netifUp (fd : Fd)
  | netifDown
  | ready (fd : Fd) (accepted : Option Fd) (recv : Recv)

namespace TcpServer

/-- One step of the server. -/
def step (s : TcpServer) : ServerEvent → TcpServer
  | .address ipAddress => { s with ipAddress := ipAddress }
  | .netifUp fd => tcpServerAddListenerSocket fd s
  | .netifDown => tcpServerRemoveListenerSocket s
  | .ready fd accepted recv =>
      if fd ∈ s.fdsetListners then tcpServerHandleListnerSocket fd accepted s
      else if fd ∈ s.fdsetClients then (tcpServerHandleConnectedSocket fd recv s).2
      else s

/-- The server as a machine. -/
def machine : Machine TcpServer ServerEvent :=
  ⟨init, step⟩

end TcpServer

end EthercatMaster
