import Mathlib.Data.List.Infix
import Mathlib.Tactic.Common

/-!
# The protocol of the host

A host sends commands in frames `77 44 DATA 44 77` of five bytes.  The parser of a connection is
fed one byte after the other.  It gives up a frame at the first byte that does not fit, and takes
that byte for the first one of the next frame if it can be one.
-/

namespace EthercatMaster

/-! ### Frames -/

def hostProtocolFrameSize : ℕ := 5
def hostProtocolHeaderFirst : UInt8 := 0x77
def hostProtocolHeaderSecond : UInt8 := 0x44
def hostProtocolTailFirst : UInt8 := 0x44
def hostProtocolTailSecond : UInt8 := 0x77

/-- The frame with a data byte. -/
def hostFrame (data : UInt8) : List UInt8 :=
  [hostProtocolHeaderFirst, hostProtocolHeaderSecond, data, hostProtocolTailFirst,
    hostProtocolTailSecond]

/-- `host_protocol_status_t`. -/
inductive HostProtocolStatus where
  | ok
  | frameError
  | unknownCommand
  | paramError
  | busy
  | notReady
  | limitError
  | stateError
  | internalError
deriving DecidableEq, Repr

/-- The code of a status. -/
def HostProtocolStatus.code : HostProtocolStatus → UInt8
  | .ok => 0x00
  | .frameError => 0x01
  | .unknownCommand => 0x02
  | .paramError => 0x03
  | .busy => 0x04
  | .notReady => 0x05
  | .limitError => 0x06
  | .stateError => 0x07
  | .internalError => 0x7F

/-- `host_protocol_response_build`. -/
def hostProtocolResponseBuild (status : HostProtocolStatus) : List UInt8 :=
  hostFrame status.code

/-! ### The parser -/

/-- `host_protocol_parse_state_t`. -/
inductive HostParseState where
  | waitHeaderFirst
  | waitHeaderSecond
  | waitCommand
  | waitTailFirst
  | waitTailSecond
deriving DecidableEq, Repr

/-- `host_protocol_parser_t`. -/
structure HostParser where
  state : HostParseState
  command : UInt8
deriving DecidableEq, Repr

/-- `host_protocol_event_t`, with the command of a frame. -/
inductive HostEvent where
  | none
  | command (command : UInt8)
  | frameError
deriving DecidableEq, Repr

/-- `host_protocol_parser_reset`. -/
def hostProtocolParserReset : HostParser := ⟨.waitHeaderFirst, 0⟩

/-- `host_protocol_resync`. -/
def hostProtocolResync (parser : HostParser) (byte : UInt8) : HostParser :=
  if byte = hostProtocolHeaderFirst then { parser with state := .waitHeaderSecond }
  else { parser with state := .waitHeaderFirst }

/-- `host_protocol_byte_push`. -/
def hostProtocolBytePush (parser : HostParser) (byte : UInt8) : HostEvent × HostParser :=
  match parser.state with
  | .waitHeaderFirst =>
      if byte = hostProtocolHeaderFirst then (.none, { parser with state := .waitHeaderSecond })
      else (.none, parser)
  | .waitHeaderSecond =>
      if byte = hostProtocolHeaderSecond then (.none, { parser with state := .waitCommand })
      else (.none, hostProtocolResync parser byte)
  | .waitCommand => (.none, { parser with command := byte, state := .waitTailFirst })
  | .waitTailFirst =>
      if byte = hostProtocolTailFirst then (.none, { parser with state := .waitTailSecond })
      else (.frameError, hostProtocolResync parser byte)
  | .waitTailSecond =>
      if byte = hostProtocolTailSecond then (.command parser.command, hostProtocolParserReset)
      else (.frameError, hostProtocolResync parser byte)

/-- The parser after some bytes. -/
def HostParser.after (parser : HostParser) (bytes : List UInt8) : HostParser :=
  bytes.foldl (fun parser byte => (hostProtocolBytePush parser byte).2) parser

theorem HostParser.after_append (parser : HostParser) (bytes bytes' : List UInt8) :
  parser.after (bytes ++ bytes') = (parser.after bytes).after bytes'
  := List.foldl_append

/-! ### What the parser has seen -/

/-- The bytes at the end of what the parser was fed that may begin a frame. -/
def HostParser.seen (parser : HostParser) : List UInt8 :=
  match parser.state with
  | .waitHeaderFirst => []
  | .waitHeaderSecond => [hostProtocolHeaderFirst]
  | .waitCommand => [hostProtocolHeaderFirst, hostProtocolHeaderSecond]
  | .waitTailFirst => [hostProtocolHeaderFirst, hostProtocolHeaderSecond, parser.command]
  | .waitTailSecond =>
      [hostProtocolHeaderFirst, hostProtocolHeaderSecond, parser.command, hostProtocolTailFirst]

theorem seen_hostProtocolResync (parser : HostParser) (byte : UInt8) (bytes : List UInt8) :
  (hostProtocolResync parser byte).seen <:+ bytes ++ [byte]
  := by
  rw [hostProtocolResync]
  split
  · rename_i hbyte
    rw [hbyte]
    apply List.suffix_append
  · apply List.nil_suffix

/-- What the parser has seen is at the end of what it was fed, and a command is the data of a
frame there. -/
theorem seen_hostProtocolBytePush {parser : HostParser} {bytes : List UInt8}
    (h : parser.seen <:+ bytes) (byte : UInt8) :
  (hostProtocolBytePush parser byte).2.seen <:+ bytes ++ [byte]
    ∧ ∀ command, (hostProtocolBytePush parser byte).1 = .command command →
      hostFrame command <:+ bytes ++ [byte]
  := by
  obtain ⟨pre, rfl⟩ := h
  obtain ⟨state, command⟩ := parser
  cases state with
  | waitHeaderFirst =>
      rw [hostProtocolBytePush]
      dsimp only
      split
      · rename_i hbyte
        rw [hbyte]
        exact ⟨List.suffix_append _ _, by rintro command ⟨⟩⟩
      · exact ⟨List.nil_suffix, by rintro command ⟨⟩⟩
  | waitHeaderSecond =>
      rw [hostProtocolBytePush]
      dsimp only
      split
      · rename_i hbyte
        rw [hbyte, List.append_assoc]
        exact ⟨List.suffix_append _ _, by rintro command ⟨⟩⟩
      · exact ⟨seen_hostProtocolResync _ _ _, by rintro command ⟨⟩⟩
  | waitCommand =>
      rw [hostProtocolBytePush, List.append_assoc]
      exact ⟨List.suffix_append _ _, by rintro command ⟨⟩⟩
  | waitTailFirst =>
      rw [hostProtocolBytePush]
      dsimp only
      split
      · rename_i hbyte
        rw [hbyte, List.append_assoc]
        exact ⟨List.suffix_append _ _, by rintro command ⟨⟩⟩
      · exact ⟨seen_hostProtocolResync _ _ _, by rintro command ⟨⟩⟩
  | waitTailSecond =>
      rw [hostProtocolBytePush]
      dsimp only
      split
      · rename_i hbyte
        rw [hbyte, List.append_assoc]
        refine ⟨List.nil_suffix, ?_⟩
        rintro command ⟨⟩
        apply List.suffix_append
      · exact ⟨seen_hostProtocolResync _ _ _, by rintro command ⟨⟩⟩

end EthercatMaster
