import EthercatMaster.Host.Protocol
import Mathlib.Data.List.TakeDrop
import Mathlib.Tactic.IntervalCases

/-!
# The frames of a stream

What the parser of a connection reports on a whole stream of bytes, against the reading of the
stream from the left into disjoint frames and loose bytes.  The parser gives up a broken frame with
one byte at most kept for the next one, so it loses the frames that follow a loose header
`77 44` directly, and it loses no others.  After any bytes it is back in step with the frames that
follow at the end of the second one of them.
-/

namespace EthercatMaster

/-! ### The events of a stream -/

/-- The events of a parser that is fed some bytes, one for each byte. -/
def HostParser.events (parser : HostParser) : List UInt8 → List HostEvent
  | [] => []
  | byte :: bytes =>
      (hostProtocolBytePush parser byte).1 :: (hostProtocolBytePush parser byte).2.events bytes

@[simp] theorem HostParser.events_nil (parser : HostParser) : parser.events [] = [] := rfl

@[simp] theorem HostParser.events_cons (parser : HostParser) (byte : UInt8) (bytes : List UInt8) :
  parser.events (byte :: bytes)
    = (hostProtocolBytePush parser byte).1 :: (hostProtocolBytePush parser byte).2.events bytes
  := rfl

@[simp] theorem HostParser.after_nil (parser : HostParser) : parser.after [] = parser := rfl

@[simp] theorem HostParser.after_cons (parser : HostParser) (byte : UInt8) (bytes : List UInt8) :
  parser.after (byte :: bytes) = (hostProtocolBytePush parser byte).2.after bytes
  := rfl

theorem HostParser.events_append (parser : HostParser) (bytes bytes' : List UInt8) :
  parser.events (bytes ++ bytes') = parser.events bytes ++ (parser.after bytes).events bytes'
  := by
  induction bytes generalizing parser with
  | nil => rfl
  | cons byte bytes ih =>
      rw [List.cons_append, events_cons, ih]
      rfl

@[simp] theorem HostParser.length_events (parser : HostParser) (bytes : List UInt8) :
  (parser.events bytes).length = bytes.length
  := by
  induction bytes generalizing parser with
  | nil => rfl
  | cons byte bytes ih => simp [ih]

/-- The parser reports a command at the byte of a position of the stream. -/
def Reported (bytes : List UInt8) (n : ℕ) (command : UInt8) : Prop :=
  (hostProtocolParserReset.events bytes)[n]? = some (.command command)

instance (bytes : List UInt8) (n : ℕ) (command : UInt8) : Decidable (Reported bytes n command) :=
  inferInstanceAs (Decidable (_ = _))

/-- The bytes of the stream up to a position are those of a frame at its last five ones. -/
def Window (bytes : List UInt8) (n : ℕ) (data : UInt8) : Prop :=
  4 ≤ n ∧ (bytes.drop (n - 4)).take hostProtocolFrameSize = hostFrame data

instance (bytes : List UInt8) (n : ℕ) (data : UInt8) : Decidable (Window bytes n data) :=
  inferInstanceAs (Decidable (_ ∧ _))

/-- The parser reports exactly the frames of the stream that share no byte with a frame it has
reported before. -/
def AcceptsFrames (bytes : List UInt8) : Prop :=
  ∀ n command, Reported bytes n command ↔
    Window bytes n command ∧
      ∀ m command', m < n → Reported bytes m command' → m < n - 4

theorem length_hostFrame (data : UInt8) : (hostFrame data).length = 5 := rfl

/-- The event at a byte, whatever follows it. -/
theorem events_getElem?_append (parser : HostParser) (before after : List UInt8) (n : ℕ)
    (hn : n < after.length) (rest : List UInt8) :
  (parser.events (before ++ after ++ rest))[before.length + n]?
    = ((parser.after before).events after)[n]?
  := by
  rw [HostParser.events_append, HostParser.events_append, List.getElem?_append_left,
    List.getElem?_append_right]
  · simp
  · simp
  · simpa using hn

/-- The window of a frame, as a splitting of the stream. -/
theorem window_iff {bytes : List UInt8} {n : ℕ} {data : UInt8} :
  Window bytes n data ↔
    ∃ before rest, bytes = before ++ hostFrame data ++ rest ∧ n = before.length + 4
  := by
  constructor
  · rintro ⟨hn, h⟩
    have hlength := congrArg List.length h
    rw [List.length_take, List.length_drop, length_hostFrame, hostProtocolFrameSize] at hlength
    use bytes.take (n - 4), bytes.drop (n + 1)
    constructor
    · rw [← h, List.append_assoc, hostProtocolFrameSize]
      have hrest : bytes.drop (n + 1) = (bytes.drop (n - 4)).drop 5 := by
        rw [List.drop_drop]
        congr 1
        omega
      rw [hrest, List.take_append_drop, List.take_append_drop]
    · rw [List.length_take]
      omega
  · rintro ⟨before, rest, rfl, rfl⟩
    constructor
    · omega
    · rw [Nat.add_sub_cancel, List.append_assoc, List.drop_left]
      rfl

theorem Window.unique {bytes : List UInt8} {n : ℕ} {data data' : UInt8}
    (h : Window bytes n data) (h' : Window bytes n data') :
  data = data'
  := by
  have hframe := h.2.symm.trans h'.2
  simp only [hostFrame, List.cons.injEq, and_true, true_and] at hframe
  exact hframe

/-! ### A report ends a frame of its own -/

theorem length_seen_hostProtocolResync (parser : HostParser) (byte : UInt8) :
  (hostProtocolResync parser byte).seen.length ≤ 1
  := by
  rw [hostProtocolResync]
  split
  · apply le_refl
  · apply Nat.zero_le

theorem length_seen_hostProtocolBytePush (parser : HostParser) (byte : UInt8) :
  (hostProtocolBytePush parser byte).2.seen.length ≤ parser.seen.length + 1
  := by
  have hresync := length_seen_hostProtocolResync parser byte
  obtain ⟨state, command⟩ := parser
  cases state with
  | waitCommand => apply le_refl
  | waitHeaderFirst =>
      rw [hostProtocolBytePush]
      dsimp only
      split
      · apply le_refl
      · apply Nat.zero_le
  | waitTailSecond =>
      rw [hostProtocolBytePush]
      dsimp only
      split
      · apply Nat.zero_le
      · apply hresync.trans (Nat.succ_le_succ (Nat.zero_le _))
  | _ =>
      rw [hostProtocolBytePush]
      dsimp only
      split
      · apply le_refl
      · apply hresync.trans (Nat.succ_le_succ (Nat.zero_le _))

/-- What the parser has seen grows by no more than the bytes it is fed. -/
theorem length_seen_after (parser : HostParser) (bytes : List UInt8) :
  (parser.after bytes).seen.length ≤ parser.seen.length + bytes.length
  := by
  induction bytes generalizing parser with
  | nil => rfl
  | cons byte bytes ih =>
      have hpush := length_seen_hostProtocolBytePush parser byte
      have hrest := ih (hostProtocolBytePush parser byte).2
      rw [HostParser.after_cons, List.length_cons]
      omega

theorem seen_after (bytes : List UInt8) :
  (hostProtocolParserReset.after bytes).seen <:+ bytes
  := by
  induction bytes using List.reverseRecOn with
  | nil => apply List.nil_suffix
  | append_singleton bytes byte ih =>
      rw [HostParser.after_append]
      exact (seen_hostProtocolBytePush ih byte).1

/-- A command comes from a parser that has seen four bytes, and resets it. -/
theorem of_hostProtocolBytePush_command {parser : HostParser} {byte command : UInt8}
    (h : (hostProtocolBytePush parser byte).1 = .command command) :
  parser.seen.length = 4 ∧ (hostProtocolBytePush parser byte).2 = hostProtocolParserReset
  := by
  obtain ⟨state, data⟩ := parser
  cases state with
  | waitTailSecond =>
      rw [hostProtocolBytePush] at h ⊢
      dsimp only at h ⊢
      split at h
      · rename_i hbyte
        exact ⟨rfl, by rw [if_pos hbyte]⟩
      · cases h
  | waitCommand => cases h
  | _ =>
      rw [hostProtocolBytePush] at h
      dsimp only at h
      split at h <;> cases h

/-- A report, as a splitting of the stream at its byte. -/
theorem reported_iff {bytes : List UInt8} {n : ℕ} {command : UInt8} :
  Reported bytes n command ↔
    ∃ before byte rest, bytes = before ++ [byte] ++ rest ∧ n = before.length ∧
      (hostProtocolBytePush (hostProtocolParserReset.after before) byte).1 = .command command
  := by
  constructor
  · intro h
    obtain ⟨hn, -⟩ := List.getElem?_eq_some_iff.mp h
    rw [HostParser.length_events] at hn
    have hsplit : bytes = bytes.take n ++ [bytes[n]] ++ bytes.drop (n + 1) := by simp
    have hlength : (bytes.take n).length = n := List.length_take_of_le hn.le
    refine ⟨_, _, _, hsplit, hlength.symm, ?_⟩
    have hevent := events_getElem?_append hostProtocolParserReset (bytes.take n) [bytes[n]] 0
      Nat.one_pos (bytes.drop (n + 1))
    rw [← hsplit, hlength, Nat.add_zero, show _ = _ from h] at hevent
    simpa using hevent.symm
  · rintro ⟨before, byte, rest, rfl, rfl, h⟩
    have hevent := events_getElem?_append hostProtocolParserReset before [byte] 0
      Nat.one_pos rest
    rw [Reported, ← Nat.add_zero before.length, hevent, HostParser.events_cons, h]
    rfl

theorem Reported.window {bytes : List UInt8} {n : ℕ} {command : UInt8}
    (h : Reported bytes n command) :
  Window bytes n command
  := by
  obtain ⟨before, byte, rest, rfl, rfl, hevent⟩ := reported_iff.mp h
  obtain ⟨past, hpast⟩ := (seen_hostProtocolBytePush (seen_after before) byte).2 command hevent
  rw [window_iff]
  use past, rest
  constructor
  · rw [hpast]
  · have hlength := congrArg List.length hpast
    simp only [List.length_append, length_hostFrame, List.length_singleton] at hlength
    omega

/-- The parser has been reset by a report, and has seen nothing that came before it. -/
theorem Reported.length_seen {bytes : List UInt8} {m n : ℕ} {command : UInt8}
    (h : Reported bytes m command) (hmn : m < n) (hn : n ≤ bytes.length) :
  (hostProtocolParserReset.after (bytes.take n)).seen.length + m < n
  := by
  obtain ⟨before, byte, rest, rfl, rfl, hevent⟩ := reported_iff.mp h
  have htake : (before ++ [byte] ++ rest).take n
      = before ++ [byte] ++ rest.take (n - (before.length + 1)) := by
    rw [List.take_append, List.take_of_length_le (by simpa using Nat.succ_le_of_lt hmn),
      List.length_append, List.length_singleton]
  have hreset : hostProtocolParserReset.after (before ++ [byte]) = hostProtocolParserReset := by
    rw [HostParser.after_append]
    exact (of_hostProtocolBytePush_command hevent).2
  rw [htake, HostParser.after_append, hreset]
  have hseen := length_seen_after hostProtocolParserReset (rest.take (n - (before.length + 1)))
  rw [show hostProtocolParserReset.seen = [] from rfl, List.length_nil, List.length_take] at hseen
  omega

/-- The windows of two reports share no byte. -/
theorem Reported.disjoint {bytes : List UInt8} {m n : ℕ} {command command' : UInt8}
    (h : Reported bytes n command) (h' : Reported bytes m command') (hmn : m < n) :
  m < n - 4
  := by
  obtain ⟨before, byte, rest, rfl, rfl, hevent⟩ := reported_iff.mp h
  have hseen := h'.length_seen hmn (by simp)
  rw [List.append_assoc, List.take_left, (of_hostProtocolBytePush_command hevent).1] at hseen
  omega

/-! ### The reading of the stream from the left -/

/-- Some bytes end with a frame. -/
def endsFrame (bytes : List UInt8) : Bool :=
  (hostFrame (bytes.reverse.getD 2 0)).isSuffixOf bytes

/-- The bytes at the end of a stream that belong to no frame of it, when it is read from the left:
a frame is taken as soon as the bytes after the last one end with it. -/
def looseBytes (bytes : List UInt8) : List UInt8 :=
  bytes.foldl (fun loose byte =>
    if endsFrame (loose ++ [byte]) then [] else loose ++ [byte]) []

/-- The two bytes a frame begins with. -/
def hostHeader : List UInt8 := [hostProtocolHeaderFirst, hostProtocolHeaderSecond]

/-- No frame of the stream, when it is read from the left, comes directly after a header that
belongs to no frame. -/
def HeadersFramed (bytes : List UInt8) : Prop :=
  ∀ before byte data, before ++ [byte] <+: bytes →
    ¬ hostHeader ++ hostFrame data <:+ looseBytes before ++ [byte]

/-- A frame of the reading from the left ends at a position. -/
def Framed (bytes : List UInt8) (n : ℕ) : Prop :=
  n < bytes.length ∧ looseBytes (bytes.take (n + 1)) = []

theorem endsFrame_iff {bytes : List UInt8} :
  endsFrame bytes ↔ ∃ data, hostFrame data <:+ bytes
  := by
  rw [endsFrame, List.isSuffixOf_iff_suffix]
  constructor
  · intro h
    exact ⟨_, h⟩
  · rintro ⟨data, before, rfl⟩
    use before
    simp [hostFrame]

theorem looseBytes_concat (bytes : List UInt8) (byte : UInt8) :
  looseBytes (bytes ++ [byte])
    = if endsFrame (looseBytes bytes ++ [byte]) then [] else looseBytes bytes ++ [byte]
  := by
  rw [looseBytes, List.foldl_append]
  rfl

theorem looseBytes_take_succ {bytes : List UInt8} {n : ℕ} (hn : n < bytes.length) :
  looseBytes (bytes.take (n + 1))
    = if endsFrame (looseBytes (bytes.take n) ++ [bytes[n]]) then []
      else looseBytes (bytes.take n) ++ [bytes[n]]
  := by
  rw [← List.take_concat_get' bytes n hn, looseBytes_concat]

theorem framed_iff_endsFrame {bytes : List UInt8} {n : ℕ} (hn : n < bytes.length) :
  Framed bytes n ↔ endsFrame (looseBytes (bytes.take n) ++ [bytes[n]])
  := by
  rw [Framed, looseBytes_take_succ hn]
  split <;> simp_all

theorem concat_suffix_concat {xs ys : List UInt8} {x y : UInt8} :
  xs ++ [x] <:+ ys ++ [y] ↔ xs <:+ ys ∧ x = y
  := by
  rw [List.suffix_concat_iff]
  constructor
  · rintro (h | ⟨zs, h, hzs⟩)
    · simp at h
    · obtain ⟨rfl, h⟩ := List.append_inj' h rfl
      exact ⟨hzs, by simpa using h⟩
  · rintro ⟨h, rfl⟩
    exact .inr ⟨xs, rfl, h⟩

/-- Some bytes are loose at the end of a stream when they are there and no frame of the reading
ends among them. -/
theorem suffix_looseBytes_take {bytes : List UInt8} {n : ℕ} (hn : n ≤ bytes.length)
    (tail : List UInt8) :
  tail <:+ looseBytes (bytes.take n) ↔
    tail <:+ bytes.take n ∧ ∀ m < n, Framed bytes m → m + 1 + tail.length ≤ n
  := by
  induction n generalizing tail with
  | zero => simp [looseBytes]
  | succ n ih =>
      rw [looseBytes_take_succ hn]
      split
      · rename_i hends
        constructor
        · intro h
          obtain rfl := List.suffix_nil.mp h
          exact ⟨List.nil_suffix, fun m hm _ => hm⟩
        · rintro ⟨-, h⟩
          have hlength := h n n.lt_succ_self ((framed_iff_endsFrame hn).mpr hends)
          obtain rfl := List.length_eq_zero_iff.mp (by omega : tail.length = 0)
          apply List.nil_suffix
      · rename_i hends
        have hnot : ¬ Framed bytes n := fun h => hends ((framed_iff_endsFrame hn).mp h)
        rw [← List.take_concat_get' bytes n hn]
        cases tail using List.reverseRecOn with
        | nil => exact ⟨fun _ => ⟨List.nil_suffix, fun m hm _ => hm⟩, fun _ => List.nil_suffix⟩
        | append_singleton rest byte =>
            rw [concat_suffix_concat, concat_suffix_concat, ih (Nat.le_of_succ_le hn),
              List.length_append, List.length_singleton]
            constructor
            · rintro ⟨⟨hrest, h⟩, rfl⟩
              refine ⟨⟨hrest, rfl⟩, fun m hm hframed => ?_⟩
              have hm' : m ≠ n := by
                rintro rfl
                apply hnot hframed
              have := h m (by omega) hframed
              omega
            · rintro ⟨⟨hrest, rfl⟩, h⟩
              refine ⟨⟨hrest, fun m hm hframed => ?_⟩, rfl⟩
              have := h m (by omega) hframed
              omega

/-- The same for some bytes that end with the next one. -/
theorem suffix_looseBytes_concat {bytes : List UInt8} {n : ℕ} (hn : n < bytes.length)
    (rest : List UInt8) (last : UInt8) :
  rest ++ [last] <:+ looseBytes (bytes.take n) ++ [bytes[n]] ↔
    rest ++ [last] <:+ bytes.take (n + 1) ∧ ∀ m < n, Framed bytes m → m + 1 + rest.length ≤ n
  := by
  rw [concat_suffix_concat, suffix_looseBytes_take hn.le, ← List.take_concat_get' bytes n hn,
    concat_suffix_concat]
  tauto

theorem window_iff_suffix {bytes : List UInt8} {n : ℕ} {data : UInt8} :
  Window bytes n data ↔ n < bytes.length ∧ hostFrame data <:+ bytes.take (n + 1)
  := by
  rw [window_iff]
  constructor
  · rintro ⟨before, rest, rfl, rfl⟩
    have hlength : before.length + 4 + 1 = (before ++ hostFrame data).length := by simp [hostFrame]
    rw [hlength, List.take_left]
    constructor
    · simp [hostFrame]
    · apply List.suffix_append
  · rintro ⟨hn, before, h⟩
    use before, bytes.drop (n + 1)
    constructor
    · rw [h, List.take_append_drop]
    · have hlength := congrArg List.length h
      rw [List.length_append, length_hostFrame, List.length_take_of_le hn] at hlength
      omega

/-- A frame is loose with the next byte when it is there and no frame of the reading ends among
its first bytes. -/
theorem hostFrame_suffix_looseBytes {bytes : List UInt8} {n : ℕ} (hn : n < bytes.length)
    (data : UInt8) :
  hostFrame data <:+ looseBytes (bytes.take n) ++ [bytes[n]] ↔
    Window bytes n data ∧ ∀ m < n, Framed bytes m → m < n - 4
  := by
  have h := suffix_looseBytes_concat hn ((hostFrame data).take 4) hostProtocolTailSecond
  rw [show (hostFrame data).take 4 ++ [hostProtocolTailSecond] = hostFrame data from rfl,
    show ((hostFrame data).take 4).length = 4 from rfl] at h
  rw [h, window_iff_suffix, and_iff_right hn]
  apply and_congr_right
  intro hframe
  have hlength := hframe.length_le
  rw [length_hostFrame, List.length_take_of_le hn] at hlength
  constructor
  · intro h m hm hframed
    have := h m hm hframed
    omega
  · intro h m hm hframed
    have := h m hm hframed
    omega

/-- The frames of the reading are those that share no byte with one before. -/
theorem framed_iff {bytes : List UInt8} {n : ℕ} :
  Framed bytes n ↔ (∃ data, Window bytes n data) ∧ ∀ m < n, Framed bytes m → m < n - 4
  := by
  constructor
  · intro h
    have hn := h.1
    rw [framed_iff_endsFrame hn, endsFrame_iff] at h
    obtain ⟨data, hframe⟩ := h
    obtain ⟨hwindow, hfree⟩ := (hostFrame_suffix_looseBytes hn data).mp hframe
    exact ⟨⟨data, hwindow⟩, hfree⟩
  · rintro ⟨⟨data, hwindow⟩, h⟩
    have hn := (window_iff_suffix.mp hwindow).1
    rw [framed_iff_endsFrame hn, endsFrame_iff]
    exact ⟨data, (hostFrame_suffix_looseBytes hn data).mpr ⟨hwindow, h⟩⟩

/-! ### Frames that the parser loses -/

/-- Fed a frame, a parser that is not waiting for a command reports it, or something before its
end. -/
theorem events_hostFrame (parser : HostParser) (data : UInt8) :
  parser.state = .waitCommand
    ∨ (parser.events (hostFrame data))[4]? = some (.command data)
    ∨ ∃ k < 4, ∃ command, (parser.events (hostFrame data))[k]? = some (.command command)
  := by
  obtain ⟨state, command⟩ := parser
  cases state with
  | waitCommand => exact .inl rfl
  | waitTailSecond => exact .inr (.inr ⟨0, Nat.zero_lt_succ _, command, rfl⟩)
  | _ => exact .inr (.inl rfl)

/-- A parser that waits for the last byte of a frame and gets another one keeps nothing. -/
theorem hostProtocolBytePush_waitTailSecond {byte : UInt8} (h : byte ≠ hostProtocolTailSecond)
    (stored : UInt8) :
  hostProtocolBytePush ⟨.waitTailSecond, stored⟩ byte = (.frameError, ⟨.waitHeaderFirst, stored⟩)
  := by
  have hheader : byte ≠ hostProtocolHeaderFirst := h
  rw [hostProtocolBytePush]
  dsimp only
  rw [if_neg h, hostProtocolResync, if_neg hheader]

/-- The frame that such a byte is the data of is not reported. -/
theorem events_waitTailSecond {data : UInt8} (hdata : data ≠ hostProtocolTailSecond)
    (stored : UInt8) :
  (HostParser.mk .waitTailSecond stored).events
      [data, hostProtocolTailFirst, hostProtocolTailSecond]
    = [.frameError, .none, .none]
  := by
  rw [HostParser.events_cons, hostProtocolBytePush_waitTailSecond hdata]
  rfl

/-- Fed a header and a frame, a parser reports something before the end of the frame, or it does
not report the frame. -/
theorem events_header_hostFrame (parser : HostParser) (data command : UInt8)
    (h : (parser.events (hostHeader ++ hostFrame data))[6]? = some (.command command)) :
  ∃ k < 6, ∃ command,
    (parser.events (hostHeader ++ hostFrame data))[k]? = some (.command command)
  := by
  obtain ⟨state, stored⟩ := parser
  cases state with
  | waitCommand => exact ⟨2, by omega, hostProtocolHeaderFirst, rfl⟩
  | waitTailSecond => exact ⟨0, by omega, stored, rfl⟩
  | _ =>
      rcases eq_or_ne data hostProtocolTailSecond with rfl | hdata
      · exact ⟨4, by omega, hostProtocolHeaderFirst, rfl⟩
      · have hlost := congrArg (·[2]?) (events_waitTailSecond hdata hostProtocolHeaderFirst)
        cases hlost.symm.trans h

theorem framed_of_reported {bytes : List UInt8} {n : ℕ}
    (ih : ∀ m < n, Framed bytes m → ∃ command, Reported bytes m command)
    {command : UInt8} (h : Reported bytes n command) :
  Framed bytes n
  := by
  rw [framed_iff]
  refine ⟨⟨command, h.window⟩, fun m hm hframed => ?_⟩
  obtain ⟨command', h'⟩ := ih m hm hframed
  apply h.disjoint h' hm

/-- When the parser accepts the frames of the stream, it reports those of the reading. -/
theorem AcceptsFrames.framed {bytes : List UInt8} (h : AcceptsFrames bytes) (n : ℕ) :
  Framed bytes n ↔ ∃ command, Reported bytes n command
  := by
  induction n using Nat.strong_induction_on with
  | _ n ih =>
      constructor
      · intro hframed
        obtain ⟨⟨data, hwindow⟩, hfree⟩ := framed_iff.mp hframed
        use data
        rw [h]
        refine ⟨hwindow, fun m command hm hreported => ?_⟩
        apply hfree m hm ((ih m hm).mpr ⟨command, hreported⟩)
      · rintro ⟨command, hreported⟩
        apply framed_of_reported (fun m hm => (ih m hm).mp) hreported

theorem length_hostHeader_hostFrame (data : UInt8) : (hostHeader ++ hostFrame data).length = 7 :=
  rfl

/-- Every header before a frame of the stream shares a byte with a frame of the reading, or the
frame does. -/
theorem headersFramed_iff {bytes : List UInt8} :
  HeadersFramed bytes ↔
    ∀ before data rest, bytes = before ++ (hostHeader ++ hostFrame data) ++ rest →
      ∃ k < 6, Framed bytes (before.length + k)
  := by
  have key : ∀ n (hn : n < bytes.length) data,
      hostHeader ++ hostFrame data <:+ looseBytes (bytes.take n) ++ [bytes[n]] ↔
        hostHeader ++ hostFrame data <:+ bytes.take (n + 1)
          ∧ ∀ m < n, Framed bytes m → m + 7 ≤ n :=
    fun n hn data => suffix_looseBytes_concat hn (hostHeader ++ (hostFrame data).take 4)
      hostProtocolTailSecond
  constructor
  · rintro h before data rest hbytes
    have hn : before.length + 6 < bytes.length := by
      rw [hbytes, List.length_append, List.length_append, length_hostHeader_hostFrame]
      omega
    have hsuffix : hostHeader ++ hostFrame data <:+ bytes.take (before.length + 6 + 1) := by
      use before
      have hlength : before.length + 6 + 1 = (before ++ (hostHeader ++ hostFrame data)).length := by
        rw [List.length_append, length_hostHeader_hostFrame]
      rw [hbytes, hlength, List.take_left]
    have hloose := h (bytes.take (before.length + 6)) bytes[before.length + 6] data
      (by rw [List.take_concat_get' bytes _ hn]; apply List.take_prefix)
    rw [key _ hn] at hloose
    push Not at hloose
    obtain ⟨m, hm, hframed, hnear⟩ := hloose hsuffix
    use m - before.length
    constructor
    · omega
    · rwa [Nat.add_sub_cancel' (by omega)]
  · rintro h before byte data ⟨rest, hbytes⟩ hloose
    have hn : before.length < bytes.length := by simp [← hbytes]
    have htake : bytes.take before.length = before := by
      rw [← hbytes, List.append_assoc, List.take_left]
    have hbyte : bytes[before.length] = byte := by simp [← hbytes]
    obtain ⟨hsuffix, hfree⟩ := (key before.length hn data).mp (by rwa [htake, hbyte])
    obtain ⟨start, hstart⟩ := hsuffix
    obtain ⟨k, hk, hframed⟩ := h start data (bytes.drop (before.length + 1))
      (by rw [hstart, List.take_append_drop])
    have hlength := congrArg List.length hstart
    rw [List.length_append, length_hostHeader_hostFrame, List.length_take_of_le hn] at hlength
    have := hfree (start.length + k) (by omega) hframed
    omega

/-- Under the condition on headers, the parser reports the frames of the reading. -/
theorem HeadersFramed.framed {bytes : List UInt8} (h : HeadersFramed bytes) (n : ℕ) :
  Framed bytes n ↔ ∃ command, Reported bytes n command
  := by
  induction n using Nat.strong_induction_on with
  | _ n ih =>
      constructor
      · intro hframed
        obtain ⟨⟨data, hwindow⟩, hfree⟩ := framed_iff.mp hframed
        obtain ⟨before, rest, hbytes, rfl⟩ := window_iff.mp hwindow
        have hevent : ∀ k < 5, (hostProtocolParserReset.events bytes)[before.length + k]?
            = ((hostProtocolParserReset.after before).events (hostFrame data))[k]? := by
          intro k hk
          rw [hbytes]
          apply events_getElem?_append _ before (hostFrame data) k hk rest
        rcases events_hostFrame (hostProtocolParserReset.after before) data with
          hstate | hreport | ⟨k, hk, command, hreport⟩
        · -- The parser takes the first byte of the frame for the data of a frame before it.
          exfalso
          have hseen : (hostProtocolParserReset.after before).seen = hostHeader := by
            rw [HostParser.seen, hstate]
            rfl
          obtain ⟨start, hstart⟩ := seen_after before
          rw [hseen] at hstart
          obtain ⟨k, hk, hframed'⟩ := headersFramed_iff.mp h start data rest
            (by rw [hbytes, ← hstart, List.append_assoc start])
          have hlength : start.length + 2 = before.length := by
            rw [← hstart, List.length_append]
            rfl
          have hdisjoint := hfree _ (by omega) hframed'
          obtain ⟨command, hreported⟩ := (ih _ (by omega)).mp hframed'
          have hlate := hreported.length_seen (by omega : start.length + k < before.length)
            (by rw [hbytes, List.append_assoc, List.length_append]; omega)
          rw [hbytes, List.append_assoc, List.take_left, hseen] at hlate
          simp only [hostHeader, List.length_cons, List.length_nil] at hlate
          omega
        · exact ⟨data, (hevent 4 (by omega)).trans hreport⟩
        · exfalso
          have hreported : Reported bytes (before.length + k) command :=
            (hevent k (by omega)).trans hreport
          have := hfree _ (by omega) ((ih _ (by omega)).mpr ⟨command, hreported⟩)
          omega
      · rintro ⟨command, hreported⟩
        apply framed_of_reported (fun m hm => (ih m hm).mp) hreported

/-- The parser accepts the frames of a stream exactly when no frame of its reading from the left
comes directly after a loose header. -/
theorem acceptsFrames_iff (bytes : List UInt8) :
  AcceptsFrames bytes ↔ HeadersFramed bytes
  := by
  constructor
  · intro h
    rw [headersFramed_iff]
    intro before data rest hbytes
    by_contra hno
    push Not at hno
    have hevent : ∀ k < 7, (hostProtocolParserReset.events bytes)[before.length + k]?
        = ((hostProtocolParserReset.after before).events (hostHeader ++ hostFrame data))[k]? := by
      intro k hk
      rw [hbytes]
      apply events_getElem?_append _ before (hostHeader ++ hostFrame data) k hk rest
    have hreport : Reported bytes (before.length + 6) data := by
      rw [h, window_iff]
      constructor
      · use before ++ hostHeader, rest
        constructor
        · rw [hbytes, ← List.append_assoc before]
        · rw [List.length_append]
          rfl
      · intro m command hm hreported
        have hm' : m < before.length := by
          by_contra hge
          apply hno (m - before.length) (by omega)
          rw [Nat.add_sub_cancel' (by omega), h.framed]
          exact ⟨command, hreported⟩
        omega
    obtain ⟨k, hk, command, hearlier⟩ := events_header_hostFrame
      (hostProtocolParserReset.after before) data data
      ((hevent 6 (by omega)).symm.trans hreport)
    apply hno k hk
    rw [h.framed]
    exact ⟨command, (hevent k (by omega)).trans hearlier⟩
  · intro h n command
    constructor
    · intro hreported
      exact ⟨hreported.window, fun m command' hm h' => hreported.disjoint h' hm⟩
    · rintro ⟨hwindow, hfree⟩
      have hframed : Framed bytes n := by
        rw [framed_iff]
        refine ⟨⟨command, hwindow⟩, fun m hm hframed => ?_⟩
        obtain ⟨command', hreported⟩ := (h.framed m).mp hframed
        apply hfree m command' hm hreported
      obtain ⟨command', hreported⟩ := (h.framed n).mp hframed
      rwa [hwindow.unique hreported.window]

/-- A frame after a header that was cut off is lost. -/
theorem not_acceptsFrames_header_hostFrame :
  ¬ AcceptsFrames (hostHeader ++ hostFrame 0x01)
  := by
  have hevents : hostProtocolParserReset.events (hostHeader ++ hostFrame 0x01)
      = [.none, .none, .none, .none, .frameError, .none, .none] := rfl
  have hnone : ∀ n command, ¬ Reported (hostHeader ++ hostFrame 0x01) n command := by
    intro n command h
    have hmem := List.mem_of_getElem? h
    rw [hevents] at hmem
    simp at hmem
  intro h
  apply hnone 6 0x01
  rw [h]
  exact ⟨by decide, fun m command _ hreported => absurd hreported (hnone m command)⟩

/-! ### Getting back in step -/

/-- The parser does not wait for the data or the last byte of a frame. -/
def HostParser.InStep (parser : HostParser) : Prop :=
  parser.state ≠ .waitCommand ∧ parser.state ≠ .waitTailSecond

theorem inStep_hostProtocolParserReset : hostProtocolParserReset.InStep :=
  ⟨by rintro ⟨⟩, by rintro ⟨⟩⟩

/-- Whatever the parser was fed before, a frame brings it in step with the next one. -/
theorem inStep_after_hostFrame (parser : HostParser) (data : UInt8) :
  (parser.after (hostFrame data)).InStep
  := by
  obtain ⟨state, stored⟩ := parser
  rcases eq_or_ne data hostProtocolTailSecond with rfl | hdata
  · cases state with
    | _ => exact ⟨by rintro ⟨⟩, by rintro ⟨⟩⟩
  · cases state with
    | waitCommand =>
        have hafter : (HostParser.mk .waitCommand stored).after (hostFrame data)
            = (hostProtocolBytePush ⟨.waitTailSecond, hostProtocolHeaderFirst⟩ data).2.after
              [hostProtocolTailFirst, hostProtocolTailSecond] := rfl
        rw [hafter, hostProtocolBytePush_waitTailSecond hdata]
        exact ⟨by rintro ⟨⟩, by rintro ⟨⟩⟩
    | waitTailSecond =>
        have hafter : (HostParser.mk .waitTailSecond stored).after (hostFrame data)
            = (hostProtocolBytePush hostProtocolParserReset data).2.after
              [hostProtocolTailFirst, hostProtocolTailSecond] := rfl
        have hpush : hostProtocolBytePush hostProtocolParserReset data
            = (.none, hostProtocolParserReset) := if_neg hdata
        rw [hafter, hpush]
        exact ⟨by rintro ⟨⟩, by rintro ⟨⟩⟩
    | _ => exact ⟨by rintro ⟨⟩, by rintro ⟨⟩⟩

/-- In step, the parser reports a frame with its last byte and nothing before, and is reset. -/
theorem HostParser.InStep.frame {parser : HostParser} (h : parser.InStep) (data : UInt8) :
  (∀ k < 5, ∀ command, (parser.events (hostFrame data))[k]? = some (.command command) ↔
      k = 4 ∧ data = command)
    ∧ parser.after (hostFrame data) = hostProtocolParserReset
  := by
  have hevents : ∃ first, (∀ command, first ≠ .command command) ∧
      parser.events (hostFrame data) = [first, .none, .none, .none, .command data] := by
    obtain ⟨state, stored⟩ := parser
    cases state with
    | waitCommand => exact absurd rfl h.1
    | waitTailSecond => exact absurd rfl h.2
    | waitTailFirst => exact ⟨.frameError, by rintro command ⟨⟩, rfl⟩
    | _ => exact ⟨.none, by rintro command ⟨⟩, rfl⟩
  obtain ⟨first, hfirst, hevents⟩ := hevents
  constructor
  · intro k hk command
    rw [hevents]
    interval_cases k <;> simp [hfirst]
  · obtain ⟨state, stored⟩ := parser
    cases state with
    | waitCommand => exact absurd rfl h.1
    | waitTailSecond => exact absurd rfl h.2
    | _ => rfl

/-- In step, the parser reports the frames of a list one after the other, each with its last
byte. -/
theorem HostParser.InStep.frames {parser : HostParser} (h : parser.InStep)
    (commands : List UInt8) (k : ℕ) (command : UInt8) :
  (parser.events (commands.flatMap hostFrame))[k]? = some (.command command) ↔
    k % hostProtocolFrameSize = 4 ∧ commands[k / hostProtocolFrameSize]? = some command
  := by
  rw [hostProtocolFrameSize]
  induction commands generalizing parser k with
  | nil => simp
  | cons first commands ih =>
      obtain ⟨hframe, hreset⟩ := h.frame first
      have hlength : (parser.events (hostFrame first)).length = 5 := by
        rw [length_events, length_hostFrame]
      rw [List.flatMap_cons, HostParser.events_append, hreset]
      rcases Nat.lt_or_ge k 5 with hk | hk
      · rw [List.getElem?_append_left (hlength ▸ hk), hframe k hk, Nat.mod_eq_of_lt hk,
          Nat.div_eq_of_lt hk]
        simp
      · obtain ⟨j, rfl⟩ := Nat.exists_eq_add_of_le' hk
        rw [List.getElem?_append_right (hlength ▸ hk), hlength, Nat.add_sub_cancel,
          ih inStep_hostProtocolParserReset, Nat.add_mod_right, Nat.add_div_right j (by omega),
          List.getElem?_cons_succ]

/-- The parser is reset after some frames. -/
theorem HostParser.InStep.after_frames {parser : HostParser} (h : parser.InStep)
    {commands : List UInt8} (hcommands : commands ≠ []) :
  parser.after (commands.flatMap hostFrame) = hostProtocolParserReset
  := by
  induction commands using List.reverseRecOn with
  | nil => contradiction
  | append_singleton commands last ih =>
      rw [List.flatMap_append, HostParser.after_append, List.flatMap_singleton]
      rcases eq_or_ne commands [] with rfl | hne
      · exact (h.frame last).2
      · rw [ih hne]
        exact (inStep_hostProtocolParserReset.frame last).2

/-- Whatever was sent before two frames and more, the parser is reset after them and reports every
one of them but perhaps the first with its last byte, and nothing else there. -/
theorem parser_synchronises (before : List UInt8) (first second : UInt8) (commands : List UInt8) :
  hostProtocolParserReset.after
      (before ++ hostFrame first ++ (second :: commands).flatMap hostFrame)
      = hostProtocolParserReset
    ∧ ∀ k command,
      Reported (before ++ hostFrame first ++ (second :: commands).flatMap hostFrame)
          (before.length + hostProtocolFrameSize + k) command ↔
        k % hostProtocolFrameSize = 4 ∧
          (second :: commands)[k / hostProtocolFrameSize]? = some command
  := by
  have hstep : (hostProtocolParserReset.after (before ++ hostFrame first)).InStep := by
    rw [HostParser.after_append]
    apply inStep_after_hostFrame
  constructor
  · rw [HostParser.after_append]
    apply hstep.after_frames (List.cons_ne_nil _ _)
  · intro k command
    have hlength : before.length + hostProtocolFrameSize
        = (hostProtocolParserReset.events (before ++ hostFrame first)).length := by
      rw [HostParser.length_events, List.length_append, length_hostFrame]
      rfl
    rw [Reported, HostParser.events_append, hlength,
      List.getElem?_append_right (Nat.le_add_right _ _), Nat.add_sub_cancel_left]
    apply hstep.frames

end EthercatMaster
