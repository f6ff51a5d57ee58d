import EthercatMaster.Library.BoundedQueue
import Mathlib.Data.UInt
import Mathlib.Tactic.Common

/-!
# The list of errors

Errors of the slaves are pushed on a ring, and popped by who looks for them.  The ring is a queue of
64 errors that drops its oldest error when a new one comes and it is full, and `EcatError` is false
only if no error waits in it.
-/

namespace EthercatMaster

open RingBuffer

/-- `EC_MAXELIST`. -/
def ecMaxelist : ℕ := 64

/-- `ec_err_type`. -/
inductive EcErrType where
  | sdoError
  | emergency
  | packetError
  | sdoinfoError
  | foeError
  | foeBuf2small
  | foePacketnumber
  | soeError
  | mbxError
  | foeFileNotfound
  | eoeInvalidRxData
deriving DecidableEq, Repr

/-- `ec_errort`. -/
structure EcErrort where
  /-- seconds and microseconds -/
  Time : UInt32 × UInt32
  Signal : Bool
  Slave : UInt16
  Index : UInt16
  SubIdx : UInt8
  Etype : EcErrType
  ErrorCode : UInt16
  ErrorReg : UInt8
  b1 : UInt8
  w1 : UInt16
  w2 : UInt16
deriving DecidableEq, Repr

/-- The error that is all zero. -/
def EcErrort.zero : EcErrort :=
  ⟨(0, 0), false, 0, 0, 0, .sdoError, 0, 0, 0, 0, 0⟩

/-- An abort code lies where the error code, the error register and `b1` are. -/
def EcErrort.setAbortCode (AbortCode : UInt32) (Ec : EcErrort) : EcErrort :=
  { Ec with
    ErrorCode := AbortCode.toUInt16
    ErrorReg := (AbortCode >>> 16).toUInt8
    b1 := (AbortCode >>> 24).toUInt8 }

/-- `ec_eringt`. -/
structure EcEringt where
  head : ℕ
  tail : ℕ
  Error : ℕ → EcErrort
  head_le : head ≤ ecMaxelist
  tail_le : tail ≤ ecMaxelist

/-- `elist` and `ecaterror` of the context. -/
structure ErrorList where
  elist : EcEringt
  ecaterror : Bool

/-- A position that is past the end starts again. -/
def ringWrap (n : ℕ) : ℕ :=
  if ecMaxelist < n then 0 else n

theorem ringWrap_le (n : ℕ) :
  ringWrap n ≤ ecMaxelist
  := by
  rw [ringWrap]
  split
  · exact Nat.zero_le _
  · omega

namespace ErrorList

/-- The ring is empty, and there is no error. -/
def init : ErrorList where
  elist :=
    { head := 0
      tail := 0
      Error := fun _ => .zero
      head_le := Nat.zero_le _
      tail_le := Nat.zero_le _ }
  ecaterror := false

/-- `ecx_pusherror`. -/
def pusherror (Ec : EcErrort) (x : ErrorList) : ErrorList where
  elist :=
    { head := ringWrap (x.elist.head + 1)
      tail := ringWrap
        (if ringWrap (x.elist.head + 1) = x.elist.tail then x.elist.tail + 1 else x.elist.tail)
      Error := Function.update x.elist.Error x.elist.head { Ec with Signal := true }
      head_le := ringWrap_le _
      tail_le := ringWrap_le _ }
  ecaterror := true

/-- `ecx_iserror`. -/
def iserror (x : ErrorList) : Bool :=
  x.elist.head ≠ x.elist.tail

/-- `ecx_poperror`: whether there was an error, and what is copied. -/
def poperror (x : ErrorList) : (Bool × EcErrort) × ErrorList :=
  let Ec := x.elist.Error x.elist.tail
  let Error := Function.update x.elist.Error x.elist.tail { Ec with Signal := false }
  if x.iserror then
    ((true, Ec),
      { x with elist := { x.elist with
        Error := Error
        tail := ringWrap (x.elist.tail + 1)
        tail_le := ringWrap_le _ } })
  else ((false, Ec), { elist := { x.elist with Error := Error }, ecaterror := false })

/-! ### Reports -/

/-- `ecx_packeterror`. -/
def packeterror (Time : UInt32 × UInt32) (Slave Index : UInt16) (SubIdx : UInt8)
    (ErrorCode : UInt16) (x : ErrorList) : ErrorList :=
  x.pusherror
    { EcErrort.zero with
      Time := Time
      Slave := Slave
      Index := Index
      SubIdx := SubIdx
      Etype := .packetError
      ErrorCode := ErrorCode }

/-- `ecx_SDOerror`. -/
def sdoError (Time : UInt32 × UInt32) (Slave Index : UInt16) (SubIdx : UInt8)
    (AbortCode : UInt32) (x : ErrorList) : ErrorList :=
  x.pusherror
    ({ EcErrort.zero with
      Time := Time
      Slave := Slave
      Index := Index
      SubIdx := SubIdx
      Etype := .sdoError } |>.setAbortCode AbortCode)

/-- `ecx_mbxerror`. -/
def mbxerror (Time : UInt32 × UInt32) (Slave Detail : UInt16) (x : ErrorList) : ErrorList :=
  x.pusherror
    { EcErrort.zero with
      Time := Time
      Slave := Slave
      Etype := .mbxError
      ErrorCode := Detail }

/-- `ecx_mbxemergencyerror`. -/
def mbxemergencyerror (Time : UInt32 × UInt32) (Slave ErrorCode ErrorReg : UInt16) (b1 : UInt8)
    (w1 w2 : UInt16) (x : ErrorList) : ErrorList :=
  x.pusherror
    { EcErrort.zero with
      Time := Time
      Slave := Slave
      Etype := .emergency
      ErrorCode := ErrorCode
      ErrorReg := ErrorReg.toUInt8
      b1 := b1
      w1 := w1
      w2 := w2 }

end ErrorList

/-! ### The ring -/

namespace EcEringt

variable {r : EcEringt}

/-- The number of errors in the ring. -/
def count (r : EcEringt) : ℕ :=
  if r.tail ≤ r.head then r.head - r.tail else r.head + 65 - r.tail

/-- The ring with its count. -/
def toRing (r : EcEringt) : RingBuffer 65 EcErrort where
  slots := r.Error
  head := r.head
  tail := r.tail
  count := r.count
  tail_lt := Nat.lt_succ_of_le r.tail_le
  count_le := by
    have hhead := r.head_le
    rw [ecMaxelist] at hhead
    rw [count]
    split
    · omega
    · omega
  head_eq := by
    have hhead := r.head_le
    have htail := r.tail_le
    rw [ecMaxelist] at hhead htail
    rw [count]
    split
    · omega
    · omega

/-- The errors in the ring, from the oldest one. -/
def contents (r : EcEringt) : List EcErrort :=
  r.toRing.contents

/-- One slot is always empty. -/
theorem count_le (r : EcEringt) :
  r.count ≤ ecMaxelist
  := by
  have hhead := r.head_le
  rw [ecMaxelist] at hhead ⊢
  rw [count]
  split
  · omega
  · omega

theorem length_contents (r : EcEringt) :
  r.contents.length = r.count
  := RingBuffer.length_contents _

/-- The ring is empty if the head is the tail. -/
theorem contents_eq_nil :
  r.contents = [] ↔ r.head = r.tail
  := by
  have hhead := r.head_le
  have htail := r.tail_le
  rw [ecMaxelist] at hhead htail
  rw [← List.length_eq_zero_iff, length_contents, count]
  split
  · omega
  · omega

end EcEringt

namespace ErrorList

variable {x : ErrorList}

/-- The error is put at the head, and then the oldest one is dropped if all slots are full. -/
theorem contents_push_eq (Ec : EcErrort) (x : ErrorList) (h : x.elist.toRing.count < 65) :
  (x.pusherror Ec).elist.contents
    = (x.elist.toRing.put { Ec with Signal := true } h).makeRoom.contents
  := by
  have hhead := x.elist.head_le
  have htail := x.elist.tail_le
  have hcount : x.elist.toRing.count = x.elist.count := rfl
  have htail' : (x.pusherror Ec).elist.tail = ringWrap
      (if ringWrap (x.elist.head + 1) = x.elist.tail then x.elist.tail + 1 else x.elist.tail) := rfl
  have hhead' : (x.pusherror Ec).elist.head = ringWrap (x.elist.head + 1) := rfl
  rw [ecMaxelist] at hhead htail
  rw [hcount] at h
  have hfull : 65 ≤ x.elist.count + 1 ↔ ringWrap (x.elist.head + 1) = x.elist.tail := by
    rw [EcEringt.count, ringWrap, ecMaxelist]
    split
    · split
      · omega
      · omega
    · split
      · omega
      · omega
  have hnext : ∀ n ≤ 64, ringWrap (n + 1) = (n + 1) % 65 := by
    intro n hn
    rw [ringWrap, ecMaxelist]
    split
    · omega
    · omega
  have hself : ∀ n ≤ 64, ringWrap n = n := fun n hn => if_neg (Nat.not_lt.mpr hn)
  rw [hnext _ hhead] at htail' hhead' hfull
  rw [RingBuffer.makeRoom]
  split
  case isTrue hroom =>
    have hroom' : 65 ≤ x.elist.count + 1 := hroom
    rw [if_pos (hfull.mp hroom'), hnext _ htail] at htail'
    have hlength : (x.pusherror Ec).elist.count = x.elist.count + 1 - 1 := by
      have hwrap := hfull.mp hroom'
      rw [EcEringt.count, htail', hhead', EcEringt.count]
      split
      · split
        · omega
        · omega
      · split
        · omega
        · omega
    change (List.range (x.pusherror Ec).elist.count).map
      (fun k => (x.pusherror Ec).elist.Error (((x.pusherror Ec).elist.tail + k) % 65)) = _
    rw [hlength, htail']
    rfl
  case isFalse hroom =>
    have hroom' : ¬ 65 ≤ x.elist.count + 1 := hroom
    have hwrap := (not_congr hfull).mp hroom'
    rw [if_neg hwrap, hself _ htail] at htail'
    have hlength : (x.pusherror Ec).elist.count = x.elist.count + 1 := by
      rw [EcEringt.count, htail', hhead', EcEringt.count]
      split
      · split
        · omega
        · omega
      · split
        · omega
        · omega
    change (List.range (x.pusherror Ec).elist.count).map
      (fun k => (x.pusherror Ec).elist.Error (((x.pusherror Ec).elist.tail + k) % 65)) = _
    rw [hlength, htail']
    rfl

/-- A push is a push on a queue of 64 errors: the element is put first, and then the oldest one is
dropped if all slots are full. -/
theorem contents_pusherror (Ec : EcErrort) (x : ErrorList) :
  (x.pusherror Ec).elist.contents
    = boundedPush ecMaxelist x.elist.contents { Ec with Signal := true }
  := by
  have hcount := x.elist.count_le
  rw [ecMaxelist] at hcount
  have hput : (x.elist.toRing.put { Ec with Signal := true } (Nat.lt_succ_of_le hcount)).contents
      = x.elist.contents ++ [{ Ec with Signal := true }] :=
    RingBuffer.contents_put ..
  rw [contents_push_eq Ec x (Nat.lt_succ_of_le hcount), RingBuffer.contents_makeRoom, hput,
    boundedPush, List.length_append, List.length_singleton, EcEringt.length_contents, ecMaxelist]
  by_cases hfull : 64 ≤ x.elist.count
  · have hne : x.elist.contents ≠ [] := by
      rw [← List.length_pos_iff, EcEringt.length_contents]
      omega
    rw [if_pos hfull, if_pos (by omega), List.tail_append_of_ne_nil hne]
  · rw [if_neg hfull, if_neg (by omega)]

theorem iserror_iff (x : ErrorList) :
  x.iserror = true ↔ x.elist.contents ≠ []
  := by
  rw [iserror, decide_eq_true_eq, not_iff_not]
  exact EcEringt.contents_eq_nil.symm

/-- A pop takes the oldest error, if there is one. -/
theorem contents_poperror (x : ErrorList) :
  x.poperror.2.elist.contents = x.elist.contents.tail
    ∧ (if x.poperror.1.1 then some x.poperror.1.2 else none) = x.elist.contents.head?
  := by
  have hhead := x.elist.head_le
  have htail := x.elist.tail_le
  rw [ecMaxelist] at hhead htail
  by_cases hempty : x.iserror = true
  · have hlength := (iserror_iff x).mp hempty
    rw [← List.length_pos_iff, EcEringt.length_contents] at hlength
    have hcons := x.elist.toRing.contents_eq_cons hlength
    change x.elist.contents = _ at hcons
    have hhead' : x.poperror.2.elist.head = x.elist.head := by
      rw [poperror, if_pos hempty]
    have htail' : x.poperror.2.elist.tail = (x.elist.tail + 1) % 65 := by
      rw [poperror, if_pos hempty]
      change ringWrap (x.elist.tail + 1) = _
      rw [ringWrap, ecMaxelist]
      split
      · omega
      · omega
    have hError : ∀ k, k ≠ x.elist.tail → x.poperror.2.elist.Error k = x.elist.Error k := by
      intro k hk
      rw [poperror, if_pos hempty]
      apply Function.update_of_ne hk
    have hcount : x.poperror.2.elist.count = x.elist.count - 1 := by
      rw [EcEringt.count, EcEringt.count, hhead', htail']
      rw [EcEringt.count] at hlength
      split at hlength
      · split
        · omega
        · omega
      · split
        · omega
        · omega
    refine ⟨?_, ?_⟩
    · rw [hcons, List.tail_cons]
      change (List.range x.poperror.2.elist.count).map (fun k =>
        x.poperror.2.elist.Error ((x.poperror.2.elist.tail + k) % 65)) = _
      rw [hcount, htail']
      apply List.map_congr_left
      intro k hk
      have hlt := List.mem_range.mp hk
      have hle := x.elist.count_le
      rw [ecMaxelist] at hle
      apply hError
      omega
    · rw [poperror, if_pos hempty, hcons]
      rfl
  · have hnil := not_not.mp ((not_congr (iserror_iff x)).mp hempty)
    have hsame := EcEringt.contents_eq_nil.mp hnil
    rw [poperror, if_neg hempty, hnil]
    refine ⟨?_, rfl⟩
    exact EcEringt.contents_eq_nil.mpr hsame

/-! ### Runs -/

/-- A call of the functions of the list. -/
inductive Call where
  | push (Ec : EcErrort)
  | pop
  | check

/-- What a call is for a queue of errors. -/
def Call.op : Call → BoundedQueue.Op EcErrort
  | push Ec => .push { Ec with Signal := true }
  | pop => .pop
  | check => .skip

/-- The list after a call. -/
def step (x : ErrorList) : Call → ErrorList
  | .push Ec => x.pusherror Ec
  | .pop => x.poperror.2
  | .check => x

/-- The list from its start on. -/
def machine : Machine ErrorList Call :=
  ⟨init, step⟩

/-- The error that the call at a position pops. -/
def popped (es : List Call) (i : ℕ) : Option EcErrort :=
  match es[i]? with
  | some .pop =>
      let result := (machine.before es i).poperror.1
      if result.1 then some result.2 else none
  | _ => none

/-- A call does to the errors what it is for a queue. -/
theorem contents_step (x : ErrorList) (e : Call) :
  (step x e).elist.contents = BoundedQueue.step ecMaxelist x.elist.contents e.op
  := by
  cases e with
  | push Ec => apply contents_pusherror
  | pop => apply (contents_poperror x).1
  | check => rfl

theorem contents_before (es : List Call) (i : ℕ) :
  (machine.before es i).elist.contents
    = (BoundedQueue.machine ecMaxelist).before (es.map Call.op) i
  := Machine.map_before _ _ (f := fun x : ErrorList => x.elist.contents) rfl contents_step es i

/-- A call pops what the operation of the queue returns. -/
theorem popped_eq (es : List Call) (i : ℕ) :
  popped es i = BoundedQueue.popped ecMaxelist (es.map Call.op) i
  := by
  rw [popped, BoundedQueue.popped, List.getElem?_map]
  cases es[i]? with
  | none => rfl
  | some e =>
      cases e with
      | push Ec => rfl
      | check => rfl
      | pop =>
          rw [Option.map_some, Call.op]
          dsimp only
          rw [← contents_before]
          apply (contents_poperror _).2

/-- As long as an error waits, `EcatError` is set. -/
theorem ecaterror_of_waiting (es : List Call) (i : ℕ)
    (h : (machine.before es i).elist.contents ≠ []) :
  (machine.before es i).ecaterror = true
  := by
  revert h
  apply machine.invariant_before (P := fun x : ErrorList =>
    x.elist.contents ≠ [] → x.ecaterror = true)
  · intro h
    exact absurd rfl h
  · intro x e ih h
    cases e with
    | push Ec => rfl
    | check => exact ih h
    | pop =>
        change (x.poperror.2).ecaterror = true
        have hne : x.elist.contents ≠ [] := by
          rintro hnil
          apply h
          refine (contents_step x .pop).trans ?_
          rw [hnil]
          rfl
        rw [poperror, if_pos ((iserror_iff x).mpr hne)]
        exact ih hne

/-- The errors are popped in the order in which they were pushed, each once and marked by `Signal`,
and none is lost but for 64 newer ones; a check tells whether one waits, and `EcatError` is false
only if none does. -/
theorem popped_fifo (es : List Call) :
  (∀ i Ec, popped es i = some Ec
      ↔ ∃ j, BoundedQueue.served ecMaxelist (es.map Call.op) i = some j
        ∧ (es.map Call.op)[j]? = some (.push Ec))
    ∧ BoundedQueue.InOrder ecMaxelist (es.map Call.op)
      (BoundedQueue.served ecMaxelist (es.map Call.op))
    ∧ ∀ i, ((machine.before es i).iserror = true
        ↔ (BoundedQueue.machine ecMaxelist).before (es.map Call.op) i ≠ [])
      ∧ ((machine.before es i).ecaterror = false →
        (machine.before es i).iserror = false)
  := by
  refine ⟨?_, BoundedQueue.inOrder _ _, ?_⟩
  · intro i Ec
    rw [popped_eq]
    apply BoundedQueue.popped_eq_served
  · intro i
    refine ⟨?_, ?_⟩
    · rw [iserror_iff, contents_before]
    · intro hflag
      rw [Bool.eq_false_iff]
      intro hwaits
      have hset := ecaterror_of_waiting es i ((iserror_iff _).mp hwaits)
      rw [hflag] at hset
      exact Bool.false_ne_true hset

end ErrorList

end EthercatMaster
