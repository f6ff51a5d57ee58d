import EthercatMaster.Library.BoundedQueue
import EthercatMaster.Soem.Frames

/-!
# The receive queue

The ring of received frames, from the opening of the port on, is a queue of eight frames that drops
its oldest frame when a new one comes and it is full.
-/

namespace EthercatMaster

open BoundedQueue

/-- A call of the functions of the ring. -/
inductive QueueCall where
  | push (pBuffer : Option Bytes) (length : ℕ)
  | pop

/-- What a call is for a queue of frames: a frame that is missing or too long is skipped. -/
def QueueCall.op : QueueCall → Op (List UInt8)
  | push none _ => .skip
  | push (some buffer) length =>
      if ethercatRxFrameBytes < length then .skip else .push (buffer.take length)
  | pop => .pop

namespace RxQueue

/-- The port after a call. -/
def step (p : Port) : QueueCall → Port
  | .push pBuffer length => ethercatRxQueuePush pBuffer length p
  | .pop => (ethercatRxQueuePop p).elim p Prod.snd

/-- The port from its opening on. -/
def machine (p : Port) : Machine Port QueueCall :=
  ⟨(ecxSetupnic false true p).2, step⟩

/-- The frame that the call at a position returns. -/
def returned (p : Port) (es : List QueueCall) (i : ℕ) : Option RxFrame :=
  match es[i]? with
  | some .pop => (ethercatRxQueuePop ((machine p).before es i)).map Prod.fst
  | _ => none

/-- Opening the port empties the ring. -/
theorem frames_init (p : Port) :
  (machine p).init.frames = []
  := by
  have hadd : (!p.callbackAdded && !true) = false := by rw [Bool.not_true, Bool.and_false]
  rw [machine, ecxSetupnic, if_neg (by decide), hadd, if_neg (by decide)]
  rfl

/-- A call does to the frames of the ring what it is for a queue. -/
theorem frames_step (p : Port) (e : QueueCall) :
  (step p e).frames = BoundedQueue.step ethercatRxQueueSize p.frames e.op
  := by
  cases e with
  | push pBuffer length =>
      cases pBuffer with
      | none => rfl
      | some buffer =>
          rw [step, QueueCall.op]
          split
          · rename_i hlong
            rw [ethercatRxQueuePush, if_pos hlong]
            rfl
          · rename_i hlong
            apply frames_ethercatRxQueuePush buffer (not_lt.mp hlong)
  | pop =>
      rw [step]
      cases hframes : p.frames with
      | nil =>
          rw [ethercatRxQueuePop_of_nil hframes]
          apply hframes
      | cons frame frames =>
          obtain ⟨slot, rxQueue, hpop, -, hrest⟩ := ethercatRxQueuePop_of_cons hframes
          rw [hpop]
          apply hrest

/-- The frames of the ring are those of the queue. -/
theorem frames_before (p : Port) (es : List QueueCall) (i : ℕ) :
  ((machine p).before es i).frames
    = (BoundedQueue.machine ethercatRxQueueSize).before (es.map QueueCall.op) i
  := Machine.map_before _ _ (frames_init p) frames_step es i

/-- A pop returns the oldest frame. -/
theorem ethercatRxQueuePop_bytes (p : Port) :
  (ethercatRxQueuePop p).map (fun result => result.1.bytes) = p.frames.head?
  := by
  cases hframes : p.frames with
  | nil =>
      rw [ethercatRxQueuePop_of_nil hframes]
      rfl
  | cons frame frames =>
      obtain ⟨slot, rxQueue, hpop, hslot, -⟩ := ethercatRxQueuePop_of_cons hframes
      rw [hpop, ← hslot]
      rfl

/-- A call returns what the operation of the queue returns. -/
theorem returned_eq_popped (p : Port) (es : List QueueCall) (i : ℕ) :
  (returned p es i).map RxFrame.bytes
    = popped ethercatRxQueueSize (es.map QueueCall.op) i
  := by
  rw [returned, popped, List.getElem?_map]
  cases es[i]? with
  | none => rfl
  | some e =>
      cases e with
      | push pBuffer length =>
          cases pBuffer with
          | none => rfl
          | some buffer =>
              rw [Option.map_some, QueueCall.op]
              by_cases hlong : ethercatRxFrameBytes < length
              · rw [if_pos hlong]
                rfl
              · rw [if_neg hlong]
                rfl
      | pop =>
          rw [Option.map_some, QueueCall.op]
          dsimp only
          rw [Option.map_map, ← frames_before p]
          apply ethercatRxQueuePop_bytes

/-- The pops return what a queue of eight frames returns, which are the frames pushed, in their
order, with none lost but for eight newer ones, and the counters of the ring agree. -/
theorem returned_fifo (p : Port) (es : List QueueCall) :
  (∀ i, (returned p es i).map RxFrame.bytes
      = popped ethercatRxQueueSize (es.map QueueCall.op) i)
    ∧ (∀ i frame, (returned p es i).map RxFrame.bytes = some frame
      ↔ ∃ j, served ethercatRxQueueSize (es.map QueueCall.op) i = some j
        ∧ (es.map QueueCall.op)[j]? = some (.push frame))
    ∧ InOrder ethercatRxQueueSize (es.map QueueCall.op)
      (served ethercatRxQueueSize (es.map QueueCall.op))
    ∧ ∀ i, ((machine p).before es i).rxQueue.count ≤ 8
      ∧ (((machine p).before es i).rxQueue.tail + ((machine p).before es i).rxQueue.count) % 8
        = ((machine p).before es i).rxQueue.head
  := by
  refine ⟨returned_eq_popped p es, ?_, inOrder _ _, ?_⟩
  · intro i frame
    rw [returned_eq_popped]
    apply popped_eq_served
  · intro i
    exact ⟨((machine p).before es i).rxQueue.count_le,
      ((machine p).before es i).rxQueue.head_eq.symm⟩

end RxQueue

end EthercatMaster
