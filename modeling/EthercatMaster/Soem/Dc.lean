import EthercatMaster.Soem.Topology
import Mathlib.Data.List.Basic

/-!
# Distributed clocks

`ec_configdc` latches the time at which a frame passes each port of each slave, links the slaves
with a distributed clock into a list, and computes from the latched times how long the frame takes
from the first of them to each other one.
-/

namespace EthercatMaster

/-- `ec_slavet`: what `ec_configdc` reads and writes of a slave. -/
structure DcSlave where
  hasdc : Bool
  group : ℕ
  topology : UInt8
  activeports : UInt8
  parent : ℕ
  consumedports : UInt8
  /-- `DCrtA` to `DCrtD` -/
  DCrt : ℕ → Int32
  entryport : ℕ
  parentport : ℕ
  pdelay : Int32
  DCnext : ℕ
  DCprevious : ℕ

/-- What is read from the registers of the slaves, if the reply arrives: the latched times of the
ports, and the 64-bit time of the first one. -/
structure DcBus where
  dcTime : ℕ → ℕ → Option Int32
  dcSof : ℕ → Option UInt64

/-- What is written to a register of a slave: the system time offset or the propagation delay. -/
inductive DcWrite where
  | sysOffset (slave : ℕ) (time : UInt64)
  | sysDelay (slave : ℕ) (delay : Int32)
deriving DecidableEq, Repr

/-- The slave list, the groups, and the variables of `ec_configdc`. -/
structure DcContext where
  slave : ℕ → DcSlave
  groupHasdc : ℕ → Bool
  groupDCnext : ℕ → ℕ
  parenthold : ℕ
  prevDCslave : ℕ
  ht : Int32
  hrt : UInt64
  written : List DcWrite

/-! ### Ports -/

/-- The first port of an order that is active. -/
def firstActive (ports : UInt8) (order : List ℕ) : Option ℕ :=
  order.find? (fun port => ports &&& portBit port ≠ 0)

/-- `ecx_prevport`. -/
def ecxPrevport (activeports : UInt8) (port : ℕ) : ℕ :=
  match port with
  | 0 => (firstActive activeports [2, 1, 3]).getD port
  | 1 => (firstActive activeports [3, 0, 2]).getD port
  | 2 => (firstActive activeports [1, 3, 0]).getD port
  | 3 => (firstActive activeports [0, 2, 1]).getD port
  | _ => port

/-- `ecx_parentport`: the first port that is not consumed, and what is left. -/
def ecxParentport (consumedports : UInt8) : ℕ × UInt8 :=
  match firstActive consumedports [3, 1, 2, 0] with
  | some port => (port, consumedports &&& ~~~ portBit port)
  | none => (0, consumedports)

/-- The active port with the lowest time. -/
def entryPort (activeports : UInt8) (DCrt : ℕ → Int32) : ℕ :=
  match [0, 3, 1, 2].filter (fun port => activeports &&& portBit port ≠ 0) with
  | [] => 0
  | port :: ports =>
      ports.foldl (fun entry port => if DCrt port < DCrt entry then port else entry) port

/-! ### The list of the slaves with a clock -/

namespace DcContext

/-- A slave is changed. -/
def set (i : ℕ) (s : DcSlave) (c : DcContext) : DcContext :=
  { c with slave := Function.update c.slave i s }

/-- A slave with a clock is linked behind the last one. -/
def link (i : ℕ) (c : DcContext) : DcContext :=
  let c :=
    if !(c.slave 0).hasdc then
      let c := c.set 0 { c.slave 0 with hasdc := true, DCnext := i }
      let c := c.set i { c.slave i with DCprevious := 0 }
      let group := (c.slave i).group
      { c with
        groupHasdc := Function.update c.groupHasdc group true
        groupDCnext := Function.update c.groupDCnext group i }
    else
      let c := c.set c.prevDCslave { c.slave c.prevDCslave with DCnext := i }
      c.set i { c.slave i with DCprevious := c.prevDCslave }
  { c with parenthold := 0, prevDCslave := i }

/-- The latched times are read; a lost reply leaves what was read before. -/
def latch (bus : DcBus) (mastertime : UInt64) (i : ℕ) (c : DcContext) : DcContext :=
  let a := (bus.dcTime i 0).getD c.ht
  let hrt := mastertime - (bus.dcSof i).getD c.hrt
  let b := (bus.dcTime i 1).getD a
  let c' := (bus.dcTime i 2).getD b
  let d := (bus.dcTime i 3).getD c'
  let times : ℕ → Int32 := fun port => match port with | 0 => a | 1 => b | 2 => c' | _ => d
  { c.set i { c.slave i with DCrt := times } with
    ht := d
    hrt := hrt
    written := c.written ++ [.sysOffset i hrt] }

/-- The port at which the frame enters is found and consumed. -/
def enter (i : ℕ) (c : DcContext) : DcContext :=
  let s := c.slave i
  let port := entryPort s.activeports s.DCrt
  c.set i { s with entryport := port, consumedports := s.consumedports &&& ~~~ portBit port }

/-- The search upwards for a slave with a clock: that slave, and the one before on the way. -/
def dcParent (slave : ℕ → DcSlave) : ℕ → ℕ → ℕ × ℕ
  | 0, child => ((slave child).parent, child)
  | fuel + 1, child =>
      let parent := (slave child).parent
      if parent = 0 ∨ (slave parent).hasdc then (parent, child) else dcParent slave fuel parent

/-- The delay of a slave from the times of its ports and of its parent, and the parent's delay. -/
def delay (s parent : DcSlave) (parentport : ℕ) (notFirst : Bool) : Int32 :=
  let prev := ecxPrevport parent.activeports parentport
  let dt3 := parent.DCrt parentport - parent.DCrt prev
  let dt1 := if 1 < s.topology then
    s.DCrt (ecxPrevport s.activeports s.entryport) - s.DCrt s.entryport else 0
  let dt1 := if dt3 < dt1 then -dt1 else dt1
  let dt2 := if notFirst then parent.DCrt prev - parent.DCrt parent.entryport else 0
  let dt2 := if dt2 < 0 then -dt2 else dt2
  (dt3 - dt1) / 2 + dt2 + parent.pdelay

/-- The delay of a slave below another one is computed and written. -/
def propagate (i parent child : ℕ) (c : DcContext) : DcContext :=
  let (port, consumed) := ecxParentport (c.slave parent).consumedports
  let c := c.set parent { c.slave parent with consumedports := consumed }
  let port := if (c.slave parent).topology = 1 then (c.slave parent).entryport else port
  let pdelay := delay (c.slave i) (c.slave parent) port (1 < child - parent)
  { c.set i { c.slave i with parentport := port, pdelay := pdelay } with
    ht := pdelay
    written := c.written ++ [.sysDelay i pdelay] }

/-- The branch for a slave with a clock. -/
def measure (bus : DcBus) (mastertime : UInt64) (i : ℕ) (c : DcContext) : DcContext :=
  let c := ((c.link i).latch bus mastertime i).enter i
  let (parent, child) := dcParent c.slave i i
  if 0 < parent then c.propagate i parent child else c

/-- The slave of which a branch without clocks is held, when a slave without a clock is reached. -/
def held (i : ℕ) (c : DcContext) : ℕ :=
  let parent := (c.slave i).parent
  if 0 < parent ∧ 2 < (c.slave parent).topology then parent else c.parenthold

/-- The branch for a slave without a clock. -/
def pass (i : ℕ) (c : DcContext) : DcContext :=
  let c := c.set i { c.slave i with DCrt := fun _ => 0 }
  let hold := c.held i
  if hold ≠ 0 ∧ (c.slave i).topology = 1 then
    { c.set hold { c.slave hold with
        consumedports := (ecxParentport (c.slave hold).consumedports).2 } with
      parenthold := 0 }
  else { c with parenthold := hold }

/-- One slave. -/
def configure (bus : DcBus) (mastertime : UInt64) (c : DcContext) (i : ℕ) : DcContext :=
  let c := c.set i { c.slave i with consumedports := (c.slave i).activeports }
  if (c.slave i).hasdc then c.measure bus mastertime i else c.pass i

/-- The state in which the slaves are looked at. -/
def start (slave : ℕ → DcSlave) (groupHasdc : ℕ → Bool) (groupDCnext : ℕ → ℕ) (hrt : UInt64) :
    DcContext where
  slave := Function.update slave 0 { slave 0 with hasdc := false }
  groupHasdc := Function.update groupHasdc 0 false
  groupDCnext := groupDCnext
  parenthold := 0
  prevDCslave := 0
  ht := 0
  hrt := hrt
  written := []

end DcContext

/-- `ec_configdc`, with the value that the variable for the 64-bit time happens to have: the result
is `(slave 0).hasdc`. -/
def ecxConfigdc (bus : DcBus) (mastertime : UInt64) (slavecount : ℕ) (slave : ℕ → DcSlave)
    (groupHasdc : ℕ → Bool) (groupDCnext : ℕ → ℕ) (hrt : UInt64) : DcContext :=
  (List.range' 1 slavecount).foldl (DcContext.configure bus mastertime)
    (.start slave groupHasdc groupDCnext hrt)

end EthercatMaster
