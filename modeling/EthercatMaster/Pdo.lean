import Mathlib.Tactic.Common

/-!
# Process data of an axis

The records `PDO_Output` and `PDO_Input` exchanged with a drive in every cycle, and the
control words and status words of the CiA402 profile by which the master switches the drive
on.
-/

namespace EthercatMaster

/-- `PDO_Output`: what the master sends to a drive. -/
structure PdoOutput where
  controlWord : UInt16
  targetPos : Int32
  targetVelocity : Int32
  opModeSet : Int8
  touchProbe : UInt16
deriving DecidableEq, Repr

/-- `PDO_Input`: what the master receives from a drive. -/
structure PdoInput where
  statusWord : UInt16
  currentPosition : Int32
  opModeNow : Int8
  touchProbeStatus : UInt16
  touchProbePos1 : Int32
  digitalinputs : UInt32
deriving DecidableEq, Repr

/-! ### Control words -/

def cia402CwDisableVoltage : UInt16 := 0x0000
def cia402CwShutdown : UInt16 := 0x0006
def cia402CwSwitchOn : UInt16 := 0x0007
def cia402CwEnableOperation : UInt16 := 0x000F
def cia402CwFaultReset : UInt16 := 0x0080

/-! ### Status words -/

def cia402SwMask : UInt16 := 0x006F
def cia402SwFaultMask : UInt16 := 0x004F
def cia402SwFault : UInt16 := 0x0008
def cia402SwReadyToSwitchOn : UInt16 := 0x0021
def cia402SwSwitchedOn : UInt16 := 0x0023
def cia402SwOperationEnabled : UInt16 := 0x0027

/-- The part of the status word that shows the state of the drive. -/
def PdoInput.statusState (input : PdoInput) : UInt16 :=
  input.statusWord &&& cia402SwMask

/-- The drive reports Operation Enabled. -/
def PdoInput.operationEnabled (input : PdoInput) : Bool :=
  input.statusState == cia402SwOperationEnabled

/-- The drive reports a fault. -/
def PdoInput.fault (input : PdoInput) : Bool :=
  input.statusWord &&& cia402SwFaultMask == cia402SwFault

/-- The drive reports Operation Enabled and the mode CSP, in which the motion scheduler
advances. -/
def PdoInput.servoReady (input : PdoInput) : Bool :=
  input.operationEnabled && input.opModeNow == 8

/-- The areas the pointers `input1s` and `output1s` of the first axis point to; a null
pointer points to none. -/
structure PdoArea where
  input1s : Option PdoInput
  output1s : Option PdoOutput
deriving DecidableEq, Repr

end EthercatMaster
