import InCircuit.Instruction
import InCircuit.Procedure

/-!
# Access through the table pointer

The smallest routines that mean something to the part: core instructions, register loads, and
reads and writes at an address.
-/
namespace InCircuit.Routine

variable {ε : Type}

def executeWord (word : UInt16) : Routine ε Unit := transmit .coreInstruction word

def executeWords : List UInt16 → Routine ε Unit
  | [] => pure ()
  | w :: rest => do
    executeWord w
    executeWords rest

def execute (i : Instruction) : Routine ε Unit := executeWord i.encode

def executeAll (is : List Instruction) : Routine ε Unit := executeWords (is.map Instruction.encode)

/-- Loads the register at an address, by way of W. -/
def loadAddress (register value : UInt8) : Routine ε Unit := do
  execute (.movlw value)
  execute (.movwf register)

def load (r : Register) (value : UInt8) : Routine ε Unit := loadAddress r.address value

/-- Points the table pointer, most significant byte first. An address that does not fit is
refused before anything is sent. -/
def setPointer (address : Nat) : Routine ε Unit := do
  if Address.last < address then
    throw (.addressTooWide address.toUInt32)
  load .tblptrU (address / 65536).toUInt8
  load .tblptrH (address / 256).toUInt8
  load .tblptrL address.toUInt8

def storeWord (address : Nat) (data : UInt16) : Routine ε Unit := do
  setPointer address
  transmit .tableWritePostInc data

def nextByte : Routine ε UInt8 := receive .tableReadPostInc

def fetchWord (address : Nat) : Routine ε UInt16 := do
  setPointer address
  let low ← nextByte
  let high ← nextByte
  return UInt16.ofNat (high.toNat * 256 + low.toNat)

def shiftOut : Routine ε UInt8 := receive .shiftOutTablat

def postProgram : Routine ε Unit := do
  hold .postProgram
  delay 5
  sendData 0

def fetchDeviceId : Routine ε UInt16 := fetchWord Address.deviceId

end InCircuit.Routine
