import InCircuit.Image
import InCircuit.Part
import InCircuit.TableAccess

/-!
# Reading and writing the EEPROM

The EEPROM is reached byte by byte through its own registers. A write is unlocked by two values
sent to EECON2 and is then polled until the part reports it done.
-/
namespace InCircuit.Routine

def enterEepromMode {ε : Type} : Routine ε Unit := executeAll [.clearEepgd, .clearCfgs]

def pointEeprom {ε : Type} (address : Nat) : Routine ε Unit := do
  load .eeadr address.toUInt8
  load .eeadrH (address / 256).toUInt8

def readEepromFrom : (count address : Nat) → Array UInt8 → Routine Mark (Array UInt8)
  | 0, _, bytes => pure bytes
  | count + 1, address, bytes => do
    pointEeprom address
    executeAll [.setRd, .movfW Register.eedata.address, .movwf Register.tablat.address]
    let byte ← shiftOut
    emit (.reached (address + 1))
    readEepromFrom count (address + 1) (bytes.push byte)

def scanEeprom (p : Part) : Routine Mark (Array UInt8) := do
  enterEepromMode
  emit .start
  let bytes ← readEepromFrom p.eepromBytes 0 #[]
  emit .finish
  return bytes

/-- Reads the EEPROM of the part into an image, which is not touched before the scan is over. -/
def fillEeprom (p : Part) (i : Image) : Procedure Mark (Except Fault Unit × Image) := do
  match ← (scanEeprom p).run with
  | .error fault => pure (.error fault, i)
  | .ok bytes =>
    match i.writeEeprom 0 bytes.toList with
    | .error fault => pure (.error fault, i)
    | .ok i => pure (.ok (), i)

/-- Polls until a write is done, at most `tries` times, and waits 1 ms after each busy poll. -/
def waitWritten {ε : Type} : (tries : Nat) → Routine ε Unit
  | 0 => throw .timeout
  | tries + 1 => do
    executeAll [.movfW Register.eecon1.address, .movwf Register.tablat.address, .nop]
    let eecon1 ← shiftOut
    if Bits.test eecon1 Eecon1.wr then
      delay 1000
      waitWritten tries

def writeEepromByte {ε : Type} (address : Nat) (byte : UInt8) : Routine ε Unit := do
  pointEeprom address
  load .eedata byte
  execute .setWren
  load .eecon2 0x55
  load .eecon2 0xAA
  execute .setWr
  waitWritten 100

def writeEepromFrom (address : Nat) : List UInt8 → Routine Mark Unit
  | [] => pure ()
  | b :: rest => do
    writeEepromByte address b
    emit (.reached (address + 1))
    writeEepromFrom (address + 1) rest

def writeEeprom (p : Part) (i : Image) : Routine Mark Unit := do
  if p.eepromBytes < i.eeprom.size then
    throw (.outOfRange 0 i.eeprom.size p.eepromBytes)
  enterEepromMode
  emit .start
  writeEepromFrom 0 i.eeprom.toList
  emit .finish
  execute .clearWren

end InCircuit.Routine
