import InCircuit.Fault

/-!
# Firmware images

What is to be programmed, or was read back: the code from an origin on, the configuration bytes
that are known, and the EEPROM contents. A region is erased until it is written. Code is kept in
device word order, the two bytes of each word swapped. A write that does not fit its region is
refused and changes nothing.
-/
namespace InCircuit

def wordsFor (bytes : Nat) : Nat := (bytes + 1) / 2

def erased : UInt8 := 0xFF

structure Image where
  /-- Device address of the first code byte. -/
  origin : Nat
  /-- The code region in device word order, up to its capacity. -/
  code : Array UInt8
  /-- One past the highest code offset written. -/
  size : Nat
  config : Vector (Option UInt8) 32
  /-- The EEPROM contents, up to the highest offset written. -/
  eeprom : Array UInt8
deriving DecidableEq

namespace Image

def configCapacity : Nat := 32

def eepromCapacity : Nat := 1024

def blank (capacity origin : Nat) : Image where
  origin
  code := Array.replicate capacity erased
  size := 0
  config := Vector.replicate 32 none
  eeprom := #[]

def capacity (i : Image) : Nat := i.code.size

def words (i : Image) : Nat := wordsFor i.size

/-- Where the byte at a code offset is kept: at the other place of its word. -/
def place (offset : Nat) : Nat := if offset % 2 = 0 then offset + 1 else offset - 1

def byteAt? (i : Image) (offset : Nat) : Option UInt8 := i.code[place offset]?

/-- A code word as it is sent, the byte at the even address in the low half. Past the capacity
everything is erased. -/
def wordAt (i : Image) (index : Nat) : UInt16 :=
  let high := i.code.getD (2 * index) erased
  let low := i.code.getD (2 * index + 1) erased
  UInt16.ofNat (high.toNat * 256 + low.toNat)

def storeCode (code : Array UInt8) (offset : Nat) : List UInt8 → Array UInt8
  | [] => code
  | b :: rest => storeCode (code.setIfInBounds (place offset) b) (offset + 1) rest

/-- Writes code bytes, given in address order. They must fit the whole words of the region. -/
def putCode (i : Image) (offset : Nat) (bytes : List UInt8) : Except Fault Image :=
  let stop := offset + bytes.length
  if i.capacity / 2 < wordsFor stop then
    .error (.outOfRange offset bytes.length i.capacity)
  else
    .ok { i with code := storeCode i.code offset bytes, size := max i.size stop }

def codeBytes (i : Image) : List UInt8 := (List.range i.size).filterMap i.byteAt?

def configAt? (i : Image) (offset : Nat) : Option UInt8 := (i.config[offset]?).join

def knownConfig (i : Image) : List (Nat × UInt8) :=
  i.config.toList.zipIdx.filterMap fun (value?, offset) => value?.map (offset, ·)

def putConfig (i : Image) (offset : Nat) (value : UInt8) : Except Fault Image :=
  if h : offset < 32 then .ok { i with config := i.config.set offset (some value) h }
  else .error (.outOfRange offset 1 configCapacity)

def storeAt (cells : Array UInt8) (offset : Nat) : List UInt8 → Array UInt8
  | [] => cells
  | b :: rest => storeAt (cells.setIfInBounds offset b) (offset + 1) rest

/-- Writes EEPROM bytes; a gap below the offset is filled with erased bytes. -/
def writeEeprom (i : Image) (offset : Nat) (bytes : List UInt8) : Except Fault Image :=
  let stop := offset + bytes.length
  if eepromCapacity < stop then
    .error (.outOfRange offset bytes.length eepromCapacity)
  else
    let grown := i.eeprom ++ Array.replicate (stop - i.eeprom.size) erased
    .ok { i with eeprom := storeAt grown offset bytes }

end Image

end InCircuit
