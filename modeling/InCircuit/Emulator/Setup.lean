import InCircuit.Part
import InCircuit.Text.Pieces

/-!
# What an emulated part is like
-/
namespace InCircuit

namespace Part

/-- Whether a name means the part: its full name or the name without `PIC`, in ASCII letters of
either case, with blanks around it. -/
def hasName (p : Part) (name : String) : Bool :=
  let name := (String.ofList (Text.trim name.toList)).toLower
  p.name.toLower == name || (p.name.drop 3).toString.toLower == name

end Part

structure Setup where
  deviceId : UInt16 := 0x2004
  codeSize : Nat := 32768
  erasePage : Nat := 64
  /-- Size of the code write latch in bytes. -/
  writeBlock : Nat := 8
  configBytes : Nat := 14
  eepromSize : Nat := 256
  /-- How many times EECON1 reads as busy after an EEPROM write has started. -/
  busyReads : Nat := 2
  stuck : Bool := false

namespace Setup

def ofPart (p : Part) : Setup where
  deviceId := UInt16.ofNat (p.pattern.toNat * 8192 + p.familyCode.toNat)
  codeSize := p.codeSize
  erasePage := p.erasePage
  writeBlock := p.wordsPerWrite * 2
  configBytes := p.configBytes
  eepromSize := p.eepromBytes

def ofPartName? (name : String) : Option Setup :=
  (Family.knownParts.find? fun (_, p) => p.hasName name).map fun (_, p) => ofPart p

/-- With the revision, of which five bits count, in the identification word. -/
def withRevision (s : Setup) (revision : UInt8) : Setup :=
  let id := s.deviceId.toNat
  { s with deviceId := UInt16.ofNat (id / 8192 * 8192 + revision.toNat % 32 * 256 + id % 256) }

end Setup

end InCircuit
