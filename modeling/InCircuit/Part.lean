import InCircuit.Fault
import InCircuit.Instruction

/-!
# Parts and families

What is known of each part, and how an identification word names one: the low byte is the family
code, the top three bits of the high byte select the part, and the rest is the silicon revision.
A device is a part found under some identification word.
-/
namespace InCircuit

open Text

/-- The memory of one part. Sizes are in bytes except where a word is named. -/
structure Part where
  name : String
  familyCode : UInt8
  /-- The top three bits of an identification word. -/
  pattern : UInt8
  codeSize : Nat
  wordsPerWrite : Nat
  erasePage : Nat
  configAddress : Nat
  configBytes : Nat
  eepromBytes : Nat
deriving DecidableEq

/-! ## The fields of an identification word -/

namespace DeviceId

def familyCode (id : UInt16) : UInt8 := id.toNat.toUInt8

def pattern (id : UInt16) : UInt8 := (id.toNat / 8192).toUInt8

def revision (id : UInt16) : Nat := id.toNat / 256 % 32

end DeviceId

namespace Part

def matchesId (p : Part) (id : UInt16) : Bool :=
  DeviceId.familyCode id == p.familyCode && DeviceId.pattern id == p.pattern

def term (p : Part) : String :=
  recordTerm "Geometry"
    [("name", "\"" ++ p.name ++ "\""), ("family_code", decimal p.familyCode.toNat),
      ("pattern", decimal p.pattern.toNat), ("code_memory_size", decimal p.codeSize),
      ("code_words_per_write", decimal p.wordsPerWrite),
      ("code_erase_page_size", decimal p.erasePage),
      ("config_address", decimal p.configAddress), ("config_bytes", decimal p.configBytes),
      ("eeprom_bytes", decimal p.eepromBytes)]

end Part

/-- The parts that are programmed the same way. -/
inductive Family where
  /-- PIC18F2xx/4xx. -/
  | f2xx
  /-- PIC18F2xxx/4xxx. -/
  | f2xxx
deriving DecidableEq

namespace Family

def all : List Family := [f2xx, f2xxx]

def name : Family → String
  | f2xx => "18F2xx/4xx"
  | f2xxx => "18F2xxx/4xxx"

def codes : Family → List UInt8
  | f2xx => [0x04, 0x08]
  | f2xxx => [0x12]

/-- A part with the memory layout that all parts of its family share. -/
def part (f : Family) (name : String) (code pattern : UInt8) (codeKiB : Nat) : Part where
  name
  familyCode := code
  pattern
  codeSize := codeKiB * 1024
  wordsPerWrite := match f with | f2xx => 4 | f2xxx => 16
  erasePage := 64
  configAddress := Address.config
  configBytes := 14
  eepromBytes := 256

def parts : Family → List Part
  | f2xx =>
    [part f2xx "PIC18F252" 0x04 0b000 32, part f2xx "PIC18F452" 0x04 0b001 32,
      part f2xx "PIC18F242" 0x04 0b100 16, part f2xx "PIC18F442" 0x04 0b101 16,
      part f2xx "PIC18F248" 0x08 0b000 16, part f2xx "PIC18F448" 0x08 0b001 16,
      part f2xx "PIC18F258" 0x08 0b010 32, part f2xx "PIC18F458" 0x08 0b011 32]
  | f2xxx =>
    [part f2xxx "PIC18F4550" 0x12 0b000 32, part f2xxx "PIC18F4455" 0x12 0b001 24,
      part f2xxx "PIC18F2550" 0x12 0b010 32, part f2xxx "PIC18F2455" 0x12 0b011 24]

def find (f : Family) (id : UInt16) : Except Fault Part :=
  match f.parts.find? (·.matchesId id) with
  | some p => .ok p
  | none => .error (.unknownDevice id)

def ofId? (id : UInt16) : Option Family :=
  all.find? fun f => f.codes.contains (DeviceId.familyCode id)

def knownParts : List (Family × Part) := all.flatMap fun f => f.parts.map (f, ·)

end Family

inductive Series where
  | pic18F
deriving DecidableEq

namespace Series

def name : Series → String
  | pic18F => "18F"

/-- Accepts the short and the long name, in ASCII letters of either case. -/
def ofName? (s : String) : Option Series :=
  if s.toLower = "18f" ∨ s.toLower = "pic18f" then some pic18F else none

def unknownMessage : String := "unknown device family (supported: 18f)"

end Series

structure Device where
  id : UInt16
  part : Part
  family : Family
deriving DecidableEq

namespace Device

def bind (id : UInt16) (f : Family) : Except Fault Device := do
  let part ← f.find id
  return ⟨id, part, f⟩

def ofId (id : UInt16) : Except Fault Device :=
  match Family.ofId? id with
  | some f => bind id f
  | none => .error (.unknownDevice id)

def revision (d : Device) : Nat := DeviceId.revision d.id

def summary (d : Device) : String :=
  d.part.name ++ " (ID 0x" ++ hex 4 d.id.toNat ++ ", rev " ++ decimal d.revision ++ ", family "
    ++ d.family.name ++ ")"

def term (d : Device) : String :=
  recordTerm "Device"
    [("id", "0x" ++ hex 4 d.id.toNat), ("family", "\"" ++ d.family.name ++ "\""),
      ("geometry", d.part.term)]

end Device

end InCircuit
