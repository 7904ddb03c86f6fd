import InCircuit.Eeprom
import InCircuit.Programming
import InCircuit.Readback

/-!
# Work on an identified device

The operations of a session as routines that report their progress. Each operation has a tracker
of its own. Nothing is rolled back: a write that stops at a fault leaves the part half programmed.
-/
namespace InCircuit

inductive EraseMode where
  | bulk
  | pages
deriving DecidableEq

def EraseMode.name : EraseMode → String
  | bulk => "bulk"
  | pages => "page-wise"

namespace Device

def identify : Routine Report Device := do
  let id ← Routine.fetchDeviceId
  ExceptT.mk (pure (ofId id))

def bulkErase (d : Device) : Routine Report Unit := do
  d.family.bulkErase
  Routine.delay 20

def pageErase (d : Device) : Routine Report Unit :=
  (d.family.pageErase d.part).tracked
    { operation := .erase, total := d.part.codeSize, granularity := d.part.erasePage }

def erase (d : Device) : EraseMode → Routine Report Unit
  | .bulk => d.bulkErase
  | .pages => d.pageErase

def requireRoom (d : Device) (i : Image) : Except Fault Unit :=
  d.requireRange i.origin (2 * i.words)

def programCode (d : Device) (i : Image) : Routine Report Unit := do
  ExceptT.mk (pure (d.requireRoom i))
  (d.family.programCode d.part i).tracked { operation := .program, total := i.size }

def programConfig (d : Device) (i : Image) : Routine Report Unit := Routine.programConfig d.part i

def programEeprom (d : Device) (i : Image) : Routine Report Unit :=
  (Routine.writeEeprom d.part i).tracked { operation := .eepromWrite, total := i.eeprom.size }

/-- Reads code; a size of 0 reads to the end. -/
def readCode (d : Device) (offset size : Nat) : Routine Report Image :=
  (Routine.readCode d offset size).tracked
    { operation := .read, total := if size = 0 then d.part.codeSize - offset else size }

/-- Reads the EEPROM into an image, which a fault leaves as it was. -/
def fillEeprom (d : Device) (i : Image) : Procedure Report (Except Fault Unit × Image) :=
  (Routine.fillEeprom d.part i).tracked { operation := .eepromRead, total := d.part.eepromBytes }

def readEeprom (d : Device) (i : Image) : Routine Report Image := Routine.filled (d.fillEeprom i)

def readAll (d : Device) (offset size : Nat) (eeprom : Bool) : Routine Report Image := do
  let i ← d.readCode offset size
  let i ← Routine.readConfig d i
  if eeprom then d.readEeprom i else pure i

def write (d : Device) (i : Image) (mode : EraseMode) : Routine Report Unit := do
  ExceptT.mk (pure (d.requireRoom i))
  d.erase mode
  d.programCode i
  d.programConfig i

def verify (d : Device) (source : Image) : Routine Report Compared := do
  let length := 2 * source.words
  let readback ←
    if length = 0 then pure (Image.blank 0 source.origin) else d.readCode source.origin length
  let readback ←
    if source.knownConfig.isEmpty then pure readback else Routine.readConfig d readback
  ExceptT.mk (pure (d.compare source readback))

end Device

end InCircuit
