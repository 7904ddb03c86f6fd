import InCircuit.Image

/-!
# Where a firmware file puts its bytes

| Addresses             | Region                        |
|-----------------------|-------------------------------|
| `0x000000..0x200000`  | code                          |
| `0x200000..0x300000`  | ID locations, ignored         |
| `0x300000..0x300020`  | configuration bytes           |
| `0xF00000..0xF00400`  | EEPROM                        |
-/
namespace InCircuit.IntelHex

inductive Place where
  | code (offset : Nat)
  | idLocations
  | config (offset : Nat)
  | eeprom (offset : Nat)
deriving DecidableEq

namespace Place

def idBase : Nat := 0x200000
def configBase : Nat := 0x300000
def eepromBase : Nat := 0xF00000

def ofAddress? (address : Nat) : Option Place :=
  if address < idBase then some (code address)
  else if address < configBase then some idLocations
  else if address < configBase + Image.configCapacity then some (config (address - configBase))
  else if eepromBase ≤ address ∧ address < eepromBase + Image.eepromCapacity then
    some (eeprom (address - eepromBase))
  else none

end Place

end InCircuit.IntelHex
