import InCircuit.IntelHex.Layout
import InCircuit.IntelHex.Record
import InCircuit.Text.Pieces

/-!
# Reading a firmware file

The records are applied in order to a blank image, up to the end-of-file record or the end of the
text; the first record that cannot be applied decides the fault. Empty lines are skipped, and a
fault counts the records, not the lines.
-/
namespace InCircuit.Image

open IntelHex

def putConfigs (i : Image) (offset : Nat) : List UInt8 → Except Fault Image
  | [] => .ok i
  | b :: rest => do
    let i ← i.putConfig offset b
    i.putConfigs (offset + 1) rest

/-- Applies the data of record `n` at an address. The first byte decides the region. -/
def apply (i : Image) (address : Nat) (bytes : List UInt8) (n : Nat) : Except Fault Image :=
  match Place.ofAddress? address with
  | some (.code offset) => i.putCode offset bytes
  | some .idLocations => .ok i
  | some (.config offset) => i.putConfigs offset bytes
  | some (.eeprom offset) => i.writeEeprom offset bytes
  | none => .error (.format (.strayRecord n))

/-- Applies lines from record `n` on, their data placed from `base` on. -/
def applyLines (i : Image) (base n : Nat) : List (List Char) → Except Fault Image
  | [] => .ok i
  | line :: rest =>
    match Record.decode? line with
    | none => .error (.format (.badRecord n))
    | some .endOfFile => .ok i
    | some (.data offset bytes) => do
      let i ← i.apply (base + offset.toNat) bytes n
      i.applyLines base (n + 1) rest
    | some (.segment s) => i.applyLines (s.toNat * 16) (n + 1) rest
    | some (.linear u) => i.applyLines (u.toNat * 65536) (n + 1) rest
    | some (.startSegment ..) | some (.startLinear ..) => i.applyLines base (n + 1) rest

def ofIntelHex (text : String) (capacity : Nat) : Except Fault Image :=
  (blank capacity 0).applyLines 0 1 ((Text.lines text.toList).filter (! ·.isEmpty))

end InCircuit.Image
