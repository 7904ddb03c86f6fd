import InCircuit.IntelHex.Layout
import InCircuit.IntelHex.Record

/-!
# Writing a firmware file

The code from the origin on, the known configuration bytes, the EEPROM contents, and the
end-of-file record. A data record holds at most sixteen bytes and stays inside its 64 KiB
segment; the upper half of the address is announced where it changes. Records that do not make a
file are refused.
-/
namespace InCircuit.Image

open IntelHex

def recordRoom (address : Nat) : Nat := min 16 (65536 - address % 65536)

/-- The records for a run of bytes, when `upper` is the upper half last announced, and the upper
half announced after them. -/
def dataRecords (upper address : Nat) (bytes : List UInt8) : List Record × Nat :=
  match bytes with
  | [] => ([], upper)
  | b :: rest =>
    let n := recordRoom address
    let announced := if address / 65536 = upper then [] else [.linear (address / 65536).toUInt16]
    let (records, last) := dataRecords (address / 65536) (address + n) ((b :: rest).drop n)
    (announced ++ .data address.toUInt16 ((b :: rest).take n) :: records, last)
termination_by bytes.length
decreasing_by
  simp only [List.length_drop, List.length_cons, recordRoom]
  omega

/-- Known bytes joined into runs without gaps, each with the offset it starts at. -/
def runs : List (Nat × UInt8) → List (Nat × List UInt8)
  | [] => []
  | (offset, value) :: rest =>
    match runs rest with
    | (next, bytes) :: others =>
      if next = offset + 1 then (offset, value :: bytes) :: others
      else (offset, [value]) :: (next, bytes) :: others
    | [] => [(offset, [value])]

def runRecords (upper : Nat) : List (Nat × List UInt8) → List Record
  | [] => []
  | (address, bytes) :: rest =>
    let (records, last) := dataRecords upper address bytes
    records ++ runRecords last rest

def fileRuns (i : Image) : List (Nat × List UInt8) :=
  (i.origin, i.codeBytes)
    :: (runs i.knownConfig).map (fun (offset, bytes) => (Place.configBase + offset, bytes))
    ++ [(Place.eepromBase, i.eeprom.toList)]

def records (i : Image) : List Record := runRecords 0 i.fileRuns ++ [.endOfFile]

def toIntelHex (i : Image) : String :=
  String.ofList (i.records.flatMap fun r => r.encode ++ ['\n'])

/-- Records make a file when their data fit the length byte, and the end-of-file record comes last
and nowhere else. -/
def Writable (records : List Record) : Prop :=
  (∀ r ∈ records, r.payload.length < 256) ∧ records.getLast? = some .endOfFile ∧
    .endOfFile ∉ records.dropLast

instance (records : List Record) : Decidable (Writable records) :=
  inferInstanceAs (Decidable (_ ∧ _ ∧ _))

def encodeIntelHex (i : Image) : Except Fault String :=
  if Writable i.records then .ok i.toIntelHex else .error (.format .unwritable)

end InCircuit.Image
