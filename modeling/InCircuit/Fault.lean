import InCircuit.Text.Digits

/-!
# Faults

Everything that can stop an operation, as its cause. `Fault.message` is the one place where a
fault is put into words; `Fault.term` writes it as a term, its name and the values it carries.
-/
namespace InCircuit

open Text

/-- What can be wrong with a firmware file. Records are counted from 1. -/
inductive FormatFault where
  | badRecord (record : Nat)
  | strayRecord (record : Nat)
  | unwritable
deriving DecidableEq

inductive Fault where
  | linkFailure
  /-- An EEPROM write was still busy after the last poll. -/
  | timeout
  | unknownDevice (id : UInt16)
  | noDevice
  /-- A range that does not fit its region. The three numbers are kept modulo `2 ^ 32`. -/
  | doesNotFit (offset length capacity : UInt32)
  /-- An address that does not fit the 24-bit table pointer. -/
  | addressTooWide (address : UInt32)
  | misaligned
  | format (fault : FormatFault)
  | mismatch (compared : Nat)
deriving DecidableEq

def FormatFault.message : FormatFault → String
  | badRecord n => "invalid record on line " ++ decimal n
  | strayRecord n => "unsupported record on line " ++ decimal n
  | unwritable => "image cannot be encoded as Intel HEX"

namespace Fault

def outOfRange (offset length capacity : Nat) : Fault :=
  doesNotFit offset.toUInt32 length.toUInt32 capacity.toUInt32

def message : Fault → String
  | linkFailure => "ICSP transport failure"
  | timeout => "operation timed out"
  | unknownDevice id => "unsupported device (ID 0x" ++ hex 4 id.toNat ++ ")"
  | noDevice => "no device identified"
  | doesNotFit offset length capacity =>
    "write of " ++ decimal length.toNat ++ " bytes at offset 0x" ++ hex 6 offset.toNat
      ++ " exceeds capacity of " ++ decimal capacity.toNat ++ " bytes"
  | addressTooWide address =>
    "address 0x" ++ hex 8 address.toNat ++ " does not fit the table pointer"
  | misaligned => "code offset and size must be word aligned"
  | format fault => "file format error: " ++ fault.message
  | mismatch n => "verify failed: data mismatch (" ++ decimal n ++ " bytes compared)"

end Fault

def recordTerm (name : String) (fields : List (String × String)) : String :=
  name ++ " \x7b " ++ String.intercalate ", " (fields.map fun (k, v) => k ++ ": " ++ v) ++ " \x7d"

def FormatFault.term : FormatFault → String
  | badRecord n => recordTerm "InvalidRecord" [("line", decimal n)]
  | strayRecord n => recordTerm "UnsupportedRecord" [("line", decimal n)]
  | unwritable => "Unwritable"

def Fault.term : Fault → String
  | linkFailure => "TransportFailure"
  | timeout => "Timeout"
  | unknownDevice id => "UnsupportedDevice(" ++ decimal id.toNat ++ ")"
  | noDevice => "NoDevice"
  | doesNotFit offset length capacity =>
    recordTerm "InsufficientCapacity"
      [("offset", decimal offset.toNat), ("len", decimal length.toNat),
        ("capacity", decimal capacity.toNat)]
  | addressTooWide address => "InvalidAddress(" ++ decimal address.toNat ++ ")"
  | misaligned => "InvalidAlignment"
  | format fault => "FileFormat(" ++ fault.term ++ ")"
  | mismatch n => recordTerm "VerifyFailed" [("bytes_compared", decimal n)]

end InCircuit
