import InCircuit.Instruction
import InCircuit.Link
import Std.Data.TreeMap

/-!
# A bare table memory

The plainest thing that programming can be tried on: bytes behind a table pointer. It follows the
loads and steps of the pointer, takes table writes as they come and serves them to table reads. It
has no latches and no cycles, and answers every shift of TABLAT with the same byte.
-/
namespace InCircuit

structure TableMemory where
  /-- The bytes written; all others read as erased. -/
  bytes : Std.TreeMap Nat UInt8 := {}
  pointer : Nat := 0
  w : UInt8 := 0
  shiftOut : UInt8 := 0

namespace TableMemory

def byte (m : TableMemory) (address : Nat) : UInt8 := m.bytes.getD address 0xFF

def setByte (m : TableMemory) (address : Nat) (b : UInt8) : TableMemory :=
  { m with bytes := m.bytes.insert address b }

def setBytes (m : TableMemory) (address : Nat) : List UInt8 → TableMemory
  | [] => m
  | b :: rest => (m.setByte address b).setBytes (address + 1) rest

def execute (m : TableMemory) (word : UInt16) : TableMemory :=
  match Instruction.decode word with
  | some (.movlw k) => { m with w := k }
  | some (.movwf f) =>
    match Register.ofAddress? f with
    | some .tblptrU => { m with pointer := TablePointer.setUpper m.pointer m.w }
    | some .tblptrH => { m with pointer := TablePointer.setHigh m.pointer m.w }
    | some .tblptrL => { m with pointer := TablePointer.setLow m.pointer m.w }
    | _ => m
  | some (.incf f) =>
    if f = Register.tblptrL.address then
      { m with pointer := TablePointer.setLow m.pointer (TablePointer.low m.pointer + 1) }
    else m
  | _ => m

/-- Moves the pointer, which counts modulo `2 ^ 32`. -/
def advance (m : TableMemory) (step : Nat) : TableMemory :=
  { m with pointer := (m.pointer + step) % 4294967296 }

/-- From the configuration on, a write stores the byte that the address selects by parity; below
it, a whole word. -/
def tableWrite (m : TableMemory) (data : UInt16) : TableMemory :=
  let low := data.toNat.toUInt8
  let high := (data.toNat / 256).toUInt8
  if Address.config ≤ m.pointer then m.setByte m.pointer (if m.pointer % 2 = 0 then low else high)
  else m.setBytes (m.pointer - m.pointer % 2) [low, high]

def transmit (m : TableMemory) (c : Command) (data : UInt16) : TableMemory :=
  match c with
  | .coreInstruction => m.execute data
  | .tableWritePostInc => (m.tableWrite data).advance 1
  | .tableWritePostInc2 | .tableWriteStartPostInc2 => (m.tableWrite data).advance 2
  | .tableWriteStart => m.tableWrite data
  | _ => m

def receive (m : TableMemory) (c : Command) : UInt8 × TableMemory :=
  match c with
  | .shiftOutTablat => (m.shiftOut, m)
  | .tableRead => (m.byte m.pointer, m)
  | .tableReadPostInc => (m.byte m.pointer, m.advance 1)
  | .tableReadPostDec => (m.byte m.pointer, m.advance 4294967295)
  | .tableReadPreInc =>
    let m := m.advance 1
    (m.byte m.pointer, m)
  | _ => (0, m)

instance : Link TableMemory where
  clock t m :=
    match t with
    | .transmit c data => (.ok 0, m.transmit c data)
    | .receive c =>
      let (b, m) := m.receive c
      (.ok b, m)
    | .hold _ | .data _ | .delay _ => (.ok 0, m)

end TableMemory

end InCircuit
