import InCircuit.Text.Digits

/-!
# Commands and transfers

Every transfer to the part opens with a 4-bit command. A command can also be clocked out alone,
the lines then being held for a while so that an erase or programming cycle can run. A transfer is
one exchange over the two programming lines; only a `receive` brings a byte back.
-/
namespace InCircuit

inductive Command where
  | coreInstruction
  | shiftOutTablat
  | tableRead
  | tableReadPostInc
  | tableReadPostDec
  | tableReadPreInc
  | tableWritePostInc
  | tableWritePostInc2
  | tableWriteStartPostInc2
  | tableWriteStart
deriving DecidableEq

namespace Command

def bits : Command → Nat
  | coreInstruction => 0b0000
  | shiftOutTablat => 0b0010
  | tableRead => 0b1000
  | tableReadPostInc => 0b1001
  | tableReadPostDec => 0b1010
  | tableReadPreInc => 0b1011
  | tableWritePostInc => 0b1100
  | tableWritePostInc2 => 0b1101
  | tableWriteStartPostInc2 => 0b1110
  | tableWriteStart => 0b1111

def ofBits? : Nat → Option Command
  | 0b0000 => some coreInstruction
  | 0b0010 => some shiftOutTablat
  | 0b1000 => some tableRead
  | 0b1001 => some tableReadPostInc
  | 0b1010 => some tableReadPostDec
  | 0b1011 => some tableReadPreInc
  | 0b1100 => some tableWritePostInc
  | 0b1101 => some tableWritePostInc2
  | 0b1110 => some tableWriteStartPostInc2
  | 0b1111 => some tableWriteStart
  | _ => none

@[simp]
theorem ofBits?_bits (c : Command) : ofBits? c.bits = some c := by cases c <;> rfl

/-- Whether the part answers with eight bits. -/
def isRead : Command → Bool
  | shiftOutTablat | tableRead | tableReadPostInc | tableReadPostDec | tableReadPreInc => true
  | _ => false

def pattern (c : Command) : String := Text.binary 4 c.bits

end Command

/-- Which of the two programming lines stay high. -/
structure Lines where
  clock : Bool := false
  data : Bool := false
deriving DecidableEq

def Lines.bits (l : Lines) : Nat := l.clock.toNat + 2 * l.data.toNat

def Lines.ofBits (n : Nat) : Lines := ⟨n.testBit 0, n.testBit 1⟩

/-- A command without data, and how the lines are held after its fourth bit. -/
structure Hold where
  command : Command
  lines : Lines
  millis : UInt32
  micros : UInt32
deriving DecidableEq

namespace Hold

/-- The clock held high while a programming cycle runs: 1 ms and a margin. -/
def postProgram : Hold := ⟨.coreInstruction, ⟨true, false⟩, 1, 250⟩

/-- Both lines held low while a bulk erase runs. -/
def erase (millis : UInt32) : Hold := ⟨.coreInstruction, {}, millis, 0⟩

def duration (h : Hold) : Nat := h.millis.toNat * 1000 + h.micros.toNat

end Hold

inductive Transfer where
  | transmit (command : Command) (data : UInt16)
  | receive (command : Command)
  | hold (pulse : Hold)
  /-- A data phase without a command before it. -/
  | data (payload : UInt32)
  | delay (micros : UInt32)
deriving DecidableEq

end InCircuit
