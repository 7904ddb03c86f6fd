import InCircuit.Link
import InCircuit.Text.Digits

/-!
# The transfer log

A bounded record of the commands exchanged with the part, for a human reader. A full log stops
recording and never disturbs a transfer: `Traced` answers as the link it wraps.
-/
namespace InCircuit

structure LogLine where
  command : Command
  data : UInt16
deriving DecidableEq

/-- What a transfer leaves in a log: a read with the byte it brought, or 0 when it failed. Holds,
bare data and delays leave nothing. -/
def LogLine.ofTransfer? (t : Transfer) (reply : Except Fault UInt8) : Option LogLine :=
  match t with
  | .transmit command data => some ⟨command, data⟩
  | .receive command =>
    match reply with
    | .ok byte => some ⟨command, byte.toUInt16⟩
    | .error _ => some ⟨command, 0⟩
  | .hold _ | .data _ | .delay _ => none

structure TransferLog where
  capacity : Nat
  lines : Array LogLine := #[]

namespace TransferLog

def isFull (l : TransferLog) : Bool := l.capacity ≤ l.lines.size

/-- A full log drops the line. -/
def push (l : TransferLog) (line : LogLine) : TransferLog :=
  if l.isFull then l
  else
    match l with
    | ⟨capacity, lines⟩ => ⟨capacity, lines.push line⟩

def texts (l : TransferLog) : List String :=
  l.lines.toList.zipIdx.map fun (line, i) =>
    "[" ++ Text.digits 10 3 i ++ "] cmd(" ++ line.command.pattern ++ ") data("
      ++ Text.hex 4 line.data.toNat ++ ")"

end TransferLog

structure Traced (σ : Type) where
  target : σ
  log : TransferLog

instance {σ : Type} [Link σ] : Link (Traced σ) where
  clock t l :=
    match l with
    | ⟨target, log⟩ =>
      let (reply, target) := Link.clock t target
      match LogLine.ofTransfer? t reply with
      | some line => (reply, ⟨target, log.push line⟩)
      | none => (reply, ⟨target, log⟩)

end InCircuit
