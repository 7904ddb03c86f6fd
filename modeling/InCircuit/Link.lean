import InCircuit.Command
import InCircuit.Fault

/-!
# Links

A link takes one transfer at a time and answers it, with a fault or with a byte. Only the answer
to a `receive` means anything; the others answer 0. Two decorators add to any link without a
change to its answers: `Recorded` keeps what was asked for, and `Lossy` refuses everything from
some transfer on.
-/
namespace InCircuit

class Link (σ : Type) where
  clock : Transfer → σ → Except Fault UInt8 × σ

structure Lossy (σ : Type) where
  target : σ
  limit : Option Nat := none
  /-- Transfers asked for so far, the refused ones included. -/
  attempted : Nat := 0

namespace Lossy

variable {σ : Type}

def isLost (l : Lossy σ) : Bool :=
  match l.limit with
  | some limit => limit ≤ l.attempted
  | none => false

instance [Link σ] : Link (Lossy σ) where
  clock t l :=
    if l.isLost then (.error .linkFailure, { l with attempted := l.attempted + 1 })
    else
      match l with
      | ⟨target, limit, attempted⟩ =>
        let (reply, target) := Link.clock t target
        (reply, ⟨target, limit, attempted + 1⟩)

end Lossy

structure Recorded (σ : Type) where
  target : σ
  transfers : Array Transfer := #[]

namespace Recorded

variable {σ : Type}

instance [Link σ] : Link (Recorded σ) where
  clock t l :=
    match l with
    | ⟨target, transfers⟩ =>
      let (reply, target) := Link.clock t target
      (reply, ⟨target, transfers.push t⟩)

def sentWith (l : Recorded σ) (c : Command) : Array UInt16 :=
  l.transfers.filterMap fun
    | .transmit command data => if command = c then some data else none
    | _ => none

def holds (l : Recorded σ) : Nat :=
  l.transfers.foldl (fun n t => match t with | .hold _ => n + 1 | _ => n) 0

end Recorded

end InCircuit
