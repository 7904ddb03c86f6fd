import InCircuit.Link
import InCircuit.Progress

/-!
# Procedures

A procedure says which transfer comes next, given the answers so far, and announces events on the
way. It holds no link: `run` carries it out over any link, so what holds of every run is a fact
about the procedure alone. A routine is a procedure that ends at the first fault.
-/
namespace InCircuit

inductive Procedure (ε α : Type) where
  | done (value : α)
  | emit (event : ε) (next : Procedure ε α)
  | clock (transfer : Transfer) (next : Except Fault UInt8 → Procedure ε α)

structure Ran (σ ε α : Type) where
  value : α
  link : σ
  events : Array ε

namespace Procedure

variable {ε α β σ : Type}

def bind (f : α → Procedure ε β) : Procedure ε α → Procedure ε β
  | done a => f a
  | emit e next => emit e (bind f next)
  | clock t next => clock t fun reply => bind f (next reply)

instance : Monad (Procedure ε) where
  pure := done
  bind p f := bind f p

theorem bind_done (p : Procedure ε α) : bind done p = p := by
  induction p with
  | done => rfl
  | emit _ _ ih => simp [bind, ih]
  | clock _ _ ih => simp [bind, ih]

theorem bind_bind {γ : Type} (f : α → Procedure ε β) (g : β → Procedure ε γ) (p : Procedure ε α) :
    bind g (bind f p) = bind (fun a => bind g (f a)) p := by
  induction p with
  | done => rfl
  | emit _ _ ih => simp [bind, ih]
  | clock _ _ ih => simp [bind, ih]

instance : LawfulMonad (Procedure ε) :=
  LawfulMonad.mk' _ bind_done (fun _ _ => rfl) (fun p f g => bind_bind f g p)

def run [Link σ] : Procedure ε α → σ → Array ε → Ran σ ε α
  | done a, link, events => ⟨a, link, events⟩
  | emit e next, link, events => next.run link (events.push e)
  | clock t next, link, events =>
    let (reply, link) := Link.clock t link
    (next reply).run link events

def tracked (tracker : Tracker) : Procedure Mark α → Procedure Report α
  | done a => done a
  | emit m next =>
    match tracker.step m with
    | (tracker, some r) => emit r (tracked tracker next)
    | (tracker, none) => tracked tracker next
  | clock t next => clock t fun reply => tracked tracker (next reply)

end Procedure

abbrev Routine (ε α : Type) := ExceptT Fault (Procedure ε) α

namespace Routine

variable {ε α : Type}

def clock (t : Transfer) : Routine ε UInt8 := ExceptT.mk (.clock t .done)

def transmit (c : Command) (data : UInt16) : Routine ε Unit := do
  let _ ← clock (.transmit c data)

def receive (c : Command) : Routine ε UInt8 := clock (.receive c)

def hold (h : Hold) : Routine ε Unit := do
  let _ ← clock (.hold h)

def sendData (payload : UInt32) : Routine ε Unit := do
  let _ ← clock (.data payload)

def delay (micros : UInt32) : Routine ε Unit := do
  let _ ← clock (.delay micros)

def emit (e : ε) : Routine ε Unit := ExceptT.mk (.emit e (.done (.ok ())))

def tracked (tracker : Tracker) (r : Routine Mark α) : Routine Report α :=
  ExceptT.mk (Procedure.tracked tracker r.run)

/-- What a procedure has filled, unless it met a fault. -/
def filled (p : Procedure ε (Except Fault Unit × α)) : Routine ε α :=
  ExceptT.mk do
    let (result, a) ← p
    return result.map fun () => a

end Routine

end InCircuit
