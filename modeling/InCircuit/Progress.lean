import InCircuit.Text.Digits

/-!
# Progress

A long operation marks how far it has come; a tracker turns the marks into reports. The start and
the end are always reported, and between them only a mark that lies `granularity` bytes or more
past the last report.
-/
namespace InCircuit

inductive Operation where
  | erase
  | program
  | read
  | eepromRead
  | eepromWrite
deriving DecidableEq

def Operation.name : Operation → String
  | erase => "Erasing"
  | program => "Writing"
  | read => "Reading"
  | eepromRead => "Reading EEPROM"
  | eepromWrite => "Writing EEPROM"

structure Report where
  operation : Operation
  done : Nat
  total : Nat
deriving DecidableEq

inductive Mark where
  | start
  | reached (done : Nat)
  | finish
deriving DecidableEq

structure Tracker where
  operation : Operation
  total : Nat
  granularity : Nat := 1024
  /-- What the last report said. -/
  last : Option Nat := none

namespace Tracker

def report (t : Tracker) (done : Nat) : Tracker × Option Report :=
  ({ t with last := some done }, some ⟨t.operation, done, t.total⟩)

/-- The end is reported once, however often it is reached. -/
def finish (t : Tracker) : Tracker × Option Report :=
  if t.last = some t.total then (t, none) else t.report t.total

/-- A mark past the total counts as the total. -/
def reach (t : Tracker) (done : Nat) : Tracker × Option Report :=
  if t.total ≤ done then t.finish
  else
    match t.last with
    | some last => if done < last + t.granularity then (t, none) else t.report done
    | none => t.report done

def step (t : Tracker) : Mark → Tracker × Option Report
  | .start => t.report 0
  | .reached done => t.reach done
  | .finish => t.finish

def reports (t : Tracker) : List Mark → List Report
  | [] => []
  | m :: rest =>
    let (next, report?) := t.step m
    report?.toList ++ next.reports rest

end Tracker

end InCircuit
