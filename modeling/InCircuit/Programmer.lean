import InCircuit.Emulator
import InCircuit.Text.Pieces

/-!
# Choosing a programmer

A programmer is named with parameters: `name`, or `name:key=value,key=value`. Blanks around the
name, the keys and the values do not count, nor do blank parameters; the first parameter with a
key decides.
-/
namespace InCircuit

open Text

structure ProgrammerSpec where
  name : String
  params : List (String × String) := []
deriving DecidableEq

inductive SpecFault where
  | empty
  | malformedParam (text : String)
deriving DecidableEq

def SpecFault.message : SpecFault → String
  | empty => "empty programmer specification"
  | malformedParam text => "malformed programmer parameter '" ++ text ++ "' (expected key=value)"

namespace ProgrammerSpec

def trimmed (cs : List Char) : String := String.ofList (trim cs)

def param? (cs : List Char) : Except SpecFault (String × String) :=
  match cut '=' cs with
  | (key, some value) => .ok (trimmed key, trimmed value)
  | (_, none) => .error (.malformedParam (String.ofList cs))

def params? : List (List Char) → Except SpecFault (List (String × String))
  | [] => .ok []
  | cs :: rest => do
    let p ← param? cs
    let ps ← params? rest
    return p :: ps

def parse? (text : String) : Except SpecFault ProgrammerSpec :=
  let (name, options?) := cut ':' text.toList
  if (trim name).isEmpty then .error .empty
  else
    match options? with
    | none => .ok { name := trimmed name }
    | some options => do
      let params ← params? ((split ',' options).filter fun cs => ! (trim cs).isEmpty)
      return { name := trimmed name, params }

def get? (s : ProgrammerSpec) (key : String) : Option String :=
  (s.params.find? (·.1 == key)).map (·.2)

end ProgrammerSpec

structure Programmer where
  name : String
  aliases : List String
  description : String

namespace Programmer

def emulator : Programmer where
  name := "dummy"
  aliases := ["emulator"]
  description := "In-memory PIC18F emulator for testing (part=<name>)"

def all : List Programmer := [emulator]

/-- The programmer with the name or alias, which must match exactly. -/
def find? (name : String) : Option Programmer :=
  all.find? fun p => p.name == name || p.aliases.contains name

end Programmer

inductive OpenFault where
  | unknownProgrammer (name : String)
  | unknownParam (programmer param : String)
  | unknownPart (name : String)
deriving DecidableEq

def OpenFault.message : OpenFault → String
  | unknownProgrammer name =>
    "unknown programmer: " ++ name ++ "\n\nAvailable programmers:\n"
      ++ String.join (Programmer.all.map fun p =>
        "  " ++ flushLeft 12 p.name ++ " - " ++ p.description ++ "\n")
      ++ "\nUse 'picprog list-programmers' for more details"
  | unknownParam programmer param =>
    "programmer " ++ programmer ++ " does not take parameter '" ++ param ++ "'"
  | unknownPart name => "unknown part: " ++ name

namespace ProgrammerSpec

def defaultPart : String := "PIC18F452"

def connect (s : ProgrammerSpec) : Except OpenFault Emulator :=
  match Programmer.find? s.name with
  | none => .error (.unknownProgrammer s.name)
  | some p =>
    match s.params.find? (·.1 != "part") with
    | some (key, _) => .error (.unknownParam p.name key)
    | none =>
      let part := (s.get? "part").getD defaultPart
      match Setup.ofPartName? part with
      | none => .error (.unknownPart part)
      | some setup => .ok (.new setup)

end ProgrammerSpec

end InCircuit
