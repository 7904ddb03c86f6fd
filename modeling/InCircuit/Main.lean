import InCircuit.CommandLine.Commands

/-!
# The command line
-/
namespace InCircuit

/-- The number of an operating-system error, as far as it is known. -/
def FileFault.ofError : IO.Error → FileFault
  | .alreadyExists _ n _ | .otherError n _ | .resourceBusy n _ | .resourceVanished n _
  | .unsupportedOperation n _ | .hardwareFault n _ | .unsatisfiedConstraints n _
  | .illegalOperation n _ | .protocolError n _ | .timeExpired n _ | .interrupted _ n _
  | .noFileOrDirectory _ n _ | .invalidArgument _ n _ | .permissionDenied _ n _
  | .resourceExhausted _ n _ | .inappropriateType _ n _ | .noSuchThing _ n _ => .system n.toNat
  | .unexpectedEof => .system 5
  | .userError _ => .system 5

def FileFault.catching {α : Type} (act : IO α) : IO (Except FileFault α) := do
  try
    return .ok (← act)
  catch e =>
    return .error (.ofError e)

def Task.perform {α : Type} : Task α → IO α
  | .done a => pure a
  | .print line next => do
    IO.println line
    next.perform
  | .printError line next => do
    IO.eprintln line
    next.perform
  | .readFile path next => do
    let r ← FileFault.catching (IO.FS.readBinFile path)
    (next r).perform
  | .writeFile path content next => do
    let r ← FileFault.catching (IO.FS.writeBinFile path content)
    (next r).perform

end InCircuit

open InCircuit in
def main (arguments : List String) : IO UInt32 := do
  match Invocation.ofArguments? arguments with
  | none =>
    IO.eprintln "usage: picprog [-v]... <command> [options]"
    return 2
  | some invocation =>
    match ← invocation.request.run.perform with
    | .ok () => return 0
    | .error failure =>
      IO.eprintln ("Error: " ++ failure.message)
      return 1
