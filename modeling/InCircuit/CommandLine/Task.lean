import InCircuit.CommandLine.Folder

/-!
# Tasks

What a command does to the world outside: lines printed, files read and written. `runIn` carries
a task out on a folder in memory.
-/
namespace InCircuit

inductive Task (α : Type) where
  | done (value : α)
  | print (line : String) (next : Task α)
  | printError (line : String) (next : Task α)
  | readFile (path : String) (next : Except FileFault ByteArray → Task α)
  | writeFile (path : String) (content : ByteArray) (next : Except FileFault Unit → Task α)

structure Console where
  folder : Folder
  out : String := ""
  err : String := ""

namespace Task

variable {α β : Type}

def bind (f : α → Task β) : Task α → Task β
  | done a => f a
  | print line next => print line (bind f next)
  | printError line next => printError line (bind f next)
  | readFile path next => readFile path fun r => bind f (next r)
  | writeFile path content next => writeFile path content fun r => bind f (next r)

instance : Monad Task where
  pure := done
  bind t f := bind f t

def runIn : Task α → Console → α × Console
  | done a, c => (a, c)
  | print line next, c => next.runIn { c with out := c.out ++ line ++ "\n" }
  | printError line next, c => next.runIn { c with err := c.err ++ line ++ "\n" }
  | readFile path next, c => (next (c.folder.read path)).runIn c
  | writeFile path content next, c =>
    match c.folder.write path content with
    | .ok folder => (next (.ok ())).runIn { c with folder }
    | .error fault => (next (.error fault)).runIn c

end Task

end InCircuit
