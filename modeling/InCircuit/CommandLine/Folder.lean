import InCircuit.CommandLine.Files
import InCircuit.Text.Pieces

/-!
# A folder in memory

Files by their paths inside a folder, and paths followed from the folder as an operating system
does: every step but the last must lead to a directory, and only then does the last one count.
Above the folder there are directories up to the root, and in them nothing but the way down.
-/
namespace InCircuit

structure Folder where
  /-- Each file by the names on the way to it. -/
  files : List (List String × ByteArray) := []

namespace Folder

def file? (f : Folder) (names : List String) : Option ByteArray :=
  (f.files.find? (·.1 == names)).map (·.2)

/-- A directory is the folder itself, or what some file lies in. -/
def isDirectory (f : Folder) (names : List String) : Bool :=
  names.isEmpty || f.files.any fun (name, _) => names.length < name.length && names.isPrefixOf name

inductive Directory where
  | inside (names : List String)
  /-- One that the folder lies in, the root among them. -/
  | above
deriving DecidableEq

/-- The directory around a directory. The root is its own. -/
def Directory.parent : Directory → Directory
  | inside [] | above => above
  | inside names => inside names.dropLast

inductive Target where
  | directory
  /-- A name in a directory, whether or not anything has it; `closed` when a slash follows. -/
  | entry (home : Directory) (name : String) (closed : Bool)
deriving DecidableEq

/-- A name of more than 255 bytes is refused wherever it is looked up. -/
def checkName (name : String) : Except FileFault Unit :=
  if 255 < name.utf8ByteSize then .error .nameTooLong else .ok ()

def enter (f : Folder) (here : Directory) (step : String) : Except FileFault Directory := do
  if step = "." then return here
  if step = ".." then return here.parent
  checkName step
  match here with
  | .above => throw .noSuchFile
  | .inside names =>
    let names := names ++ [step]
    if f.isDirectory names then return .inside names
    if (f.file? names).isSome then throw .notADirectory
    throw .noSuchFile

/-- The steps of a path; any number of slashes parts them. -/
def steps (path : String) : List String :=
  ((Text.split '/' path.toList).filter (! ·.isEmpty)).map String.ofList

/-- What a path leads to. A path and the byte that ends it must fit into 4096 bytes. -/
def resolve (f : Folder) (path : String) : Except FileFault Target := do
  if path.toList.contains '\x00' then throw .nulInPath
  if path.isEmpty then throw .noSuchFile
  if 4096 ≤ path.utf8ByteSize then throw .nameTooLong
  let start := if path.toList.head? = some '/' then Directory.above else .inside []
  match (steps path).getLast? with
  | none => return .directory
  | some last =>
    let home ← (steps path).dropLast.foldlM f.enter start
    if last = "." ∨ last = ".." then return .directory
    return .entry home last (path.toList.getLast? = some '/')

/-- Reads a file. A slash after its name asks for a directory. -/
def read (f : Folder) (path : String) : Except FileFault ByteArray := do
  match ← f.resolve path with
  | .directory => throw .isADirectory
  | .entry home name closed =>
    checkName name
    match home with
    | .above => throw .noSuchFile
    | .inside names =>
      match f.file? (names ++ [name]) with
      | some content => if closed then throw .notADirectory else return content
      | none => if f.isDirectory (names ++ [name]) then throw .isADirectory else throw .noSuchFile

/-- Writes a file, which is made if it is missing. A slash after its name is refused before the
name is looked up. What is written above the folder is not kept. -/
def write (f : Folder) (path : String) (content : ByteArray) : Except FileFault Folder := do
  match ← f.resolve path with
  | .directory | .entry _ _ true => throw .isADirectory
  | .entry home name false =>
    checkName name
    match home with
    | .above => return f
    | .inside names =>
      let names := names ++ [name]
      if f.isDirectory names then throw .isADirectory
      return { files := f.files.filter (·.1 != names) ++ [(names, content)] }

end Folder

end InCircuit
