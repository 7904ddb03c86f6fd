import InCircuit.CommandLine.Arguments
import InCircuit.CommandLine.Task
import InCircuit.IntelHex.Reader
import InCircuit.IntelHex.Writer
import InCircuit.Text.Quoted
import InCircuit.TransferLog

/-!
# The commands

Each command that talks to a part opens the programmer, identifies the device and then does its
work, telling on the console how far it got. A command log is printed at the end, whatever the
outcome.
-/
namespace InCircuit

open Text

/-! ## Why a command fails -/

inductive Failure where
  | programmer (cause : OpenFault)
  | fault (cause : Fault)
  | firmwareFile (cause : FileFault)
  /-- A file of bare code bytes could not be written. -/
  | bareFile (cause : FileFault)
deriving DecidableEq

def Failure.message : Failure → String
  | programmer cause => cause.message
  | fault cause => cause.message
  | firmwareFile cause => "I/O error: " ++ cause.message
  | bareFile cause => cause.message

/-! ## Paths -/

namespace Paths

/-- The steps of a path, without the ones that lead nowhere. -/
def steps (path : String) : List (List Char) :=
  (split '/' path.toList).filter fun s => s ≠ [] ∧ s ≠ ['.']

/-- What follows the last dot of the last step, unless that dot begins the step. -/
def extension? (path : String) : Option (List Char) :=
  match (steps path).getLast? with
  | none => none
  | some name =>
    if name = ['.', '.'] then none
    else
      match cut '.' name.reverse with
      | (_, none) | (_, some []) => none
      | (reversed, some _) => some reversed.reverse

/-- Whether a path names an Intel HEX file, by its extension in ASCII letters of either case. -/
def isHex (path : String) : Bool :=
  match extension? path with
  | some e => e.map Char.toLower == "hex".toList
  | none => false

end Paths

/-! ## Jobs -/

/-- Work on a session that ends at the first failure. The session outlives a failure. -/
abbrev Job (σ α : Type) := ExceptT Failure (StateT (Session σ) Task) α

namespace Job

variable {σ α : Type}

def ofTask (t : Task α) : Job σ α :=
  ExceptT.mk fun s => do
    let a ← t
    return (.ok a, s)

def print (line : String) : Job σ Unit := ofTask (.print line (.done ()))

def ofExcept {ε : Type} (cause : ε → Failure) : Except ε α → Job σ α
  | .ok a => pure a
  | .error e => throw (cause e)

def onSession (f : Session σ → Except Fault α × Session σ) : Job σ α :=
  ExceptT.mk fun s =>
    match f s with
    | (.ok a, s) => pure (.ok a, s)
    | (.error fault, s) => pure (.error (.fault fault), s)

def loadHex (path : String) (capacity : Nat) : Job σ Image := do
  let content ← ofExcept .firmwareFile (← ofTask (.readFile path .done))
  match String.fromUTF8? content with
  | none => throw (.firmwareFile .notText)
  | some text => ofExcept .fault (Image.ofIntelHex text capacity)

variable [Link σ]

def identify (d : Device) : Job σ Unit := do
  let p := d.part
  print ""
  print ("Device ID:       0x" ++ hex 4 d.id.toNat)
  print ("Name:            " ++ p.name)
  print ("Revision:        " ++ decimal d.revision)
  print ("Family:          " ++ d.family.name)
  print ("Code memory:     " ++ decimal p.codeSize ++ " bytes (" ++ decimal (p.codeSize / 1024)
    ++ " KiB)")
  print ("Write buffer:    " ++ decimal p.wordsPerWrite ++ " words")
  print ("Erase page:      " ++ decimal p.erasePage ++ " bytes")
  print ("Configuration:   " ++ decimal p.configBytes ++ " bytes at 0x" ++ hex 6 p.configAddress)
  print ("Data EEPROM:     " ++ decimal p.eepromBytes ++ " bytes")

/-- Reads the device to a file: Intel HEX, or else the bare code bytes. -/
def read (output : String) (offset size : Nat) (eeprom : Bool) : Job σ Unit := do
  let i ← onSession (·.readAll offset size eeprom)
  print ("Read " ++ decimal i.size ++ " code bytes from 0x" ++ hex 6 i.origin)
  if Paths.isHex output then
    let text ← ofExcept .fault i.encodeIntelHex
    ofExcept .firmwareFile (← ofTask (.writeFile output text.toUTF8 .done))
    print ("Wrote Intel HEX to " ++ quoted output)
  else
    let bytes := i.codeBytes
    ofExcept .bareFile (← ofTask (.writeFile output ⟨bytes.toArray⟩ .done))
    print ("Wrote " ++ decimal bytes.length ++ " bytes to " ++ quoted output)

/-- Reads a written image back unless told not to. -/
def confirm (i : Image) (verify : Bool) : Job σ Unit := do
  if verify then
    let compared ← onSession (·.verify i)
    print ("Verified " ++ decimal compared.total ++ " bytes")
  print "Write complete"

/-- What is left of a write when code and configuration are programmed. -/
def finish (i : Image) (verify eeprom : Bool) : Job σ Unit := do
  if eeprom ∧ ¬ i.eeprom.isEmpty then
    onSession (·.programEeprom i)
  confirm i verify

def write (d : Device) (input : String) (mode : EraseMode) (verify eeprom : Bool) :
    Job σ Unit := do
  let i ← loadHex input d.part.codeSize
  print ("Loaded " ++ decimal i.size ++ " code bytes, " ++ decimal i.knownConfig.length
    ++ " configuration bytes, " ++ decimal i.eeprom.size ++ " EEPROM bytes from " ++ quoted input)
  onSession (·.write i mode)
  finish i verify eeprom

def erase (d : Device) (mode : EraseMode) : Job σ Unit := do
  match mode with
  | .bulk => print ("Bulk erasing " ++ d.part.name ++ "...")
  | .pages =>
    print ("Erasing " ++ decimal d.part.codeSize ++ " bytes of code memory in "
      ++ decimal d.part.erasePage ++ "-byte pages...")
  onSession (·.erase mode)
  print "Erase complete"

def verify (d : Device) (input : String) : Job σ Unit := do
  let i ← loadHex input d.part.codeSize
  let compared ← onSession (·.verify i)
  print ("Verification passed: " ++ decimal compared.code ++ " code bytes, "
    ++ decimal compared.config ++ " configuration bytes")

end Job

def Action.job {σ : Type} [Link σ] (a : Action) : Job σ Unit := do
  let d ← Job.onSession (·.identify)
  Job.print ("Found: " ++ d.summary)
  match a with
  | .identify => Job.identify d
  | .read output offset size eeprom => Job.read output offset size eeprom
  | .write input mode check eeprom => Job.write d input mode check eeprom
  | .erase mode => Job.erase d mode
  | .verify input => Job.verify d input

def Action.runOver {σ : Type} [Link σ] (a : Action) (link : σ) (series : Series) :
    Task (Except Failure Unit × Session σ) :=
  a.job.run.run { link, series }

/-! ## Requests -/

namespace Request

def printAll : List String → Task Unit
  | [] => .done ()
  | line :: rest => .print line (printAll rest)

def printErrors : List String → Task Unit
  | [] => .done ()
  | line :: rest => .printError line (printErrors rest)

def runSession (o : SessionOptions) (a : Action) : Task (Except Failure Unit) :=
  match o.programmer.connect with
  | .error cause => pure (.error (.programmer cause))
  | .ok emulator =>
    match o.trace? with
    | none => do
      let (result, _) ← a.runOver emulator o.series
      return result
    | some capacity => do
      let link : Traced Emulator := ⟨emulator, { capacity }⟩
      let (result, s) ← a.runOver link o.series
      let log := s.link.log
      printErrors
        (("ICSP command log (" ++ decimal log.lines.size ++ " of " ++ decimal log.capacity
          ++ " records):") :: log.texts)
      return result

def programmerLine (p : Programmer) : String :=
  let aliases :=
    if p.aliases.isEmpty then "" else " (aliases: " ++ String.intercalate ", " p.aliases ++ ")"
  "  " ++ flushLeft 10 p.name ++ " - " ++ p.description ++ aliases

def sizeText (bytes : Nat) : String :=
  if 1024 ≤ bytes then decimal (bytes / 1024) ++ " KiB" else decimal bytes ++ " B"

def tableRow (name family code buffer config eeprom : String) : String :=
  String.intercalate " "
    [flushLeft 12 name, flushLeft 14 family, flushRight 8 code, flushRight 6 buffer,
      flushRight 8 config, flushRight 8 eeprom]

def partRow (f : Family) (p : Part) : String :=
  tableRow p.name f.name (sizeText p.codeSize) (decimal p.wordsPerWrite) (decimal p.configBytes)
    (decimal p.eepromBytes)

def run : Request → Task (Except Failure Unit)
  | session options action => runSession options action
  | listProgrammers => do
    printAll ("Supported programmers:" :: "" :: Programmer.all.map programmerLine)
    return .ok ()
  | listDevices => do
    printAll
      (["Supported " ++ Series.pic18F.name ++ " devices:", "",
          tableRow "Name" "Family" "Code" "Buffer" "Config" "EEPROM",
          String.ofList (List.replicate 61 '-')]
        ++ Family.knownParts.map fun (f, p) => partRow f p)
    return .ok ()

end Request

end InCircuit
