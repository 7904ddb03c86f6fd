import InCircuit.Image
import InCircuit.Part
import InCircuit.TableAccess

/-!
# Erasing and programming

Code is programmed in write blocks: a block is loaded word by word, the last word starts the
programming cycle, and the cycle is given its time. Configuration bytes are programmed one by
one, code memory is erased page by page or together with everything else.
-/
namespace InCircuit.Routine

/-- How many pieces of `size` (at least 1) cover `total`. -/
def pieces (total size : Nat) : Nat := (total + (max size 1 - 1)) / max size 1

/-- Loads a write buffer; the last word starts the programming cycle. -/
def loadBuffer {ε : Type} : List UInt16 → Routine ε Unit
  | [] => pure ()
  | [w] => transmit .tableWriteStart w
  | w :: rest => do
    transmit .tableWritePostInc2 w
    loadBuffer rest

/-- How the words of an image fall on the write blocks of a part. Slots count words from the
start of the first block. -/
structure Blocks where
  length : Nat
  /-- Device address of slot 0. -/
  start : Nat
  /-- The slot of the first image word. -/
  lead : Nat
  /-- The slot after the last image word. -/
  stop : Nat

namespace Blocks

def ofImage (p : Part) (i : Image) : Blocks :=
  let length := max p.wordsPerWrite 1
  let lead := i.origin % (2 * length) / 2
  { length, start := i.origin - i.origin % (2 * length), lead, stop := lead + i.words }

/-- What a slot is programmed with; before the image comes an erased word, which changes
nothing. -/
def word (b : Blocks) (i : Image) (slot : Nat) : UInt16 :=
  if slot < b.lead then 0xFFFF else i.wordAt (slot - b.lead)

def program (b : Blocks) (i : Image) : (count slot : Nat) → Routine Mark Unit
  | 0, _ => pure ()
  | count + 1, slot => do
    let next := slot + min b.length (b.stop - slot)
    setPointer (b.start + 2 * slot)
    loadBuffer ((List.range' slot (next - slot)).map (b.word i))
    postProgram
    emit (.reached (2 * (next - b.lead)))
    b.program i count next

end Blocks

/-- Programs the code of an image, block by block. The part must be in code write mode. -/
def programBlocks (p : Part) (i : Image) : Routine Mark Unit := do
  if i.origin % 2 ≠ 0 then
    throw .misaligned
  let b := Blocks.ofImage p i
  emit .start
  b.program i (pieces b.stop b.length) 0
  emit .finish

/-- Programs `count` configuration bytes from an offset on. A byte at an odd offset goes in the
high half of its word; the pointer moves on whether or not the byte is known. -/
def programConfigFrom {ε : Type} (i : Image) : (count offset : Nat) → Routine ε Unit
  | 0, _ => pure ()
  | count + 1, offset => do
    match i.configAt? offset with
    | some byte =>
      transmit .tableWriteStart (if offset % 2 = 1 then byte.toUInt16 <<< 8 else byte.toUInt16)
      postProgram
    | none => pure ()
    execute .advancePointer
    programConfigFrom i count (offset + 1)

def programConfig {ε : Type} (p : Part) (i : Image) : Routine ε Unit := do
  executeAll [.setEepgd, .setCfgs, .gotoConfigLow, .gotoConfigHigh]
  setPointer p.configAddress
  programConfigFrom i p.configBytes 0

def erasePagesFrom (page : Nat) : (count address : Nat) → Routine Mark Unit
  | 0, _ => pure ()
  | count + 1, address => do
    executeAll [.setEepgd, .clearCfgs, .setFree]
    setPointer address
    transmit .tableWriteStart 0
    postProgram
    emit (.reached (address + page))
    erasePagesFrom page count (address + page)

/-- Erases code memory page by page. The part must be in its erase mode. -/
def eraseByPage (p : Part) : Routine Mark Unit := do
  let page := max p.erasePage 1
  emit .start
  erasePagesFrom page (pieces p.codeSize page) 0
  emit .finish

end InCircuit.Routine

namespace InCircuit.Family

open Routine

def enterCodeMode {ε : Type} : Family → Routine ε Unit
  | f2xx | f2xxx => executeAll [.setEepgd, .clearCfgs]

/-- The second family keeps writes disabled here. -/
def enterConfigMode {ε : Type} : Family → Routine ε Unit
  | f2xx => executeAll [.setEepgd, .setCfgs, .setWren]
  | f2xxx => executeAll [.setEepgd, .setCfgs]

def selectSinglePanel {ε : Type} (f : Family) : Routine ε Unit := do
  f.enterConfigMode
  storeWord Address.panelControl 0

def eraseKey : Family → List (Nat × UInt16)
  | f2xx => [(Address.eraseKeyLow, 0x0080)]
  | f2xxx => [(Address.eraseKeyHigh, 0x3F3F), (Address.eraseKeyLow, 0x8F8F)]

/-- How long the lines are held for the bulk erase, in milliseconds. -/
def eraseMillis : Family → UInt32
  | f2xx => 10
  | f2xxx => 5

/-- How long the part then settles, in microseconds. -/
def eraseSettle : Family → UInt32
  | f2xx => 50
  | f2xxx => 200

def writeKey {ε : Type} : List (Nat × UInt16) → Routine ε Unit
  | [] => pure ()
  | (address, data) :: rest => do
    storeWord address data
    writeKey rest

def bulkErase {ε : Type} (f : Family) : Routine ε Unit := do
  writeKey f.eraseKey
  match f with
  | f2xx => execute .nop
  | f2xxx => pure ()
  hold (.erase f.eraseMillis)
  delay f.eraseSettle

/-- Erases code memory page by page. A row erase needs writes enabled. -/
def pageErase (f : Family) (p : Part) : Routine Mark Unit := do
  match f with
  | f2xx => f2xx.selectSinglePanel
  | f2xxx =>
    f2xxx.enterConfigMode
    execute .setWren
    storeWord Address.panelControl 0
  eraseByPage p

def programCode (f : Family) (p : Part) (i : Image) : Routine Mark Unit := do
  match f with
  | f2xx => f2xx.selectSinglePanel
  | f2xxx => pure ()
  f.enterCodeMode
  programBlocks p i

end InCircuit.Family
