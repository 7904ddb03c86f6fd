import InCircuit.Image
import InCircuit.Part
import InCircuit.TableAccess

/-!
# Reading back and comparing
-/
namespace InCircuit

namespace Device

def requireRange (d : Device) (offset length : Nat) : Except Fault Unit :=
  if d.part.codeSize < offset + length then
    .error (.outOfRange offset length d.part.codeSize)
  else .ok ()

/-- How many bytes a read covers; a size of 0 reads to the end, which must not be passed. -/
def readLength (d : Device) (offset size : Nat) : Except Fault Nat :=
  if size = 0 then
    if d.part.codeSize ≤ offset then .error (.outOfRange offset 0 d.part.codeSize)
    else .ok (d.part.codeSize - offset)
  else .ok size

end Device

namespace Routine

variable {ε : Type}

def readWords : (count : Nat) → Array UInt8 → Routine Mark (Array UInt8)
  | 0, bytes => pure bytes
  | count + 1, bytes => do
    let low ← nextByte
    let high ← nextByte
    let bytes := (bytes.push low).push high
    emit (.reached bytes.size)
    readWords count bytes

/-- Reads code into an image with its origin at the offset. Both bounds must be even. -/
def readCode (d : Device) (offset size : Nat) : Routine Mark Image := do
  if offset % 2 ≠ 0 ∨ size % 2 ≠ 0 then
    throw .misaligned
  let length ← ExceptT.mk (pure (d.readLength offset size))
  ExceptT.mk (pure (d.requireRange offset length))
  setPointer offset
  emit .start
  let bytes ← readWords (length / 2) #[]
  emit .finish
  ExceptT.mk (pure ((Image.blank length offset).putCode 0 bytes.toList))

/-- Reads `count` configuration bytes from an offset on. The image keeps the bytes read before a
fault. -/
def readConfigFrom : (count offset : Nat) → Image → Procedure ε (Except Fault Unit × Image)
  | 0, _, i => pure (.ok (), i)
  | count + 1, offset, i => do
    match ← nextByte.run with
    | .error fault => pure (.error fault, i)
    | .ok byte =>
      match i.putConfig offset byte with
      | .error fault => pure (.error fault, i)
      | .ok i => readConfigFrom count (offset + 1) i

def fillConfig (d : Device) (i : Image) : Procedure ε (Except Fault Unit × Image) := do
  match ← (setPointer d.part.configAddress).run with
  | .error fault => pure (.error fault, i)
  | .ok () => readConfigFrom d.part.configBytes 0 i

def readConfig (d : Device) (i : Image) : Routine ε Image := filled (fillConfig d i)

end Routine

structure Compared where
  code : Nat
  config : Nat
deriving DecidableEq

def Compared.total (c : Compared) : Nat := c.code + c.config

namespace Device

def comparedConfig (d : Device) (source : Image) : List (Nat × UInt8) :=
  source.knownConfig.filter (·.1 < d.part.configBytes)

/-- Compares the code contents of `source`, in whole words, and the configuration bytes that it
knows with what was read back. -/
def compare (d : Device) (source readback : Image) : Except Fault Compared :=
  let length := 2 * source.words
  let config := d.comparedConfig source
  let result : Compared := ⟨length, config.length⟩
  if length ≤ source.capacity ∧ length ≤ readback.capacity
      ∧ source.code.extract 0 length = readback.code.extract 0 length
      ∧ config.all (fun (offset, value) => readback.configAt? offset == some value) then
    .ok result
  else .error (.mismatch result.total)

end Device

end InCircuit
