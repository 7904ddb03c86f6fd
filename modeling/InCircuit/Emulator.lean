import InCircuit.Emulator.Setup
import InCircuit.Instruction
import InCircuit.Link
import InCircuit.Programming
import Std.Data.TreeMap

/-!
# An emulated part

Executes the core instructions that programming uses and models the write latches, the erase and
programming cycles, and the unlocking of EEPROM writes. A table write only fills a latch; the
memory changes when a hold lets the cycle run that a programming write has armed, or when a hold
finds the key of the bulk erase in the control registers. A cycle on code only clears bits.
-/
namespace InCircuit

/-- How much of `0x55`, `0xAA` has been written to EECON2. -/
inductive Unlocking where
  | none
  | first
  | both
deriving DecidableEq

/-- Any value out of turn starts over. -/
def Unlocking.next : Unlocking → UInt8 → Unlocking
  | none, value => if value = 0x55 then first else none
  | first, value => if value = 0xAA then both else none
  | both, _ => none

structure Emulator where
  setup : Setup
  code : Array UInt8
  config : Array UInt8
  eeprom : Array UInt8
  pointer : Nat := 0
  w : UInt8 := 0
  tablat : UInt8 := 0
  eecon1 : UInt8 := 0
  eeadr : UInt8 := 0
  eeadrH : UInt8 := 0
  eedata : UInt8 := 0
  unlock : Unlocking := .none
  /-- EECON1 reads until the EEPROM write that is running ends. -/
  busy : Nat := 0
  eraseKeyLow : UInt8 := 0
  eraseKeyHigh : UInt8 := 0
  panelControl : UInt8 := 0
  /-- Code bytes waiting for a cycle, by their offset in the write block. -/
  latch : Std.TreeMap Nat UInt8 := {}
  /-- Configuration bytes waiting for a cycle, by address. -/
  configLatch : Std.TreeMap Nat UInt8 := {}
  /-- Where the table pointer stood when a cycle was armed. -/
  armed : Option Nat := none
  bulkErases : Nat := 0
  rowErases : Nat := 0

namespace Emulator

def new (s : Setup) : Emulator where
  setup := s
  code := Array.replicate s.codeSize erased
  config := Array.replicate s.configBytes erased
  eeprom := Array.replicate s.eepromSize erased

/-- With the bytes in code memory from address 0 on, as far as they fit. -/
def withCode (m : Emulator) (bytes : List UInt8) : Emulator :=
  { m with code := Image.storeAt m.code 0 bytes }

/-- What a table read brings. Memory that does not exist reads as 0. -/
def byteAt (m : Emulator) (address : Nat) : UInt8 :=
  if address < m.setup.codeSize then m.code.getD address 0
  else if Address.config ≤ address ∧ address < Address.config + m.setup.configBytes then
    m.config.getD (address - Address.config) 0
  else if address = Address.deviceId then m.setup.deviceId.toNat.toUInt8
  else if address = Address.deviceId + 1 then (m.setup.deviceId.toNat / 256).toUInt8
  else 0

def eepromAddress (m : Emulator) : Nat := m.eeadrH.toNat * 256 + m.eeadr.toNat

def flag (m : Emulator) (i : Fin 8) : Bool := Bits.test m.eecon1 i

def getRegister (m : Emulator) (register : UInt8) : UInt8 :=
  match Register.ofAddress? register with
  | some .tblptrU => TablePointer.upper m.pointer
  | some .tblptrH => TablePointer.high m.pointer
  | some .tblptrL => TablePointer.low m.pointer
  | some .tablat => m.tablat
  | some .eeadr => m.eeadr
  | some .eeadrH => m.eeadrH
  | some .eedata => m.eedata
  | some .eecon1 => m.eecon1
  | some .eecon2 | none => 0

def putRegister (m : Emulator) (register value : UInt8) : Emulator :=
  match Register.ofAddress? register with
  | some .tblptrU => { m with pointer := TablePointer.setUpper m.pointer value }
  | some .tblptrH => { m with pointer := TablePointer.setHigh m.pointer value }
  | some .tblptrL => { m with pointer := TablePointer.setLow m.pointer value }
  | some .tablat => { m with tablat := value }
  | some .eeadr => { m with eeadr := value }
  | some .eeadrH => { m with eeadrH := value }
  | some .eedata => { m with eedata := value }
  | some .eecon1 => { m with eecon1 := value }
  | some .eecon2 => { m with unlock := m.unlock.next value }
  | none => m

/-- Brings the addressed EEPROM byte, if the EEPROM is selected; past its end it reads as 0. -/
def beginRead (m : Emulator) : Emulator :=
  if m.flag Eecon1.eepgd ∨ m.flag Eecon1.cfgs then m
  else { m with eedata := m.eeprom.getD m.eepromAddress 0 }

/-- Writes the addressed EEPROM byte, if the write is unlocked and enabled and the EEPROM
selected. Either way the unlocking is used up. -/
def beginWrite (m : Emulator) : Emulator :=
  if m.unlock ≠ .both ∨ ¬ m.flag Eecon1.wren ∨ m.flag Eecon1.eepgd ∨ m.flag Eecon1.cfgs then
    { m with unlock := .none }
  else
    { m with
      unlock := .none
      eeprom := m.eeprom.setIfInBounds m.eepromAddress m.eedata
      busy := m.setup.busyReads
      eecon1 :=
        if m.setup.busyReads = 0 ∧ ¬ m.setup.stuck then
          Bits.clear (Bits.set m.eecon1 Eecon1.wr) Eecon1.wr
        else Bits.set m.eecon1 Eecon1.wr }

/-- A read of EECON1 brings a running EEPROM write closer to its end. -/
def tick (m : Emulator) : Emulator :=
  if m.setup.stuck ∨ m.busy = 0 then m
  else
    { m with
      busy := m.busy - 1
      eecon1 := if m.busy = 1 then Bits.clear m.eecon1 Eecon1.wr else m.eecon1 }

/-- In EECON1, RD and WR start a read and a write and are not stored. -/
def bsf (m : Emulator) (register : UInt8) (bit : Fin 8) : Emulator :=
  if register = Register.eecon1.address then
    if bit = Eecon1.rd then m.beginRead
    else if bit = Eecon1.wr then m.beginWrite
    else { m with eecon1 := Bits.set m.eecon1 bit }
  else m.putRegister register (Bits.set (m.getRegister register) bit)

/-- WR is cleared by the part alone. -/
def bcf (m : Emulator) (register : UInt8) (bit : Fin 8) : Emulator :=
  if register = Register.eecon1.address ∧ bit = Eecon1.wr then m
  else m.putRegister register (Bits.clear (m.getRegister register) bit)

def execute (m : Emulator) : Instruction → Emulator
  | .nop | .goto _ | .gotoHigh _ => m
  | .movlw k => { m with w := k }
  | .movwf f => m.putRegister f m.w
  | .movfW f =>
    let m := { m with w := m.getRegister f }
    if f = Register.eecon1.address then m.tick else m
  | .incf f => m.putRegister f (m.getRegister f + 1)
  | .bsf f b => m.bsf f b
  | .bcf f b => m.bcf f b

def latchSize (m : Emulator) : Nat := max m.setup.writeBlock 2

/-- A table write goes to a control register, to the configuration latch or to the code latch.
The first two take the byte that the address selects by parity. -/
def latchWord (m : Emulator) (data : UInt16) : Emulator :=
  let low := data.toNat.toUInt8
  let high := (data.toNat / 256).toUInt8
  let selected := if m.pointer % 2 = 0 then low else high
  if m.pointer = Address.eraseKeyLow then { m with eraseKeyLow := selected }
  else if m.pointer = Address.eraseKeyHigh then { m with eraseKeyHigh := selected }
  else if m.pointer = Address.panelControl then { m with panelControl := selected }
  else if Address.config ≤ m.pointer then
    { m with configLatch := m.configLatch.insert m.pointer selected }
  else
    let offset := (m.pointer - m.pointer % 2) % m.latchSize
    { m with latch := (m.latch.insert offset low).insert (offset + 1) high }

def movePointer (m : Emulator) (step : Nat) : Emulator :=
  { m with pointer := (m.pointer + step) % 16777216 }

def arm (m : Emulator) : Emulator := { m with armed := some m.pointer }

def eraseFrom (cells : Array UInt8) (start : Nat) : (count : Nat) → Array UInt8
  | 0 => cells
  | count + 1 => eraseFrom (cells.setIfInBounds start erased) (start + 1) count

def clearRow (m : Emulator) (address : Nat) : Emulator :=
  let page := max m.setup.erasePage 1
  let start := address - address % page
  if m.setup.codeSize ≤ start then m
  else
    { m with
      code := eraseFrom m.code start (min page (m.setup.codeSize - start))
      rowErases := m.rowErases + 1 }

/-- Stores the configuration latch; what lies past the configuration is dropped. -/
def commitConfig (config : Array UInt8) (latch : Std.TreeMap Nat UInt8) : Array UInt8 :=
  latch.foldl (fun config address b => config.setIfInBounds (address - Address.config) b) config

/-- Clears bits in the write block at an address; what lies past the code is dropped. -/
def commitCode (code : Array UInt8) (block : Nat) (latch : Std.TreeMap Nat UInt8) : Array UInt8 :=
  latch.foldl (fun code offset b => code.modify (block + offset) (· &&& b)) code

/-- Runs the cycle that was armed at an address: a row erase, or the latches stored. The latches
are empty afterwards in any case. -/
def runCycle (m : Emulator) (trigger : Nat) : Emulator :=
  let latch := m.latch
  let configLatch := m.configLatch
  let m := { m with latch := {}, configLatch := {}, armed := none }
  if ¬ m.flag Eecon1.eepgd then m
  else if m.flag Eecon1.free then
    let enabled := m.flag Eecon1.wren
    let m := { m with eecon1 := Bits.clear m.eecon1 Eecon1.free }
    if enabled then m.clearRow trigger else m
  else if m.flag Eecon1.cfgs then { m with config := commitConfig m.config configLatch }
  else { m with code := commitCode m.code (trigger - trigger % m.latchSize) latch }

/-- The family whose key the part answers to; any part but those of the second family takes the
key of the first. -/
def family (m : Emulator) : Family :=
  if Family.f2xxx.codes.contains (DeviceId.familyCode m.setup.deviceId) then .f2xxx else .f2xx

def controlRegister (m : Emulator) (address : Nat) : UInt8 :=
  if address = Address.eraseKeyLow then m.eraseKeyLow
  else if address = Address.eraseKeyHigh then m.eraseKeyHigh
  else m.panelControl

def isKeyed (m : Emulator) : Bool :=
  m.family.eraseKey.all fun (address, data) => m.controlRegister address == data.toNat.toUInt8

def wipe (m : Emulator) : Emulator :=
  { m with
    code := Array.replicate m.code.size erased
    config := Array.replicate m.config.size erased
    eeprom := Array.replicate m.eeprom.size erased
    eraseKeyLow := 0
    eraseKeyHigh := 0
    latch := {}
    configLatch := {}
    bulkErases := m.bulkErases + 1 }

/-- A hold with the clock high runs the armed cycle; any other runs a bulk erase, if keyed. -/
def hold (m : Emulator) (h : Hold) : Emulator :=
  if h.lines.clock then
    match m.armed with
    | some trigger => m.runCycle trigger
    | none => m
  else if m.isKeyed then m.wipe
  else m

def serve (m : Emulator) (b : UInt8) : Except Fault UInt8 × Emulator :=
  (.ok b, { m with tablat := b })

/-- Refuses an instruction that it does not know, a read command sent as a write and a write
command sent as a read. -/
instance : Link Emulator where
  clock t m :=
    match t with
    | .transmit .coreInstruction word =>
      match Instruction.decode word with
      | some i => (.ok 0, m.execute i)
      | none => (.error .linkFailure, m)
    | .transmit .tableWritePostInc data => (.ok 0, (m.latchWord data).movePointer 1)
    | .transmit .tableWritePostInc2 data => (.ok 0, (m.latchWord data).movePointer 2)
    | .transmit .tableWriteStartPostInc2 data => (.ok 0, (m.latchWord data).arm.movePointer 2)
    | .transmit .tableWriteStart data => (.ok 0, (m.latchWord data).arm)
    | .receive .shiftOutTablat => (.ok m.tablat, m)
    | .receive .tableRead => m.serve (m.byteAt m.pointer)
    | .receive .tableReadPostInc =>
      let b := m.byteAt m.pointer
      (m.movePointer 1).serve b
    | .receive .tableReadPostDec =>
      let b := m.byteAt m.pointer
      (m.movePointer 16777215).serve b
    | .receive .tableReadPreInc =>
      let m := m.movePointer 1
      m.serve (m.byteAt m.pointer)
    | .hold h => (.ok 0, m.hold h)
    | .data _ | .delay _ => (.ok 0, m)
    | .transmit .. | .receive _ => (.error .linkFailure, m)

end Emulator

end InCircuit
