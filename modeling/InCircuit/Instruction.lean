/-!
# Registers and core instructions

The registers that programming needs with their bits, the part of the instruction set that it
needs, and the addresses with a fixed meaning. Operands are in the access bank, so an instruction
names a register by one byte. `decode` undoes `encode`, and also accepts words that differ in the
ignored access bit.
-/
namespace InCircuit

inductive Register where
  | tblptrU
  | tblptrH
  | tblptrL
  | tablat
  | eeadrH
  | eeadr
  | eedata
  | eecon2
  | eecon1
deriving DecidableEq

namespace Register

def address : Register → UInt8
  | tblptrU => 0xF8
  | tblptrH => 0xF7
  | tblptrL => 0xF6
  | tablat => 0xF5
  | eeadrH => 0xAA
  | eeadr => 0xA9
  | eedata => 0xA8
  | eecon2 => 0xA7
  | eecon1 => 0xA6

def all : List Register :=
  [tblptrU, tblptrH, tblptrL, tablat, eeadrH, eeadr, eedata, eecon2, eecon1]

def ofAddress? (a : UInt8) : Option Register := all.find? (·.address == a)

@[simp]
theorem ofAddress?_address (r : Register) : ofAddress? r.address = some r := by cases r <;> rfl

end Register

/-! ## Bits of a byte -/

namespace Bits

def test (b : UInt8) (i : Fin 8) : Bool := b.toNat.testBit i

def set (b : UInt8) (i : Fin 8) : UInt8 := b ||| 1 <<< UInt8.ofNat i.val

def clear (b : UInt8) (i : Fin 8) : UInt8 := b &&& ~~~(1 <<< UInt8.ofNat i.val)

end Bits

/-! ## The bits of EECON1 that have a meaning here -/

namespace Eecon1

/-- Code memory rather than EEPROM. -/
def eepgd : Fin 8 := 7
/-- Configuration rather than code or EEPROM. -/
def cfgs : Fin 8 := 6
/-- The next programming cycle erases a row. -/
def free : Fin 8 := 4
def wren : Fin 8 := 2
/-- Starts an EEPROM write; the part clears it when the write is done. -/
def wr : Fin 8 := 1
def rd : Fin 8 := 0

end Eecon1

/-! ## The table pointer

Three bytes that can be loaded one at a time. Loading one keeps the other two, and drops what a
pointer beyond 24 bits has above them. All three loaded give the whole address. -/

namespace TablePointer

def setUpper (pointer : Nat) (b : UInt8) : Nat := b.toNat * 65536 + pointer % 65536

def setHigh (pointer : Nat) (b : UInt8) : Nat :=
  pointer / 65536 % 256 * 65536 + b.toNat * 256 + pointer % 256

def setLow (pointer : Nat) (b : UInt8) : Nat := pointer / 256 % 65536 * 256 + b.toNat

def upper (pointer : Nat) : UInt8 := (pointer / 65536).toUInt8

def high (pointer : Nat) : UInt8 := (pointer / 256).toUInt8

def low (pointer : Nat) : UInt8 := pointer.toUInt8

theorem set_bytes {address : Nat} (pointer : Nat) (h : address < 16777216) :
    setLow (setHigh (setUpper pointer (upper address)) (high address)) (low address) = address := by
  simp only [setLow, setHigh, setUpper, upper, high, low, Nat.toUInt8, UInt8.toNat_ofNat']
  omega

end TablePointer

/-! ## Instructions -/

inductive Instruction where
  | nop
  | movlw (literal : UInt8)
  | movwf (register : UInt8)
  | movfW (register : UInt8)
  | incf (register : UInt8)
  | bsf (register : UInt8) (bit : Fin 8)
  | bcf (register : UInt8) (bit : Fin 8)
  /-- First word of a jump, with the low byte of the target. -/
  | goto (low : UInt8)
  /-- Second word of a jump, with the other twelve bits. -/
  | gotoHigh (high : Fin 4096)
deriving DecidableEq

namespace Instruction

def encode : Instruction → UInt16
  | nop => 0x0000
  | movlw k => UInt16.ofNat (0x0E00 + k.toNat)
  | movwf f => UInt16.ofNat (0x6E00 + f.toNat)
  | movfW f => UInt16.ofNat (0x5000 + f.toNat)
  | incf f => UInt16.ofNat (0x2A00 + f.toNat)
  | bsf f b => UInt16.ofNat (0x8000 + 512 * b.val + f.toNat)
  | bcf f b => UInt16.ofNat (0x9000 + 512 * b.val + f.toNat)
  | goto k => UInt16.ofNat (0xEF00 + k.toNat)
  | gotoHigh k => UInt16.ofNat (0xF000 + k.val)

def decode (word : UInt16) : Option Instruction :=
  let high := word.toNat / 256
  let operand := word.toNat.toUInt8
  if word = 0 then some nop
  else if high = 0x0E then some (movlw operand)
  else if high = 0x6E then some (movwf operand)
  else if high = 0x50 then some (movfW operand)
  else if high = 0x2A then some (incf operand)
  else if 0x80 ≤ high ∧ high ≤ 0x8F then some (bsf operand (Fin.ofNat 8 (high / 2)))
  else if 0x90 ≤ high ∧ high ≤ 0x9F then some (bcf operand (Fin.ofNat 8 (high / 2)))
  else if high = 0xEF then some (goto operand)
  else if 0xF0 ≤ high then some (gotoHigh (Fin.ofNat 4096 word.toNat))
  else none

theorem toNat_word {high : Nat} (f : UInt8) (h : high < 256) :
    (UInt16.ofNat (256 * high + f.toNat)).toNat = 256 * high + f.toNat := by
  have hf := f.toNat_lt
  rw [UInt16.toNat_ofNat']
  omega

theorem toUInt8_word (high : Nat) (f : UInt8) : (256 * high + f.toNat).toUInt8 = f := by
  apply UInt8.toNat_inj.mp
  have hf := f.toNat_lt
  simp only [Nat.toUInt8, UInt8.toNat_ofNat']
  omega

/-- What a word means, by its high byte and its operand. -/
theorem decode_word (high : Nat) (f : UInt8) (h : high < 256) (pos : 0 < high) :
    decode (UInt16.ofNat (256 * high + f.toNat)) =
      if high = 0x0E then some (movlw f)
      else if high = 0x6E then some (movwf f)
      else if high = 0x50 then some (movfW f)
      else if high = 0x2A then some (incf f)
      else if 0x80 ≤ high ∧ high ≤ 0x8F then some (bsf f (Fin.ofNat 8 (high / 2)))
      else if 0x90 ≤ high ∧ high ≤ 0x9F then some (bcf f (Fin.ofNat 8 (high / 2)))
      else if high = 0xEF then some (goto f)
      else if 0xF0 ≤ high then some (gotoHigh (Fin.ofNat 4096 (256 * high + f.toNat)))
      else none := by
  have hf := f.toNat_lt
  have ne : UInt16.ofNat (256 * high + f.toNat) ≠ 0 := by
    intro e
    have e := congrArg UInt16.toNat e
    rw [toNat_word f h, show (0 : UInt16).toNat = 0 from rfl] at e
    omega
  have quotient : (256 * high + f.toNat) / 256 = high := by omega
  simp only [decode, if_neg ne, toNat_word f h, quotient, toUInt8_word]

@[simp]
theorem decode_encode (i : Instruction) : decode i.encode = some i := by
  cases i with
  | nop => rfl
  | movlw f => exact decode_word 0x0E f (by decide) (by decide)
  | movwf f => exact decode_word 0x6E f (by decide) (by decide)
  | movfW f => exact decode_word 0x50 f (by decide) (by decide)
  | incf f => exact decode_word 0x2A f (by decide) (by decide)
  | goto f => exact decode_word 0xEF f (by decide) (by decide)
  | bsf f b =>
    have hb := b.isLt
    have e : encode (bsf f b) = UInt16.ofNat (256 * (0x80 + 2 * b.val) + f.toNat) := by
      simp only [encode]
      congr 1
      omega
    have bit : Fin.ofNat 8 ((0x80 + 2 * b.val) / 2) = b := by
      apply Fin.ext
      simp only [Fin.ofNat]
      omega
    rw [e, decode_word _ f (by omega) (by omega), bit, if_neg (by omega), if_neg (by omega),
      if_neg (by omega), if_neg (by omega), if_pos (by omega)]
  | bcf f b =>
    have hb := b.isLt
    have e : encode (bcf f b) = UInt16.ofNat (256 * (0x90 + 2 * b.val) + f.toNat) := by
      simp only [encode]
      congr 1
      omega
    have bit : Fin.ofNat 8 ((0x90 + 2 * b.val) / 2) = b := by
      apply Fin.ext
      simp only [Fin.ofNat]
      omega
    rw [e, decode_word _ f (by omega) (by omega), bit, if_neg (by omega), if_neg (by omega),
      if_neg (by omega), if_neg (by omega), if_neg (by omega), if_pos (by omega)]
  | gotoHigh k =>
    have hk := k.isLt
    have low : (UInt8.ofNat k.val).toNat = k.val % 256 := UInt8.toNat_ofNat'
    have e : encode (gotoHigh k) =
        UInt16.ofNat (256 * (0xF0 + k.val / 256) + (UInt8.ofNat k.val).toNat) := by
      simp only [encode, low]
      congr 1
      omega
    have whole : Fin.ofNat 4096 (256 * (0xF0 + k.val / 256) + (UInt8.ofNat k.val).toNat) = k := by
      apply Fin.ext
      simp only [Fin.ofNat, low]
      omega
    rw [e, decode_word _ _ (by omega) (by omega), whole, if_neg (by omega), if_neg (by omega),
      if_neg (by omega), if_neg (by omega), if_neg (by omega), if_neg (by omega),
      if_neg (by omega), if_pos (by omega)]

def setBit (r : Register) (b : Fin 8) : Instruction := bsf r.address b

def clearBit (r : Register) (b : Fin 8) : Instruction := bcf r.address b

def setEepgd : Instruction := setBit .eecon1 Eecon1.eepgd
def clearEepgd : Instruction := clearBit .eecon1 Eecon1.eepgd
def setCfgs : Instruction := setBit .eecon1 Eecon1.cfgs
def clearCfgs : Instruction := clearBit .eecon1 Eecon1.cfgs
def setFree : Instruction := setBit .eecon1 Eecon1.free
def setWren : Instruction := setBit .eecon1 Eecon1.wren
def clearWren : Instruction := clearBit .eecon1 Eecon1.wren
def setWr : Instruction := setBit .eecon1 Eecon1.wr
def setRd : Instruction := setBit .eecon1 Eecon1.rd

def advancePointer : Instruction := incf Register.tblptrL.address

/-- The jump to `0x100000` that opens a run of configuration writes. -/
def gotoConfigLow : Instruction := goto 0x00
def gotoConfigHigh : Instruction := gotoHigh 0x800

end Instruction

/-! ## Addresses with a fixed meaning -/

namespace Address

/-- The highest address that the table pointer reaches. -/
def last : Nat := 0xFFFFFF
/-- Two words of identification: the family code, then part and revision. -/
def deviceId : Nat := 0x3FFFFE
def config : Nat := 0x300000
/-- The low and the high byte of the bulk erase key. -/
def eraseKeyLow : Nat := 0x3C0004
def eraseKeyHigh : Nat := 0x3C0005
/-- Selects writing one panel or several at once. -/
def panelControl : Nat := 0x3C0006

end Address

end InCircuit
