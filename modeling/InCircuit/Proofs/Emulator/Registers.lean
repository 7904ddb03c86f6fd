import InCircuit.Proofs.Emulator.Memory
import InCircuit.Proofs.Runs

set_option autoImplicit false

/-!
# Working registers of the emulated part

Core instructions and table reads work on the registers. Apart from the instruction that starts an
EEPROM write they leave everything else as it was: memories, latches, an armed cycle, the control
registers and the counts.
-/
namespace InCircuit

namespace Bits

theorem testBit_mask (i j : Fin 8) :
    (1 <<< UInt8.ofNat i.val : UInt8).toNat.testBit j = decide (i = j) := by
  revert i j
  decide

theorem testBit_maskOut (i j : Fin 8) :
    (~~~(1 <<< UInt8.ofNat i.val) : UInt8).toNat.testBit j = decide (i ≠ j) := by
  revert i j
  decide

@[simp]
theorem test_set (b : UInt8) (i j : Fin 8) : test (set b i) j = (test b j || decide (i = j)) := by
  rw [test, set, UInt8.toNat_or, Nat.testBit_or, testBit_mask, test]

@[simp]
theorem test_clear (b : UInt8) (i j : Fin 8) :
    test (clear b i) j = (test b j && decide (i ≠ j)) := by
  rw [test, clear, UInt8.toNat_and, Nat.testBit_and, testBit_maskOut, test]

end Bits

/-- A part without its working registers. -/
structure Held where
  setup : Setup
  memory : Memory
  latch : Std.TreeMap Nat UInt8
  configLatch : Std.TreeMap Nat UInt8
  armed : Option Nat
  eraseKeyLow : UInt8
  eraseKeyHigh : UInt8
  panelControl : UInt8
  bulkErases : Nat
  rowErases : Nat

def Instruction.startsWrite : Instruction → Bool
  | bsf f b => f == Register.eecon1.address && b == Eecon1.wr
  | _ => false

namespace Emulator

def memory (m : Emulator) : Memory := ⟨m.code, m.config, m.eeprom⟩

def held (m : Emulator) : Held where
  setup := m.setup
  memory := m.memory
  latch := m.latch
  configLatch := m.configLatch
  armed := m.armed
  eraseKeyLow := m.eraseKeyLow
  eraseKeyHigh := m.eraseKeyHigh
  panelControl := m.panelControl
  bulkErases := m.bulkErases
  rowErases := m.rowErases

theorem memory_eq_of_held {m n : Emulator} (h : m.held = n.held) : m.memory = n.memory :=
  congrArg Held.memory h

/-- `I` holds whatever the working registers are. -/
def Around (I : Emulator → Prop) (m : Emulator) : Prop := ∀ n : Emulator, n.held = m.held → I n

theorem Around.self {I : Emulator → Prop} {m : Emulator} (h : Around I m) : I m := h m rfl

theorem Around.of_held {I : Emulator → Prop} {m n : Emulator} (h : Around I m)
    (hn : n.held = m.held) : Around I n := fun k hk => h k (hk.trans hn)

theorem around_memory {P : Memory → Prop} {m : Emulator} (h : P m.memory) :
    Around (fun n => P n.memory) m := by
  intro n hn
  rw [memory_eq_of_held hn]
  exact h

theorem held_putRegister (m : Emulator) (r v : UInt8) : (m.putRegister r v).held = m.held := by
  unfold putRegister
  split <;> rfl

theorem held_beginRead (m : Emulator) : m.beginRead.held = m.held := by
  unfold beginRead
  split <;> rfl

theorem held_tick (m : Emulator) : m.tick.held = m.held := by
  unfold tick
  split <;> rfl

theorem held_execute (m : Emulator) (i : Instruction) (h : i.startsWrite = false) :
    (m.execute i).held = m.held := by
  cases i with
  | nop | goto _ | gotoHigh _ | movlw _ => rfl
  | movwf f => exact held_putRegister m f m.w
  | movfW f =>
    simp only [execute]
    split
    · rw [held_tick]; rfl
    · rfl
  | incf f => exact held_putRegister m f _
  | bsf f b =>
    simp only [execute, bsf]
    split
    · rename_i hf
      split
      · exact held_beginRead m
      · split
        · rename_i hb
          simp [Instruction.startsWrite, hf, hb] at h
        · rfl
    · exact held_putRegister m f _
  | bcf f b =>
    simp only [execute, bcf]
    split
    · rfl
    · exact held_putRegister m f _

def executeAll (m : Emulator) (is : List Instruction) : Emulator := is.foldl execute m

def pointAt (m : Emulator) (address : Nat) : Emulator :=
  { m with w := address.toUInt8, pointer := address }

end Emulator

namespace Routine

open Emulator

variable {ε : Type} {I : Emulator → Prop} {m : Emulator}

theorem goes_execute (i : Instruction) (h : i.startsWrite = false) (hI : Around I m) :
    Goes I (execute i : Routine ε Unit) m () (m.execute i) := by
  have clocked : Link.clock (.transmit .coreInstruction i.encode) m = (.ok 0, m.execute i) := by
    simp only [Link.clock, Instruction.decode_encode]
  exact (goes_clock clocked (hI _ (held_execute m i h))).bind (goes_pure I () _)

theorem goes_executeAll (is : List Instruction) (h : ∀ i ∈ is, i.startsWrite = false)
    (hI : Around I m) : Goes I (executeAll is : Routine ε Unit) m () (m.executeAll is) := by
  induction is generalizing m with
  | nil => exact goes_pure I () m
  | cons i is ih =>
    have hi : i.startsWrite = false := h i (List.mem_cons_self)
    exact (goes_execute i hi hI).bind
      (ih (fun j hj => h j (List.mem_cons_of_mem i hj)) (hI.of_held (held_execute m i hi)))

theorem goes_transmit {c : Command} {data : UInt16} {n : Emulator}
    (h : Link.clock (.transmit c data) m = (.ok 0, n)) (hI : I n) :
    Goes I (transmit c data : Routine ε Unit) m () n :=
  (goes_clock h hI).bind (goes_pure I () n)

theorem goes_hold (h : Hold) (hI : I (m.hold h)) :
    Goes I (hold h : Routine ε Unit) m () (m.hold h) :=
  (goes_clock rfl hI).bind (goes_pure I () _)

theorem goes_delay (micros : UInt32) (hI : I m) : Goes I (delay micros : Routine ε Unit) m () m :=
  (goes_clock rfl hI).bind (goes_pure I () m)

theorem goes_sendData (payload : UInt32) (hI : I m) :
    Goes I (sendData payload : Routine ε Unit) m () m :=
  (goes_clock rfl hI).bind (goes_pure I () m)

theorem goes_postProgram (hI : I (m.hold .postProgram)) :
    Goes I (postProgram : Routine ε Unit) m () (m.hold .postProgram) :=
  (goes_hold _ hI).bind ((goes_delay 5 hI).bind (goes_sendData 0 hI))

theorem goes_shiftOut (hI : I m) : Goes I (shiftOut : Routine ε UInt8) m m.tablat m :=
  goes_clock rfl hI

theorem goes_nextByte (hI : Around I m) :
    Goes I (nextByte : Routine ε UInt8) m (m.byteAt m.pointer)
      { m with pointer := (m.pointer + 1) % 16777216, tablat := m.byteAt m.pointer } :=
  goes_clock rfl (hI _ rfl)

theorem goes_load (r : Register) (v : UInt8) (hI : Around I m) :
    Goes I (load r v : Routine ε Unit) m () ({ m with w := v }.putRegister r.address v) :=
  (goes_execute (.movlw v) rfl hI).bind (goes_execute (.movwf r.address) rfl hI)

theorem goes_setPointer {address : Nat} (h : address ≤ Address.last) (hI : Around I m) :
    Goes I (setPointer address : Routine ε Unit) m () (m.pointAt address) := by
  have hn : ¬ Address.last < address := by omega
  have hlast : Address.last = 16777215 := rfl
  let upper := TablePointer.setUpper m.pointer (TablePointer.upper address)
  let high := TablePointer.setHigh upper (TablePointer.high address)
  have first : Goes I (load .tblptrU (address / 65536).toUInt8 : Routine ε Unit) m ()
      { m with w := (address / 65536).toUInt8, pointer := upper } := goes_load .tblptrU _ hI
  have second : Goes I (load .tblptrH (address / 256).toUInt8 : Routine ε Unit)
      { m with w := (address / 65536).toUInt8, pointer := upper } ()
      { m with w := (address / 256).toUInt8, pointer := high } :=
    goes_load .tblptrH _ (hI.of_held rfl)
  have third : Goes I (load .tblptrL address.toUInt8 : Routine ε Unit)
      { m with w := (address / 256).toUInt8, pointer := high } ()
      { m with
        w := address.toUInt8
        pointer := TablePointer.setLow high (TablePointer.low address) } :=
    goes_load .tblptrL _ (hI.of_held rfl)
  rw [TablePointer.set_bytes m.pointer (by omega)] at third
  unfold setPointer
  rw [if_neg hn]
  exact first.bind (second.bind third)

end Routine

end InCircuit
