import InCircuit.Proofs.Emulator.Registers

set_option autoImplicit false

/-!
# Programming and erase cycles of the emulated part

A part is idle when no cycle is armed and both latches are empty. From an idle part each cycle that
a procedure runs leads to an idle part again, with the memory changed as a whole: between the
transfers of a cycle the memory is either the one before or the one after.
-/
namespace InCircuit

namespace Emulator

structure Lock where
  keyLow : UInt8
  keyHigh : UInt8
  unlock : Unlocking

def lock (m : Emulator) : Lock := ⟨m.eraseKeyLow, m.eraseKeyHigh, m.unlock⟩

structure Idle (s : Setup) (memory : Memory) (lock : Lock) (m : Emulator) : Prop where
  setup : m.setup = s
  memory : m.memory = memory
  lock : m.lock = lock
  latch : m.latch = {}
  configLatch : m.configLatch = {}
  armed : m.armed = none

theorem Idle.of_held {s : Setup} {memory : Memory} {lock : Lock} {m n : Emulator}
    (h : Idle s memory lock m) (hn : n.held = m.held) (hu : n.unlock = m.unlock) :
    Idle s memory lock n where
  setup := (congrArg Held.setup hn).trans h.setup
  memory := (congrArg Held.memory hn).trans h.memory
  lock := by
    rw [← h.lock, Emulator.lock, Emulator.lock, hu]
    exact congrArg (fun k : Held => Lock.mk k.eraseKeyLow k.eraseKeyHigh m.unlock) hn
  latch := (congrArg Held.latch hn).trans h.latch
  configLatch := (congrArg Held.configLatch hn).trans h.configLatch
  armed := (congrArg Held.armed hn).trans h.armed

structure Mode where
  eepgd : Bool
  cfgs : Bool
  free : Bool
  wren : Bool

def Mode.ofByte (b : UInt8) : Mode where
  eepgd := Bits.test b Eecon1.eepgd
  cfgs := Bits.test b Eecon1.cfgs
  free := Bits.test b Eecon1.free
  wren := Bits.test b Eecon1.wren

def mode (m : Emulator) : Mode := Mode.ofByte m.eecon1

@[simp]
theorem Mode.ofByte_set (b : UInt8) (i : Fin 8) :
    ofByte (Bits.set b i) =
      ⟨(ofByte b).eepgd || decide (i = Eecon1.eepgd), (ofByte b).cfgs || decide (i = Eecon1.cfgs),
        (ofByte b).free || decide (i = Eecon1.free),
        (ofByte b).wren || decide (i = Eecon1.wren)⟩ := by
  simp [ofByte]

@[simp]
theorem Mode.ofByte_clear (b : UInt8) (i : Fin 8) :
    ofByte (Bits.clear b i) =
      ⟨(ofByte b).eepgd && decide (i ≠ Eecon1.eepgd), (ofByte b).cfgs && decide (i ≠ Eecon1.cfgs),
        (ofByte b).free && decide (i ≠ Eecon1.free),
        (ofByte b).wren && decide (i ≠ Eecon1.wren)⟩ := by
  simp [ofByte]

end Emulator

/-! ## Switching modes -/

namespace Instruction

/-- An instruction that at most changes the mode bits of EECON1. -/
def isSwitch : Instruction → Bool
  | bsf f b => f == Register.eecon1.address && b != Eecon1.rd && b != Eecon1.wr
  | bcf f b => f == Register.eecon1.address && b != Eecon1.wr
  | nop | goto _ | gotoHigh _ => true
  | _ => false

def switch (b : UInt8) : Instruction → UInt8
  | bsf _ i => Bits.set b i
  | bcf _ i => Bits.clear b i
  | _ => b

theorem startsWrite_of_isSwitch {i : Instruction} (h : i.isSwitch = true) :
    i.startsWrite = false := by
  cases i with
  | bsf f b =>
    unfold isSwitch at h
    simp only [Bool.and_eq_true, bne_iff_ne] at h
    have other : (b == Eecon1.wr) = false := beq_false_of_ne h.2
    rw [startsWrite, other, Bool.and_false]
  | _ => rfl

theorem execute_of_isSwitch {i : Instruction} (h : i.isSwitch = true) (m : Emulator) :
    m.execute i = { m with eecon1 := switch m.eecon1 i } := by
  cases i with
  | nop | goto _ | gotoHigh _ => rfl
  | movlw _ | movwf _ | movfW _ | incf _ => cases h
  | bsf f b =>
    unfold isSwitch at h
    simp only [Bool.and_eq_true, beq_iff_eq, bne_iff_ne] at h
    obtain ⟨⟨rfl, hr⟩, hw⟩ := h
    change m.bsf Register.eecon1.address b = _
    rw [Emulator.bsf, if_pos rfl, if_neg hr, if_neg hw]
    rfl
  | bcf f b =>
    unfold isSwitch at h
    simp only [Bool.and_eq_true, beq_iff_eq, bne_iff_ne] at h
    obtain ⟨rfl, hw⟩ := h
    change m.bcf Register.eecon1.address b = _
    rw [Emulator.bcf, if_neg fun both => hw both.2]
    rfl

end Instruction

namespace Routine

open Emulator Instruction

variable {ε : Type} {I : Emulator → Prop} {m : Emulator}

theorem executeAll_of_isSwitch {is : List Instruction} (h : is.all isSwitch = true) (m : Emulator) :
    m.executeAll is = { m with eecon1 := is.foldl switch m.eecon1 } := by
  induction is generalizing m with
  | nil => rfl
  | cons i is ih =>
    obtain ⟨hi, his⟩ := Bool.and_eq_true_iff.mp h
    change (m.execute i).executeAll is = _
    rw [ih his, execute_of_isSwitch hi]
    rfl

theorem goes_switch {is : List Instruction} (h : is.all isSwitch = true) (hI : Around I m) :
    Goes I (executeAll is : Routine ε Unit) m ()
      { m with eecon1 := is.foldl switch m.eecon1 } := by
  rw [← executeAll_of_isSwitch h m]
  exact goes_executeAll is (fun i hi => startsWrite_of_isSwitch (List.all_eq_true.mp h i hi)) hI

end Routine

/-! ## Loading the latches -/

theorem add_mod_of_mod_add_lt {a k n : Nat} (h : a % n + k < n) : (a + k) % n = a % n + k := by
  rw [Nat.add_mod, Nat.mod_eq_of_lt (show k < n by omega)]
  exact Nat.mod_eq_of_lt h

def wordBytes (ws : List UInt16) : List UInt8 :=
  ws.flatMap fun w => [w.toNat.toUInt8, (w.toNat / 256).toUInt8]

theorem length_wordBytes (ws : List UInt16) : (wordBytes ws).length = 2 * ws.length := by
  induction ws with
  | nil => rfl
  | cons w ws ih =>
    change (wordBytes ws).length + 2 = _
    rw [ih, List.length_cons]
    omega

namespace Emulator

def fillLatch (latch : Std.TreeMap Nat UInt8) (offset : Nat) : List UInt16 → Std.TreeMap Nat UInt8
  | [] => latch
  | w :: ws =>
    fillLatch ((latch.insert offset w.toNat.toUInt8).insert (offset + 1) (w.toNat / 256).toUInt8)
      (offset + 2) ws

theorem getElem?_fillLatch (latch : Std.TreeMap Nat UInt8) (offset : Nat) (ws : List UInt16)
    (o : Nat) : (fillLatch latch offset ws)[o]? =
      if offset ≤ o ∧ o < offset + 2 * ws.length then (wordBytes ws)[o - offset]?
      else latch[o]? := by
  induction ws generalizing latch offset with
  | nil =>
    have h : ¬ (offset ≤ o ∧ o < offset + 2 * 0) := by omega
    rw [List.length_nil, if_neg h]
    rfl
  | cons w ws ih =>
    rw [fillLatch, ih, Std.TreeMap.getElem?_insert, Std.TreeMap.getElem?_insert, List.length_cons]
    simp only [Std.compare_eq_iff_eq]
    rcases Nat.lt_trichotomy o offset with h | rfl | h
    · rw [if_neg (by omega), if_neg (by omega), if_neg (by omega), if_neg (by omega)]
    · rw [if_neg (by omega), if_neg (by omega), if_pos rfl, if_pos (by omega), Nat.sub_self]
      rfl
    · by_cases hs : o = offset + 1
      · subst hs
        rw [if_neg (by omega), if_pos rfl, if_pos (by omega), Nat.add_sub_cancel_left]
        rfl
      · have hd : o - offset = o - (offset + 2) + 2 := by omega
        by_cases hl : o < offset + 2 + 2 * ws.length
        · rw [if_pos (by omega), if_pos (by omega), hd]
          rfl
        · rw [if_neg (by omega), if_neg (by omega), if_neg (by omega), if_neg (by omega)]

theorem fillLatch_empty (offset : Nat) (ws : List UInt16) (o : Nat) :
    (fillLatch {} offset ws)[o]? = if offset ≤ o then (wordBytes ws)[o - offset]? else none := by
  rw [getElem?_fillLatch]
  by_cases h : offset ≤ o
  · by_cases hl : o < offset + 2 * ws.length
    · rw [if_pos ⟨h, hl⟩, if_pos h]
    · have past : (wordBytes ws)[o - offset]? = none := by
        rw [List.getElem?_eq_none_iff, length_wordBytes]
        omega
      rw [if_neg (by omega), if_pos h, past, Std.TreeMap.getElem?_emptyc]
  · rw [if_neg (by omega), if_neg h, Std.TreeMap.getElem?_emptyc]

theorem latchWord_code (m : Emulator) (w : UInt16) (h : m.pointer < Address.config)
    (even : m.pointer % 2 = 0) :
    m.latchWord w = { m with latch := fillLatch m.latch (m.pointer % m.latchSize) [w] } := by
  have hconfig : Address.config = 3145728 := rfl
  have hlow : Address.eraseKeyLow = 3932164 := rfl
  have hhigh : Address.eraseKeyHigh = 3932165 := rfl
  have hpanel : Address.panelControl = 3932166 := rfl
  simp only [latchWord, if_neg (show m.pointer ≠ Address.eraseKeyLow by omega),
    if_neg (show m.pointer ≠ Address.eraseKeyHigh by omega),
    if_neg (show m.pointer ≠ Address.panelControl by omega),
    if_neg (show ¬ Address.config ≤ m.pointer by omega), even, Nat.sub_zero]
  rfl

end Emulator

namespace Routine

open Emulator

variable {ε : Type} {P : Memory → Prop}

theorem goes_loadBuffer (w : UInt16) (ws : List UInt16) (m : Emulator) (hP : P m.memory)
    (even : m.pointer % 2 = 0)
    (room : m.pointer % m.latchSize + 2 * (ws.length + 1) ≤ m.latchSize)
    (low : m.pointer + 2 * ws.length < Address.config) :
    Goes (fun n => P n.memory) (loadBuffer (w :: ws) : Routine ε Unit) m ()
      { m with
        latch := fillLatch m.latch (m.pointer % m.latchSize) (w :: ws)
        pointer := m.pointer + 2 * ws.length
        armed := some (m.pointer + 2 * ws.length) } := by
  induction ws generalizing w m with
  | nil =>
    have clocked : Link.clock (.transmit .tableWriteStart w) m = (.ok 0, (m.latchWord w).arm) := rfl
    rw [latchWord_code m w low even] at clocked
    exact goes_transmit clocked hP
  | cons v ws ih =>
    rw [List.length_cons] at room low
    have clocked : Link.clock (.transmit .tableWritePostInc2 w) m =
      (.ok 0, (m.latchWord w).movePointer 2) := rfl
    have hconfig : Address.config = 3145728 := rfl
    have wrap : (m.pointer + 2) % 16777216 = m.pointer + 2 := Nat.mod_eq_of_lt (by omega)
    have next : (m.pointer + 2) % m.latchSize = m.pointer % m.latchSize + 2 :=
      add_mod_of_mod_add_lt (by omega)
    rw [latchWord_code m w (by omega) even] at clocked
    have rest := ih v
      { m with
        latch := fillLatch m.latch (m.pointer % m.latchSize) [w]
        pointer := m.pointer + 2 } hP
      (by change (m.pointer + 2) % 2 = 0; omega)
      (by change (m.pointer + 2) % m.latchSize + _ ≤ m.latchSize; omega)
      (by change m.pointer + 2 + _ < _; omega)
    simp only [movePointer, wrap] at clocked
    refine (goes_transmit clocked hP).bind ?_
    change Goes _ _ _ _ { m with
      latch := fillLatch (fillLatch m.latch (m.pointer % m.latchSize) [w])
        ((m.pointer + 2) % m.latchSize) (v :: ws)
      pointer := m.pointer + 2 + 2 * ws.length
      armed := some (m.pointer + 2 + 2 * ws.length) } at rest
    rw [next, Nat.add_right_comm, Nat.add_assoc] at rest
    exact rest

end Routine

namespace Emulator

/-! ## Cycles -/

theorem hold_postProgram {m : Emulator} {trigger : Nat} (h : m.armed = some trigger) :
    m.hold .postProgram = m.runCycle trigger := by
  simp [hold, Hold.postProgram, h]

theorem runCycle_code {m : Emulator} (trigger : Nat) (eepgd : m.mode.eepgd = true)
    (cfgs : m.mode.cfgs = false) (free : m.mode.free = false) :
    m.runCycle trigger = { m with
      latch := {}
      configLatch := {}
      armed := none
      code := commitCode m.code (trigger - trigger % m.latchSize) m.latch } := by
  have he : m.flag Eecon1.eepgd = true := eepgd
  have hc : m.flag Eecon1.cfgs = false := cfgs
  have hf : m.flag Eecon1.free = false := free
  simp only [flag] at he hc hf
  simp [runCycle, flag, he, hc, hf, latchSize]

theorem runCycle_erase {m : Emulator} (trigger : Nat) (eepgd : m.mode.eepgd = true)
    (free : m.mode.free = true) (wren : m.mode.wren = true) :
    m.runCycle trigger = { m with
      latch := {}
      configLatch := {}
      armed := none
      eecon1 := Bits.clear m.eecon1 Eecon1.free : Emulator }.clearRow trigger := by
  have he : m.flag Eecon1.eepgd = true := eepgd
  have hf : m.flag Eecon1.free = true := free
  have hw : m.flag Eecon1.wren = true := wren
  simp only [flag] at he hf hw
  simp [runCycle, flag, he, hf, hw]

theorem runCycle_config {m : Emulator} (trigger : Nat) (eepgd : m.mode.eepgd = true)
    (cfgs : m.mode.cfgs = true) (free : m.mode.free = false) :
    m.runCycle trigger = { m with
      latch := {}
      configLatch := {}
      armed := none
      config := commitConfig m.config m.configLatch } := by
  have he : m.flag Eecon1.eepgd = true := eepgd
  have hc : m.flag Eecon1.cfgs = true := cfgs
  have hf : m.flag Eecon1.free = false := free
  simp only [flag] at he hc hf
  simp [runCycle, flag, he, hc, hf]

theorem clearRow_page {m : Emulator} {start : Nat} (h : start % max m.setup.erasePage 1 = 0)
    (room : start + max m.setup.erasePage 1 ≤ m.setup.codeSize) :
    m.clearRow start = { m with
      code := eraseFrom m.code start (max m.setup.erasePage 1)
      rowErases := m.rowErases + 1 } := by
  have inside : ¬ m.setup.codeSize ≤ start := by omega
  have whole : min (max m.setup.erasePage 1) (m.setup.codeSize - start) =
      max m.setup.erasePage 1 := Nat.min_eq_left (by omega)
  simp only [clearRow, h, Nat.sub_zero, if_neg inside, whole]

theorem commitConfig_insert (config : Array UInt8) (address : Nat) (b : UInt8) :
    commitConfig config (({} : Std.TreeMap Nat UInt8).insert address b) =
      config.setIfInBounds (address - Address.config) b := by
  have single : (({} : Std.TreeMap Nat UInt8).insert address b).toList = [(address, b)] := rfl
  rw [commitConfig, Std.TreeMap.foldl_eq_foldl_toList, single, List.foldl_cons, List.foldl_nil]

theorem latchWord_config (m : Emulator) (w : UInt16) (h : Address.config ≤ m.pointer)
    (below : m.pointer < Address.eraseKeyLow) :
    m.latchWord w = { m with
      configLatch := m.configLatch.insert m.pointer
        (if m.pointer % 2 = 0 then w.toNat.toUInt8 else (w.toNat / 256).toUInt8) } := by
  have hlow : Address.eraseKeyLow = 3932164 := rfl
  have hhigh : Address.eraseKeyHigh = 3932165 := rfl
  have hpanel : Address.panelControl = 3932166 := rfl
  unfold latchWord
  rw [if_neg (by omega), if_neg (by omega), if_neg (by omega), if_pos h]

end Emulator

namespace Routine

open Emulator

variable {ε β : Type} {P : Memory → Prop} {s : Setup} {memory : Memory} {lock : Lock} {m : Emulator}
  {Q : Except Fault β → Emulator → Prop} {rest : Routine ε β}

theorem along_programBlock {start : Nat} {w : UInt16} {ws : List UInt16}
    (idle : Idle s memory lock m) (eepgd : m.mode.eepgd = true) (cfgs : m.mode.cfgs = false)
    (free : m.mode.free = false)
    (even : start % 2 = 0)
    (room : start % max s.writeBlock 2 + 2 * (ws.length + 1) ≤ max s.writeBlock 2)
    (low : start + 2 * ws.length < Address.config) (before : P memory)
    (after : P (memory.clearCode start (wordBytes (w :: ws))))
    (next : ∀ n : Emulator, Idle s (memory.clearCode start (wordBytes (w :: ws))) lock n →
      n.mode = m.mode → rest.run.Along (fun n => P n.memory) Q n) :
    (do setPointer start; loadBuffer (w :: ws); postProgram; rest : Routine ε β).run.Along
      (fun n => P n.memory) Q m := by
  have hP : P m.memory := by rw [idle.memory]; exact before
  have hlast : Address.last = 16777215 := rfl
  have hconfig : Address.config = 3145728 := rfl
  -- The last word arms the cycle at its own address, which lies in the block of the first.
  let trigger := start + 2 * ws.length
  let loaded : Emulator := { m.pointAt start with
    latch := fillLatch m.latch (start % m.latchSize) (w :: ws)
    pointer := trigger
    armed := some trigger }
  have pointed : Goes (fun n => P n.memory) (setPointer start : Routine ε Unit) m ()
      (m.pointAt start) := goes_setPointer (by omega) (around_memory hP)
  have size : m.latchSize = max s.writeBlock 2 := by rw [latchSize, idle.setup]
  have filled : Goes (fun n => P n.memory) (loadBuffer (w :: ws) : Routine ε Unit)
      (m.pointAt start) () loaded :=
    goes_loadBuffer w ws (m.pointAt start) hP even (by rw [← size] at room; exact room) low
  have cycled : loaded.hold .postProgram = { loaded with
      latch := {}
      configLatch := {}
      armed := none
      code := Memory.clearBits start (wordBytes (w :: ws)) m.code } := by
    rw [hold_postProgram (show loaded.armed = some trigger from rfl),
      runCycle_code (m := loaded) trigger eepgd cfgs free]
    have offset : trigger % m.latchSize = start % m.latchSize + 2 * ws.length := by
      rw [size]
      exact add_mod_of_mod_add_lt (by omega)
    have block : trigger - trigger % m.latchSize + start % m.latchSize = start := by
      have := Nat.mod_le start m.latchSize
      omega
    have committed := commitCode_eq_clearBits m.code (trigger - trigger % m.latchSize)
      (start % m.latchSize) loaded.latch (wordBytes (w :: ws)) (by
        intro o
        change (fillLatch m.latch _ _)[o]? = _
        rw [idle.latch, fillLatch_empty])
    rw [block] at committed
    exact congrArg (fun code => { loaded with
      latch := {}, configLatch := {}, armed := none, code := code }) committed
  have ended : Idle s (memory.clearCode start (wordBytes (w :: ws))) lock
      (loaded.hold .postProgram) := by
    rw [cycled]
    exact ⟨idle.setup, by rw [← idle.memory]; rfl, idle.lock, rfl, rfl, rfl⟩
  refine pointed.along (filled.along ((goes_postProgram ?_).along (next _ ended ?_)))
  · rw [ended.memory]
    exact after
  · rw [cycled]
    rfl

theorem along_erasePage {start : Nat} (idle : Idle s memory lock m) (eepgd : m.mode.eepgd = true)
    (free : m.mode.free = true) (wren : m.mode.wren = true)
    (aligned : start % max s.erasePage 1 = 0) (room : start + max s.erasePage 1 ≤ s.codeSize)
    (low : start < Address.config) (even : start % 2 = 0) (before : P memory)
    (after : P { memory with code := eraseFrom memory.code start (max s.erasePage 1) })
    (next : ∀ n : Emulator,
      Idle s { memory with code := eraseFrom memory.code start (max s.erasePage 1) } lock n →
      n.mode = { m.mode with free := false } → rest.run.Along (fun n => P n.memory) Q n) :
    (do setPointer start; transmit .tableWriteStart 0; postProgram; rest : Routine ε β).run.Along
      (fun n => P n.memory) Q m := by
  have hP : P m.memory := by rw [idle.memory]; exact before
  have hlast : Address.last = 16777215 := rfl
  have hconfig : Address.config = 3145728 := rfl
  have pointed : Goes (fun n => P n.memory) (setPointer start : Routine ε Unit) m ()
      (m.pointAt start) := goes_setPointer (by omega) (around_memory hP)
  -- The word only serves to arm the cycle: a row erase drops what is latched.
  let loaded : Emulator := { m.pointAt start with
    latch := fillLatch m.latch (start % m.latchSize) [0]
    armed := some start }
  have clocked : Link.clock (.transmit .tableWriteStart 0) (m.pointAt start) =
      (.ok 0, ((m.pointAt start).latchWord 0).arm) := rfl
  rw [latchWord_code (m.pointAt start) 0 low even] at clocked
  have armed : Goes (fun n => P n.memory) (transmit .tableWriteStart 0 : Routine ε Unit)
      (m.pointAt start) () loaded := goes_transmit clocked hP
  have setup : loaded.setup = s := idle.setup
  have cycled : loaded.hold .postProgram = { loaded with
      latch := {}
      configLatch := {}
      armed := none
      eecon1 := Bits.clear m.eecon1 Eecon1.free
      code := eraseFrom m.code start (max s.erasePage 1)
      rowErases := m.rowErases + 1 } := by
    rw [hold_postProgram (show loaded.armed = some start from rfl),
      runCycle_erase (m := loaded) start eepgd free wren, clearRow_page]
    · rw [← setup]
      rfl
    · rw [← setup] at aligned
      exact aligned
    · rw [← setup] at room
      exact room
  have ended : Idle s { memory with code := eraseFrom memory.code start (max s.erasePage 1) } lock
      (loaded.hold .postProgram) := by
    rw [cycled]
    exact ⟨idle.setup, by rw [← idle.memory]; rfl, idle.lock, rfl, rfl, rfl⟩
  refine pointed.along (armed.along ((goes_postProgram ?_).along (next _ ended ?_)))
  · rw [ended.memory]
    exact after
  · rw [cycled]
    change Mode.ofByte (Bits.clear m.eecon1 Eecon1.free) = _
    rw [Mode.ofByte_clear]
    simp [Eecon1.free, Eecon1.eepgd, Eecon1.cfgs, Eecon1.wren, mode]

theorem along_programByte {offset : Nat} {b : UInt8} {w : UInt16} (idle : Idle s memory lock m)
    (eepgd : m.mode.eepgd = true) (cfgs : m.mode.cfgs = true) (free : m.mode.free = false)
    (here : m.pointer = Address.config + offset) (small : offset < 32)
    (selected : (if m.pointer % 2 = 0 then w.toNat.toUInt8 else (w.toNat / 256).toUInt8) = b)
    (before : P memory) (after : P (memory.setConfig offset b))
    (next : ∀ n : Emulator, Idle s (memory.setConfig offset b) lock n → n.mode = m.mode →
      n.pointer = m.pointer → rest.run.Along (fun n => P n.memory) Q n) :
    (do transmit .tableWriteStart w; postProgram; rest : Routine ε β).run.Along
      (fun n => P n.memory) Q m := by
  have hP : P m.memory := by rw [idle.memory]; exact before
  have hconfig : Address.config = 3145728 := rfl
  have hlow : Address.eraseKeyLow = 3932164 := rfl
  let loaded : Emulator := { m with
    configLatch := m.configLatch.insert m.pointer b
    armed := some m.pointer }
  have clocked : Link.clock (.transmit .tableWriteStart w) m = (.ok 0, (m.latchWord w).arm) := rfl
  rw [latchWord_config m w (by omega) (by omega), selected] at clocked
  have armed : Goes (fun n => P n.memory) (transmit .tableWriteStart w : Routine ε Unit) m ()
      loaded := goes_transmit clocked hP
  have cycled : loaded.hold .postProgram = { loaded with
      latch := {}
      configLatch := {}
      armed := none
      config := m.config.setIfInBounds offset b } := by
    rw [hold_postProgram (show loaded.armed = some m.pointer from rfl),
      runCycle_config (m := loaded) m.pointer eepgd cfgs free]
    have latch : loaded.configLatch = ({} : Std.TreeMap Nat UInt8).insert m.pointer b := by
      rw [← idle.configLatch]
    rw [latch, commitConfig_insert, here, Nat.add_sub_cancel_left]
  have ended : Idle s (memory.setConfig offset b) lock (loaded.hold .postProgram) := by
    rw [cycled]
    exact ⟨idle.setup, by rw [← idle.memory]; rfl, idle.lock, rfl, rfl, rfl⟩
  refine armed.along ((goes_postProgram ?_).along (next _ ended ?_ ?_))
  · rw [ended.memory]
    exact after
  · rw [cycled]
    rfl
  · rw [cycled]

end Routine

end InCircuit
