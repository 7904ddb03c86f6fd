import InCircuit.Proofs.Emulator.Cycles
import InCircuit.Proofs.Parts
import InCircuit.Workflow

set_option autoImplicit false

/-!
# Erasing the emulated part

Both ways of erasing leave an idle part idle. Erasing page by page passes through the memories
whose first pages are erased; the bulk erase changes all memories in one step.
-/
namespace InCircuit

namespace Emulator

/-! ## Control registers -/

theorem latchWord_keyLow {m : Emulator} (data : UInt16) (h : m.pointer = Address.eraseKeyLow) :
    m.latchWord data = { m with eraseKeyLow := data.toNat.toUInt8 } := by
  simp [latchWord, h, Address.eraseKeyLow]

theorem latchWord_keyHigh {m : Emulator} (data : UInt16) (h : m.pointer = Address.eraseKeyHigh) :
    m.latchWord data = { m with eraseKeyHigh := (data.toNat / 256).toUInt8 } := by
  simp [latchWord, h, Address.eraseKeyLow, Address.eraseKeyHigh]

theorem latchWord_panel {m : Emulator} (data : UInt16) (h : m.pointer = Address.panelControl) :
    m.latchWord data = { m with panelControl := data.toNat.toUInt8 } := by
  simp [latchWord, h, Address.panelControl, Address.eraseKeyLow, Address.eraseKeyHigh]

theorem hold_erase {m : Emulator} (millis : UInt32) (h : m.isKeyed = true) :
    m.hold (.erase millis) = m.wipe := by
  simp [hold, Hold.erase, h]

end Emulator

namespace Routine

open Emulator Procedure

variable {ε : Type} {P : Memory → Prop} {s : Setup} {memory : Memory} {lock : Lock} {m : Emulator}

theorem goes_storeWord {I : Emulator → Prop} {address : Nat} {data : UInt16} {n : Emulator}
    (h : address ≤ Address.last) (hI : Around I m)
    (hn : ((m.pointAt address).latchWord data).movePointer 1 = n) (hIn : I n) :
    Goes I (storeWord address data : Routine ε Unit) m () n := by
  subst hn
  exact (goes_setPointer h hI).bind (goes_transmit rfl hIn)

theorem along_storePanel {data : UInt16} (idle : Idle s memory lock m) (before : P memory) :
    (storeWord Address.panelControl data : Routine ε Unit).run.Along (fun n => P n.memory)
      (returning fun _ n => Idle s memory lock n ∧ n.mode = m.mode) m := by
  have hP : P m.memory := by rw [idle.memory]; exact before
  refine (goes_storeWord (by decide) (around_memory hP) rfl ?_).returns ?_
  · rw [latchWord_panel data rfl]
    exact hP
  · rw [latchWord_panel data rfl]
    exact ⟨⟨idle.setup, idle.memory, idle.lock, idle.latch, idle.configLatch, idle.armed⟩, rfl⟩

theorem along_switch {is : List Instruction} (h : is.all Instruction.isSwitch = true)
    (idle : Idle s memory lock m) (before : P memory) :
    (executeAll is : Routine ε Unit).run.Along (fun n => P n.memory)
      (returning fun _ n => Idle s memory lock n ∧
        n.mode = Mode.ofByte (is.foldl Instruction.switch m.eecon1)) m := by
  have hP : P m.memory := by rw [idle.memory]; exact before
  exact (goes_switch h (around_memory hP)).returns ⟨idle.of_held rfl rfl, rfl⟩

theorem along_setWren (idle : Idle s memory lock m) (before : P memory) :
    (execute .setWren : Routine ε Unit).run.Along (fun n => P n.memory)
      (returning fun _ n => Idle s memory lock n ∧ n.mode = { m.mode with wren := true }) m := by
  have hP : P m.memory := by rw [idle.memory]; exact before
  refine (goes_execute .setWren rfl (around_memory hP)).returns ?_
  rw [Instruction.execute_of_isSwitch rfl]
  refine ⟨idle.of_held rfl rfl, ?_⟩
  change Mode.ofByte (Bits.set m.eecon1 Eecon1.wren) = _
  simp [Eecon1.eepgd, Eecon1.cfgs, Eecon1.free, Eecon1.wren, mode]

/-! ## Page by page -/

theorem mode_eraseStart (m : Emulator) :
    Mode.ofByte ([Instruction.setEepgd, .clearCfgs, .setFree].foldl Instruction.switch m.eecon1) =
      ⟨true, false, true, m.mode.wren⟩ := by
  simp [Instruction.switch, Instruction.setEepgd, Instruction.clearCfgs, Instruction.setFree,
    Instruction.setBit, Instruction.clearBit, Eecon1.eepgd, Eecon1.cfgs, Eecon1.free, Eecon1.wren,
    mode]

theorem along_erasePagesFrom {page address : Nat} {base : Memory} (count : Nat)
    (hpage : page = max s.erasePage 1) (even : page % 2 = 0) (aligned : address % page = 0)
    (room : address + count * page ≤ s.codeSize) (low : s.codeSize ≤ Address.config)
    (idle : Idle s (base.eraseCode address) lock m) (free : m.mode.free = false)
    (wren : m.mode.wren = true) (stages : ∀ k ≤ count, P (base.eraseCode (address + k * page))) :
    (erasePagesFrom page count address).run.Along (fun n => P n.memory)
      (returning fun _ n => Idle s (base.eraseCode (address + count * page)) lock n ∧
        n.mode.free = false ∧ n.mode.wren = true) m := by
  -- Code is erased below `address`, and FREE is clear again: each cycle uses it up.
  induction count generalizing address m with
  | zero =>
    rw [Nat.zero_mul, Nat.add_zero]
    exact ⟨idle, free, wren⟩
  | succ count ih =>
    have split : address + (count + 1) * page = address + page + count * page := by
      rw [Nat.add_mul]
      omega
    have before : P (base.eraseCode address) := by simpa using stages 0 (by omega)
    have after : P (base.eraseCode (address + page)) := by simpa using stages 1 (by omega)
    have erased : { base.eraseCode address with
        code := eraseFrom (base.eraseCode address).code address page } =
        base.eraseCode (address + page) := by
      simp only [Memory.eraseCode, eraseFrom_eraseBelow]
    have first_word : address % 2 = 0 := by
      rw [← Nat.mod_mod_of_dvd address (Nat.dvd_of_mod_eq_zero even), aligned]
    refine along_seq (along_switch rfl idle before) ?_
    rintro _ m1 ⟨idle1, mode1⟩
    rw [mode_eraseStart, wren] at mode1
    subst hpage
    refine along_erasePage idle1 (by rw [mode1]) (by rw [mode1]) (by rw [mode1]) aligned (by omega)
      (by omega) first_word before (by rw [erased]; exact after) ?_
    intro n idle_n mode_n
    rw [erased] at idle_n
    rw [split]
    refine (goes_emit _ _ n).along (ih (by simp [aligned]) (by omega) idle_n ?_ ?_ ?_)
    · rw [mode_n]
    · rw [mode_n, mode1]
    · intro k hk
      have := stages (k + 1) (by omega)
      rwa [Nat.add_mul, Nat.one_mul, Nat.add_comm (k * _), ← Nat.add_assoc] at this

theorem along_eraseByPage {p : Part} {base : Memory} (suited : Suited p s)
    (idle : Idle s base lock m) (size : base.code.size = p.codeSize) (free : m.mode.free = false)
    (wren : m.mode.wren = true) (stages : ∀ k, P (base.eraseCode (k * p.erasePage))) :
    (eraseByPage p).run.Along (fun n => P n.memory)
      (returning fun _ n =>
        Idle s { base with code := Array.replicate base.code.size erased } lock n ∧
        n.mode.free = false ∧ n.mode.wren = true) m := by
  have page : max p.erasePage 1 = p.erasePage := by have := suited.page_pos; omega
  have count := suited.pieces_mul
  have start : base.eraseCode 0 = base := by simp only [Memory.eraseCode, Memory.eraseBelow_zero]
  have finish : base.eraseCode (0 + p.codeSize) =
      { base with code := Array.replicate base.code.size erased } := by
    simp only [Memory.eraseCode]
    rw [Memory.eraseBelow_of_size_le (by omega)]
  rw [← start] at idle
  have pages := along_erasePagesFrom (P := P)
    (pieces p.codeSize p.erasePage) (by rw [suited.erasePage, page]) suited.page_even
    (Nat.zero_mod p.erasePage) (Nat.le_of_eq (by rw [count, suited.codeSize, Nat.zero_add]))
    (by rw [suited.codeSize]; exact suited.low) idle free wren
    (fun k _ => by rw [Nat.zero_add]; exact stages k)
  rw [count, finish] at pages
  unfold eraseByPage
  rw [page]
  refine (goes_emit _ _ m).along (along_seq pages ?_)
  rintro _ n h
  exact (goes_emit _ _ n).returns h

end Routine

namespace Family

open Emulator Procedure Routine

variable {ε : Type} {P : Memory → Prop} {s : Setup} {memory : Memory} {lock : Lock} {m : Emulator}

theorem along_enterConfigMode (f : Family) (idle : Idle s memory lock m) (before : P memory) :
    (f.enterConfigMode : Routine ε Unit).run.Along (fun n => P n.memory)
      (returning fun _ n => Idle s memory lock n ∧
        n.mode = ⟨true, true, m.mode.free, m.mode.wren || f == .f2xx⟩) m := by
  cases f with
  | f2xx =>
    refine along_returning_mono (along_switch rfl idle before) fun _ n h => ⟨h.1, h.2.trans ?_⟩
    simp [Instruction.switch, Instruction.setEepgd, Instruction.setCfgs, Instruction.setWren,
      Instruction.setBit, Eecon1.eepgd, Eecon1.cfgs, Eecon1.free, Eecon1.wren, mode]
  | f2xxx =>
    refine along_returning_mono (along_switch rfl idle before) fun _ n h => ⟨h.1, h.2.trans ?_⟩
    simp [Instruction.switch, Instruction.setEepgd, Instruction.setCfgs, Instruction.setBit,
      Eecon1.eepgd, Eecon1.cfgs, Eecon1.free, Eecon1.wren, mode]

theorem along_selectSinglePanel (f : Family) (idle : Idle s memory lock m) (before : P memory) :
    (f.selectSinglePanel : Routine ε Unit).run.Along (fun n => P n.memory)
      (returning fun _ n => Idle s memory lock n ∧
        n.mode = ⟨true, true, m.mode.free, m.mode.wren || f == .f2xx⟩) m := by
  refine along_seq (f.along_enterConfigMode idle before) ?_
  rintro _ n ⟨idle_n, mode_n⟩
  rw [← mode_n]
  exact along_storePanel idle_n before

theorem along_pageErase (f : Family) {p : Part} {base : Memory} (suited : Suited p s)
    (idle : Idle s base lock m) (size : base.code.size = p.codeSize) (free : m.mode.free = false)
    (stages : ∀ k, P (base.eraseCode (k * p.erasePage))) :
    (f.pageErase p).run.Along (fun n => P n.memory)
      (returning fun _ n =>
        Idle s { base with code := Array.replicate base.code.size erased } lock n ∧
        n.mode.free = false) m := by
  have before : P base := by
    have := stages 0
    rwa [Nat.zero_mul, Memory.eraseCode, Memory.eraseBelow_zero] at this
  have pages (n : Emulator) (idle_n : Idle s base lock n) (free_n : n.mode.free = false)
      (wren_n : n.mode.wren = true) : (eraseByPage p).run.Along (fun n => P n.memory)
        (returning fun _ n =>
          Idle s { base with code := Array.replicate base.code.size erased } lock n ∧
          n.mode.free = false) n :=
    along_returning_mono (along_eraseByPage suited idle_n size free_n wren_n stages)
      fun _ _ h => ⟨h.1, h.2.1⟩
  cases f with
  | f2xx =>
    refine along_seq (along_selectSinglePanel .f2xx idle before) ?_
    rintro _ n ⟨idle_n, mode_n⟩
    exact pages n idle_n (by rw [mode_n]; exact free) (by rw [mode_n]; exact Bool.or_true _)
  | f2xxx =>
    refine along_seq (along_enterConfigMode .f2xxx idle before) ?_
    rintro _ n ⟨idle_n, mode_n⟩
    refine along_seq (along_setWren idle_n before) ?_
    rintro _ k ⟨idle_k, mode_k⟩
    refine along_seq (along_storePanel idle_k before) ?_
    rintro _ l ⟨idle_l, mode_l⟩
    exact pages l idle_l (by rw [mode_l, mode_k, mode_n]; exact free) (by rw [mode_l, mode_k])

/-! ## All at once -/

theorem isKeyed_f2xx {m : Emulator} (hf : m.family = .f2xx) (low : m.eraseKeyLow = 0x80) :
    m.isKeyed = true := by
  simp [isKeyed, hf, eraseKey, controlRegister, low]

theorem isKeyed_f2xxx {m : Emulator} (hf : m.family = .f2xxx) (high : m.eraseKeyHigh = 0x3F)
    (low : m.eraseKeyLow = 0x8F) : m.isKeyed = true := by
  simp [isKeyed, hf, eraseKey, controlRegister, low, high, Address.eraseKeyLow,
    Address.eraseKeyHigh]

theorem along_eraseHold {millis settle : UInt32} {k : Lock} (idle : Idle s memory k m)
    (keyed : m.isKeyed = true) (after : P memory.wiped) :
    (do hold (.erase millis); delay settle : Routine ε Unit).run.Along (fun n => P n.memory)
      (returning fun _ n => Idle s memory.wiped ⟨0, 0, k.unlock⟩ n ∧ n.mode = m.mode) m := by
  have wiped : Idle s memory.wiped ⟨0, 0, k.unlock⟩ (m.hold (.erase millis)) := by
    rw [hold_erase millis keyed]
    exact ⟨idle.setup, by rw [← idle.memory]; rfl, by rw [← idle.lock]; rfl, rfl, rfl, idle.armed⟩
  have hP : P (m.hold (.erase millis)).memory := by rw [wiped.memory]; exact after
  refine (goes_hold _ hP).along ((goes_delay settle hP).returns ⟨wiped, ?_⟩)
  rw [hold_erase millis keyed]
  rfl

theorem along_bulkErase (f : Family) (hf : m.family = f) (idle : Idle s memory lock m)
    (before : P memory) (after : P memory.wiped) :
    (f.bulkErase : Routine ε Unit).run.Along (fun n => P n.memory)
      (returning fun _ n => Idle s memory.wiped ⟨0, 0, lock.unlock⟩ n ∧ n.mode = m.mode) m := by
  have hP : P m.memory := by rw [idle.memory]; exact before
  cases f with
  | f2xx =>
    let keyed : Emulator := { m.pointAt Address.eraseKeyLow with
      eraseKeyLow := 0x80
      pointer := Address.eraseKeyLow + 1 }
    have idle_keyed : Idle s memory ⟨0x80, lock.keyHigh, lock.unlock⟩ keyed :=
      ⟨idle.setup, idle.memory, by rw [← idle.lock]; rfl, idle.latch, idle.configLatch, idle.armed⟩
    have stored : Goes (fun n => P n.memory)
        (storeWord Address.eraseKeyLow 0x0080 : Routine ε Unit) m () keyed := by
      refine goes_storeWord (by decide) (around_memory hP) ?_ hP
      rw [latchWord_keyLow _ rfl]
      rfl
    refine (stored.bind (goes_pure _ () keyed)).along ?_
    refine (goes_execute (m := keyed) .nop rfl (around_memory hP)).along ?_
    exact along_eraseHold (k := ⟨0x80, lock.keyHigh, lock.unlock⟩) idle_keyed
      (isKeyed_f2xx hf rfl) after
  | f2xxx =>
    let half : Emulator := { m.pointAt Address.eraseKeyHigh with
      eraseKeyHigh := 0x3F
      pointer := Address.eraseKeyHigh + 1 }
    let keyed : Emulator := { half.pointAt Address.eraseKeyLow with
      eraseKeyLow := 0x8F
      pointer := Address.eraseKeyLow + 1 }
    have idle_keyed : Idle s memory ⟨0x8F, 0x3F, lock.unlock⟩ keyed :=
      ⟨idle.setup, idle.memory, by rw [← idle.lock]; rfl, idle.latch, idle.configLatch, idle.armed⟩
    have first : Goes (fun n => P n.memory)
        (storeWord Address.eraseKeyHigh 0x3F3F : Routine ε Unit) m () half := by
      refine goes_storeWord (by decide) (around_memory hP) ?_ hP
      rw [latchWord_keyHigh _ rfl]
      rfl
    have second : Goes (fun n => P n.memory)
        (storeWord Address.eraseKeyLow 0x8F8F : Routine ε Unit) half () keyed := by
      refine goes_storeWord (by decide) (around_memory hP) ?_ hP
      rw [latchWord_keyLow _ rfl]
      rfl
    refine (first.bind (second.bind (goes_pure _ () keyed))).along ?_
    exact along_eraseHold (k := ⟨0x8F, 0x3F, lock.unlock⟩) idle_keyed
      (isKeyed_f2xxx hf rfl rfl) after

end Family

end InCircuit
