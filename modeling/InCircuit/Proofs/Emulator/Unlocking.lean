import InCircuit.Proofs.Emulator.Journal

set_option autoImplicit false

/-!
# Unlocking of EEPROM writes

An EEPROM write has to be asked for by `0x55` and `0xAA` in EECON2 and then by WR, with nothing else
in EECON2 and no other start in between. The part remembers only how far it has got; the journal of
the writes to EECON2 and of the starts says that this is enough.
-/
namespace InCircuit

inductive UnlockEvent where
  | wrote (value : UInt8)
  | started

namespace Unlocking

def after (u : Unlocking) : UnlockEvent → Unlocking
  | .wrote value => u.next value
  | .started => none

theorem after_eq_first {u : Unlocking} {e : UnlockEvent} (h : u.after e = first) :
    u = none ∧ e = .wrote 0x55 := by
  cases e with
  | started => cases h
  | wrote value =>
    cases u <;> simp only [after, next] at h
    · split at h
      · exact ⟨rfl, congrArg _ ‹_›⟩
      · cases h
    · split at h <;> cases h
    · cases h

theorem after_eq_both {u : Unlocking} {e : UnlockEvent} (h : u.after e = both) :
    u = first ∧ e = .wrote 0xAA := by
  cases e with
  | started => cases h
  | wrote value =>
    cases u <;> simp only [after, next] at h
    · split at h <;> cases h
    · split at h
      · exact ⟨rfl, congrArg _ ‹_›⟩
      · cases h
    · cases h

/-- Only the two values, one right after the other and last of all, unlock. -/
theorem eq_append_of_both {log : List UnlockEvent} (h : log.foldl after none = both) :
    ∃ before, log = before ++ [.wrote 0x55, .wrote 0xAA] := by
  obtain rfl | ⟨primed, last, rfl⟩ := log.eq_nil_or_concat
  · cases h
  rw [List.concat_eq_append, List.foldl_append] at h
  obtain ⟨hprimed, rfl⟩ := after_eq_both h
  obtain rfl | ⟨before, previous, rfl⟩ := primed.eq_nil_or_concat
  · cases hprimed
  rw [List.concat_eq_append, List.foldl_append] at hprimed
  obtain ⟨_, rfl⟩ := after_eq_first hprimed
  refine ⟨before, ?_⟩
  rw [List.concat_eq_append, List.concat_eq_append, List.append_assoc]
  rfl

end Unlocking

theorem Register.address_of_ofAddress? {a : UInt8} {r : Register} (h : ofAddress? a = some r) :
    r.address = a := by
  rw [ofAddress?] at h
  simpa using List.find?_some h

namespace Emulator

def written? (m : Emulator) (r : Register) : Instruction → Option UInt8
  | .movwf f => if f = r.address then some m.w else none
  | .incf f => if f = r.address then some (m.getRegister f + 1) else none
  | .bsf f b => if f = r.address then some (Bits.set (m.getRegister f) b) else none
  | .bcf f b => if f = r.address then some (Bits.clear (m.getRegister f) b) else none
  | .nop | .movlw _ | .movfW _ | .goto _ | .gotoHigh _ => none

def unlockEvents (m : Emulator) (i : Instruction) : List UnlockEvent :=
  if i.startsWrite then [.started] else (m.written? .eecon2 i).toList.map .wrote

def unlockNote (m : Emulator) (t : Transfer) : List UnlockEvent :=
  match t.effect with
  | .execute i => m.unlockEvents i
  | _ => []

theorem unlock_putRegister (m : Emulator) (f value : UInt8) :
    (m.putRegister f value).unlock =
      if f = Register.eecon2.address then m.unlock.next value else m.unlock := by
  by_cases hf : f = Register.eecon2.address
  · rw [if_pos hf, hf, putRegister, Register.ofAddress?_address]
  · rw [if_neg hf]
    unfold putRegister
    split <;> first | rfl | skip
    rename_i found
    exact absurd (Register.address_of_ofAddress? found).symm hf

theorem unlock_beginRead (m : Emulator) : m.beginRead.unlock = m.unlock := by
  unfold beginRead
  split <;> rfl

theorem unlock_tick (m : Emulator) : m.tick.unlock = m.unlock := by
  unfold tick
  split <;> rfl

theorem unlock_beginWrite (m : Emulator) : m.beginWrite.unlock = .none := by
  unfold beginWrite
  split <;> rfl

theorem unlock_written (m : Emulator) (f value : UInt8) :
    (m.putRegister f value).unlock =
      ((if f = Register.eecon2.address then some value else none).toList.map
        UnlockEvent.wrote).foldl Unlocking.after m.unlock := by
  rw [unlock_putRegister]
  split <;> rfl

theorem unlock_execute (m : Emulator) (i : Instruction) :
    (m.execute i).unlock = (m.unlockEvents i).foldl Unlocking.after m.unlock := by
  cases starts : i.startsWrite with
  | true =>
    rw [unlockEvents, if_pos starts, Instruction.startsWrite_eq_true starts]
    exact unlock_beginWrite m
  | false =>
    rw [unlockEvents, starts, if_neg Bool.false_ne_true]
    cases i with
    | nop | goto _ | gotoHigh _ | movlw _ => rfl
    | movwf f => exact unlock_written m f m.w
    | incf f => exact unlock_written m f _
    | movfW f =>
      simp only [execute]
      split
      · exact unlock_tick _
      · rfl
    | bsf f b =>
      simp only [execute, bsf]
      split
      · rename_i hf
        have other : f ≠ Register.eecon2.address := by rw [hf]; decide
        rw [written?, if_neg other]
        split
        · exact unlock_beginRead m
        split
        · rename_i hb
          simp [Instruction.startsWrite, hf, hb] at starts
        · rfl
      · exact unlock_written m f _
    | bcf f b =>
      simp only [execute, bcf]
      split
      · rename_i hf
        have other : f ≠ Register.eecon2.address := by rw [hf.1]; decide
        rw [written?, if_neg other]
        rfl
      · exact unlock_written m f _

/-- How far the unlocking has got is what the noted events say. -/
theorem unlock_clock (m : Emulator) (t : Transfer) :
    (Link.clock t m).2.unlock = (m.unlockNote t).foldl Unlocking.after m.unlock := by
  have done := does_clock m t
  rw [unlockNote]
  generalize t.effect = effect at done
  generalize (Link.clock t m).2 = n at done
  cases done with
  | execute i => exact unlock_execute m i
  | latch word pointer | arm word pointer =>
    obtain ⟨_, _, _, _, _, filled⟩ := m.latchWord_eq word
    rw [filled]
    rfl
  | cycle clock armed =>
    rename_i h trigger
    obtain ⟨_, _, _, _, ran⟩ := m.runCycle_eq trigger
    rw [ran]
    rfl
  | wipe | pass | quiet => rfl

/-! ## Changes of the EEPROM -/

/-- How a transfer can change the EEPROM, after the noted events, and what it then holds. -/
inductive EepromChange (m : Emulator) (log : List UnlockEvent) : Transfer → Array UInt8 → Prop
  /-- A pulse with the clock low, the control registers holding the key of the bulk erase. -/
  | wiped {h : Hold} (clock : h.lines.clock = false) (keyed : m.isKeyed = true) :
    EepromChange m log (.hold h) (Array.replicate m.eeprom.size erased)
  /-- The instruction that sets WR, let through. -/
  | stored {word : UInt16} {before : List UnlockEvent}
      (starts : Instruction.decode word = some .setWr) (wren : m.flag Eecon1.wren = true)
      (eepgd : m.flag Eecon1.eepgd = false) (cfgs : m.flag Eecon1.cfgs = false)
      (unlocked : log = before ++ [.wrote 0x55, .wrote 0xAA]) :
    EepromChange m log (.transmit .coreInstruction word)
      (m.eeprom.setIfInBounds m.eepromAddress m.eedata)

theorem eeprom_beginWrite {m : Emulator} (changed : m.beginWrite.eeprom ≠ m.eeprom) :
    m.unlock = .both ∧ m.flag Eecon1.wren = true ∧ m.flag Eecon1.eepgd = false ∧
      m.flag Eecon1.cfgs = false ∧
      m.beginWrite.eeprom = m.eeprom.setIfInBounds m.eepromAddress m.eedata := by
  unfold beginWrite at changed ⊢
  split at changed
  · exact absurd rfl changed
  · rename_i let_through
    rw [if_neg let_through]
    simp only [not_or, ne_eq, Decidable.not_not, Bool.not_eq_true] at let_through
    obtain ⟨unlocked, wren, eepgd, cfgs⟩ := let_through
    exact ⟨unlocked, by simpa using wren, eepgd, cfgs, rfl⟩

theorem eeprom_clock {m : Emulator} {log : List UnlockEvent} {t : Transfer}
    (unlock : m.unlock = log.foldl Unlocking.after .none)
    (changed : (Link.clock t m).2.eeprom ≠ m.eeprom) :
    (Link.clock t m).1 = .ok 0 ∧ m.EepromChange log t (Link.clock t m).2.eeprom := by
  have done := does_clock m t
  generalize effect_eq : t.effect = effect at done
  generalize after_eq : (Link.clock t m).2 = n at done changed
  cases done with
  | execute i =>
    obtain ⟨word, rfl, decoded⟩ := Transfer.effect_eq_execute effect_eq
    have replied : (Link.clock (.transmit .coreInstruction word) m).1 = .ok 0 := by
      simp only [Link.clock, decoded]
    cases starts : i.startsWrite with
    | false =>
      exact absurd (congrArg (fun k : Held => k.memory.eeprom) (held_execute m i starts)) changed
    | true =>
      obtain rfl := Instruction.startsWrite_eq_true starts
      obtain ⟨both, wren, eepgd, cfgs, stored⟩ := eeprom_beginWrite changed
      obtain ⟨before, noted⟩ := Unlocking.eq_append_of_both (unlock.symm.trans both)
      change _ ∧ m.EepromChange log _ m.beginWrite.eeprom
      rw [stored]
      exact ⟨replied, .stored decoded wren eepgd cfgs noted⟩
  | wipe clock keyed =>
    obtain rfl := Transfer.effect_eq_hold effect_eq
    exact ⟨rfl, .wiped clock keyed⟩
  | latch word pointer | arm word pointer =>
    obtain ⟨_, _, _, _, _, filled⟩ := m.latchWord_eq word
    rw [filled] at changed
    exact absurd rfl changed
  | cycle clock armed =>
    rename_i h trigger
    obtain ⟨_, _, _, _, ran⟩ := m.runCycle_eq trigger
    rw [ran] at changed
    exact absurd rfl changed
  | pass | quiet => exact absurd rfl changed

/-- Whatever a part has gone through since power-up, its EEPROM changes only by a keyed bulk erase
or by an EEPROM write that is enabled and was unlocked in full. The write changes one byte. -/
theorem eeprom_changes_unlocked (s : Setup) (memory : Memory) (limit : Option Nat)
    (ts : List Transfer) {l : Lossy Emulator}
    (run : l = Link.afterAll (.powerUp s memory limit) ts) {t : Transfer}
    (changed : (Link.clock t l).2.target.eeprom ≠ l.target.eeprom) :
    (Link.clock t l).1 = .ok 0 ∧
      l.target.EepromChange ((Lossy.powerUp s memory limit).journal unlockNote ts) t
        (Link.clock t l).2.target.eeprom := by
  have unlock : l.target.unlock =
      ((Lossy.powerUp s memory limit).journal unlockNote ts).foldl Unlocking.after .none := by
    rw [run]
    refine Lossy.journal_invariant
      (fun (m : Emulator) log => m.unlock = log.foldl Unlocking.after .none) ?_ ts rfl
    intro m noted t unlock
    rw [unlock_clock, List.foldl_append, ← unlock]
  cases lost : l.isLost with
  | true => exact absurd (congrArg eeprom (Lossy.clock_of_lost lost t).2) changed
  | false =>
    obtain ⟨reply, target⟩ := Lossy.clock_of_not_lost lost t
    rw [target] at changed ⊢
    rw [reply]
    exact eeprom_clock unlock changed

/-- `0x5A` written to the first byte, the link lost right after it. -/
theorem eeprom_changes_unlocked_first :
    let unlocking := [Instruction.movlw 0x5A, .movwf Register.eedata.address, .setWren, .movlw 0x55,
      .movwf Register.eecon2.address, .movlw 0xAA, .movwf Register.eecon2.address]
    let start := Lossy.powerUp .pic18f452 (.zeroed .pic18f452) (some 8)
    let ts := unlocking.map fun i => .transmit .coreInstruction i.encode
    let l := Link.afterAll start ts
    l.target.EepromChange (start.journal unlockNote ts)
      (.transmit .coreInstruction Instruction.setWr.encode)
      (Link.clock (.transmit .coreInstruction Instruction.setWr.encode) l).2.target.eeprom :=
  (eeprom_changes_unlocked .pic18f452 (.zeroed .pic18f452) (some 8) _ rfl (by
    intro same
    have first := congrArg (fun cells => cells[0]?) same
    revert first
    decide +kernel)).2

end Emulator

end InCircuit
