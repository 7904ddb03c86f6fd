import InCircuit.Proofs.Emulator.Flash

set_option autoImplicit false

/-!
# Sizes and addresses of the emulated part

No transfer changes the size of a memory, and no address that the part keeps goes past the 24 bits
of the table pointer, whether it is pointed at, latched or armed. The sizes of blocks and pages do
not matter.
-/
namespace InCircuit

namespace Emulator

/-- The sizes are those of the setup, and whatever is to be an address is within the table pointer's
24 bits. -/
structure Bounded (s : Setup) (m : Emulator) : Prop where
  setup : m.setup = s
  sized : m.memory.Sized s
  pointer : m.pointer ≤ Address.last
  armed : ∀ a, m.armed = some a → a ≤ Address.last
  latch : ∀ o b, m.latch[o]? = some b → o ≤ Address.last
  configLatch : ∀ a b, m.configLatch[a]? = some b → Address.config ≤ a ∧ a ≤ Address.last

variable {s : Setup} {m n : Emulator}

theorem bounded_of_empty (setup : m.setup = s) (sized : m.memory.Sized s)
    (pointer : m.pointer ≤ Address.last) (armed : ∀ a, m.armed = some a → a ≤ Address.last)
    (latch : m.latch = {}) (configLatch : m.configLatch = {}) : Bounded s m where
  setup := setup
  sized := sized
  pointer := pointer
  armed := armed
  latch o b at_o := by
    rw [latch, Std.TreeMap.getElem?_emptyc] at at_o
    cases at_o
  configLatch a b at_a := by
    rw [configLatch, Std.TreeMap.getElem?_emptyc] at at_a
    cases at_a

theorem bounded_powerUp {memory : Memory} (sized : memory.Sized s) :
    Bounded s (.powerUp s memory) :=
  bounded_of_empty rfl sized (Nat.zero_le _) (fun _ armed => by cases armed) rfl rfl

/-! ### The table pointer -/

theorem pointer_putRegister (h : m.pointer ≤ Address.last) (register value : UInt8) :
    (m.putRegister register value).pointer ≤ Address.last := by
  have last : Address.last = 16777215 := rfl
  have byte := value.toNat_lt
  unfold putRegister
  split
  · simp only [TablePointer.setUpper]
    omega
  · simp only [TablePointer.setHigh]
    omega
  · simp only [TablePointer.setLow]
    omega
  all_goals exact h

theorem pointer_execute (h : m.pointer ≤ Address.last) (i : Instruction) :
    (m.execute i).pointer ≤ Address.last := by
  cases i with
  | nop | goto _ | gotoHigh _ | movlw _ => exact h
  | movwf f => exact pointer_putRegister h _ _
  | incf f => exact pointer_putRegister h _ _
  | movfW f =>
    simp only [execute]
    split
    · unfold tick
      split <;> exact h
    · exact h
  | bsf f b =>
    simp only [execute, bsf]
    split
    · split
      · unfold beginRead
        split <;> exact h
      · split
        · unfold beginWrite
          split <;> exact h
        · exact h
    · exact pointer_putRegister h _ _
  | bcf f b =>
    simp only [execute, bcf]
    split
    · exact h
    · exact pointer_putRegister h _ _

theorem pointer_movePointer (m : Emulator) (step : Nat) :
    (m.movePointer step).pointer ≤ Address.last :=
  Nat.le_of_lt_succ (Nat.mod_lt _ (by decide))

theorem pointer_latchWord (m : Emulator) (data : UInt16) :
    (m.latchWord data).pointer = m.pointer := by
  obtain ⟨_, _, _, _, _, filled⟩ := m.latchWord_eq data
  rw [filled]

theorem pointer_hold (m : Emulator) (h : Hold) : (m.hold h).pointer = m.pointer := by
  have done := does_hold m h
  generalize m.hold h = n at done
  cases done with
  | cycle _ _ =>
    obtain ⟨_, _, _, _, ran⟩ := m.runCycle_eq _
    rw [ran]
    rfl
  | wipe _ _ => rfl
  | pass _ => rfl

theorem clock_known (m : Emulator) {word : UInt16} {i : Instruction}
    (known : Instruction.decode word = some i) :
    Link.clock (.transmit .coreInstruction word) m = (.ok 0, m.execute i) := by
  simp only [Link.clock, known]

theorem clock_unknown (m : Emulator) {word : UInt16} (unknown : Instruction.decode word = none) :
    Link.clock (.transmit .coreInstruction word) m = (.error .linkFailure, m) := by
  simp only [Link.clock, unknown]

theorem pointer_clock (h : m.pointer ≤ Address.last) (t : Transfer) :
    (Link.clock t m).2.pointer ≤ Address.last := by
  cases t with
  | hold x => exact Nat.le_trans (Nat.le_of_eq (pointer_hold m x)) h
  | data _ | delay _ => exact h
  | receive c =>
    cases c with
    | tableReadPostInc | tableReadPreInc => exact pointer_movePointer m 1
    | tableReadPostDec => exact pointer_movePointer m 16777215
    | _ => exact h
  | transmit c word =>
    cases c with
    | coreInstruction =>
      cases known : Instruction.decode word with
      | some i =>
        rw [clock_known m known]
        exact pointer_execute h i
      | none =>
        rw [clock_unknown m known]
        exact h
    | tableWritePostInc | tableWritePostInc2 | tableWriteStartPostInc2 =>
      exact pointer_movePointer _ _
    | tableWriteStart => exact Nat.le_trans (Nat.le_of_eq (pointer_latchWord m word)) h
    | _ => exact h

/-! ### The rest of the state -/

theorem size_execute_eeprom (m : Emulator) (i : Instruction) :
    (m.execute i).eeprom.size = m.eeprom.size := by
  cases starts : i.startsWrite with
  | false =>
    have kept := held_execute m i starts
    rw [show (m.execute i).eeprom = m.eeprom from congrArg (fun k : Held => k.memory.eeprom) kept]
  | true =>
    obtain rfl := Instruction.startsWrite_eq_true starts
    change m.beginWrite.eeprom.size = _
    unfold beginWrite
    split
    · rfl
    · exact Array.size_setIfInBounds

/-- But for the EEPROM and the working registers nothing counts. -/
theorem Bounded.of_held {eeprom : Array UInt8} (h : Bounded s m)
    (hn : n.held = { m.held with memory := { m.memory with eeprom } })
    (size : eeprom.size = m.eeprom.size) (pointer : n.pointer ≤ Address.last) : Bounded s n := by
  have memory : n.memory = { m.memory with eeprom } := congrArg Held.memory hn
  refine ⟨(congrArg Held.setup hn).trans h.setup, ?_, pointer, ?_, ?_, ?_⟩
  · rw [memory]
    exact ⟨h.sized.code, h.sized.config, size.trans h.sized.eeprom⟩
  · rw [show n.armed = m.armed from congrArg Held.armed hn]
    exact h.armed
  · rw [show n.latch = m.latch from congrArg Held.latch hn]
    exact h.latch
  · rw [show n.configLatch = m.configLatch from congrArg Held.configLatch hn]
    exact h.configLatch

theorem Bounded.latchWord (h : Bounded s m) (data : UInt16) : Bounded s (m.latchWord data) := by
  have filled := m.latched data
  generalize m.latchWord data = n at filled
  cases filled with
  | control _ _ _ => exact ⟨h.setup, h.sized, h.pointer, h.armed, h.latch, h.configLatch⟩
  | config beyond =>
    refine ⟨h.setup, h.sized, h.pointer, h.armed, h.latch, fun a b at_a => ?_⟩
    rw [Std.TreeMap.getElem?_insert] at at_a
    split at at_a
    · rename_i same
      obtain rfl := Std.LawfulEqCmp.eq_of_compare same
      exact ⟨beyond, h.pointer⟩
    · exact h.configLatch a b at_a
  | code low high =>
    have bound : m.latchOffset + 1 ≤ Address.last := by
      have last : Address.last = 16777215 := rfl
      have low := h.pointer
      have offset := Nat.mod_le (m.pointer - m.pointer % 2) m.latchSize
      unfold latchOffset
      omega
    refine ⟨h.setup, h.sized, h.pointer, h.armed, fun o b at_o => ?_, h.configLatch⟩
    rw [Std.TreeMap.getElem?_insert, Std.TreeMap.getElem?_insert] at at_o
    split at at_o
    · have here := Nat.compare_eq_eq.mp ‹_›
      omega
    split at at_o
    · have here := Nat.compare_eq_eq.mp ‹_›
      omega
    · exact h.latch o b at_o

theorem Bounded.runCycle (h : Bounded s m) (trigger : Nat) : Bounded s (m.runCycle trigger) := by
  have sized : (m.runCycle trigger).memory.Sized s := by
    have ran := m.cycled trigger
    generalize m.runCycle trigger = n at ran
    obtain ⟨code, config, eeprom⟩ := h.sized
    cases ran with
    | ignored _ | refused _ _ => exact ⟨code, config, eeprom⟩
    | erased _ _ _ =>
      obtain ⟨_, _, cleared⟩ := m.freed.clearRow_eq trigger
      have size := m.freed.size_clearRow trigger
      rw [cleared] at size ⊢
      exact ⟨size.trans code, config, eeprom⟩
    | configured _ _ _ => exact ⟨code, (size_commitConfig _ _).trans config, eeprom⟩
    | programmed _ _ _ => exact ⟨(size_commitCode _ _ _).trans code, config, eeprom⟩
  obtain ⟨_, _, _, _, ran⟩ := m.runCycle_eq trigger
  rw [ran] at sized ⊢
  exact bounded_of_empty h.setup sized h.pointer (fun _ armed => by cases armed) rfl rfl

theorem Bounded.wipe (h : Bounded s m) : Bounded s m.wipe :=
  bounded_of_empty h.setup ⟨Array.size_replicate.trans h.sized.code,
    Array.size_replicate.trans h.sized.config, Array.size_replicate.trans h.sized.eeprom⟩
    h.pointer h.armed rfl rfl

theorem Bounded.clock (h : Bounded s m) (t : Transfer) : Bounded s (Link.clock t m).2 := by
  have pointer := pointer_clock h.pointer t
  have done := does_clock m t
  generalize (Link.clock t m).2 = n at pointer done
  generalize t.effect = effect at done
  cases done with
  | execute i =>
    exact h.of_held (held_execute_eeprom m i) (size_execute_eeprom m i) pointer
  | latch data p => exact (h.latchWord data).of_held rfl rfl pointer
  | arm data p =>
    have filled := h.latchWord data
    refine ⟨filled.setup, filled.sized, pointer, fun a armed => ?_, filled.latch,
      filled.configLatch⟩
    obtain rfl := Option.some.inj armed
    exact filled.pointer
  | cycle _ _ => exact h.runCycle _
  | wipe _ _ => exact h.wipe
  | pass _ => exact h
  | quiet p tablat => exact h.of_held rfl rfl pointer

end Emulator

end InCircuit
