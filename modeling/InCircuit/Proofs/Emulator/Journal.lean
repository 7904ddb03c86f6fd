import InCircuit.Proofs.Sessions

set_option autoImplicit false

/-!
# What happened on the way

A link takes transfers of any kind in any order. A journal keeps what the carried ones meant to the
part, so that a property of its state can be told by what led to it. What a transfer can do to an
emulated part is said once, by cases.
-/
namespace InCircuit

def Link.afterAll {σ : Type} [Link σ] (l : σ) (ts : List Transfer) : σ :=
  ts.foldl (fun l t => (Link.clock t l).2) l

namespace Lossy

variable {σ ε : Type} [Link σ]

/-- What is noted of the transfers that the link carries. A lost link carries none. -/
def journal (note : σ → Transfer → List ε) : Lossy σ → List Transfer → List ε
  | _, [] => []
  | l, t :: ts =>
    (if l.isLost then [] else note l.target t) ++ journal note (Link.clock t l).2 ts

theorem clock_of_lost {l : Lossy σ} (h : l.isLost = true) (t : Transfer) :
    (Link.clock t l).1 = .error .linkFailure ∧ (Link.clock t l).2.target = l.target := by
  simp [Link.clock, h]

theorem clock_of_not_lost {l : Lossy σ} (h : l.isLost = false) (t : Transfer) :
    (Link.clock t l).1 = (Link.clock t l.target).1 ∧
      (Link.clock t l).2.target = (Link.clock t l.target).2 := by
  simp [Link.clock, h]

theorem journal_from {note : σ → Transfer → List ε} {I : σ → List ε → Prop}
    (step : ∀ m noted t, I m noted → I (Link.clock t m).2 (noted ++ note m t)) (ts : List Transfer)
    {l : Lossy σ} {noted : List ε} (h : I l.target noted) :
    I (Link.afterAll l ts).target (noted ++ l.journal note ts) := by
  -- A lost link carries nothing and notes nothing, so the invariant stays as it is.
  induction ts generalizing l noted with
  | nil =>
    rw [journal, List.append_nil]
    exact h
  | cons t ts ih =>
    rw [journal, ← List.append_assoc]
    refine ih ?_
    cases lost : l.isLost with
    | true =>
      rw [(clock_of_lost lost t).2, if_pos rfl, List.append_nil]
      exact h
    | false =>
      rw [(clock_of_not_lost lost t).2, if_neg Bool.false_ne_true]
      exact step l.target noted t h

/-- What every carried transfer preserves holds after any transfers. -/
theorem journal_invariant {note : σ → Transfer → List ε} (I : σ → List ε → Prop)
    (step : ∀ m noted t, I m noted → I (Link.clock t m).2 (noted ++ note m t)) (ts : List Transfer)
    {l : Lossy σ} (h : I l.target []) : I (Link.afterAll l ts).target (l.journal note ts) :=
  journal_from step ts h

end Lossy

def Lossy.powerUp (s : Setup) (memory : Memory) (limit : Option Nat) : Lossy Emulator where
  target := .powerUp s memory
  limit := limit

inductive Effect where
  | execute (i : Instruction)
  | latch (data : UInt16) (arms : Bool)
  | hold (h : Hold)
  | quiet

def Transfer.effect : Transfer → Effect
  | .transmit .coreInstruction word =>
    match Instruction.decode word with
    | some i => .execute i
    | none => .quiet
  | .transmit .tableWritePostInc word | .transmit .tableWritePostInc2 word => .latch word false
  | .transmit .tableWriteStartPostInc2 word | .transmit .tableWriteStart word => .latch word true
  | .hold h => .hold h
  | .transmit _ _ | .receive _ | .data _ | .delay _ => .quiet

theorem Instruction.startsWrite_eq_true {i : Instruction} (h : i.startsWrite = true) :
    i = .setWr := by
  cases i with
  | bsf f b =>
    obtain ⟨hf, hb⟩ := Bool.and_eq_true_iff.mp h
    rw [eq_of_beq hf, eq_of_beq hb]
    rfl
  | _ => cases h

theorem Transfer.effect_eq_execute {t : Transfer} {i : Instruction} (h : t.effect = .execute i) :
    ∃ word, t = .transmit .coreInstruction word ∧ Instruction.decode word = some i := by
  unfold Transfer.effect at h
  split at h
  · split at h
    · obtain rfl := Effect.execute.inj h
      exact ⟨_, rfl, ‹_›⟩
    · cases h
  all_goals cases h

theorem Transfer.effect_eq_hold {t : Transfer} {h : Hold} (eq : t.effect = .hold h) :
    t = .hold h := by
  unfold Transfer.effect at eq
  split at eq
  · split at eq <;> cases eq
  all_goals cases eq
  rfl

namespace Emulator

inductive Does (m : Emulator) : Effect → Emulator → Prop
  | execute (i : Instruction) : Does m (.execute i) (m.execute i)
  | latch (data : UInt16) (pointer : Nat) :
    Does m (.latch data false) { m.latchWord data with pointer }
  | arm (data : UInt16) (pointer : Nat) :
    Does m (.latch data true) { (m.latchWord data).arm with pointer }
  | cycle {h : Hold} {trigger : Nat} (clock : h.lines.clock = true)
      (armed : m.armed = some trigger) :
    Does m (.hold h) (m.runCycle trigger)
  | wipe {h : Hold} (clock : h.lines.clock = false) (keyed : m.isKeyed = true) :
    Does m (.hold h) m.wipe
  | pass {h : Hold} (idle : (h.lines.clock && m.armed.isSome) = false) : Does m (.hold h) m
  | quiet (pointer : Nat) (tablat : UInt8) : Does m .quiet { m with pointer, tablat }

theorem does_hold (m : Emulator) (h : Hold) : m.Does (.hold h) (m.hold h) := by
  unfold hold
  split
  · rename_i clock
    cases armed : m.armed with
    | some trigger => exact .cycle clock armed
    | none => exact .pass (by rw [armed, Option.isSome_none, Bool.and_false])
  · rename_i clock
    have low : h.lines.clock = false := Bool.eq_false_iff.mpr clock
    split
    · exact .wipe low ‹_›
    · exact .pass (by rw [low, Bool.false_and])

theorem does_clock (m : Emulator) (t : Transfer) : m.Does t.effect (Link.clock t m).2 := by
  have still : m.Does .quiet m := .quiet m.pointer m.tablat
  have moved (step : Nat) (b : UInt8) : m.Does .quiet ((m.movePointer step).serve b).2 := .quiet _ b
  cases t with
  | hold h => exact does_hold m h
  | data payload => exact still
  | delay micros => exact still
  | receive c =>
    cases c with
    | tableRead => exact .quiet m.pointer _
    | tableReadPostInc | tableReadPreInc => exact moved 1 _
    | tableReadPostDec => exact moved 16777215 _
    | shiftOutTablat | coreInstruction | tableWritePostInc | tableWritePostInc2
    | tableWriteStartPostInc2 | tableWriteStart => exact still
  | transmit c word =>
    cases c with
    | coreInstruction =>
      change m.Does (match Instruction.decode word with
        | some i => .execute i
        | none => .quiet) (match Instruction.decode word with
        | some i => ((.ok 0, m.execute i) : Except Fault UInt8 × Emulator)
        | none => (.error .linkFailure, m)).2
      cases Instruction.decode word with
      | none => exact still
      | some i => exact .execute i
    | tableWritePostInc | tableWritePostInc2 => exact .latch word _
    | tableWriteStartPostInc2 | tableWriteStart => exact .arm word _
    | shiftOutTablat | tableRead | tableReadPostInc | tableReadPostDec | tableReadPreInc =>
      exact still

theorem held_execute_eeprom (m : Emulator) (i : Instruction) :
    (m.execute i).held =
      { m.held with memory := { m.memory with eeprom := (m.execute i).eeprom } } := by
  cases starts : i.startsWrite with
  | false =>
    have kept := held_execute m i starts
    have eeprom : (m.execute i).eeprom = m.eeprom :=
      congrArg (fun k : Held => k.memory.eeprom) kept
    rw [kept, eeprom]
    rfl
  | true =>
    obtain rfl := Instruction.startsWrite_eq_true starts
    change m.beginWrite.held =
      { m.held with memory := { m.memory with eeprom := m.beginWrite.eeprom } }
    unfold beginWrite
    split <;> rfl

/-! ## Table writes and cycles -/

def selected (address : Nat) (data : UInt16) : UInt8 :=
  if address % 2 = 0 then data.toNat.toUInt8 else (data.toNat / 256).toUInt8

def latchOffset (m : Emulator) : Nat := (m.pointer - m.pointer % 2) % m.latchSize

inductive Latched (m : Emulator) (data : UInt16) : Emulator → Prop
  | control (eraseKeyLow eraseKeyHigh panelControl : UInt8) :
    Latched m data { m with eraseKeyLow, eraseKeyHigh, panelControl }
  | config (beyond : Address.config ≤ m.pointer) :
    Latched m data
      { m with configLatch := m.configLatch.insert m.pointer (selected m.pointer data) }
  | code (low high : UInt8) :
    Latched m data
      { m with latch := (m.latch.insert m.latchOffset low).insert (m.latchOffset + 1) high }

theorem latched (m : Emulator) (data : UInt16) : m.Latched data (m.latchWord data) := by
  unfold latchWord
  simp only
  split
  · exact .control _ m.eraseKeyHigh m.panelControl
  split
  · exact .control m.eraseKeyLow _ m.panelControl
  split
  · exact .control m.eraseKeyLow m.eraseKeyHigh _
  split
  · exact .config ‹_›
  · exact .code _ _

theorem latchWord_eq (m : Emulator) (data : UInt16) :
    ∃ latch configLatch eraseKeyLow eraseKeyHigh panelControl, m.latchWord data =
      { m with latch, configLatch, eraseKeyLow, eraseKeyHigh, panelControl } := by
  have filled := m.latched data
  generalize m.latchWord data = n at filled
  cases filled <;> exact ⟨_, _, _, _, _, rfl⟩

def spent (m : Emulator) : Emulator := { m with latch := {}, configLatch := {}, armed := none }

def freed (m : Emulator) : Emulator :=
  { m.spent with eecon1 := Bits.clear m.eecon1 Eecon1.free }

inductive Cycled (m : Emulator) (trigger : Nat) : Emulator → Prop
  | ignored (eepgd : m.flag Eecon1.eepgd = false) : Cycled m trigger m.spent
  | refused (free : m.flag Eecon1.free = true) (wren : m.flag Eecon1.wren = false) :
    Cycled m trigger m.freed
  | erased (eepgd : m.flag Eecon1.eepgd = true) (free : m.flag Eecon1.free = true)
      (wren : m.flag Eecon1.wren = true) :
    Cycled m trigger (m.freed.clearRow trigger)
  | configured (eepgd : m.flag Eecon1.eepgd = true) (free : m.flag Eecon1.free = false)
      (cfgs : m.flag Eecon1.cfgs = true) :
    Cycled m trigger { m.spent with config := commitConfig m.config m.configLatch }
  | programmed (eepgd : m.flag Eecon1.eepgd = true) (free : m.flag Eecon1.free = false)
      (cfgs : m.flag Eecon1.cfgs = false) :
    Cycled m trigger
      { m.spent with code := commitCode m.code (trigger - trigger % m.latchSize) m.latch }

theorem cycled (m : Emulator) (trigger : Nat) : m.Cycled trigger (m.runCycle trigger) := by
  cases eepgd : m.flag Eecon1.eepgd with
  | false =>
    have ran : m.runCycle trigger = m.spent := by
      simp only [flag] at eepgd
      simp [runCycle, spent, flag, eepgd]
    rw [ran]
    exact .ignored eepgd
  | true =>
    cases free : m.flag Eecon1.free with
    | true =>
      cases wren : m.flag Eecon1.wren with
      | false =>
        have ran : m.runCycle trigger = m.freed := by
          simp only [flag] at eepgd free wren
          simp [runCycle, freed, spent, flag, eepgd, free, wren]
        rw [ran]
        exact .refused free wren
      | true =>
        rw [runCycle_erase trigger eepgd free wren]
        exact .erased eepgd free wren
    | false =>
      cases cfgs : m.flag Eecon1.cfgs with
      | true =>
        rw [runCycle_config trigger eepgd cfgs free]
        exact .configured eepgd free cfgs
      | false =>
        rw [runCycle_code trigger eepgd cfgs free]
        exact .programmed eepgd free cfgs

theorem clearRow_eq (m : Emulator) (address : Nat) :
    ∃ code rowErases, m.clearRow address = { m with code, rowErases } := by
  unfold clearRow
  simp only
  split <;> exact ⟨_, _, rfl⟩

theorem runCycle_eq (m : Emulator) (trigger : Nat) :
    ∃ code config eecon1 rowErases, m.runCycle trigger =
      { m.spent with code, config, eecon1, rowErases } := by
  have ran := m.cycled trigger
  generalize m.runCycle trigger = n at ran
  cases ran with
  | erased _ _ _ =>
    obtain ⟨code, rowErases, cleared⟩ := m.freed.clearRow_eq trigger
    exact ⟨code, _, _, rowErases, cleared⟩
  | _ => exact ⟨_, _, _, _, rfl⟩

end Emulator

end InCircuit
