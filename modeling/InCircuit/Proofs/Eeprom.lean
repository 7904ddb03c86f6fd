import InCircuit.Proofs.Erasing
import InCircuit.Proofs.Reading

set_option autoImplicit false

/-!
# Programming the EEPROM of the emulated part

A byte is in the EEPROM as soon as its write has started; the polls after that only wait until the
part reports it done. A part that does so in time ends with every byte written, any other with the
first alone.
-/
namespace InCircuit

namespace Setup

/-- Every EEPROM write of the part is seen to end within the polls that are made for it. -/
def Settles (s : Setup) : Prop := s.stuck = false ∧ s.busyReads < 100

instance (s : Setup) : Decidable s.Settles := inferInstanceAs (Decidable (_ ∧ _))

/-- Of bytes to be written to the EEPROM, those whose write starts. -/
def started (s : Setup) (bytes : List UInt8) : List UInt8 :=
  if s.Settles then bytes else bytes.take 1

def verdict (s : Setup) (bytes : List UInt8) : Except Fault Unit :=
  if s.Settles ∨ bytes = [] then .ok () else .error .timeout

variable {s : Setup}

theorem started_of_settles (h : s.Settles) (bytes : List UInt8) : s.started bytes = bytes :=
  if_pos h

theorem verdict_of_settles (h : s.Settles) (bytes : List UInt8) : s.verdict bytes = .ok () :=
  if_pos (.inl h)

theorem verdict_nil (s : Setup) : s.verdict [] = .ok () := if_pos (.inr rfl)

theorem verdict_cons_of_not_settles (h : ¬ s.Settles) (b : UInt8) (bytes : List UInt8) :
    s.verdict (b :: bytes) = .error .timeout := if_neg fun
  | .inl settles => h settles
  | .inr empty => nomatch empty

end Setup

def Memory.storeEeprom (m : Memory) (address : Nat) (bytes : List UInt8) : Memory :=
  { m with eeprom := Image.storeAt m.eeprom address bytes }

namespace Emulator

variable {s : Setup} {memory : Memory} {m : Emulator}

/-! ## A write that is running -/

/-- WR is set just while a write is running, and for ever on a part that is stuck. -/
def Shows (m : Emulator) : Prop :=
  m.flag Eecon1.wr = (m.setup.stuck || decide (m.busy ≠ 0))

theorem mode_tick (m : Emulator) : m.tick.mode = m.mode := by
  unfold tick
  split
  · rfl
  · simp only [mode]
    split
    · simp [Mode.ofByte, Eecon1.wr, Eecon1.eepgd, Eecon1.cfgs, Eecon1.free, Eecon1.wren]
    · rfl

theorem kept_tick (m : Emulator) : Kept m m.tick := by
  refine ⟨held_tick m, ?_, congrArg Mode.free (mode_tick m)⟩
  unfold tick
  split <;> rfl

theorem busy_tick (running : m.setup.stuck = false) : m.tick.busy = m.busy - 1 := by
  unfold tick
  rw [running]
  split
  · rename_i finished
    have finished : m.busy = 0 := by simpa using finished
    rw [finished]
  · rfl

theorem Shows.tick (h : m.Shows) : m.tick.Shows := by
  unfold Shows Emulator.tick
  cases stuck : m.setup.stuck with
  | true =>
    rw [if_pos (.inl rfl), h, stuck]
  | false =>
    by_cases finished : m.busy = 0
    · rw [if_pos (.inr finished), h, stuck]
    · have running : m.flag Eecon1.wr = true := by
        rw [h, stuck, Bool.false_or, decide_eq_true finished]
      rw [if_neg (by simp [finished]), stuck]
      change Bits.test (if m.busy = 1 then Bits.clear m.eecon1 Eecon1.wr else m.eecon1) _ =
        (false || decide (m.busy - 1 ≠ 0))
      by_cases last : m.busy = 1
      · rw [if_pos last, last, Bits.test_clear]
        simp
      · have more : m.busy - 1 ≠ 0 := by omega
        rw [if_neg last, Bool.false_or, decide_eq_true more]
        exact running

def polled (m : Emulator) : Emulator := { m.tick with w := m.eecon1, tablat := m.eecon1 }

theorem executeAll_poll (m : Emulator) :
    m.executeAll [.movfW Register.eecon1.address, .movwf Register.tablat.address, .nop] =
      m.polled := by
  have ticked : ({ m with w := m.eecon1 } : Emulator).tick = { m.tick with w := m.eecon1 } := by
    unfold tick
    split <;> rfl
  change { ({ m with w := m.eecon1 } : Emulator).tick with
    tablat := ({ m with w := m.eecon1 } : Emulator).tick.w } = _
  rw [ticked]
  rfl

structure Unlocked (m : Emulator) : Prop where
  unlock : m.unlock = .both
  wren : m.mode.wren = true
  eepgd : m.mode.eepgd = false
  cfgs : m.mode.cfgs = false

namespace Unlocked

theorem beginWrite_eq (h : m.Unlocked) :
    m.beginWrite =
      { m with
        unlock := .none
        eeprom := m.eeprom.setIfInBounds m.eepromAddress m.eedata
        busy := m.setup.busyReads
        eecon1 :=
          if m.setup.busyReads = 0 ∧ ¬ m.setup.stuck then
            Bits.clear (Bits.set m.eecon1 Eecon1.wr) Eecon1.wr
          else Bits.set m.eecon1 Eecon1.wr } := by
  have wren : m.flag Eecon1.wren = true := h.wren
  have eepgd : m.flag Eecon1.eepgd = false := h.eepgd
  have cfgs : m.flag Eecon1.cfgs = false := h.cfgs
  rw [beginWrite, if_neg (by simp [h.unlock, wren, eepgd, cfgs])]

theorem mode_beginWrite (h : m.Unlocked) : m.beginWrite.mode = m.mode := by
  rw [h.beginWrite_eq]
  simp only [mode]
  split <;> simp [Mode.ofByte, Eecon1.wr, Eecon1.eepgd, Eecon1.cfgs, Eecon1.free, Eecon1.wren]

theorem shows_beginWrite (h : m.Unlocked) : m.beginWrite.Shows := by
  rw [h.beginWrite_eq, Shows, flag]
  by_cases done : m.setup.busyReads = 0 ∧ ¬ m.setup.stuck
  · simp [done]
  · simp only [if_neg done, Bits.test_set]
    by_cases busy : m.setup.busyReads = 0
    · simpa [busy] using done
    · simp [busy]

end Unlocked

end Emulator

namespace Routine

open Emulator Procedure

variable {ε : Type} {s : Setup} {memory : Memory} {m : Emulator}

/-- The polls end at the first that finds no write running, which none does on a part that is stuck
or busy for as long as they last. -/
theorem along_waitWritten (tries : Nat) (shows : m.Shows) :
    (waitWritten tries : Routine ε Unit).run.Along (fun _ => True)
      (fun v n => v = (if m.setup.stuck = false ∧ m.busy < tries then .ok () else .error .timeout) ∧
        Kept m n ∧ n.mode = m.mode) m := by
  -- Each poll of a part that is not stuck uses up one of the reads that it stays busy for.
  induction tries generalizing m with
  | zero =>
    refine ⟨?_, Kept.refl m, rfl⟩
    rw [if_neg fun h => Nat.not_lt_zero _ h.2]
  | succ tries ih =>
    have poll := goes_executeAll (ε := ε) (m := m) (I := fun _ => True)
      [.movfW Register.eecon1.address, .movwf Register.tablat.address, .nop] (by decide)
      fun _ _ => trivial
    rw [executeAll_poll] at poll
    have ticked := kept_tick m
    have kept : Kept m m.polled := ⟨ticked.held, ticked.unlock, ticked.free⟩
    have mode : m.polled.mode = m.mode := mode_tick m
    have shows_polled : m.polled.Shows := shows.tick
    unfold waitWritten
    refine poll.along ((goes_shiftOut trivial).along ?_)
    change (if m.flag Eecon1.wr = true then _ else _ : Routine ε Unit).run.Along _ _ _
    by_cases running : m.flag Eecon1.wr = true
    · rw [if_pos running]
      rw [shows] at running
      refine (goes_delay 1000 trivial).along ((ih shows_polled).mono (fun _ h => h) ?_)
      rintro v n ⟨rfl, kept_n, mode_n⟩
      refine ⟨?_, kept.trans kept_n, mode_n.trans mode⟩
      have setup : m.polled.setup = m.setup := congrArg Held.setup kept.held
      rw [setup]
      cases stuck : m.setup.stuck with
      | true => rfl
      | false =>
        have left : m.polled.busy = m.busy - 1 := busy_tick stuck
        have busy : m.busy ≠ 0 := by simpa [stuck] using running
        have same : m.busy - 1 < tries ↔ m.busy < tries + 1 := by omega
        simp only [left, same]
    · rw [if_neg running]
      rw [shows] at running
      obtain ⟨stuck, busy⟩ : m.setup.stuck = false ∧ m.busy = 0 := by simpa using running
      refine ⟨?_, kept, mode⟩
      rw [if_pos ⟨stuck, by omega⟩]

/-- Writing a byte. It is stored whether or not the write is seen to end. -/
theorem along_writeEepromByte {address : Nat} (byte : UInt8) (idle : Idle s memory ⟨0, 0, .none⟩ m)
    (eepgd : m.mode.eepgd = false) (cfgs : m.mode.cfgs = false) (room : address < 65536) :
    (writeEepromByte address byte : Routine ε Unit).run.Along (fun _ => True)
      (fun v n => v = s.verdict [byte] ∧
        Idle s (memory.storeEeprom address [byte]) ⟨0, 0, .none⟩ n ∧
        n.mode = ⟨false, false, m.mode.free, true⟩) m := by
  have anywhere {m : Emulator} : Around (fun _ => True) m := fun _ _ => trivial
  have locked : m.unlock = .none := congrArg Lock.unlock idle.lock
  let prepared : Emulator := { m with
    w := 0xAA
    eeadr := address.toUInt8
    eeadrH := (address / 256).toUInt8
    eedata := byte
    eecon1 := Bits.set m.eecon1 Eecon1.wren
    unlock := (m.unlock.next 0x55).next 0xAA }
  have mode : prepared.mode = ⟨false, false, m.mode.free, true⟩ := by
    change Mode.ofByte (Bits.set m.eecon1 Eecon1.wren) = _
    have eepgd : (Mode.ofByte m.eecon1).eepgd = false := eepgd
    have cfgs : (Mode.ofByte m.eecon1).cfgs = false := cfgs
    simp [Eecon1.eepgd, Eecon1.cfgs, Eecon1.free, Eecon1.wren, Emulator.mode, eepgd, cfgs]
  have here : prepared.eepromAddress = address := by
    change (address / 256).toUInt8.toNat * 256 + address.toUInt8.toNat = address
    simp only [Nat.toUInt8, UInt8.toNat_ofNat']
    omega
  have unlocked : prepared.Unlocked :=
    ⟨show (m.unlock.next 0x55).next 0xAA = .both by rw [locked]; rfl, congrArg Mode.wren mode,
      congrArg Mode.eepgd mode, congrArg Mode.cfgs mode⟩
  have started : Goes (fun _ => True) (execute .setWr : Routine ε Unit) prepared ()
      prepared.beginWrite := (goes_clock rfl trivial).bind (goes_pure _ () _)
  have setup : prepared.setup = s := idle.setup
  have stored : Idle s (memory.storeEeprom address [byte]) ⟨0, 0, .none⟩ prepared.beginWrite := by
    rw [unlocked.beginWrite_eq, here, ← idle.memory]
    exact ⟨idle.setup, rfl, by rw [← idle.lock, Emulator.lock, Emulator.lock, locked], idle.latch,
      idle.configLatch, idle.armed⟩
  have busy : prepared.beginWrite.busy = s.busyReads := by rw [unlocked.beginWrite_eq, ← setup]
  unfold writeEepromByte
  refine (goes_pointEeprom address anywhere).along ?_
  refine (goes_load .eedata byte anywhere).along ?_
  refine (goes_execute .setWren rfl anywhere).along ?_
  refine (goes_load .eecon2 0x55 anywhere).along ?_
  refine (goes_load .eecon2 0xAA anywhere).along ?_
  refine started.along ((along_waitWritten 100 unlocked.shows_beginWrite).mono (fun _ h => h) ?_)
  rintro v n ⟨rfl, kept, mode_n⟩
  refine ⟨?_, stored.of_kept kept,
    mode_n.trans (unlocked.mode_beginWrite.trans mode)⟩
  rw [stored.setup, busy, Setup.verdict]
  simp [Setup.Settles]

theorem along_writeEepromFrom {address : Nat} (bytes : List UInt8)
    (idle : Idle s memory ⟨0, 0, .none⟩ m) (eepgd : m.mode.eepgd = false)
    (cfgs : m.mode.cfgs = false) (room : address + bytes.length ≤ 65536) :
    (writeEepromFrom address bytes).run.Along (fun _ => True)
      (fun v n => v = s.verdict bytes ∧
        Idle s (memory.storeEeprom address (s.started bytes)) ⟨0, 0, .none⟩ n ∧
        n.mode.free = m.mode.free ∧ n.mode.wren = (m.mode.wren || ! bytes.isEmpty)) m := by
  induction bytes generalizing address memory m with
  | nil =>
    have nothing : s.started [] = [] := by simp [Setup.started]
    refine ⟨s.verdict_nil.symm, ?_, rfl, (Bool.or_false _).symm⟩
    rw [nothing]
    exact idle
  | cons b bytes ih =>
    rw [List.length_cons] at room
    unfold writeEepromFrom
    refine (along_bind _ _ _ _ _).mpr
      ((along_writeEepromByte b idle eepgd cfgs (by omega)).mono (fun _ h => h) ?_)
    rintro _ n ⟨rfl, idle_n, mode_n⟩
    by_cases settles : s.Settles
    · have ok : s.verdict [b] = .ok () := Setup.verdict_of_settles settles [b]
      have rest := ih idle_n (by rw [mode_n]) (by rw [mode_n])
        (show address + 1 + bytes.length ≤ 65536 by omega)
      rw [ok]
      refine (goes_emit _ (.reached (address + 1)) n).along (rest.mono (fun _ h => h) ?_)
      rintro _ k ⟨rfl, idle_k, free_k, wren_k⟩
      rw [Setup.started_of_settles settles] at idle_k ⊢
      refine ⟨?_, idle_k, free_k.trans (by rw [mode_n]), wren_k.trans (by rw [mode_n]; simp)⟩
      rw [Setup.verdict_of_settles settles, Setup.verdict_of_settles settles]
    · have timeout : s.verdict [b] = .error .timeout :=
      Setup.verdict_cons_of_not_settles settles b []
      have one : s.started (b :: bytes) = [b] := if_neg settles
      rw [timeout]
      refine ⟨(Setup.verdict_cons_of_not_settles settles b bytes).symm, ?_, by rw [mode_n],
        by rw [mode_n]; simp⟩
      rw [one]
      exact idle_n

/-- Programming an EEPROM that the bytes fit. Only a write that is not seen to end leaves writes
enabled. -/
theorem along_writeEeprom {p : Part} {i : Image} (fits : i.eeprom.size ≤ p.eepromBytes)
    (room : p.eepromBytes ≤ Image.eepromCapacity) (idle : Idle s memory ⟨0, 0, .none⟩ m) :
    (writeEeprom p i).run.Along (fun _ => True)
      (fun v n => v = s.verdict i.eeprom.toList ∧
        Idle s (memory.storeEeprom 0 (s.started i.eeprom.toList)) ⟨0, 0, .none⟩ n ∧
        n.mode.free = m.mode.free ∧ n.mode.wren = ! v.isOk) m := by
  have hcapacity : Image.eepromCapacity = 1024 := rfl
  have anywhere {m : Emulator} : Around (fun _ => True) m := fun _ _ => trivial
  unfold writeEeprom
  rw [if_neg (Nat.not_lt_of_le fits)]
  refine along_seq (along_enterEepromMode anywhere) ?_
  rintro _ n ⟨kept, mode_n⟩
  refine (goes_emit _ _ n).along ((along_bind _ _ _ _ _).mpr
    ((along_writeEepromFrom i.eeprom.toList (idle.of_kept kept) (by rw [mode_n]) (by rw [mode_n])
      (show 0 + i.eeprom.toList.length ≤ 65536 by rw [Array.length_toList]; omega)).mono
        (fun _ h => h) ?_))
  rintro _ k ⟨rfl, idle_k, free_k, wren_k⟩
  have free := free_k.trans kept.free
  -- Writes are disabled again at the end, which a poll that timed out does not come to.
  by_cases done : s.Settles ∨ i.eeprom.toList = []
  · have ok : s.verdict i.eeprom.toList = .ok () := if_pos done
    rw [ok]
    refine (goes_emit _ _ k).along (Along.mono (goes_execute .clearWren rfl anywhere)
      (fun _ h => h) ?_)
    rintro (e | u) l ended
    · exact ended.elim
    obtain ⟨_, rfl⟩ := ended
    rw [Instruction.execute_of_isSwitch rfl]
    refine ⟨rfl, idle_k.of_held rfl rfl, ?_, ?_⟩
    · rw [← free]
      change (Mode.ofByte (Bits.clear k.eecon1 Eecon1.wren)).free = _
      simp [Eecon1.wren, Eecon1.free, mode]
    · change (Mode.ofByte (Bits.clear k.eecon1 Eecon1.wren)).wren = false
      simp
  · have timeout : s.verdict i.eeprom.toList = .error .timeout := if_neg done
    have some : i.eeprom.toList.isEmpty = false := by
      rw [List.isEmpty_eq_false_iff]
      exact fun empty => done (.inr empty)
    rw [some] at wren_k
    rw [timeout]
    exact ⟨rfl, idle_k, free, wren_k.trans (Bool.or_true _)⟩

end Routine

end InCircuit
