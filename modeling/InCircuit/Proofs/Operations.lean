import InCircuit.Proofs.Eeprom
import InCircuit.Proofs.Programming

set_option autoImplicit false

/-!
# Operations on a part at rest

Between operations a part is at rest: idle, with no key set and no row erase pending. Every
operation leaves it so, whether it succeeds or not, as long as no transfer fails.
-/
namespace InCircuit

namespace Emulator

structure Resting (p : Part) (s : Setup) (m : Emulator) : Prop where
  idle : Idle s m.memory ⟨0, 0, .none⟩ m
  free : m.mode.free = false
  code : m.memory.code.size = p.codeSize
  config : m.memory.config.size = p.configBytes
  eeprom : m.memory.eeprom.size = p.eepromBytes

variable {p : Part} {s : Setup} {m n : Emulator}

theorem Resting.of_kept (h : Resting p s m) (kept : Kept m n) : Resting p s n := by
  have memory := memory_eq_of_held kept.held
  have idle := h.idle.of_kept kept
  rw [← memory] at idle
  exact ⟨idle, kept.free.trans h.free, memory ▸ h.code, memory ▸ h.config, memory ▸ h.eeprom⟩

theorem Resting.of_idle {memory : Memory} (idle : Idle s memory ⟨0, 0, .none⟩ m)
    (free : m.mode.free = false) (code : memory.code.size = p.codeSize)
    (config : memory.config.size = p.configBytes) (eeprom : memory.eeprom.size = p.eepromBytes) :
    Resting p s m := by
  obtain rfl := idle.memory
  exact ⟨idle, free, code, config, eeprom⟩

end Emulator

namespace Routine

open Emulator Procedure

variable {ε : Type} {p : Part} {s : Setup} {m n : Emulator}

def Rests {α : Type} (p : Part) (s : Setup) (r : Routine ε α) (m : Emulator) : Prop :=
  r.run.Along (fun _ => True) (fun _ n => Resting p s n) m

theorem Rests.bind {α β : Type} {r : Routine ε α} {f : α → Routine ε β} (h : Rests p s r m)
    (next : ∀ a n, Resting p s n → Rests p s (f a) n) : Rests p s (r >>= f) m := by
  refine (along_bind r.run (ExceptT.bindCont f) m _ _).mpr (h.mono (fun _ h => h) ?_)
  rintro (e | a) n hn
  · exact hn
  · exact next a n hn

theorem Rests.of_brings {α : Type} {r : Routine ε α} {v : Except Fault α}
    (h : Brings (fun _ => True) r m v) (hm : Resting p s m) : Rests p s r m :=
  Along.mono h (fun _ h => h) fun _ _ h => hm.of_kept h.2

theorem rests_mk {α : Type} (v : Except Fault α) (hm : Resting p s m) :
    Rests p s (ExceptT.mk (pure v) : Routine ε α) m := hm

end Routine

/-! ## Operations on a device -/

def EraseMode.erased (mode : EraseMode) (m : Memory) : Memory :=
  match mode with
  | bulk => m.wiped
  | pages => { m with code := Array.replicate m.code.size InCircuit.erased }

/-- The memories that erasing passes through. -/
inductive Erasing (page : Nat) (prior : Memory) : EraseMode → Memory → Prop
  | start (mode : EraseMode) : Erasing page prior mode prior
  | wiped : Erasing page prior .bulk prior.wiped
  | pages (count : Nat) : Erasing page prior .pages (prior.eraseCode (count * page))

/-- The device is the emulated part, known under its own family. -/
structure Device.Drives (d : Device) (s : Setup) : Prop where
  suited : Suited d.part s
  family : (if Family.f2xxx.codes.contains (DeviceId.familyCode s.deviceId) then Family.f2xxx
    else Family.f2xx) = d.family

theorem Setup.Emulates.drives {s : Setup} {p : Part} {f : Family} (h : s.Emulates p)
    (known : (f, p) ∈ Family.knownParts) : Device.Drives ⟨s.deviceId, p, f⟩ s := by
  refine ⟨h.suited known, ?_⟩
  rw [h.familyCode]
  exact (Family.knownParts_found _ known).2.2.2

namespace Device

open Emulator Procedure Routine

variable {d : Device} {P : Memory → Prop} {s : Setup} {memory : Memory} {m : Emulator}

theorem Drives.family_eq (h : d.Drives s) (setup : m.setup = s) : m.family = d.family := by
  rw [← h.family, ← setup]
  rfl

theorem along_erase (mode : EraseMode) (drives : d.Drives s)
    (idle : Idle s memory ⟨0, 0, .none⟩ m) (size : memory.code.size = d.part.codeSize)
    (free : m.mode.free = false) (stages : ∀ k, Erasing d.part.erasePage memory mode k → P k) :
    (d.erase mode).run.Along (fun n => P n.memory)
      (returning fun _ n => Idle s (mode.erased memory) ⟨0, 0, .none⟩ n ∧ n.mode.free = false)
      m := by
  cases mode with
  | bulk =>
    refine along_seq (Family.along_bulkErase d.family (drives.family_eq idle.setup) idle
      (stages _ (.start _)) (stages _ .wiped)) ?_
    rintro _ n ⟨idle_n, mode_n⟩
    refine (goes_delay 20 ?_).returns ⟨idle_n, by rw [mode_n]; exact free⟩
    rw [idle_n.memory]
    exact stages _ .wiped
  | pages =>
    exact (along_tracked _ _ m _ _).mpr (d.family.along_pageErase drives.suited idle size free
      fun count => stages _ (.pages count))

theorem requireRoom_eq_ok {i : Image} :
    d.requireRoom i = .ok () ↔ i.origin + 2 * i.words ≤ d.part.codeSize :=
  requireRange_eq_ok

theorem along_programCode {i : Image} (drives : d.Drives s) (even : i.origin % 2 = 0)
    (fits : i.origin + 2 * i.words ≤ d.part.codeSize) (idle : Idle s memory ⟨0, 0, .none⟩ m)
    (free : m.mode.free = false)
    (stages : ∀ k, P (memory.program i ((Blocks.ofImage d.part i).start +
      2 * min (k * (Blocks.ofImage d.part i).length) (Blocks.ofImage d.part i).stop))) :
    (d.programCode i).run.Along (fun n => P n.memory)
      (returning fun _ n => Idle s (memory.program i (i.origin + 2 * i.words)) ⟨0, 0, .none⟩ n ∧
        n.mode.free = false) m := by
  unfold programCode
  rw [requireRoom_eq_ok.mpr fits]
  exact (along_tracked _ _ m _ _).mpr
    (d.family.along_programCode drives.suited even fits idle free stages)

theorem along_programCode_odd {i : Image} (odd : i.origin % 2 ≠ 0)
    (fits : i.origin + 2 * i.words ≤ d.part.codeSize) (idle : Idle s memory ⟨0, 0, .none⟩ m)
    (before : P memory) :
    (d.programCode i).run.Along (fun n => P n.memory)
      (fun v n => v = .error .misaligned ∧ Idle s memory ⟨0, 0, .none⟩ n ∧
        n.mode.free = m.mode.free) m := by
  unfold programCode
  rw [requireRoom_eq_ok.mpr fits]
  exact (along_tracked _ _ m _ _).mpr (d.family.along_programCode_odd odd idle before)

theorem along_programEeprom {i : Image} (suited : Suited d.part s)
    (idle : Idle s memory ⟨0, 0, .none⟩ m) (fits : i.eeprom.size ≤ d.part.eepromBytes) :
    (d.programEeprom i).run.Along (fun _ => True)
      (fun v n => v = s.verdict i.eeprom.toList ∧
        Idle s (memory.storeEeprom 0 (s.started i.eeprom.toList)) ⟨0, 0, .none⟩ n ∧
        n.mode.free = m.mode.free ∧ n.mode.wren = ! v.isOk) m :=
  (along_tracked _ _ m _ _).mpr (along_writeEeprom fits suited.eepromBytes_le idle)

theorem programEeprom_of_lt {i : Image} (long : d.part.eepromBytes < i.eeprom.size) :
    d.programEeprom i =
      ExceptT.mk (pure (.error (.outOfRange 0 i.eeprom.size d.part.eepromBytes))) := by
  unfold programEeprom writeEeprom
  rw [if_pos long]
  rfl

/-! ### Leaving the part at rest -/

variable {i : Image} (drives : d.Drives s) (hm : Resting d.part s m)

include drives hm

theorem rests_erase (mode : EraseMode) : Rests d.part s (d.erase mode) m := by
  refine (along_erase (P := fun _ => True) mode drives hm.idle hm.code hm.free
    fun _ _ => trivial).mono (fun _ h => h) ?_
  rintro (e | u) n hn
  · exact hn.elim
  · obtain ⟨idle_n, free_n⟩ := hn
    refine .of_idle idle_n free_n ?_ ?_ ?_
    · cases mode <;> simpa [EraseMode.erased, Memory.wiped] using hm.code
    · cases mode <;> simpa [EraseMode.erased, Memory.wiped] using hm.config
    · cases mode <;> simpa [EraseMode.erased, Memory.wiped] using hm.eeprom

theorem rests_programCode : Rests d.part s (d.programCode i) m := by
  by_cases fits : i.origin + 2 * i.words ≤ d.part.codeSize
  · by_cases even : i.origin % 2 = 0
    · refine (along_programCode (P := fun _ => True) drives even fits hm.idle hm.free
        fun _ => trivial).mono (fun _ h => h) ?_
      rintro (e | u) n hn
      · exact hn.elim
      · exact .of_idle hn.1 hn.2 (by simpa [Memory.program] using hm.code) hm.config hm.eeprom
    · refine (along_programCode_odd (P := fun _ => True) even fits hm.idle trivial).mono
        (fun _ h => h) fun v n hn => ?_
      exact .of_idle hn.2.1 (hn.2.2.trans hm.free) hm.code hm.config hm.eeprom
  · unfold programCode
    cases h : d.requireRoom i with
    | ok u => exact absurd (requireRoom_eq_ok.mp h) fits
    | error e => exact hm

theorem rests_programConfig : Rests d.part s (d.programConfig i) m := by
  refine (along_programConfig (P := fun _ => True) drives.suited hm.idle hm.free
    fun _ _ => trivial).mono (fun _ h => h) ?_
  rintro (e | u) n hn
  · exact hn.elim
  · exact .of_idle hn.1 hn.2 hm.code (by simpa [Memory.configure] using hm.config) hm.eeprom

theorem rests_programEeprom : Rests d.part s (d.programEeprom i) m := by
  by_cases fits : i.eeprom.size ≤ d.part.eepromBytes
  · refine (along_programEeprom drives.suited hm.idle fits).mono (fun _ h => h) fun v n hn => ?_
    obtain ⟨_, idle_n, free_n, _⟩ := hn
    refine .of_idle idle_n (free_n.trans hm.free) hm.code hm.config ?_
    change (Image.storeAt _ _ _).size = _
    rw [Image.size_storeAt]
    exact hm.eeprom
  · rw [programEeprom_of_lt (Nat.lt_of_not_le fits)]
    exact rests_mk _ hm

theorem rests_write (mode : EraseMode) : Rests d.part s (d.write i mode) m := by
  refine (rests_mk (d.requireRoom i) hm).bind fun _ n hn => ?_
  refine (rests_erase drives hn mode).bind fun _ n hn => ?_
  refine (rests_programCode drives hn).bind fun _ n hn => ?_
  exact rests_programConfig drives hn

theorem rests_readCode (offset size : Nat) : Rests d.part s (d.readCode offset size) m :=
  .of_brings ((brings_readCode offset size (fun _ _ => trivial) drives.suited.low).tracked _) hm

theorem rests_readEeprom : Rests d.part s (d.readEeprom i) m :=
  .of_brings (brings_readEeprom drives.suited i fun _ _ => trivial) hm

theorem rests_readAll (offset size : Nat) (eeprom : Bool) :
    Rests d.part s (d.readAll offset size eeprom) m :=
  .of_brings (brings_readAll drives.suited offset size eeprom fun _ _ => trivial) hm

theorem rests_verify (source : Image) : Rests d.part s (d.verify source) m :=
  .of_brings (brings_verify drives.suited source fun _ _ => trivial) hm

end Device

end InCircuit
