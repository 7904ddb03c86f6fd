import InCircuit.Proofs.Emulator.Cycles
import InCircuit.Proofs.Image.Contents
import InCircuit.Proofs.Parts
import InCircuit.Workflow

set_option autoImplicit false

/-!
# Reading the emulated part

Reading moves the table pointer and uses the registers that a read goes through. It keeps what the
part holds, and what is read is what it holds.
-/
namespace InCircuit

namespace Emulator

/-- Nothing differs but working registers, and none of those that let a cycle through. -/
structure Kept (m n : Emulator) : Prop where
  held : n.held = m.held
  unlock : n.unlock = m.unlock
  free : n.mode.free = m.mode.free

theorem Kept.refl (m : Emulator) : Kept m m := ⟨rfl, rfl, rfl⟩

theorem Kept.trans {m n k : Emulator} (h : Kept m n) (next : Kept n k) : Kept m k :=
  ⟨next.held.trans h.held, next.unlock.trans h.unlock, next.free.trans h.free⟩

theorem Idle.of_kept {s : Setup} {memory : Memory} {lock : Lock} {m n : Emulator}
    (h : Idle s memory lock m) (kept : Kept m n) : Idle s memory lock n :=
  h.of_held kept.held kept.unlock

theorem byteAt_of_held {m n : Emulator} (h : n.held = m.held) (a : Nat) :
    n.byteAt a = m.byteAt a := by
  have setup : n.setup = m.setup := congrArg Held.setup h
  have code : n.code = m.code := congrArg (fun k : Held => k.memory.code) h
  have config : n.config = m.config := congrArg (fun k : Held => k.memory.config) h
  simp only [byteAt, setup, code, config]

def bytesFrom (m : Emulator) (start length : Nat) : List UInt8 :=
  (List.range length).map fun k => m.byteAt (start + k)

@[simp]
theorem length_bytesFrom (m : Emulator) (start length : Nat) :
    (m.bytesFrom start length).length = length := by
  simp [bytesFrom]

theorem bytesFrom_of_held {m n : Emulator} (h : n.held = m.held) (start length : Nat) :
    n.bytesFrom start length = m.bytesFrom start length := by
  simp only [bytesFrom, byteAt_of_held h]

theorem bytesFrom_succ_two (m : Emulator) (start count : Nat) :
    m.bytesFrom start (2 * (count + 1)) =
      m.byteAt start :: m.byteAt (start + 1) :: m.bytesFrom (start + 2) (2 * count) := by
  rw [bytesFrom, Nat.mul_add, Nat.mul_one, Nat.add_comm, List.range_add]
  simp [bytesFrom, Function.comp_def, Nat.add_assoc]
  rfl

def eepromBytes (m : Emulator) (start count : Nat) : List UInt8 :=
  (List.range count).map fun k => m.eeprom.getD (start + k) 0

theorem eepromBytes_succ (m : Emulator) (start count : Nat) :
    m.eepromBytes start (count + 1) = m.eeprom.getD start 0 :: m.eepromBytes (start + 1) count := by
  rw [eepromBytes, Nat.add_comm, List.range_add]
  simp [eepromBytes, Function.comp_def, Nat.add_assoc]

theorem eepromBytes_of_held {m n : Emulator} (h : n.held = m.held) (start count : Nat) :
    n.eepromBytes start count = m.eepromBytes start count := by
  have eeprom : n.eeprom = m.eeprom := congrArg (fun k : Held => k.memory.eeprom) h
  simp only [eepromBytes, eeprom]

def configByte (m : Emulator) (offset : Nat) : UInt8 := m.byteAt (Address.config + offset)

theorem configByte_of_held {m n : Emulator} (h : n.held = m.held) :
    n.configByte = m.configByte := by
  funext offset
  exact byteAt_of_held h _

end Emulator

namespace Device

open Emulator

theorem requireRange_eq_ok {d : Device} {offset length : Nat} {u : Unit} :
    d.requireRange offset length = .ok u ↔ offset + length ≤ d.part.codeSize := by
  rw [requireRange]
  split
  · exact ⟨fun h => (by cases h), fun h => absurd h (by omega)⟩
  · exact ⟨fun _ => by omega, fun _ => rfl⟩

variable (d : Device) (m : Emulator)

def codeRead (offset size : Nat) : Except Fault Image := do
  if offset % 2 ≠ 0 ∨ size % 2 ≠ 0 then
    throw .misaligned
  let length ← d.readLength offset size
  d.requireRange offset length
  (Image.blank length offset).putCode 0 (m.bytesFrom offset (2 * (length / 2)))

def configRead (i : Image) : Image :=
  i.withConfig d.part.configBytes fun o => some (m.configByte o)

def eepromRead (i : Image) : Except Fault Image :=
  i.writeEeprom 0 (m.eepromBytes 0 d.part.eepromBytes)

end Device

namespace Routine

open Emulator Procedure

variable {ε : Type} {I : Emulator → Prop} {m : Emulator}

theorem kept_pointAt (m : Emulator) (address : Nat) : Kept m (m.pointAt address) :=
  ⟨rfl, rfl, rfl⟩

/-- The routine ends with `v`, fault or not, and keeps what the part holds. -/
def Brings {α : Type} (I : Emulator → Prop) (r : Routine ε α) (m : Emulator)
    (v : Except Fault α) : Prop :=
  r.run.Along I (fun w n => w = v ∧ Kept m n) m

theorem brings_mk {α : Type} (v : Except Fault α) :
    Brings I (ExceptT.mk (pure v) : Routine ε α) m v := ⟨rfl, Kept.refl m⟩

theorem Brings.bind {α β : Type} {r : Routine ε α} {v : Except Fault α} {f : α → Routine ε β}
    {g : α → Except Fault β} (h : Brings I r m v)
    (next : ∀ a n, v = .ok a → Kept m n → Brings I (f a) n (g a)) :
    Brings I (r >>= f) m (v >>= g) := by
  refine (along_bind r.run (ExceptT.bindCont f) m I _).mpr (h.mono (fun _ h => h) ?_)
  rintro w n ⟨rfl, kept⟩
  cases w with
  | ok a => exact (next a n rfl kept).mono (fun _ h => h) fun w k h => ⟨h.1, kept.trans h.2⟩
  | error e => exact ⟨rfl, kept⟩

theorem Brings.tracked {α : Type} {r : Routine Mark α} {v : Except Fault α} (h : Brings I r m v)
    (t : Tracker) : Brings I (r.tracked t) m v :=
  (along_tracked r.run t m I _).mpr h

theorem along_nextByte (hI : Around I m) (room : m.pointer + 1 < 16777216) :
    (nextByte : Routine ε UInt8).run.Along I
      (returning fun b n => b = m.byteAt m.pointer ∧ Kept m n ∧ n.pointer = m.pointer + 1) m :=
  (goes_nextByte hI).returns ⟨rfl, ⟨rfl, rfl, rfl⟩, Nat.mod_eq_of_lt room⟩

theorem along_readWords (count : Nat) (bytes : Array UInt8) (hI : Around I m)
    (room : m.pointer + 2 * count < 16777216) :
    (readWords count bytes).run.Along I
      (returning fun v n => v.toList = bytes.toList ++ m.bytesFrom m.pointer (2 * count) ∧
        Kept m n) m := by
  induction count generalizing bytes m with
  | zero => exact ⟨(List.append_nil _).symm, Kept.refl m⟩
  | succ count ih =>
    unfold readWords
    refine along_seq (along_nextByte hI (by omega)) ?_
    rintro _ n ⟨rfl, kept_n, here_n⟩
    have around_n := hI.of_held kept_n.held
    refine along_seq (along_nextByte around_n (by omega)) ?_
    rintro _ k ⟨rfl, kept_k, here_k⟩
    have kept := kept_n.trans kept_k
    have around_k := around_n.of_held kept_k.held
    refine (goes_emit _ _ k).along (along_returning_mono (ih _ around_k (by omega)) ?_)
    rintro v l ⟨hv, kept_l⟩
    refine ⟨?_, kept.trans kept_l⟩
    rw [hv, bytesFrom_succ_two, here_k, here_n, bytesFrom_of_held kept.held,
      byteAt_of_held kept_n.held]
    simp

theorem brings_readCode {d : Device} (offset size : Nat) (hI : Around I m)
    (low : d.part.codeSize ≤ Address.config) :
    Brings I (readCode d offset size) m (d.codeRead m offset size) := by
  have hlast : Address.last = 16777215 := rfl
  have hconfig : Address.config = 3145728 := rfl
  unfold readCode Device.codeRead
  by_cases odd : offset % 2 ≠ 0 ∨ size % 2 ≠ 0
  · rw [if_pos odd, if_pos odd]
    exact ⟨rfl, Kept.refl m⟩
  rw [if_neg odd, if_neg odd]
  refine (brings_mk _).bind fun length k _ kept_k => (brings_mk _).bind fun _ n range kept_n => ?_
  have kept_n := kept_k.trans kept_n
  have fits := Device.requireRange_eq_ok.mp range
  have around_n := hI.of_held kept_n.held
  refine (goes_setPointer (by omega) around_n).along ((goes_emit _ _ _).along ?_)
  refine along_seq (along_readWords (length / 2) #[] (around_n.of_held rfl) ?_) ?_
  · change offset + 2 * (length / 2) < _
    omega
  · rintro v k ⟨hv, kept⟩
    refine (goes_emit _ _ k).along ⟨?_, (kept_pointAt n offset).trans kept⟩
    rw [hv, ← bytesFrom_of_held kept_n.held]
    rfl

theorem along_readConfigFrom {offset : Nat} (count : Nat) (i : Image) (value : Nat → UInt8)
    (hI : Around I m) (room : offset + count ≤ 32) (here : m.pointer = Address.config + offset)
    (same : ∀ o, value o = m.configByte o) :
    (readConfigFrom count offset (i.withConfig offset fun o => some (value o)) :
        Procedure ε (Except Fault Unit × Image)).Along I
      (fun v n => v = (.ok (), i.withConfig (offset + count) fun o => some (value o)) ∧ Kept m n)
      m := by
  induction count generalizing offset m with
  | zero => exact ⟨rfl, Kept.refl m⟩
  | succ count ih =>
    have hconfig : Address.config = 3145728 := rfl
    unfold readConfigFrom
    refine (along_bind _ _ _ _ _).mpr ((along_nextByte hI (by omega)).mono (fun _ h => h) ?_)
    rintro (e | b) n hn
    · exact hn.elim
    · obtain ⟨rfl, kept, here_n⟩ := hn
      have put : (i.withConfig offset fun o => some (value o)).putConfig offset
          (m.byteAt m.pointer) = .ok (i.withConfig (offset + 1) fun o => some (value o)) := by
        rw [here]
        change Image.putConfig _ _ (m.configByte offset) = _
        rw [← same, Image.putConfig_withConfig i (by omega) rfl]
      simp only [put]
      have rest := ih (m := n) (hI.of_held kept.held) (by omega)
        (show n.pointer = Address.config + (offset + 1) by omega)
        (fun o => by rw [same, configByte, configByte, byteAt_of_held kept.held])
      rw [Nat.add_assoc, Nat.add_comm 1] at rest
      exact rest.mono (fun _ h => h) fun v k h => ⟨h.1, kept.trans h.2⟩

theorem along_fillConfig {d : Device} (i : Image) (hI : Around I m)
    (address : d.part.configAddress = Address.config) (room : d.part.configBytes ≤ 32) :
    (fillConfig d i : Procedure ε (Except Fault Unit × Image)).Along I
      (fun v n => v = (.ok (), d.configRead m i) ∧ Kept m n) m := by
  have hlast : Address.last = 16777215 := rfl
  have hconfig : Address.config = 3145728 := rfl
  unfold fillConfig
  rw [address]
  refine (along_bind _ _ _ _ _).mpr
    (Along.mono (goes_setPointer (by omega) hI) (fun _ h => h) ?_)
  rintro (e | u) n hn
  · exact hn.elim
  · obtain ⟨_, rfl⟩ := hn
    have kept := kept_pointAt m Address.config
    have rest := along_readConfigFrom (ε := ε) (m := m.pointAt Address.config)
      d.part.configBytes i m.configByte (hI.of_held rfl) (by omega)
      (show (m.pointAt Address.config).pointer = Address.config + 0 from rfl)
      (fun o => by rw [configByte, configByte, byteAt_of_held kept.held])
    rw [Image.withConfig_zero, Nat.zero_add] at rest
    exact rest.mono (fun _ h => h) fun v k h => ⟨h.1, kept.trans h.2⟩

theorem brings_readConfig {d : Device} (i : Image) (hI : Around I m)
    (address : d.part.configAddress = Address.config) (room : d.part.configBytes ≤ 32) :
    Brings I (readConfig d i : Routine ε Image) m (.ok (d.configRead m i)) := by
  refine (along_bind _ _ _ _ _).mpr
    ((along_fillConfig i hI address room).mono (fun _ h => h) ?_)
  rintro v n ⟨rfl, kept⟩
  exact ⟨rfl, kept⟩

/-! ## Identification -/

theorem brings_fetchDeviceId (hI : Around I m) (code : m.setup.codeSize ≤ Address.config)
    (config : m.setup.configBytes ≤ 32) :
    Brings I (fetchDeviceId : Routine ε UInt16) m (.ok m.setup.deviceId) := by
  have hconfig : Address.config = 3145728 := rfl
  have hid : Address.deviceId = 4194302 := rfl
  have kept := kept_pointAt m Address.deviceId
  have low : (m.pointAt Address.deviceId).byteAt Address.deviceId =
      m.setup.deviceId.toNat.toUInt8 := by
    rw [byteAt_of_held kept.held, byteAt, if_neg (by omega), if_neg (by omega), if_pos rfl]
  have high : (m.pointAt Address.deviceId).byteAt (Address.deviceId + 1) =
      (m.setup.deviceId.toNat / 256).toUInt8 := by
    rw [byteAt_of_held kept.held, byteAt, if_neg (by omega), if_neg (by omega),
      if_neg (by omega), if_pos rfl]
  refine (goes_setPointer (by decide) hI).along ?_
  have here : (m.pointAt Address.deviceId).pointer = Address.deviceId := rfl
  refine along_seq (along_nextByte (hI.of_held rfl) (by omega)) ?_
  rintro _ n ⟨rfl, kept_n, here_n⟩
  refine along_seq (along_nextByte ((hI.of_held rfl).of_held kept_n.held) (by omega)) ?_
  rintro _ k ⟨rfl, kept_k, _⟩
  refine ⟨congrArg Except.ok ?_, kept.trans (kept_n.trans kept_k)⟩
  rw [here_n, here, byteAt_of_held kept_n.held, low, high]
  have hb := m.setup.deviceId.toNat_lt
  apply UInt16.toNat_inj.mp
  simp only [Nat.toUInt8, UInt8.toNat_ofNat', UInt16.toNat_ofNat']
  omega

/-! ## EEPROM -/

theorem goes_pointEeprom (address : Nat) (hI : Around I m) :
    Goes I (pointEeprom address : Routine ε Unit) m ()
      { m with
        w := (address / 256).toUInt8
        eeadr := address.toUInt8
        eeadrH := (address / 256).toUInt8 } :=
  (goes_load .eeadr _ hI).bind (goes_load .eeadrH _ (hI.of_held rfl))

theorem execute_eepromRead {m : Emulator} (eepgd : m.mode.eepgd = false)
    (cfgs : m.mode.cfgs = false) :
    m.executeAll [.setRd, .movfW Register.eedata.address, .movwf Register.tablat.address] =
      { m with
        eedata := m.eeprom.getD m.eepromAddress 0
        w := m.eeprom.getD m.eepromAddress 0
        tablat := m.eeprom.getD m.eepromAddress 0 } := by
  have he : m.flag Eecon1.eepgd = false := eepgd
  have hc : m.flag Eecon1.cfgs = false := cfgs
  have started : m.execute .setRd = { m with eedata := m.eeprom.getD m.eepromAddress 0 } := by
    change m.beginRead = _
    rw [beginRead, if_neg (by simp [he, hc])]
  change ((m.execute .setRd).execute (.movfW Register.eedata.address)).execute
    (.movwf Register.tablat.address) = _
  rw [started]
  rfl

theorem along_readEepromFrom {address : Nat} (count : Nat) (bytes : Array UInt8) (hI : Around I m)
    (eepgd : m.mode.eepgd = false) (cfgs : m.mode.cfgs = false) (room : address + count ≤ 65536) :
    (readEepromFrom count address bytes).run.Along I
      (returning fun v n => v.toList = bytes.toList ++ m.eepromBytes address count ∧
        Kept m n) m := by
  induction count generalizing address bytes m with
  | zero => exact ⟨(List.append_nil _).symm, Kept.refl m⟩
  | succ count ih =>
    let pointed : Emulator := { m with
      w := (address / 256).toUInt8
      eeadr := address.toUInt8
      eeadrH := (address / 256).toUInt8 }
    have here : pointed.eepromAddress = address := by
      change (address / 256).toUInt8.toNat * 256 + address.toUInt8.toNat = address
      simp only [Nat.toUInt8, UInt8.toNat_ofNat']
      omega
    have fetched := goes_executeAll (ε := Mark) (m := pointed) [.setRd,
      .movfW Register.eedata.address, .movwf Register.tablat.address] (by decide) (hI.of_held rfl)
    rw [execute_eepromRead (m := pointed) eepgd cfgs, here] at fetched
    let n : Emulator := { pointed with
      eedata := m.eeprom.getD address 0
      w := m.eeprom.getD address 0
      tablat := m.eeprom.getD address 0 }
    have kept : Kept m n := ⟨rfl, rfl, rfl⟩
    have around := hI.of_held kept.held
    have rest := ih (m := n) (bytes.push (m.eeprom.getD address 0)) around eepgd cfgs
      (show address + 1 + count ≤ 65536 by omega)
    unfold readEepromFrom
    refine (goes_pointEeprom address hI).along (fetched.along ((goes_shiftOut around.self).along
      ((goes_emit _ _ n).along (along_returning_mono rest ?_))))
    rintro v k ⟨hv, kept_k⟩
    refine ⟨?_, kept.trans kept_k⟩
    rw [hv, eepromBytes_succ, Array.toList_push, List.append_assoc]
    rfl

theorem along_enterEepromMode (hI : Around I m) :
    (enterEepromMode : Routine ε Unit).run.Along I
      (returning fun _ n => Kept m n ∧ n.mode = ⟨false, false, m.mode.free, m.mode.wren⟩) m := by
  have entered : Mode.ofByte ([Instruction.clearEepgd, .clearCfgs].foldl Instruction.switch
      m.eecon1) = ⟨false, false, m.mode.free, m.mode.wren⟩ := by
    simp [Instruction.switch, Instruction.clearEepgd, Instruction.clearCfgs, Instruction.clearBit,
      Eecon1.eepgd, Eecon1.cfgs, Eecon1.free, Eecon1.wren, mode]
  refine (goes_switch rfl hI).returns ⟨⟨rfl, rfl, ?_⟩, entered⟩
  change (Mode.ofByte _).free = _
  rw [entered]

theorem brings_scanEeprom {p : Part} (hI : Around I m)
    (room : p.eepromBytes ≤ Image.eepromCapacity) :
    Brings I (scanEeprom p) m (.ok (m.eepromBytes 0 p.eepromBytes).toArray) := by
  have hcapacity : Image.eepromCapacity = 1024 := rfl
  unfold scanEeprom
  refine along_seq (along_enterEepromMode hI) ?_
  rintro _ n ⟨kept_n, mode_n⟩
  have around_n := hI.of_held kept_n.held
  have eeprom : n.eeprom = m.eeprom := congrArg (fun k : Held => k.memory.eeprom) kept_n.held
  refine (goes_emit _ _ n).along (along_seq (along_readEepromFrom p.eepromBytes #[] around_n
    (by rw [mode_n]) (by rw [mode_n]) (by omega)) ?_)
  rintro v k ⟨hv, kept_k⟩
  refine (goes_emit _ _ k).along ⟨congrArg Except.ok (Array.toList_inj.mp ?_), kept_n.trans kept_k⟩
  rw [hv, Emulator.eepromBytes, eeprom]
  rfl

end Routine

namespace Device

open Emulator Procedure Routine

variable {I : Emulator → Prop} {m : Emulator}

def wholeRead (d : Device) (m : Emulator) (offset size : Nat) (eeprom : Bool) :
    Except Fault Image := do
  let i ← d.codeRead m offset size
  if eeprom then d.eepromRead m (d.configRead m i) else pure (d.configRead m i)

def comparison (d : Device) (m : Emulator) (source : Image) : Except Fault Compared := do
  let length := 2 * source.words
  let readback ←
    if length = 0 then pure (Image.blank 0 source.origin) else d.codeRead m source.origin length
  d.compare source (if source.knownConfig.isEmpty then readback else d.configRead m readback)

theorem brings_readEeprom {d : Device} {s : Setup} (suited : Suited d.part s) (i : Image)
    (hI : Around I m) : Brings I (d.readEeprom i) m (d.eepromRead m i) := by
  rw [readEeprom_eq]
  refine ((brings_scanEeprom hI suited.eepromBytes_le).bind
    (g := fun bytes => i.writeEeprom 0 bytes.toList) fun bytes n _ _ => ?_).tracked _
  exact brings_mk (i.writeEeprom 0 bytes.toList)

theorem brings_readAll {d : Device} {s : Setup} (suited : Suited d.part s) (offset size : Nat)
    (eeprom : Bool) (hI : Around I m) :
    Brings I (d.readAll offset size eeprom) m (d.wholeRead m offset size eeprom) := by
  refine ((brings_readCode offset size hI suited.low).tracked _).bind fun i n _ kept_n => ?_
  have around_n := hI.of_held kept_n.held
  have config : d.configRead n i = d.configRead m i := by
    simp only [configRead, configByte_of_held kept_n.held]
  rw [← config]
  refine (brings_readConfig i around_n suited.configAddress suited.configBytes_le).bind
    (g := fun i => if eeprom then d.eepromRead m i else pure i) fun j k _ kept_k => ?_
  cases eeprom with
  | false => exact brings_mk (.ok j)
  | true =>
    have kept := kept_n.trans kept_k
    have same : d.eepromRead k j = d.eepromRead m j := by
      simp only [eepromRead, eepromBytes_of_held kept.held]
    change Brings I (d.readEeprom j) k (d.eepromRead m j)
    rw [← same]
    exact brings_readEeprom suited j (hI.of_held kept.held)

theorem brings_verify {d : Device} {s : Setup} (suited : Suited d.part s) (source : Image)
    (hI : Around I m) : Brings I (d.verify source) m (d.comparison m source) := by
  have finish (r : Image) (n : Emulator) (kept_n : Kept m n) :
      Brings I (d.finishVerify source r) n
        (d.compare source (if source.knownConfig.isEmpty then r else d.configRead m r)) := by
    unfold finishVerify
    cases source.knownConfig.isEmpty with
    | true => exact brings_mk (d.compare source r)
    | false =>
      have config : d.configRead n r = d.configRead m r := by
        simp only [configRead, configByte_of_held kept_n.held]
      have known := brings_readConfig (ε := Report) r (hI.of_held kept_n.held)
        suited.configAddress suited.configBytes_le
      rw [config] at known
      exact known.bind (g := d.compare source) fun r k _ _ => brings_mk (d.compare source r)
  rw [verify_eq_finish]
  unfold comparison
  by_cases empty : 2 * source.words = 0
  · simp only [if_pos empty]
    exact finish _ m (Kept.refl m)
  · simp only [if_neg empty]
    exact ((brings_readCode _ _ hI suited.low).tracked _).bind fun r n _ kept_n =>
      finish r n kept_n

theorem brings_identify {s : Setup} {p : Part} (suited : Suited p s) (setup : m.setup = s)
    (hI : Around I m) : Brings I identify m (ofId s.deviceId) := by
  subst setup
  refine (brings_fetchDeviceId hI ?_ ?_).bind (g := ofId) fun id n _ _ => brings_mk (ofId id)
  · rw [suited.codeSize]
    exact suited.low
  · rw [suited.configBytes]
    exact suited.configBytes_le

end Device

end InCircuit
