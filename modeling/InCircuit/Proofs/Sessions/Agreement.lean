import InCircuit.Proofs.Agreement
import InCircuit.Proofs.Links
import InCircuit.Proofs.Sessions.Writing

set_option autoImplicit false

/-!
# A part and a table memory in sessions

Two sessions are paired while they know the same device and it reads alike over both links.
Programming a new part keeps them paired and so does every read of tables, so they bring the same.
-/
namespace InCircuit

def TableMemory.withId (id : UInt16) : TableMemory :=
  ({} : TableMemory).setBytes Address.deviceId [id.toNat.toUInt8, (id.toNat / 256).toUInt8]

def Memory.new (s : Setup) : Memory where
  code := Array.replicate s.codeSize erased
  config := Array.replicate s.configBytes erased
  eeprom := Array.replicate s.eepromSize erased

theorem Memory.sized_new (s : Setup) : (Memory.new s).Sized s :=
  ⟨Array.size_replicate, Array.size_replicate, Array.size_replicate⟩

namespace Emulator

variable {p : Part} {s : Setup}

theorem resting_new (suited : Suited p s) : (new s).Resting p s :=
  (Session.resting_powerUp (f := .f2xx) suited (Memory.sized_new s)).part

theorem byteAt_new (suited : Suited p s) {a : Nat} (h : a < p.codeSize) :
    (new s).byteAt a = erased := by
  apply Option.some.inj
  rw [← (resting_new suited).byteAt suited h]
  change (Array.replicate s.codeSize erased)[a]? = _
  rw [Array.getElem?_replicate, if_pos (by rwa [suited.codeSize])]

theorem configByte_new (suited : Suited p s) {o : Nat} (h : o < p.configBytes) :
    (new s).configByte o = erased := by
  apply Option.some.inj
  rw [← (resting_new suited).configByte suited h]
  change (Array.replicate s.configBytes erased)[o]? = _
  rw [Array.getElem?_replicate, if_pos (by rwa [suited.configBytes])]

end Emulator

open Emulator in
theorem alike_new {p : Part} {s : Setup} (suited : Suited p s) :
    Alike p (.new s) (.withId s.deviceId) := by
  have hconfig : Address.config = 3145728 := rfl
  have hid : Address.deviceId = 4194302 := rfl
  have low := suited.low
  have small := suited.configBytes_le
  have bytes : (TableMemory.withId s.deviceId).byte = TableMemory.overlay Address.deviceId
      [s.deviceId.toNat.toUInt8, (s.deviceId.toNat / 256).toUInt8] fun _ => erased :=
    TableMemory.byte_setBytes _ _ _
  intro a readable
  rw [bytes, TableMemory.overlay]
  obtain code | ⟨first, last⟩ | ⟨first, last⟩ := readable
  · rw [if_neg (by omega), byteAt_new suited code]
  · have stored := configByte_new suited (show a - Address.config < p.configBytes by omega)
    rw [configByte, Nat.add_sub_cancel' first] at stored
    rw [if_neg (by omega), stored]
  · have past_code : ¬ a < s.codeSize := by rw [suited.codeSize]; omega
    have past_config : ¬ (Address.config ≤ a ∧ a < Address.config + s.configBytes) := by
      rw [suited.configBytes]
      omega
    have either : a = Address.deviceId ∨ a = Address.deviceId + 1 := by omega
    have setup : (new s).setup = s := rfl
    rw [byteAt, setup, if_neg past_code, if_neg past_config, if_pos first]
    obtain rfl | rfl := either
    · rfl
    · rfl

/-! ## A table memory on a link of its own -/

def Recorded.fresh {σ : Type} (target : σ) : Recorded (Lossy σ) := { target := { target } }

namespace Answered

variable {σ : Type}

def recorded (l : Answered σ) : Recorded (Lossy σ) :=
  ⟨⟨l.target, none, l.exchanges.length⟩, (l.exchanges.map Prod.fst).toArray⟩

theorem hom_recorded [Link σ] : Link.Hom (recorded (σ := σ)) := by
  intro t l
  have next : (l.exchanges ++ [(t, (Link.clock t l.target).1)]).map Prod.fst =
      l.exchanges.map Prod.fst ++ [t] := List.map_append
  have kept : (Link.clock t l).2 =
      ⟨(Link.clock t l.target).2, l.exchanges ++ [(t, (Link.clock t l.target).1)]⟩ := rfl
  rw [kept, recorded, recorded, next, List.length_append, ← List.push_toArray]
  rfl

end Answered

namespace Call

def readsTables : Call → Bool
  | deviceId | readCode _ _ | readConfigInto _ | readAll _ _ false | verify _ => true
  | _ => false

def programming (i : Image) : List Call := [.identify, .programCode i, .programConfig i]

end Call

namespace Session

open Emulator Procedure Routine

theorem bringsAll_fresh {σ : Type} [Link σ] (link : σ) (calls later : List Call) :
    (({ link := .fresh link } : Session (Recorded (Lossy σ))).afterAll calls).bringsAll later =
      (({ link } : Session σ).afterAll calls).bringsAll later := by
  let s : Session (Answered σ) := ({ link } : Session σ).onRecord
  have plain := (s.calls_map Answered.hom_target calls).2
  have kept := (s.calls_map Answered.hom_recorded calls).2
  change ((s.map Answered.recorded).afterAll calls).bringsAll later =
    ((s.map (·.target)).afterAll calls).bringsAll later
  rw [plain, kept, (calls_map Answered.hom_target later _).1,
    (calls_map Answered.hom_recorded later _).1]

structure Paired (d : Device) (s : Session Emulator) (r : Session TableMemory) : Prop where
  part : s.device? = some d
  table : r.device? = some d
  alike : Alike d.part s.link r.link

variable {d : Device} {s : Session Emulator} {r : Session TableMemory}

theorem Paired.perform {α : Type} {q : Procedure Report α} (paired : Paired d s r)
    (h : q.Abreast (fun _ => Alike d.part) s.link r.link) :
    (s.perform q).1 = (r.perform q).1 ∧ Paired d (s.perform q).2 (r.perform q).2 := by
  obtain ⟨v, m, t, part, table, alike⟩ := h
  obtain ⟨value_s, link_s, device_s⟩ := s.perform_outcome q
  obtain ⟨value_r, link_r, device_r⟩ := r.perform_outcome q
  rw [part] at value_s link_s
  rw [table] at value_r link_r
  refine ⟨value_s.trans value_r.symm, device_s.trans paired.part, device_r.trans paired.table, ?_⟩
  rw [link_s, link_r]
  exact alike

/-- A read of tables brings the same over both links and keeps the sessions paired. -/
theorem Paired.call {setup : Setup} (suited : Suited d.part setup) (paired : Paired d s r)
    {c : Call} (reads : c.readsTables = true) :
    s.brings c = r.brings c ∧ Paired d (s.after c) (r.after c) := by
  have works {α : Type} {q : Device → Routine Report α}
      (h : (q d).run.Abreast (fun _ => Alike d.part) s.link r.link) :
      (s.onDevice q).1 = (r.onDevice q).1 ∧ Paired d (s.onDevice q).2 (r.onDevice q).2 := by
    rw [onDevice, onDevice, paired.part, paired.table]
    exact paired.perform h
  cases c with
  | deviceId =>
    obtain ⟨same, next⟩ := paired.perform (abreast_fetchDeviceId (ε := Report) paired.alike)
    exact ⟨congrArg Brought.id same, next⟩
  | readCode offset size =>
    obtain ⟨same, next⟩ := works (q := (·.readCode offset size))
      (Device.abreast_readCode suited.low offset size paired.alike)
    exact ⟨congrArg Brought.image same, next⟩
  | readConfigInto i =>
    obtain ⟨same, next⟩ := paired.perform (abreast_fillConfig (ε := Report)
      suited.configAddress suited.configBytes_le i paired.alike)
    rw [brings, brings, after, after, readConfigInto, readConfigInto, fillOnDevice_some paired.part,
      fillOnDevice_some paired.table]
    exact ⟨by rw [same], next⟩
  | readAll offset size eeprom =>
    cases eeprom with
    | true => cases reads
    | false =>
      obtain ⟨same, next⟩ := works (q := (·.readAll offset size false))
        (Device.abreast_readAll suited offset size paired.alike)
      exact ⟨congrArg Brought.image same, next⟩
  | verify source =>
    obtain ⟨same, next⟩ := works (q := (·.verify source))
      (Device.abreast_verify suited source paired.alike)
    exact ⟨congrArg Brought.compared same, next⟩
  | _ => cases reads

theorem Paired.calls {setup : Setup} (suited : Suited d.part setup) (paired : Paired d s r)
    {calls : List Call} (reads : ∀ c ∈ calls, c.readsTables = true) :
    s.bringsAll calls = r.bringsAll calls := by
  induction calls generalizing s r with
  | nil => rfl
  | cons c calls ih =>
    obtain ⟨same, next⟩ := paired.call suited (reads c List.mem_cons_self)
    rw [bringsAll, bringsAll, same, ih next fun c hc => reads c (List.mem_cons_of_mem _ hc)]

theorem Paired.succeeds {R : Emulator → Prop} {q : Device → Routine Report Unit}
    (paired : Paired d s r) (h : (q d).run.Abreast
      (succeeding fun _ m t => Alike d.part m t ∧ R m) s.link r.link) :
    (s.onDevice q).1 = .ok () ∧ (r.onDevice q).1 = .ok () ∧
      Paired d (s.onDevice q).2 (r.onDevice q).2 ∧ R (s.onDevice q).2.link := by
  obtain ⟨_ | u, m, t, part, table, left⟩ := h
  · exact left.elim
  · obtain ⟨value_s, link_s, device_s⟩ := onDevice_outcome paired.part q
    obtain ⟨value_r, link_r, device_r⟩ := onDevice_outcome paired.table q
    rw [part] at value_s link_s
    rw [table] at value_r link_r
    refine ⟨value_s, value_r, ⟨device_s, device_r, ?_⟩, ?_⟩
    · rw [link_s, link_r]
      exact left.1
    · rw [link_s]
      exact left.2

variable {p : Part} {f : Family} {setup : Setup} {i : Image}

theorem paired_identify (known : (f, p) ∈ Family.knownParts) (emulates : setup.Emulates p) :
    let s : Session Emulator := { link := .new setup }
    let r : Session TableMemory := { link := .withId setup.deviceId }
    let d : Device := ⟨setup.deviceId, p, f⟩
    s.identify.1 = .ok d ∧ r.identify.1 = .ok d ∧ Paired d s.identify.2 r.identify.2 ∧
      Kept (new setup) s.identify.2.link := by
  intro s r d
  have suited := emulates.suited known
  obtain ⟨v, m, t, part, table, alike⟩ := Device.abreast_identify (alike_new suited)
  have brought := (Device.brings_identify (I := fun _ => True) (m := new setup) suited rfl
    fun _ _ => trivial).outcome
  rw [part, emulates.identified known] at brought
  obtain ⟨rfl, kept⟩ := brought
  obtain ⟨value_s, link_s, device_s⟩ := s.identify_outcome
  obtain ⟨value_r, link_r, device_r⟩ := r.identify_outcome
  rw [show Device.identify.run.outcome s.link = _ from part] at value_s link_s
  rw [show Device.identify.run.outcome r.link = _ from table] at value_r link_r
  rw [value_s] at device_s
  rw [value_r] at device_r
  refine ⟨value_s, value_r, ⟨device_s, device_r, ?_⟩, ?_⟩
  · rw [link_s, link_r]
    exact alike
  · rw [link_s]
    exact kept

theorem paired_programming (known : (f, p) ∈ Family.knownParts) (emulates : setup.Emulates p)
    (even : i.origin % 2 = 0) (fits : i.origin + 2 * i.words ≤ p.codeSize) :
    let s : Session Emulator := { link := .new setup }
    let r : Session TableMemory := { link := .withId setup.deviceId }
    let d : Device := ⟨setup.deviceId, p, f⟩
    let ended : List Brought := [.device (.ok d), .done (.ok ()), .done (.ok ())]
    s.bringsAll (Call.programming i) = ended ∧ r.bringsAll (Call.programming i) = ended ∧
      Paired d (s.afterAll (Call.programming i)) (r.afterAll (Call.programming i)) ∧
      (s.afterAll (Call.programming i)).link.Resting p setup ∧
      (s.afterAll (Call.programming i)).link.memory =
        ((Memory.new setup).program i (i.origin + 2 * i.words)).configure i p.configBytes := by
  intro s r d ended
  have suited := emulates.suited known
  have drives := emulates.drives known
  obtain ⟨found_s, found_r, paired, kept⟩ := paired_identify known emulates
  have blank (a : Nat) (h : a < p.codeSize) : s.identify.2.link.byteAt a = erased := by
    rw [byteAt_of_held kept.held, byteAt_new suited h]
  obtain ⟨code_s, code_r, paired, rest, code⟩ := paired.succeeds (q := (·.programCode i))
    (Device.abreast_programCode drives ((resting_new suited).of_kept kept) even fits blank
      paired.alike)
  obtain ⟨config_s, config_r, paired, rest, config⟩ := paired.succeeds (q := (·.programConfig i))
    (Device.abreast_programConfig drives rest paired.alike)
  refine ⟨?_, ?_, paired, rest, ?_⟩
  · change [.device s.identify.1, .done (s.identify.2.programCode i).1,
      .done ((s.identify.2.programCode i).2.programConfig i).1] = ended
    rw [found_s, programCode, code_s, programConfig, config_s]
  · change [.device r.identify.1, .done (r.identify.2.programCode i).1,
      .done ((r.identify.2.programCode i).2.programConfig i).1] = ended
    rw [found_r, programCode, code_r, programConfig, config_r]
  · rw [code, memory_eq_of_held kept.held] at config
    exact config

theorem carries_programming (suited : Suited p setup) (room : 2 * i.words ≤ i.capacity)
    (fits : i.origin + 2 * i.words ≤ p.codeSize) (id : UInt16) :
    Memory.Carries (((Memory.new setup).program i (i.origin + 2 * i.words)).configure i
      p.configBytes) ⟨id, p, f⟩ i := by
  have blank : EraseMode.bulk.erased (Memory.new setup) = Memory.new setup := by
    simp only [EraseMode.erased, Memory.wiped, Memory.new, Array.size_replicate]
  have written :
      (EraseMode.bulk.erased (Memory.new setup)).program i (i.origin + 2 * i.words) =
        (EraseMode.bulk.erased (Memory.new setup)).withCode i (i.origin + 2 * i.words) :=
    Device.program_erased _
  rw [← blank, written]
  refine Device.carries_written (d := ⟨id, p, f⟩) room ?_ ?_
  · rw [(Memory.sized_new setup).code, suited.codeSize]
    exact fits
  · exact Nat.le_of_eq (suited.configBytes.symm.trans (Memory.sized_new setup).config.symm)

/-- A new part and a table memory on a link of its own, which has the identification word of the
part, are programmed alike: both accept an image that fits, verifying finds it in both, and no
reads of tables tell one from the other. -/
theorem part_and_table_agree (known : (f, p) ∈ Family.knownParts) (emulates : setup.Emulates p)
    (built : i.Built) (even : i.origin % 2 = 0) (fits : i.origin + 2 * i.words ≤ p.codeSize) :
    let s : Session Emulator := { link := .new setup }
    let r : Session (Recorded (Lossy TableMemory)) :=
      { link := .fresh (.withId setup.deviceId) }
    let ended : List Brought :=
      [.device (.ok ⟨setup.deviceId, p, f⟩), .done (.ok ()), .done (.ok ())]
    let compared : Compared := ⟨2 * i.words,
      ((List.range p.configBytes).filter fun o => (i.configAt? o).isSome).length⟩
    s.bringsAll (Call.programming i) = ended ∧ r.bringsAll (Call.programming i) = ended ∧
      ((s.afterAll (Call.programming i)).verify i).1 = .ok compared ∧
      ∀ reads : List Call, (∀ c ∈ reads, c.readsTables = true) →
        (r.afterAll (Call.programming i)).bringsAll reads =
          (s.afterAll (Call.programming i)).bringsAll reads := by
  intro s r ended compared
  have suited : Suited p setup := emulates.suited known
  obtain ⟨ended_s, ended_r, paired, rest, stored⟩ :=
    paired_programming known emulates even fits
  refine ⟨ended_s, (bringsAll_fresh _ [] _).trans ended_r, ?_, fun reads tables => ?_⟩
  · have carries := carries_programming (f := f) suited built.roomy fits setup.deviceId
    rw [← stored] at carries
    rw [verify_eq suited paired.part,
      Device.comparison_of_carries suited rest even fits carries, Device.covered,
      Device.length_comparedConfig _ i suited.configBytes_le]
  · rw [bringsAll_fresh]
    exact (paired.calls suited tables).symm

/-- Three bytes inside a write block, of which the last is half a word. -/
theorem part_and_table_agree_threeBytes :
    let s : Session Emulator := { link := .new .pic18f452 }
    let r : Session (Recorded (Lossy TableMemory)) := { link := .fresh (.withId 0x2704) }
    let calls := Call.programming .threeBytes
    Image.threeBytes.origin = 6 ∧ Image.threeBytes.size = 3 ∧
      ((r.afterAll calls).verify .threeBytes).1 = .ok ⟨4, 1⟩ ∧
      ((s.afterAll calls).verify .threeBytes).1 = .ok ⟨4, 1⟩ ∧
      ((r.afterAll calls).readAll 4 8 false).1 = ((s.afterAll calls).readAll 4 8 false).1 := by
  intro s r calls
  obtain ⟨_, _, found, same⟩ := part_and_table_agree Part.pic18f452_mem_knownParts
    Setup.emulates_pic18f452 Image.built_threeBytes (by decide) (by decide)
  have verified := same [.verify .threeBytes] (by decide)
  have read := same [.readAll 4 8 false] (by decide)
  change [Brought.compared _] = [Brought.compared _] at verified
  change [Brought.image _] = [Brought.image _] at read
  injection verified with verified
  injection read with read
  injection verified with verified
  injection read with read
  exact ⟨rfl, rfl, verified.trans found, found, read⟩

end Session

end InCircuit
