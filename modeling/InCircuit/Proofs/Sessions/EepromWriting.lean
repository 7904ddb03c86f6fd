import InCircuit.Proofs.Sessions.Halting

set_option autoImplicit false

/-!
# Writing the EEPROM of the emulated part

A byte is stored when its write starts. So on a part whose writes are not seen to end the first byte
is in place when its polls are used up, and no other byte is touched. On a part whose writes end in
time all bytes are stored in turn.
-/
namespace InCircuit

namespace Setup

variable {s : Setup} {bytes : List UInt8}

theorem started_prefix (s : Setup) (bytes : List UInt8) : s.started bytes <+: bytes := by
  unfold started
  split
  · exact List.prefix_refl bytes
  · exact List.take_prefix 1 bytes

theorem length_started (h : bytes = [] ∨ s.Settles) : (s.started bytes).length = bytes.length := by
  rcases h with rfl | settles
  · simp [started]
  · rw [started_of_settles settles]

theorem length_started_of_not (h : ¬ (bytes = [] ∨ s.Settles)) : (s.started bytes).length = 1 := by
  obtain ⟨some, hangs⟩ := not_or.mp h
  cases bytes with
  | nil => exact absurd rfl some
  | cons b bytes => simp [started, hangs]

end Setup

theorem Memory.getElem?_storeEeprom {m : Memory} {bytes : List UInt8} {source : Array UInt8}
    (front : bytes <+: source.toList) (fits : source.size ≤ m.eeprom.size) (k : Nat) :
    (m.storeEeprom 0 bytes).eeprom[k]? =
      if k < bytes.length then source[k]? else m.eeprom[k]? := by
  have short : bytes.length ≤ source.size := front.length_le
  rw [storeEeprom, Image.getElem?_storeAt, Nat.sub_zero]
  by_cases inside : k < bytes.length
  · obtain ⟨rest, whole⟩ := front
    rw [if_pos inside, if_pos (by omega), ← Array.getElem?_toList, ← whole,
      List.getElem?_append_left inside]
  · rw [if_neg inside, if_neg (by omega)]

namespace Session

open Emulator Procedure

variable {p : Part} {f : Family} {setup : Setup} {memory : Memory} {s : Session Emulator}
  {d : Device}

theorem programEeprom_refused (identified : s.device? = some d) {i : Image}
    (long : d.part.eepromBytes < i.eeprom.size) :
    (s.programEeprom i).1 = .error (.outOfRange 0 i.eeprom.size d.part.eepromBytes) ∧
      (s.programEeprom i).2.link = s.link ∧
      (s.onRecord.after (.programEeprom i)).link = ⟨s.link, []⟩ := by
  have refused := Device.programEeprom_of_lt long
  obtain ⟨value, link, -⟩ := onDevice_outcome identified (·.programEeprom i)
  rw [refused] at value link
  have asked := s.onRecord_after (.programEeprom i)
  simp only [identified, Call.procedure, Call.working, refused] at asked
  exact ⟨value, link, asked.trans (congrArg (Answered.mk · []) link)⟩

theorem programEeprom_started (suited : Suited d.part setup) (rest : s.link.Resting d.part setup)
    (identified : s.device? = some d) {i : Image} (fits : i.eeprom.size ≤ d.part.eepromBytes) :
    (s.programEeprom i).1 = setup.verdict i.eeprom.toList ∧
      (∀ k, (s.programEeprom i).2.link.eeprom[k]? =
        if k < (setup.started i.eeprom.toList).length then i.eeprom[k]? else s.link.eeprom[k]?) ∧
      (s.programEeprom i).2.link.flag Eecon1.wren = ! (setup.verdict i.eeprom.toList).isOk ∧
      (s.programEeprom i).2.link.code = s.link.code ∧
      (s.programEeprom i).2.link.config = s.link.config := by
  obtain ⟨value, link, -⟩ := onDevice_outcome identified (·.programEeprom i)
  obtain ⟨verdict, idle, -, wren⟩ := (Device.along_programEeprom suited rest.idle fits).outcome
  rw [← link] at idle wren
  rw [verdict] at wren
  have eeprom := congrArg Memory.eeprom idle.memory
  have stored := Memory.getElem?_storeEeprom (setup.started_prefix i.eeprom.toList)
    (Nat.le_trans fits (Nat.le_of_eq rest.eeprom.symm))
  rw [← eeprom] at stored
  exact ⟨value.trans verdict, stored, wren, congrArg Memory.code idle.memory,
    congrArg Memory.config idle.memory⟩

/-- On any part, whatever calls there have been: contents with no room are refused unsent, and else
the polls decide between all of the bytes and the first alone. -/
theorem programEeprom_cases (known : (f, p) ∈ Family.knownParts) (emulates : setup.Emulates p)
    (sized : memory.Sized setup) (follows : s.Follows (.powerUp setup memory))
    (identified : s.device? = some d) (i : Image) :
    (p.eepromBytes < i.eeprom.size →
      (s.programEeprom i).1 = .error (.outOfRange 0 i.eeprom.size p.eepromBytes) ∧
        (s.onRecord.after (.programEeprom i)).link = ⟨s.link, []⟩) ∧
    (i.eeprom.size ≤ p.eepromBytes → i.eeprom = #[] ∨ setup.stuck = false ∧ setup.busyReads < 100 →
      (s.programEeprom i).1 = .ok () ∧
        (∀ k, (s.programEeprom i).2.link.eeprom[k]? =
          if k < i.eeprom.size then i.eeprom[k]? else s.link.eeprom[k]?) ∧
        (s.programEeprom i).2.link.flag Eecon1.wren = false) ∧
    (i.eeprom.size ≤ p.eepromBytes →
      ¬ (i.eeprom = #[] ∨ setup.stuck = false ∧ setup.busyReads < 100) →
      (s.programEeprom i).1 = .error .timeout ∧
        (∀ k, (s.programEeprom i).2.link.eeprom[k]? =
          if k < 1 then i.eeprom[k]? else s.link.eeprom[k]?) ∧
        (s.programEeprom i).2.link.flag Eecon1.wren = true) ∧
    (s.programEeprom i).2.link.code = s.link.code ∧
      (s.programEeprom i).2.link.config = s.link.config := by
  have rest := follows.resting emulates known sized
  obtain rfl := rest.device d identified
  have started := programEeprom_started (i := i) (emulates.suited known) rest.part identified
  have empty : i.eeprom.toList = [] ↔ i.eeprom = #[] := Array.toList_eq_nil_iff
  refine ⟨fun long => ?_, fun fits settles => ?_, fun fits hangs => ?_, ?_⟩
  · obtain ⟨value, -, asked⟩ := programEeprom_refused identified long
    exact ⟨value, asked⟩
  · obtain ⟨value, eeprom, wren, -⟩ := started fits
    rw [← empty] at settles
    have verdict : setup.verdict i.eeprom.toList = .ok () := if_pos settles.symm
    rw [Setup.length_started settles, Array.length_toList] at eeprom
    rw [verdict] at value wren
    exact ⟨value, eeprom, wren⟩
  · obtain ⟨value, eeprom, wren, -⟩ := started fits
    rw [← empty] at hangs
    have verdict : setup.verdict i.eeprom.toList = .error .timeout := if_neg (hangs ∘ Or.symm)
    rw [Setup.length_started_of_not hangs] at eeprom
    rw [verdict] at value wren
    exact ⟨value, eeprom, wren⟩
  · by_cases fits : i.eeprom.size ≤ p.eepromBytes
    · exact (started fits).2.2.2
    · obtain ⟨-, link, -⟩ := programEeprom_refused identified (Nat.lt_of_not_le fits)
      rw [link]
      exact ⟨rfl, rfl⟩

def busyPic18f452 (busyReads : Nat) : Setup := { Setup.pic18f452 with busyReads }

def onBusyPic18f452 (busyReads : Nat) : Session Emulator :=
  ({ link := .powerUp (busyPic18f452 busyReads) (.zeroed .pic18f452) } : Session Emulator).after
    .identify

theorem follows_onBusyPic18f452 (busyReads : Nat) :
    (onBusyPic18f452 busyReads).Follows (.powerUp (busyPic18f452 busyReads) (.zeroed .pic18f452)) :=
  ⟨[.identify], rfl⟩

def twoBytes : Image := { Image.blank 0 0 with eeprom := #[0x5A, 0xA5] }

/-- The last poll sees a write end that is busy for 99 reads, but not one that is busy for 100. -/
theorem programEeprom_cases_twoBytes :
    ((onBusyPic18f452 99).programEeprom twoBytes).1 = .ok () ∧
      ((onBusyPic18f452 99).programEeprom twoBytes).2.link.eeprom[1]? = some 0xA5 ∧
      ((onBusyPic18f452 100).programEeprom twoBytes).1 = .error .timeout ∧
      ((onBusyPic18f452 100).programEeprom twoBytes).2.link.eeprom[0]? = some 0x5A ∧
      ((onBusyPic18f452 100).programEeprom twoBytes).2.link.eeprom[1]? = some 0 ∧
      ((onBusyPic18f452 100).programEeprom twoBytes).2.link.flag Eecon1.wren = true := by
  have cases (reads : Nat) (identified : (onBusyPic18f452 reads).device? = some .pic18f452) :=
    programEeprom_cases Part.pic18f452_mem_knownParts ⟨7, reads, false, rfl⟩
      (Memory.sized_zeroed (busyPic18f452 reads)) (follows_onBusyPic18f452 reads) identified
      twoBytes
  obtain ⟨-, ended, -⟩ := cases 99 (by decide)
  obtain ⟨-, -, hung, -⟩ := cases 100 (by decide)
  obtain ⟨ok, eeprom, -⟩ := ended (by decide) (.inr ⟨rfl, by decide⟩)
  obtain ⟨timeout, first, wren⟩ := hung (by decide) (by decide)
  have held : (onBusyPic18f452 100).link.eeprom = Array.replicate 256 0 := rfl
  exact ⟨ok, eeprom 1, timeout, first 0, (first 1).trans (by simp [held]), wren⟩

end Session

end InCircuit
