import InCircuit.Proofs.Sessions.Reading

set_option autoImplicit false

/-!
# Restoring what was read

Reading a device with its EEPROM makes an image of all that the part holds in the range read. The
image, or the one in its file, written to any part of the same kind makes that part hold the same.
-/
namespace InCircuit

theorem Image.storeAt_all {cells bytes : Array UInt8} (same : cells.size = bytes.size) :
    storeAt cells 0 bytes.toList = bytes := by
  apply Array.ext_getElem?
  intro o
  rw [getElem?_storeAt, Array.length_toList]
  by_cases inside : o < bytes.size
  · rw [if_pos (by omega), Nat.sub_zero, Array.getElem?_toList]
  · rw [if_neg (by omega), Array.getElem?_eq_none (by omega), Array.getElem?_eq_none (by omega)]

theorem Emulator.eepromBytes_all (m : Emulator) :
    m.eepromBytes 0 m.eeprom.size = m.eeprom.toList := by
  apply List.ext_getElem
  · simp [eepromBytes]
  · intro o _ inside
    have inside : o < m.eeprom.size := inside
    simp [eepromBytes, inside]

def Memory.window (m : Memory) (start stop : Nat) : Memory :=
  { m with code := m.code.mapIdx fun a b => if start ≤ a ∧ a < stop then b else erased }

theorem Memory.getElem?_code_window (m : Memory) (start stop a : Nat) :
    (m.window start stop).code[a]? =
      (m.code[a]?).map fun b => if start ≤ a ∧ a < stop then b else erased :=
  Array.getElem?_mapIdx

/-- Over erased memory the image has the code that the part holds from `start` to `stop`, and all
of its configuration and EEPROM. -/
structure Emulator.BackUp (m : Emulator) (p : Part) (start stop : Nat) (i : Image) : Prop where
  even : i.origin % 2 = 0
  fits : i.origin + 2 * i.words ≤ p.codeSize
  code : ∀ a < p.codeSize,
    (if i.origin ≤ a ∧ a < i.origin + 2 * i.words then i.cell (a - i.origin) else erased) =
      if start ≤ a ∧ a < stop then m.byteAt a else erased
  config : ∀ o < p.configBytes, i.configAt? o = some (m.configByte o)
  eeprom : i.eeprom = m.eeprom

namespace Device

open Emulator Procedure

variable {d : Device} {s : Setup} {m : Emulator} {offset size : Nat} {i r : Image}

/-! ## What a whole read is -/

theorem size_codeRead (suited : Suited d.part s) (h : d.codeRead m offset size = .ok r) :
    r.size = if size = 0 then d.part.codeSize - offset else size := by
  obtain ⟨even, words, length, hl, _, put⟩ := codeRead_eq_ok_inv h
  obtain ⟨_, whole⟩ := readLength_eq_ok suited words even hl
  obtain ⟨_, rfl⟩ := Image.putCode_eq_ok.mp put
  have read : length = if size = 0 then d.part.codeSize - offset else size := by
    rw [readLength] at hl
    by_cases rest : size = 0
    · rw [if_pos rest] at hl ⊢
      split at hl
      · cases hl
      · exact (Except.ok.inj hl).symm
    · rw [if_neg rest] at hl ⊢
      exact (Except.ok.inj hl).symm
  rw [← read, length_bytesFrom]
  change max 0 (0 + 2 * (length / 2)) = length
  omega

theorem wholeRead_of_codeRead (suited : Suited d.part s) (hm : Resting d.part s m)
    (h : d.codeRead m offset size = .ok r) :
    d.wholeRead m offset size true = .ok { d.configRead m r with eeprom := m.eeprom } := by
  obtain ⟨_, _, length, _, _, put⟩ := codeRead_eq_ok_inv h
  obtain ⟨_, made⟩ := Image.putCode_eq_ok.mp put
  have empty : (d.configRead m r).eeprom = #[] := congrArg Image.eeprom made
  have all : m.eepromBytes 0 d.part.eepromBytes = m.eeprom.toList := by
    rw [← hm.eeprom]
    exact m.eepromBytes_all
  have room : m.eeprom.size ≤ Image.eepromCapacity := by
    have eeprom : m.eeprom.size = _ := hm.eeprom
    rw [eeprom]
    exact suited.eepromBytes_le
  rw [wholeRead, h]
  change d.eepromRead m (d.configRead m r) = _
  rw [eepromRead, Image.writeEeprom_eq_ok, all, empty, Image.overwrite_empty, Nat.zero_add]
  exact ⟨room, rfl⟩

theorem Recorded.backUp (h : d.Recorded m offset i) (eeprom : i.eeprom = m.eeprom) :
    m.BackUp d.part offset (offset + i.size) i where
  even := by
    rw [h.origin]
    exact h.even
  fits := by
    have := h.words
    have := h.fits
    rw [h.origin, Image.words, wordsFor]
    omega
  code a _ := by
    have := h.words
    have whole : 2 * i.words = i.size := by rw [Image.words, wordsFor]; omega
    rw [h.origin, whole]
    split
    · rw [Image.cell, h.code _ (by omega), Nat.add_sub_cancel' (by omega)]
      rfl
    · rfl
  config := h.config
  eeprom := eeprom

/-- The image in the file starts at address 0, and is erased where the one written says nothing. -/
theorem Recorded.backUp_grounded (h : d.Recorded m offset i) (suited : Suited d.part s)
    (eeprom : i.eeprom = m.eeprom) :
    m.BackUp d.part offset (offset + i.size) (i.grounded d.part.codeSize) where
  even := rfl
  fits := by
    rw [h.words_grounded]
    change 0 + (offset + i.size) ≤ _
    rw [Nat.zero_add]
    exact h.fits
  code a ha := by
    have cell : (i.grounded d.part.codeSize).cell a = _ :=
      congrArg (·.getD erased) (h.byteAt?_grounded suited ha)
    change (if 0 ≤ a ∧ a < 0 + _ then Image.cell _ (a - 0) else _) = _
    rw [Nat.sub_zero, h.words_grounded, Nat.zero_add, cell, Option.getD_some]
    split
    · rfl
    · rw [if_neg (by omega)]
  config := h.config
  eeprom := eeprom

/-! ## Writing it -/

/-- Writing a back-up and then its EEPROM, to a part whose EEPROM writes end in time. -/
theorem restore_outcome {start stop : Nat} {t : Setup} {n : Emulator} (mode : EraseMode)
    (drives : d.Drives t) (settles : t.Settles) (hm : Resting d.part s m) (suited : Suited d.part s)
    (hn : Resting d.part t n) (h : m.BackUp d.part start stop i) :
    ((d.write i mode).run.outcome n).1 = .ok () ∧
      ((d.programEeprom i).run.outcome ((d.write i mode).run.outcome n).2).1 = .ok () ∧
      ((d.programEeprom i).run.outcome ((d.write i mode).run.outcome n).2).2.memory =
        m.memory.window start stop := by
  obtain ⟨ok, written, hk⟩ := Device.write_outcome mode drives hn h.even h.fits
  generalize ((d.write i mode).run.outcome n).2 = k at *
  have size : m.eeprom.size = d.part.eepromBytes := hm.eeprom
  obtain ⟨value, idle, _⟩ := (along_programEeprom (i := i) drives.suited hk.idle
    (Nat.le_of_eq (by rw [h.eeprom, size]))).outcome
  rw [Setup.verdict_of_settles settles] at value
  rw [Setup.started_of_settles settles] at idle
  have code : k.memory.code = (m.memory.window start stop).code := by
    have held := hn.code
    have held_k := hk.code
    apply Array.ext_getElem?
    intro a
    by_cases inside : a < d.part.codeSize
    · have byte : m.memory.code[a]? = some (m.byteAt a) := hm.byteAt suited inside
      rw [written, getElem?_code_written, if_pos (by omega), h.code a inside,
        Memory.getElem?_code_window, byte]
      rfl
    · have past : m.memory.code[a]? = none := Array.getElem?_eq_none (by rw [hm.code]; omega)
      rw [Array.getElem?_eq_none (by omega), Memory.getElem?_code_window, past]
      rfl
  have config : k.memory.config = m.config := by
    have held_m : m.config.size = d.part.configBytes := hm.config
    have held_k := hk.config
    apply Array.ext_getElem?
    intro o
    by_cases inside : o < d.part.configBytes
    · rw [written, getElem?_config_written inside (by rw [hn.config]; exact inside),
        h.config o inside, Option.some_or, hm.configByte suited inside]
    · rw [Array.getElem?_eq_none (by omega), Array.getElem?_eq_none (by omega)]
  have eeprom : Image.storeAt k.memory.eeprom 0 i.eeprom.toList = m.eeprom := by
    rw [h.eeprom]
    exact Image.storeAt_all (hk.eeprom.trans size.symm)
  refine ⟨ok, value, idle.memory.trans ?_⟩
  rw [Memory.storeEeprom, Memory.window, Memory.mk.injEq]
  exact ⟨code, config, eeprom⟩

end Device

namespace Session

open Emulator Procedure

variable {p : Part} {f : Family} {sa sb : Setup} {ma mb : Memory}

/-- What was read from one part of a kind, code in some range with all configuration and EEPROM,
is restored on another by writing the image or the one in its file. -/
theorem restored_from_backUp {a b : Session Emulator} {da db : Device} {r : Image}
    {offset size : Nat} (known : (f, p) ∈ Family.knownParts)
    (emulates_a : sa.Emulates p) (sized_a : ma.Sized sa) (follows_a : a.Follows (.powerUp sa ma))
    (identified_a : a.device? = some da) (emulates_b : sb.Emulates p) (sized_b : mb.Sized sb)
    (follows_b : b.Follows (.powerUp sb mb)) (identified_b : b.device? = some db)
    (settles : sb.Settles) (accepted : (a.readCode offset size).1 = .ok r) :
    ∃ i text k, (a.readAll offset size true).1 = .ok i ∧ i.encodeIntelHex = .ok text ∧
      Image.ofIntelHex text p.codeSize = .ok k ∧
      i.size = (if size = 0 then p.codeSize - offset else size) ∧
      ∀ j, j = i ∨ j = k → ∀ mode, (b.write j mode).1 = .ok () ∧
        ((b.write j mode).2.programEeprom j).1 = .ok () ∧
        ((b.write j mode).2.programEeprom j).2.link.memory =
          a.link.memory.window offset (offset + i.size) := by
  have rest_a := follows_a.resting emulates_a known sized_a
  have rest_b := follows_b.resting emulates_b known sized_b
  obtain rfl := rest_a.device da identified_a
  obtain rfl := rest_b.device db identified_b
  have suited_a := emulates_a.suited known
  have drives_b := emulates_b.drives known
  have code := (readCode_eq suited_a identified_a offset size).symm.trans accepted
  have whole := Device.wholeRead_of_codeRead suited_a rest_a.part code
  have recorded := Device.recorded_wholeRead suited_a whole
  have parsed := recorded.ofIntelHex_toIntelHex suited_a
    (Family.codeSize_le_of_mem_knownParts _ known)
  refine ⟨_, _, _, (readAll_eq suited_a identified_a offset size true).1.trans whole,
    Image.encodeIntelHex_eq _, parsed, Device.size_codeRead suited_a code, ?_⟩
  intro j source mode
  have backUp : a.link.BackUp p offset (offset + r.size) j := by
    rcases source with rfl | rfl
    · exact recorded.backUp rfl
    · exact recorded.backUp_grounded suited_a rfl
  obtain ⟨written, stored, restored⟩ := Device.restore_outcome mode drives_b settles rest_a.part
    suited_a rest_b.part backUp
  obtain ⟨value_b, link_b, device_b⟩ := onDevice_outcome identified_b (·.write j mode)
  change (b.write j mode).2.device? = _ at device_b
  obtain ⟨value, link, _⟩ := onDevice_outcome device_b (·.programEeprom j)
  rw [← link_b] at stored restored
  exact ⟨value_b.trans written, value.trans stored, (congrArg memory link).trans restored⟩

def slowPic18f452 : Setup := { Setup.pic18f452 with busyReads := 99 }

def onSlowPic18f452 : Session Emulator :=
  ({ link := .powerUp slowPic18f452
      ⟨Array.replicate 32768 0x55, Array.replicate 14 0x55, Array.replicate 256 0x55⟩ } :
    Session Emulator).after .identify

theorem device?_onSlowPic18f452 : onSlowPic18f452.device? = some .pic18f452 := by
  decide

/-- One word of a part that holds zeros, restored by way of its file on a slow part that was filled
with something else, page by page. -/
theorem restored_from_backUp_oneWord :
    ∃ i text k, (onPic18f452.readAll 2 2 true).1 = .ok i ∧ i.encodeIntelHex = .ok text ∧
      Image.ofIntelHex text 32768 = .ok k ∧ (onSlowPic18f452.write k .pages).1 = .ok () ∧
      ((onSlowPic18f452.write k .pages).2.programEeprom k).1 = .ok () ∧
      ∃ restored, ((onSlowPic18f452.write k .pages).2.programEeprom k).2.link.memory = restored ∧
        restored.code[1]? = some 0xFF ∧ restored.code[2]? = some 0x00 ∧
        restored.config = Array.replicate 14 0 ∧ restored.eeprom = Array.replicate 256 0 := by
  have known := Part.pic18f452_mem_knownParts
  have suited := Setup.emulates_pic18f452.suited known
  have fits : 2 + 2 ≤ Device.pic18f452.part.codeSize := by decide
  obtain ⟨r, read, _⟩ := Device.codeRead_eq_ok (m := onPic18f452.link) rfl rfl (by decide) fits
  obtain ⟨i, text, k, whole, encoded, parsed, size, restored⟩ := restored_from_backUp known
    Setup.emulates_pic18f452 (Memory.sized_zeroed _) follows_onPic18f452 device?_onPic18f452
    (show slowPic18f452.Emulates _ from ⟨7, 99, false, rfl⟩)
    ⟨Array.size_replicate, Array.size_replicate, Array.size_replicate⟩
    ⟨[.identify], rfl⟩ device?_onSlowPic18f452 (by decide)
    ((readCode_eq suited device?_onPic18f452 2 2).trans read)
  obtain ⟨written, stored, memory⟩ := restored k (.inr rfl) .pages
  rw [memory_onPic18f452, size] at memory
  refine ⟨i, text, k, whole, encoded, parsed, written, stored, _, memory, ?_, ?_, rfl, rfl⟩
  · rw [Memory.getElem?_code_window, Memory.zeroed, Array.getElem?_replicate]
    rfl
  · rw [Memory.getElem?_code_window, Memory.zeroed, Array.getElem?_replicate]
    rfl

end Session

end InCircuit
