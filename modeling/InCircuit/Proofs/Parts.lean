import InCircuit.Emulator.Setup
import InCircuit.Programming

set_option autoImplicit false

/-!
# Parts that the procedures suit

What the erase, programming and reading procedures need to know of a part and of the emulated part
on the link, and that every known part has it under any silicon revision.
-/
namespace InCircuit

/-- A part whose memory layout the procedures suit, and an emulated part of that layout. -/
structure Suited (p : Part) (s : Setup) : Prop where
  codeSize : s.codeSize = p.codeSize
  erasePage : s.erasePage = p.erasePage
  block : max s.writeBlock 2 = 2 * max p.wordsPerWrite 1
  configBytes : s.configBytes = p.configBytes
  eepromSize : s.eepromSize = p.eepromBytes
  page_pos : 0 < p.erasePage
  page_even : p.erasePage % 2 = 0
  whole : p.codeSize % p.erasePage = 0
  low : p.codeSize ≤ Address.config
  configAddress : p.configAddress = Address.config
  configBytes_le : p.configBytes ≤ 32
  eepromBytes_le : p.eepromBytes ≤ Image.eepromCapacity

namespace Routine

theorem pieces_mul {size q : Nat} (h : 0 < size) : pieces (size * q) size = q := by
  have hs : max size 1 = size := by omega
  rw [pieces, hs, Nat.mul_add_div h, Nat.div_eq_of_lt (by omega), Nat.add_zero]

theorem le_pieces_mul (total : Nat) {size : Nat} (h : 0 < size) :
    total ≤ pieces total size * size := by
  have hs : max size 1 = size := by omega
  have := Nat.div_add_mod (total + (size - 1)) size
  have := Nat.mod_lt (total + (size - 1)) h
  rw [pieces, hs, Nat.mul_comm]
  omega

theorem pieces_mul_lt (total : Nat) {size : Nat} (h : 0 < size) :
    pieces total size * size < total + size := by
  have hs : max size 1 = size := by omega
  have := Nat.div_mul_le_self (total + (size - 1)) size
  rw [pieces, hs]
  omega

theorem lt_pieces {total size k : Nat} (h : 0 < size) :
    k < pieces total size ↔ k * size < total := by
  have cover := le_pieces_mul total h
  have needed := pieces_mul_lt total h
  constructor
  · intro inside
    have reached := Nat.mul_le_mul_right size (Nat.succ_le_of_lt inside)
    rw [Nat.succ_mul] at reached
    omega
  · intro inside
    exact Nat.lt_of_mul_lt_mul_right (Nat.lt_of_lt_of_le inside cover)

end Routine

theorem Suited.pieces_mul {p : Part} {s : Setup} (suited : Suited p s) :
    Routine.pieces p.codeSize p.erasePage * p.erasePage = p.codeSize := by
  obtain ⟨q, hq⟩ := Nat.dvd_of_mod_eq_zero suited.whole
  rw [hq, Routine.pieces_mul suited.page_pos, Nat.mul_comm]

/-- An emulated part of some silicon revision; its EEPROM may take any time to write. -/
def Setup.Emulates (s : Setup) (p : Part) : Prop :=
  ∃ (revision : UInt8) (busyReads : Nat) (stuck : Bool),
    s = { (Setup.ofPart p).withRevision revision with busyReads, stuck }

namespace Family

theorem knownParts_layout : ∀ x ∈ knownParts,
    0 < x.2.wordsPerWrite ∧ 0 < x.2.erasePage ∧ x.2.erasePage % 2 = 0 ∧
      x.2.codeSize % x.2.erasePage = 0 ∧ x.2.codeSize ≤ Address.config ∧
      x.2.configAddress = Address.config ∧ x.2.configBytes ≤ 32 ∧
      x.2.eepromBytes ≤ Image.eepromCapacity := by
  decide

theorem knownParts_config : ∀ x ∈ knownParts, 0 < x.2.configBytes := by decide

theorem knownParts_found : ∀ x ∈ knownParts,
    x.2.pattern.toNat < 8 ∧
      (all.find? fun f => f.codes.contains x.2.familyCode) = some x.1 ∧
      (x.1.parts.find? fun q => x.2.familyCode == q.familyCode && x.2.pattern == q.pattern) =
        some x.2 ∧
      (if f2xxx.codes.contains x.2.familyCode then f2xxx else f2xx) = x.1 := by
  decide

end Family

namespace Setup

variable {s : Setup} {p : Part} {f : Family}

theorem Emulates.suited (h : s.Emulates p) (known : (f, p) ∈ Family.knownParts) : Suited p s := by
  obtain ⟨revision, busyReads, stuck, rfl⟩ := h
  obtain ⟨words, page, even, whole, low, address, config, eeprom⟩ :=
    Family.knownParts_layout _ known
  refine ⟨rfl, rfl, ?_, rfl, rfl, page, even, whole, low, address, config, eeprom⟩
  change max (p.wordsPerWrite * 2) 2 = 2 * max p.wordsPerWrite 1
  omega

theorem Emulates.familyCode (h : s.Emulates p) :
    DeviceId.familyCode s.deviceId = p.familyCode := by
  obtain ⟨revision, busyReads, stuck, rfl⟩ := h
  have hcode := p.familyCode.toNat_lt
  apply UInt8.toNat_inj.mp
  simp only [DeviceId.familyCode, withRevision, ofPart, Nat.toUInt8, UInt8.toNat_ofNat',
    UInt16.toNat_ofNat']
  omega

theorem Emulates.pattern (h : s.Emulates p) (small : p.pattern.toNat < 8) :
    DeviceId.pattern s.deviceId = p.pattern := by
  obtain ⟨revision, busyReads, stuck, rfl⟩ := h
  have hcode := p.familyCode.toNat_lt
  apply UInt8.toNat_inj.mp
  simp only [DeviceId.pattern, withRevision, ofPart, Nat.toUInt8, UInt8.toNat_ofNat',
    UInt16.toNat_ofNat']
  omega

theorem Emulates.identified (h : s.Emulates p) (known : (f, p) ∈ Family.knownParts) :
    Device.ofId s.deviceId = .ok ⟨s.deviceId, p, f⟩ := by
  obtain ⟨small, family, part, _⟩ := Family.knownParts_found _ known
  have found : f.find s.deviceId = .ok p := by
    unfold Family.find Part.matchesId
    rw [h.familyCode, h.pattern small, part]
  rw [Device.ofId, Family.ofId?, h.familyCode, family]
  change Device.bind s.deviceId f = _
  rw [Device.bind, found]
  rfl

end Setup

end InCircuit
