import InCircuit.Proofs.IntelHex.RoundTrip
import InCircuit.Proofs.Sessions
import InCircuit.Proofs.Writing

set_option autoImplicit false

/-!
# Files of what was read

The file of what was read has the bytes at the addresses they were read from, and nothing below.
Read back it has erased bytes there, so comparing it with the part succeeds just when the part is
erased below the offset of the read.
-/
namespace InCircuit

theorem Family.codeSize_le_of_mem_knownParts : ∀ x ∈ Family.knownParts,
    x.2.codeSize ≤ IntelHex.Place.idBase := by
  decide

theorem Suited.codeSize_even {p : Part} {s : Setup} (suited : Suited p s) : p.codeSize % 2 = 0 := by
  rw [← suited.pieces_mul, Nat.mul_mod, suited.page_even, Nat.mul_zero]

namespace Image

variable {i : Image}

theorem Built.withConfig (built : i.Built) {limit : Nat} (value? : Nat → Option UInt8)
    (h : limit ≤ 32) : (i.withConfig limit value?).Built := by
  induction limit with
  | zero =>
    rw [withConfig_zero]
    exact built
  | succ limit ih =>
    cases value : value? limit with
    | none =>
      rw [withConfig_succ_of_none i value]
      exact ih (by omega)
    | some b => exact (ih (by omega)).putConfig (putConfig_withConfig i (by omega) value)

end Image

namespace Device

open Emulator

/-- An image has just the code that a part holds from an offset on, in whole words. -/
structure RecordedCode (d : Device) (m : Emulator) (offset : Nat) (i : Image) : Prop where
  built : i.Built
  origin : i.origin = offset
  even : offset % 2 = 0
  words : i.size % 2 = 0
  pos : 0 < i.size
  fits : offset + i.size ≤ d.part.codeSize
  code : ∀ o < i.size, i.byteAt? o = some (m.byteAt (offset + o))

structure Recorded (d : Device) (m : Emulator) (offset : Nat) (i : Image) : Prop
    extends RecordedCode d m offset i where
  config : ∀ o < d.part.configBytes, i.configAt? o = some (m.configByte o)

variable {d : Device} {s : Setup} {m : Emulator} {offset size : Nat} {i : Image}

theorem readLength_eq_ok (suited : Suited d.part s) {length : Nat} (words : size % 2 = 0)
    (even : offset % 2 = 0) (h : d.readLength offset size = .ok length) :
    0 < length ∧ length % 2 = 0 := by
  have whole := suited.codeSize_even
  rw [readLength] at h
  split at h
  · split at h
    · cases h
    · obtain rfl := Except.ok.inj h
      omega
  · obtain rfl := Except.ok.inj h
    omega

theorem codeRead_eq_ok_inv (h : d.codeRead m offset size = .ok i) :
    offset % 2 = 0 ∧ size % 2 = 0 ∧ ∃ length, d.readLength offset size = .ok length ∧
      offset + length ≤ d.part.codeSize ∧
      (Image.blank length offset).putCode 0 (m.bytesFrom offset (2 * (length / 2))) = .ok i := by
  rw [codeRead] at h
  by_cases odd : offset % 2 ≠ 0 ∨ size % 2 ≠ 0
  · rw [if_pos odd] at h
    cases h
  rw [if_neg odd] at h
  refine ⟨by omega, by omega, ?_⟩
  change (d.readLength offset size >>= fun length => _) = _ at h
  cases hl : d.readLength offset size with
  | error e =>
    rw [hl] at h
    cases h
  | ok length =>
    rw [hl] at h
    change (d.requireRange offset length >>= fun _ =>
      (Image.blank length offset).putCode 0 (m.bytesFrom offset (2 * (length / 2)))) = _ at h
    cases range : d.requireRange offset length with
    | error e =>
      rw [range] at h
      cases h
    | ok u =>
      rw [range] at h
      exact ⟨length, rfl, requireRange_eq_ok.mp range, h⟩

theorem recorded_codeRead (suited : Suited d.part s) (h : d.codeRead m offset size = .ok i) :
    d.RecordedCode m offset i := by
  obtain ⟨even, words, length, hl, fits, h⟩ := codeRead_eq_ok_inv h
  obtain ⟨pos, whole⟩ := readLength_eq_ok suited words even hl
  have built : i.Built := .putCode (.blank length offset) h
  have covered : 2 * (length / 2) = length := by omega
  obtain ⟨r, put, origin, capacity, size, _, bytes⟩ :=
    Image.putCode_blank offset (m.bytesFrom offset length) (by rw [length_bytesFrom]; exact whole)
  rw [length_bytesFrom] at put size bytes
  rw [covered, put] at h
  obtain rfl := Except.ok.inj h
  refine ⟨built, origin, even, by omega, by omega, by omega, fun o ho => ?_⟩
  rw [bytes o (by omega), bytesFrom, List.getElem?_map, List.getElem?_range (by omega)]
  rfl

theorem RecordedCode.configRead (h : d.RecordedCode m offset i) (room : d.part.configBytes ≤ 32) :
    d.Recorded m offset (d.configRead m i) where
  built := h.built.withConfig _ room
  origin := h.origin
  even := h.even
  words := h.words
  pos := h.pos
  fits := h.fits
  code := h.code
  config o ho := by
    rw [Device.configRead, Image.configAt?_withConfig i _ room, if_pos ho, Option.some_or]

theorem Recorded.writeEeprom (h : d.Recorded m offset i) {j : Image} {bytes : List UInt8}
    (put : i.writeEeprom 0 bytes = .ok j) : d.Recorded m offset j := by
  have built := h.built.writeEeprom put
  obtain ⟨_, rfl⟩ := Image.writeEeprom_eq_ok.mp put
  exact ⟨⟨built, h.origin, h.even, h.words, h.pos, h.fits, h.code⟩, h.config⟩

theorem recorded_wholeRead (suited : Suited d.part s) {eeprom : Bool}
    (h : d.wholeRead m offset size eeprom = .ok i) : d.Recorded m offset i := by
  rw [wholeRead] at h
  cases hr : d.codeRead m offset size with
  | error e =>
    rw [hr] at h
    cases h
  | ok r =>
    have recorded := (recorded_codeRead suited hr).configRead suited.configBytes_le
    rw [hr] at h
    cases eeprom with
    | false =>
      obtain rfl := Except.ok.inj h
      exact recorded
    | true => exact recorded.writeEeprom h

theorem exists_wholeRead (suited : Suited d.part s) {r : Image}
    (read : d.codeRead m offset size = .ok r) (eeprom : Bool) :
    ∃ i : Image, d.wholeRead m offset size eeprom = .ok i ∧ i.size = r.size := by
  rw [wholeRead, read]
  cases eeprom with
  | false => exact ⟨_, rfl, rfl⟩
  | true =>
    have room : 0 + (m.eepromBytes 0 d.part.eepromBytes).length ≤ Image.eepromCapacity := by
      rw [eepromBytes, List.length_map, List.length_range, Nat.zero_add]
      exact suited.eepromBytes_le
    exact ⟨_, Image.writeEeprom_eq_ok.mpr ⟨room, rfl⟩, rfl⟩

theorem wholeRead_eq_ok (suited : Suited d.part s) (offset length : Nat) (even : offset % 2 = 0)
    (words : length % 2 = 0) (pos : length ≠ 0) (fits : offset + length ≤ d.part.codeSize)
    (eeprom : Bool) :
    ∃ i : Image, d.wholeRead m offset length eeprom = .ok i ∧ i.size = length := by
  obtain ⟨r, read, _, _, size, _⟩ := codeRead_eq_ok (d := d) (m := m) even words pos fits
  obtain ⟨i, whole, same⟩ := exists_wholeRead suited read eeprom
  exact ⟨i, whole, same.trans size⟩

theorem RecordedCode.words_grounded (h : d.RecordedCode m offset i) (capacity : Nat) :
    2 * (i.grounded capacity).words = offset + i.size := by
  have size : (i.grounded capacity).size = offset + i.size := by
    change (if i.size = 0 then 0 else i.origin + i.size) = _
    rw [if_neg (Nat.ne_of_gt h.pos), h.origin]
  have := h.even
  have := h.words
  rw [Image.words, size, wordsFor]
  omega

theorem RecordedCode.byteAt?_grounded (h : d.RecordedCode m offset i) (suited : Suited d.part s)
    {a : Nat} (ha : a < d.part.codeSize) :
    (i.grounded d.part.codeSize).byteAt? a =
      some (if offset ≤ a ∧ a < offset + i.size then m.byteAt a else erased) := by
  rw [Image.byteAt?_grounded h.built.roomy ((Image.place_lt suited.codeSize_even).mpr ha), h.origin]
  split
  · rw [Image.cell, h.code _ (by omega), Nat.add_sub_cancel' (by omega)]
    rfl
  · rfl

/-- The image read back from the file of a recorded one is what the part has, if the part is
erased below the offset. -/
theorem carries_grounded (suited : Suited d.part s) (hm : Resting d.part s m)
    (recorded : d.Recorded m offset i) :
    m.memory.Carries d (i.grounded d.part.codeSize) ↔ ∀ a < offset, m.code[a]? = some erased := by
  have fits := recorded.fits
  have words := recorded.words_grounded d.part.codeSize
  have below {a : Nat} (ha : a < offset) :
      (i.grounded d.part.codeSize).byteAt? a = some erased := by
    rw [recorded.byteAt?_grounded suited (by omega), if_neg (by omega)]
  have above {a : Nat} (low : offset ≤ a) (high : a < offset + i.size) :
      (i.grounded d.part.codeSize).byteAt? a = m.code[a]? := by
    rw [recorded.byteAt?_grounded suited (by omega), if_pos ⟨low, high⟩,
      hm.byteAt suited (by omega)]
  constructor
  · rintro ⟨_, code, _⟩ a ha
    have same := code a (by rw [words]; omega)
    rw [below ha] at same
    rw [same]
    change _ = m.code[0 + a]?
    rw [Nat.zero_add]
  · intro blank
    refine ⟨?_, fun a ha => ?_, fun o ho b hb => ?_⟩
    · rw [words, Image.capacity_grounded]
      exact fits
    · rw [words] at ha
      change _ = m.code[0 + a]?
      rw [Nat.zero_add]
      by_cases low : a < offset
      · rw [below low, blank a low]
      · exact above (Nat.le_of_not_lt low) ha
    · change i.configAt? o = some b at hb
      rw [recorded.config o ho] at hb
      obtain rfl := Option.some.inj hb
      exact hm.configByte suited ho

theorem RecordedCode.ofIntelHex_toIntelHex (suited : Suited d.part s)
    (inside : d.part.codeSize ≤ IntelHex.Place.idBase) (h : d.RecordedCode m offset i) :
    Image.ofIntelHex i.toIntelHex d.part.codeSize = .ok (i.grounded d.part.codeSize) := by
  have fits := h.fits
  have even := suited.codeSize_even
  refine Image.ofIntelHex_toIntelHex h.built (fun _ => ?_) fun _ => ?_
  · rw [h.origin]
    exact Nat.le_trans fits inside
  · rw [h.origin, wordsFor]
    omega

/-- Everything that was read is compared, and the code below it. -/
theorem Recorded.covered_grounded (h : d.Recorded m offset i) (room : d.part.configBytes ≤ 32)
    (capacity : Nat) :
    d.covered (i.grounded capacity) = ⟨offset + i.size, d.part.configBytes⟩ := by
  have known : (List.range d.part.configBytes).filter
      (fun o => ((i.grounded capacity).configAt? o).isSome) = List.range d.part.configBytes := by
    refine List.filter_eq_self.mpr fun o ho => ?_
    change (i.configAt? o).isSome
    rw [h.config o (List.mem_range.mp ho)]
    rfl
  rw [covered, h.words_grounded, length_comparedConfig _ _ room, known, List.length_range]

theorem comparison_grounded (suited : Suited d.part s) (hm : Resting d.part s m)
    (recorded : d.Recorded m offset i) {n : Emulator} (hn : Resting d.part s n)
    (unchanged : n.memory = m.memory) :
    d.comparison n (i.grounded d.part.codeSize) =
      if ∀ a < offset, m.code[a]? = some erased then .ok ⟨offset + i.size, d.part.configBytes⟩
      else .error (.mismatch (offset + i.size + d.part.configBytes)) := by
  have carries := carries_grounded suited hm recorded
  have covered := recorded.covered_grounded suited.configBytes_le d.part.codeSize
  have even : (i.grounded d.part.codeSize).origin % 2 = 0 := rfl
  have fits : (i.grounded d.part.codeSize).origin + 2 * (i.grounded d.part.codeSize).words ≤
      d.part.codeSize := by
    rw [recorded.words_grounded]
    change 0 + _ ≤ _
    rw [Nat.zero_add]
    exact recorded.fits
  rw [← unchanged] at carries
  split
  · rename_i blank
    rw [comparison_of_carries suited hn even fits (carries.mpr blank), covered]
  · rename_i held
    rw [comparison_of_not_carries suited hn even fits (mt carries.mp held), covered]
    rfl

end Device

theorem Memory.Sized.eraseCode {m : Memory} {s : Setup} (sized : m.Sized s) (limit : Nat) :
    (m.eraseCode limit).Sized s :=
  ⟨Array.size_mapIdx.trans sized.code, sized.config, sized.eeprom⟩

namespace Session

open Emulator Procedure

variable {p : Part} {f : Family} {setup : Setup}

theorem memory_after_identify (suited : Suited p setup) (memory : Memory) :
    (({ link := .powerUp setup memory } : Session Emulator).after .identify).link.memory =
      memory := by
  let s : Session Emulator := { link := .powerUp setup memory }
  change s.identify.2.link.memory = s.link.memory
  rw [(identify_outcome s).2.1]
  exact memory_eq_of_held (Device.brings_identify (I := fun _ => True) suited rfl
    fun _ _ => trivial).outcome.2.held

theorem Follows.readAll {s : Session Emulator} {link : Emulator} (h : s.Follows link)
    (offset size : Nat) (eeprom : Bool) : (s.readAll offset size eeprom).2.Follows link :=
  h.after (.readAll offset size eeprom)

/-- What was read can be written to a file, and the file is accepted. The image in it is found on
the part, as long as that has not changed, just when the part is erased below the offset of the
read. -/
theorem verify_file_of_read {s t : Session Emulator} {memory : Memory} {d e : Device}
    {offset size : Nat} {eeprom : Bool} {i : Image} (known : (f, p) ∈ Family.knownParts)
    (emulates : setup.Emulates p) (sized : memory.Sized setup)
    (follows : s.Follows (.powerUp setup memory)) (identified : s.device? = some d)
    (read : (s.readAll offset size eeprom).1 = .ok i)
    (again : t.Follows (.powerUp setup memory)) (found : t.device? = some e)
    (unchanged : t.link.memory = s.link.memory) :
    (s.readAll offset size eeprom).2.link.memory = s.link.memory ∧
      ∃ text j, i.encodeIntelHex = .ok text ∧ Image.ofIntelHex text p.codeSize = .ok j ∧
        (t.verify j).1 =
          if ∀ a < offset, s.link.code[a]? = some erased then
            .ok ⟨offset + i.size, p.configBytes⟩
          else .error (.mismatch (offset + i.size + p.configBytes)) := by
  have rest := follows.resting emulates known sized
  have rest_t := again.resting emulates known sized
  obtain rfl := rest.device d identified
  obtain rfl := rest_t.device e found
  have suited := emulates.suited known
  obtain ⟨brought, kept, _⟩ := readAll_eq suited identified offset size eeprom
  have recorded := Device.recorded_wholeRead suited (brought.symm.trans read)
  have parsed := recorded.ofIntelHex_toIntelHex suited
    (Family.codeSize_le_of_mem_knownParts _ known)
  refine ⟨kept, _, _, i.encodeIntelHex_eq, parsed, ?_⟩
  rw [verify_eq suited found]
  exact Device.comparison_grounded suited rest.part recorded rest_t.part unchanged

def onErasedWord : Session Emulator :=
  ({ link := .powerUp .pic18f452 (.eraseCode (.zeroed .pic18f452) 2) } : Session Emulator).after
    .identify

theorem verify_file_of_read_above_erased :
    ∃ i text j, (onErasedWord.readAll 2 2 true).1 = .ok i ∧ i.encodeIntelHex = .ok text ∧
      Image.ofIntelHex text 32768 = .ok j ∧
      ((onErasedWord.readAll 2 2 true).2.verify j).1 = .ok ⟨4, 14⟩ := by
  have suited := Setup.emulates_pic18f452.suited Part.pic18f452_mem_knownParts
  have sized := (Memory.sized_zeroed .pic18f452).eraseCode 2
  have follows : onErasedWord.Follows (.powerUp .pic18f452 _) := ⟨[.identify], rfl⟩
  have identified : onErasedWord.device? = some .pic18f452 := by decide
  obtain ⟨i, whole, size⟩ := Device.wholeRead_eq_ok (d := .pic18f452) (m := onErasedWord.link)
    suited 2 2 rfl rfl (by decide) (by decide) true
  obtain ⟨brought, kept, found⟩ := readAll_eq suited identified 2 2 true
  obtain ⟨_, text, j, encoded, parsed, verified⟩ := verify_file_of_read
    Part.pic18f452_mem_knownParts Setup.emulates_pic18f452 sized follows identified
    (brought.trans whole) (follows.readAll 2 2 true) found kept
  have started : onErasedWord.link.memory = _ := memory_after_identify suited _
  have blank : ∀ a < 2, onErasedWord.link.code[a]? = some erased := by
    intro a ha
    generalize onErasedWord = session at started
    have held : session.link.code = _ := congrArg Memory.code started
    have inside : a < (Memory.zeroed .pic18f452).code.size := by
      rw [(Memory.sized_zeroed _).code]
      exact Nat.lt_trans ha (by decide)
    rw [held]
    exact Memory.getElem?_code_eraseCode _ ha inside
  refine ⟨i, text, j, brought.trans whole, encoded, parsed, verified.trans ?_⟩
  rw [if_pos blank, size]
  rfl

/-- The code below the offset of a read is not erased, as it is in the image read back. -/
theorem verify_file_of_read_above_code :
    ∃ i text j, (onPic18f452.readAll 2 2 false).1 = .ok i ∧
      (onPic18f452.readAll 2 2 false).2.link.memory = onPic18f452.link.memory ∧
      i.encodeIntelHex = .ok text ∧ Image.ofIntelHex text 32768 = .ok j ∧
      ((onPic18f452.readAll 2 2 false).2.verify j).1 = .error (.mismatch 18) := by
  have emulates := Setup.emulates_pic18f452
  have known := Part.pic18f452_mem_knownParts
  have suited := emulates.suited known
  obtain ⟨i, whole, size⟩ := Device.wholeRead_eq_ok (d := .pic18f452) (m := onPic18f452.link)
    suited 2 2 rfl rfl (by decide) (by decide) false
  obtain ⟨brought, kept, found⟩ := readAll_eq suited device?_onPic18f452 2 2 false
  have recorded := Device.recorded_wholeRead suited whole
  have rest := follows_onPic18f452.resting emulates known (Memory.sized_zeroed _)
  have rest_after := (follows_onPic18f452.readAll 2 2 false).resting emulates known
    (Memory.sized_zeroed _)
  have compared := Device.comparison_grounded suited rest.part recorded rest_after.part kept
  have held : onPic18f452.link.code = _ := congrArg Memory.code memory_onPic18f452
  have programmed : ¬ ∀ a < 2, onPic18f452.link.code[a]? = some erased := by
    intro blank
    have first := blank 0 (by decide)
    rw [held] at first
    have zero := Array.getElem?_replicate.symm.trans first
    cases zero
  have parsed := recorded.ofIntelHex_toIntelHex suited
    (Family.codeSize_le_of_mem_knownParts _ known)
  refine ⟨i, _, _, brought.trans whole, kept, i.encodeIntelHex_eq, parsed, ?_⟩
  rw [verify_eq suited found, compared, if_neg programmed, size]
  rfl

end Session

end InCircuit
