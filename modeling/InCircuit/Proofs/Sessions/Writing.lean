import InCircuit.Proofs.Faults
import InCircuit.Proofs.Sessions
import InCircuit.Proofs.Writing

set_option autoImplicit false

/-!
# Writing in a session

Whatever was done before, a write that is not refused makes the part what the image says, and
comparing the two then succeeds. On a link that is lost during the write the part is left in one of
the states that the whole write passes through.
-/
namespace InCircuit

def Image.threeBytes : Image where
  origin := 6
  code := #[0x22, 0x11, 0xFF, 0x33]
  size := 3
  config := (Vector.replicate 32 none).set 1 (some 0x0E)
  eeprom := #[]

theorem Image.built_threeBytes : Image.threeBytes.Built :=
  .putConfig
    (.putCode (.blank 4 6) (show (Image.blank 4 6).putCode 0 [0x11, 0x22, 0x33] = .ok _ from rfl))
    (show Image.putConfig _ 1 0x0E = .ok threeBytes from rfl)

namespace Session

open Emulator Procedure Routine

variable {p : Part} {f : Family} {setup : Setup} {i : Image}

/-- After a write the part carries the image over erased memory, and verifying finds it. -/
theorem write_then_verify {s : Session Emulator} {memory : Memory} {d : Device}
    (known : (f, p) ∈ Family.knownParts) (emulates : setup.Emulates p)
    (sized : memory.Sized setup) (follows : s.Follows (.powerUp setup memory))
    (identified : s.device? = some d) (built : i.Built) (even : i.origin % 2 = 0)
    (fits : i.origin + 2 * i.words ≤ p.codeSize) (mode : EraseMode) :
    (s.write i mode).1 = .ok () ∧
      (s.write i mode).2.link.code.size = p.codeSize ∧
      (∀ a < p.codeSize, (s.write i mode).2.link.code[a]? =
        if i.origin ≤ a ∧ a < i.origin + 2 * i.words then i.byteAt? (a - i.origin)
        else some erased) ∧
      (s.write i mode).2.link.config.size = p.configBytes ∧
      (∀ o < p.configBytes, (s.write i mode).2.link.config[o]? =
        (i.configAt? o).or (match mode with
          | .bulk => some erased
          | .pages => s.link.config[o]?)) ∧
      (s.write i mode).2.link.eeprom = (match mode with
        | .bulk => Array.replicate p.eepromBytes erased
        | .pages => s.link.eeprom) ∧
      ((s.write i mode).2.verify i).1 = .ok ⟨2 * i.words,
        ((List.range p.configBytes).filter fun o => (i.configAt? o).isSome).length⟩ := by
  have rest := follows.resting emulates known sized
  obtain rfl := rest.device d identified
  have hm := rest.part
  have drives := emulates.drives known
  obtain ⟨value, link, device⟩ := onDevice_outcome identified (·.write i mode)
  obtain ⟨ok, stored, rest_n⟩ := Device.write_outcome mode drives hm even fits
  change (s.write i mode).1 = _ at value
  change (s.write i mode).2.link = _ at link
  change (s.write i mode).2.device? = _ at device
  generalize s.write i mode = w at *
  rw [← link] at stored rest_n
  have code : w.2.link.code = _ := congrArg Memory.code stored
  have config : w.2.link.config = _ := congrArg Memory.config stored
  have eeprom : w.2.link.eeprom = _ := congrArg Memory.eeprom stored
  refine ⟨value.trans ok, rest_n.code, fun a ha => ?_, rest_n.config, fun o ho => ?_, ?_, ?_⟩
  · rw [code, Device.getElem?_code_written, hm.code, if_pos ha]
    split
    · rw [Image.byteAt?_of_lt built.roomy (by omega)]
    · rfl
  · have room : o < s.link.memory.config.size := by
      rw [hm.config]
      exact ho
    rw [config, Device.getElem?_config_written ho room]
    rfl
  · rw [eeprom, Device.eeprom_written, hm.eeprom]
    rfl
  · have carries : (Device.written ⟨setup.deviceId, p, f⟩ i mode s.link.memory).Carries _ i :=
      Device.carries_written built.roomy (by rw [hm.code]; exact fits)
        (Nat.le_of_eq hm.config.symm)
    rw [← stored] at carries
    rw [verify_eq drives.suited device,
      Device.comparison_of_carries drives.suited rest_n even fits carries, Device.covered,
      Device.length_comparedConfig _ i drives.suited.configBytes_le]

theorem write_then_verify_threeBytes :
    onPic18f452.device?.isSome ∧ Image.threeBytes.origin = 6 ∧ Image.threeBytes.words = 2 ∧
      (onPic18f452.write .threeBytes .pages).2.link.code[8]? = some 0x33 ∧
      (onPic18f452.write .threeBytes .pages).2.link.code[9]? = some 0xFF ∧
      (onPic18f452.write .threeBytes .pages).2.link.config[1]? = some 0x0E ∧
      (onPic18f452.write .threeBytes .pages).2.link.config[2]? = some 0x00 ∧
      ((onPic18f452.write .threeBytes .pages).2.verify .threeBytes).1 = .ok ⟨4, 1⟩ := by
  obtain ⟨_, _, code, _, config, _, verified⟩ := write_then_verify
    Part.pic18f452_mem_knownParts Setup.emulates_pic18f452 (Memory.sized_zeroed _)
    follows_onPic18f452 device?_onPic18f452 Image.built_threeBytes (by decide) (by decide) .pages
  exact ⟨by decide, rfl, rfl, code 8 (by decide), code 9 (by decide), config 1 (by decide),
    (config 2 (by decide)).trans (by decide), verified⟩

/-- On a link that is lost after `k` more transfers a write that needs no more is complete, and any
other stops at the first transfer refused, with the memory as the write leaves it on its way. -/
theorem write_over_lost_link {s : Session (Lossy Emulator)} {memory : Memory} {d : Device}
    {limit k : Nat} (known : (f, p) ∈ Family.knownParts) (emulates : setup.Emulates p)
    (sized : memory.Sized setup) (follows : s.Follows ⟨.powerUp setup memory, some limit, 0⟩)
    (lost : limit = s.link.attempted + k) (identified : s.device? = some d)
    (even : i.origin % 2 = 0) (fits : i.origin + 2 * i.words ≤ p.codeSize) (mode : EraseMode) :
    ((d.write i mode).run.transfers s.link.target ≤ k →
      (s.write i mode).1 = .ok () ∧
        (s.write i mode).2.link.attempted =
          s.link.attempted + (d.write i mode).run.transfers s.link.target ∧
        (s.write i mode).2.link.target.memory = d.written i mode s.link.target.memory) ∧
      (k < (d.write i mode).run.transfers s.link.target →
        (s.write i mode).1 = .error .linkFailure ∧
          (s.write i mode).2.link.attempted = s.link.attempted + (k + 1) ∧
          d.Passed i mode s.link.target.memory (s.write i mode).2.link.target.memory) := by
  obtain ⟨m, n, start, rest⟩ := follows.resting_lossy emulates known sized (by omega)
  obtain rfl := rest.device d identified
  have hm := rest.part
  have drives := emulates.drives known
  obtain ⟨value, link, _⟩ := onDevice_outcome identified (·.write i mode)
  change (s.write i mode).1 = _ at value
  change (s.write i mode).2.link = _ at link
  rw [value, link, start]
  rw [start] at lost
  change limit = n + k at lost
  constructor
  · intro enough
    obtain ⟨ok, stored, _⟩ := Device.write_outcome mode drives hm even fits
    rw [lossy_outcome_of_le _ m (by rw [lost]; exact Nat.add_le_add_left enough n)]
    exact ⟨ok, rfl, stored⟩
  · intro short
    have begun : Device.Passed ⟨setup.deviceId, p, f⟩ i mode m.memory m.memory :=
      .erasing (.start mode)
    obtain ⟨m', passed, cut⟩ := lossy_outcome_of_lt _
      (Device.sure_write drives.suited even fits mode) m begun
      (Device.along_write mode drives hm even fits) (by omega : n ≤ limit)
      (by rw [lost]; exact Nat.add_lt_add_left short n)
    rw [cut]
    exact ⟨rfl, by rw [lost]; rfl, passed⟩

/-- The link is lost once the first of two blocks is programmed. -/
theorem write_over_lost_link_threeBytes :
    (onPic18f452For 43).link.attempted = 8 ∧
      ((onPic18f452For 43).write .threeBytes .bulk).1 = .error .linkFailure ∧
      ((onPic18f452For 43).write .threeBytes .bulk).2.link.attempted = 44 ∧
      Device.pic18f452.Passed .threeBytes .bulk
        (onPic18f452For 43).link.target.memory
        ((onPic18f452For 43).write .threeBytes .bulk).2.link.target.memory := by
  have attempted : (onPic18f452For 43).link.attempted = 8 := by decide
  have identified : (onPic18f452For 43).device? = some .pic18f452 := by decide
  obtain ⟨_, short⟩ := write_over_lost_link (k := 35) (i := .threeBytes)
    Part.pic18f452_mem_knownParts Setup.emulates_pic18f452 (Memory.sized_zeroed _)
    (follows_onPic18f452For 43)
    (by rw [attempted]) identified (by decide) (by decide) .bulk
  have more : ∃ n, (Device.pic18f452.write .threeBytes .bulk).run.transfers
      (onPic18f452For 43).link.target = n + 36 := ⟨_, rfl⟩
  obtain ⟨n, needed⟩ := more
  obtain ⟨failed, counted, passed⟩ := short (by rw [needed]; omega)
  exact ⟨attempted, failed, by rw [counted, attempted], passed⟩

end Session

end InCircuit
