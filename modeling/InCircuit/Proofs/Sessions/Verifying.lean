import InCircuit.Proofs.Sessions
import InCircuit.Proofs.Writing

set_option autoImplicit false

/-!
# Verifying in a session

Comparing the part with an image finds every difference in the code of the image, in whole words,
and in the configuration bytes that it knows and the part has, and it finds no other. The part keeps
its contents.
-/
namespace InCircuit

variable {source : Image}

/-- What an image says of the memory of a part, address by address. -/
theorem Memory.carries_iff {m : Memory} {d : Device} (room : 2 * source.words ≤ source.capacity) :
    m.Carries d source ↔
      (∀ a, source.origin ≤ a → a < source.origin + 2 * source.words →
        m.code[a]? = source.byteAt? (a - source.origin)) ∧
      ∀ o < d.part.configBytes, ∀ b, source.configAt? o = some b → m.config[o]? = some b := by
  constructor
  · rintro ⟨_, code, config⟩
    refine ⟨fun a low high => ?_, config⟩
    have same := code (a - source.origin) (by omega)
    rw [Nat.add_sub_cancel' low] at same
    exact same.symm
  · rintro ⟨code, config⟩
    refine ⟨room, fun o ho => ?_, config⟩
    have same := code (source.origin + o) (Nat.le_add_right _ _) (by omega)
    rw [Nat.add_sub_cancel_left] at same
    exact same.symm

namespace Device

variable {d : Device} {readback : Image}

theorem compare_eq_ok_iff :
    d.compare source readback = .ok (d.covered source) ↔ d.Agrees source readback := by
  refine ⟨fun accepted => ?_, compare_of_agrees⟩
  apply Classical.byContradiction
  intro differs
  rw [compare_of_not_agrees differs] at accepted
  cases accepted

theorem compare_eq_or (d : Device) (source readback : Image) :
    d.compare source readback = .ok (d.covered source) ∨
      d.compare source readback = .error (.mismatch (d.covered source).total) := by
  by_cases same : d.Agrees source readback
  · exact .inl (compare_of_agrees same)
  · exact .inr (compare_of_not_agrees same)

end Device

namespace Session

open Emulator Procedure

variable {p : Part} {f : Family} {setup : Setup}

theorem verify_memory {s : Session Emulator} {d : Device} (suited : Suited d.part setup)
    (h : s.device? = some d) (source : Image) :
    (s.verify source).2.link.memory = s.link.memory := by
  obtain ⟨_, link, _⟩ := onDevice_outcome h (·.verify source)
  change (s.verify source).2.link = _ at link
  rw [link]
  exact memory_eq_of_held (Device.brings_verify (I := fun _ => True) (m := s.link) suited source
    fun _ _ => trivial).outcome.2.held

/-- Verifying succeeds just when the part has every byte of the image, and says how much was
compared either way. -/
theorem verify_ok_iff {s : Session Emulator} {memory : Memory} {d : Device}
    (known : (f, p) ∈ Family.knownParts) (emulates : setup.Emulates p)
    (sized : memory.Sized setup) (follows : s.Follows (.powerUp setup memory))
    (identified : s.device? = some d) (built : source.Built)
    (range : source.words = 0 ∨
      source.origin % 2 = 0 ∧ source.origin + 2 * source.words ≤ p.codeSize) :
    let compared : Compared := ⟨2 * source.words,
      ((List.range p.configBytes).filter fun o => (source.configAt? o).isSome).length⟩
    ((s.verify source).1 = .ok compared ↔
        (∀ a, source.origin ≤ a → a < source.origin + 2 * source.words →
          s.link.code[a]? = source.byteAt? (a - source.origin)) ∧
        ∀ o < p.configBytes, ∀ b, source.configAt? o = some b → s.link.config[o]? = some b) ∧
      ((s.verify source).1 = .ok compared ∨
        (s.verify source).1 = .error (.mismatch (compared.code + compared.config))) ∧
      (s.verify source).2.link.memory = s.link.memory := by
  intro compared
  have rest := follows.resting emulates known sized
  obtain rfl := rest.device d identified
  let d : Device := ⟨setup.deviceId, p, f⟩
  have suited : Suited d.part setup := emulates.suited known
  have covered : d.covered source = compared := by
    rw [Device.covered, Device.length_comparedConfig d source suited.configBytes_le]
  have carries := Memory.carries_iff (m := s.link.memory) (d := d) built.roomy
  obtain ⟨readback, brought, agrees⟩ :=
    Device.comparison_agrees (d := d) suited rest.part range
  have value := (verify_eq suited identified source).trans brought
  refine ⟨?_, ?_, verify_memory suited identified source⟩
  · rw [value, ← covered, Device.compare_eq_ok_iff, agrees]
    exact carries
  · rw [value, ← covered]
    exact Device.compare_eq_or d source readback

end Session

/-- One byte, which leaves half a word erased, and a configuration byte. -/
def Image.halfWord : Image where
  origin := 8
  code := #[0xFF, 0x00]
  size := 1
  config := (Vector.replicate 32 none).setIfInBounds 1 (some 0x00)
  eeprom := #[]

/-- No code, a configuration byte, and one past those that any part has. -/
def Image.fusesOnly : Image where
  origin := 7
  code := #[]
  size := 0
  config := ((Vector.replicate 32 none).setIfInBounds 1 (some 0x00)).setIfInBounds 20 (some 0x55)
  eeprom := #[]

theorem Session.verify_ok_iff_onPic18f452 :
    (onPic18f452.verify .fusesOnly).1 = .ok ⟨0, 1⟩ ∧
      (onPic18f452.verify .halfWord).1 = .error (.mismatch 3) ∧
      (onPic18f452.verify .halfWord).2.link.memory = .zeroed .pic18f452 := by
  have fuses : Image.fusesOnly.Built :=
    .putConfig
      (.putConfig (.blank 0 7) (show (Image.blank 0 7).putConfig 1 0x00 = .ok _ from rfl))
      (show Image.putConfig _ 20 0x55 = .ok Image.fusesOnly from rfl)
  have half : Image.halfWord.Built :=
    .putConfig
      (.putCode (.blank 2 8) (show (Image.blank 2 8).putCode 0 [0x00] = .ok _ from rfl))
      (show Image.putConfig _ 1 0x00 = .ok Image.halfWord from rfl)
  obtain ⟨found, _, _⟩ := verify_ok_iff Part.pic18f452_mem_knownParts Setup.emulates_pic18f452
    (Memory.sized_zeroed _) follows_onPic18f452 device?_onPic18f452 fuses (.inl rfl)
  obtain ⟨missed, answered, kept⟩ := verify_ok_iff Part.pic18f452_mem_knownParts
    Setup.emulates_pic18f452 (Memory.sized_zeroed _) follows_onPic18f452 device?_onPic18f452 half
    (.inr (by decide))
  refine ⟨found.mpr ⟨fun a low high => absurd high (Nat.not_lt_of_le low), fun o low b known => ?_⟩,
    answered.resolve_left fun accepted => ?_, kept.trans rfl⟩
  · have zeroed : ∀ o < 14, Image.fusesOnly.configAt? o = none ∨
        Image.fusesOnly.configAt? o = onPic18f452.link.config[o]? := by
      decide
    obtain absent | same := zeroed o low
    · rw [absent] at known
      cases known
    · rw [← same]
      exact known
  have differs := (missed.mp accepted).1 9 (by decide) (by decide)
  have prior : onPic18f452.link.code = Array.replicate 32768 0x00 := rfl
  rw [prior, Array.getElem?_replicate, if_pos (by decide)] at differs
  exact absurd differs (by decide)

end InCircuit
