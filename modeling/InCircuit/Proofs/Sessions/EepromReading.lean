import InCircuit.Proofs.Polling
import InCircuit.Proofs.Sessions.Restoring

set_option autoImplicit false

/-!
# Reading the EEPROM into an image

An image is written once the whole EEPROM has been scanned. So it is left as it was whichever
transfer fails, and when there is no room in it for what was read. Else it has the bytes that were
shifted out, which are those that the part holds.
-/
namespace InCircuit

namespace Image

/-- What an image has after a scan, and whether it had room for it. -/
def restocked (i : Image) : Except Fault (Array UInt8) → Except Fault Unit × Image
  | .error fault => (.error fault, i)
  | .ok bytes =>
    if bytes.size ≤ eepromCapacity then
      (.ok (), { i with eeprom := overwrite i.eeprom 0 bytes.toList })
    else (.error (.outOfRange 0 bytes.size eepromCapacity), i)

theorem writeEeprom_zero (i : Image) (bytes : Array UInt8) :
    i.writeEeprom 0 bytes.toList =
      if bytes.size ≤ eepromCapacity then
        .ok { i with eeprom := overwrite i.eeprom 0 bytes.toList }
      else .error (.outOfRange 0 bytes.size eepromCapacity) := by
  rw [writeEeprom, Nat.zero_add, Array.length_toList]
  by_cases room : bytes.size ≤ eepromCapacity
  · rw [if_pos room, if_neg (Nat.not_lt_of_le room), overwrite, Nat.zero_add, Array.length_toList]
  · rw [if_neg room, if_pos (Nat.lt_of_not_le room)]

variable {i : Image}

theorem restocked_error {v : Except Fault (Array UInt8)} {e : Fault}
    (h : (i.restocked v).1 = .error e) : (i.restocked v).2 = i := by
  cases v with
  | error _ => rfl
  | ok bytes =>
    rw [restocked] at h ⊢
    split at h
    · cases h
    · rw [if_neg ‹_›]

theorem restocked_ok {bytes : Array UInt8} (room : bytes.size ≤ eepromCapacity) :
    i.restocked (.ok bytes) = (.ok (), { i with eeprom := overwrite i.eeprom 0 bytes.toList }) :=
  if_pos room

theorem getElem?_overwrite_zero (cells : Array UInt8) (bytes : List UInt8) (k : Nat) :
    (overwrite cells 0 bytes)[k]? = if k < bytes.length then bytes[k]? else cells[k]? := by
  rw [getElem?_overwrite, Nat.zero_add, Nat.sub_zero]
  by_cases inside : k < bytes.length
  · rw [if_pos ⟨Nat.zero_le k, inside⟩, if_pos inside]
  · rw [if_neg (fun h => inside h.2), if_neg inside, if_neg inside]
    split
    · rfl
    · exact (Array.getElem?_eq_none (by omega)).symm

end Image

/-! ## Scanning -/

namespace Routine

open Procedure

theorem hears_readEepromFrom (count address : Nat) (bytes : Array UInt8) :
    Hears (readEepromFrom count address bytes) fun v _ heard =>
      heard.length = count ∧ v = .ok (bytes ++ heard.toArray) := by
  induction count generalizing address bytes with
  | zero => exact ⟨rfl, by simp [shiftedOut]⟩
  | succ count ih =>
    have pointed : Sends (pointEeprom address : Routine Mark Unit) _ :=
      (sends_load .eeadr _).bind fun _ => sends_load .eeadrH _
    unfold readEepromFrom
    refine pointed.hears_bind (by simp [Transfer.instruction]) fun _ => ?_
    refine (sends_executeAll _).hears_bind (Transfer.quiet_instructions _) fun _ => ?_
    refine hears_shiftOut_bind fun b => hears_emit_bind ((ih (address + 1) (bytes.push b)).mono ?_)
    rintro v _ heard ⟨length, rfl⟩
    exact ⟨congrArg Nat.succ length, by simp⟩

theorem hears_scanEeprom (p : Part) :
    Hears (scanEeprom p) fun v _ heard =>
      heard.length = p.eepromBytes ∧ v = .ok heard.toArray := by
  unfold scanEeprom
  refine (sends_executeAll _).hears_bind (Transfer.quiet_instructions _) fun _ => ?_
  refine hears_emit_bind ((hears_readEepromFrom p.eepromBytes 0 #[]).bind ?_ ?_)
  · rintro e _ heard ⟨_, ended⟩
    cases ended
  · rintro _ _ heard ⟨length, ended⟩
    obtain rfl := Except.ok.inj ended
    exact hears_emit_bind ⟨by simpa [shiftedOut] using length, by simp [shiftedOut]⟩

/-! ## Filling an image -/

theorem fillEeprom_eq (p : Part) (i : Image) :
    fillEeprom p i = (scanEeprom p).run >>= fun v => .done (i.restocked v) := by
  unfold fillEeprom
  refine congrArg _ (funext fun v => ?_)
  cases v with
  | error e => rfl
  | ok bytes =>
    simp only [i.writeEeprom_zero bytes, Image.restocked]
    by_cases room : bytes.size ≤ Image.eepromCapacity
    · rw [if_pos room, if_pos room]
      rfl
    · rw [if_neg room, if_neg room]
      rfl

end Routine

/-- Reading the EEPROM of `p` into `i` asked for `asked`, answered `result` and left `j`. -/
structure Image.EepromRead (p : Part) (i : Image) (asked : List (Transfer × Except Fault UInt8))
    (result : Except Fault Unit) (j : Image) : Prop where
  /-- A fault leaves the image as it was. -/
  fault : ∀ e, result = .error e → j = i
  /-- The first transfer that fails is the last one, and its fault is the answer. -/
  halts : ∀ earlier t e later, asked = earlier ++ (t, .error e) :: later →
    later = [] ∧ result = .error e
  /-- What fails when no transfer does is the write to an image that has no room. -/
  room : (∀ x ∈ asked, ∃ b, x.2 = .ok b) → result =
    if p.eepromBytes ≤ 1024 then .ok () else .error (.outOfRange 0 p.eepromBytes 1024)
  /-- The bytes shifted out are in the image in their order, and nothing else has changed. -/
  filled : result = .ok () → ∃ said : List (Transfer × UInt8),
    asked = said.map (fun x => (x.1, .ok x.2)) ∧ (shiftedOut said).length = p.eepromBytes ∧
    (∀ k, j.eeprom[k]? = if k < p.eepromBytes then (shiftedOut said)[k]? else i.eeprom[k]?) ∧
    j.code = i.code ∧ j.config = i.config ∧ j.origin = i.origin ∧ j.size = i.size

namespace Routine

open Procedure

theorem eepromRead_fillEeprom {σ : Type} [Link σ] (p : Part) (i : Image) (t : Tracker) (m : σ) :
    i.EepromRead p (((fillEeprom p i).tracked t).exchanges m)
      (((fillEeprom p i).tracked t).outcome m).1.1
      (((fillEeprom p i).tracked t).outcome m).1.2 := by
  have asked : ((fillEeprom p i).tracked t).exchanges m = (scanEeprom p).run.exchanges m := by
    rw [exchanges_tracked, fillEeprom_eq]
    exact exchanges_bind_silent _ (fun _ _ => rfl) m
  have answered : (((fillEeprom p i).tracked t).outcome m).1 =
      i.restocked ((scanEeprom p).run.outcome m).1 := by
    rw [outcome_tracked, fillEeprom_eq, outcome_bind]
    rfl
  have halts := halts_scanEeprom p
  rw [asked, answered]
  have scanned (carried : ∀ x ∈ (scanEeprom p).run.exchanges m, ∃ b, x.2 = .ok b) :
      ∃ said : List (Transfer × UInt8),
        (scanEeprom p).run.exchanges m = said.map (fun x => (x.1, .ok x.2)) ∧
        (shiftedOut said).length = p.eepromBytes ∧
        i.restocked ((scanEeprom p).run.outcome m).1 =
          i.restocked (.ok (shiftedOut said).toArray) := by
    obtain ⟨said, exchanged, length, value⟩ := Says.said (hears_scanEeprom p) m carried
    exact ⟨said, exchanged, length, congrArg _ value⟩
  refine ⟨fun e => Image.restocked_error, fun earlier t e later shape => ?_, fun carried => ?_,
    fun ok => ?_⟩
  · obtain ⟨nothing, value⟩ := Ends.halted halts m shape
    exact ⟨nothing, congrArg (fun v => (i.restocked v).1) value⟩
  · obtain ⟨said, -, length, value⟩ := scanned carried
    have size : (shiftedOut said).toArray.size = p.eepromBytes := by simpa using length
    rw [value, Image.restocked, size]
    change (if p.eepromBytes ≤ 1024 then _ else _ : Except Fault Unit × Image).1 = _
    split <;> rfl
  · have ended : ∃ bytes, ((scanEeprom p).run.outcome m).1 = .ok bytes := by
      cases value : ((scanEeprom p).run.outcome m).1 with
      | ok bytes => exact ⟨bytes, rfl⟩
      | error e =>
        rw [value] at ok
        cases ok
    obtain ⟨bytes, value⟩ := ended
    obtain ⟨said, exchanged, length, same⟩ := scanned (Ends.carried halts m value)
    rw [same] at ok ⊢
    have room : (shiftedOut said).toArray.size ≤ Image.eepromCapacity := by
      by_contra full
      rw [Image.restocked, if_neg full] at ok
      cases ok
    rw [Image.restocked_ok room]
    refine ⟨said, exchanged, length, fun k => ?_, rfl, rfl, rfl, rfl⟩
    rw [← length]
    exact Image.getElem?_overwrite_zero i.eeprom (shiftedOut said) k

end Routine

namespace Session

open Emulator Procedure

variable {p : Part} {f : Family} {setup : Setup} {memory : Memory} {s : Session Emulator}
  {d : Device}

/-- On any part, whatever calls there have been, it ends with the bytes that the EEPROM has. -/
theorem readEepromInto_emulated (known : (f, p) ∈ Family.knownParts) (emulates : setup.Emulates p)
    (sized : memory.Sized setup) (follows : s.Follows (.powerUp setup memory))
    (identified : s.device? = some d) (i : Image) :
    (s.readEepromInto i).1 =
        (.ok (), { i with eeprom := Image.overwrite i.eeprom 0 s.link.eeprom.toList }) ∧
      s.link.eeprom.size = p.eepromBytes ∧
      (s.readEepromInto i).2.link.memory = s.link.memory := by
  have rest := follows.resting emulates known sized
  obtain rfl := rest.device d identified
  have suited := emulates.suited known
  have size : s.link.eeprom.size = p.eepromBytes := rest.part.eeprom
  obtain ⟨scanned, kept⟩ := (Routine.brings_scanEeprom (I := fun _ => True) (m := s.link)
    (fun _ _ => trivial) suited.eepromBytes_le).outcome
  rw [← size, Emulator.eepromBytes_all, Array.toArray_toList] at scanned
  obtain ⟨value, link, -⟩ := s.perform_outcome (Device.fillEeprom ⟨setup.deviceId, p, f⟩ i)
  rw [← fillOnDevice_some identified, Device.fillEeprom, outcome_tracked, Routine.fillEeprom_eq,
    outcome_bind] at value link
  refine ⟨value.trans ?_, size, ?_⟩
  · change i.restocked ((Routine.scanEeprom p).run.outcome s.link).1 = _
    rw [scanned, Image.restocked_ok (size ▸ suited.eepromBytes_le)]
  · change (s.readEepromInto i).2.link = ((Routine.scanEeprom p).run.outcome s.link).2 at link
    rw [link]
    exact Emulator.memory_eq_of_held kept.held

/-- An image is filled as a whole or left as it was, whichever link, part and transfer that fails.
On the emulated part it is filled with what the EEPROM holds. -/
theorem readEepromInto_all_or_nothing (i : Image) :
    (∀ {σ : Type} [Link σ] (p : Part) (t : Tracker) (m : σ),
      i.EepromRead p (((Routine.fillEeprom p i).tracked t).exchanges m)
        (((Routine.fillEeprom p i).tracked t).outcome m).1.1
        (((Routine.fillEeprom p i).tracked t).outcome m).1.2) ∧
    (∀ {σ : Type} [Link σ] (s : Session σ) (e : Fault),
      (s.readEepromInto i).1.1 = .error e → (s.readEepromInto i).1.2 = i) ∧
    ∀ {f : Family} {p : Part} {setup : Setup} {memory : Memory} {s : Session Emulator} {d : Device},
      (f, p) ∈ Family.knownParts → setup.Emulates p → memory.Sized setup →
      s.Follows (.powerUp setup memory) → s.device? = some d →
      ∃ j, (s.readEepromInto i).1 = (.ok (), j) ∧ s.link.eeprom.size = p.eepromBytes ∧
        (∀ k, j.eeprom[k]? = if k < p.eepromBytes then s.link.eeprom[k]? else i.eeprom[k]?) ∧
        j.code = i.code ∧ j.config = i.config ∧ j.origin = i.origin ∧ j.size = i.size ∧
        (s.readEepromInto i).2.link.memory = s.link.memory ∧
        (s.readEepromInto i).2.Follows (.powerUp setup memory) := by
  refine ⟨fun p t m => Routine.eepromRead_fillEeprom p i t m, fun s e failed => ?_,
    fun known emulates sized follows identified => ?_⟩
  · cases h : s.device? with
    | none => rw [readEepromInto, fillOnDevice_none h]
    | some d =>
      rw [readEepromInto, fillOnDevice_some h, (s.perform_outcome (d.fillEeprom i)).1] at failed ⊢
      exact (Routine.eepromRead_fillEeprom d.part i _ s.link).fault e failed
  · obtain ⟨filled, size, kept⟩ := readEepromInto_emulated known emulates sized follows identified i
    refine ⟨_, filled, size, fun k => ?_, rfl, rfl, rfl, rfl, kept,
      follows.after (.readEepromInto i)⟩
    rw [Image.getElem?_overwrite_zero, Array.length_toList, size, Array.getElem?_toList]

def longEeprom : Image := { Image.blank 0 0 with eeprom := Array.replicate 300 0x5A }

/-- The link is lost during the scan, or not at all. -/
theorem readEepromInto_all_or_nothing_longEeprom :
    ((onPic18f452For 40).readEepromInto longEeprom).1 = (.error .linkFailure, longEeprom) ∧
      ∃ j, (onPic18f452.readEepromInto longEeprom).1 = (.ok (), j) ∧
        j.eeprom[255]? = some 0 ∧ j.eeprom[256]? = some 0x5A := by
  obtain ⟨-, fault, emulated⟩ := readEepromInto_all_or_nothing longEeprom
  have lost : ((onPic18f452For 40).readEepromInto longEeprom).1.1 = .error .linkFailure :=
    rfl
  obtain ⟨j, filled, -, bytes, -⟩ := emulated Part.pic18f452_mem_knownParts
    Setup.emulates_pic18f452 (Memory.sized_zeroed _) follows_onPic18f452 device?_onPic18f452
  have held : onPic18f452.link.eeprom = Array.replicate 256 0 := rfl
  refine ⟨Prod.ext lost (fault _ _ lost), j, filled, ?_, ?_⟩
  · rw [bytes 255, if_pos (by decide), held, Array.getElem?_replicate, if_pos (by decide)]
  · rw [bytes 256, if_neg (by decide), longEeprom, Array.getElem?_replicate, if_pos (by decide)]

end Session

end InCircuit
