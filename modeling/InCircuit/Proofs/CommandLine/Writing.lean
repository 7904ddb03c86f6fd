import InCircuit.Proofs.CommandLine.Jobs
import InCircuit.Proofs.IntelHex.Files
import InCircuit.Proofs.Sessions.Verifying

set_option autoImplicit false

/-!
# Files that the write command rejects

The write command can end with a fault of its file in two places: before it asks anything of the
part, and at the EEPROM, when the part has already been erased and programmed.
-/
namespace InCircuit

def Fault.OfFile : Fault → Prop
  | format _ | doesNotFit .. | misaligned => True
  | _ => False

namespace Image

open IntelHex

variable {i : Image} {fault : Fault}

theorem ofFile_bind {x : Except Fault Image} {f : Image → Except Fault Image}
    (first : ∀ e, x = .error e → e.OfFile) (next : ∀ j, f j = .error fault → fault.OfFile)
    (h : (x >>= f) = .error fault) : fault.OfFile := by
  cases x with
  | ok j => exact next j h
  | error e =>
    obtain rfl := Except.error.inj h
    exact first e rfl

theorem ofFile_putConfigs {offset : Nat} {bytes : List UInt8}
    (h : i.putConfigs offset bytes = .error fault) : fault.OfFile := by
  induction bytes generalizing i offset with
  | nil => cases h
  | cons b bytes ih =>
    refine ofFile_bind (fun e put => ?_) (fun j => ih) h
    rw [putConfig] at put
    split at put <;> cases put
    trivial

theorem ofFile_apply {address n : Nat} {bytes : List UInt8}
    (h : i.apply address bytes n = .error fault) : fault.OfFile := by
  rw [apply] at h
  split at h
  · rw [putCode] at h
    split at h <;> cases h
    trivial
  · cases h
  · exact ofFile_putConfigs h
  · rw [writeEeprom] at h
    split at h <;> cases h
    trivial
  · cases h
    trivial

theorem ofFile_applyLines {base n : Nat} {lines : List (List Char)}
    (h : i.applyLines base n lines = .error fault) : fault.OfFile := by
  induction lines generalizing i base n with
  | nil => cases h
  | cons line rest ih =>
    rw [applyLines] at h
    split at h
    · cases h
      trivial
    · cases h
    · exact ofFile_bind (fun e => ofFile_apply) (fun j => ih) h
    · exact ih h
    · exact ih h
    · exact ih h
    · exact ih h

theorem ofFile_ofIntelHex {text : String} {capacity : Nat}
    (h : ofIntelHex text capacity = .error fault) : fault.OfFile := ofFile_applyLines h

end Image

/-! ## Blameless jobs -/

namespace Job

variable {σ α β : Type} {s : Session σ} {c : Console}

def Blameless (j : Job σ α) (s : Session σ) (c : Console) : Prop :=
  ∀ fault, (j.result s c).1.1 = .error (.fault fault) → ¬ fault.OfFile

theorem blameless_print (line : String) (s : Session σ) (c : Console) :
    (print line : Job σ Unit).Blameless s c := nofun

theorem Blameless.print {line : String} {next : Unit → Job σ α}
    (h : ∀ c, (next ()).Blameless s c) : (print line >>= next).Blameless s c := by
  intro fault ended
  rw [result_bind_ok _ (result_print line s c)] at ended
  exact h _ fault ended

theorem Blameless.onSession {f : Session σ → Except Fault α × Session σ} {next : α → Job σ β}
    (failed : ∀ fault, (f s).1 = .error fault → ¬ fault.OfFile)
    (h : ∀ a, (f s).1 = .ok a → (next a).Blameless (f s).2 c) :
    (onSession f >>= next).Blameless s c := by
  intro fault ended
  match ran : (f s).1 with
  | .ok a =>
    rw [result_bind_ok _ (result_onSession_ok ran c)] at ended
    exact h a ran fault ended
  | .error e =>
    rw [result_bind_error _ (result_onSession_error ran c)] at ended
    obtain rfl := Failure.fault.inj (Except.error.inj ended)
    exact failed e ran

end Job

/-! ## The write command on an emulated part -/

namespace Session

open Emulator Procedure

variable {s : Session Emulator} {d : Device} {setup : Setup} {i : Image}

theorem write_outcome (drives : d.Drives setup) (identified : s.device? = some d)
    (rest : s.link.Resting d.part setup) (even : i.origin % 2 = 0)
    (fits : i.origin + 2 * i.words ≤ d.part.codeSize) (mode : EraseMode) :
    (s.write i mode).1 = .ok () ∧
      (s.write i mode).2.link.memory = d.written i mode s.link.memory ∧
      (s.write i mode).2.link.Resting d.part setup ∧ (s.write i mode).2.device? = some d := by
  obtain ⟨value, link, device⟩ := onDevice_outcome identified (·.write i mode)
  obtain ⟨ok, memory, rested⟩ := Device.write_outcome mode drives rest even fits
  change (s.write i mode).2.link = _ at link
  rw [← link] at memory rested
  exact ⟨value.trans ok, memory, rested, device⟩

theorem programEeprom_outcome (drives : d.Drives setup) (identified : s.device? = some d)
    (rest : s.link.Resting d.part setup) (fits : i.eeprom.size ≤ d.part.eepromBytes) :
    (s.programEeprom i).1 = setup.verdict i.eeprom.toList ∧
      (s.programEeprom i).2.link.Resting d.part setup ∧
      (s.programEeprom i).2.device? = some d := by
  obtain ⟨value, link, device⟩ := onDevice_outcome identified (·.programEeprom i)
  have ended := (Device.along_programEeprom drives.suited rest.idle fits).outcome
  have rested : Emulator.Resting d.part setup _ :=
    Along.outcome (Device.rests_programEeprom drives rest (i := i))
  change (s.programEeprom i).2.link = _ at link
  rw [← link] at rested
  exact ⟨value.trans ended.1, rested, device⟩

theorem programEeprom_of_lt (identified : s.device? = some d)
    (long : d.part.eepromBytes < i.eeprom.size) :
    (s.programEeprom i).1 = .error (.outOfRange 0 i.eeprom.size d.part.eepromBytes) ∧
      (s.programEeprom i).2.link = s.link := by
  obtain ⟨value, link, _⟩ := onDevice_outcome identified (·.programEeprom i)
  rw [Device.programEeprom_of_lt long] at value link
  exact ⟨value, link⟩

theorem verify_outcome (suited : Suited d.part setup) (identified : s.device? = some d)
    (rest : s.link.Resting d.part setup) (even : i.origin % 2 = 0)
    (fits : i.origin + 2 * i.words ≤ d.part.codeSize) :
    (s.verify i).1 = .ok (d.covered i) ∨
      (s.verify i).1 = .error (.mismatch (d.covered i).total) := by
  obtain ⟨readback, brought, _⟩ := Device.comparison_agrees suited rest (.inr ⟨even, fits⟩)
  rw [verify_eq suited identified, brought]
  exact Device.compare_eq_or d i readback

end Session

namespace Job

variable {s : Session Emulator} {c : Console} {d : Device} {setup : Setup} {i : Image}
  {path text : String} {mode : EraseMode} {verify eeprom : Bool}

theorem result_write_of_error {fault : Fault} (reads : c.folder.read path = .ok text.toUTF8)
    (refused : Image.ofIntelHex text d.part.codeSize = .error fault) :
    (write d path mode verify eeprom).result s c = ((.error (.fault fault), s), c) := by
  have loaded := result_loadHex reads s d.part.codeSize
  rw [refused] at loaded
  exact result_bind_error _ loaded

theorem result_write_of_ok (reads : c.folder.read path = .ok text.toUTF8)
    (parsed : Image.ofIntelHex text d.part.codeSize = .ok i)
    (written : (s.write i mode).1 = .ok ()) (verify eeprom : Bool) :
    ∃ c', (write d path mode verify eeprom).result s c =
      (finish i verify eeprom).result (s.write i mode).2 c' := by
  have loaded := result_loadHex reads s d.part.codeSize
  rw [parsed] at loaded
  rw [write, result_bind_ok _ loaded, result_bind_ok _ (result_print _ s c),
    result_bind_ok _ (result_onSession_ok written _)]
  exact ⟨_, rfl⟩

theorem result_finish_of_lt (identified : s.device? = some d)
    (long : d.part.eepromBytes < i.eeprom.size) (verify : Bool) (c : Console) :
    ((finish i verify true).result s c).1.1 =
        .error (.fault (.outOfRange 0 i.eeprom.size d.part.eepromBytes)) ∧
      ((finish i verify true).result s c).1.2.link = s.link := by
  obtain ⟨refused, kept⟩ := Session.programEeprom_of_lt identified long
  have stored : true = true ∧ ¬ i.eeprom.isEmpty = true := by
    refine ⟨rfl, fun empty => ?_⟩
    rw [Array.isEmpty_iff_size_eq_zero] at empty
    omega
  have ended := result_onSession_error (f := (·.programEeprom i)) refused c
  rw [finish, if_pos stored, result_bind_error _ ended]
  exact ⟨rfl, kept⟩

/-- Reading back can only find a difference: the range was checked when the file was parsed. -/
theorem blameless_confirm (drives : d.Drives setup) (identified : s.device? = some d)
    (rest : s.link.Resting d.part setup) (even : i.origin % 2 = 0)
    (fits : i.origin + 2 * i.words ≤ d.part.codeSize) : (confirm i verify).Blameless s c := by
  cases verify with
  | false => exact blameless_print _ s c
  | true =>
    refine .onSession (fun fault failed => ?_) fun _ _ => .print fun c => blameless_print _ _ c
    obtain ok | differs := Session.verify_outcome drives.suited identified rest even fits
    · rw [ok] at failed
      cases failed
    · rw [differs] at failed
      cases failed
      exact id

theorem blameless_finish (drives : d.Drives setup) (identified : s.device? = some d)
    (rest : s.link.Resting d.part setup) (even : i.origin % 2 = 0)
    (fits : i.origin + 2 * i.words ≤ d.part.codeSize)
    (room : eeprom = true → i.eeprom.size ≤ d.part.eepromBytes) :
    (finish i verify eeprom).Blameless s c := by
  by_cases stored : eeprom = true ∧ ¬ i.eeprom.isEmpty = true
  · obtain ⟨value, rested, bound⟩ :=
      Session.programEeprom_outcome drives identified rest (room stored.1)
    rw [finish, if_pos stored]
    refine .onSession (fun fault failed => ?_) fun _ _ =>
      blameless_confirm drives bound rested even fits
    rw [value, Setup.verdict] at failed
    split at failed
    · cases failed
    · cases failed
      exact id
  · rw [finish, if_neg stored]
    exact blameless_confirm drives identified rest even fits

theorem result_write_of_lt (drives : d.Drives setup) (identified : s.device? = some d)
    (rest : s.link.Resting d.part setup) (reads : c.folder.read path = .ok text.toUTF8)
    (parsed : Image.ofIntelHex text d.part.codeSize = .ok i)
    (long : d.part.eepromBytes < i.eeprom.size) (mode : EraseMode) (verify : Bool) :
    ((write d path mode verify true).result s c).1.1 =
        .error (.fault (.outOfRange 0 i.eeprom.size d.part.eepromBytes)) ∧
      ((write d path mode verify true).result s c).1.2.link.memory =
        d.written i mode s.link.memory := by
  obtain ⟨even, fits⟩ := Image.fits_ofIntelHex parsed
  obtain ⟨written, memory, _, bound⟩ :=
    Session.write_outcome drives identified rest even fits mode
  obtain ⟨c', ended⟩ := result_write_of_ok reads parsed written verify true
  obtain ⟨refused, kept⟩ := result_finish_of_lt bound long verify c'
  rw [ended]
  exact ⟨refused, (congrArg Emulator.memory kept).trans memory⟩

theorem blameless_write (drives : d.Drives setup) (identified : s.device? = some d)
    (rest : s.link.Resting d.part setup) (reads : c.folder.read path = .ok text.toUTF8)
    (parsed : Image.ofIntelHex text d.part.codeSize = .ok i)
    (room : eeprom = true → i.eeprom.size ≤ d.part.eepromBytes) :
    (write d path mode verify eeprom).Blameless s c := by
  obtain ⟨even, fits⟩ := Image.fits_ofIntelHex parsed
  obtain ⟨written, _, rested, bound⟩ := Session.write_outcome drives identified rest even fits mode
  obtain ⟨c', ended⟩ := result_write_of_ok reads parsed written verify eeprom
  rw [Blameless, ended]
  exact blameless_finish drives bound rested even fits room

variable {p : Part} {f : Family} {memory : Memory}

/-- The write command ends with a fault of its file just when the file cannot be parsed or, if the
EEPROM is to be programmed, has too much for it. The first leaves the part alone, the second finds
code and configuration written. -/
theorem write_rejects_iff (known : (f, p) ∈ Family.knownParts) (emulates : setup.Emulates p)
    (sized : memory.Sized setup) (follows : s.Follows (.powerUp setup memory))
    (identified : s.device? = some d) (reads : c.folder.read path = .ok text.toUTF8)
    (mode : EraseMode) (verify eeprom : Bool) :
    let ended := (write d path mode verify eeprom).result s c
    (∀ fault, (ended.1.1 = .error (.fault fault) ∧ fault.OfFile) ↔
        Image.ofIntelHex text p.codeSize = .error fault ∨
          ∃ i, Image.ofIntelHex text p.codeSize = .ok i ∧ eeprom = true ∧
            p.eepromBytes < i.eeprom.size ∧
            fault = .outOfRange 0 i.eeprom.size p.eepromBytes) ∧
      (∀ fault, Image.ofIntelHex text p.codeSize = .error fault → ended.1.2 = s) ∧
      ∀ i, Image.ofIntelHex text p.codeSize = .ok i → eeprom = true →
        p.eepromBytes < i.eeprom.size →
        ended.1.2.link.memory = d.written i mode s.link.memory := by
  intro ended
  have rest := follows.resting emulates known sized
  obtain rfl := rest.device d identified
  have drives := emulates.drives known
  have refused {fault : Fault} (h : Image.ofIntelHex text p.codeSize = .error fault) :
      ended = ((.error (.fault fault), s), c) := result_write_of_error reads h
  have stopped {i : Image} (h : Image.ofIntelHex text p.codeSize = .ok i)
      (long : p.eepromBytes < i.eeprom.size) :=
    result_write_of_lt drives identified rest.part reads h long mode verify
  refine ⟨fun fault => ⟨fun ⟨failed, blamed⟩ => ?_, ?_⟩, fun fault h => ?_, ?_⟩
  · match parsed : Image.ofIntelHex text p.codeSize with
    | .error e =>
      rw [refused parsed] at failed
      exact .inl (congrArg _ (Failure.fault.inj (Except.error.inj failed)))
    | .ok i =>
      by_cases long : eeprom = true ∧ p.eepromBytes < i.eeprom.size
      · obtain ⟨rfl, long⟩ := long
        have same := failed.symm.trans (stopped parsed long).1
        have same := Failure.fault.inj (Except.error.inj same)
        exact .inr ⟨i, rfl, rfl, long, same⟩
      · have room : eeprom = true → i.eeprom.size ≤ p.eepromBytes :=
          fun wanted => Nat.le_of_not_lt fun more => long ⟨wanted, more⟩
        exact absurd blamed
          (blameless_write drives identified rest.part reads parsed room fault failed)
  · rintro (h | ⟨i, parsed, rfl, long, rfl⟩)
    · rw [refused h]
      exact ⟨rfl, Image.ofFile_ofIntelHex h⟩
    · exact ⟨(stopped parsed long).1, trivial⟩
  · rw [refused h]
  · rintro i parsed rfl long
    exact (stopped parsed long).2

def withFile (text : String) : Console := { folder := { files := [(["part.hex"], text.toUTF8)] } }

theorem read_withFile (text : String) :
    (withFile text).folder.read "part.hex" = .ok text.toUTF8 := by
  rfl

/-- A byte at the address after the last one of a 256-byte EEPROM. -/
def longText : String := IntelHex.textOf [.linear 0xF0, .data 256 [0x00], .endOfFile]

def longImage : Image := { Image.blank 32768 0 with eeprom := Image.overwrite #[] 256 [0x00] }

theorem size_longImage : longImage.eeprom.size = 257 := by
  rw [longImage, Image.size_overwrite]
  rfl

theorem ofIntelHex_longText : Image.ofIntelHex longText 32768 = .ok longImage := by
  have records : IntelHex.countedRecords longText =
      [.linear 0xF0, .data 256 [0x00]].map some := by
    decide +kernel
  have parts : IntelHex.dataOf longText = [(0xF00100, [0x00])] := by
    rw [IntelHex.dataOf, records]
    rfl
  have room : 256 < Image.eepromCapacity := by decide
  have stored : (Image.blank 32768 0).apply 0xF00100 [0x00] 0 = .ok longImage :=
    (Image.apply_eeprom room [0x00] 0).trans (Image.writeEeprom_eq_ok.mpr ⟨room, rfl⟩)
  refine Image.ofIntelHex_eq_ok.mpr ⟨by rw [records]; decide, ?_⟩
  rw [parts, List.foldlM_cons, Image.applyPart?, stored]
  rfl

theorem write_rejects_iff_longText :
    (∀ fault, (((write .pic18f452 "part.hex" .pages false true).result Session.onPic18f452
        (withFile longText)).1.1 = .error (.fault fault) ∧ fault.OfFile) ↔
          fault = .doesNotFit 0 257 256) ∧
      ((write .pic18f452 "part.hex" .pages false true).result Session.onPic18f452
        (withFile longText)).1.2.link.memory =
          Device.pic18f452.written longImage .pages (.zeroed .pic18f452) := by
  obtain ⟨rejects, _, written⟩ := write_rejects_iff Part.pic18f452_mem_knownParts
    Setup.emulates_pic18f452 (Memory.sized_zeroed _) Session.follows_onPic18f452
    Session.device?_onPic18f452 (read_withFile longText) .pages false true
  have prior : Session.onPic18f452.link.memory = .zeroed .pic18f452 := rfl
  have long : Part.pic18f452.eepromBytes < longImage.eeprom.size := by
    rw [size_longImage]
    decide
  refine ⟨fun fault => (rejects fault).trans ⟨?_, ?_⟩, ?_⟩
  · rintro (refused | ⟨i, parsed, _, _, same⟩)
    · exact nomatch ofIntelHex_longText.symm.trans refused
    · obtain rfl := Except.ok.inj (ofIntelHex_longText.symm.trans parsed)
      rw [same, size_longImage]
      rfl
  · rintro rfl
    refine .inr ⟨longImage, ofIntelHex_longText, rfl, long, ?_⟩
    rw [size_longImage]
    rfl
  · rw [← prior]
    exact written longImage ofIntelHex_longText rfl long

/-- The code is gone when the EEPROM contents turn out too long. -/
theorem write_longText_erases :
    ((write .pic18f452 "part.hex" .bulk true true).result Session.onPic18f452
        (withFile longText)).1.1 = .error (.fault (.doesNotFit 0 257 256)) ∧
      (Fault.doesNotFit 0 257 256).OfFile ∧
      Session.onPic18f452.link.code[0]? = some 0x00 ∧
      ((write .pic18f452 "part.hex" .bulk true true).result Session.onPic18f452
        (withFile longText)).1.2.link.code[0]? = some 0xFF := by
  have rest := Session.follows_onPic18f452.resting Setup.emulates_pic18f452
    Part.pic18f452_mem_knownParts (Memory.sized_zeroed _)
  have drives : Device.pic18f452.Drives .pic18f452 :=
    Setup.emulates_pic18f452.drives Part.pic18f452_mem_knownParts
  have prior : Session.onPic18f452.link.memory = .zeroed .pic18f452 := rfl
  have before : Session.onPic18f452.link.code = _ := congrArg Memory.code prior
  obtain ⟨failed, memory⟩ := result_write_of_lt drives Session.device?_onPic18f452 rest.part
    (read_withFile longText) ofIntelHex_longText (by rw [size_longImage]; decide) .bulk true
  rw [size_longImage] at failed
  have size : Session.onPic18f452.link.memory.code.size = 32768 := rest.part.code
  generalize (write .pic18f452 "part.hex" .bulk true true).result Session.onPic18f452
    (withFile longText) = ended at failed memory ⊢
  refine ⟨failed, trivial, ?_, ?_⟩
  · rw [before]
    exact Array.getElem?_replicate.trans (if_pos (by decide))
  · have after : ended.1.2.link.code = _ := congrArg Memory.code memory
    rw [after, Device.getElem?_code_written, size]
    rfl

end Job

end InCircuit
