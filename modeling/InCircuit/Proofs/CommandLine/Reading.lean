import InCircuit.Proofs.CommandLine.Jobs
import InCircuit.Proofs.Sessions.Halting
import InCircuit.Proofs.Sessions.Restoring

set_option autoImplicit false

/-!
# Reading a range of code

A range of whole words inside the part is read byte for byte, and any other range is refused unsent.
What is written to a bare file are the bytes that the part has in the range.
-/
namespace InCircuit

theorem Emulator.getElem?_code {m : Emulator} {size a : Nat} (setup : m.setup.codeSize = size)
    (sized : m.code.size = size) (h : a < size) : m.code[a]? = some (m.byteAt a) := by
  have inside : a < m.code.size := by omega
  rw [byteAt, setup, if_pos h, Array.getD_eq_getD_getElem?, Array.getElem?_eq_getElem inside]
  rfl

namespace Device

open Emulator

variable {d : Device} {s : Setup} {m : Emulator} {offset size : Nat} {i : Image}

def span (d : Device) (offset size : Nat) : Nat :=
  if size = 0 then d.part.codeSize - offset else size

def Outside (d : Device) (offset size : Nat) : Prop :=
  size = 0 ∧ d.part.codeSize ≤ offset ∨ d.part.codeSize < offset + size

/-! ## Ranges that are refused -/

theorem readCode_of_odd (odd : offset % 2 ≠ 0 ∨ size % 2 ≠ 0) :
    d.readCode offset size = ExceptT.mk (pure (.error .misaligned)) := by
  unfold readCode Routine.readCode
  rw [if_pos odd]
  rfl

theorem readCode_of_outside (even : offset % 2 = 0) (words : size % 2 = 0)
    (outside : d.Outside offset size) :
    d.readCode offset size =
      ExceptT.mk (pure (.error (.outOfRange offset size d.part.codeSize))) := by
  have aligned : ¬ (offset % 2 ≠ 0 ∨ size % 2 ≠ 0) := by omega
  unfold readCode Routine.readCode
  rw [if_neg aligned]
  by_cases rest : size = 0
  · have past : d.part.codeSize ≤ offset := by
      unfold Outside at outside
      omega
    have refused : d.readLength offset size = .error (.outOfRange offset size d.part.codeSize) := by
      rw [readLength, if_pos rest, if_pos past, rest]
    rw [refused]
    rfl
  · have past : d.part.codeSize < offset + size := outside.resolve_left fun empty => rest empty.1
    have length : d.readLength offset size = .ok size := if_neg rest
    have refused : d.requireRange offset size =
        .error (.outOfRange offset size d.part.codeSize) := if_pos past
    rw [length]
    change Routine.tracked _ (ExceptT.mk (pure (d.requireRange offset size)) >>= _) = _
    rw [refused]
    rfl

/-! ## Ranges that are read -/

theorem codeRead_zero (even : offset % 2 = 0) (whole : d.part.codeSize % 2 = 0)
    (below : offset < d.part.codeSize) :
    d.codeRead m offset 0 = d.codeRead m offset (d.part.codeSize - offset) := by
  have aligned : ¬ (offset % 2 ≠ 0 ∨ 0 % 2 ≠ 0) := by omega
  have aligned' : ¬ (offset % 2 ≠ 0 ∨ (d.part.codeSize - offset) % 2 ≠ 0) := by omega
  have length : d.readLength offset 0 = .ok (d.part.codeSize - offset) :=
    (if_pos rfl).trans (if_neg (by omega))
  have length' : d.readLength offset (d.part.codeSize - offset) =
      .ok (d.part.codeSize - offset) := if_neg (by omega)
  rw [codeRead, codeRead, if_neg aligned, if_neg aligned', length, length']

theorem codeRead_inside (suited : Suited d.part s) (even : offset % 2 = 0) (words : size % 2 = 0)
    (inside : ¬ d.Outside offset size) :
    ∃ i : Image, d.codeRead m offset size = .ok i ∧ i.origin = offset ∧
      i.capacity = d.span offset size ∧ i.size = d.span offset size ∧ i.eeprom = #[] ∧
      i.config = Vector.replicate 32 none ∧
      ∀ k < d.span offset size, i.byteAt? k = some (m.byteAt (offset + k)) := by
  have whole := suited.codeSize_even
  have same : d.codeRead m offset size = d.codeRead m offset (d.span offset size) := by
    rw [span]
    split
    · rename_i rest
      subst rest
      exact codeRead_zero even whole (by unfold Outside at inside; omega)
    · rfl
  have fits : d.span offset size % 2 = 0 ∧ d.span offset size ≠ 0 ∧
      offset + d.span offset size ≤ d.part.codeSize := by
    unfold Outside at inside
    unfold span
    split <;> omega
  obtain ⟨i, read, origin, capacity, length, config, bytes⟩ :=
    codeRead_eq_ok (d := d) (m := m) even fits.1 fits.2.1 fits.2.2
  obtain ⟨_, _, _, _, _, put⟩ := codeRead_eq_ok_inv read
  obtain ⟨_, made⟩ := Image.putCode_eq_ok.mp put
  exact ⟨i, same.trans read, origin, capacity, length, congrArg Image.eeprom made, config, bytes⟩

theorem RecordedCode.codeBytes (h : d.RecordedCode m offset i)
    (setup : m.setup.codeSize = d.part.codeSize) (sized : m.code.size = d.part.codeSize) :
    i.codeBytes.toArray = m.code.extract offset (offset + i.size) := by
  have fits := h.fits
  apply Array.ext_getElem?
  intro k
  rw [List.getElem?_toArray, Image.codeBytes_eq h.built.roomy, List.getElem?_map,
    Array.getElem?_extract]
  by_cases inside : k < i.size
  · rw [List.getElem?_range inside, if_pos (by omega),
      Emulator.getElem?_code setup sized (by omega), Option.map_some, Image.cell, h.code k inside]
    rfl
  · rw [List.getElem?_eq_none (by rw [List.length_range]; omega), if_neg (by omega)]
    rfl

end Device

namespace Job

open Text

variable {σ : Type} {s : Session σ} {c : Console} {i : Image} {folder : Folder}

theorem result_writeFile {path : String} {content : ByteArray}
    (writes : c.folder.write path content = .ok folder) (s : Session σ) :
    (ofTask (.writeFile path content .done) : Job σ (Except FileFault Unit)).result s c =
      ((.ok (.ok ()), s), { c with folder }) := by
  change Task.runIn (.writeFile path content fun r => .done (Except.ok r, s)) c = _
  rw [Task.runIn, writes]
  rfl

theorem result_read_bare [Link σ] {output : String} {offset size : Nat} {eeprom : Bool}
    (read : (s.readAll offset size eeprom).1 = .ok i) (bare : Paths.isHex output = false)
    (writes : c.folder.write output ⟨i.codeBytes.toArray⟩ = .ok folder) :
    (Job.read output offset size eeprom).result s c =
      ((.ok (), (s.readAll offset size eeprom).2),
        { c with
          folder
          out := c.out
            ++ ("Read " ++ decimal i.size ++ " code bytes from 0x" ++ hex 6 i.origin) ++ "\n"
            ++ ("Wrote " ++ decimal i.codeBytes.length ++ " bytes to " ++ quoted output)
            ++ "\n" }) := by
  have ended := result_onSession_ok (f := (·.readAll offset size eeprom)) read c
  let told : Console := { c with
    out := c.out ++ ("Read " ++ decimal i.size ++ " code bytes from 0x" ++ hex 6 i.origin)
      ++ "\n" }
  have written := result_writeFile (c := told) writes (s.readAll offset size eeprom).2
  rw [Job.read, result_bind_ok _ ended, result_bind_ok _ (result_print _ _ _), bare,
    if_neg Bool.false_ne_true]
  exact result_bind_ok _ written

end Job

namespace Session

open Emulator Procedure

theorem readCode_refused {σ : Type} [Link σ] {s : Session σ} {d : Device} {offset size : Nat}
    {e : Fault} (identified : s.device? = some d)
    (refused : d.readCode offset size = ExceptT.mk (pure (.error e))) :
    (s.readCode offset size).1 = .error e ∧
      (s.onRecord.after (.readCode offset size)).link = ⟨s.link, []⟩ := by
  obtain ⟨value, link, -⟩ := onDevice_outcome identified (·.readCode offset size)
  rw [refused] at value link
  have asked := s.onRecord_after (.readCode offset size)
  simp only [identified, Call.procedure, Call.working, refused] at asked
  exact ⟨value, asked.trans (congrArg (Answered.mk · []) link)⟩

/-- In any state of a part, an odd bound is refused, and so is a range that is empty or not inside
the part, both unsent. Else just the bytes in the range are read, to an image and to a bare file. -/
theorem readCode_exact {s : Session Emulator} {d : Device}
    (known : (d.family, d.part) ∈ Family.knownParts) (emulates : s.link.setup.Emulates d.part)
    (sized : s.link.code.size = d.part.codeSize) (identified : s.device? = some d)
    (offset size : Nat) :
    ((s.readCode offset size).1 = .error .misaligned ↔ ¬ (offset % 2 = 0 ∧ size % 2 = 0)) ∧
    ((s.readCode offset size).1 = .error (.outOfRange offset size d.part.codeSize) ↔
      (offset % 2 = 0 ∧ size % 2 = 0) ∧
        (size = 0 ∧ d.part.codeSize ≤ offset ∨ d.part.codeSize < offset + size)) ∧
    (∀ e, (s.readCode offset size).1 = .error e →
      (e = .misaligned ∨ e = .outOfRange offset size d.part.codeSize) ∧
        (s.onRecord.after (.readCode offset size)).link = ⟨s.link, []⟩) ∧
    ∀ n, n = (if size = 0 then d.part.codeSize - offset else size) →
      offset % 2 = 0 ∧ size % 2 = 0 →
      ¬ (size = 0 ∧ d.part.codeSize ≤ offset ∨ d.part.codeSize < offset + size) →
      offset + n ≤ d.part.codeSize ∧
      (∃ i, (s.readCode offset size).1 = .ok i ∧ i.origin = offset ∧ i.capacity = n ∧
        i.size = n ∧ i.eeprom = #[] ∧ (∀ o, i.configAt? o = none) ∧
        ∀ k < n, i.byteAt? k = s.link.code[offset + k]?) ∧
      ∀ output eeprom c folder, Paths.isHex output = false →
        c.folder.write output ⟨s.link.code.extract offset (offset + n)⟩ = .ok folder →
        ((Job.read output offset size eeprom).result s c).1.1 = .ok () ∧
          ((Job.read output offset size eeprom).result s c).2.folder = folder := by
  have suited := emulates.suited known
  have setup : s.link.setup.codeSize = d.part.codeSize := suited.codeSize
  by_cases aligned : offset % 2 = 0 ∧ size % 2 = 0
  · by_cases outside : d.Outside offset size
    · obtain ⟨value, asked⟩ := readCode_refused identified
        (Device.readCode_of_outside aligned.1 aligned.2 outside)
      rw [value]
      refine ⟨iff_of_false (fun same => by cases same) (not_not.mpr aligned),
        iff_of_true rfl ⟨aligned, outside⟩,
        fun e failed => ⟨.inr (Except.error.inj failed).symm, asked⟩, ?_⟩
      exact fun _ _ _ inside => absurd outside inside
    · obtain ⟨i, read, origin, capacity, length, eeprom, config, bytes⟩ :=
        Device.codeRead_inside (m := s.link) suited aligned.1 aligned.2 outside
      have value := (readCode_eq suited identified offset size).trans read
      have fits := (Device.recorded_codeRead suited read).fits
      rw [length] at fits
      rw [value]
      refine ⟨iff_of_false (fun same => by cases same) (not_not.mpr aligned),
        iff_of_false (fun same => by cases same) fun past => outside past.2,
        fun e failed => (by cases failed), ?_⟩
      rintro n rfl - -
      refine ⟨fits, ⟨i, rfl, origin, capacity, length, eeprom, fun o => ?_, fun k hk => ?_⟩, ?_⟩
      · rw [Image.configAt?, config, Vector.getElem?_replicate]
        split <;> rfl
      · have inside : offset + k < d.part.codeSize :=
          Nat.lt_of_lt_of_le (Nat.add_lt_add_left hk offset) fits
        rw [bytes k hk, Emulator.getElem?_code setup sized inside]
      · intro output eeprom c folder bare writes
        obtain ⟨j, whole, same⟩ := Device.exists_wholeRead suited read eeprom
        have recorded := Device.recorded_wholeRead suited whole
        have code := recorded.codeBytes setup sized
        rw [same, length] at code
        have all := (readAll_eq suited identified offset size eeprom).1.trans whole
        rw [Job.result_read_bare all bare (by rw [code]; exact writes)]
        exact ⟨rfl, rfl⟩
  · have odd : offset % 2 ≠ 0 ∨ size % 2 ≠ 0 := by omega
    obtain ⟨value, asked⟩ := readCode_refused identified (Device.readCode_of_odd odd)
    rw [value]
    refine ⟨iff_of_true rfl aligned, iff_of_false (fun same => by cases same)
      fun past => aligned past.1, fun e failed => ⟨.inl (Except.error.inj failed).symm, asked⟩, ?_⟩
    exact fun _ _ even => absurd even aligned

/-- An odd offset, the end of the part, and the last two words, to an image and to a bare file. -/
theorem readCode_exact_lastWords :
    (onPic18f452.readCode 1 2).1 = .error .misaligned ∧
      (onPic18f452.readCode 32768 0).1 = .error (.outOfRange 32768 0 32768) ∧
      (onPic18f452.onRecord.after (.readCode 32768 0)).link = ⟨onPic18f452.link, []⟩ ∧
      (∃ i, (onPic18f452.readCode 32764 0).1 = .ok i ∧ i.size = 4 ∧ i.byteAt? 3 = some 0) ∧
      ((Job.read "code.bin" 32764 0 true).result onPic18f452 ⟨{}, "", ""⟩).2.folder.files =
        [(["code.bin"], ⟨#[0, 0, 0, 0]⟩)] := by
  have held : onPic18f452.link.code = Array.replicate 32768 0 := rfl
  have exact := readCode_exact (s := onPic18f452) (d := .pic18f452) Part.pic18f452_mem_knownParts
    Setup.emulates_pic18f452 (by rw [held]; exact Array.size_replicate) device?_onPic18f452
  have odd := (exact 1 2).1.mpr (by decide)
  obtain ⟨-, outside, unsent, -⟩ := exact 32768 0
  have refused := outside.mpr ⟨by decide, .inl ⟨rfl, Nat.le_refl _⟩⟩
  obtain ⟨-, -, -, inside⟩ := exact 32764 0
  obtain ⟨-, ⟨i, read, -, -, size, -, -, bytes⟩, written⟩ := inside 4 rfl (by decide) (by decide)
  have last : i.byteAt? 3 = some 0 := by
    rw [bytes 3 (by decide), held, Array.getElem?_replicate, if_pos (by decide)]
  have code : onPic18f452.link.code.extract 32764 (32764 + 4) = #[0, 0, 0, 0] := by
    rw [held, Array.extract_replicate]
    rfl
  have wrote (content : ByteArray) : ({} : Folder).write "code.bin" content =
      .ok { files := [(["code.bin"], content)] } := rfl
  obtain ⟨-, file⟩ := written "code.bin" true ⟨{}, "", ""⟩ _ (by decide) (wrote _)
  rw [code] at file
  exact ⟨odd, refused, (unsent _ refused).2, ⟨i, read, size, last⟩, congrArg Folder.files file⟩

end Session

end InCircuit
