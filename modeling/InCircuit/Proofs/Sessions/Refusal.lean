import InCircuit.Proofs.Faults
import InCircuit.Proofs.Sessions
import InCircuit.Proofs.Writing

set_option autoImplicit false

/-!
# Refused writes

A write refuses an image that does not fit the part before it asks for a transfer. It refuses an
odd origin as well, but only after the part has been erased.
-/
namespace InCircuit

namespace Family

theorem mem_knownParts_of_find {f : Family} {id : UInt16} {p : Part} (h : f.find id = .ok p) :
    (f, p) ∈ knownParts := by
  unfold find at h
  split at h
  · rename_i q found
    injection h with h
    subst h
    refine List.mem_flatMap.mpr ⟨f, by cases f <;> decide, ?_⟩
    exact List.mem_map.mpr ⟨q, List.mem_of_find?_eq_some found, rfl⟩
  · cases h

end Family

namespace Device

open Procedure Routine

theorem mem_knownParts_of_ofId {id : UInt16} {d : Device} (h : ofId id = .ok d) :
    (d.family, d.part) ∈ Family.knownParts := by
  unfold ofId at h
  split at h
  · rename_i f _
    unfold Device.bind at h
    cases hp : f.find id with
    | error e =>
      rw [hp] at h
      cases h
    | ok p =>
      rw [hp] at h
      injection h with h
      subst h
      exact Family.mem_knownParts_of_find hp
  · cases h

theorem suited_of_mem_knownParts {d : Device} (h : (d.family, d.part) ∈ Family.knownParts) :
    Suited d.part ((Setup.ofPart d.part).withRevision 0) :=
  Setup.Emulates.suited ⟨0, 2, false, rfl⟩ h

variable {σ : Type} [Link σ] {d : Device} {i : Image}

theorem along_identify (m : σ) :
    identify.run.Along (fun _ => True)
      (fun v _ => ∀ d, v = .ok d → (d.family, d.part) ∈ Family.knownParts) m := by
  refine (along_bind fetchDeviceId.run _ m _ _).mpr (along_of_forall _ ?_ m)
  rintro (e | id) n d h
  · cases h
  · exact mem_knownParts_of_ofId h

theorem write_of_not_fits (h : d.part.codeSize < i.origin + 2 * i.words) (mode : EraseMode) :
    (d.write i mode).run =
      .done (.error (.outOfRange i.origin (2 * i.words) d.part.codeSize)) := by
  have refused : d.requireRoom i =
      .error (.outOfRange i.origin (2 * i.words) d.part.codeSize) := if_pos h
  unfold write
  rw [refused]
  rfl

theorem exchanges_write (fits : i.origin + 2 * i.words ≤ d.part.codeSize) (mode : EraseMode)
    (m : σ) :
    ∃ rest, (d.write i mode).run.exchanges m = (d.erase mode).run.exchanges m ++ rest := by
  unfold write
  rw [requireRoom_eq_ok.mpr fits]
  exact ⟨_, exchanges_bind (d.erase mode).run _ m⟩

theorem exchanges_erase_ne_nil (mode : EraseMode) (m : σ) :
    (d.erase mode).run.exchanges m ≠ [] := by
  obtain ⟨id, part, family⟩ := d
  cases mode <;> cases family <;> exact List.cons_ne_nil _ _

end Device

namespace Session

open Procedure

variable {σ : Type} [Link σ] {d : Device} {i : Image}

def Sound (device? : Option Device) : Prop :=
  ∀ d, device? = some d → (d.family, d.part) ∈ Family.knownParts

theorem sound_none : Sound none := fun d h => absurd h.symm (Option.some_ne_none d)

theorem sound_procedure {device? : Option Device} (h : Sound device?) (c : Call) (m : σ) :
    Sound ((c.procedure device?).outcome m).1 := by
  have works {α : Type} {d : Device} (hd : device? = some d) (q : Procedure Report α) :
      Sound ((Call.working d q).outcome m).1 := by
    rw [Call.working, outcome_bind]
    intro d' hd'
    exact h d' (hd.trans hd')
  have read : Sound ((Call.deviceId.procedure device?).outcome m).1 := by
    rw [Call.procedure, outcome_bind]
    exact h
  have identified : Sound ((Call.identify.procedure device?).outcome m).1 := by
    have known := (Device.along_identify m).outcome
    rw [Call.procedure, outcome_bind]
    cases hv : (Device.identify.run.outcome m).1 with
    | ok d =>
      intro d' hd'
      rw [← Option.some.inj hd']
      exact known d hv
    | error e => exact sound_none
  cases device? with
  | none =>
    cases c with
    | deviceId => exact read
    | identify => exact identified
    | _ => exact sound_none
  | some d =>
    cases c with
    | deviceId => exact read
    | identify => exact identified
    | report sink => exact h
    | reopen => exact sound_none
    | _ => exact works rfl _

theorem Follows.sound {s : Session σ} {link : σ} (follows : s.Follows link) : Sound s.device? := by
  obtain ⟨calls, rfl⟩ := follows
  have all : ∀ s : Session σ, Sound s.device? → Sound (s.afterAll calls).device? := by
    induction calls with
    | nil => exact fun _ h => h
    | cons c calls ih =>
      intro s h
      refine ih (s.after c) ?_
      rw [(s.after_outcome c).2]
      exact sound_procedure h c s.link
  exact all { link } sound_none

/-- While no transfer fails, a write refuses just the images that do not fit and those with an odd
origin. The former cost no transfer, the latter the erasure of the part. -/
theorem write_refused_iff {s : Session σ} {link : σ} (follows : s.Follows link)
    (bound : s.device? = some d) (mode : EraseMode)
    (carried : ∀ x ∈ (d.write i mode).run.exchanges s.link, ∃ b, x.2 = .ok b) :
    (((s.write i mode).1 = .error .misaligned ∨
        ∃ offset length capacity,
          (s.write i mode).1 = .error (.doesNotFit offset length capacity)) ↔
      d.part.codeSize < i.origin + 2 * i.words ∨ i.origin % 2 = 1) ∧
      (d.part.codeSize < i.origin + 2 * i.words →
        (d.write i mode).run.exchanges s.link = [] ∧ (s.write i mode).2.link = s.link) ∧
      (i.origin + 2 * i.words ≤ d.part.codeSize → i.origin % 2 = 1 →
        (d.erase mode).run.exchanges s.link ≠ [] ∧
          ∃ rest, (d.write i mode).run.exchanges s.link =
            (d.erase mode).run.exchanges s.link ++ rest) := by
  have suited := Device.suited_of_mem_knownParts (follows.sound d bound)
  obtain ⟨value, ran, _⟩ := onDevice_outcome bound (·.write i mode)
  change (s.write i mode).1 = _ at value
  change (s.write i mode).2.link = _ at ran
  refine ⟨⟨fun refused => ?_, fun cause => ?_⟩, fun large => ?_, fun fits _ => ?_⟩
  · rw [value] at refused
    by_cases large : d.part.codeSize < i.origin + 2 * i.words
    · exact Or.inl large
    · by_cases even : i.origin % 2 = 0
      · obtain ⟨u, ok⟩ := (Device.sure_write suited even (by omega) mode).outcome s.link carried
        rw [ok] at refused
        obtain h | ⟨_, _, _, h⟩ := refused <;> cases h
      · exact Or.inr (by omega)
  · rw [value]
    by_cases large : d.part.codeSize < i.origin + 2 * i.words
    · rw [Device.write_of_not_fits large]
      exact Or.inr ⟨_, _, _, rfl⟩
    · have odd : i.origin % 2 ≠ 0 := by omega
      exact Or.inl ((Device.ends_write_odd suited odd (by omega) mode).outcome s.link carried)
  · have asked : (d.write i mode).run.exchanges s.link = [] := by
      rw [Device.write_of_not_fits large]
      rfl
    exact ⟨asked, ran.trans (outcome_link_of_exchanges_eq_nil _ _ asked)⟩
  · exact ⟨Device.exchanges_erase_ne_nil mode s.link, Device.exchanges_write fits mode s.link⟩

/-- An empty image at an odd origin costs the part its contents. -/
theorem write_odd_origin_erases :
    (onPic18f452.write (.blank 0 1) .bulk).1 = .error .misaligned ∧
      ((Device.pic18f452.write (.blank 0 1) .bulk).run.exchanges onPic18f452.link).all (·.2.isOk) ∧
      ((Device.pic18f452.write (.blank 0 1) .bulk).run.exchanges onPic18f452.link).length = 23 ∧
      onPic18f452.link.code[0]? = some 0x00 ∧
      (onPic18f452.write (.blank 0 1) .bulk).2.link.code[0]? = some 0xFF := by
  have rest := follows_onPic18f452.resting Setup.emulates_pic18f452
    Part.pic18f452_mem_knownParts (Memory.sized_zeroed _)
  have drives : Device.pic18f452.Drives .pic18f452 :=
    Setup.emulates_pic18f452.drives Part.pic18f452_mem_knownParts
  obtain ⟨value, ran, _⟩ := onDevice_outcome device?_onPic18f452 (·.write (.blank 0 1) .bulk)
  obtain ⟨refused, memory⟩ := (Device.along_write_odd .bulk drives rest.part
    (i := .blank 0 1) (by decide) (by decide)).outcome
  have before : onPic18f452.link.code = _ := congrArg Memory.code memory_onPic18f452
  have size : onPic18f452.link.memory.code.size = 32768 := rest.part.code
  change (onPic18f452.write (.blank 0 1) .bulk).1 = _ at value
  change (onPic18f452.write (.blank 0 1) .bulk).2.link = _ at ran
  refine ⟨value.trans refused, by decide, by decide, ?_, ?_⟩
  · rw [before]
    exact Array.getElem?_replicate.trans (if_pos (by decide))
  · rw [← ran] at memory
    generalize onPic18f452.write (.blank 0 1) .bulk = w at memory
    have after : w.2.link.code = _ := congrArg Memory.code memory
    rw [after, Device.getElem?_code_erased, size]
    decide

theorem write_refused_iff_odd_origin :
    ((onPic18f452.write (.blank 0 1) .bulk).1 = .error .misaligned ∨
      ∃ offset length capacity,
        (onPic18f452.write (.blank 0 1) .bulk).1 = .error (.doesNotFit offset length capacity)) ∧
      (Device.pic18f452.erase .bulk).run.exchanges onPic18f452.link ≠ [] := by
  have carried : ∀ x ∈ (Device.pic18f452.write (.blank 0 1) .bulk).run.exchanges
      onPic18f452.link, ∃ b, x.2 = .ok b := by
    intro x hx
    have all : ((Device.pic18f452.write (.blank 0 1) .bulk).run.exchanges
      onPic18f452.link).all (·.2.isOk) := by decide
    cases h : x.2 with
    | ok b => exact ⟨b, rfl⟩
    | error e =>
      have := List.all_eq_true.mp all x hx
      rw [h] at this
      cases this
  obtain ⟨refused, _, erased⟩ := write_refused_iff (i := .blank 0 1) follows_onPic18f452
    device?_onPic18f452 .bulk carried
  exact ⟨refused.mpr (Or.inr rfl), (erased (by decide) rfl).1⟩

end Session

end InCircuit
