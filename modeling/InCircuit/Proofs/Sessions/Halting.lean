import InCircuit.Proofs.Halting
import InCircuit.Proofs.Sessions

set_option autoImplicit false

/-!
# Calls that halt at a failure

A link that keeps its answers puts what a call asks for on record and changes nothing else. A failed
transfer is the last that a call asks for, and its fault is what the call answers.
-/
namespace InCircuit

structure Answered (σ : Type) where
  target : σ
  exchanges : List (Transfer × Except Fault UInt8) := []

namespace Answered

variable {σ ε α : Type} [Link σ]

instance : Link (Answered σ) where
  clock t l :=
    match l with
    | ⟨target, exchanges⟩ =>
      let (reply, target) := Link.clock t target
      (reply, ⟨target, exchanges ++ [(t, reply)]⟩)

theorem outcome_eq (p : Procedure ε α) (l : Answered σ) :
    p.outcome l = ((p.outcome l.target).1,
      ⟨(p.outcome l.target).2, l.exchanges ++ p.exchanges l.target⟩) := by
  induction p generalizing l with
  | done a =>
    change (a, l) = (a, Answered.mk l.target (l.exchanges ++ []))
    rw [List.append_nil]
  | emit e next ih => exact ih l
  | clock t next ih =>
    have rest := ih (Link.clock t l.target).1
      ⟨(Link.clock t l.target).2, l.exchanges ++ [(t, (Link.clock t l.target).1)]⟩
    rw [List.append_assoc] at rest
    exact rest

variable {l : σ} {recorded : Answered σ} {v : Except Fault α}

/-- What was asked for is on record, up to the link `l`. No transfer failed but the last, and then
`v` is its fault. -/
def Halted (l : σ) (recorded : Answered σ) (v : Except Fault α) : Prop :=
  ∃ asked, recorded = ⟨l, asked⟩ ∧
    ∀ earlier t e later, asked = earlier ++ (t, .error e) :: later → later = [] ∧ v = .error e

omit [Link σ] in
theorem halted_of_idle (l : σ) (v : Except Fault α) : Halted l ⟨l, []⟩ v :=
  ⟨[], rfl, fun _ _ _ _ h => by simp at h⟩

theorem halted_of_ends {Q : Except Fault α → Prop} {p : Procedure ε (Except Fault α)}
    (h : p.Ends Q) (l : σ) :
    Halted (p.outcome l).2 (p.outcome (⟨l, []⟩ : Answered σ)).2 (p.outcome l).1 := by
  rw [outcome_eq]
  exact ⟨p.exchanges l, rfl, fun _ _ _ _ asked => h.halted l asked⟩

omit [Link σ] in
theorem Halted.map {β : Type} (h : Halted l recorded v) (f : α → β) :
    Halted l recorded (v.map f) := by
  obtain ⟨asked, kept, halts⟩ := h
  refine ⟨asked, kept, fun earlier t e later shape => ?_⟩
  obtain ⟨nothing, rfl⟩ := halts earlier t e later shape
  exact ⟨nothing, rfl⟩

omit [Link σ] in
theorem Halted.of_map {β : Type} {f : α → β} (h : Halted l recorded (v.map f)) :
    Halted l recorded v := by
  obtain ⟨asked, kept, halts⟩ := h
  refine ⟨asked, kept, fun earlier t e later shape => ?_⟩
  obtain ⟨nothing, failed⟩ := halts earlier t e later shape
  exact ⟨nothing, Procedure.map_eq_error.mp failed⟩

end Answered

namespace Session

open Procedure Answered

variable {σ α : Type} [Link σ]

/-- What a call answers, without what it brings when it succeeds. -/
def answer (s : Session σ) : Call → Except Fault Unit
  | .deviceId => s.deviceId.1.map fun _ => ()
  | .identify => s.identify.1.map fun _ => ()
  | .bulkErase => s.bulkErase.1
  | .pageErase => s.pageErase.1
  | .erase mode => (s.erase mode).1
  | .programCode i => (s.programCode i).1
  | .programConfig i => (s.programConfig i).1
  | .programEeprom i => (s.programEeprom i).1
  | .readCode offset size => (s.readCode offset size).1.map fun _ => ()
  | .readConfigInto i => (s.readConfigInto i).1.1
  | .readEepromInto i => (s.readEepromInto i).1.1
  | .readAll offset size eeprom => (s.readAll offset size eeprom).1.map fun _ => ()
  | .write i mode => (s.write i mode).1
  | .verify source => (s.verify source).1.map fun _ => ()
  | .report _ | .reopen => .ok ()

def onRecord (s : Session σ) : Session (Answered σ) :=
  ⟨⟨s.link, []⟩, s.series, s.device?, s.sink⟩

/-- What a call asks for, and in which order, is a matter of its procedure. -/
theorem onRecord_after (s : Session σ) (c : Call) :
    (s.onRecord.after c).link = ⟨(s.after c).link, (c.procedure s.device?).exchanges s.link⟩ := by
  have recorded := (s.onRecord.after_outcome c).1
  rw [outcome_eq] at recorded
  rw [recorded, (s.after_outcome c).1]
  rfl

theorem halted_perform (s : Session σ) {r : Routine Report α} (h : r.Halts) :
    Halted (s.perform r.run).2.link (s.onRecord.perform r.run).2.link (s.perform r.run).1 := by
  obtain ⟨value, link, _⟩ := s.perform_outcome r.run
  obtain ⟨_, recorded, _⟩ := s.onRecord.perform_outcome r.run
  rw [value, link, recorded]
  exact halted_of_ends h s.link

theorem halted_onDevice (s : Session σ) {r : Device → Routine Report α} (h : ∀ d, (r d).Halts) :
    Halted (s.onDevice r).2.link (s.onRecord.onDevice r).2.link (s.onDevice r).1 := by
  cases hd : s.device? with
  | none =>
    rw [onDevice_none hd, onDevice_none (show s.onRecord.device? = none from hd)]
    exact halted_of_idle _ _
  | some d =>
    rw [onDevice, onDevice, hd, show s.onRecord.device? = some d from hd]
    exact s.halted_perform (h d)

theorem halted_identify (s : Session σ) :
    Halted s.identify.2.link s.onRecord.identify.2.link s.identify.1 := by
  have halted := ({ s with device? := none } : Session σ).halted_perform Device.halts_identify
  change Halted _ (({ s.onRecord with device? := none } : Session (Answered σ)).perform _).2.link _
    at halted
  unfold identify
  generalize ({ s with device? := none } : Session σ).perform Device.identify.run = ran at halted ⊢
  generalize ({ s.onRecord with device? := none } : Session (Answered σ)).perform
    Device.identify.run = recorded at halted ⊢
  obtain ⟨_ | d, s⟩ := ran <;> obtain ⟨_ | d', s'⟩ := recorded <;> exact halted

theorem halted_fillOnDevice (s : Session σ) (i : Image)
    {fill : Device → Image → Procedure Report (Except Fault Unit × Image)}
    (h : ∀ d, (Routine.filled (fill d i)).Halts) :
    Halted (s.fillOnDevice i fill).2.link (s.onRecord.fillOnDevice i fill).2.link
      (s.fillOnDevice i fill).1.1 := by
  cases hd : s.device? with
  | none =>
    rw [fillOnDevice_none hd, fillOnDevice_none (show s.onRecord.device? = none from hd)]
    exact halted_of_idle _ _
  | some d =>
    obtain ⟨value, link, _⟩ := s.perform_outcome (fill d i)
    obtain ⟨_, recorded, _⟩ := s.onRecord.perform_outcome (fill d i)
    have halted := halted_of_ends (h d) s.link
    rw [Routine.outcome_filled, Routine.outcome_filled] at halted
    rw [fillOnDevice_some hd, fillOnDevice_some (show s.onRecord.device? = some d from hd),
      value, link, recorded]
    exact halted.of_map

/-- Over any link and in any state, a transfer that fails is the last of its call, and the call
answers with the fault of that transfer. -/
theorem call_halts (s : Session σ) (c : Call) :
    ∃ asked, (s.onRecord.after c).link = ⟨(s.after c).link, asked⟩ ∧
      ∀ earlier t e later, asked = earlier ++ (t, .error e) :: later →
        later = [] ∧ s.answer c = .error e := by
  change Halted (s.after c).link (s.onRecord.after c).link (s.answer c)
  cases c with
  | deviceId => exact (s.halted_perform Routine.halts_fetchDeviceId).map _
  | identify => exact s.halted_identify.map _
  | bulkErase => exact s.halted_onDevice fun d => d.halts_erase .bulk
  | pageErase => exact s.halted_onDevice fun d => d.halts_erase .pages
  | erase mode => exact s.halted_onDevice fun d => d.halts_erase mode
  | programCode i => exact s.halted_onDevice fun d => d.halts_programCode i
  | programConfig i => exact s.halted_onDevice fun d => Routine.halts_programConfig d.part i
  | programEeprom i => exact s.halted_onDevice fun d => d.halts_programEeprom i
  | readCode offset size => exact (s.halted_onDevice fun d => d.halts_readCode offset size).map _
  | readConfigInto i => exact s.halted_fillOnDevice i fun d => Routine.halts_readConfig d i
  | readEepromInto i => exact s.halted_fillOnDevice i fun d => d.halts_readEeprom i
  | readAll offset size eeprom =>
    exact (s.halted_onDevice fun d => d.halts_readAll offset size eeprom).map _
  | write i mode => exact s.halted_onDevice fun d => d.halts_write i mode
  | verify source => exact (s.halted_onDevice fun d => d.halts_verify source).map _
  | report sink => exact halted_of_idle _ _
  | reopen => exact halted_of_idle _ _

end Session

def Image.eepromByte : Image := { blank 0 0 with eeprom := #[0x5A] }

/-- The link is lost while the part is polled for the second time. -/
theorem Session.call_halts_secondPoll :
    ∃ asked, ((onPic18f452For 29).onRecord.after (.programEeprom .eepromByte)).link =
        ⟨((onPic18f452For 29).after (.programEeprom .eepromByte)).link, asked⟩ ∧
      asked.length = 22 ∧
      (onPic18f452For 29).answer (.programEeprom .eepromByte) = .error .linkFailure := by
  obtain ⟨asked, recorded, halts⟩ := call_halts (onPic18f452For 29) (.programEeprom .eepromByte)
  have count : ((onPic18f452For 29).onRecord.after
      (.programEeprom .eepromByte)).link.exchanges.length = 22 := by decide
  have shape : ((onPic18f452For 29).onRecord.after (.programEeprom .eepromByte)).link.exchanges =
      ((onPic18f452For 29).onRecord.after (.programEeprom .eepromByte)).link.exchanges.dropLast ++
        [(.transmit .coreInstruction Instruction.nop.encode, .error .linkFailure)] := rfl
  rw [recorded] at count shape
  exact ⟨asked, recorded, count, (halts _ _ _ _ shape).2⟩

end InCircuit
