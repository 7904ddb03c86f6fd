import InCircuit.Proofs.Emulator.Journal

set_option autoImplicit false

/-!
# Reads that leave the part alone

A read asks for nothing that could start, load or run a cycle, whatever it is answered. So it may
begin in any state of the part and be cut off anywhere: only the working registers change.
-/
namespace InCircuit

def Transfer.isHarmless (t : Transfer) : Bool :=
  match t.effect with
  | .execute i => ! i.startsWrite
  | .latch _ _ | .hold _ => false
  | .quiet => true

theorem Transfer.isHarmless_instruction {i : Instruction} (h : i.startsWrite = false) :
    (transmit .coreInstruction i.encode).isHarmless = true := by
  simp only [isHarmless, effect, Instruction.decode_encode, h]
  rfl

theorem Emulator.held_clock {t : Transfer} (h : t.isHarmless = true) (m : Emulator) :
    (Link.clock t m).2.held = m.held := by
  have done := does_clock m t
  rw [Transfer.isHarmless] at h
  generalize t.effect = effect at done h
  generalize (Link.clock t m).2 = n at done
  cases done with
  | execute i => exact held_execute m i (by simpa using h)
  | quiet pointer tablat => rfl
  | latch | arm | cycle | wipe | pass => cases h

/-- A link to a part. Each transfer reaches the part or does not, and the answer may be anything. -/
def Link.Reaches {σ : Type} [Link σ] (part : σ → Emulator) : Prop :=
  ∀ t l, part (Link.clock t l).2 = part l ∨ part (Link.clock t l).2 = (Link.clock t (part l)).2

theorem Lossy.reaches : Link.Reaches fun l : Lossy Emulator => l.target := by
  intro t l
  cases lost : l.isLost with
  | true => exact .inl (clock_of_lost lost t).2
  | false => exact .inr (clock_of_not_lost lost t).2

namespace Procedure

variable {σ ε α β : Type} {P : Transfer → Prop}

/-- Whatever is answered, every transfer that is asked for has `P`. -/
def Asks (P : Transfer → Prop) : Procedure ε α → Prop
  | done _ => True
  | emit _ next => next.Asks P
  | clock t next => P t ∧ ∀ reply, (next reply).Asks P

theorem Asks.bind {p : Procedure ε α} {f : α → Procedure ε β} (h : p.Asks P)
    (next : ∀ a, (f a).Asks P) : (p >>= f).Asks P := by
  induction p with
  | done a => exact next a
  | emit e rest ih => exact ih h
  | clock t rest ih => exact ⟨h.1, fun reply => ih reply (h.2 reply)⟩

theorem asks_tracked {p : Procedure Mark α} (h : p.Asks P) (t : Tracker) :
    (p.tracked t).Asks P := by
  induction p generalizing t with
  | done a => trivial
  | emit e next ih =>
    simp only [tracked]
    split <;> exact ih h _
  | clock x next ih => exact ⟨h.1, fun reply => ih reply (h.2 reply) t⟩

theorem Asks.invariant [Link σ] {I : σ → Prop} {p : Procedure ε α} (h : p.Asks P)
    (step : ∀ t l, P t → I l → I (Link.clock t l).2) {l : σ} (start : I l) : I (p.outcome l).2 := by
  induction p generalizing l with
  | done a => exact start
  | emit e next ih => exact ih h start
  | clock t next ih => exact ih _ (h.2 _) (step t l h.1 start)

def Harmless (p : Procedure ε α) : Prop := p.Asks (·.isHarmless = true)

theorem Harmless.held_outcome [Link σ] {part : σ → Emulator} (reaches : Link.Reaches part)
    {p : Procedure ε α} (h : p.Harmless) (l : σ) : (part (p.outcome l).2).held = (part l).held := by
  refine h.invariant (I := fun k => (part k).held = (part l).held) (fun t k harmless same => ?_) rfl
  obtain still | moved := reaches t k
  · rw [still, same]
  · rw [moved, Emulator.held_clock harmless, same]

end Procedure

namespace Routine

open Procedure

variable {ε α β : Type}

def Harmless (r : Routine ε α) : Prop := r.run.Harmless

theorem Harmless.bind {r : Routine ε α} {f : α → Routine ε β} (h : Harmless r)
    (next : ∀ a, Harmless (f a)) : Harmless (r >>= f) := by
  refine Asks.bind (f := ExceptT.bindCont f) h ?_
  rintro (e | a)
  · trivial
  · exact next a

theorem Harmless.tracked {r : Routine Mark α} (h : Harmless r) (t : Tracker) :
    Harmless (r.tracked t) :=
  asks_tracked h t

theorem harmless_mk (v : Except Fault α) : Harmless (ExceptT.mk (pure v) : Routine ε α) := trivial

theorem harmless_emit (e : ε) : Harmless (emit e) := trivial

theorem harmless_clock {t : Transfer} (h : t.isHarmless = true) :
    Harmless (clock t : Routine ε UInt8) :=
  ⟨h, fun _ => trivial⟩

theorem harmless_execute {i : Instruction} (h : i.startsWrite = false) :
    Harmless (execute i : Routine ε Unit) :=
  (harmless_clock (Transfer.isHarmless_instruction h)).bind fun _ => harmless_mk _

theorem harmless_executeAll {is : List Instruction} (h : ∀ i ∈ is, i.startsWrite = false) :
    Harmless (executeAll is : Routine ε Unit) := by
  induction is with
  | nil => exact harmless_mk _
  | cons i is ih =>
    exact (harmless_execute (h i List.mem_cons_self)).bind fun _ =>
      ih fun j hj => h j (List.mem_cons_of_mem i hj)

theorem harmless_load (r : Register) (value : UInt8) :
    Harmless (load r value : Routine ε Unit) :=
  (harmless_execute rfl).bind fun _ => harmless_execute rfl

theorem harmless_setPointer (address : Nat) : Harmless (setPointer address : Routine ε Unit) := by
  unfold setPointer
  split
  · exact harmless_mk _
  · exact (harmless_load _ _).bind fun _ => (harmless_load _ _).bind fun _ => harmless_load _ _

theorem harmless_nextByte : Harmless (nextByte : Routine ε UInt8) := harmless_clock rfl

theorem harmless_fetchDeviceId : Harmless (fetchDeviceId : Routine ε UInt16) :=
  (harmless_setPointer _).bind fun _ => harmless_nextByte.bind fun _ =>
    harmless_nextByte.bind fun _ => harmless_mk _

theorem harmless_readWords (count : Nat) (bytes : Array UInt8) :
    Harmless (readWords count bytes) := by
  induction count generalizing bytes with
  | zero => exact harmless_mk _
  | succ count ih =>
    exact harmless_nextByte.bind fun _ => harmless_nextByte.bind fun _ =>
      (harmless_emit _).bind fun _ => ih _

theorem harmless_readCode (d : Device) (offset size : Nat) : Harmless (readCode d offset size) := by
  unfold readCode
  split
  · exact harmless_mk _
  · exact (harmless_mk _).bind fun _ => (harmless_mk _).bind fun _ =>
      (harmless_setPointer _).bind fun _ => (harmless_emit _).bind fun _ =>
      (harmless_readWords _ _).bind fun _ => (harmless_emit _).bind fun _ => harmless_mk _

theorem harmless_readConfigFrom (count offset : Nat) (i : Image) :
    (readConfigFrom count offset i : Procedure ε _).Harmless := by
  induction count generalizing offset i with
  | zero => trivial
  | succ count ih =>
    refine Asks.bind (harmless_nextByte (ε := ε)) ?_
    rintro (e | b)
    · trivial
    · cases put : i.putConfig offset b with
      | error e =>
        simp only [put]
        trivial
      | ok j =>
        simp only [put]
        exact ih _ _

theorem harmless_fillConfig (d : Device) (i : Image) :
    (fillConfig d i : Procedure ε _).Harmless := by
  refine Asks.bind (harmless_setPointer (ε := ε) d.part.configAddress) ?_
  rintro (e | u)
  · trivial
  · exact harmless_readConfigFrom _ _ _

theorem harmless_readConfig (d : Device) (i : Image) :
    Harmless (readConfig d i : Routine ε Image) :=
  Asks.bind (harmless_fillConfig d i) fun _ => trivial

theorem harmless_readEepromFrom (count address : Nat) (bytes : Array UInt8) :
    Harmless (readEepromFrom count address bytes) := by
  induction count generalizing address bytes with
  | zero => exact harmless_mk _
  | succ count ih =>
    exact ((harmless_load _ _).bind fun _ => harmless_load _ _).bind fun _ =>
      (harmless_executeAll (by decide)).bind fun _ => (harmless_clock rfl).bind fun _ =>
      (harmless_emit _).bind fun _ => ih _ _

theorem harmless_scanEeprom (p : Part) : Harmless (scanEeprom p) :=
  (harmless_executeAll (by decide)).bind fun _ => (harmless_emit _).bind fun _ =>
    (harmless_readEepromFrom _ _ _).bind fun _ => (harmless_emit _).bind fun _ => harmless_mk _

end Routine

namespace Device

open Routine

theorem harmless_identify : Harmless identify :=
  harmless_fetchDeviceId.bind fun _ => harmless_mk _

variable (d : Device)

theorem harmless_readCode (offset size : Nat) : Harmless (d.readCode offset size) :=
  (Routine.harmless_readCode d offset size).tracked _

theorem harmless_readEeprom (i : Image) : Harmless (d.readEeprom i) := by
  rw [readEeprom_eq]
  exact ((harmless_scanEeprom d.part).bind fun _ => harmless_mk _).tracked _

theorem harmless_readAll (offset size : Nat) (eeprom : Bool) :
    Harmless (d.readAll offset size eeprom) := by
  refine (d.harmless_readCode offset size).bind fun i => (harmless_readConfig d i).bind fun i => ?_
  split
  · exact d.harmless_readEeprom i
  · exact harmless_mk _

theorem harmless_verify (source : Image) : Harmless (d.verify source) := by
  have finish (readback : Image) : Harmless (d.finishVerify source readback) := by
    unfold finishVerify
    split
    · exact harmless_mk _
    · exact (harmless_readConfig d readback).bind fun _ => harmless_mk _
  rw [verify_eq_finish]
  split
  · exact finish _
  · exact (d.harmless_readCode _ _).bind finish

end Device

namespace Call

def isRead : Call → Bool
  | deviceId | identify | readCode _ _ | readConfigInto _ | readEepromInto _ | readAll _ _ _
  | verify _ => true
  | _ => false

theorem harmless_procedure {c : Call} (reads : c.isRead = true) (device? : Option Device) :
    (c.procedure device?).Harmless := by
  have works {α : Type} {d : Device} {p : Procedure Report α} (h : p.Harmless) :
      (working d p).Harmless := h.bind fun _ => trivial
  have fills {d : Device} {p : Procedure Report (Except Fault Unit × Image)}
      (h : (Routine.filled p).Harmless) : (working d p).Harmless :=
    working_filled d p ▸ works h
  have fetched : (deviceId.procedure device?).Harmless :=
    Procedure.Asks.bind Routine.harmless_fetchDeviceId fun _ => trivial
  have identified : (identify.procedure device?).Harmless := by
    refine Procedure.Asks.bind Device.harmless_identify ?_
    rintro (e | d) <;> trivial
  cases device? with
  | none =>
    cases c with
    | deviceId => exact fetched
    | identify => exact identified
    | _ => trivial
  | some d =>
    cases c with
    | deviceId => exact fetched
    | identify => exact identified
    | readCode offset size => exact works (d.harmless_readCode offset size)
    | readConfigInto i => exact fills (Routine.harmless_readConfig d i)
    | readEepromInto i => exact fills (d.harmless_readEeprom i)
    | readAll offset size eeprom => exact works (d.harmless_readAll offset size eeprom)
    | verify source => exact works (d.harmless_verify source)
    | _ => cases reads

end Call

namespace Session

variable {σ : Type} [Link σ] {part : σ → Emulator}

theorem held_after (reaches : Link.Reaches part) {c : Call} (reads : c.isRead = true)
    (s : Session σ) : (part (s.after c).link).held = (part s.link).held := by
  rw [(s.after_outcome c).1]
  exact (Call.harmless_procedure reads s.device?).held_outcome reaches s.link

/-- Reads change nothing in the part but its working registers, whatever state they find it in,
however the link fails, and whether they succeed or not. -/
theorem reads_leave_part (reaches : Link.Reaches part) (calls : List Call)
    (reads : ∀ c ∈ calls, c.isRead = true) (s : Session σ) :
    (part (s.afterAll calls).link).held = (part s.link).held := by
  induction calls generalizing s with
  | nil => rfl
  | cons c calls ih =>
    have first := held_after reaches (reads c List.mem_cons_self) s
    exact (ih (fun d hd => reads d (List.mem_cons_of_mem c hd)) (s.after c)).trans first

end Session

/-- A part in the middle of everything: a row erase is chosen, a cycle armed with both latches
loaded, the bulk erase keyed and an EEPROM write unlocked. -/
def Emulator.midway : Emulator :=
  { powerUp .pic18f452 (.zeroed .pic18f452) with
    pointer := 0x10
    eecon1 := 0x94
    unlock := .both
    eraseKeyLow := 0x80
    latch := ({} : Std.TreeMap Nat UInt8).insert 0 0x12
    configLatch := ({} : Std.TreeMap Nat UInt8).insert 0x300001 0x0E
    armed := some 0x10 }

/-- The link is lost while the EEPROM is read, and stays lost. -/
theorem Session.reads_leave_part_midway :
    let s : Session (Lossy Emulator) :=
      { link := ⟨.midway, some 40, 0⟩, device? := some .pic18f452 }
    let calls : List Call := [.identify, .readEepromInto (.blank 0 0), .verify (.blank 0 0)]
    (∀ c ∈ calls, c.isRead = true) ∧ (s.afterAll calls).link.target.held = Emulator.midway.held ∧
      (s.identify.2.readEepromInto (.blank 0 0)).1.1 = .error .linkFailure :=
  ⟨by decide, reads_leave_part Lossy.reaches _ (by decide) _, by rfl⟩

end InCircuit
