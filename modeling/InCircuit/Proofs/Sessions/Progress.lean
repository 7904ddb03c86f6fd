import InCircuit.Proofs.Reports
import InCircuit.Proofs.Sessions.EepromReading
import InCircuit.Proofs.Sessions.Halting
import InCircuit.Proofs.Sessions.Writing

set_option autoImplicit false

/-!
# What a sink is told

A call that succeeds tells the sink of the session about every part of its work, up to the total. Of
the calls that fail only one tells it of the total: a writing of the EEPROM that has done all but
disable writes.
-/
namespace InCircuit

inductive LongCall where
  | pageErase
  | programCode (i : Image)
  | programEeprom (i : Image)
  | readCode (offset size : Nat)
  | readEepromInto (i : Image)

namespace LongCall

def operation : LongCall → Operation
  | pageErase => .erase
  | programCode _ => .program
  | programEeprom _ => .eepromWrite
  | readCode _ _ => .read
  | readEepromInto _ => .eepromRead

def total (d : Device) : LongCall → Nat
  | pageErase => d.part.codeSize
  | programCode i => i.size
  | programEeprom i => i.eeprom.size
  | readCode offset size => Routine.readTotal d.part offset size
  | readEepromInto _ => d.part.eepromBytes

def granularity (d : Device) : LongCall → Nat
  | pageErase => d.part.erasePage
  | _ => 1024

def step (d : Device) : LongCall → Nat
  | pageErase => d.part.erasePage
  | programCode _ => 2 * d.part.wordsPerWrite
  | readCode _ _ => 2
  | programEeprom _ | readEepromInto _ => 1

end LongCall

theorem Report.told_map {α β : Type} {operation : Operation} {total gap : Nat}
    {v : Except Fault α} {reports : List Report} (f : α → β) :
    Report.Told operation total gap (v.map f) reports ↔
      Report.Told operation total gap v reports := by
  cases v <;> exact Iff.rfl

namespace Session

open Procedure

variable {σ α : Type} [Link σ]

def carryOut (s : Session σ) : LongCall → Except Fault Unit × Session σ
  | .pageErase => s.pageErase
  | .programCode i => s.programCode i
  | .programEeprom i => s.programEeprom i
  | .readCode offset size =>
    ((s.readCode offset size).1.map fun _ => (), (s.readCode offset size).2)
  | .readEepromInto i => ((s.readEepromInto i).1.1, (s.readEepromInto i).2)

variable {s : Session σ} {d : Device} {earlier : Array Report}

theorem sink_perform (attached : s.sink = some earlier) (p : Procedure Report α) :
    (s.perform p).2.sink = some (earlier ++ (p.announced s.link).toArray) := by
  obtain ⟨link, series, device?, sink⟩ := s
  obtain rfl : sink = some earlier := attached
  exact congrArg some (p.run_announced link earlier)

theorem sink_onDevice (identified : s.device? = some d) (attached : s.sink = some earlier)
    (r : Device → Routine Report α) :
    (s.onDevice r).2.sink = some (earlier ++ ((r d).run.announced s.link).toArray) := by
  rw [onDevice, identified]
  exact sink_perform attached _

theorem told_onDevice (identified : s.device? = some d) (attached : s.sink = some earlier)
    {r : Device → Routine Report α} {operation : Operation} {total gap : Nat}
    (told : ∀ m : σ, Report.Told operation total gap ((r d).run.outcome m).1
      ((r d).run.announced m)) :
    ∃ reports : List Report, (s.onDevice r).2.sink = some (earlier ++ reports.toArray) ∧
      Report.Told operation total gap (s.onDevice r).1 reports := by
  refine ⟨_, sink_onDevice identified attached r, ?_⟩
  rw [(onDevice_outcome identified r).1]
  exact told s.link

theorem told_carryOut (known : (d.family, d.part) ∈ Family.knownParts)
    (identified : s.device? = some d) (attached : s.sink = some earlier) (c : LongCall)
    (other : ∀ i, c ≠ .programEeprom i) :
    ∃ reports : List Report, (s.carryOut c).2.sink = some (earlier ++ reports.toArray) ∧
      Report.Told c.operation (c.total d) (c.granularity d + c.step d) (s.carryOut c).1
        reports := by
  cases c with
  | pageErase => exact told_onDevice identified attached (Device.told_pageErase known)
  | programCode i => exact told_onDevice identified attached (Device.told_programCode known i)
  | programEeprom i => exact absurd rfl (other i)
  | readCode offset size =>
    obtain ⟨reports, sink, told⟩ := told_onDevice identified attached
      (r := (·.readCode offset size)) (Device.told_readCode known offset size)
    exact ⟨reports, sink, (Report.told_map _).mpr told⟩
  | readEepromInto i =>
    have told := Device.told_readEeprom known i s.link
    rw [Device.readEeprom, Routine.outcome_filled, Routine.announced_filled, Report.told_map]
      at told
    rw [carryOut, readEepromInto, fillOnDevice_some identified]
    refine ⟨_, sink_perform attached _, ?_⟩
    rw [(s.perform_outcome (d.fillEeprom i)).1]
    exact told

/-- Whatever a call that succeeds has to do, the sink has been told of its start, of its total, and
of enough in between. -/
theorem reports_of_success (known : (d.family, d.part) ∈ Family.knownParts)
    (identified : s.device? = some d) (attached : s.sink = some earlier) (c : LongCall)
    (ok : (s.carryOut c).1 = .ok ()) :
    ∃ reports : List Report, (s.carryOut c).2.sink = some (earlier ++ reports.toArray) ∧
      Report.Complete c.operation (c.total d) (c.granularity d + c.step d) reports := by
  by_cases eeprom : ∃ i, c = .programEeprom i
  · obtain ⟨i, rfl⟩ := eeprom
    refine ⟨_, sink_onDevice identified attached (·.programEeprom i), ?_⟩
    exact Device.complete_programEeprom ((onDevice_outcome identified _).1.symm.trans ok)
  · obtain ⟨reports, sink, told⟩ := told_carryOut known identified attached c (not_exists.mp eeprom)
    rw [ok] at told
    exact ⟨reports, sink, told⟩

def reporting (s : Session σ) : Session σ := { s with sink := some #[] }

/-- Three words read, and three bytes programmed that lie in two blocks. -/
theorem reports_of_success_onPic18f452 :
    (∃ reports : List Report, (onPic18f452.reporting.carryOut (.readCode 2 6)).2.sink =
        some reports.toArray ∧ Report.Complete .read 6 1026 reports) ∧
      ∃ reports : List Report, (onPic18f452.reporting.carryOut (.programCode .threeBytes)).2.sink =
        some reports.toArray ∧ Report.Complete .program 3 1032 reports := by
  have complete (c : LongCall) (ok : (onPic18f452.reporting.carryOut c).1 = .ok ()) :=
    reports_of_success (s := onPic18f452.reporting) (d := .pic18f452)
      Part.pic18f452_mem_knownParts device?_onPic18f452 rfl c ok
  obtain ⟨read, told_read, complete_read⟩ := complete (.readCode 2 6) rfl
  obtain ⟨sent, told_sent, complete_sent⟩ := complete (.programCode .threeBytes) rfl
  rw [Array.empty_append] at told_read told_sent
  exact ⟨⟨read, told_read, complete_read⟩, sent, told_sent, complete_sent⟩

/-- Of the calls that fail, the sink has been told of the total by those alone that have written the
EEPROM and are refused the transfer that disables writes again. -/
theorem reports_of_failure (known : (d.family, d.part) ∈ Family.knownParts)
    (identified : s.device? = some d) (attached : s.sink = some earlier) (c : LongCall)
    (nonzero : c.total d ≠ 0) {e : Fault} (failed : (s.carryOut c).1 = .error e) :
    ∃ reports : List Report, (s.carryOut c).2.sink = some (earlier ++ reports.toArray) ∧
      ((∃ r ∈ reports, r.done = c.total d) ↔
        (∃ i, c = .programEeprom i) ∧ ∃ before, (s.onRecord.carryOut c).2.link =
          ⟨(s.carryOut c).2.link, before ++ [(.instruction .clearWren, .error e)]⟩) := by
  by_cases eeprom : ∃ i, c = .programEeprom i
  · obtain ⟨i, rfl⟩ := eeprom
    have value := (onDevice_outcome identified (·.programEeprom i)).1.symm.trans failed
    have recorded : (s.onRecord.carryOut (.programEeprom i)).2.link =
        ⟨(s.carryOut (.programEeprom i)).2.link, (d.programEeprom i).run.exchanges s.link⟩ := by
      have asked := s.onRecord_after (.programEeprom i)
      rw [identified] at asked
      exact asked.trans (congrArg _ (exchanges_bind_silent _ (fun _ _ => rfl) s.link))
    refine ⟨_, sink_onDevice identified attached (·.programEeprom i), ?_⟩
    rw [recorded]
    refine (Device.incomplete_programEeprom nonzero value).trans ?_
    constructor
    · rintro ⟨before, asked⟩
      exact ⟨⟨i, rfl⟩, before, congrArg _ asked⟩
    · rintro ⟨-, before, asked⟩
      exact ⟨before, congrArg Answered.exchanges asked⟩
  · obtain ⟨reports, sink, told⟩ := told_carryOut known identified attached c (not_exists.mp eeprom)
    rw [failed] at told
    exact ⟨reports, sink, iff_of_false (fun ⟨r, mem, all⟩ => told nonzero r mem all) fun h =>
      eeprom h.1⟩

/-- The link carries all but the last transfer. -/
theorem reports_of_failure_lastTransfer :
    ∃ reports : List Report,
      ((onPic18f452For 36).reporting.carryOut (.programEeprom .eepromByte)).2.sink =
        some reports.toArray ∧ ∃ r ∈ reports, r.done = 1 := by
  have failed : ((onPic18f452For 36).reporting.carryOut (.programEeprom .eepromByte)).1 =
      .error .linkFailure := rfl
  obtain ⟨reports, sink, told⟩ := reports_of_failure (d := .pic18f452)
    Part.pic18f452_mem_knownParts (by decide) rfl (.programEeprom .eepromByte) (by decide) failed
  rw [Array.empty_append] at sink
  exact ⟨reports, sink, told.mpr ⟨⟨_, rfl⟩, ((onPic18f452For 36).reporting.onRecord.carryOut
    (.programEeprom .eepromByte)).2.link.exchanges.dropLast, rfl⟩⟩

/-- The sink hears of the whole of an EEPROM that has a byte, from a call that fails. -/
theorem programEeprom_fails_complete :
    ((onPic18f452For 36).reporting.carryOut (.programEeprom .eepromByte)).1 =
        .error .linkFailure ∧
      ((onPic18f452For 36).reporting.carryOut (.programEeprom .eepromByte)).2.sink =
        some #[⟨.eepromWrite, 0, 1⟩, ⟨.eepromWrite, 1, 1⟩] :=
  ⟨rfl, rfl⟩

end Session

end InCircuit
