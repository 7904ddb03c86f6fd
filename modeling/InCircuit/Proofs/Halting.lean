import InCircuit.Proofs.Faults

set_option autoImplicit false

/-!
# Routines that halt at a failure

A transfer that fails ends every routine of the library there and then, with the fault of that
transfer and no other. This holds for every part and every argument, and whatever was answered
before.
-/
namespace InCircuit

namespace Procedure

variable {ε α σ : Type}

theorem Ends.mono {Q R : Except Fault α → Prop} {p : Procedure ε (Except Fault α)} (h : p.Ends Q)
    (hQ : ∀ v, Q v → R v) : p.Ends R := by
  induction p with
  | done v => exact hQ v h
  | emit e next ih => exact ih h
  | clock t next ih => exact ⟨h.1, fun b => ih _ (h.2 b)⟩

theorem Ends.halted [Link σ] {Q : Except Fault α → Prop} {p : Procedure ε (Except Fault α)}
    (h : p.Ends Q) (m : σ) {earlier later : List (Transfer × Except Fault UInt8)} {t : Transfer}
    {e : Fault} (asked : p.exchanges m = earlier ++ (t, .error e) :: later) :
    later = [] ∧ (p.outcome m).1 = .error e := by
  induction p generalizing m earlier with
  | done v => simp [exchanges] at asked
  | emit x next ih => exact ih h m asked
  | clock x next ih =>
    obtain ⟨fails, goes⟩ := h
    simp only [exchanges] at asked
    simp only [Procedure.outcome]
    cases reply : (Link.clock x m).1 with
    | error e' =>
      rw [reply, fails] at asked
      rw [fails]
      cases earlier with
      | nil =>
        obtain ⟨same, rest⟩ := List.cons_eq_cons.mp asked
        obtain rfl := Except.error.inj (Prod.mk.inj same).2
        exact ⟨rest.symm, rfl⟩
      | cons y earlier =>
        have nothing := (List.cons_eq_cons.mp asked).2
        simp [exchanges] at nothing
    | ok b =>
      rw [reply] at asked
      cases earlier with
      | nil =>
        have reply := (Prod.mk.inj (List.cons_eq_cons.mp asked).1).2
        cases reply
      | cons y earlier => exact ih _ (goes b) _ (List.cons_eq_cons.mp asked).2

end Procedure

namespace Routine

open Procedure

variable {ε α β : Type}

/-- A transfer that fails ends the routine with its fault. The routine may have other faults. -/
def Halts (r : Routine ε α) : Prop := r.run.Ends fun _ => True

theorem Sure.halts {r : Routine ε α} (h : Sure r) : Halts r := Ends.mono h fun _ _ => trivial

/-- A routine that only a failed transfer can end early ends with the fault of its last transfer. -/
theorem Sure.failed {σ : Type} [Link σ] {r : Routine ε α} (h : Sure r) {m : σ} {e : Fault}
    (ended : (r.run.outcome m).1 = .error e) :
    ∃ earlier t, r.run.exchanges m = earlier ++ [(t, .error e)] := by
  by_cases carried : ∀ x ∈ r.run.exchanges m, ∃ b, x.2 = .ok b
  · obtain ⟨a, value⟩ := Ends.outcome h m carried
    rw [ended] at value
    cases value
  · obtain ⟨⟨t, reply⟩, not_carried⟩ := Classical.not_forall.mp carried
    obtain ⟨mem, failed⟩ := Classical.not_imp.mp not_carried
    obtain ⟨earlier, later, asked⟩ := List.append_of_mem mem
    cases reply with
    | ok b => exact absurd ⟨b, rfl⟩ failed
    | error e' =>
      obtain ⟨rfl, value⟩ := h.halts.halted m asked
      obtain rfl := Except.error.inj (ended.symm.trans value)
      exact ⟨earlier, t, asked⟩

theorem halts_mk (v : Except Fault α) : Halts (ExceptT.mk (pure v) : Routine ε α) := trivial

theorem Halts.bind {r : Routine ε α} {f : α → Routine ε β} (h : Halts r)
    (next : ∀ a, Halts (f a)) : Halts (r >>= f) :=
  ends_bind h (fun a _ => next a) fun _ _ => trivial

theorem Sure.bind_halts {r : Routine ε α} {f : α → Routine ε β} (h : Sure r)
    (next : ∀ a, Halts (f a)) : Halts (r >>= f) :=
  h.bind_ends next

theorem Halts.tracked {r : Routine Mark α} (h : Halts r) (t : Tracker) : Halts (r.tracked t) :=
  ends_tracked h t

/-- A procedure that goes on after a routine, and has its fault for a result if it has one. -/
theorem Halts.bind_run {r : Routine ε α} {f : Except Fault α → Procedure ε (Except Fault β)}
    (h : Halts r) (fault : ∀ e, f (.error e) = .done (.error e))
    (next : ∀ a, (f (.ok a)).Ends fun _ => True) : (r.run >>= f).Ends fun _ => True := by
  change (Procedure.bind f r.run).Ends _
  unfold Halts at h
  generalize r.run = p at h
  induction p with
  | done v =>
    cases v with
    | ok a => exact next a
    | error e =>
      rw [Procedure.bind, fault]
      trivial
  | emit e next ih => exact ih h
  | clock t next ih =>
    refine ⟨fun e => ?_, fun b => ih _ (h.2 b)⟩
    change Procedure.bind f (next (.error e)) = _
    rw [h.1 e]
    exact fault e

theorem halts_setPointer (address : Nat) : Halts (setPointer address : Routine ε Unit) := by
  by_cases fits : address ≤ Address.last
  · exact (sure_setPointer fits).halts
  · unfold setPointer
    rw [if_pos (by omega)]
    exact halts_mk _

theorem sure_nextByte : Sure (nextByte : Routine ε UInt8) := sure_clock _

theorem halts_fetchDeviceId : Halts (fetchDeviceId : Routine ε UInt16) :=
  (halts_setPointer _).bind fun _ => sure_nextByte.bind_halts fun _ =>
    sure_nextByte.bind_halts fun _ => halts_mk _

/-! ## Erasing and programming -/

theorem halts_erasePagesFrom (page count address : Nat) :
    Halts (erasePagesFrom page count address) := by
  induction count generalizing address with
  | zero => exact halts_mk _
  | succ count ih =>
    exact (sure_executeAll _).bind_halts fun _ => (halts_setPointer _).bind fun _ =>
      (sure_transmit _ _).bind_halts fun _ => sure_postProgram.bind_halts fun _ =>
      (sure_emit _).bind_halts fun _ => ih _

theorem halts_eraseByPage (p : Part) : Halts (eraseByPage p) :=
  (sure_emit _).bind_halts fun _ => (halts_erasePagesFrom _ _ _).bind fun _ => (sure_emit _).halts

theorem halts_blocks (b : Blocks) (i : Image) (count slot : Nat) :
    Halts (b.program i count slot) := by
  induction count generalizing slot with
  | zero => exact halts_mk _
  | succ count ih =>
    exact (halts_setPointer _).bind fun _ => (sure_loadBuffer _).bind_halts fun _ =>
      sure_postProgram.bind_halts fun _ => (sure_emit _).bind_halts fun _ => ih _

theorem halts_programBlocks (p : Part) (i : Image) : Halts (programBlocks p i) := by
  unfold programBlocks
  split
  · exact halts_mk _
  · exact (sure_emit _).bind_halts fun _ => (halts_blocks _ _ _ _).bind fun _ => (sure_emit _).halts

theorem halts_programConfig (p : Part) (i : Image) :
    Halts (programConfig p i : Routine ε Unit) :=
  (sure_executeAll _).bind_halts fun _ => (halts_setPointer _).bind fun _ =>
    (sure_programConfigFrom _ _).halts

/-! ## Reading -/

theorem halts_readWords (count : Nat) (bytes : Array UInt8) : Halts (readWords count bytes) := by
  induction count generalizing bytes with
  | zero => exact halts_mk _
  | succ count ih =>
    exact sure_nextByte.bind_halts fun _ => sure_nextByte.bind_halts fun _ =>
      (sure_emit _).bind_halts fun _ => ih _

theorem halts_readCode (d : Device) (offset size : Nat) : Halts (readCode d offset size) := by
  unfold readCode
  split
  · exact halts_mk _
  · exact (halts_mk _).bind fun _ => (halts_mk _).bind fun _ => (halts_setPointer _).bind fun _ =>
      (sure_emit _).bind_halts fun _ => (halts_readWords _ _).bind fun _ =>
      (sure_emit _).bind_halts fun _ => halts_mk _

theorem halts_readConfigFrom (count offset : Nat) (i : Image) :
    Halts (filled (readConfigFrom count offset i) : Routine ε Image) := by
  change (readConfigFrom count offset i >>= _).Ends _
  induction count generalizing offset i with
  | zero => trivial
  | succ count ih =>
    unfold readConfigFrom
    rw [bind_assoc]
    refine sure_nextByte.halts.bind_run (fun e => rfl) fun b => ?_
    cases put : i.putConfig offset b with
    | error e =>
      simp only [put]
      trivial
    | ok j =>
      simp only [put]
      exact ih _ _

theorem halts_readConfig (d : Device) (i : Image) : Halts (readConfig d i : Routine ε Image) := by
  change (fillConfig d i >>= _).Ends _
  unfold fillConfig
  rw [bind_assoc]
  exact (halts_setPointer _).bind_run (fun e => rfl) fun _ => halts_readConfigFrom _ _ _

theorem Halts.halted_filled {σ : Type} [Link σ] {p : Procedure ε (Except Fault Unit × α)}
    (h : Halts (filled p)) (m : σ) {earlier later : List (Transfer × Except Fault UInt8)}
    {t : Transfer} {e : Fault} (asked : p.exchanges m = earlier ++ (t, .error e) :: later) :
    later = [] ∧ (p.outcome m).1.1 = .error e := by
  rw [← exchanges_filled] at asked
  obtain ⟨nothing, failed⟩ := Ends.halted h m asked
  rw [outcome_filled] at failed
  exact ⟨nothing, map_eq_error.mp failed⟩

/-! ## EEPROM -/

theorem sure_pointEeprom (address : Nat) : Sure (pointEeprom address : Routine ε Unit) :=
  (sure_load _ _).bind fun _ => sure_load _ _

theorem sure_shiftOut : Sure (shiftOut : Routine ε UInt8) := sure_clock _

theorem halts_readEepromFrom (count address : Nat) (bytes : Array UInt8) :
    Halts (readEepromFrom count address bytes) := by
  induction count generalizing address bytes with
  | zero => exact halts_mk _
  | succ count ih =>
    exact (sure_pointEeprom _).bind_halts fun _ => (sure_executeAll _).bind_halts fun _ =>
      sure_shiftOut.bind_halts fun _ => (sure_emit _).bind_halts fun _ => ih _ _

theorem halts_scanEeprom (p : Part) : Halts (scanEeprom p) :=
  (sure_executeAll _).bind_halts fun _ => (sure_emit _).bind_halts fun _ =>
    (halts_readEepromFrom _ _ _).bind fun _ => (sure_emit _).bind_halts fun _ => halts_mk _

theorem halts_waitWritten (tries : Nat) : Halts (waitWritten tries : Routine ε Unit) := by
  induction tries with
  | zero => exact halts_mk _
  | succ tries ih =>
    refine (sure_executeAll _).bind_halts fun _ => sure_shiftOut.bind_halts fun eecon1 => ?_
    split
    · exact (sure_delay _).bind_halts fun _ => ih
    · exact halts_mk _

theorem halts_writeEepromByte (address : Nat) (byte : UInt8) :
    Halts (writeEepromByte address byte : Routine ε Unit) :=
  (sure_pointEeprom _).bind_halts fun _ => (sure_load _ _).bind_halts fun _ =>
    (sure_execute _).bind_halts fun _ => (sure_load _ _).bind_halts fun _ =>
    (sure_load _ _).bind_halts fun _ => (sure_execute _).bind_halts fun _ => halts_waitWritten _

theorem halts_writeEepromFrom (address : Nat) (bytes : List UInt8) :
    Halts (writeEepromFrom address bytes) := by
  induction bytes generalizing address with
  | nil => exact halts_mk _
  | cons b bytes ih =>
    exact (halts_writeEepromByte _ _).bind fun _ => (sure_emit _).bind_halts fun _ => ih _

theorem halts_writeEeprom (p : Part) (i : Image) : Halts (writeEeprom p i) := by
  unfold writeEeprom
  split
  · exact halts_mk _
  · exact (sure_executeAll _).bind_halts fun _ => (sure_emit _).bind_halts fun _ =>
      (halts_writeEepromFrom _ _).bind fun _ => (sure_emit _).bind_halts fun _ =>
      (sure_execute _).halts

end Routine

namespace Family

open Routine

theorem halts_pageErase (f : Family) (p : Part) : Halts (f.pageErase p) := by
  cases f with
  | f2xx => exact f2xx.sure_selectSinglePanel.bind_halts fun _ => halts_eraseByPage p
  | f2xxx =>
    exact f2xxx.sure_enterConfigMode.bind_halts fun _ => (sure_execute _).bind_halts fun _ =>
      (sure_storeWord (by decide) _).bind_halts fun _ => halts_eraseByPage p

theorem halts_programCode (f : Family) (p : Part) (i : Image) : Halts (f.programCode p i) :=
  f.ends_programCode (halts_programBlocks p i)

end Family

namespace Device

open Routine

variable (d : Device) (i : Image)

theorem halts_identify : Halts identify := halts_fetchDeviceId.bind fun _ => halts_mk _

theorem halts_erase (mode : EraseMode) : Halts (d.erase mode) := by
  cases mode with
  | bulk => exact d.family.sure_bulkErase.bind_halts fun _ => (sure_delay _).halts
  | pages => exact (d.family.halts_pageErase d.part).tracked _

theorem halts_programCode : Halts (d.programCode i) :=
  (halts_mk _).bind fun _ => (d.family.halts_programCode d.part i).tracked _

theorem halts_programEeprom : Halts (d.programEeprom i) :=
  (halts_writeEeprom d.part i).tracked _

theorem halts_readCode (offset size : Nat) : Halts (d.readCode offset size) :=
  (Routine.halts_readCode d offset size).tracked _

theorem halts_readEeprom : Halts (d.readEeprom i) := by
  rw [readEeprom_eq]
  exact ((halts_scanEeprom d.part).bind fun _ => halts_mk _).tracked _

theorem halts_readAll (offset size : Nat) (eeprom : Bool) :
    Halts (d.readAll offset size eeprom) := by
  refine (d.halts_readCode _ _).bind fun i => (halts_readConfig d i).bind fun i => ?_
  split
  · exact d.halts_readEeprom i
  · exact halts_mk _

theorem halts_write (mode : EraseMode) : Halts (d.write i mode) :=
  (halts_mk _).bind fun _ => (d.halts_erase mode).bind fun _ =>
    (d.halts_programCode i).bind fun _ => halts_programConfig _ _

theorem halts_verify (source : Image) : Halts (d.verify source) := by
  have finish (readback : Image) : Halts (d.finishVerify source readback) := by
    unfold finishVerify
    split
    · exact halts_mk _
    · exact (halts_readConfig d readback).bind fun _ => halts_mk _
  rw [verify_eq_finish]
  split
  · exact finish _
  · exact (d.halts_readCode _ _).bind finish

end Device

end InCircuit
