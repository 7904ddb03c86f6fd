import InCircuit.Proofs.Marks
import InCircuit.Proofs.Operations
import InCircuit.Proofs.Polling

set_option autoImplicit false

/-!
# What the operations report

An operation that succeeds has reported all of its bytes. One that a fault ends has not reported the
last of them, but for the writing of the EEPROM: it has a transfer to make after its last report.
-/
namespace InCircuit

open Procedure Tracker

def Report.Told {α : Type} (operation : Operation) (total gap : Nat) (v : Except Fault α)
    (reports : List Report) : Prop :=
  match v with
  | .ok _ => Report.Complete operation total gap reports
  | .error _ => total ≠ 0 → ∀ r ∈ reports, r.done ≠ total

namespace Routine

variable {σ α β : Type} [Link σ] {r : Routine Mark α} {t : Tracker} {us : List Nat} {step : Nat}

theorem Tracks.complete (h : Tracks r us) (rises : Rises t.total step 0 us)
    (positive : 0 < t.granularity) {m : σ} {a : α} (ok : (r.run.outcome m).1 = .ok a) :
    Report.Complete t.operation t.total (t.granularity + step)
      (t.reports (r.run.announced m)) := by
  have marks := Emits.outcome h m
  rw [ok] at marks
  rw [marks]
  exact complete_reports rises positive

theorem Tracks.incomplete (h : Tracks r us) (rises : Rises t.total step 0 us) {m : σ} {e : Fault}
    (failed : (r.run.outcome m).1 = .error e) (nonzero : t.total ≠ 0) :
    ∀ x ∈ t.reports (r.run.announced m), x.done ≠ t.total := by
  have marks := Emits.outcome h m
  rw [failed] at marks
  intro x mem
  rcases marks with silent | ⟨before, u, after, rfl, shape⟩
  · rw [silent] at mem
    exact absurd mem List.not_mem_nil
  · rw [shape] at mem
    exact done_of_mem_reports nonzero (rises.below nonzero) mem

theorem Tracks.told (h : Tracks r us) (t : Tracker) (rises : Rises t.total step 0 us)
    (positive : 0 < t.granularity) (m : σ) :
    Report.Told t.operation t.total (t.granularity + step) ((r.tracked t).run.outcome m).1
      ((r.tracked t).run.announced m) := by
  change Report.Told _ _ _ ((r.run.tracked t).outcome m).1 ((r.run.tracked t).announced m)
  rw [outcome_tracked, announced_tracked]
  cases ended : (r.run.outcome m).1 with
  | ok a => exact h.complete rises positive ended
  | error e => exact h.incomplete rises ended

/-! ## Writing the EEPROM -/

def sendEeprom (i : Image) : Routine Mark Unit := do
  enterEepromMode
  emit .start
  writeEepromFrom 0 i.eeprom.toList
  emit .finish

theorem writeEeprom_eq {p : Part} {i : Image} (fits : i.eeprom.size ≤ p.eepromBytes) :
    writeEeprom p i = sendEeprom i >>= fun _ => execute .clearWren := by
  unfold writeEeprom
  rw [if_neg (Nat.not_lt_of_le fits)]
  simp only [sendEeprom, bind_assoc]

theorem tracks_sendEeprom (i : Image) : Tracks (sendEeprom i) (ends i.eeprom.size 1) := by
  have loop := marks_writeEepromFrom 0 i.eeprom.toList
  rw [Array.length_toList, Nat.zero_add, ← ends_one] at loop
  exact (silent_executeAll _).tracks_bind fun _ => loop.tracks fun _ _ => ⟨⟨(), rfl⟩, rfl⟩

theorem halts_sendEeprom (i : Image) : Halts (sendEeprom i) :=
  (sure_executeAll _).bind_halts fun _ => (sure_emit _).bind_halts fun _ =>
    (halts_writeEepromFrom _ _).bind fun _ => (sure_emit _).halts

theorem hears_sendEeprom (i : Image) : Hears (sendEeprom i) fun _ asked _ => ∃ polls,
    asked = [.clearEepgd, .clearCfgs].map Transfer.instruction ++
      Transfer.writes 0 i.eeprom.toList polls := by
  unfold sendEeprom
  refine (sends_executeAll _).hears_bind (Transfer.quiet_instructions _) fun _ => ?_
  refine hears_emit_bind ((hears_writeEepromFrom 0 i.eeprom.toList).bind ?_ ?_)
  · rintro e _ _ ⟨polls, rfl, -⟩
    exact ⟨polls, rfl⟩
  · rintro ⟨⟩ _ _ ⟨polls, rfl, -⟩
    exact (sends_emit _).mono fun _ said sent => ⟨polls, by simp [sent.2]⟩

end Routine

namespace Routine

variable {σ : Type} [Link σ]

theorem ne_clearWren_of_mem_sendEeprom (i : Image) (m : σ)
    {x : Transfer × Except Fault UInt8} (mem : x ∈ (sendEeprom i).run.exchanges m) :
    x.1 ≠ .instruction .clearWren := by
  obtain ⟨_, said, ⟨polls, plan⟩, performs⟩ := Ends.performs (halts_sendEeprom i)
    (hears_sendEeprom i) m
  have planned := performs.mem mem
  rw [plan, List.mem_append] at planned
  rintro same
  rw [same] at planned
  exact planned.elim (by decide) (Transfer.clearWren_not_mem_writes 0 _ _)

theorem run_execute {ε : Type} (c : Instruction) : (execute c : Routine ε Unit).run =
    .clock (.instruction c) fun reply => .done (reply.map fun _ => ()) := by
  refine congrArg (Procedure.clock _) (funext fun reply => ?_)
  cases reply <;> rfl

/-- A run goes on with an instruction, unless a fault has ended it. There are no more events. -/
theorem bind_execute_ended {ε : Type} (r : Routine ε Unit) (c : Instruction) (m : σ) :
    (r >>= fun _ => execute c).run.announced m = r.run.announced m ∧
    ((∃ reply : Except Fault UInt8, (r.run.outcome m).1 = .ok () ∧
        ((r >>= fun _ => execute c).run.outcome m).1 = reply.map (fun _ => ()) ∧
        (r >>= fun _ => execute c).run.exchanges m =
          r.run.exchanges m ++ [(.instruction c, reply)]) ∨
      ∃ e, (r.run.outcome m).1 = .error e ∧
        ((r >>= fun _ => execute c).run.outcome m).1 = .error e ∧
        (r >>= fun _ => execute c).run.exchanges m = r.run.exchanges m) := by
  have whole : (r >>= fun _ => execute c).run =
      r.run >>= ExceptT.bindCont fun _ => execute c := rfl
  rw [whole, announced_bind, exchanges_bind, outcome_bind]
  generalize r.run.outcome m = ran
  obtain ⟨e | ⟨⟩, link⟩ := ran
  · exact ⟨List.append_nil _, .inr ⟨e, rfl, rfl, List.append_nil _⟩⟩
  · have last : ExceptT.bindCont (fun _ => execute c) (.ok () : Except Fault Unit) =
        .clock (ε := ε) (.instruction c) fun reply => .done (reply.map fun _ => ()) := run_execute c
    dsimp only
    rw [last]
    exact ⟨List.append_nil _, .inl ⟨_, rfl, rfl, rfl⟩⟩

end Routine

namespace Device

open Routine

variable {σ : Type} [Link σ] {d : Device}

theorem told_pageErase (known : (d.family, d.part) ∈ Family.knownParts) (m : σ) :
    Report.Told .erase d.part.codeSize (d.part.erasePage + d.part.erasePage)
      (d.pageErase.run.outcome m).1 (d.pageErase.run.announced m) := by
  obtain ⟨-, page, -⟩ := Family.knownParts_layout _ known
  have size : max d.part.erasePage 1 = d.part.erasePage := Nat.max_eq_left page
  have tracks := d.family.tracks_pageErase d.part
  rw [size] at tracks
  exact tracks.told
    { operation := .erase, total := d.part.codeSize, granularity := d.part.erasePage }
    (rises_ends_self d.part.codeSize page) page m

theorem told_programCode (known : (d.family, d.part) ∈ Family.knownParts) (i : Image) (m : σ) :
    Report.Told .program i.size (1024 + 2 * d.part.wordsPerWrite)
      ((d.programCode i).run.outcome m).1 ((d.programCode i).run.announced m) := by
  obtain ⟨words, -⟩ := Family.knownParts_layout _ known
  unfold programCode
  cases d.requireRoom i with
  | error fault => exact fun _ r mem => absurd mem List.not_mem_nil
  | ok =>
    have size : max d.part.wordsPerWrite 1 = d.part.wordsPerWrite := Nat.max_eq_left words
    have rises := rises_blocks d.part i
    rw [size] at rises
    exact (d.family.tracks_programCode d.part i).told
      { operation := .program, total := i.size } rises (Nat.succ_pos 1023) m

theorem told_readCode (known : (d.family, d.part) ∈ Family.knownParts) (offset size : Nat) (m : σ) :
    Report.Told .read (readTotal d.part offset size) (1024 + 2)
      ((d.readCode offset size).run.outcome m).1 ((d.readCode offset size).run.announced m) := by
  obtain ⟨-, -, even, whole, -⟩ := Family.knownParts_layout _ known
  have code : d.part.codeSize % 2 = 0 := Nat.mod_eq_zero_of_dvd
    (Nat.dvd_trans (Nat.dvd_of_mod_eq_zero even) (Nat.dvd_of_mod_eq_zero whole))
  exact (tracks_readCode code offset size).told
    { operation := .read, total := readTotal d.part offset size }
    (rises_ends_self _ (by decide)) (Nat.succ_pos 1023) m

theorem told_readEeprom (known : (d.family, d.part) ∈ Family.knownParts) (i : Image) (m : σ) :
    Report.Told .eepromRead d.part.eepromBytes (1024 + 1)
      ((d.readEeprom i).run.outcome m).1 ((d.readEeprom i).run.announced m) := by
  obtain ⟨-, -, -, -, -, -, -, room⟩ := Family.knownParts_layout _ known
  rw [readEeprom_eq, ← filled_fillEeprom]
  exact (tracks_fillEeprom room i).told
    { operation := .eepromRead, total := d.part.eepromBytes }
    (rises_ends_self _ (by decide)) (Nat.succ_pos 1023) m

def eepromTracker (i : Image) : Tracker := { operation := .eepromWrite, total := i.eeprom.size }

theorem rises_eepromTracker (i : Image) :
    Rises (eepromTracker i).total 1 0 (ends i.eeprom.size 1) :=
  rises_ends_self _ Nat.one_pos

theorem complete_programEeprom {i : Image} {m : σ}
    (ok : ((d.programEeprom i).run.outcome m).1 = .ok ()) :
    Report.Complete .eepromWrite i.eeprom.size (1024 + 1)
      ((d.programEeprom i).run.announced m) := by
  have fits : i.eeprom.size ≤ d.part.eepromBytes := by
    by_contra long
    rw [programEeprom_of_lt (Nat.lt_of_not_le long)] at ok
    cases ok
  change (((writeEeprom d.part i).run.tracked (eepromTracker i)).outcome m).1 = _ at ok
  change Report.Complete _ _ _ (((writeEeprom d.part i).run.tracked (eepromTracker i)).announced m)
  rw [outcome_tracked, writeEeprom_eq fits] at ok
  obtain ⟨marks, ⟨_, sent, -, -⟩ | ⟨e, -, value, -⟩⟩ :=
    bind_execute_ended (sendEeprom i) .clearWren m
  · rw [announced_tracked, writeEeprom_eq fits, marks]
    exact (tracks_sendEeprom i).complete (rises_eepromTracker i) (Nat.succ_pos 1023) sent
  · rw [value] at ok
    cases ok

/-- The fault that leaves a report of the total is that of the transfer which disables writes. -/
theorem incomplete_programEeprom {i : Image} (nonzero : i.eeprom.size ≠ 0) {m : σ} {e : Fault}
    (failed : ((d.programEeprom i).run.outcome m).1 = .error e) :
    (∃ r ∈ (d.programEeprom i).run.announced m, r.done = i.eeprom.size) ↔
      ∃ before, (d.programEeprom i).run.exchanges m =
        before ++ [(.instruction .clearWren, .error e)] := by
  by_cases fits : i.eeprom.size ≤ d.part.eepromBytes
  · change (((writeEeprom d.part i).run.tracked (eepromTracker i)).outcome m).1 = _ at failed
    change (∃ r ∈ ((writeEeprom d.part i).run.tracked (eepromTracker i)).announced m, _) ↔
      ∃ before, ((writeEeprom d.part i).run.tracked (eepromTracker i)).exchanges m = _
    rw [outcome_tracked, writeEeprom_eq fits] at failed
    rw [announced_tracked, exchanges_tracked, writeEeprom_eq fits]
    obtain ⟨marks, ⟨reply, sent, value, asked⟩ | ⟨e', sent, -, asked⟩⟩ :=
      bind_execute_ended (sendEeprom i) .clearWren m
    · -- All bytes are written, so the fault is that of the one transfer left.
      have complete := (tracks_sendEeprom i).complete (rises_eepromTracker i) (Nat.succ_pos 1023)
        sent
      rw [value] at failed
      obtain rfl : reply = .error e := by
        cases reply with
        | ok b => cases failed
        | error e' => exact congrArg Except.error (Except.error.inj failed)
      rw [marks, asked]
      exact iff_of_true complete.reaches ⟨_, rfl⟩
    · have incomplete := (tracks_sendEeprom i).incomplete (rises_eepromTracker i) sent
        nonzero
      rw [marks, asked]
      refine iff_of_false (fun ⟨r, mem, all⟩ => incomplete r mem all) ?_
      rintro ⟨before, shape⟩
      have last : (Transfer.instruction .clearWren, .error e) ∈
          (sendEeprom i).run.exchanges m := by simp [shape]
      exact ne_clearWren_of_mem_sendEeprom i m last rfl
  · rw [programEeprom_of_lt (Nat.lt_of_not_le fits)]
    refine iff_of_false (fun ⟨r, mem, _⟩ => absurd mem List.not_mem_nil) ?_
    rintro ⟨before, shape⟩
    cases before <;> cases shape

end Device

end InCircuit
