import InCircuit.Proofs.Operations

set_option autoImplicit false

/-!
# Faults of their own

On a known part erasing and programming ask for nothing that can be refused: unless a transfer
fails they succeed, and a write whose origin is odd is refused for that.
-/
namespace InCircuit

namespace Routine

open Procedure

variable {ε : Type}

theorem sure_transmit (c : Command) (data : UInt16) : Sure (transmit c data : Routine ε Unit) :=
  (sure_clock _).bind fun _ => sure_pure ()

theorem sure_hold (h : Hold) : Sure (hold h : Routine ε Unit) :=
  (sure_clock _).bind fun _ => sure_pure ()

theorem sure_sendData (payload : UInt32) : Sure (sendData payload : Routine ε Unit) :=
  (sure_clock _).bind fun _ => sure_pure ()

theorem sure_delay (micros : UInt32) : Sure (delay micros : Routine ε Unit) :=
  (sure_clock _).bind fun _ => sure_pure ()

theorem sure_execute (i : Instruction) : Sure (execute i : Routine ε Unit) := sure_transmit _ _

theorem sure_executeWords (words : List UInt16) : Sure (executeWords words : Routine ε Unit) := by
  induction words with
  | nil => exact sure_pure ()
  | cons w words ih => exact (sure_transmit _ w).bind fun _ => ih

theorem sure_executeAll (is : List Instruction) : Sure (executeAll is : Routine ε Unit) :=
  sure_executeWords _

theorem sure_load (r : Register) (value : UInt8) : Sure (load r value : Routine ε Unit) :=
  (sure_execute _).bind fun _ => sure_execute _

theorem sure_setPointer {address : Nat} (h : address ≤ Address.last) :
    Sure (setPointer address : Routine ε Unit) := by
  unfold setPointer
  rw [if_neg (by omega)]
  exact (sure_load _ _).bind fun _ => (sure_load _ _).bind fun _ => sure_load _ _

theorem sure_storeWord {address : Nat} (h : address ≤ Address.last) (data : UInt16) :
    Sure (storeWord address data : Routine ε Unit) :=
  (sure_setPointer h).bind fun _ => sure_transmit _ _

theorem sure_postProgram : Sure (postProgram : Routine ε Unit) :=
  (sure_hold _).bind fun _ => (sure_delay _).bind fun _ => sure_sendData _

theorem sure_loadBuffer (ws : List UInt16) : Sure (loadBuffer ws : Routine ε Unit) := by
  induction ws with
  | nil => exact sure_pure ()
  | cons w ws ih =>
    cases ws with
    | nil => exact sure_transmit _ w
    | cons v ws => exact (sure_transmit _ w).bind fun _ => ih

/-! ## Erasing -/

theorem sure_erasePagesFrom {page address : Nat} (count : Nat) (pos : 0 < page)
    (h : address + count * page ≤ Address.last + 1) : Sure (erasePagesFrom page count address) := by
  induction count generalizing address with
  | zero => exact sure_pure ()
  | succ count ih =>
    rw [Nat.succ_mul] at h
    exact (sure_executeAll _).bind fun _ => (sure_setPointer (by omega)).bind fun _ =>
      (sure_transmit _ _).bind fun _ => sure_postProgram.bind fun _ =>
      (sure_emit _).bind fun _ => ih (by omega)

variable {p : Part} {s : Setup}

theorem sure_eraseByPage (suited : Suited p s) : Sure (eraseByPage p) := by
  have hlast : Address.last = 16777215 := rfl
  have hconfig : Address.config = 3145728 := rfl
  have low := suited.low
  have page : max p.erasePage 1 = p.erasePage := by have := suited.page_pos; omega
  unfold eraseByPage
  rw [page]
  refine (sure_emit _).bind fun _ => (sure_erasePagesFrom _ suited.page_pos ?_).bind fun _ =>
    sure_emit _
  rw [suited.pieces_mul]
  omega

/-! ## Programming -/

variable {i : Image}

theorem sure_blocks {b : Blocks} {slot : Nat} (count : Nat) (inside : slot ≤ b.stop)
    (low : b.start + 2 * b.stop ≤ Address.last) : Sure (b.program i count slot) := by
  induction count generalizing slot with
  | zero => exact sure_pure ()
  | succ count ih =>
    exact (sure_setPointer (by omega)).bind fun _ => (sure_loadBuffer _).bind fun _ =>
      sure_postProgram.bind fun _ => (sure_emit _).bind fun _ => ih (by omega)

theorem sure_programBlocks (even : i.origin % 2 = 0)
    (low : i.origin + 2 * i.words ≤ Address.last) : Sure (programBlocks p i) := by
  have lead := Blocks.start_lead p i even
  have stop := Blocks.start_stop p i even
  have aligned : ¬ i.origin % 2 ≠ 0 := by omega
  unfold programBlocks
  rw [if_neg aligned]
  exact (sure_emit _).bind fun _ => (sure_blocks _ (by omega) (by omega)).bind fun _ =>
    sure_emit _

theorem ends_programBlocks_odd (odd : i.origin % 2 ≠ 0) :
    (programBlocks p i).run.Ends (· = .error .misaligned) := by
  unfold programBlocks
  rw [if_pos odd]
  exact rfl

theorem sure_programConfigFrom (count offset : Nat) :
    Sure (programConfigFrom i count offset : Routine ε Unit) := by
  induction count generalizing offset with
  | zero => exact sure_pure ()
  | succ count ih =>
    have next : Sure (do execute .advancePointer; programConfigFrom i count (offset + 1) :
        Routine ε Unit) := (sure_execute _).bind fun _ => ih (offset + 1)
    unfold programConfigFrom
    split
    · exact (sure_transmit _ _).bind fun _ => sure_postProgram.bind fun _ => next
    · exact next

theorem sure_programConfig (suited : Suited p s) :
    Sure (programConfig p i : Routine ε Unit) := by
  have address : p.configAddress ≤ Address.last := by rw [suited.configAddress]; decide
  exact (sure_executeAll _).bind fun _ => (sure_setPointer address).bind fun _ =>
    sure_programConfigFrom _ _

end Routine

namespace Family

open Routine

variable {ε : Type} {p : Part} {s : Setup} {i : Image} (f : Family)

theorem sure_enterConfigMode : Sure (f.enterConfigMode : Routine ε Unit) := by
  cases f <;> exact sure_executeAll _

theorem sure_selectSinglePanel : Sure (f.selectSinglePanel : Routine ε Unit) :=
  f.sure_enterConfigMode.bind fun _ => sure_storeWord (by decide) _

theorem sure_enterCodeMode : Sure (f.enterCodeMode : Routine ε Unit) := by
  cases f <;> exact sure_executeAll _

theorem sure_writeKey (keys : List (Nat × UInt16)) (h : ∀ x ∈ keys, x.1 ≤ Address.last) :
    Sure (writeKey keys : Routine ε Unit) := by
  induction keys with
  | nil => exact sure_pure ()
  | cons x keys ih =>
    exact (sure_storeWord (h x List.mem_cons_self) _).bind fun _ =>
      ih fun y hy => h y (List.mem_cons_of_mem x hy)

theorem sure_bulkErase : Sure (f.bulkErase : Routine ε Unit) := by
  cases f with
  | f2xx =>
    exact (sure_writeKey _ (by decide)).bind fun _ => (sure_execute _).bind fun _ =>
      (sure_hold _).bind fun _ => sure_delay _
  | f2xxx =>
    exact (sure_writeKey _ (by decide)).bind fun _ => (sure_hold _).bind fun _ => sure_delay _

theorem sure_pageErase (suited : Suited p s) : Sure (f.pageErase p) := by
  cases f with
  | f2xx => exact f2xx.sure_selectSinglePanel.bind fun _ => sure_eraseByPage suited
  | f2xxx =>
    exact f2xxx.sure_enterConfigMode.bind fun _ => (sure_execute _).bind fun _ =>
      (sure_storeWord (by decide) _).bind fun _ => sure_eraseByPage suited

theorem ends_programCode {Q : Except Fault Unit → Prop} (h : (programBlocks p i).run.Ends Q) :
    (f.programCode p i).run.Ends Q := by
  cases f with
  | f2xx =>
    exact f2xx.sure_selectSinglePanel.bind_ends fun _ =>
      f2xx.sure_enterCodeMode.bind_ends fun _ => h
  | f2xxx => exact f2xxx.sure_enterCodeMode.bind_ends fun _ => h

end Family

namespace Device

open Procedure Routine

variable {d : Device} {s : Setup} {i : Image}

theorem sure_erase (suited : Suited d.part s) (mode : EraseMode) : Sure (d.erase mode) := by
  cases mode with
  | bulk => exact d.family.sure_bulkErase.bind fun _ => sure_delay _
  | pages => exact (d.family.sure_pageErase suited).tracked _

theorem ends_programCode {Q : Except Fault Unit → Prop}
    (fits : i.origin + 2 * i.words ≤ d.part.codeSize) (h : (programBlocks d.part i).run.Ends Q) :
    (d.programCode i).run.Ends Q := by
  unfold programCode
  rw [requireRoom_eq_ok.mpr fits]
  exact (sure_pure ()).bind_ends fun _ => ends_tracked (d.family.ends_programCode h) _

theorem sure_write (suited : Suited d.part s) (even : i.origin % 2 = 0)
    (fits : i.origin + 2 * i.words ≤ d.part.codeSize) (mode : EraseMode) :
    Sure (d.write i mode) := by
  have hlast : Address.last = 16777215 := rfl
  have hconfig : Address.config = 3145728 := rfl
  have low := suited.low
  have code : Sure (d.programCode i) :=
    ends_programCode fits (sure_programBlocks even (by omega))
  unfold write
  rw [requireRoom_eq_ok.mpr fits]
  exact (sure_pure ()).bind fun _ => (sure_erase suited mode).bind fun _ =>
    code.bind fun _ => sure_programConfig suited

/-- A write to an odd origin is refused, but not before everything is erased. -/
theorem ends_write_odd (suited : Suited d.part s) (odd : i.origin % 2 ≠ 0)
    (fits : i.origin + 2 * i.words ≤ d.part.codeSize) (mode : EraseMode) :
    (d.write i mode).run.Ends (· = .error .misaligned) := by
  have refused : (d.programCode i).run.Ends (· = .error .misaligned) :=
    ends_programCode fits (ends_programBlocks_odd odd)
  unfold write
  rw [requireRoom_eq_ok.mpr fits]
  exact (sure_pure ()).bind_ends fun _ => (sure_erase suited mode).bind_ends fun _ =>
    ends_bind refused (fun _ h => nomatch h) fun _ h => h

end Device

end InCircuit
