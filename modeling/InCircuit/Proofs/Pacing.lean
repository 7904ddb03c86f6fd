import InCircuit.Proofs.Plans

set_option autoImplicit false

/-!
# The time that cycles take

A programming cycle needs the clock held high, a settling and an empty data phase right after the
write that starts it, and a bulk erase needs its pulse and its settling right after the key. A plan
is paced when each cycle gets that time and nothing else looks like it. Every routine of the library
but the bulk erase has paced plans only, and the bulk erase has one plan.
-/
namespace InCircuit

namespace Transfer

def startsCycle : Transfer → Bool
  | transmit .tableWriteStart _ | transmit .tableWriteStartPostInc2 _ => true
  | _ => false

def cycleTime : List Transfer := [.hold .postProgram, .delay 5, .data 0]

/-- A transfer that neither starts a cycle nor gives one its time. -/
def isPlain : Transfer → Bool
  | transmit c word => ! (transmit c word).startsCycle
  | receive _ => true
  | hold _ | data _ => false
  | delay micros => micros != 5

end Transfer

inductive Paced : List Transfer → Prop
  | nil : Paced []
  | plain {t : Transfer} {plan : List Transfer} (h : t.isPlain = true) (rest : Paced plan) :
      Paced (t :: plan)
  | cycle {t : Transfer} {plan : List Transfer} (h : t.startsCycle = true) (rest : Paced plan) :
      Paced (t :: (Transfer.cycleTime ++ plan))

namespace Paced

open Transfer

variable {plan later : List Transfer}

theorem startsCycle_of_isPlain {t : Transfer} (h : t.isPlain = true) : t.startsCycle = false := by
  cases t with
  | transmit c word => exact Bool.not_eq_true' _ ▸ h
  | _ => rfl

theorem startsCycle_of_mem_cycleTime : ∀ {t : Transfer}, t ∈ cycleTime → t.startsCycle = false := by
  decide

theorem isPlain_of_mem_cycleTime : ∀ {t : Transfer}, t ∈ cycleTime → t.isPlain = false := by
  decide

theorem append_cons_cases (as : List Transfer) {bs before after : List Transfer} {t : Transfer}
    (h : as ++ bs = before ++ t :: after) :
    (∃ left, as = before ++ t :: left ∧ after = left ++ bs) ∨
      ∃ passed, before = as ++ passed ∧ bs = passed ++ t :: after := by
  obtain ⟨passed, rfl, rest⟩ | ⟨left, rfl, rest⟩ := List.append_eq_append_iff.mp h
  · exact .inr ⟨passed, rfl, rest⟩
  · cases left with
    | nil => exact .inr ⟨[], (List.append_nil _).symm.trans (List.append_nil _).symm, rest.symm⟩
    | cons x left =>
      obtain ⟨rfl, rfl⟩ := List.cons_eq_cons.mp rest
      exact .inl ⟨left, rfl, rfl⟩

theorem append (h : Paced plan) (hl : Paced later) : Paced (plan ++ later) := by
  induction h with
  | nil => exact hl
  | plain h _ ih => exact .plain h ih
  | cycle h _ ih => exact .cycle h ih

theorem of_plain (h : ∀ t ∈ plan, t.isPlain = true) : Paced plan := by
  induction plan with
  | nil => exact .nil
  | cons t plan ih =>
    exact .plain (h t List.mem_cons_self) (ih fun x hx => h x (List.mem_cons_of_mem t hx))

theorem instructions (is : List Instruction) : Paced (is.map instruction) := by
  refine of_plain fun t ht => ?_
  obtain ⟨i, _, rfl⟩ := List.mem_map.mp ht
  rfl

/-! ## What stands next to what -/

theorem started (h : Paced plan) {before after : List Transfer} {t : Transfer}
    (shape : plan = before ++ t :: after) (starts : t.startsCycle = true) :
    cycleTime <+: after := by
  induction h generalizing before with
  | nil => simp at shape
  | @plain u plan hu _ ih =>
    cases before with
    | nil =>
      obtain ⟨rfl, _⟩ := List.cons_eq_cons.mp shape
      rw [startsCycle_of_isPlain hu] at starts
      cases starts
    | cons x before => exact ih (List.cons_eq_cons.mp shape).2
  | @cycle u plan hu _ ih =>
    obtain ⟨passed, inside, rfl⟩ | ⟨earlier, rfl, rest⟩ := append_cons_cases (u :: cycleTime) shape
    · cases before with
      | nil =>
        obtain ⟨rfl, rfl⟩ := List.cons_eq_cons.mp inside
        exact List.prefix_append _ _
      | cons x before =>
        have mem : t ∈ cycleTime := by
          rw [(List.cons_eq_cons.mp inside).2]
          exact List.mem_append_right _ List.mem_cons_self
        rw [startsCycle_of_mem_cycleTime mem] at starts
        cases starts
    · exact ih rest

theorem after_start (h : Paced plan) {before after : List Transfer} {t : Transfer}
    (shape : plan = before ++ t :: after) (time : t ∈ cycleTime) :
    ∃ earlier start passed, before = earlier ++ start :: passed ∧ start.startsCycle = true ∧
      passed ++ [t] <+: cycleTime := by
  induction h generalizing before with
  | nil => simp at shape
  | @plain u plan hu _ ih =>
    cases before with
    | nil =>
      obtain ⟨rfl, _⟩ := List.cons_eq_cons.mp shape
      rw [isPlain_of_mem_cycleTime time] at hu
      cases hu
    | cons x before =>
      obtain ⟨earlier, start, passed, rfl, found⟩ := ih (List.cons_eq_cons.mp shape).2
      exact ⟨x :: earlier, start, passed, rfl, found⟩
  | @cycle u plan hu _ ih =>
    obtain ⟨left, inside, rfl⟩ | ⟨before, rfl, rest⟩ := append_cons_cases (u :: cycleTime) shape
    · cases before with
      | nil =>
        obtain ⟨rfl, _⟩ := List.cons_eq_cons.mp inside
        rw [startsCycle_of_mem_cycleTime time] at hu
        cases hu
      | cons x before =>
        obtain ⟨rfl, within⟩ := List.cons_eq_cons.mp inside
        exact ⟨[], u, before, rfl, hu, left,
        (List.append_cons before t left).symm.trans within.symm⟩
    · obtain ⟨earlier, start, passed, rfl, found⟩ := ih rest
      exact ⟨u :: cycleTime ++ earlier, start, passed, by rw [List.append_assoc], found⟩

theorem holds (h : Paced plan) {pulse : Hold} (mem : Transfer.hold pulse ∈ plan) :
    pulse = .postProgram := by
  induction h with
  | nil => cases mem
  | plain h _ ih =>
    obtain rfl | mem := List.mem_cons.mp mem
    · cases h
    · exact ih mem
  | cycle h _ ih =>
    obtain rfl | mem := List.mem_cons.mp mem
    · cases h
    · obtain time | mem := List.mem_append.mp mem
      · simpa [cycleTime] using time
      · exact ih mem

end Paced

/-! ## Routines -/

def Procedure.Paces {ε α : Type} (p : Procedure ε α) : Prop :=
  p.Says fun _ said => Paced (said.map Prod.fst)

theorem Procedure.Paces.bind {ε α β : Type} {p : Procedure ε α} {f : α → Procedure ε β}
    (h : p.Paces) (next : ∀ a, (f a).Paces) : (p >>= f).Paces := by
  refine says_bind.mpr (h.mono fun a said paced => (next a).mono fun b later more => ?_)
  rw [List.map_append]
  exact paced.append more

namespace Routine

open Procedure Transfer

variable {ε α β : Type}

def Paces (r : Routine ε α) : Prop := r.run.Paces

theorem Paces.bind {r : Routine ε α} {f : α → Routine ε β} (h : Paces r)
    (next : ∀ a, Paces (f a)) : Paces (r >>= f) := by
  refine Procedure.Paces.bind (f := ExceptT.bindCont f) h ?_
  rintro (e | a)
  · exact Paced.nil
  · exact next a

theorem Paces.tracked {r : Routine Mark α} (h : Paces r) (t : Tracker) : Paces (r.tracked t) :=
  says_tracked h t

theorem Sends.paces {r : Routine ε α} {plan : List Transfer} (h : Sends r plan)
    (paced : Paced plan) : Paces r :=
  Says.mono h fun _ _ said => said.2 ▸ paced

theorem paces_mk (v : Except Fault α) : Paces (ExceptT.mk (pure v) : Routine ε α) := Paced.nil

theorem paces_emit (e : ε) : Paces (emit e) := Paced.nil

theorem paces_clock {t : Transfer} (h : t.isPlain = true) : Paces (clock t : Routine ε UInt8) :=
  (sends_clock t).paces (.plain h .nil)

theorem paces_execute (i : Instruction) : Paces (execute i : Routine ε Unit) :=
  (sends_execute i).paces (Paced.instructions [i])

theorem paces_executeAll (is : List Instruction) : Paces (executeAll is : Routine ε Unit) :=
  (sends_executeAll is).paces (Paced.instructions is)

theorem paces_load (r : Register) (value : UInt8) : Paces (load r value : Routine ε Unit) :=
  (paces_execute _).bind fun _ => paces_execute _

theorem paces_setPointer (address : Nat) : Paces (setPointer address : Routine ε Unit) := by
  unfold setPointer
  split
  · exact paces_mk _
  · exact (paces_load _ _).bind fun _ => (paces_load _ _).bind fun _ => paces_load _ _

theorem paces_storeWord (address : Nat) (data : UInt16) :
    Paces (storeWord address data : Routine ε Unit) :=
  (paces_setPointer _).bind fun _ => (paces_clock rfl).bind fun _ => paces_mk _

theorem paces_nextByte : Paces (nextByte : Routine ε UInt8) := paces_clock rfl

theorem paces_shiftOut : Paces (shiftOut : Routine ε UInt8) := paces_clock rfl

theorem paces_fetchDeviceId : Paces (fetchDeviceId : Routine ε UInt16) :=
  (paces_setPointer _).bind fun _ => paces_nextByte.bind fun _ => paces_nextByte.bind fun _ =>
    paces_mk _

/-! ### Cycles -/

theorem paces_postProgram {t : Transfer} (starts : t.startsCycle = true) {rest : Routine ε α}
    (h : Paces rest) :
    (do postProgram; rest : Routine ε α).run.Says
      fun _ said => Paced (t :: said.map Prod.fst) :=
  sends_postProgram.says_bind (Q := fun _ said => Paced (t :: said)) fun _ =>
    h.mono fun _ _ paced => .cycle starts paced

theorem paces_loadBuffer (ws : List UInt16) (h : ws ≠ []) {rest : Routine ε α}
    (paced : Paces rest) : Paces (do loadBuffer ws; postProgram; rest : Routine ε α) := by
  induction ws with
  | nil => exact absurd rfl h
  | cons w ws ih =>
    cases ws with
    | nil =>
      exact (sends_transmit _ w).says_bind (Q := fun _ said => Paced said) fun _ =>
        paces_postProgram rfl paced
    | cons v ws =>
      change Paces (do (do transmit .tableWritePostInc2 w; loadBuffer (v :: ws)); postProgram; rest)
      rw [bind_assoc]
      exact Paces.bind ((sends_transmit _ w).paces (.plain rfl .nil)) fun _ =>
        ih (List.cons_ne_nil v ws)

theorem paces_erasePagesFrom (page count address : Nat) :
    Paces (erasePagesFrom page count address) := by
  induction count generalizing address with
  | zero => exact paces_mk _
  | succ count ih =>
    exact (paces_executeAll _).bind fun _ => (paces_setPointer _).bind fun _ =>
      paces_loadBuffer [0] (List.cons_ne_nil _ _)
        ((paces_emit _).bind fun _ => ih _)

theorem paces_eraseByPage (p : Part) : Paces (eraseByPage p) :=
  (paces_emit _).bind fun _ => (paces_erasePagesFrom _ _ _).bind fun _ => paces_emit _

/-- No block is empty as long as the blocks end before the image does. -/
theorem paces_blocks {b : Blocks} (pos : 0 < b.length) (i : Image) (count slot : Nat)
    (inside : slot + count * b.length < b.stop + b.length) : Paces (b.program i count slot) := by
  induction count generalizing slot with
  | zero => exact paces_mk _
  | succ count ih =>
    rw [Nat.succ_mul] at inside
    have words : (List.range' slot (slot + min b.length (b.stop - slot) - slot)).map (b.word i) ≠
        [] := by
      intro h
      have := congrArg List.length h
      simp only [List.length_map, List.length_range', List.length_nil] at this
      omega
    have later : slot + min b.length (b.stop - slot) + count * b.length < b.stop + b.length := by
      cases count with
      | zero => omega
      | succ count =>
        rw [Nat.succ_mul] at inside ⊢
        omega
    exact (paces_setPointer _).bind fun _ =>
      paces_loadBuffer _ words ((paces_emit _).bind fun _ => ih _ later)

theorem paces_programBlocks (p : Part) (i : Image) : Paces (programBlocks p i) := by
  have pos : 0 < (Blocks.ofImage p i).length := by
    change 0 < max p.wordsPerWrite 1
    omega
  unfold programBlocks
  split
  · exact paces_mk _
  · refine (paces_emit _).bind fun _ => (paces_blocks pos i _ 0 ?_).bind fun _ => paces_emit _
    rw [Nat.zero_add]
    exact pieces_mul_lt _ pos

theorem paces_programConfigFrom (i : Image) (count offset : Nat) :
    Paces (programConfigFrom i count offset : Routine ε Unit) := by
  induction count generalizing offset with
  | zero => exact paces_mk _
  | succ count ih =>
    have next : Paces (do execute .advancePointer; programConfigFrom i count (offset + 1) :
        Routine ε Unit) := (paces_execute _).bind fun _ => ih (offset + 1)
    unfold programConfigFrom
    split
    · exact paces_loadBuffer [_] (List.cons_ne_nil _ _) next
    · exact next

theorem paces_programConfig (p : Part) (i : Image) : Paces (programConfig p i : Routine ε Unit) :=
  (paces_executeAll _).bind fun _ => (paces_setPointer _).bind fun _ =>
    paces_programConfigFrom _ _ _

/-! ### Reading -/

theorem paces_readWords (count : Nat) (bytes : Array UInt8) : Paces (readWords count bytes) := by
  induction count generalizing bytes with
  | zero => exact paces_mk _
  | succ count ih =>
    exact paces_nextByte.bind fun _ => paces_nextByte.bind fun _ => (paces_emit _).bind fun _ =>
      ih _

theorem paces_readCode (d : Device) (offset size : Nat) : Paces (readCode d offset size) := by
  unfold readCode
  split
  · exact paces_mk _
  · exact (paces_mk _).bind fun _ => (paces_mk _).bind fun _ => (paces_setPointer _).bind fun _ =>
      (paces_emit _).bind fun _ => (paces_readWords _ _).bind fun _ => (paces_emit _).bind fun _ =>
      paces_mk _

theorem paces_readConfigFrom (count offset : Nat) (i : Image) :
    (readConfigFrom count offset i : Procedure ε _).Paces := by
  induction count generalizing offset i with
  | zero => exact Paced.nil
  | succ count ih =>
    refine Procedure.Paces.bind (paces_nextByte (ε := ε)) ?_
    rintro (e | b)
    · exact Paced.nil
    · cases put : i.putConfig offset b with
      | error e =>
        simp only [put]
        exact Paced.nil
      | ok j =>
        simp only [put]
        exact ih _ _

theorem paces_fillConfig (d : Device) (i : Image) : (fillConfig d i : Procedure ε _).Paces := by
  refine Procedure.Paces.bind (paces_setPointer (ε := ε) d.part.configAddress) ?_
  rintro (e | u)
  · exact Paced.nil
  · exact paces_readConfigFrom _ _ _

theorem paces_readConfig (d : Device) (i : Image) : Paces (readConfig d i : Routine ε Image) :=
  Procedure.Paces.bind (paces_fillConfig d i) fun _ => Paced.nil

/-! ### EEPROM -/

theorem paces_pointEeprom (address : Nat) : Paces (pointEeprom address : Routine ε Unit) :=
  (paces_load _ _).bind fun _ => paces_load _ _

theorem paces_readEepromFrom (count address : Nat) (bytes : Array UInt8) :
    Paces (readEepromFrom count address bytes) := by
  induction count generalizing address bytes with
  | zero => exact paces_mk _
  | succ count ih =>
    exact (paces_pointEeprom _).bind fun _ => (paces_executeAll _).bind fun _ =>
      paces_shiftOut.bind fun _ => (paces_emit _).bind fun _ => ih _ _

theorem paces_scanEeprom (p : Part) : Paces (scanEeprom p) :=
  (paces_executeAll _).bind fun _ => (paces_emit _).bind fun _ =>
    (paces_readEepromFrom _ _ _).bind fun _ => (paces_emit _).bind fun _ => paces_mk _

/-- The wait between two polls is not the settling of a cycle. -/
theorem paces_waitWritten (tries : Nat) : Paces (waitWritten tries : Routine ε Unit) := by
  induction tries with
  | zero => exact paces_mk _
  | succ tries ih =>
    refine (paces_executeAll _).bind fun _ => paces_shiftOut.bind fun eecon1 => ?_
    split
    · exact Paces.bind ((sends_delay 1000).paces (.plain rfl .nil)) fun _ => ih
    · exact paces_mk _

theorem paces_writeEepromByte (address : Nat) (byte : UInt8) :
    Paces (writeEepromByte address byte : Routine ε Unit) :=
  (paces_pointEeprom _).bind fun _ => (paces_load _ _).bind fun _ => (paces_execute _).bind fun _ =>
    (paces_load _ _).bind fun _ => (paces_load _ _).bind fun _ => (paces_execute _).bind fun _ =>
    paces_waitWritten _

theorem paces_writeEepromFrom (address : Nat) (bytes : List UInt8) :
    Paces (writeEepromFrom address bytes) := by
  induction bytes generalizing address with
  | nil => exact paces_mk _
  | cons b bytes ih =>
    exact (paces_writeEepromByte _ _).bind fun _ => (paces_emit _).bind fun _ => ih _

theorem paces_writeEeprom (p : Part) (i : Image) : Paces (writeEeprom p i) := by
  unfold writeEeprom
  split
  · exact paces_mk _
  · exact (paces_executeAll _).bind fun _ => (paces_emit _).bind fun _ =>
      (paces_writeEepromFrom _ _).bind fun _ => (paces_emit _).bind fun _ => paces_execute _

end Routine

namespace Family

open Routine Transfer

/-- What sets the key of the bulk erase. The first family then needs one instruction to pass. -/
def keying (f : Family) : List Transfer :=
  f.eraseKey.flatMap (fun key => pointing key.1 ++ [.transmit .tableWritePostInc key.2]) ++
    match f with
    | f2xx => [instruction .nop]
    | f2xxx => []

def erasure (f : Family) : List Transfer :=
  f.keying ++ [.hold (.erase f.eraseMillis), .delay f.eraseSettle, .delay 20]

theorem sends_writeKey {ε : Type} (keys : List (Nat × UInt16))
    (h : ∀ x ∈ keys, x.1 ≤ Address.last) : Sends (writeKey keys : Routine ε Unit)
      (keys.flatMap fun key => pointing key.1 ++ [.transmit .tableWritePostInc key.2]) := by
  induction keys with
  | nil => exact sends_pure ()
  | cons x keys ih =>
    exact (sends_storeWord (h x List.mem_cons_self) x.2).bind fun _ =>
      ih fun y hy => h y (List.mem_cons_of_mem x hy)

theorem sends_bulkErase {ε : Type} (f : Family) : Sends (f.bulkErase : Routine ε Unit)
    (f.keying ++ [.hold (.erase f.eraseMillis), .delay f.eraseSettle]) := by
  cases f with
  | f2xx =>
    rw [keying, List.append_assoc]
    exact (sends_writeKey _ (by decide)).bind fun _ => (sends_execute .nop).bind fun _ =>
      (sends_hold _).bind fun _ => sends_delay _
  | f2xxx =>
    rw [keying, List.append_assoc]
    exact (sends_writeKey _ (by decide)).bind fun _ => (sends_hold _).bind fun _ => sends_delay _

theorem startsCycle_of_mem_erasure : ∀ f : Family, ∀ t ∈ f.erasure, t.startsCycle = false := by
  rintro (_ | _) <;> decide

theorem not_mem_erasure : ∀ f : Family, ∀ t ∈ cycleTime, t ∉ f.erasure := by
  rintro (_ | _) <;> decide

theorem hold_not_mem_keying (f : Family) (pulse : Hold) : Transfer.hold pulse ∉ f.keying := by
  have plain : ∀ t ∈ f.keying, t.isPlain = true := by cases f <;> decide
  intro mem
  cases plain _ mem

theorem paces_pageErase (f : Family) (p : Part) : Paces (f.pageErase p) := by
  cases f with
  | f2xx =>
    exact ((paces_executeAll _).bind fun _ => paces_storeWord _ _).bind fun _ => paces_eraseByPage p
  | f2xxx =>
    exact (paces_executeAll _).bind fun _ => (paces_execute _).bind fun _ =>
      (paces_storeWord _ _).bind fun _ => paces_eraseByPage p

theorem paces_programCode (f : Family) (p : Part) (i : Image) : Paces (f.programCode p i) := by
  cases f with
  | f2xx =>
    exact ((paces_executeAll _).bind fun _ => paces_storeWord _ _).bind fun _ =>
      (paces_executeAll _).bind fun _ => paces_programBlocks p i
  | f2xxx => exact (paces_executeAll _).bind fun _ => paces_programBlocks p i

end Family

namespace Device

open Routine

variable (d : Device) (i : Image)

theorem sends_bulkErase : Sends d.bulkErase d.family.erasure := by
  have settled := d.family.sends_bulkErase (ε := Report)
  have sent := settled.bind fun _ => sends_delay 20
  rw [List.append_assoc] at sent
  exact sent

theorem paces_identify : Paces identify := paces_fetchDeviceId.bind fun _ => paces_mk _

theorem paces_pageErase : Paces d.pageErase := (d.family.paces_pageErase d.part).tracked _

theorem paces_programCode : Paces (d.programCode i) :=
  (paces_mk _).bind fun _ => (d.family.paces_programCode d.part i).tracked _

theorem paces_programEeprom : Paces (d.programEeprom i) := (paces_writeEeprom d.part i).tracked _

theorem paces_readCode (offset size : Nat) : Paces (d.readCode offset size) :=
  (Routine.paces_readCode d offset size).tracked _

theorem paces_readEeprom : Paces (d.readEeprom i) := by
  rw [readEeprom_eq]
  exact ((paces_scanEeprom d.part).bind fun _ => paces_mk _).tracked _

theorem paces_readAll (offset size : Nat) (eeprom : Bool) :
    Paces (d.readAll offset size eeprom) := by
  refine (d.paces_readCode _ _).bind fun i => (paces_readConfig d i).bind fun i => ?_
  split
  · exact d.paces_readEeprom i
  · exact paces_mk _

theorem paces_afterErase : Paces (do d.programCode i; d.programConfig i) :=
  (d.paces_programCode i).bind fun _ => paces_programConfig d.part i

theorem paces_write_pages : Paces (d.write i .pages) :=
  (paces_mk _).bind fun _ => d.paces_pageErase.bind fun _ => d.paces_afterErase i

theorem paces_verify (source : Image) : Paces (d.verify source) := by
  have finish (readback : Image) : Paces (d.finishVerify source readback) := by
    unfold finishVerify
    split
    · exact paces_mk _
    · exact (paces_readConfig d readback).bind fun _ => paces_mk _
  rw [verify_eq_finish]
  split
  · exact finish _
  · exact (d.paces_readCode _ _).bind finish

end Device

end InCircuit
