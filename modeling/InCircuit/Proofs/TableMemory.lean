import InCircuit.Proofs.Programming
import InCircuit.TableMemory

set_option autoImplicit false

/-!
# Programming a bare table memory

A table memory has each byte from the moment it is written. So a block of words lies in place once
it has been loaded, the words before the image as erased ones, and configuration bytes follow one by
one.
-/
namespace InCircuit

namespace TableMemory

def overlay (start : Nat) (bytes : List UInt8) (old : Nat → UInt8) (a : Nat) : UInt8 :=
  if start ≤ a then bytes.getD (a - start) (old a) else old a

theorem overlay_nil (start : Nat) (old : Nat → UInt8) : overlay start [] old = old := by
  funext a
  rw [overlay, List.getD_nil, ite_self]

theorem overlay_append (start : Nat) (xs ys : List UInt8) (old : Nat → UInt8) :
    overlay start (xs ++ ys) old = overlay (start + xs.length) ys (overlay start xs old) := by
  funext a
  simp only [overlay, List.getD_eq_getElem?_getD]
  by_cases low : start ≤ a
  · rw [if_pos low, if_pos low]
    by_cases here : a - start < xs.length
    · rw [List.getElem?_append_left here, if_neg (by omega)]
    · rw [List.getElem?_append_right (by omega), if_pos (by omega),
        List.getElem?_eq_none (l := xs) (by omega), Nat.sub_sub, Option.getD_none]
  · rw [if_neg low, if_neg (by omega), if_neg low]

theorem byte_setByte (t : TableMemory) (address : Nat) (b : UInt8) :
    (t.setByte address b).byte = overlay address [b] t.byte := by
  funext a
  rw [byte, setByte, Std.TreeMap.getD_insert, overlay]
  simp only [Std.compare_eq_iff_eq]
  rcases Nat.lt_trichotomy a address with before | rfl | after
  · rw [if_neg (by omega), if_neg (by omega)]
    rfl
  · rw [if_pos rfl, if_pos (Nat.le_refl a), Nat.sub_self]
    rfl
  · rw [if_neg (by omega), if_pos (by omega), List.getD_eq_getElem?_getD,
      List.getElem?_eq_none (by rw [List.length_singleton]; omega)]
    rfl

theorem byte_setBytes (t : TableMemory) (start : Nat) (bytes : List UInt8) :
    (t.setBytes start bytes).byte = overlay start bytes t.byte := by
  induction bytes generalizing t start with
  | nil => exact (overlay_nil start t.byte).symm
  | cons b bytes ih =>
    rw [setBytes, ih, byte_setByte]
    exact (overlay_append start [b] bytes t.byte).symm

theorem setBytes_eq (t : TableMemory) (start : Nat) (bytes : List UInt8) :
    ∃ map, t.setBytes start bytes = { t with bytes := map } := by
  induction bytes generalizing t start with
  | nil => exact ⟨_, rfl⟩
  | cons b bytes ih =>
    obtain ⟨map, stored⟩ := ih (t.setByte start b) (start + 1)
    exact ⟨map, stored⟩

theorem tableWrite_code {t : TableMemory} (even : t.pointer % 2 = 0)
    (low : t.pointer < Address.config) (data : UInt16) :
    ∃ map, t.tableWrite data = { t with bytes := map } ∧
      (t.tableWrite data).byte =
        overlay t.pointer [data.toNat.toUInt8, (data.toNat / 256).toUInt8] t.byte := by
  have whole : t.tableWrite data =
      t.setBytes t.pointer [data.toNat.toUInt8, (data.toNat / 256).toUInt8] := by
    rw [tableWrite, if_neg (Nat.not_le_of_lt low), even, Nat.sub_zero]
  obtain ⟨map, stored⟩ := t.setBytes_eq t.pointer [data.toNat.toUInt8, (data.toNat / 256).toUInt8]
  exact ⟨map, whole.trans stored, by rw [whole, byte_setBytes]⟩

theorem tableWrite_config (t : TableMemory) (high : Address.config ≤ t.pointer) (data : UInt16) :
    t.tableWrite data = t.setByte t.pointer
      (if t.pointer % 2 = 0 then data.toNat.toUInt8 else (data.toNat / 256).toUInt8) :=
  if_pos high

end TableMemory

namespace Routine

open Procedure TableMemory

variable {ε : Type} {t : TableMemory} {i : Image} {p : Part}

def Stores {α : Type} (r : Routine ε α) (t : TableMemory) (byte : Nat → UInt8) : Prop :=
  r.run.Along (fun _ => True) (returning fun _ n => n.byte = byte) t

theorem goes_table (x : Transfer) (t : TableMemory) {b : UInt8} {n : TableMemory}
    (h : Link.clock x t = (.ok b, n)) :
    Goes (fun _ => True) (clock x : Routine ε UInt8) t b n := goes_clock h trivial

theorem goes_table_transmit (c : Command) (data : UInt16) (t : TableMemory) :
    Goes (fun _ => True) (transmit c data : Routine ε Unit) t () (t.transmit c data) :=
  (goes_table _ t rfl).bind (goes_pure _ () _)

theorem goes_table_postProgram (t : TableMemory) :
    Goes (fun _ => True) (postProgram : Routine ε Unit) t () t :=
  ((goes_table _ t rfl).bind (goes_pure _ () t)).bind
    (((goes_table _ t rfl).bind (goes_pure _ () t)).bind
      ((goes_table _ t rfl).bind (goes_pure _ () t)))

theorem goes_table_executeAll {is : List Instruction}
    (pass : ∀ i ∈ is, ∀ t : TableMemory, t.execute i.encode = t) (t : TableMemory) :
    Goes (fun _ => True) (executeAll is : Routine ε Unit) t () t := by
  induction is with
  | nil => exact goes_pure _ () t
  | cons i is ih =>
    have first := goes_table_transmit (ε := ε) .coreInstruction i.encode t
    change Goes _ _ t () (t.execute i.encode) at first
    rw [pass i List.mem_cons_self] at first
    exact first.bind (ih fun j hj => pass j (List.mem_cons_of_mem i hj))

theorem goes_table_load (r : Register) (v : UInt8) (t : TableMemory) :
    Goes (fun _ => True) (load r v : Routine ε Unit) t ()
      (({ t with w := v } : TableMemory).execute (Instruction.movwf r.address).encode) := by
  have first := goes_table_transmit (ε := ε) .coreInstruction (Instruction.movlw v).encode t
  change Goes _ _ t () (t.execute (Instruction.movlw v).encode) at first
  rw [TableMemory.execute, Instruction.decode_encode] at first
  exact first.bind (goes_table_transmit _ _ _)

theorem goes_table_setPointer {address : Nat} (h : address ≤ Address.last) (t : TableMemory) :
    Goes (fun _ => True) (setPointer address : Routine ε Unit) t ()
      { t with w := address.toUInt8, pointer := address } := by
  have hlast : Address.last = 16777215 := rfl
  let upper := TablePointer.setUpper t.pointer (TablePointer.upper address)
  let high := TablePointer.setHigh upper (TablePointer.high address)
  have first := goes_table_load (ε := ε) .tblptrU (address / 65536).toUInt8 t
  have second := goes_table_load (ε := ε) .tblptrH (address / 256).toUInt8
    { t with w := (address / 65536).toUInt8, pointer := upper }
  have third := goes_table_load (ε := ε) .tblptrL address.toUInt8
    { t with w := (address / 256).toUInt8, pointer := high }
  simp only [TableMemory.execute, Instruction.decode_encode, Register.ofAddress?_address]
    at first second third
  have pointed : TablePointer.setLow high (TablePointer.low address) = address :=
    TablePointer.set_bytes t.pointer (by omega)
  change Goes _ _ _ () { t with
    w := address.toUInt8, pointer := TablePointer.setLow high (TablePointer.low address) } at third
  rw [pointed] at third
  unfold setPointer
  rw [if_neg (by omega)]
  exact first.bind (second.bind third)

/-! ## Code -/

theorem wordBytes_cons (w : UInt16) (ws : List UInt16) :
    wordBytes (w :: ws) = [w.toNat.toUInt8, (w.toNat / 256).toUInt8] ++ wordBytes ws := rfl

theorem wordBytes_append (vs ws : List UInt16) :
    wordBytes (vs ++ ws) = wordBytes vs ++ wordBytes ws := List.flatMap_append

theorem stores_loadBuffer (ws : List UInt16) (even : t.pointer % 2 = 0)
    (low : t.pointer + 2 * ws.length ≤ Address.config) :
    Stores (loadBuffer ws : Routine ε Unit) t (overlay t.pointer (wordBytes ws) t.byte) := by
  have hconfig : Address.config = 3145728 := rfl
  induction ws generalizing t with
  | nil => exact (overlay_nil _ _).symm
  | cons w ws ih =>
    rw [List.length_cons] at low
    obtain ⟨map, written, stored⟩ := tableWrite_code even (by omega) w
    cases ws with
    | nil => exact (goes_table_transmit .tableWriteStart w t).returns stored
    | cons v ws =>
      let next : TableMemory := { t with bytes := map, pointer := t.pointer + 2 }
      have moved : (t.tableWrite w).advance 2 = next := by
        rw [List.length_cons] at low
        have small : t.pointer + 2 < 4294967296 := by omega
        rw [written]
        change { next with pointer := (t.pointer + 2) % 4294967296 } = next
        rw [Nat.mod_eq_of_lt small]
      have first := goes_table_transmit (ε := ε) .tableWritePostInc2 w t
      change Goes _ _ t () ((t.tableWrite w).advance 2) at first
      rw [moved] at first
      have same : next.byte = (t.tableWrite w).byte := by
        rw [written]
        rfl
      have rest := ih (t := next) (show (t.pointer + 2) % 2 = 0 by omega)
        (show t.pointer + 2 + 2 * _ ≤ _ by omega)
      rw [same, stored] at rest
      rw [wordBytes_cons w, overlay_append]
      exact first.along rest

/-- Programs blocks from a slot on: the words of all slots that are left lie in place then. -/
theorem stores_blocks (b : Blocks) (i : Image) (even : b.start % 2 = 0)
    (low : b.start + 2 * b.stop ≤ Address.config) (count : Nat) {slot : Nat}
    (inside : slot ≤ b.stop) (cover : b.stop ≤ slot + count * b.length) (t : TableMemory) :
    Stores (b.program i count slot) t
      (overlay (b.start + 2 * slot) (wordBytes (b.words i slot b.stop)) t.byte) := by
  have hlast : Address.last = 16777215 := rfl
  have hconfig : Address.config = 3145728 := rfl
  -- The words from `slot` on make up this block and what the blocks after it store.
  induction count generalizing slot t with
  | zero =>
    obtain rfl : slot = b.stop := by omega
    rw [Blocks.words_self]
    exact (overlay_nil _ _).symm
  | succ count ih =>
    have more : (count + 1) * b.length = count * b.length + b.length := Nat.succ_mul _ _
    let next := slot + min b.length (b.stop - slot)
    have length := b.length_words i slot next
    have loaded := stores_loadBuffer (ε := Mark)
      (t := { t with w := (b.start + 2 * slot).toUInt8, pointer := b.start + 2 * slot })
      (b.words i slot next) (show (b.start + 2 * slot) % 2 = 0 by omega)
      (show b.start + 2 * slot + 2 * _ ≤ _ by omega)
    unfold Blocks.program
    refine (goes_table_setPointer (by omega) t).along (along_seq loaded ?_)
    rintro _ n stored
    refine (goes_table_postProgram n).along ((goes_emit _ _ n).along ?_)
    have rest := @ih next (by omega) (by omega) n
    have reached : b.start + 2 * slot + (wordBytes (b.words i slot next)).length =
        b.start + 2 * next := by
      rw [length_wordBytes]
      omega
    rw [b.words_append i (show slot ≤ next by omega) (by omega), wordBytes_append, overlay_append,
      reached]
    rw [stored] at rest
    exact rest

/-- The bytes with the code of an image in place, and erased ones before it in its first block. -/
def coded (p : Part) (i : Image) (old : Nat → UInt8) (a : Nat) : UInt8 :=
  if (Blocks.ofImage p i).start ≤ a ∧ a < i.origin + 2 * i.words then
    if i.origin ≤ a then i.cell (a - i.origin) else erased
  else old a

theorem overlay_words (p : Part) (i : Image) (even : i.origin % 2 = 0) (old : Nat → UInt8) :
    overlay (Blocks.ofImage p i).start
      (wordBytes ((Blocks.ofImage p i).words i 0 (Blocks.ofImage p i).stop)) old =
        coded p i old := by
  funext a
  have stop := Blocks.start_stop p i even
  rw [coded]
  by_cases low : (Blocks.ofImage p i).start ≤ a
  · rw [overlay, if_pos low, Blocks.words, List.getD_eq_getElem?_getD, getElem?_wordBytes,
      List.getElem?_map]
    by_cases high : a < i.origin + 2 * i.words
    · have byte := Blocks.word_byte p i even a low
      rw [if_pos ⟨low, high⟩, List.getElem?_range' (by omega), Nat.one_mul, Nat.zero_add]
      exact byte
    · rw [if_neg (fun inside => high inside.2), List.getElem?_eq_none (by
        rw [List.length_range']
        omega)]
      rfl
  · rw [overlay, if_neg low, if_neg fun inside => low inside.1]

theorem stores_programBlocks (even : i.origin % 2 = 0)
    (low : i.origin + 2 * i.words ≤ Address.config) (t : TableMemory) :
    Stores (programBlocks p i) t (coded p i t.byte) := by
  have stop := Blocks.start_stop p i even
  have aligned : ¬ i.origin % 2 ≠ 0 := by omega
  rw [← overlay_words p i even]
  unfold programBlocks
  rw [if_neg aligned]
  refine (goes_emit _ _ t).along (along_seq (stores_blocks _ i (Blocks.start_even p i) (by omega) _
    (Nat.zero_le _) ?_ t) ?_)
  · rw [Nat.zero_add]
    exact le_pieces_mul _ (Blocks.length_pos p i)
  · rintro _ n stored
    exact (goes_emit _ _ n).returns stored

theorem stores_selectSinglePanel (f : Family) (t : TableMemory) :
    Stores (f.selectSinglePanel : Routine ε Unit) t (overlay Address.panelControl [0] t.byte) := by
  have entered : Goes (fun _ => True) (f.enterConfigMode : Routine ε Unit) t () t := by
    cases f <;> refine goes_table_executeAll (fun j hj t => ?_) t <;>
      simp only [List.mem_cons, List.not_mem_nil, or_false] at hj
    · obtain rfl | rfl | rfl := hj <;> rfl
    · obtain rfl | rfl := hj <;> rfl
  let pointed : TableMemory :=
    { t with w := Address.panelControl.toUInt8, pointer := Address.panelControl }
  have written : pointed.tableWrite 0 = pointed.setByte Address.panelControl 0 := by
    rw [pointed.tableWrite_config (show Address.config ≤ Address.panelControl by decide)]
    exact congrArg _ (if_pos (show Address.panelControl % 2 = 0 by decide))
  refine entered.along ((goes_table_setPointer (by decide) t).along ?_)
  refine (goes_table_transmit .tableWritePostInc 0 pointed).returns ?_
  change (pointed.tableWrite 0).byte = _
  rw [written]
  exact byte_setByte pointed Address.panelControl 0

theorem along_table_programCode (f : Family) (even : i.origin % 2 = 0)
    (low : i.origin + 2 * i.words ≤ Address.config) (t : TableMemory) :
    (f.programCode p i).run.Along (fun _ => True)
      (returning fun _ n => ∀ a ≠ Address.panelControl, n.byte a = coded p i t.byte a) t := by
  have blocks (n : TableMemory) : Stores (do f.enterCodeMode; programBlocks p i) n
      (coded p i n.byte) := by
    have entered : Goes (fun _ => True) (f.enterCodeMode : Routine Mark Unit) n () n := by
      cases f <;> refine goes_table_executeAll (fun j hj t => ?_) n <;>
        simp only [List.mem_cons, List.not_mem_nil, or_false] at hj <;>
        obtain rfl | rfl := hj <;> rfl
    exact entered.along (stores_programBlocks even low n)
  cases f with
  | f2xxx => exact along_returning_mono (blocks t) fun _ n stored a _ => by rw [stored]
  | f2xx =>
    refine along_seq (stores_selectSinglePanel .f2xx t) ?_
    rintro _ n selected
    refine along_returning_mono (blocks n) fun _ k stored a other => ?_
    have kept : n.byte a = t.byte a := by
      rw [selected, overlay]
      split
      · rw [List.getD_eq_getElem?_getD, List.getElem?_eq_none (by
          rw [List.length_singleton]
          omega)]
        rfl
      · rfl
    rw [stored, coded, coded, kept]

/-! ## Configuration -/

def configured (i : Image) (offset count : Nat) (old : Nat → UInt8) (a : Nat) : UInt8 :=
  if Address.config + offset ≤ a ∧ a < Address.config + offset + count then
    (i.configAt? (a - Address.config)).getD (old a)
  else old a

theorem configured_succ (i : Image) (offset count : Nat) (old : Nat → UInt8) :
    configured i offset (count + 1) old =
      configured i (offset + 1) count
        (overlay (Address.config + offset) (i.configAt? offset).toList old) := by
  funext a
  simp only [configured, overlay, List.getD_eq_getElem?_getD]
  rcases Nat.lt_trichotomy a (Address.config + offset) with before | rfl | after
  · rw [if_neg (by omega), if_neg (by omega), if_neg (by omega)]
  · rw [if_pos (by omega), if_neg (by omega), if_pos (Nat.le_refl _), Nat.sub_self,
      Nat.add_sub_cancel_left]
    cases i.configAt? offset <;> rfl
  · have past : (i.configAt? offset).toList[a - (Address.config + offset)]? = none :=
      List.getElem?_eq_none (Nat.le_trans (by cases i.configAt? offset <;> simp)
        (show 1 ≤ _ by omega))
    rw [if_pos (show Address.config + offset ≤ a by omega), past, Option.getD_none]
    have same : Address.config + offset ≤ a ∧ a < Address.config + offset + (count + 1) ↔
        Address.config + (offset + 1) ≤ a ∧ a < Address.config + (offset + 1) + count := by omega
    simp only [same]

theorem goes_table_advancePointer (low : t.pointer % 256 < 255) (small : t.pointer < 16777216) :
    Goes (fun _ => True) (execute .advancePointer : Routine ε Unit) t ()
      { t with pointer := t.pointer + 1 } := by
  have first := goes_table_transmit (ε := ε) .coreInstruction Instruction.advancePointer.encode t
  change Goes _ _ t () { t with
    pointer := TablePointer.setLow t.pointer (TablePointer.low t.pointer + 1) } at first
  rw [setLow_succ low small] at first
  exact first

theorem stores_configFrom (i : Image) (count : Nat) {offset : Nat} (room : offset + count ≤ 32)
    (t : TableMemory) (here : t.pointer = Address.config + offset) :
    Stores (programConfigFrom i count offset : Routine ε Unit) t
      (configured i offset count t.byte) := by
  have hconfig : Address.config = 3145728 := rfl
  induction count generalizing offset t with
  | zero =>
    change t.byte = _
    funext a
    rw [configured, if_neg (by omega)]
  | succ count ih =>
    have next (n : TableMemory) (here_n : n.pointer = Address.config + offset) :
        Stores (do execute .advancePointer; programConfigFrom i count (offset + 1) :
          Routine ε Unit) n (configured i (offset + 1) count n.byte) := by
      refine (goes_table_advancePointer (by omega) (by omega)).along ?_
      exact ih (by omega) { n with pointer := n.pointer + 1 }
        (show n.pointer + 1 = Address.config + (offset + 1) by omega)
    rw [configured_succ]
    unfold programConfigFrom
    cases known : i.configAt? offset with
    | none =>
      rw [Option.toList_none, overlay_nil]
      exact next t here
    | some b =>
      have written : t.tableWrite (if offset % 2 = 1 then b.toUInt16 <<< 8 else b.toUInt16) =
          t.setByte t.pointer b := by
        have selected := selected_byte b offset
        rw [← here] at selected
        rw [t.tableWrite_config (by omega), selected]
      have first := goes_table_transmit (ε := ε) .tableWriteStart
        (if offset % 2 = 1 then b.toUInt16 <<< 8 else b.toUInt16) t
      change Goes _ _ t () (t.tableWrite _) at first
      rw [written] at first
      refine first.along ((goes_table_postProgram _).along ?_)
      have rest := next (t.setByte t.pointer b) here
      rw [byte_setByte, here] at rest
      rw [here]
      exact rest

theorem stores_programConfig (i : Image) (address : p.configAddress = Address.config)
    (room : p.configBytes ≤ 32) (t : TableMemory) :
    Stores (programConfig p i : Routine ε Unit) t (configured i 0 p.configBytes t.byte) := by
  have pass : ∀ j ∈ [Instruction.setEepgd, .setCfgs, .gotoConfigLow, .gotoConfigHigh],
      ∀ t : TableMemory, t.execute j.encode = t := by
    intro j hj t
    simp only [List.mem_cons, List.not_mem_nil, or_false] at hj
    obtain rfl | rfl | rfl | rfl := hj <;> rfl
  unfold programConfig
  rw [address]
  refine (goes_table_executeAll pass t).along ((goes_table_setPointer (by decide) t).along ?_)
  exact stores_configFrom i p.configBytes (by omega)
    { t with w := Address.config.toUInt8, pointer := Address.config } rfl

end Routine

end InCircuit
