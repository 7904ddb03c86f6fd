import InCircuit.Proofs.Erasing
import InCircuit.Proofs.Image.Built

set_option autoImplicit false

/-!
# Programming the emulated part

Programming code goes block by block: between two blocks the memory is the one before, with the
bits of all image bytes below the next block cleared. Configuration bytes follow one by one.
-/
namespace InCircuit

namespace Memory

/-- With the image programmed into the code below a limit: bits are only cleared. -/
def program (m : Memory) (i : Image) (limit : Nat) : Memory :=
  { m with code := m.code.mapIdx fun a b =>
      if i.origin ≤ a ∧ a < limit then b &&& i.cell (a - i.origin) else b }

def configure (m : Memory) (i : Image) (limit : Nat) : Memory :=
  { m with config := m.config.mapIdx fun o b =>
      if o < limit then (i.configAt? o).getD b else b }

theorem program_origin (m : Memory) (i : Image) {limit : Nat} (h : limit ≤ i.origin) :
    m.program i limit = m := by
  have same : m.code.mapIdx (fun a b =>
      if i.origin ≤ a ∧ a < limit then b &&& i.cell (a - i.origin) else b) = m.code := by
    apply Array.ext_getElem?
    intro a
    have hn : ¬ (i.origin ≤ a ∧ a < limit) := by omega
    simp [hn]
  rw [program, same]

theorem configure_zero (m : Memory) (i : Image) : m.configure i 0 = m := by
  have same : m.config.mapIdx (fun o b => if o < 0 then (i.configAt? o).getD b else b) =
      m.config := by
    apply Array.ext_getElem?
    intro a
    simp
  rw [configure, same]

theorem configure_succ_of_known (m : Memory) {i : Image} {offset : Nat} {b : UInt8}
    (h : i.configAt? offset = some b) :
    m.configure i (offset + 1) = (m.configure i offset).setConfig offset b := by
  simp only [configure, setConfig]
  congr 1
  apply Array.ext_getElem?
  intro o
  rw [Array.getElem?_setIfInBounds]
  by_cases he : offset = o
  · subst he
    by_cases ho : offset < m.config.size <;> simp [h, ho]
  · have hlt : o < offset + 1 ↔ o < offset := by omega
    simp only [if_neg he, Array.getElem?_mapIdx, hlt]

theorem configure_succ_of_none (m : Memory) {i : Image} {offset : Nat}
    (h : i.configAt? offset = none) : m.configure i (offset + 1) = m.configure i offset := by
  simp only [configure]
  congr 1
  apply Array.ext_getElem?
  intro o
  by_cases he : offset = o
  · subst he
    simp [h]
  · have hlt : o < offset + 1 ↔ o < offset := by omega
    simp only [Array.getElem?_mapIdx, hlt]

end Memory

theorem getElem?_wordBytes (ws : List UInt16) (o : Nat) :
    (wordBytes ws)[o]? = ws[o / 2]?.map fun w =>
      if o % 2 = 0 then w.toNat.toUInt8 else (w.toNat / 256).toUInt8 := by
  induction ws generalizing o with
  | nil => rfl
  | cons w ws ih =>
    match o with
    | 0 => rfl
    | 1 => rfl
    | o + 2 =>
      have half : (o + 2) / 2 = o / 2 + 1 := by omega
      have parity : (o + 2) % 2 = o % 2 := by omega
      rw [half, parity]
      exact ih o

namespace Routine.Blocks

variable (p : Part) (i : Image)

theorem length_pos : 0 < (ofImage p i).length := by
  simp only [ofImage]
  omega

theorem start_lead (even : i.origin % 2 = 0) :
    (ofImage p i).start + 2 * (ofImage p i).lead = i.origin := by
  have hle := Nat.mod_le i.origin (2 * max p.wordsPerWrite 1)
  have heven : i.origin % (2 * max p.wordsPerWrite 1) % 2 = 0 := by
    rw [Nat.mod_mod_of_dvd i.origin (Nat.dvd_mul_right 2 _), even]
  simp only [ofImage]
  omega

theorem start_stop (even : i.origin % 2 = 0) :
    (ofImage p i).start + 2 * (ofImage p i).stop = i.origin + 2 * i.words := by
  have lead := start_lead p i even
  have stop : (ofImage p i).stop = (ofImage p i).lead + i.words := rfl
  omega

theorem start_mod : (ofImage p i).start % (2 * (ofImage p i).length) = 0 := by
  simp only [ofImage]
  exact Nat.sub_mod_eq_zero_of_mod_eq (Nat.mod_mod _ _).symm

theorem start_even : (ofImage p i).start % 2 = 0 := by
  rw [← Nat.mod_mod_of_dvd _ (Nat.dvd_mul_right 2 (ofImage p i).length), start_mod p i]

def words (b : Blocks) (i : Image) (slot stop : Nat) : List UInt16 :=
  (List.range' slot (stop - slot)).map (b.word i)

theorem length_words (b : Blocks) (i : Image) (slot stop : Nat) :
    (b.words i slot stop).length = stop - slot := by
  rw [words, List.length_map, List.length_range']

theorem words_self (b : Blocks) (i : Image) (slot : Nat) : b.words i slot slot = [] := by
  rw [words, Nat.sub_self]
  rfl

theorem words_cons (b : Blocks) (i : Image) {slot stop : Nat} (h : slot < stop) :
    b.words i slot stop = b.word i slot :: b.words i (slot + 1) stop := by
  have more : stop - slot = (stop - (slot + 1)) + 1 := by omega
  rw [words, more, List.range'_succ, List.map_cons]
  rfl

theorem words_append (b : Blocks) (i : Image) {slot next stop : Nat} (low : slot ≤ next)
    (high : next ≤ stop) : b.words i slot stop = b.words i slot next ++ b.words i next stop := by
  have whole : stop - slot = (next - slot) + (stop - next) := by omega
  have onwards : slot + (next - slot) = next := by omega
  rw [words, words, words, ← List.map_append, whole, ← List.range'_append_1, onwards]

theorem word_byte (even : i.origin % 2 = 0) (a : Nat) (h : (ofImage p i).start ≤ a) :
    (if (a - (ofImage p i).start) % 2 = 0 then
        ((ofImage p i).word i ((a - (ofImage p i).start) / 2)).toNat.toUInt8
      else (((ofImage p i).word i ((a - (ofImage p i).start) / 2)).toNat / 256).toUInt8) =
      if i.origin ≤ a then i.cell (a - i.origin) else erased := by
  have lead := start_lead p i even
  by_cases ha : i.origin ≤ a
  · have hs : ¬ (a - (ofImage p i).start) / 2 < (ofImage p i).lead := by omega
    rw [word, if_neg hs, if_pos ha, Image.wordAt_low, Image.wordAt_high]
    split <;> congr 1 <;> omega
  · have hs : (a - (ofImage p i).start) / 2 < (ofImage p i).lead := by omega
    rw [word, if_pos hs, if_neg ha]
    split <;> rfl

theorem clearCode_block (m : Memory) (even : i.origin % 2 = 0) {slot next : Nat}
    (h : slot ≤ next) :
    (m.program i ((ofImage p i).start + 2 * slot)).clearCode ((ofImage p i).start + 2 * slot)
        (wordBytes ((ofImage p i).words i slot next)) =
      m.program i ((ofImage p i).start + 2 * next) := by
  simp only [Memory.program, Memory.clearCode, Memory.clearBits, words]
  congr 1
  apply Array.ext_getElem?
  intro a
  generalize hb : ofImage p i = b
  simp only [Array.getElem?_mapIdx, Option.map_map]
  congr 1
  funext x
  simp only [Function.comp]
  by_cases ha : b.start + 2 * slot ≤ a
  · have before : ¬ (i.origin ≤ a ∧ a < b.start + 2 * slot) := by omega
    rw [if_neg before, if_pos ha, List.getD_eq_getElem?_getD, getElem?_wordBytes,
      List.getElem?_map]
    have index : slot + (a - (b.start + 2 * slot)) / 2 = (a - b.start) / 2 := by omega
    have parity : (a - (b.start + 2 * slot)) % 2 = (a - b.start) % 2 := by omega
    by_cases hl : a < b.start + 2 * next
    · rw [List.getElem?_range' (by omega), Nat.one_mul, index, parity]
      have byte := word_byte p i even a (by rw [hb]; omega)
      rw [hb] at byte
      simp only [Option.map_some, Option.getD_some, byte]
      by_cases ho : i.origin ≤ a <;> simp [ho, hl]
    · have past : (List.range' slot (next - slot))[(a - (b.start + 2 * slot)) / 2]? = none := by
        rw [List.getElem?_eq_none_iff, List.length_range']
        omega
      rw [past]
      simp [hl]
  · have same : i.origin ≤ a ∧ a < b.start + 2 * slot ↔ i.origin ≤ a ∧ a < b.start + 2 * next := by
      omega
    rw [if_neg ha]
    simp only [same]

end Routine.Blocks

namespace Routine

open Emulator Procedure

variable {ε : Type} {P : Memory → Prop} {s : Setup} {base : Memory} {lock : Lock} {m : Emulator}
  {p : Part} {i : Image}

/-! ## Code -/

theorem along_block {b : Blocks} {slot next : Nat} {rest : Routine Mark Unit}
    {Q : Except Fault Unit → Emulator → Prop} (ofImage : Blocks.ofImage p i = b)
    (even : i.origin % 2 = 0) (block : max s.writeBlock 2 = 2 * b.length)
    (low : i.origin + 2 * i.words ≤ Address.config) (aligned : slot % b.length = 0)
    (pos : slot < next) (short : next ≤ slot + b.length) (inside : next ≤ b.stop)
    (idle : Idle s (base.program i (b.start + 2 * slot)) lock m)
    (eepgd : m.mode.eepgd = true) (cfgs : m.mode.cfgs = false) (free : m.mode.free = false)
    (before : P (base.program i (b.start + 2 * slot)))
    (after : P (base.program i (b.start + 2 * next)))
    (onwards : ∀ n, Idle s (base.program i (b.start + 2 * next)) lock n → n.mode = m.mode →
      rest.run.Along (fun n => P n.memory) Q n) :
    (do
      setPointer (b.start + 2 * slot)
      loadBuffer (b.words i slot next)
      postProgram
      rest : Routine Mark Unit).run.Along (fun n => P n.memory) Q m := by
  subst ofImage
  have finish := Blocks.start_stop p i even
  have start_even := Blocks.start_even p i
  have at_block := Blocks.start_mod p i
  have length := Blocks.length_words (Blocks.ofImage p i) i (slot + 1) next
  have cleared := Blocks.clearCode_block p i base even (Nat.le_of_lt pos)
  rw [Blocks.words_cons _ i pos] at cleared ⊢
  refine along_programBlock idle eepgd cfgs free (by omega) ?_ (by omega) before ?_
    fun n idle_n => ?_
  · rw [block, Nat.add_mod, at_block, Nat.mul_mod_mul_left, aligned, Nat.mul_zero, Nat.zero_mod]
    omega
  · rw [cleared]
    exact after
  · rw [cleared] at idle_n
    exact onwards n idle_n

/-- Programs blocks from a slot on, which starts a block as long as any is left. -/
theorem along_blocks {slot : Nat} (count : Nat) (even : i.origin % 2 = 0)
    (block : max s.writeBlock 2 = 2 * (Blocks.ofImage p i).length)
    (low : i.origin + 2 * i.words ≤ Address.config)
    (aligned : count ≠ 0 → slot % (Blocks.ofImage p i).length = 0)
    (needed : slot + count * (Blocks.ofImage p i).length <
      (Blocks.ofImage p i).stop + (Blocks.ofImage p i).length)
    (cover : (Blocks.ofImage p i).stop ≤ slot + count * (Blocks.ofImage p i).length)
    (inside : slot ≤ (Blocks.ofImage p i).stop)
    (idle : Idle s (base.program i ((Blocks.ofImage p i).start + 2 * slot)) lock m)
    (eepgd : m.mode.eepgd = true) (cfgs : m.mode.cfgs = false) (free : m.mode.free = false)
    (stages : ∀ k, P (base.program i ((Blocks.ofImage p i).start +
      2 * min (slot + k * (Blocks.ofImage p i).length) (Blocks.ofImage p i).stop))) :
    ((Blocks.ofImage p i).program i count slot).run.Along (fun n => P n.memory)
      (returning fun _ n => Idle s (base.program i (i.origin + 2 * i.words)) lock n ∧
        n.mode = m.mode) m := by
  have finish := Blocks.start_stop p i even
  have length_pos := Blocks.length_pos p i
  generalize ofImage : Blocks.ofImage p i = b at *
  -- Before the block at `slot` the image is in place up to that slot, and the part is as it was.
  induction count generalizing slot m with
  | zero =>
    have last : slot = b.stop := by omega
    rw [last, finish] at idle
    exact ⟨idle, rfl⟩
  | succ count ih =>
    have more : (count + 1) * b.length = count * b.length + b.length := Nat.succ_mul _ _
    let next := slot + min b.length (b.stop - slot)
    have hnext : next = min (slot + b.length) b.stop := by omega
    have before : P (base.program i (b.start + 2 * slot)) := by
      have := stages 0
      rwa [Nat.zero_mul, Nat.add_zero, Nat.min_eq_left inside] at this
    have after : P (base.program i (b.start + 2 * next)) := by
      have := stages 1
      rwa [Nat.one_mul, ← hnext] at this
    unfold Blocks.program
    refine along_block ofImage even block low (aligned (by omega)) (show slot < next by omega)
      (by omega) (by omega) idle eepgd cfgs free before after fun n idle_n mode_n => ?_
    refine (goes_emit _ _ n).along ?_
    rw [← mode_n] at eepgd cfgs free ⊢
    have full (hc : count ≠ 0) : next = slot + b.length := by
      have := Nat.mul_le_mul_right b.length (Nat.one_le_iff_ne_zero.mpr hc)
      omega
    refine @ih n next eepgd cfgs free (fun hc => ?_) ?_ ?_ (by omega) idle_n (fun k => ?_)
    · rw [full hc, Nat.add_mod_right, aligned (by omega)]
    · by_cases hc : count = 0
      · subst hc
        omega
      · have := full hc
        omega
    · omega
    · have later := stages (k + 1)
      have : min (next + k * b.length) b.stop = min (slot + (k + 1) * b.length) b.stop := by
        rw [Nat.succ_mul]
        omega
      rwa [this]

/-- Programs the code of an image; between two blocks every image byte below the next block is
in place. -/
theorem along_programBlocks (even : i.origin % 2 = 0)
    (block : max s.writeBlock 2 = 2 * (Blocks.ofImage p i).length)
    (low : i.origin + 2 * i.words ≤ Address.config) (idle : Idle s base lock m)
    (eepgd : m.mode.eepgd = true) (cfgs : m.mode.cfgs = false) (free : m.mode.free = false)
    (stages : ∀ k, P (base.program i ((Blocks.ofImage p i).start +
      2 * min (k * (Blocks.ofImage p i).length) (Blocks.ofImage p i).stop))) :
    (programBlocks p i).run.Along (fun n => P n.memory)
      (returning fun _ n => Idle s (base.program i (i.origin + 2 * i.words)) lock n ∧
        n.mode = m.mode) m := by
  have length_pos := Blocks.length_pos p i
  have lead := Blocks.start_lead p i even
  have nothing : base.program i ((Blocks.ofImage p i).start + 2 * 0) = base :=
    Memory.program_origin base i (by omega)
  have aligned : ¬ i.origin % 2 ≠ 0 := by omega
  unfold programBlocks
  rw [if_neg aligned]
  rw [← nothing] at idle
  refine (goes_emit _ _ m).along (along_seq (along_blocks _ even block low ?_ ?_ ?_ (by omega) idle
    eepgd cfgs free ?_) ?_)
  · exact fun _ => Nat.zero_mod _
  · rw [Nat.zero_add]
    exact pieces_mul_lt _ length_pos
  · rw [Nat.zero_add]
    exact le_pieces_mul _ length_pos
  · intro k
    rw [Nat.zero_add]
    exact stages k
  · rintro _ n h
    exact (goes_emit _ _ n).returns h

/-! ## Configuration -/

/-- Advancing the low byte advances the pointer, unless the byte overflows. -/
theorem setLow_succ {pointer : Nat} (h : pointer % 256 < 255) (low : pointer < 16777216) :
    TablePointer.setLow pointer (TablePointer.low pointer + 1) = pointer + 1 := by
  simp only [TablePointer.setLow, TablePointer.low, Nat.toUInt8, UInt8.toNat_add,
    UInt8.toNat_ofNat', UInt8.toNat_one]
  omega

theorem execute_advancePointer {m : Emulator} (h : m.pointer % 256 < 255)
    (low : m.pointer < 16777216) :
    m.execute .advancePointer = { m with pointer := m.pointer + 1 } := by
  change { m with pointer := TablePointer.setLow m.pointer (TablePointer.low m.pointer + 1) } = _
  rw [setLow_succ h low]

theorem selected_byte (b : UInt8) (offset : Nat) :
    (if (Address.config + offset) % 2 = 0 then
        (if offset % 2 = 1 then b.toUInt16 <<< 8 else b.toUInt16).toNat.toUInt8
      else ((if offset % 2 = 1 then b.toUInt16 <<< 8 else b.toUInt16).toNat / 256).toUInt8) =
      b := by
  have hconfig : Address.config = 3145728 := rfl
  have hb := b.toNat_lt
  by_cases odd : offset % 2 = 1
  · rw [if_neg (by omega), if_pos odd]
    apply UInt8.toNat_inj.mp
    simp [UInt16.toNat_shiftLeft, Nat.shiftLeft_eq, Nat.toUInt8]
    omega
  · rw [if_pos (by omega), if_neg odd]
    simp [Nat.toUInt8]

theorem along_configFrom {ε : Type} {offset : Nat} (count : Nat) (room : offset + count ≤ 32)
    (idle : Idle s (base.configure i offset) lock m) (eepgd : m.mode.eepgd = true)
    (cfgs : m.mode.cfgs = true) (free : m.mode.free = false)
    (here : m.pointer = Address.config + offset)
    (stages : ∀ k ≤ count, P (base.configure i (offset + k))) :
    (programConfigFrom i count offset : Routine ε Unit).run.Along (fun n => P n.memory)
      (returning fun _ n => Idle s (base.configure i (offset + count)) lock n ∧
        n.mode = m.mode) m := by
  -- Before the byte at `offset` all bytes below it are in place, and the table pointer is there.
  induction count generalizing offset m with
  | zero => exact ⟨idle, rfl⟩
  | succ count ih =>
    have hconfig : Address.config = 3145728 := rfl
    have before : P (base.configure i offset) := stages 0 (by omega)
    have after : P (base.configure i (offset + 1)) := stages 1 (by omega)
    have next (n : Emulator) (idle_n : Idle s (base.configure i (offset + 1)) lock n)
        (mode_n : n.mode = m.mode) (here_n : n.pointer = m.pointer) :
        (do execute .advancePointer; programConfigFrom i count (offset + 1) :
          Routine ε Unit).run.Along (fun n => P n.memory)
          (returning fun _ n => Idle s (base.configure i (offset + (count + 1))) lock n ∧
            n.mode = m.mode) n := by
      have hP : P n.memory := by rw [idle_n.memory]; exact after
      refine (goes_execute .advancePointer rfl (around_memory hP)).along ?_
      rw [execute_advancePointer (by omega) (by omega), Nat.add_comm count, ← Nat.add_assoc]
      let moved : Emulator := { n with pointer := n.pointer + 1 }
      have mode_moved : moved.mode = m.mode := mode_n
      rw [← mode_moved] at eepgd cfgs free ⊢
      refine ih (by omega) (idle_n.of_held rfl rfl) eepgd cfgs free ?_ fun k hk => ?_
      · change n.pointer + 1 = _
        omega
      · rw [Nat.add_assoc, Nat.add_comm 1]
        exact stages (k + 1) (by omega)
    unfold programConfigFrom
    cases hb : i.configAt? offset with
    | none =>
      have step := base.configure_succ_of_none hb
      exact next m (by rw [step]; exact idle) rfl rfl
    | some b =>
      have step := base.configure_succ_of_known hb
      have selected := selected_byte b offset
      rw [← here] at selected
      refine along_programByte idle eepgd cfgs free here (by omega) selected before ?_ ?_
      · rw [← step]
        exact after
      · intro n idle_n mode_n here_n
        rw [← step] at idle_n
        exact next n idle_n mode_n here_n

/-- Programs the known configuration bytes; between two of them all bytes below an offset are in
place. -/
theorem along_programConfig {ε : Type} (suited : Suited p s) (idle : Idle s base lock m)
    (free : m.mode.free = false) (stages : ∀ k ≤ p.configBytes, P (base.configure i k)) :
    (programConfig p i : Routine ε Unit).run.Along (fun n => P n.memory)
      (returning fun _ n => Idle s (base.configure i p.configBytes) lock n ∧
        n.mode.free = false) m := by
  have hlast : Address.last = 16777215 := rfl
  have hconfig : Address.config = 3145728 := rfl
  have start := base.configure_zero i
  have before : P base := by
    have := stages 0 (Nat.zero_le _)
    rwa [start] at this
  unfold programConfig
  refine along_seq (along_switch rfl idle before) ?_
  rintro _ n ⟨idle_n, mode_n⟩
  have mode_n : n.mode = ⟨true, true, false, m.mode.wren⟩ := by
    rw [mode_n, ← free]
    simp [Instruction.switch, Instruction.setEepgd, Instruction.setCfgs, Instruction.gotoConfigLow,
      Instruction.gotoConfigHigh, Instruction.setBit, Eecon1.eepgd, Eecon1.cfgs, Eecon1.free,
      Eecon1.wren, mode]
  have hP : P n.memory := by rw [idle_n.memory]; exact before
  rw [suited.configAddress]
  refine (goes_setPointer (by omega) (around_memory hP)).along ?_
  let pointed := n.pointAt Address.config
  have idle_pointed : Idle s (base.configure i 0) lock pointed := by
    rw [start]
    exact idle_n.of_held rfl rfl
  have mode_pointed : pointed.mode = ⟨true, true, false, m.mode.wren⟩ := mode_n
  refine along_returning_mono (along_configFrom p.configBytes ?_ idle_pointed
    (by rw [mode_pointed]) (by rw [mode_pointed]) (by rw [mode_pointed]) rfl ?_) ?_
  · rw [Nat.zero_add]
    exact suited.configBytes_le
  · intro k hk
    rw [Nat.zero_add]
    exact stages k hk
  · rintro _ k ⟨idle_k, mode_k⟩
    rw [Nat.zero_add] at idle_k
    exact ⟨idle_k, by rw [mode_k, mode_pointed]⟩

end Routine

namespace Family

open Emulator Procedure Routine

variable {P : Memory → Prop} {s : Setup} {base : Memory} {lock : Lock} {m : Emulator}

theorem along_enterCodeMode {ε : Type} (f : Family) (idle : Idle s base lock m) (before : P base) :
    (f.enterCodeMode : Routine ε Unit).run.Along (fun n => P n.memory)
      (returning fun _ n => Idle s base lock n ∧
        n.mode = ⟨true, false, m.mode.free, m.mode.wren⟩) m := by
  have mode_code : Mode.ofByte ([Instruction.setEepgd, .clearCfgs].foldl Instruction.switch
      m.eecon1) = ⟨true, false, m.mode.free, m.mode.wren⟩ := by
    simp [Instruction.switch, Instruction.setEepgd, Instruction.clearCfgs, Instruction.setBit,
      Instruction.clearBit, Eecon1.eepgd, Eecon1.cfgs, Eecon1.free, Eecon1.wren, mode]
  cases f <;> exact along_returning_mono (along_switch rfl idle before)
    fun _ n h => ⟨h.1, h.2.trans mode_code⟩

theorem along_programCode_of_blocks (f : Family) {p : Part} {i : Image}
    {Q : Except Fault Unit → Emulator → Prop} (idle : Idle s base lock m) (before : P base)
    (blocks : ∀ n, Idle s base lock n → n.mode.eepgd = true → n.mode.cfgs = false →
      n.mode.free = m.mode.free → (programBlocks p i).run.Along (fun n => P n.memory) Q n) :
    (f.programCode p i).run.Along (fun n => P n.memory) Q m := by
  have enter (n : Emulator) (idle_n : Idle s base lock n) (free_n : n.mode.free = m.mode.free) :
      (do f.enterCodeMode; programBlocks p i : Routine Mark Unit).run.Along
        (fun n => P n.memory) Q n := by
    refine along_seq (f.along_enterCodeMode idle_n before) ?_
    rintro _ k ⟨idle_k, mode_k⟩
    exact blocks k idle_k (by rw [mode_k]) (by rw [mode_k]) (by rw [mode_k]; exact free_n)
  cases f with
  | f2xx =>
    refine along_seq (along_selectSinglePanel .f2xx idle before) ?_
    rintro _ n ⟨idle_n, mode_n⟩
    exact enter n idle_n (by rw [mode_n])
  | f2xxx => exact enter m idle rfl

theorem along_programCode (f : Family) {p : Part} {i : Image} (suited : Suited p s)
    (even : i.origin % 2 = 0) (fits : i.origin + 2 * i.words ≤ p.codeSize)
    (idle : Idle s base lock m) (free : m.mode.free = false)
    (stages : ∀ k, P (base.program i ((Blocks.ofImage p i).start +
      2 * min (k * (Blocks.ofImage p i).length) (Blocks.ofImage p i).stop))) :
    (f.programCode p i).run.Along (fun n => P n.memory)
      (returning fun _ n => Idle s (base.program i (i.origin + 2 * i.words)) lock n ∧
        n.mode.free = false) m := by
  have low := suited.low
  have lead := Blocks.start_lead p i even
  have before : P base := by
    have := stages 0
    rwa [Nat.zero_mul, Nat.zero_min, Memory.program_origin base i (by omega)] at this
  refine f.along_programCode_of_blocks idle before fun n idle_n eepgd_n cfgs_n free_n => ?_
  rw [free] at free_n
  refine along_returning_mono (along_programBlocks even suited.block (by omega) idle_n eepgd_n
    cfgs_n free_n stages) ?_
  rintro _ k ⟨idle_k, mode_k⟩
  exact ⟨idle_k, by rw [mode_k]; exact free_n⟩

/-- An odd origin is refused, after the mode was entered and before anything is programmed. -/
theorem along_programCode_odd (f : Family) {p : Part} {i : Image} (odd : i.origin % 2 ≠ 0)
    (idle : Idle s base lock m) (before : P base) :
    (f.programCode p i).run.Along (fun n => P n.memory)
      (fun v n => v = .error .misaligned ∧ Idle s base lock n ∧ n.mode.free = m.mode.free) m := by
  refine f.along_programCode_of_blocks idle before fun n idle_n _ _ free_n => ?_
  unfold programBlocks
  rw [if_pos odd]
  exact ⟨rfl, idle_n, free_n⟩

/-- A write block may have any number of words, and the image may start and end anywhere in one:
each of its bytes clears bits of the cell at its address, and nothing else changes. -/
theorem programCode_clears (f : Family) {p : Part} {i : Image} {m : Emulator}
    (words : 1 ≤ p.wordsPerWrite) (small : p.codeSize ≤ 0x200000)
    (block : m.setup.writeBlock = 2 * p.wordsPerWrite) (size : m.code.size = p.codeSize)
    (armed : m.armed = none) (latch : m.latch = {}) (configLatch : m.configLatch = {})
    (free : m.flag Eecon1.free = false) (built : i.Built) (even : i.origin % 2 = 0)
    (fits : i.origin + 2 * i.words ≤ p.codeSize) (t : Tracker) :
    ∃ n : Emulator, ((f.programCode p i).tracked t).run.outcome m = (.ok (), n) ∧
      (∀ a, i.origin ≤ a → a < i.origin + 2 * i.words → ∃ old b, m.code[a]? = some old ∧
        i.byteAt? (a - i.origin) = some b ∧ n.code[a]? = some (old &&& b)) ∧
      (∀ a, ¬ (i.origin ≤ a ∧ a < i.origin + 2 * i.words) → n.code[a]? = m.code[a]?) ∧
      n.config = m.config ∧ n.eeprom = m.eeprom := by
  have length : (Blocks.ofImage p i).length = max p.wordsPerWrite 1 := rfl
  have latches : max m.setup.writeBlock 2 = 2 * (Blocks.ofImage p i).length := by omega
  have config : Address.config = 3145728 := rfl
  have low : i.origin + 2 * i.words ≤ Address.config := by omega
  have idle : Idle m.setup m.memory m.lock m := ⟨rfl, rfl, rfl, latch, configLatch, armed⟩
  obtain ⟨⟨⟩, n, ended, done⟩ := outcome_of_returning <|
    f.along_programCode_of_blocks (P := fun _ => True) idle trivial
      fun n idle_n eepgd_n cfgs_n free_n => along_returning_mono
        (along_programBlocks (P := fun _ => True) even latches low idle_n eepgd_n cfgs_n
          (free_n.trans free) fun _ => trivial) fun _ _ h => h.1
  have code : n.code = (m.memory.program i (i.origin + 2 * i.words)).code :=
    congrArg Memory.code done.memory
  refine ⟨n, (outcome_tracked _ t m).trans ended, fun a low high => ?_, fun a outside => ?_,
    congrArg Memory.config done.memory, congrArg Memory.eeprom done.memory⟩
  · have inside : a < m.code.size := by omega
    refine ⟨m.code[a], i.cell (a - i.origin), Array.getElem?_eq_getElem inside,
      Image.byteAt?_of_lt built.roomy (by omega), ?_⟩
    simp [code, Memory.program, memory, inside, low, high]
  · simp [code, Memory.program, memory, outside]

def threeWords : Part :=
  { f2xx.part "PIC18F452" 0x04 0b001 32 with codeSize := 24, wordsPerWrite := 3 }

def threeWordsPatterned : Emulator :=
  { Emulator.new { codeSize := 24, writeBlock := 6 } with code := Array.replicate 24 0x3C }

def twoWords : Image :=
  { Image.blank 4 10 with
    code := Image.storeCode (.replicate 4 erased) 0 [0xF0, 0x0F, 0x55, 0xAA]
    size := 4 }

theorem programCode_clears_threeWords : ∃ n,
    ((f2xx.programCode threeWords twoWords).tracked
      { operation := .program, total := 4 }).run.outcome threeWordsPatterned = (.ok (), n) ∧
      n.code[10]? = some 0x30 ∧ n.code[13]? = some 0x28 ∧ n.code[9]? = some 0x3C := by
  have put : (Image.blank 4 10).putCode 0 [0xF0, 0x0F, 0x55, 0xAA] = .ok twoWords := rfl
  obtain ⟨n, ran, inside, outside, -⟩ := programCode_clears f2xx (p := threeWords) (i := twoWords)
    (m := threeWordsPatterned) (by decide) (by decide) rfl rfl rfl rfl rfl rfl
    (.putCode (.blank 4 10) put) rfl (by decide) { operation := .program, total := 4 }
  refine ⟨n, ran, ?_, ?_, outside 9 (by decide)⟩
  · obtain ⟨old, b, held, byte, cleared⟩ := inside 10 (by decide) (by decide)
    obtain rfl := Option.some.inj (held.symm.trans (show _ = some 0x3C from rfl))
    obtain rfl := Option.some.inj (byte.symm.trans (show _ = some 0xF0 from rfl))
    exact cleared
  · obtain ⟨old, b, held, byte, cleared⟩ := inside 13 (by decide) (by decide)
    obtain rfl := Option.some.inj (held.symm.trans (show _ = some 0x3C from rfl))
    obtain rfl := Option.some.inj (byte.symm.trans (show _ = some 0xAA from rfl))
    exact cleared

end Family

end InCircuit
