import InCircuit.Proofs.Emulator.Journal
import InCircuit.Proofs.Pacing
import InCircuit.Proofs.TableMemory

set_option autoImplicit false

/-!
# Write buffers

What programming code sends comes in buffers, one for each write block that the image reaches. A
buffer is loaded from the start of its block on, and its last word starts the cycle. Where a table
write goes is told by a table memory that follows the pointer.
-/
namespace InCircuit

structure TableWrite where
  address : Nat
  word : UInt16
  starts : Bool
deriving DecidableEq

namespace TableMemory

def tableWrites (m : TableMemory) : List Transfer → List TableWrite
  | [] => []
  | t :: ts =>
    match t.effect with
    | .latch word starts => ⟨m.pointer, word, starts⟩ :: tableWrites (Link.clock t m).2 ts
    | _ => tableWrites (Link.clock t m).2 ts

theorem tableWrites_append (m : TableMemory) (ts later : List Transfer) :
    m.tableWrites (ts ++ later) =
      m.tableWrites ts ++ (Link.afterAll m ts).tableWrites later := by
  induction ts generalizing m with
  | nil => rfl
  | cons t ts ih =>
    rw [List.cons_append, tableWrites, tableWrites, ih]
    cases t.effect <;> rfl

theorem tableWrites_flatMap {κ : Type} {plan : κ → List Transfer} {writes : κ → List TableWrite}
    {ks : List κ} (h : ∀ k ∈ ks, ∀ m, tableWrites m (plan k) = writes k) (m : TableMemory) :
    m.tableWrites (ks.flatMap plan) = ks.flatMap writes := by
  induction ks generalizing m with
  | nil => rfl
  | cons k ks ih =>
    obtain ⟨first, later⟩ := List.forall_mem_cons.mp h
    rw [List.flatMap_cons, tableWrites_append, first, ih later, List.flatMap_cons]

theorem tableWrites_instructions (m : TableMemory) (is : List Instruction) :
    m.tableWrites (is.map Transfer.instruction) = [] := by
  induction is generalizing m with
  | nil => rfl
  | cons i is ih =>
    have effect : (Transfer.instruction i).effect = .execute i := by
      simp [Transfer.instruction, Transfer.effect]
    rw [List.map_cons, tableWrites, effect]
    exact ih _

theorem answers (t : Transfer) (m : TableMemory) : ∃ b, (Link.clock t m).1 = .ok b := by
  cases t <;> exact ⟨_, rfl⟩

theorem afterAll_pointing (m : TableMemory) {address : Nat} (h : address ≤ Address.last) :
    (Link.afterAll m (Transfer.pointing address)).pointer = address := by
  have last : Address.last = 16777215 := rfl
  have whole := TablePointer.set_bytes m.pointer (show address < 16777216 by omega)
  simpa [Link.afterAll, Transfer.pointing, Transfer.instruction, Link.clock, transmit, execute,
    TablePointer.upper, TablePointer.high, TablePointer.low] using whole

end TableMemory

/-! ## One buffer -/

def Transfer.loading : List UInt16 → List Transfer
  | [] => []
  | [w] => [.transmit .tableWriteStart w]
  | w :: v :: ws => .transmit .tableWritePostInc2 w :: loading (v :: ws)

theorem Routine.sends_loadBuffer {ε : Type} (ws : List UInt16) :
    Sends (loadBuffer ws : Routine ε Unit) (Transfer.loading ws) := by
  induction ws with
  | nil => exact sends_pure ()
  | cons w ws ih =>
    cases ws with
    | nil => exact sends_transmit _ w
    | cons v ws => exact (sends_transmit _ w).bind fun _ => ih

namespace TableWrite

def buffer (address : Nat) : List UInt16 → List TableWrite
  | [] => []
  | [w] => [⟨address, w, true⟩]
  | w :: v :: ws => ⟨address, w, false⟩ :: buffer (address + 2) (v :: ws)

theorem buffer_eq_append {ws : List UInt16} (some : ws ≠ []) (address : Nat) :
    ∃ before last, buffer address ws = before ++ [last] ∧ last.starts = true ∧
      ∀ w ∈ before, w.starts = false := by
  induction ws generalizing address with
  | nil => exact absurd rfl some
  | cons w ws ih =>
    cases ws with
    | nil => exact ⟨[], ⟨address, w, true⟩, rfl, rfl, by simp⟩
    | cons v ws =>
      obtain ⟨before, last, whole, starts, plain⟩ := ih (List.cons_ne_nil v ws) (address + 2)
      exact ⟨⟨address, w, false⟩ :: before, last, by rw [buffer, whole]; rfl, starts,
        List.forall_mem_cons.mpr ⟨rfl, plain⟩⟩

theorem getElem?_buffer (address : Nat) (ws : List UInt16) (k : Nat) :
    (buffer address ws)[k]? =
      ws[k]?.map fun w => ⟨address + 2 * k, w, decide (k + 1 = ws.length)⟩ := by
  induction ws generalizing address k with
  | nil => rfl
  | cons w ws ih =>
    cases ws with
    | nil => cases k <;> rfl
    | cons v ws =>
      cases k with
      | zero => rfl
      | succ k =>
        have onwards : address + 2 + 2 * k = address + 2 * (k + 1) := by omega
        simp [buffer, ih, onwards]

end TableWrite

namespace TableMemory

open Transfer TableWrite

@[simp]
theorem pointer_tableWrite (m : TableMemory) (word : UInt16) :
    (m.tableWrite word).pointer = m.pointer := by
  unfold tableWrite
  split <;> rfl

theorem tableWrites_loading (ws : List UInt16) (rest : List Transfer)
    (quiet : ∀ m : TableMemory, m.tableWrites rest = []) {m : TableMemory}
    (low : m.pointer + 2 * ws.length ≤ 16777216) :
    m.tableWrites (loading ws ++ rest) = buffer m.pointer ws := by
  induction ws generalizing m with
  | nil => exact quiet m
  | cons w ws ih =>
    cases ws with
    | nil => exact congrArg (List.cons ⟨m.pointer, w, true⟩) (quiet _)
    | cons v ws =>
      rw [List.length_cons] at low
      have moved : ((m.tableWrite w).advance 2).pointer = m.pointer + 2 := by
        rw [advance, pointer_tableWrite, Nat.mod_eq_of_lt (by omega)]
      have next := @ih ((m.tableWrite w).advance 2) (by omega)
      rw [moved] at next
      exact congrArg (List.cons ⟨m.pointer, w, false⟩) next

end TableMemory

/-! ## All buffers -/

namespace Routine

open Transfer

namespace Blocks

/-- What the block with this number, counted from the first of the image, is loaded with. -/
def loads (b : Blocks) (i : Image) (k : Nat) : List UInt16 :=
  b.words i (k * b.length) (min (k * b.length + b.length) b.stop)

def buffer (b : Blocks) (i : Image) (k : Nat) : List TableWrite :=
  TableWrite.buffer (b.start + 2 * (k * b.length)) (b.loads i k)

def transfers (b : Blocks) (i : Image) (k : Nat) : List Transfer :=
  pointing (b.start + 2 * (k * b.length)) ++ (loading (b.loads i k) ++ cycleTime)

end Blocks

theorem sends_blocks (b : Blocks) (i : Image) (low : b.start + 2 * b.stop ≤ 16777216)
    (count k : Nat) (needed : (k + count) * b.length < b.stop + b.length) :
    Sends (b.program i count (k * b.length)) ((List.range' k count).flatMap (b.transfers i)) := by
  have last : Address.last = 16777215 := rfl
  induction count generalizing k with
  | zero => exact sends_pure ()
  | succ count ih =>
    have more : (k + (count + 1)) * b.length = k * b.length + b.length + count * b.length := by
      rw [← Nat.succ_mul, ← Nat.add_mul]
      congr 1
      omega
    have next : k * b.length + min b.length (b.stop - k * b.length) =
        min (k * b.length + b.length) b.stop := by omega
    -- Only the last block may end before its last word, and no block comes after it.
    have rest : Sends (b.program i count (min (k * b.length + b.length) b.stop))
        ((List.range' (k + 1) count).flatMap (b.transfers i)) := by
      cases count with
      | zero => exact sends_pure ()
      | succ count =>
        have full : min (k * b.length + b.length) b.stop = (k + 1) * b.length := by
          rw [Nat.succ_mul] at more ⊢
          omega
        rw [full]
        exact ih (k + 1) (by rwa [Nat.add_right_comm])
    unfold Blocks.program
    rw [next, List.range'_succ, List.flatMap_cons, Blocks.transfers, List.append_assoc,
      List.append_assoc]
    exact (sends_setPointer (by omega)).bind fun _ => (sends_loadBuffer _).bind fun _ =>
      sends_postProgram.bind fun _ => (sends_emit _).bind fun _ => rest

theorem sends_programBlocks {p : Part} {i : Image} (even : i.origin % 2 = 0)
    (low : i.origin + 2 * i.words ≤ 16777216) :
    Sends (programBlocks p i) ((List.range (pieces (Blocks.ofImage p i).stop
      (Blocks.ofImage p i).length)).flatMap ((Blocks.ofImage p i).transfers i)) := by
  have stop := Blocks.start_stop p i even
  have needed := pieces_mul_lt (Blocks.ofImage p i).stop (Blocks.length_pos p i)
  have blocks := sends_blocks (Blocks.ofImage p i) i (by omega) (pieces (Blocks.ofImage p i).stop
    (Blocks.ofImage p i).length) 0 (by rwa [Nat.zero_add])
  rw [Nat.zero_mul, ← List.range_eq_range'] at blocks
  unfold programBlocks
  rw [if_neg (by omega)]
  have whole := (sends_emit .start).bind fun _ => blocks.bind fun _ => sends_emit .finish
  rwa [List.nil_append, List.append_nil] at whole

namespace Blocks

variable {p : Part} {i : Image}

theorem getElem?_words (b : Blocks) (i : Image) (slot stop k : Nat) :
    (b.words i slot stop)[k]? = if slot + k < stop then some (b.word i (slot + k)) else none := by
  rw [words, List.getElem?_map]
  by_cases inside : slot + k < stop
  · rw [if_pos inside, List.getElem?_range' (by omega), Nat.one_mul]
    rfl
  · rw [if_neg inside, List.getElem?_eq_none (by rw [List.length_range']; omega)]
    rfl

theorem mem_buffer {b : Blocks} {k : Nat} {w : TableWrite} :
    w ∈ b.buffer i k ↔
      ∃ s, k * b.length ≤ s ∧ s < k * b.length + b.length ∧ s < b.stop ∧
        w.address = b.start + 2 * s ∧ w.word = b.word i s ∧
        w.starts = decide (s + 1 = min (k * b.length + b.length) b.stop) := by
  rw [List.mem_iff_getElem?, buffer]
  generalize first : k * b.length = slot
  simp only [TableWrite.getElem?_buffer, loads, getElem?_words, length_words, first]
  constructor
  · rintro ⟨j, found⟩
    obtain ⟨x, word, rfl⟩ := Option.map_eq_some_iff.mp found
    obtain ⟨inside, word⟩ := Option.ite_none_right_eq_some.mp word
    exact ⟨slot + j, by omega, by omega, by omega, by simp; omega, (Option.some.inj word).symm,
      decide_eq_decide.mpr (by omega)⟩
  · obtain ⟨address, word, starts⟩ := w
    rintro ⟨s, low, short, inside, rfl, rfl, rfl⟩
    have onwards : slot + (s - slot) = s := by omega
    refine ⟨s - slot, ?_⟩
    rw [if_pos (by omega), onwards, Option.map_some, Option.some_inj, TableWrite.mk.injEq]
    exact ⟨by omega, rfl, decide_eq_decide.mpr (by omega)⟩

theorem start_eq (words : 1 ≤ p.wordsPerWrite) : (ofImage p i).start =
    2 * p.wordsPerWrite * (i.origin / (2 * p.wordsPerWrite)) := by
  have length : max p.wordsPerWrite 1 = p.wordsPerWrite := Nat.max_eq_left words
  have whole := Nat.div_add_mod i.origin (2 * p.wordsPerWrite)
  simp only [ofImage, length]
  omega

theorem address_div (words : 1 ≤ p.wordsPerWrite) (s : Nat) :
    ((ofImage p i).start + 2 * s) / (2 * p.wordsPerWrite) =
      i.origin / (2 * p.wordsPerWrite) + s / p.wordsPerWrite := by
  rw [start_eq words, Nat.mul_add_div (by omega), Nat.mul_div_mul_left _ _ (by decide)]

theorem origin_mod (words : 1 ≤ p.wordsPerWrite) (even : i.origin % 2 = 0) :
    i.origin % (2 * p.wordsPerWrite) = 2 * (ofImage p i).lead := by
  have whole := Nat.div_add_mod i.origin (2 * p.wordsPerWrite)
  have lead := start_lead p i even
  rw [start_eq words] at lead
  omega

theorem word_eq (even : i.origin % 2 = 0) (s : Nat) :
    (ofImage p i).word i s = if (ofImage p i).start + 2 * s < i.origin then 0xFFFF
      else i.wordAt (((ofImage p i).start + 2 * s - i.origin) / 2) := by
  have lead := start_lead p i even
  rw [word]
  split
  · rw [if_pos (by omega)]
  · rw [if_neg (by omega)]
    congr 1
    omega

/-- The table writes of a buffer for block `b` of the part: one for each of its words before the end
of the image, of which the last starts the cycle. -/
structure Fills (p : Part) (i : Image) (b : Nat) (ws : List TableWrite) : Prop where
  ends : ∃ before last, ws = before ++ [last] ∧ last.starts = true ∧
    ∀ w ∈ before, w.starts = false
  inside : ∀ w ∈ ws, w.address % 2 = 0 ∧ w.address / (2 * p.wordsPerWrite) = b ∧
    w.address < i.origin + 2 * i.words
  word : ∀ w ∈ ws, w.word =
    if w.address < i.origin then 0xFFFF else i.wordAt ((w.address - i.origin) / 2)
  whole : ∀ a, a % 2 = 0 → a / (2 * p.wordsPerWrite) = b → a < i.origin + 2 * i.words →
    ∃ w ∈ ws, w.address = a

theorem fills_buffer (words : 1 ≤ p.wordsPerWrite) (even : i.origin % 2 = 0) {k : Nat}
    (inside : k * (ofImage p i).length < (ofImage p i).stop) :
    Fills p i (i.origin / (2 * p.wordsPerWrite) + k) ((ofImage p i).buffer i k) := by
  have length : (ofImage p i).length = p.wordsPerWrite := Nat.max_eq_left words
  have stop := start_stop p i even
  have start := start_even p i
  have mem (w : TableWrite) := mem_buffer (b := ofImage p i) (i := i) (k := k) (w := w)
  rw [length] at mem inside
  constructor
  · refine TableWrite.buffer_eq_append (fun empty => ?_) _
    have size := length_words (ofImage p i) i (k * p.wordsPerWrite)
      (min (k * p.wordsPerWrite + p.wordsPerWrite) (ofImage p i).stop)
    rw [loads, length] at empty
    rw [empty, List.length_nil] at size
    omega
  · intro w hw
    obtain ⟨s, low, high, short, address, -⟩ := (mem w).mp hw
    have quotient : s / p.wordsPerWrite = k := Nat.div_eq_of_lt_le low (by rwa [Nat.succ_mul])
    rw [address, address_div words, quotient]
    exact ⟨by omega, rfl, by omega⟩
  · intro w hw
    obtain ⟨s, -, -, -, address, word, -⟩ := (mem w).mp hw
    rw [word, address, word_eq even]
  · intro a even_a block below
    have low := Nat.mul_div_le a (2 * p.wordsPerWrite)
    rw [block, Nat.mul_add, ← start_eq words] at low
    obtain ⟨s, rfl⟩ : ∃ s, a = (ofImage p i).start + 2 * s :=
      ⟨(a - (ofImage p i).start) / 2, by omega⟩
    rw [address_div words, Nat.add_left_cancel_iff] at block
    have slot := Nat.div_add_mod s p.wordsPerWrite
    have short := Nat.mod_lt s words
    rw [block, Nat.mul_comm] at slot
    exact ⟨⟨_, _, _⟩, (mem _).mpr ⟨s, by omega, by omega, by omega, rfl, rfl, rfl⟩, rfl⟩

/-- A block with an image word is one of the pieces. If there is no word, the slots before an origin
inside a block still make up a piece. -/
theorem mem_range'_pieces (words : 1 ≤ p.wordsPerWrite) (even : i.origin % 2 = 0) (b : Nat) :
    b ∈ List.range' (i.origin / (2 * p.wordsPerWrite))
        (pieces (ofImage p i).stop (ofImage p i).length) ↔
      (∃ k < i.words, (i.origin + 2 * k) / (2 * p.wordsPerWrite) = b) ∨
        i.words = 0 ∧ i.origin % (2 * p.wordsPerWrite) ≠ 0 ∧
          b = i.origin / (2 * p.wordsPerWrite) := by
  have length : (ofImage p i).length = p.wordsPerWrite := Nat.max_eq_left words
  have start := start_lead p i even
  have stop : (ofImage p i).stop = (ofImage p i).lead + i.words := rfl
  have lead := origin_mod words even
  have short := Nat.mod_lt i.origin (show 0 < 2 * p.wordsPerWrite by omega)
  have slot (s : Nat) (h : (ofImage p i).lead ≤ s) :
      i.origin + 2 * (s - (ofImage p i).lead) = (ofImage p i).start + 2 * s := by omega
  rw [length, List.mem_range'_1]
  constructor
  · rintro ⟨low, high⟩
    obtain ⟨j, rfl⟩ := Nat.exists_eq_add_of_le low
    have inside := (lt_pieces words).mp (Nat.lt_of_add_lt_add_left high)
    rcases Nat.eq_zero_or_pos i.words with none | some
    · rcases Nat.eq_zero_or_pos j with rfl | later
      · exact .inr ⟨none, by omega, rfl⟩
      · have := Nat.mul_le_mul_right p.wordsPerWrite later
        omega
    · let s := max (j * p.wordsPerWrite) (ofImage p i).lead
      refine .inl ⟨s - (ofImage p i).lead, by omega, ?_⟩
      rw [slot s (Nat.le_max_right _ _), address_div words, Nat.add_left_cancel_iff]
      exact Nat.div_eq_of_lt_le (Nat.le_max_left _ _) (by rw [Nat.succ_mul]; omega)
  · rintro (⟨k, inside, rfl⟩ | ⟨none, within, rfl⟩)
    · have here := slot ((ofImage p i).lead + k) (Nat.le_add_right _ _)
      rw [Nat.add_sub_cancel_left] at here
      rw [here, address_div words, Nat.add_lt_add_iff_left, lt_pieces words]
      exact ⟨Nat.le_add_right _ _, Nat.lt_of_le_of_lt (Nat.div_mul_le_self _ _) (by omega)⟩
    · have some := (lt_pieces words).mpr (show 0 * p.wordsPerWrite < (ofImage p i).stop by omega)
      omega

theorem tableWrites_transfers {b : Blocks} (low : b.start + 2 * b.stop ≤ 16777216) {k : Nat}
    (inside : k * b.length < b.stop) (i : Image) (m : TableMemory) :
    m.tableWrites (b.transfers i k) = b.buffer i k := by
  have last : Address.last = 16777215 := rfl
  have here := TableMemory.afterAll_pointing m
    (show b.start + 2 * (k * b.length) ≤ Address.last by omega)
  have size := b.length_words i (k * b.length) (min (k * b.length + b.length) b.stop)
  have loaded := TableMemory.tableWrites_loading (b.loads i k) cycleTime (fun _ => rfl)
    (m := Link.afterAll m (pointing (b.start + 2 * (k * b.length)))) (by rw [here, loads]; omega)
  rw [here] at loaded
  rw [transfers, TableMemory.tableWrites_append, loaded]
  exact congrArg (· ++ _) (m.tableWrites_instructions _)

end Blocks

/-- Over a link that fails no transfer, each write block that holds an image word gets one buffer
and one cycle, in order. No other block does, but that of an origin inside a block when the image
has no word. -/
theorem programBlocks_fills {σ : Type} [Link σ] {p : Part} {i : Image}
    (words : 1 ≤ p.wordsPerWrite) (even : i.origin % 2 = 0)
    (low : i.origin + 2 * i.words ≤ 16777216) (t : Tracker) (l : σ)
    (carried : ∀ x ∈ ((programBlocks p i).tracked t).run.exchanges l, ∃ b, x.2 = .ok b) :
    (((programBlocks p i).tracked t).run.outcome l).1 = .ok () ∧
      ∃ (said : List (Transfer × UInt8)) (blocks : List Nat) (buffer : Nat → List TableWrite),
        ((programBlocks p i).tracked t).run.exchanges l = said.map (fun x => (x.1, .ok x.2)) ∧
        (∀ m : TableMemory, m.tableWrites (said.map Prod.fst) = blocks.flatMap buffer) ∧
        blocks.Pairwise (· < ·) ∧
        (∀ b, b ∈ blocks ↔
          (∃ k < i.words, (i.origin + 2 * k) / (2 * p.wordsPerWrite) = b) ∨
            i.words = 0 ∧ i.origin % (2 * p.wordsPerWrite) ≠ 0 ∧
              b = i.origin / (2 * p.wordsPerWrite)) ∧
        ∀ b ∈ blocks, Blocks.Fills p i b (buffer b) := by
  have stop := Blocks.start_stop p i even
  have inside (k : Nat) (h : k < pieces (Blocks.ofImage p i).stop (Blocks.ofImage p i).length) :
      k * (Blocks.ofImage p i).length < (Blocks.ofImage p i).stop :=
    (lt_pieces (Blocks.length_pos p i)).mp h
  obtain ⟨said, exchanged, ⟨⟨⟩, ok⟩, sent⟩ :=
    (Procedure.says_tracked (sends_programBlocks even low) t).said l carried
  let first := i.origin / (2 * p.wordsPerWrite)
  refine ⟨ok, said, List.range' first _, fun b => (Blocks.ofImage p i).buffer i (b - first),
    exchanged, fun m => ?_, List.pairwise_lt_range', Blocks.mem_range'_pieces words even,
    fun b mem => ?_⟩
  · rw [sent, TableMemory.tableWrites_flatMap fun k mem => Blocks.tableWrites_transfers (by omega)
      (inside k (List.mem_range.mp mem)) i, List.range'_eq_map_range, List.flatMap_map]
    simp only [Nat.add_sub_cancel_left]
  · obtain ⟨low, high⟩ := List.mem_range'_1.mp mem
    obtain ⟨k, rfl⟩ := Nat.exists_eq_add_of_le low
    have filled := Blocks.fills_buffer words even (inside k (by omega))
    simpa only [Nat.add_sub_cancel_left] using filled

/-- The last word of one block and the first of the next. -/
theorem programBlocks_fills_twoWords :
    ∃ (said : List (Transfer × UInt8)) (blocks : List Nat) (buffer : Nat → List TableWrite),
      ((programBlocks Family.threeWords Family.twoWords).tracked
          { operation := .program, total := 4 }).run.exchanges ({} : TableMemory) =
        said.map (fun x => (x.1, .ok x.2)) ∧
      TableMemory.tableWrites {} (said.map Prod.fst) = blocks.flatMap buffer ∧
      0 ∉ blocks ∧ 1 ∈ blocks ∧ 2 ∈ blocks ∧ 3 ∉ blocks ∧
      Blocks.Fills Family.threeWords Family.twoWords 1 (buffer 1) := by
  obtain ⟨-, said, blocks, buffer, exchanged, written, -, mem, fills⟩ := programBlocks_fills
    (p := Family.threeWords) (i := Family.twoWords) (by decide) rfl (by decide)
    { operation := .program, total := 4 } ({} : TableMemory)
    (Procedure.carried_of_answers TableMemory.answers _ _)
  have first : 1 ∈ blocks := (mem 1).mpr (.inl ⟨0, by decide, rfl⟩)
  exact ⟨said, blocks, buffer, exchanged, written {}, by rw [mem]; decide, first,
    (mem 2).mpr (.inl ⟨1, by decide, rfl⟩), by rw [mem]; decide, fills 1 first⟩

/-- The words before the origin of an image without contents are programmed all the same. -/
theorem programBlocks_blank_starts :
    (Image.blank 0 2).words = 0 ∧
      TableMemory.tableWrites {} ((((programBlocks .pic18f452 (.blank 0 2)).tracked
        { operation := .program, total := 0 }).run.exchanges ({} : TableMemory)).map Prod.fst) =
          [⟨0, 0xFFFF, true⟩] := by
  decide

end Routine

end InCircuit
