import InCircuit.Image
import InCircuit.Instruction

set_option autoImplicit false

/-!
# Images as they are built

Every image comes from a blank one by accepted writes. Such an image has room for the whole words
of its contents, so every byte of those words can be read.
-/
namespace InCircuit.Image

/-- The images that the writers make. -/
inductive Built : Image → Prop
  | blank (capacity origin : Nat) : Built (blank capacity origin)
  | putCode {i j : Image} {offset : Nat} {bytes : List UInt8} (h : Built i)
      (put : i.putCode offset bytes = .ok j) : Built j
  | putConfig {i j : Image} {offset : Nat} {value : UInt8} (h : Built i)
      (put : i.putConfig offset value = .ok j) : Built j
  | writeEeprom {i j : Image} {offset : Nat} {bytes : List UInt8} (h : Built i)
      (put : i.writeEeprom offset bytes = .ok j) : Built j

/-- The byte at a code offset; past the capacity everything is erased. -/
def cell (i : Image) (offset : Nat) : UInt8 := (i.byteAt? offset).getD erased

@[simp]
theorem capacity_blank (capacity origin : Nat) : (blank capacity origin).capacity = capacity :=
  Array.size_replicate

def storeBy (cell : Nat → Nat) (cells : Array UInt8) (offset : Nat) : List UInt8 → Array UInt8
  | [] => cells
  | b :: rest => storeBy cell (cells.setIfInBounds (cell offset) b) (offset + 1) rest

theorem size_storeBy (cell : Nat → Nat) (cells : Array UInt8) (offset : Nat) (bytes : List UInt8) :
    (storeBy cell cells offset bytes).size = cells.size := by
  induction bytes generalizing cells offset with
  | nil => rfl
  | cons b bytes ih => rw [storeBy, ih, Array.size_setIfInBounds]

theorem storeCode_eq (code : Array UInt8) (offset : Nat) (bytes : List UInt8) :
    storeCode code offset bytes = storeBy place code offset bytes := by
  induction bytes generalizing code offset with
  | nil => rfl
  | cons b bytes ih => exact ih _ _

theorem storeAt_eq (cells : Array UInt8) (offset : Nat) (bytes : List UInt8) :
    storeAt cells offset bytes = storeBy id cells offset bytes := by
  induction bytes generalizing cells offset with
  | nil => rfl
  | cons b bytes ih => exact ih _ _

@[simp]
theorem size_storeCode (code : Array UInt8) (offset : Nat) (bytes : List UInt8) :
    (storeCode code offset bytes).size = code.size := by
  rw [storeCode_eq, size_storeBy]

@[simp]
theorem size_storeAt (cells : Array UInt8) (offset : Nat) (bytes : List UInt8) :
    (storeAt cells offset bytes).size = cells.size := by
  rw [storeAt_eq, size_storeBy]

theorem putCode_eq_ok {i j : Image} {offset : Nat} {bytes : List UInt8} :
    i.putCode offset bytes = .ok j ↔
      wordsFor (offset + bytes.length) ≤ i.capacity / 2 ∧
        j = { i with
          code := storeCode i.code offset bytes
          size := max i.size (offset + bytes.length) } := by
  rw [putCode]
  split
  · rename_i full
    exact ⟨fun h => (by cases h), fun h => absurd h.1 (Nat.not_le_of_lt full)⟩
  · rename_i room
    exact ⟨fun h => ⟨Nat.le_of_not_lt room, (Except.ok.inj h).symm⟩,
      fun h => congrArg Except.ok h.2.symm⟩

theorem putConfig_eq_ok {i j : Image} {offset : Nat} {value : UInt8} :
    i.putConfig offset value = .ok j ↔
      ∃ h : offset < 32, j = { i with config := i.config.set offset (some value) h } := by
  rw [putConfig]
  split
  · rename_i inside
    exact ⟨fun h => ⟨inside, (Except.ok.inj h).symm⟩, fun ⟨_, h⟩ => congrArg Except.ok h.symm⟩
  · rename_i outside
    exact ⟨fun h => (by cases h), fun ⟨h, _⟩ => absurd h outside⟩

theorem Built.roomy {i : Image} (h : Built i) : 2 * i.words ≤ i.capacity := by
  induction h with
  | blank capacity origin => simp [words, wordsFor, Image.blank]
  | @putCode i j offset bytes _ put ih =>
    obtain ⟨hfit, rfl⟩ := putCode_eq_ok.mp put
    simp only [words, capacity, wordsFor, size_storeCode] at *
    omega
  | @putConfig i j offset value _ put ih =>
    obtain ⟨_, rfl⟩ := putConfig_eq_ok.mp put
    exact ih
  | @writeEeprom i j offset bytes _ put ih =>
    simp only [Image.writeEeprom] at put
    split at put
    · cases put
    · injection put with put
      subst put
      exact ih

theorem byteAt?_of_lt {i : Image} (h : 2 * i.words ≤ i.capacity) {offset : Nat}
    (ho : offset < 2 * i.words) : i.byteAt? offset = some (i.cell offset) := by
  have hp : place offset < i.code.size := by
    have : i.capacity = i.code.size := rfl
    unfold place
    split <;> omega
  rw [cell, byteAt?, Array.getElem?_eq_getElem hp]
  rfl

/-! ## The bytes of a word -/

theorem low_word (high low : UInt8) :
    (UInt16.ofNat (high.toNat * 256 + low.toNat)).toNat.toUInt8 = low := by
  rw [Nat.mul_comm, Instruction.toNat_word low high.toNat_lt, Instruction.toUInt8_word]

theorem high_word (high low : UInt8) :
    ((UInt16.ofNat (high.toNat * 256 + low.toNat)).toNat / 256).toUInt8 = high := by
  have hl := low.toNat_lt
  rw [Nat.mul_comm, Instruction.toNat_word low high.toNat_lt, Nat.mul_add_div (by decide),
    Nat.div_eq_of_lt hl, Nat.add_zero]
  exact UInt8.ofNat_toNat

theorem wordAt_low (i : Image) (index : Nat) :
    (i.wordAt index).toNat.toUInt8 = i.cell (2 * index) := by
  have even : 2 * index % 2 = 0 := by omega
  rw [wordAt, low_word, cell, byteAt?, place, if_pos even, Array.getD_eq_getD_getElem?]

theorem wordAt_high (i : Image) (index : Nat) :
    ((i.wordAt index).toNat / 256).toUInt8 = i.cell (2 * index + 1) := by
  have odd : ¬ (2 * index + 1) % 2 = 0 := by omega
  rw [wordAt, high_word, cell, byteAt?, place, if_neg odd, Array.getD_eq_getD_getElem?,
    Nat.add_sub_cancel]

end InCircuit.Image
