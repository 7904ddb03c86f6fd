import InCircuit.Proofs.Image.Contents

set_option autoImplicit false

/-!
# Where code can be read and written

A write has to stay within the whole words of the capacity, while a read looks for the byte at its
place in the swapped words. The two agree on an even capacity. An odd one leaves half a word at its
end, which no write reaches: it is read at the offset that is the capacity, and is always erased.
-/
namespace InCircuit.Image

variable {i : Image}

/-- The place of an offset is within the region for the whole words, and for the offset whose place
is the half word that is left over. -/
theorem place_lt_iff (capacity o : Nat) :
    place o < capacity ↔ o < 2 * (capacity / 2) ∨ (capacity % 2 = 1 ∧ o = capacity) := by
  unfold place
  split <;> omega

theorem isSome_byteAt?_iff (i : Image) (o : Nat) :
    (i.byteAt? o).isSome ↔ place o < i.capacity := by
  rw [byteAt?, Option.isSome_iff_ne_none, ne_eq, Array.getElem?_eq_none_iff, Nat.not_le]
  rfl

theorem exists_putCode_iff (i : Image) (o : Nat) (b : UInt8) :
    (∃ j, i.putCode o [b] = .ok j) ↔ o < 2 * (i.capacity / 2) := by
  have fits : (∃ j, i.putCode o [b] = .ok j) ↔ wordsFor (o + 1) ≤ i.capacity / 2 :=
    ⟨fun ⟨_, put⟩ => (putCode_eq_ok.mp put).1, fun room => ⟨_, putCode_eq_ok.mpr ⟨room, rfl⟩⟩⟩
  rw [fits, wordsFor]
  omega

theorem toNat_wordAt (i : Image) (k : Nat) :
    (i.wordAt k).toNat = (i.cell (2 * k)).toNat + 256 * (i.cell (2 * k + 1)).toNat := by
  have low := congrArg UInt8.toNat (i.wordAt_low k)
  have high := congrArg UInt8.toNat (i.wordAt_high k)
  have word := (i.wordAt k).toNat_lt
  simp only [Nat.toUInt8, UInt8.toNat_ofNat'] at low high
  omega

/-- The half word at the end of an odd capacity is never written. -/
theorem Built.byteAt?_capacity (h : Built i) (odd : i.capacity % 2 = 1) :
    i.byteAt? i.capacity = some erased := by
  have room := h.roomy
  have inside : place i.capacity < i.capacity := (place_lt_iff _ _).mpr (.inr ⟨odd, rfl⟩)
  rw [words, wordsFor] at room
  rw [h.byteAt?_of_size_le (by omega), if_pos inside]

/-- Whatever has been written, a byte can be read where one can be written, and besides only at the
offset that is an odd capacity, where it is erased. Words are read as their bytes, with the erased
byte where there is none. -/
theorem reads_where_writes (h : Built i) :
    (∀ o b, (i.byteAt? o).isSome ↔
      (∃ j, i.putCode o [b] = .ok j) ∨ (i.capacity % 2 = 1 ∧ o = i.capacity)) ∧
    (i.capacity % 2 = 1 → i.byteAt? i.capacity = some erased) ∧
    ∀ k, (i.wordAt k).toNat = ((i.byteAt? (2 * k)).getD erased).toNat +
      256 * ((i.byteAt? (2 * k + 1)).getD erased).toNat := by
  refine ⟨fun o b => ?_, h.byteAt?_capacity, i.toNat_wordAt⟩
  rw [isSome_byteAt?_iff, exists_putCode_iff, place_lt_iff]

def oddCapacity : Image where
  origin := 0
  code := #[0x22, 0x11, erased]
  size := 2
  config := Vector.replicate 32 none
  eeprom := #[]

theorem built_oddCapacity : Built oddCapacity := by
  have put : (blank 3 0).putCode 0 [0x11, 0x22] = .ok oddCapacity := rfl
  exact .putCode (.blank 3 0) put

theorem reads_where_writes_oddCapacity :
    Built oddCapacity ∧ oddCapacity.byteAt? 3 = some erased ∧
      (oddCapacity.wordAt 0).toNat = 0x2211 := by
  obtain ⟨-, last, word⟩ := reads_where_writes built_oddCapacity
  exact ⟨built_oddCapacity, last rfl, word 0⟩

/-- At the end of an odd capacity a byte is read where none can be written. -/
theorem byteAt?_past_writes :
    Built oddCapacity ∧
      ¬ ((oddCapacity.byteAt? 3).isSome ↔ ∃ j, oddCapacity.putCode 3 [0x33] = .ok j) := by
  refine ⟨built_oddCapacity, fun same => ?_⟩
  obtain ⟨j, put⟩ := same.mp rfl
  cases put

end InCircuit.Image
