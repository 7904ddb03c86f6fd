import InCircuit.Proofs.Image.Built
import InCircuit.Readback

set_option autoImplicit false

/-!
# What an image holds

Reading an image byte by byte after a write to it, and comparing two images in the same terms.
-/
namespace InCircuit

namespace Image

/-! ## Code -/

theorem place_place (offset : Nat) : place (place offset) = offset := by
  unfold place
  split <;> split <;> omega

theorem place_lt {offset limit : Nat} (even : limit % 2 = 0) :
    place offset < limit ↔ offset < limit := by
  unfold place
  split <;> omega

/-- Where the cells are distinct, the byte for an offset is not overwritten by those that follow. -/
theorem getElem?_storeBy {cell : Nat → Nat} (distinct : ∀ {a b}, cell a = cell b → a = b)
    (cells : Array UInt8) (offset : Nat) (bytes : List UInt8) (o : Nat) :
    (storeBy cell cells offset bytes)[cell o]? =
      if offset ≤ o ∧ o < offset + bytes.length ∧ cell o < cells.size then bytes[o - offset]?
      else cells[cell o]? := by
  induction bytes generalizing cells offset with
  | nil =>
    have h : ¬ (offset ≤ o ∧ o < offset + 0 ∧ cell o < cells.size) := by omega
    rw [List.length_nil, if_neg h]
    rfl
  | cons b bytes ih =>
    rw [storeBy, ih, Array.getElem?_setIfInBounds, Array.size_setIfInBounds, List.length_cons]
    by_cases he : offset = o
    · subst he
      have hn : ¬ (offset + 1 ≤ offset ∧ offset < offset + 1 + bytes.length ∧
          cell offset < cells.size) := by omega
      rw [if_neg hn, if_pos rfl, Nat.sub_self]
      by_cases hs : cell offset < cells.size
      · simp [hs]
      · simp [hs]
    · have same : (offset + 1 ≤ o ∧ o < offset + 1 + bytes.length ∧ cell o < cells.size) ↔
          (offset ≤ o ∧ o < offset + (bytes.length + 1) ∧ cell o < cells.size) := by omega
      rw [if_neg fun h => he (distinct h)]
      simp only [same]
      split
      · have hd : o - offset = o - (offset + 1) + 1 := by omega
        rw [hd]
        rfl
      · rfl

theorem getElem?_storeCode (code : Array UInt8) (offset : Nat) (bytes : List UInt8) (o : Nat) :
    (storeCode code offset bytes)[place o]? =
      if offset ≤ o ∧ o < offset + bytes.length ∧ place o < code.size then bytes[o - offset]?
      else code[place o]? := by
  have distinct {a b : Nat} (same : place a = place b) : a = b := by
    rw [← place_place a, same, place_place]
  rw [storeCode_eq, getElem?_storeBy distinct]

theorem putCode_blank (origin : Nat) (bytes : List UInt8) (even : bytes.length % 2 = 0) :
    ∃ i : Image, (blank bytes.length origin).putCode 0 bytes = .ok i ∧ i.origin = origin ∧
      i.capacity = bytes.length ∧ i.size = bytes.length ∧ i.config = Vector.replicate 32 none ∧
      ∀ o < bytes.length, i.byteAt? o = bytes[o]? := by
  have fits : ¬ (blank bytes.length origin).capacity / 2 < wordsFor (0 + bytes.length) := by
    rw [capacity_blank, wordsFor]
    omega
  refine ⟨_, by rw [putCode, if_neg fits], rfl, ?_, ?_, rfl, fun o ho => ?_⟩
  · simp [capacity, blank]
  · simp [blank]
  · have hp : place o < (blank bytes.length origin).capacity := by
      simpa [capacity, blank] using (place_lt even).mpr ho
    change (storeCode (blank bytes.length origin).code 0 bytes)[place o]? = _
    rw [getElem?_storeCode, if_pos ⟨Nat.zero_le _, by omega, hp⟩, Nat.sub_zero]

theorem getElem?_extract_place {code : Array UInt8} {limit o : Nat} (h : place o < limit) :
    (code.extract 0 limit)[place o]? = code[place o]? := by
  rw [Array.getElem?_extract]
  by_cases hs : place o < code.size
  · have hm : place o < min limit code.size - 0 := by omega
    rw [if_pos hm, Nat.zero_add]
  · have hn : ¬ place o < min limit code.size - 0 := by omega
    rw [if_neg hn, Array.getElem?_eq_none (by omega)]

theorem extract_eq_iff {i j : Image} {limit : Nat} (even : limit % 2 = 0) :
    i.code.extract 0 limit = j.code.extract 0 limit ↔ ∀ o < limit, i.byteAt? o = j.byteAt? o := by
  constructor
  · intro h o ho
    have hp := (place_lt even).mpr ho
    have := congrArg (fun code => code[place o]?) h
    simp only [getElem?_extract_place hp] at this
    exact this
  · intro h
    apply Array.ext_getElem?
    intro a
    rw [← place_place a]
    by_cases ha : place (place a) < limit
    · rw [getElem?_extract_place ha, getElem?_extract_place ha]
      exact h _ ((place_lt even).mp ha)
    · rw [Array.getElem?_eq_none (by simp; omega), Array.getElem?_eq_none (by simp; omega)]

/-! ## Configuration -/

theorem configAt?_eq (i : Image) {o : Nat} (h : o < 32) : i.configAt? o = i.config[o] := by
  rw [configAt?, Vector.getElem?_eq_getElem h]
  rfl

theorem configAt?_of_le (i : Image) {o : Nat} (h : 32 ≤ o) : i.configAt? o = none := by
  rw [configAt?, Vector.getElem?_eq_none h]
  rfl

theorem lt_of_configAt? {i : Image} {o : Nat} {b : UInt8} (h : i.configAt? o = some b) :
    o < 32 := by
  apply Nat.lt_of_not_le
  intro hle
  rw [configAt?_of_le i hle] at h
  cases h

theorem configAt?_putConfig {i j : Image} {offset : Nat} {value : UInt8}
    (h : i.putConfig offset value = .ok j) (o : Nat) :
    j.configAt? o = if offset = o then some value else i.configAt? o := by
  obtain ⟨inside, rfl⟩ := putConfig_eq_ok.mp h
  rw [configAt?, Vector.getElem?_set]
  split
  · rfl
  · rfl

def withConfig (i : Image) (limit : Nat) (value? : Nat → Option UInt8) : Image :=
  { i with
    config := i.config.mapIdx fun o known => if o < limit then (value? o).or known else known }

theorem withConfig_zero (i : Image) (value? : Nat → Option UInt8) : i.withConfig 0 value? = i := by
  have same : (i.config.mapIdx fun o known => if o < 0 then (value? o).or known else known) =
      i.config := by
    apply Vector.ext
    intro o ho
    simp
  rw [withConfig, same]

theorem putConfig_withConfig (i : Image) {limit : Nat} {value? : Nat → Option UInt8} {b : UInt8}
    (h : limit < 32) (value : value? limit = some b) :
    (i.withConfig limit value?).putConfig limit b = .ok (i.withConfig (limit + 1) value?) := by
  rw [putConfig, dif_pos h]
  simp only [withConfig]
  congr 2
  apply Vector.ext
  intro o ho
  rw [Vector.getElem_set, Vector.getElem_mapIdx, Vector.getElem_mapIdx]
  by_cases he : limit = o
  · subst he
    rw [if_pos rfl, if_pos (by omega), value, Option.some_or]
  · have same : o < limit + 1 ↔ o < limit := by omega
    rw [if_neg he]
    simp only [same]

theorem withConfig_succ_of_none (i : Image) {limit : Nat} {value? : Nat → Option UInt8}
    (absent : value? limit = none) :
    i.withConfig (limit + 1) value? = i.withConfig limit value? := by
  rw [withConfig, withConfig]
  congr 1
  apply Vector.ext
  intro o ho
  rw [Vector.getElem_mapIdx, Vector.getElem_mapIdx]
  by_cases he : limit = o
  · subst he
    rw [if_pos (by omega), if_neg (by omega), absent, Option.none_or]
  · have same : o < limit + 1 ↔ o < limit := by omega
    simp only [same]

theorem configAt?_withConfig (i : Image) {limit : Nat} (value? : Nat → Option UInt8)
    (h : limit ≤ 32) (o : Nat) :
    (i.withConfig limit value?).configAt? o =
      if o < limit then (value? o).or (i.configAt? o) else i.configAt? o := by
  by_cases ho : o < 32
  · rw [configAt?_eq _ ho, configAt?_eq _ ho, withConfig, Vector.getElem_mapIdx]
  · rw [configAt?_of_le _ (by omega), configAt?_of_le _ (by omega), if_neg (by omega)]

theorem knownConfig_eq (i : Image) :
    i.knownConfig = (List.range 32).filterMap fun o => (i.configAt? o).map (o, ·) := by
  have listed : i.config.toList.zipIdx = (List.range 32).map fun o => (i.configAt? o, o) := by
    apply List.ext_getElem?
    intro o
    by_cases ho : o < 32
    · rw [List.getElem?_zipIdx, List.getElem?_map, List.getElem?_range ho, Vector.getElem?_toList,
        Vector.getElem?_eq_getElem ho]
      simp [configAt?_eq i ho]
    · rw [List.getElem?_eq_none (by simp; omega), List.getElem?_eq_none (by simp; omega)]
  rw [knownConfig, listed, List.filterMap_map]
  rfl

theorem mem_knownConfig {i : Image} {o : Nat} {b : UInt8} :
    (o, b) ∈ i.knownConfig ↔ i.configAt? o = some b := by
  rw [knownConfig_eq, List.mem_filterMap]
  constructor
  · rintro ⟨o', _, h⟩
    obtain ⟨b', hb, he⟩ := Option.map_eq_some_iff.mp h
    obtain ⟨rfl, rfl⟩ := Prod.mk.inj he
    exact hb
  · intro h
    exact ⟨o, List.mem_range.mpr (lt_of_configAt? h), by rw [h]; rfl⟩

/-! ## EEPROM -/

theorem getElem?_storeAt (cells : Array UInt8) (offset : Nat) (bytes : List UInt8) (o : Nat) :
    (storeAt cells offset bytes)[o]? =
      if offset ≤ o ∧ o < offset + bytes.length ∧ o < cells.size then bytes[o - offset]?
      else cells[o]? := by
  rw [storeAt_eq]
  exact getElem?_storeBy id cells offset bytes o

def overwrite (cells : Array UInt8) (offset : Nat) (bytes : List UInt8) : Array UInt8 :=
  storeAt (cells ++ Array.replicate (offset + bytes.length - cells.size) erased) offset bytes

theorem getElem?_overwrite (cells : Array UInt8) (offset : Nat) (bytes : List UInt8) (o : Nat) :
    (overwrite cells offset bytes)[o]? =
      if offset ≤ o ∧ o < offset + bytes.length then bytes[o - offset]?
      else if o < cells.size then cells[o]?
      else if o < offset + bytes.length then some erased
      else none := by
  rw [overwrite, getElem?_storeAt, Array.size_append, Array.size_replicate]
  by_cases inside : offset ≤ o ∧ o < offset + bytes.length
  · rw [if_pos inside, if_pos (by omega)]
  · rw [if_neg inside, if_neg (by omega), Array.getElem?_append]
    split
    · rfl
    · rw [Array.getElem?_replicate]
      split
      · rw [if_pos (by omega)]
      · rw [if_neg (by omega)]

@[simp]
theorem size_overwrite (cells : Array UInt8) (offset : Nat) (bytes : List UInt8) :
    (overwrite cells offset bytes).size = max cells.size (offset + bytes.length) := by
  rw [overwrite, size_storeAt, Array.size_append, Array.size_replicate]
  omega

theorem getD_overwrite (cells : Array UInt8) (offset : Nat) (bytes : List UInt8) (o : Nat) :
    (overwrite cells offset bytes).getD o erased =
      if offset ≤ o ∧ o < offset + bytes.length then bytes.getD (o - offset) erased
      else cells.getD o erased := by
  rw [Array.getD_eq_getD_getElem?, getElem?_overwrite]
  split
  · rw [List.getD_eq_getElem?_getD]
  · rw [Array.getD_eq_getD_getElem?]
    split
    · rfl
    · rw [Array.getElem?_eq_none (Nat.le_of_not_lt ‹_›)]
      split <;> rfl

theorem overwrite_empty (cells : Array UInt8) : overwrite #[] 0 cells.toList = cells := by
  apply Array.ext_getElem?
  intro o
  by_cases inside : o < cells.size
  · rw [getElem?_overwrite, Nat.zero_add, Array.length_toList, if_pos ⟨Nat.zero_le o, inside⟩,
      Nat.sub_zero, Array.getElem?_toList]
  · rw [Array.getElem?_eq_none (by simp; omega), Array.getElem?_eq_none (by omega)]

theorem writeEeprom_eq_ok {i j : Image} {offset : Nat} {bytes : List UInt8} :
    i.writeEeprom offset bytes = .ok j ↔ offset + bytes.length ≤ eepromCapacity ∧
      j = { i with eeprom := overwrite i.eeprom offset bytes } := by
  rw [writeEeprom]
  split
  · rename_i full
    exact ⟨fun h => (by cases h), fun h => by omega⟩
  · rename_i room
    exact ⟨fun h => ⟨by omega, (Except.ok.inj h).symm⟩, fun h => congrArg Except.ok h.2.symm⟩

theorem Built.byteAt?_of_size_le {i : Image} (h : Built i) {o : Nat} (past : i.size ≤ o) :
    i.byteAt? o = if place o < i.capacity then some erased else none := by
  induction h with
  | blank capacity origin =>
    rw [byteAt?, Image.capacity, Image.blank, Array.getElem?_replicate, Array.size_replicate]
  | @putCode i j offset bytes _ put ih =>
    obtain ⟨_, rfl⟩ := putCode_eq_ok.mp put
    change max i.size (offset + bytes.length) ≤ o at past
    have outside : ¬ (offset ≤ o ∧ o < offset + bytes.length ∧ place o < i.code.size) := by omega
    change (storeCode i.code offset bytes)[place o]? =
      if place o < (storeCode i.code offset bytes).size then some erased else none
    rw [getElem?_storeCode, if_neg outside, size_storeCode]
    exact ih (by omega)
  | @putConfig i j offset value _ put ih =>
    obtain ⟨_, rfl⟩ := putConfig_eq_ok.mp put
    exact ih past
  | @writeEeprom i j offset bytes _ put ih =>
    obtain ⟨_, rfl⟩ := writeEeprom_eq_ok.mp put
    exact ih past

end Image

/-! ## Comparing -/

namespace Device

def covered (d : Device) (source : Image) : Compared where
  code := 2 * source.words
  config := (d.comparedConfig source).length

/-- The readback has every byte of the source, in whole words of code. -/
structure Agrees (d : Device) (source readback : Image) : Prop where
  source_room : 2 * source.words ≤ source.capacity
  readback_room : 2 * source.words ≤ readback.capacity
  code : ∀ o < 2 * source.words, source.byteAt? o = readback.byteAt? o
  config : ∀ o < d.part.configBytes, ∀ b, source.configAt? o = some b →
    readback.configAt? o = some b

theorem length_comparedConfig (d : Device) (source : Image) (h : d.part.configBytes ≤ 32) :
    (d.comparedConfig source).length =
      ((List.range d.part.configBytes).filter fun o => (source.configAt? o).isSome).length := by
  have split : List.range 32 = List.range d.part.configBytes ++
      (List.range (32 - d.part.configBytes)).map (d.part.configBytes + ·) := by
    rw [← List.range_add]
    congr 1
    omega
  rw [comparedConfig, Image.knownConfig_eq, List.filter_filterMap,
    List.length_filterMap_eq_countP, split, List.countP_append, ← List.countP_eq_length_filter]
  have past : ((List.range (32 - d.part.configBytes)).map (d.part.configBytes + ·)).countP
      (fun o => (((source.configAt? o).map (o, ·)).filter
        (·.1 < d.part.configBytes)).isSome) = 0 := by
    rw [List.countP_eq_zero]
    intro o ho
    obtain ⟨k, _, rfl⟩ := List.mem_map.mp ho
    cases source.configAt? (d.part.configBytes + k) <;> simp
  rw [past, Nat.add_zero]
  apply List.countP_congr
  intro o ho
  have hlt := List.mem_range.mp ho
  cases source.configAt? o <;> simp [hlt]

theorem compare_condition (d : Device) (source readback : Image) :
    (2 * source.words ≤ source.capacity ∧ 2 * source.words ≤ readback.capacity
      ∧ source.code.extract 0 (2 * source.words) = readback.code.extract 0 (2 * source.words)
      ∧ (d.comparedConfig source).all
        (fun (offset, value) => readback.configAt? offset == some value)) ↔
      d.Agrees source readback := by
  have even : 2 * source.words % 2 = 0 := by omega
  have config : ((d.comparedConfig source).all
      (fun (offset, value) => readback.configAt? offset == some value) = true) ↔
      ∀ o < d.part.configBytes, ∀ b, source.configAt? o = some b →
        readback.configAt? o = some b := by
    rw [List.all_eq_true]
    simp only [comparedConfig, List.mem_filter, decide_eq_true_eq, Prod.forall, beq_iff_eq,
      Image.mem_knownConfig, and_imp]
    exact ⟨fun h o ho b hb => h o b hb ho, fun h o b hb ho => h o ho b hb⟩
  rw [config]
  constructor
  · rintro ⟨hs, hr, hcode, hconfig⟩
    exact ⟨hs, hr, (Image.extract_eq_iff even).mp hcode, hconfig⟩
  · rintro ⟨hs, hr, hcode, hconfig⟩
    exact ⟨hs, hr, (Image.extract_eq_iff even).mpr hcode, hconfig⟩

theorem compare_of_agrees {d : Device} {source readback : Image} (h : d.Agrees source readback) :
    d.compare source readback = .ok (d.covered source) :=
  if_pos ((compare_condition d source readback).mpr h)

theorem compare_of_not_agrees {d : Device} {source readback : Image}
    (h : ¬ d.Agrees source readback) :
    d.compare source readback = .error (.mismatch (d.covered source).total) :=
  if_neg (mt (compare_condition d source readback).mp h)

end Device

end InCircuit
