import InCircuit.Proofs.IntelHex.Filling
import Mathlib.Data.List.Basic

set_option autoImplicit false

/-!
# Images read back from their files

A file says nothing of the origin of an image. The image read back starts at address 0, erased
below the origin of the one written, and has the same bytes everywhere else.
-/
namespace InCircuit

namespace Image

open IntelHex

variable {i j : Image}

/-! ## Code -/

theorem codeBytes_eq (room : 2 * i.words ≤ i.capacity) :
    i.codeBytes = (List.range i.size).map i.cell := by
  refine List.filterMap_eq_map_iff_forall_eq_some.mpr fun o ho => byteAt?_of_lt room ?_
  have := List.mem_range.mp ho
  rw [words, wordsFor]
  omega

theorem length_codeBytes (room : 2 * i.words ≤ i.capacity) : i.codeBytes.length = i.size := by
  rw [codeBytes_eq room, List.length_map, List.length_range]

/-! ## Configuration -/

def putKnown (i : Image) : List (Nat × UInt8) → Except Fault Image
  | [] => .ok i
  | (offset, value) :: rest => do
    let i ← i.putConfig offset value
    i.putKnown rest

theorem putKnown_append (i : Image) (xs ys : List (Nat × UInt8)) :
    i.putKnown (xs ++ ys) = (i.putKnown xs >>= fun i => i.putKnown ys) := by
  induction xs generalizing i with
  | nil => rfl
  | cons x xs ih =>
    rw [List.cons_append, putKnown, putKnown]
    cases i.putConfig x.1 x.2 with
    | error e => rfl
    | ok k => exact ih k

def configRuns (known : List (Nat × UInt8)) : List (Nat × List UInt8) :=
  (runs known).map fun (offset, bytes) => (Place.configBase + offset, bytes)

theorem runs_within {known : List (Nat × UInt8)} {limit : Nat} (low : ∀ x ∈ known, x.1 < limit) :
    ∀ run ∈ runs known, run.1 + run.2.length ≤ limit := by
  induction known with
  | nil => exact fun _ h => nomatch h
  | cons x known ih =>
    have first := low x List.mem_cons_self
    have rest := ih fun y hy => low y (List.mem_cons_of_mem _ hy)
    rw [runs]
    split
    · rename_i next bytes others joined
      rw [joined] at rest
      have following : next + bytes.length ≤ limit := rest (next, bytes) List.mem_cons_self
      split
      · rename_i adjacent
        rintro run (_ | ⟨_, hrun⟩)
        · change x.1 + (bytes.length + 1) ≤ limit
          omega
        · exact rest run (List.mem_cons_of_mem _ hrun)
      · rintro run (_ | ⟨_, hrun⟩)
        · exact first
        · exact rest run hrun
    · rintro run (_ | ⟨_, hrun⟩)
      · exact first
      · cases hrun

theorem applyRun_config {offset : Nat} {bytes : List UInt8}
    (inside : offset + bytes.length ≤ configCapacity) :
    i.applyRun (Place.configBase + offset) bytes = i.putConfigs offset bytes := by
  cases bytes with
  | nil => rfl
  | cons b bytes =>
    rw [List.length_cons] at inside
    rw [applyRun, if_neg (List.cons_ne_nil b bytes), apply_config (by omega)]

theorem fill_configRuns {known : List (Nat × UInt8)} (low : ∀ x ∈ known, x.1 < configCapacity)
    (rest : List (Nat × List UInt8)) :
    i.fill (configRuns known ++ rest) = (i.putKnown known >>= fun i => i.fill rest) := by
  induction known generalizing i with
  | nil => rfl
  | cons x known ih =>
    obtain ⟨offset, value⟩ := x
    have first : offset < configCapacity := low (offset, value) List.mem_cons_self
    have later : ∀ x ∈ known, x.1 < configCapacity := fun x hx => low x (List.mem_cons_of_mem _ hx)
    have within := runs_within later
    have single : i.applyRun (Place.configBase + offset) [value] = i.putConfig offset value := by
      rw [applyRun_config first, putConfigs]
      cases i.putConfig offset value with
      | error e => rfl
      | ok k => rfl
    have known_first : (i.putKnown ((offset, value) :: known) >>= fun i => i.fill rest) =
        (i.putConfig offset value >>= fun i => i.fill (configRuns known ++ rest)) := by
      rw [putKnown]
      cases i.putConfig offset value with
      | error e => rfl
      | ok k => exact (ih later).symm
    rw [known_first, configRuns, configRuns, runs]
    split
    · rename_i next bytes others joined
      rw [joined] at within ⊢
      have following : next + bytes.length ≤ configCapacity :=
        within (next, bytes) List.mem_cons_self
      split
      · rename_i adjacent
        subst adjacent
        change (i.applyRun (Place.configBase + offset) (value :: bytes) >>= fun i => i.fill _) = _
        rw [applyRun_config (by rw [List.length_cons]; omega), putConfigs]
        cases i.putConfig offset value with
        | error e => rfl
        | ok k =>
          change (k.putConfigs (offset + 1) bytes >>= fun i => i.fill _) =
            (k.applyRun (Place.configBase + (offset + 1)) bytes >>= fun i => i.fill _)
          rw [applyRun_config following]
      · change (i.applyRun (Place.configBase + offset) [value] >>= fun i => i.fill _) = _
        rw [single]
        rfl
    · rename_i joined
      rw [joined]
      change (i.applyRun (Place.configBase + offset) [value] >>= fun i => i.fill _) = _
      rw [single]
      rfl

theorem putKnown_range (i source : Image) {limit : Nat} (h : limit ≤ 32) :
    i.putKnown ((List.range limit).filterMap fun o => (source.configAt? o).map (o, ·)) =
      .ok (i.withConfig limit source.configAt?) := by
  induction limit with
  | zero =>
    rw [withConfig_zero]
    rfl
  | succ limit ih =>
    rw [List.range_succ, List.filterMap_append, putKnown_append, ih (by omega)]
    change (i.withConfig limit source.configAt?).putKnown _ = _
    cases known : source.configAt? limit with
    | none =>
      rw [withConfig_succ_of_none i known, List.filterMap_cons_none (by rw [known]; rfl)]
      rfl
    | some b =>
      rw [List.filterMap_cons_some (by rw [known]; rfl)]
      change ((i.withConfig limit source.configAt?).putConfig limit b >>= fun i => .ok i) = _
      rw [putConfig_withConfig i (by omega) known]
      rfl

theorem putKnown_knownConfig (i : Image) {j : Image} (h : j.config = Vector.replicate 32 none) :
    j.putKnown i.knownConfig = .ok { j with config := i.config } := by
  rw [knownConfig_eq, putKnown_range j i (Nat.le_refl 32), withConfig]
  congr 2
  apply Vector.ext
  intro o ho
  rw [Vector.getElem_mapIdx, if_pos ho, configAt?_eq i ho]
  simp only [h, Vector.getElem_replicate, Option.or_none]

/-! ## EEPROM -/

theorem applyRun_eeprom (i : Image) {j : Image} (empty : j.eeprom = #[])
    (room : i.eeprom.size ≤ eepromCapacity) :
    j.applyRun Place.eepromBase i.eeprom.toList = .ok { j with eeprom := i.eeprom } := by
  rw [applyRun]
  split
  · rename_i nothing
    have same : i.eeprom = #[] := Array.toList_inj.mp nothing
    rw [same, ← empty]
  · change j.apply (Place.eepromBase + 0) _ _ = _
    rw [apply_eeprom (by decide), writeEeprom_eq_ok, empty, overwrite_empty, Nat.zero_add]
    exact ⟨room, rfl⟩

theorem Built.eeprom_le (h : Built i) : i.eeprom.size ≤ eepromCapacity := by
  induction h with
  | blank capacity origin => exact Nat.zero_le _
  | @putCode i j offset bytes _ put ih =>
    obtain ⟨_, rfl⟩ := putCode_eq_ok.mp put
    exact ih
  | @putConfig i j offset value _ put ih =>
    obtain ⟨_, rfl⟩ := putConfig_eq_ok.mp put
    exact ih
  | @writeEeprom i j offset bytes _ put ih =>
    obtain ⟨room, rfl⟩ := writeEeprom_eq_ok.mp put
    rw [size_overwrite]
    omega

/-! ## The image read back -/

/-- An image with its contents placed from address 0 on, as a file has them. -/
def grounded (i : Image) (capacity : Nat) : Image where
  origin := 0
  code := storeCode (Array.replicate capacity erased) i.origin i.codeBytes
  size := if i.size = 0 then 0 else i.origin + i.size
  config := i.config
  eeprom := i.eeprom

theorem applyRun_codeBytes {capacity : Nat} (room : 2 * i.words ≤ i.capacity)
    (low : i.size ≠ 0 → i.origin < Place.idBase)
    (fits : i.size ≠ 0 → wordsFor (i.origin + i.size) ≤ capacity / 2) :
    (blank capacity 0).applyRun i.origin i.codeBytes =
      .ok { i.grounded capacity with config := Vector.replicate 32 none, eeprom := #[] } := by
  have length := length_codeBytes room
  by_cases empty : i.size = 0
  · have nothing : i.codeBytes = [] := List.eq_nil_of_length_eq_zero (length.trans empty)
    rw [applyRun, if_pos nothing, grounded, nothing, if_pos empty]
    rfl
  · have some : i.codeBytes ≠ [] := by
      intro nothing
      rw [nothing] at length
      exact empty length.symm
    rw [applyRun, if_neg some, apply_code (low empty), putCode, capacity_blank, length,
      if_neg (by have := fits empty; omega), grounded, if_neg empty]
    congr 2

/-- The file of an image that is not too long for the code region or the capacity is read back as
the image placed from address 0 on. -/
theorem ofIntelHex_toIntelHex {capacity : Nat} (built : Built i)
    (inside : i.size ≠ 0 → i.origin + i.size ≤ Place.idBase)
    (fits : i.size ≠ 0 → wordsFor (i.origin + i.size) ≤ capacity / 2) :
    ofIntelHex i.toIntelHex capacity = .ok (i.grounded capacity) := by
  have low : ∀ x ∈ i.knownConfig, x.1 < configCapacity := fun _ hx =>
    lt_of_configAt? (mem_knownConfig.mp hx)
  refine ofIntelHex_of_fill ?_ ?_
  · intro part member some
    obtain member | member := List.mem_append.mp member
    · obtain rfl | member := List.mem_cons.mp member
      · have length := length_codeBytes built.roomy
        have pos := List.length_pos_iff.mpr some
        change 0 < i.codeBytes.length at pos
        refine .inl ?_
        change i.origin + i.codeBytes.length ≤ _
        rw [length] at pos ⊢
        exact inside (by omega)
      · obtain ⟨run, hrun, rfl⟩ := List.mem_map.mp member
        have within := runs_within low run hrun
        refine .inr (.inl ⟨Nat.le_add_right _ _, ?_⟩)
        change Place.configBase + run.1 + run.2.length ≤ _
        omega
    · obtain rfl := List.mem_singleton.mp member
      refine .inr (.inr ⟨Nat.le_refl _, Nat.add_le_add_left ?_ _⟩)
      exact built.eeprom_le
  · change ((blank capacity 0).applyRun i.origin i.codeBytes >>= fun j =>
      j.fill (configRuns i.knownConfig ++ [(Place.eepromBase, i.eeprom.toList)])) = _
    rw [applyRun_codeBytes built.roomy (fun some => by have := inside some; omega) fits]
    change fill _ (configRuns i.knownConfig ++ _) = _
    rw [fill_configRuns low, putKnown_knownConfig i rfl]
    change (applyRun _ Place.eepromBase i.eeprom.toList >>= fun j => .ok j) = _
    rw [applyRun_eeprom i rfl built.eeprom_le]
    rfl

/-! ## What the image read back holds -/

theorem capacity_grounded (i : Image) (capacity : Nat) :
    (i.grounded capacity).capacity = capacity := by
  simp [grounded, Image.capacity]

variable {capacity : Nat}

theorem byteAt?_grounded (room : 2 * i.words ≤ i.capacity) {o : Nat} (h : place o < capacity) :
    (i.grounded capacity).byteAt? o =
      some (if i.origin ≤ o ∧ o < i.origin + i.size then i.cell (o - i.origin) else erased) := by
  change (storeCode (Array.replicate capacity erased) i.origin i.codeBytes)[place o]? = _
  rw [getElem?_storeCode, length_codeBytes room, Array.size_replicate]
  by_cases inside : i.origin ≤ o ∧ o < i.origin + i.size
  · rw [if_pos ⟨inside.1, inside.2, h⟩, if_pos inside, codeBytes_eq room, List.getElem?_map,
      List.getElem?_range (by omega)]
    rfl
  · rw [if_neg (fun whole => inside ⟨whole.1, whole.2.1⟩), if_neg inside,
      Array.getElem?_replicate, if_pos h]

theorem byteAt?_grounded_eq (room : 2 * i.words ≤ i.capacity)
    (fits : i.size ≠ 0 → wordsFor (i.origin + i.size) ≤ capacity / 2) (a : Nat) :
    (i.grounded capacity).byteAt? a =
      if i.origin ≤ a ∧ a < i.origin + i.size then i.byteAt? (a - i.origin)
      else if place a < capacity then some erased else none := by
  by_cases inside : i.origin ≤ a ∧ a < i.origin + i.size
  · have whole : place a < 2 * (capacity / 2) := by
      have hfits := fits (by omega)
      rw [wordsFor] at hfits
      exact (place_lt (by omega)).mpr (by omega)
    have covered : a - i.origin < 2 * i.words := by
      rw [words, wordsFor]
      omega
    rw [byteAt?_grounded room (by omega), if_pos inside, if_pos inside, byteAt?_of_lt room covered]
  · rw [if_neg inside]
    by_cases held : place a < capacity
    · rw [byteAt?_grounded room held, if_neg inside, if_pos held]
    · rw [if_neg held]
      refine Array.getElem?_eq_none ?_
      have size : (i.grounded capacity).code.size = capacity := capacity_grounded i capacity
      omega

theorem Built.grounded_eq (h : Built i) (low : i.origin = 0) : i.grounded i.capacity = i := by
  have fits : i.size ≠ 0 → wordsFor (i.origin + i.size) ≤ i.capacity / 2 := by
    intro _
    have room := h.roomy
    rw [words] at room
    rw [low, Nat.zero_add]
    omega
  have code : (i.grounded i.capacity).code = i.code := by
    apply Array.ext_getElem?
    intro k
    have bytes := byteAt?_grounded_eq h.roomy fits (place k)
    rw [byteAt?, place_place] at bytes
    rw [bytes, low]
    by_cases inside : place k < i.size
    · rw [if_pos ⟨Nat.zero_le _, by omega⟩, Nat.sub_zero, byteAt?, place_place]
    · have same := h.byteAt?_of_size_le (Nat.le_of_not_lt inside)
      rw [byteAt?, place_place] at same
      rw [if_neg (by omega), same]
  have size : (i.grounded i.capacity).size = i.size := by
    change (if i.size = 0 then 0 else i.origin + i.size) = i.size
    split <;> omega
  obtain ⟨origin, bytes, length, config, eeprom⟩ := i
  change origin = 0 at low
  change Image.mk 0 _ _ config eeprom = _
  congr 1
  exact low.symm

/-! ## The records of a file -/

theorem dataRecords_short (upper address : Nat) (bytes : List UInt8) :
    ∀ r ∈ (dataRecords upper address bytes).1, r.payload.length < 256 ∧ r ≠ .endOfFile := by
  induction upper, address, bytes using dataRecords.induct with
  | case1 upper address =>
    rw [dataRecords]
    intro r hr
    cases hr
  | case2 upper address b tail room records last split ih =>
    rw [dataRecords]
    intro r hr
    obtain announced | data := List.mem_append.mp hr
    · have linear : r = .linear (address / 65536).toUInt16 := by
        split at announced
        · cases announced
        · exact List.mem_singleton.mp announced
      subst linear
      simp [Record.payload, splitWord]
    · obtain rfl | later := List.mem_cons.mp data
      · have short : recordRoom address ≤ 16 := Nat.min_le_left _ _
        refine ⟨?_, Record.noConfusion⟩
        change ((b :: tail).take (recordRoom address)).length < 256
        rw [List.length_take]
        omega
      · exact ih r later

theorem runRecords_short (upper : Nat) (parts : List (Nat × List UInt8)) :
    ∀ r ∈ runRecords upper parts, r.payload.length < 256 ∧ r ≠ .endOfFile := by
  induction parts generalizing upper with
  | nil =>
    intro r hr
    cases hr
  | cons part parts ih =>
    intro r hr
    obtain first | later := List.mem_append.mp hr
    · exact dataRecords_short _ _ _ r first
    · exact ih _ r later

theorem writable_records (i : Image) : Writable i.records := by
  have short := runRecords_short 0 i.fileRuns
  refine ⟨fun r hr => ?_, List.getLast?_concat, ?_⟩
  · obtain data | last := List.mem_append.mp hr
    · exact (short r data).1
    · obtain rfl := List.mem_singleton.mp last
      decide
  · rw [records, List.dropLast_concat]
    exact fun h => (short _ h).2 rfl

theorem encodeIntelHex_eq (i : Image) : i.encodeIntelHex = .ok i.toIntelHex :=
  if_pos (writable_records i)

/-- An image that ends inside the code addresses has a file, and the file read back is the image
placed from address 0 on; an image that starts there comes back as it was. -/
theorem file_read_back (built : i.Built) (inside : i.origin + i.size ≤ Place.idBase) :
    ∃ text, i.encodeIntelHex = .ok text ∧
      (∀ capacity, (i.size ≠ 0 → wordsFor (i.origin + i.size) ≤ capacity / 2) →
        ∃ j, ofIntelHex text capacity = .ok j ∧ j.origin = 0 ∧ j.capacity = capacity ∧
          j.size = (if i.size = 0 then 0 else i.origin + i.size) ∧
          (∀ a, j.byteAt? a =
            if i.origin ≤ a ∧ a < i.origin + i.size then i.byteAt? (a - i.origin)
            else if place a < capacity then some erased else none) ∧
          j.config = i.config ∧ j.eeprom = i.eeprom) ∧
      (i.origin = 0 → ofIntelHex text i.capacity = .ok i) := by
  refine ⟨i.toIntelHex, encodeIntelHex_eq i, fun capacity fits => ?_, fun low => ?_⟩
  · refine ⟨i.grounded capacity, ofIntelHex_toIntelHex built (fun _ => inside) fits, rfl,
      capacity_grounded i capacity, rfl, byteAt?_grounded_eq built.roomy fits, rfl, rfl⟩
  · rw [ofIntelHex_toIntelHex built (fun _ => inside) fun _ => ?_, built.grounded_eq low]
    have room := built.roomy
    rw [words] at room
    rw [low, Nat.zero_add]
    omega

/-- Three bytes across the end of the first 64 KiB, two configuration bytes with a gap between
them, and an EEPROM byte above a gap. -/
def acrossSegments : Image where
  origin := 65535
  code := #[0x22, 0x11, 0xFF, 0x33, 0xFF]
  size := 3
  config := ((Vector.replicate 32 none).setIfInBounds 1 (some 0x0E)).setIfInBounds 31 (some 0x40)
  eeprom := #[0xFF, 0xFF, 0x5A]

theorem built_acrossSegments : acrossSegments.Built :=
  .writeEeprom
    (.putConfig
      (.putConfig
        (.putCode (.blank 5 65535)
          (show (Image.blank 5 65535).putCode 0 [0x11, 0x22, 0x33] = .ok _ from rfl))
        (show Image.putConfig _ 1 0x0E = .ok _ from rfl))
      (show Image.putConfig _ 31 0x40 = .ok _ from rfl))
    (show Image.writeEeprom _ 2 [0x5A] = .ok acrossSegments from rfl)

theorem file_read_back_acrossSegments :
    ∃ text j, acrossSegments.encodeIntelHex = .ok text ∧ ofIntelHex text 65538 = .ok j ∧
      j.size = 65538 ∧ j.byteAt? 65534 = some 0xFF ∧ j.byteAt? 65535 = some 0x11 ∧
      j.byteAt? 65537 = some 0x33 ∧ j.configAt? 31 = some 0x40 ∧ j.configAt? 30 = none ∧
      j.eeprom = #[0xFF, 0xFF, 0x5A] := by
  obtain ⟨text, encoded, decoded, _⟩ := file_read_back built_acrossSegments (by decide)
  obtain ⟨j, parsed, _, _, size, bytes, config, eeprom⟩ := decoded 65538 (by decide)
  refine ⟨text, j, encoded, parsed, size, bytes 65534, bytes 65535, bytes 65537, ?_, ?_, eeprom⟩
  · rw [configAt?, config]
    rfl
  · rw [configAt?, config]
    rfl

end Image

end InCircuit
