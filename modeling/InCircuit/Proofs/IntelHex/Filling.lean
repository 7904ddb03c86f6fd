import InCircuit.Proofs.Image.Contents
import InCircuit.Proofs.IntelHex.Records

set_option autoImplicit false

/-!
# Runs of bytes written and read back

Reading the records of a run of bytes does what writing the run in one go does, for every run that
stays inside its region.
-/
namespace InCircuit

namespace Image

/-! ## Writes in pieces -/

theorem bind_eq_ok {j : Image} {x : Except Fault Image} {f : Image → Except Fault Image} :
    (x >>= f) = .ok j ↔ ∃ k, x = .ok k ∧ f k = .ok j := by
  cases x with
  | error e =>
    constructor
    · intro h
      cases h
    · rintro ⟨k, h, _⟩
      cases h
  | ok k =>
    refine ⟨fun h => ⟨k, rfl, h⟩, ?_⟩
    rintro ⟨k, h, hj⟩
    cases h
    exact hj

theorem storeCode_append (code : Array UInt8) (offset : Nat) (xs ys : List UInt8) :
    storeCode code offset (xs ++ ys) =
      storeCode (storeCode code offset xs) (offset + xs.length) ys := by
  induction xs generalizing code offset with
  | nil => rfl
  | cons x xs ih =>
    rw [List.cons_append, storeCode, ih, List.length_cons, Nat.add_assoc, Nat.add_comm 1]
    rfl

/-- Code is written in two pieces just when it is written in one, with the same image. -/
theorem putCode_append {i j : Image} {offset : Nat} {xs ys : List UInt8} :
    i.putCode offset (xs ++ ys) = .ok j ↔
      ∃ k, i.putCode offset xs = .ok k ∧ k.putCode (offset + xs.length) ys = .ok j := by
  have stop : offset + (xs ++ ys).length = offset + xs.length + ys.length := by
    rw [List.length_append, Nat.add_assoc]
  have high : max (max i.size (offset + xs.length)) (offset + xs.length + ys.length) =
      max i.size (offset + xs.length + ys.length) := by omega
  simp only [putCode_eq_ok, stop]
  constructor
  · rintro ⟨fits, rfl⟩
    refine ⟨_, ⟨?_, rfl⟩, ?_, ?_⟩
    · simp only [wordsFor] at fits ⊢
      omega
    · simp only [capacity, size_storeCode]
      exact fits
    · simp only [storeCode_append, high]
  · rintro ⟨k, ⟨_, rfl⟩, fits, rfl⟩
    refine ⟨?_, ?_⟩
    · simp only [capacity, size_storeCode] at fits
      exact fits
    · simp only [storeCode_append, high]

theorem putConfigs_append {i : Image} {offset : Nat} {xs ys : List UInt8} :
    i.putConfigs offset (xs ++ ys) =
      (i.putConfigs offset xs >>= fun k => k.putConfigs (offset + xs.length) ys) := by
  induction xs generalizing i offset with
  | nil => rfl
  | cons x xs ih =>
    rw [List.cons_append, putConfigs, putConfigs]
    cases put : i.putConfig offset x with
    | error e => rfl
    | ok k =>
      change k.putConfigs (offset + 1) (xs ++ ys) = _
      rw [ih, List.length_cons, Nat.add_comm xs.length, ← Nat.add_assoc]
      rfl

theorem putConfigs_le {i j : Image} {offset : Nat} {bytes : List UInt8} (some : bytes ≠ [])
    (h : i.putConfigs offset bytes = .ok j) : offset + bytes.length ≤ configCapacity := by
  induction bytes generalizing i offset with
  | nil => exact absurd rfl some
  | cons b bytes ih =>
    rw [putConfigs, putConfig] at h
    split at h
    · rename_i low
      change putConfigs _ (offset + 1) bytes = .ok j at h
      by_cases last : bytes = []
      · rw [last]
        exact low
      · have rest := ih last h
        rw [List.length_cons]
        omega
    · cases h

theorem putConfigs_keeps {i j : Image} {offset : Nat} {bytes : List UInt8}
    (h : i.putConfigs offset bytes = .ok j) : j = { i with config := j.config } := by
  induction bytes generalizing i offset with
  | nil =>
    obtain rfl := Except.ok.inj h
    rfl
  | cons b bytes ih =>
    obtain ⟨k, put, rest⟩ := bind_eq_ok.mp h
    have kept := ih rest
    obtain ⟨_, rfl⟩ := putConfig_eq_ok.mp put
    exact kept

theorem overwrite_append (cells : Array UInt8) (offset : Nat) (xs ys : List UInt8) :
    overwrite cells offset (xs ++ ys) =
      overwrite (overwrite cells offset xs) (offset + xs.length) ys := by
  apply Array.ext_getElem?
  intro o
  rw [getElem?_overwrite, getElem?_overwrite, getElem?_overwrite, size_overwrite,
    List.length_append]
  by_cases low : offset ≤ o ∧ o < offset + xs.length
  · have before : ¬ (offset + xs.length ≤ o ∧ o < offset + xs.length + ys.length) := by omega
    rw [if_pos (by omega), if_neg before, if_pos (by omega), if_pos low,
      List.getElem?_append_left (by omega)]
  · by_cases high : offset + xs.length ≤ o ∧ o < offset + xs.length + ys.length
    · rw [if_pos (by omega), if_pos high, List.getElem?_append_right (by omega), Nat.sub_sub]
    · rw [if_neg (by omega), if_neg high, if_neg low]
      by_cases kept : o < cells.size
      · rw [if_pos kept, if_pos (by omega), if_pos kept]
      · rw [if_neg kept, if_neg kept]
        by_cases gap : o < offset + xs.length
        · rw [if_pos (by omega), if_pos (by omega), if_pos gap]
        · rw [if_neg (by omega), if_neg (by omega), if_neg (by omega)]

theorem overwrite_zero (e : Array UInt8) : overwrite e 0 [] = e := by
  apply Array.ext_getElem?
  intro o
  rw [getElem?_overwrite]
  grind

theorem overwrite_nil_comm (e : Array UInt8) (limit offset : Nat) (bytes : List UInt8) :
    overwrite (overwrite e limit []) offset bytes =
      overwrite (overwrite e offset bytes) limit [] := by
  apply Array.ext_getElem?
  intro o
  simp only [getElem?_overwrite, size_overwrite, List.length_nil]
  grind

theorem overwrite_nil_nil (e : Array UInt8) (m n : Nat) :
    overwrite (overwrite e m []) n [] = overwrite e (max m n) [] := by
  apply Array.ext_getElem?
  intro o
  simp only [getElem?_overwrite, size_overwrite, List.length_nil]
  grind

theorem writeEeprom_append {i j : Image} {offset : Nat} {xs ys : List UInt8} :
    i.writeEeprom offset (xs ++ ys) = .ok j ↔
      ∃ k, i.writeEeprom offset xs = .ok k ∧ k.writeEeprom (offset + xs.length) ys = .ok j := by
  simp only [writeEeprom_eq_ok, List.length_append, overwrite_append]
  constructor
  · rintro ⟨room, rfl⟩
    exact ⟨_, ⟨by omega, rfl⟩, by omega, rfl⟩
  · rintro ⟨k, ⟨_, rfl⟩, room, rfl⟩
    exact ⟨by omega, rfl⟩

/-! ## Runs inside their regions -/

open IntelHex

theorem place_limits : Place.idBase = 2097152 ∧ Place.configBase = 3145728 ∧
    Place.eepromBase = 15728640 ∧ configCapacity = 32 ∧ eepromCapacity = 1024 :=
  ⟨rfl, rfl, rfl, rfl, rfl⟩

def Inside (address length : Nat) : Prop :=
  address + length ≤ Place.idBase ∨
    Place.configBase ≤ address ∧ address + length ≤ Place.configBase + configCapacity ∨
    Place.eepromBase ≤ address ∧ address + length ≤ Place.eepromBase + eepromCapacity

theorem Inside.upper {address length : Nat} (h : Inside address length) :
    address / 65536 < 65536 := by
  obtain ⟨hid, hconfig, heeprom, hbytes, hcells⟩ := place_limits
  unfold Inside at h
  omega

theorem Inside.drop {address : Nat} {bytes : List UInt8} (h : Inside address bytes.length)
    (count : Nat) (more : bytes.drop count ≠ []) :
    Inside (address + count) (bytes.drop count).length := by
  have left := List.length_pos_iff.mpr more
  rw [List.length_drop] at left ⊢
  unfold Inside at *
  omega

variable {i j : Image}

theorem apply_code {address : Nat} (h : address < Place.idBase) (bytes : List UInt8) (n : Nat) :
    i.apply address bytes n = i.putCode address bytes := by
  rw [apply, Place.ofAddress?, if_pos h]

theorem apply_config {offset : Nat} (h : offset < configCapacity) (bytes : List UInt8) (n : Nat) :
    i.apply (Place.configBase + offset) bytes n = i.putConfigs offset bytes := by
  obtain ⟨hid, hconfig, _⟩ := place_limits
  rw [apply, Place.ofAddress?, if_neg (by omega), if_neg (by omega), if_pos (by omega),
    Nat.add_sub_cancel_left]

theorem apply_eeprom {offset : Nat} (h : offset < eepromCapacity) (bytes : List UInt8) (n : Nat) :
    i.apply (Place.eepromBase + offset) bytes n = i.writeEeprom offset bytes := by
  obtain ⟨hid, hconfig, heeprom, hbytes, _⟩ := place_limits
  rw [apply, Place.ofAddress?, if_neg (by omega), if_neg (by omega), if_neg (by omega),
    if_pos (by omega), Nat.add_sub_cancel_left]

theorem apply_number {address n : Nat} {bytes : List UInt8}
    (h : i.apply address bytes n = .ok j) (n' : Nat) : i.apply address bytes n' = .ok j := by
  rw [apply] at h ⊢
  split at h
  · exact h
  · exact h
  · exact h
  · exact h
  · cases h

theorem apply_idLocations {address : Nat} (low : Place.idBase ≤ address)
    (high : address < Place.configBase) (bytes : List UInt8) (n : Nat) :
    i.apply address bytes n = .ok i := by
  rw [apply, Place.ofAddress?, if_neg (by omega), if_pos high]

theorem apply_stray {address : Nat} (low : Place.configBase + configCapacity ≤ address)
    (outside : ¬ (Place.eepromBase ≤ address ∧ address < Place.eepromBase + eepromCapacity))
    (bytes : List UInt8) (n : Nat) :
    i.apply address bytes n = .error (.format (.strayRecord n)) := by
  obtain ⟨hid, hconfig, _⟩ := place_limits
  rw [apply, Place.ofAddress?, if_neg (by omega), if_neg (by omega), if_neg (by omega),
    if_neg outside]

/-- The bytes of a record go where its first one goes: they do not leave the code or the ID
locations, unless there is no room for them anyhow. -/
structure Whole (capacity address length : Nat) : Prop where
  code : address < Place.idBase → address + length ≤ Place.idBase ∨ capacity < Place.idBase
  idLocations : Place.idBase ≤ address → address < Place.configBase →
    address + length ≤ Place.configBase

instance (capacity address length : Nat) : Decidable (Whole capacity address length) :=
  decidable_of_iff (_ ∧ _) ⟨fun h => ⟨h.1, h.2⟩, fun h => ⟨h.code, h.idLocations⟩⟩

theorem Inside.whole {address length : Nat} (h : Inside address length) (capacity : Nat) :
    Whole capacity address length := by
  obtain ⟨hid, hconfig, heeprom, _⟩ := place_limits
  unfold Inside at h
  exact ⟨fun _ => .inl (by omega), fun _ _ => by omega⟩

theorem putCode_le {offset : Nat} {bytes : List UInt8} (h : i.putCode offset bytes = .ok j) :
    offset + bytes.length ≤ i.capacity := by
  have fits := (putCode_eq_ok.mp h).1
  rw [wordsFor] at fits
  omega

theorem Whole.drop {address length n : Nat} {xs : List UInt8}
    (h : Whole i.capacity address (xs.length + length)) (pos : 0 < length)
    (applied : i.apply address xs n = .ok j) : Whole i.capacity (address + xs.length) length := by
  by_cases code : address < Place.idBase
  · rw [apply_code code] at applied
    have room := putCode_le applied
    have inside := h.code code
    exact ⟨fun _ => by omega, fun _ _ => by omega⟩
  · have inside := h.idLocations (by omega)
    exact ⟨fun _ => by omega, fun _ _ => by omega⟩

/-- The second of two records may start just past the configuration, where neither a write nor a
record succeeds. -/
theorem apply_config_append {offset n : Nat} {xs ys : List UInt8} (start : offset < configCapacity)
    (first : xs ≠ []) (more : ys ≠ []) :
    i.apply (Place.configBase + offset) (xs ++ ys) n = .ok j ↔
      ∃ k, i.apply (Place.configBase + offset) xs n = .ok k ∧
        k.apply (Place.configBase + offset + xs.length) ys n = .ok j := by
  obtain ⟨hid, hconfig, heeprom, hbytes, hcells⟩ := place_limits
  rw [apply_config start, apply_config start, putConfigs_append, bind_eq_ok]
  refine exists_congr fun k => and_congr_right fun put => ?_
  have room := putConfigs_le first put
  rw [Nat.add_assoc]
  by_cases inside : offset + xs.length < configCapacity
  · rw [apply_config inside]
  · have outside : k.putConfigs (offset + xs.length) ys ≠ .ok j := fun h => by
      have rest := putConfigs_le more h
      have pos := List.length_pos_iff.mpr more
      omega
    rw [apply_stray (by omega) (by omega)]
    exact iff_of_false outside nofun

theorem apply_eeprom_append {offset n : Nat} {xs ys : List UInt8} (start : offset < eepromCapacity)
    (more : ys ≠ []) :
    i.apply (Place.eepromBase + offset) (xs ++ ys) n = .ok j ↔
      ∃ k, i.apply (Place.eepromBase + offset) xs n = .ok k ∧
        k.apply (Place.eepromBase + offset + xs.length) ys n = .ok j := by
  obtain ⟨hid, hconfig, heeprom, hbytes, hcells⟩ := place_limits
  rw [apply_eeprom start, apply_eeprom start, writeEeprom_append]
  refine exists_congr fun k => and_congr_right fun put => ?_
  have room := (writeEeprom_eq_ok.mp put).1
  rw [Nat.add_assoc]
  by_cases inside : offset + xs.length < eepromCapacity
  · rw [apply_eeprom inside]
  · have outside : k.writeEeprom (offset + xs.length) ys ≠ .ok j := fun h => by
      have rest := (writeEeprom_eq_ok.mp h).1
      have pos := List.length_pos_iff.mpr more
      omega
    rw [apply_stray (by omega) (by omega)]
    exact iff_of_false outside nofun

theorem apply_append {address n : Nat} {xs ys : List UInt8}
    (whole : Whole i.capacity address (xs.length + ys.length)) (first : xs ≠ []) (more : ys ≠ []) :
    i.apply address (xs ++ ys) n = .ok j ↔
      ∃ k, i.apply address xs n = .ok k ∧ k.apply (address + xs.length) ys n = .ok j := by
  obtain ⟨hid, hconfig, heeprom, hbytes, hcells⟩ := place_limits
  -- One case for each region that the first byte can lie in, and one for none of them.
  by_cases code : address < Place.idBase
  · rw [apply_code code, apply_code code, putCode_append]
    refine exists_congr fun k => and_congr_right fun put => ?_
    have room := putCode_le put
    have inside := whole.code code
    have pos := List.length_pos_iff.mpr more
    rw [apply_code (by omega)]
  by_cases id : address < Place.configBase
  · have inside := whole.idLocations (by omega) id
    have pos := List.length_pos_iff.mpr more
    have passed (k : Image) : k.apply (address + xs.length) ys n = .ok k :=
      apply_idLocations (by omega) (by omega) ys n
    rw [apply_idLocations (by omega) id, apply_idLocations (by omega) id]
    constructor
    · intro h
      exact ⟨i, rfl, (passed i).trans h⟩
    · rintro ⟨k, hk, h⟩
      obtain rfl := Except.ok.inj hk
      exact (passed i).symm.trans h
  by_cases config : address < Place.configBase + configCapacity
  · obtain ⟨offset, rfl⟩ := Nat.exists_eq_add_of_le (Nat.le_of_not_lt id)
    exact apply_config_append (by omega) first more
  by_cases eeprom : Place.eepromBase ≤ address ∧ address < Place.eepromBase + eepromCapacity
  · obtain ⟨offset, rfl⟩ := Nat.exists_eq_add_of_le eeprom.1
    exact apply_eeprom_append (by omega) more
  · rw [apply_stray (by omega) eeprom, apply_stray (by omega) eeprom]
    exact iff_of_false nofun nofun

def applyRun (i : Image) (address : Nat) (bytes : List UInt8) : Except Fault Image :=
  if bytes = [] then .ok i else i.apply address bytes 0

theorem applyRun_cut {address : Nat} {bytes : List UInt8} {count : Nat} (some : bytes ≠ [])
    (pos : 0 < count) (inside : Inside address bytes.length)
    (applied : i.applyRun address bytes = .ok j) :
    ∃ k, i.apply address (bytes.take count) 0 = .ok k ∧
      k.applyRun (address + count) (bytes.drop count) = .ok j := by
  rw [applyRun, if_neg some] at applied
  by_cases whole : bytes.length ≤ count
  · rw [List.take_of_length_le whole, List.drop_of_length_le whole]
    exact ⟨j, applied, rfl⟩
  · have first : bytes.take count ≠ [] := by
      rw [← List.length_pos_iff, List.length_take]
      have := List.length_pos_iff.mpr some
      omega
    have more : bytes.drop count ≠ [] := by
      rw [← List.length_pos_iff, List.length_drop]
      omega
    have length : (bytes.take count).length = count := by
      rw [List.length_take]
      omega
    rw [← List.take_append_drop count bytes] at applied inside
    rw [List.length_append] at inside
    obtain ⟨k, hk, hj⟩ := (apply_append (inside.whole _) first more).mp applied
    rw [length] at hj
    exact ⟨k, hk, by rw [applyRun, if_neg more, hj]⟩

def fill (i : Image) : List (Nat × List UInt8) → Except Fault Image
  | [] => .ok i
  | (address, bytes) :: rest => do
    let i ← i.applyRun address bytes
    i.fill rest

/-! ## Records of runs -/

theorem applyLines_linear (base n : Nat) (upper : UInt16) (rest : List (List Char)) :
    i.applyLines base n ((Record.linear upper).encode :: rest) =
      i.applyLines (upper.toNat * 65536) (n + 1) rest := by
  rw [applyLines, Record.decode?_encode _ (by simp [Record.payload, splitWord])]

theorem applyLines_data {address base n : Nat} {offset : UInt16} {bytes : List UInt8}
    (short : bytes.length < 256) (here : base + offset.toNat = address)
    (applied : i.apply address bytes n = .ok j) (rest : List (List Char)) :
    i.applyLines base n ((Record.data offset bytes).encode :: rest) =
      j.applyLines base (n + 1) rest := by
  rw [applyLines, Record.decode?_encode (.data offset bytes) short]
  change (i.apply (base + offset.toNat) bytes n >>= fun i => i.applyLines base (n + 1) rest) = _
  rw [here, applied]
  rfl

theorem applyLines_announced (upper : Nat) {address : Nat} (n : Nat) (low : address / 65536 < 65536)
    (rest : List (List Char)) :
    ∃ n', i.applyLines (upper * 65536) n
        ((if address / 65536 = upper then []
          else [Record.linear (address / 65536).toUInt16]).map Record.encode ++ rest) =
      i.applyLines (address / 65536 * 65536) n' rest := by
  split
  · rename_i same
    exact ⟨n, by rw [← same]; rfl⟩
  · refine ⟨n + 1, ?_⟩
    have half : (address / 65536).toUInt16.toNat = address / 65536 := by
      rw [Nat.toUInt16, UInt16.toNat_ofNat']
      omega
    rw [List.map_cons, List.map_nil, List.singleton_append, applyLines_linear, half]

theorem applyLines_dataRecords (upper address : Nat) (bytes : List UInt8)
    (inside : bytes ≠ [] → Inside address bytes.length)
    (applied : i.applyRun address bytes = .ok j) (n : Nat) (rest : List (List Char)) :
    ∃ n', i.applyLines (upper * 65536) n
        ((dataRecords upper address bytes).1.map Record.encode ++ rest) =
      j.applyLines ((dataRecords upper address bytes).2 * 65536) n' rest := by
  induction upper, address, bytes using dataRecords.induct generalizing i n with
  | case1 upper address =>
    obtain rfl := Except.ok.inj applied
    exact ⟨n, by rw [dataRecords]; rfl⟩
  | case2 upper address b tail room records last split =>
    rename_i ih
    have inside := inside (List.cons_ne_nil b tail)
    have pos : 0 < room := by
      change 0 < recordRoom address
      rw [recordRoom]
      omega
    have low := inside.upper
    have here : address / 65536 * 65536 + address.toUInt16.toNat = address := by
      rw [Nat.toUInt16, UInt16.toNat_ofNat']
      omega
    have short : ((b :: tail).take room).length < 256 := by
      have : room ≤ 16 := Nat.min_le_left _ _
      rw [List.length_take]
      omega
    obtain ⟨k, hk, hj⟩ := applyRun_cut (List.cons_ne_nil b tail) pos inside applied
    obtain ⟨n₁, announced⟩ := applyLines_announced (i := i) upper n low
      ((Record.data address.toUInt16 ((b :: tail).take room)).encode ::
        ((dataRecords (address / 65536) (address + room) ((b :: tail).drop room)).1.map
          Record.encode ++ rest))
    obtain ⟨n₂, following⟩ := ih (inside.drop room) hj (n₁ + 1)
    refine ⟨n₂, ?_⟩
    rw [dataRecords]
    simp only [List.map_append, List.map_cons, List.append_assoc, List.cons_append]
    rw [announced, applyLines_data short here (apply_number hk n₁)]
    exact following

theorem applyLines_runRecords (upper : Nat) (parts : List (Nat × List UInt8))
    (inside : ∀ part ∈ parts, part.2 ≠ [] → Inside part.1 part.2.length)
    (filled : i.fill parts = .ok j) (n : Nat) (rest : List (List Char)) :
    ∃ base n', i.applyLines (upper * 65536) n ((runRecords upper parts).map Record.encode ++ rest) =
      j.applyLines base n' rest := by
  induction parts generalizing i upper n with
  | nil =>
    obtain rfl := Except.ok.inj filled
    exact ⟨upper * 65536, n, rfl⟩
  | cons part parts ih =>
    obtain ⟨address, bytes⟩ := part
    obtain ⟨k, applied, filled⟩ := bind_eq_ok.mp filled
    obtain ⟨n₁, first⟩ := applyLines_dataRecords upper address bytes
      (inside _ List.mem_cons_self) applied n
      ((runRecords (dataRecords upper address bytes).2 parts).map Record.encode ++ rest)
    obtain ⟨base, n₂, following⟩ := ih (dataRecords upper address bytes).2
      (fun part hp => inside part (List.mem_cons_of_mem _ hp)) filled n₁
    refine ⟨base, n₂, ?_⟩
    change i.applyLines (upper * 65536) n
      (((dataRecords upper address bytes).1 ++
        runRecords (dataRecords upper address bytes).2 parts).map Record.encode ++ rest) = _
    rw [List.map_append, List.append_assoc, first, following]

/-- Reading a file does what writing its runs to a blank image does. -/
theorem ofIntelHex_of_fill {capacity : Nat}
    (inside : ∀ part ∈ i.fileRuns, part.2 ≠ [] → Inside part.1 part.2.length)
    (filled : (blank capacity 0).fill i.fileRuns = .ok j) :
    ofIntelHex i.toIntelHex capacity = .ok j := by
  obtain ⟨base, n, lines⟩ := applyLines_runRecords 0 i.fileRuns inside filled 1
    [Record.endOfFile.encode]
  rw [ofIntelHex, toIntelHex, String.toList_ofList, Record.lines_encode, records, List.map_append]
  change (blank capacity 0).applyLines (0 * 65536) 1 (_ ++ [Record.endOfFile.encode]) = _
  rw [lines, applyLines, Record.decode?_encode .endOfFile (by decide)]

end Image

end InCircuit
