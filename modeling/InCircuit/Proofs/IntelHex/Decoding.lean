import InCircuit.Proofs.IntelHex.Layouts
import InCircuit.Proofs.IntelHex.RoundTrip

set_option autoImplicit false

/-!
# Files decoded record by record

Placing the data records of a file of an image gives back each byte of the image once, in order and
at its address: every record is short and stays inside its 64 KiB segment, and the upper half of the
addresses is announced just where it changes.
-/
namespace InCircuit

namespace IntelHex

/-- Records for data, each with the address it starts at. The upper half of an address is announced
where it is another than that of the data before, which is `upper` for the first. -/
def announced (upper : Nat) : List (Nat × List UInt8) → List Record
  | [] => []
  | (address, bytes) :: rest =>
    (if address / 65536 = upper then [] else [.linear (address / 65536).toUInt16]) ++
      .data address.toUInt16 bytes :: announced (address / 65536) rest

structure RecordSized (part : Nat × List UInt8) : Prop where
  low : part.1 < 4294967296
  pos : 0 < part.2.length
  short : part.2.length ≤ 16
  inside : part.1 % 65536 + part.2.length ≤ 65536

theorem assigned_append (parts parts' : List (Nat × List UInt8)) :
    assigned (parts ++ parts') = assigned parts ++ assigned parts' := List.flatMap_append

theorem cells_append (address : Nat) (xs ys : List UInt8) :
    cells address (xs ++ ys) = cells address xs ++ cells (address + xs.length) ys := by
  induction xs generalizing address with
  | nil => rfl
  | cons x xs ih =>
    rw [List.cons_append, cells, cells, ih, List.length_cons, Nat.add_assoc, Nat.add_comm 1]
    rfl

theorem cells_take_drop (address count : Nat) (bytes : List UInt8) :
    cells address bytes =
      cells address (bytes.take count) ++ cells (address + count) (bytes.drop count) := by
  by_cases whole : bytes.length ≤ count
  · rw [List.take_of_length_le whole, List.drop_of_length_le whole]
    exact (List.append_nil _).symm
  · have length : (bytes.take count).length = count := by
      rw [List.length_take]
      omega
    have cut := cells_append address (bytes.take count) (bytes.drop count)
    rw [List.take_append_drop, length] at cut
    exact cut

theorem cells_eq (address : Nat) (bytes : List UInt8) :
    cells address bytes = bytes.zipIdx.map fun (b, k) => (address + k, b) := by
  induction bytes generalizing address with
  | nil => rfl
  | cons b bytes ih =>
    rw [cells, ih, List.zipIdx_cons', List.map_cons, List.map_map]
    refine congrArg _ (List.map_congr_left fun x _ => ?_)
    simp only [Function.comp_apply, Prod.map_fst, Prod.map_snd, id_eq]
    rw [Nat.add_right_comm, Nat.add_assoc]

theorem cells_map (address count : Nat) (f : Nat → UInt8) :
    cells address ((List.range count).map f) =
      (List.range count).map fun k => (address + k, f k) := by
  induction count with
  | zero => rfl
  | succ count ih =>
    rw [List.range_succ, List.map_append, List.map_append, cells_append, ih, List.length_map,
      List.length_range]
    rfl

/-- Every record is placed where its data belong, by the upper half announced last. -/
theorem placed_announced (upper : Nat) {parts : List (Nat × List UInt8)}
    (low : ∀ part ∈ parts, part.1 < 4294967296) :
    placed (upper * 65536) (announced upper parts ++ [.endOfFile]) = parts := by
  induction parts generalizing upper with
  | nil => rfl
  | cons part parts ih =>
    obtain ⟨address, bytes⟩ := part
    have here : address < 4294967296 := low _ List.mem_cons_self
    have offset : address / 65536 * 65536 + address.toUInt16.toNat = address := by
      rw [Nat.toUInt16, UInt16.toNat_ofNat']
      omega
    have half : (address / 65536).toUInt16.toNat = address / 65536 := by
      rw [Nat.toUInt16, UInt16.toNat_ofNat']
      omega
    have rest := ih (address / 65536) fun part h => low part (List.mem_cons_of_mem _ h)
    rw [announced, List.append_assoc, List.cons_append]
    split
    · rename_i same
      rw [← same, List.nil_append, placed, offset, rest]
    · rw [List.singleton_append, placed, placed, half, offset, rest]

theorem mem_announced_data {upper : Nat} {parts : List (Nat × List UInt8)}
    (sized : ∀ part ∈ parts, RecordSized part) {offset : UInt16} {bytes : List UInt8}
    (h : .data offset bytes ∈ announced upper parts) :
    1 ≤ bytes.length ∧ bytes.length ≤ 16 ∧ offset.toNat + bytes.length ≤ 65536 := by
  induction parts generalizing upper with
  | nil => cases h
  | cons part parts ih =>
    obtain ⟨first, later⟩ := List.forall_mem_cons.mp sized
    rw [announced] at h
    rcases List.mem_append.mp h with announcement | data
    · split at announcement
      · cases announcement
      · cases List.mem_singleton.mp announcement
    · rcases List.mem_cons.mp data with same | rest
      · obtain ⟨rfl, rfl⟩ := Record.data.inj same
        have inside := first.inside
        refine ⟨first.pos, first.short, ?_⟩
        rw [Nat.toUInt16, UInt16.toNat_ofNat']
        omega
      · exact ih later rest

theorem endOfFile_not_mem_announced (upper : Nat) (parts : List (Nat × List UInt8)) :
    .endOfFile ∉ announced upper parts := by
  induction parts generalizing upper with
  | nil => exact List.not_mem_nil
  | cons part parts ih =>
    rw [announced]
    split <;> simp [ih]

end IntelHex

namespace Image

open IntelHex

variable {i : Image}

/-! ## Runs cut into records -/

/-- The records of a run are those of its bytes, cut into parts. They go on from the upper half that
is announced last. -/
theorem dataRecords_announced (upper address : Nat) (bytes : List UInt8)
    (low : bytes ≠ [] → address + bytes.length ≤ 4294967296) :
    ∃ parts, (∀ part ∈ parts, RecordSized part) ∧ assigned parts = cells address bytes ∧
      ∀ rest, announced upper (parts ++ rest) = (dataRecords upper address bytes).1 ++
        announced (dataRecords upper address bytes).2 rest := by
  induction upper, address, bytes using dataRecords.induct with
  | case1 upper address =>
    refine ⟨[], by simp, rfl, fun rest => ?_⟩
    rw [dataRecords]
    rfl
  | case2 upper address b tail room records last split ih =>
    have low := low (List.cons_ne_nil b tail)
    have room_eq : room = min 16 (65536 - address % 65536) := rfl
    have length : ((b :: tail).take room).length = min room (b :: tail).length := List.length_take
    have pos : 0 < (b :: tail).length := Nat.succ_pos _
    obtain ⟨parts, sized, assigns, follows⟩ := ih fun more => by
      have left := List.length_pos_iff.mpr more
      rw [List.length_drop] at left ⊢
      omega
    refine ⟨(address, (b :: tail).take room) :: parts, ?_, ?_, fun rest => ?_⟩
    · refine List.forall_mem_cons.mpr ⟨⟨?_, ?_, ?_, ?_⟩, sized⟩
      · change address < _
        omega
      · change 0 < ((b :: tail).take room).length
        omega
      · change ((b :: tail).take room).length ≤ 16
        omega
      · change address % 65536 + ((b :: tail).take room).length ≤ 65536
        omega
    · change cells address ((b :: tail).take room) ++ assigned parts = _
      rw [assigns, ← cells_take_drop]
    · rw [List.cons_append, announced, follows, dataRecords]
      simp only [List.append_assoc, List.cons_append]
      rfl

theorem runRecords_announced (upper : Nat) (runs : List (Nat × List UInt8))
    (low : ∀ run ∈ runs, run.1 + run.2.length ≤ 4294967296) :
    ∃ parts, (∀ part ∈ parts, RecordSized part) ∧ assigned parts = assigned runs ∧
      announced upper parts = runRecords upper runs := by
  induction runs generalizing upper with
  | nil => exact ⟨[], by simp, rfl, rfl⟩
  | cons run runs ih =>
    obtain ⟨address, bytes⟩ := run
    obtain ⟨here, later⟩ := List.forall_mem_cons.mp low
    obtain ⟨first, sized, assigns, follows⟩ := dataRecords_announced upper address bytes
      fun _ => here
    obtain ⟨parts, sized', assigns', records⟩ := ih (dataRecords upper address bytes).2 later
    refine ⟨first ++ parts, ?_, ?_, ?_⟩
    · intro part mem
      exact (List.mem_append.mp mem).elim (sized part) (sized' part)
    · rw [assigned_append, assigns, assigns']
      rfl
    · rw [follows, records]
      rfl

/-! ## What the runs assign -/

theorem assigned_configRuns (known : List (Nat × UInt8)) :
    assigned (configRuns known) = known.map fun c => (Place.configBase + c.1, c.2) := by
  induction known with
  | nil => rfl
  | cons c known ih =>
    rw [List.map_cons, ← ih, configRuns, configRuns, runs]
    split
    · rename_i next bytes others joined
      rw [joined]
      split
      · rename_i adjacent
        subst adjacent
        rfl
      · rfl
    · rename_i joined
      rw [joined]
      rfl

theorem map_knownConfig (i : Image) :
    i.knownConfig.map (fun c => (Place.configBase + c.1, c.2)) =
      (List.range configCapacity).filterMap fun o =>
        (i.configAt? o).map (Place.configBase + o, ·) := by
  rw [knownConfig_eq, List.map_filterMap]
  refine List.filterMap_congr fun o _ => ?_
  rw [Option.map_map]
  rfl

def listed (i : Image) : List (Nat × UInt8) :=
  (List.range i.size).map (fun k => (i.origin + k, i.cell k)) ++
    (List.range configCapacity).filterMap
      (fun o => (i.configAt? o).map (Place.configBase + o, ·)) ++
    i.eeprom.toList.zipIdx.map fun (b, k) => (Place.eepromBase + k, b)

theorem assigned_fileRuns (room : 2 * i.words ≤ i.capacity) :
    assigned i.fileRuns = i.listed := by
  rw [fileRuns, assigned_append, listed]
  change (cells i.origin i.codeBytes ++ assigned (configRuns i.knownConfig)) ++
    (cells Place.eepromBase i.eeprom.toList ++ []) = _
  rw [codeBytes_eq room, cells_map, assigned_configRuns, map_knownConfig, cells_eq,
    List.append_nil]

theorem fileRuns_low (built : i.Built) (short : i.origin + i.size < 4294967296) :
    ∀ run ∈ i.fileRuns, run.1 + run.2.length ≤ 4294967296 := by
  obtain ⟨_, hconfig, heeprom, hbytes, hcells⟩ := place_limits
  have low : ∀ x ∈ i.knownConfig, x.1 < configCapacity := fun _ hx =>
    lt_of_configAt? (mem_knownConfig.mp hx)
  intro run member
  obtain member | member := List.mem_append.mp member
  · obtain rfl | member := List.mem_cons.mp member
    · change i.origin + i.codeBytes.length ≤ _
      rw [length_codeBytes built.roomy]
      omega
    · obtain ⟨run, hrun, rfl⟩ := List.mem_map.mp member
      have within := runs_within low run hrun
      change Place.configBase + run.1 + run.2.length ≤ _
      omega
  · obtain rfl := List.mem_singleton.mp member
    have room := built.eeprom_le
    change Place.eepromBase + i.eeprom.toList.length ≤ _
    rw [Array.length_toList]
    omega

/-! ## Decoding a file -/

/-- Every image whose code has addresses of 32 bits has a file of records that decode to each of its
bytes once, in order and at its address. -/
theorem decoded_file (built : i.Built) (short : i.origin + i.size < 4294967296) :
    ∃ text, i.encodeIntelHex = .ok text ∧ recordsOf? text = some i.records ∧
      i.records.getLast? = some .endOfFile ∧ i.records.count .endOfFile = 1 ∧
      (∀ offset bytes, .data offset bytes ∈ i.records →
        1 ≤ bytes.length ∧ bytes.length ≤ 16 ∧ offset.toNat + bytes.length ≤ 65536) ∧
      i.records = announced 0 (placed 0 i.records) ++ [.endOfFile] ∧
      assigned (placed 0 i.records) =
        (List.range i.size).map (fun k => (i.origin + k, i.cell k)) ++
          (List.range 32).filterMap
            (fun o => (i.configAt? o).map (Place.configBase + o, ·)) ++
          i.eeprom.toList.zipIdx.map (fun (b, k) => (Place.eepromBase + k, b)) ∧
      ∀ k < i.size, i.byteAt? k = some (i.cell k) := by
  obtain ⟨parts, sized, assigns, records⟩ :=
    runRecords_announced 0 i.fileRuns (fileRuns_low built short)
  have file : i.records = announced 0 parts ++ [.endOfFile] := by rw [Image.records, records]
  have decoded : placed 0 i.records = parts := by
    rw [file]
    exact placed_announced 0 fun part h => (sized part h).low
  have text : recordsOf? i.toIntelHex = some i.records :=
    recordsOf?_textOf i.records (writable_records i).1
  have closed := endOfFile_not_mem_announced 0 parts
  refine ⟨i.toIntelHex, encodeIntelHex_eq i, text, ?_, ?_, fun offset bytes mem => ?_, ?_, ?_,
    fun k hk => ?_⟩
  · rw [file, List.getLast?_concat]
  · rw [file, List.count_append, List.count_eq_zero.mpr closed]
    rfl
  · rw [file] at mem
    rcases List.mem_append.mp mem with data | last
    · exact mem_announced_data sized data
    · cases List.mem_singleton.mp last
  · rw [decoded, file]
  · rw [decoded, assigns]
    exact assigned_fileRuns built.roomy
  · refine byteAt?_of_lt built.roomy ?_
    rw [words, wordsFor]
    omega

/-- Code across the end of a segment, a gap between the configuration bytes, and EEPROM contents. -/
theorem decoded_file_acrossSegments :
    ∃ text, acrossSegments.encodeIntelHex = .ok text ∧
      recordsOf? text = some acrossSegments.records ∧
      acrossSegments.records.getLast? = some .endOfFile ∧
      assigned (placed 0 acrossSegments.records) =
        [(65535, 0x11), (65536, 0x22), (65537, 0x33), (0x300001, 0x0E), (0x30001F, 0x40),
          (0xF00000, 0xFF), (0xF00001, 0xFF), (0xF00002, 0x5A)] := by
  obtain ⟨text, encoded, read, last, -, -, -, bytes, -⟩ :=
    decoded_file built_acrossSegments (by decide)
  exact ⟨text, encoded, read, last, bytes⟩

end Image

end InCircuit
