import InCircuit.Proofs.IntelHex.Files

set_option autoImplicit false

/-!
# The line that a fault is about

A reading fails for its format at the first line that it can do nothing with: one that holds no
record, or data outside all regions. The number in the fault counts the lines up to there that are
not empty, so it is the number of the line only where none is empty.
-/
namespace InCircuit

namespace IntelHex

def baseAfter (base : Nat) : List Record → Nat
  | [] => base
  | .segment s :: rest => baseAfter (s.toNat * 16) rest
  | .linear u :: rest => baseAfter (u.toNat * 65536) rest
  | .data .. :: rest | .endOfFile :: rest | .startSegment .. :: rest | .startLinear .. :: rest =>
    baseAfter base rest

theorem baseAfter_cons (base : Nat) (r : Record) (rest : List Record) :
    baseAfter base (r :: rest) = baseAfter (baseAfter base [r]) rest := by
  cases r <;> rfl

theorem placed_cons {r : Record} (goesOn : r ≠ .endOfFile) (base : Nat) (rest : List Record) :
    placed base (r :: rest) = placed base [r] ++ placed (baseAfter base [r]) rest := by
  cases r with
  | endOfFile => exact absurd rfl goesOn
  | _ => rfl

/-- Lines that are read without an end: each holds a record, and there is room for its data. -/
structure Passed (capacity base : Nat) (lines : List (List Char)) (records : List Record) :
    Prop where
  decoded : lines.mapM Record.decode? = some records
  goesOn : .endOfFile ∉ records
  room : ∀ part ∈ placed base records, Admitted capacity part.1 part.2.length

inductive Stops (base n : Nat) (line : List Char) : FormatFault → Prop
  | bad (noRecord : Record.decode? line = none) : Stops base n line (.badRecord n)
  | stray (offset : UInt16) (bytes : List UInt8)
    (decoded : Record.decode? line = some (.data offset bytes))
    (outside : Place.ofAddress? (base + offset.toNat) = none) : Stops base n line (.strayRecord n)

/-- The lines, numbered from `n` on, are passed up to one with the fault. -/
def StopsIn (capacity base n : Nat) (lines : List (List Char)) (fault : FormatFault) : Prop :=
  ∃ before line after records, lines = before ++ line :: after ∧
    Passed capacity base before records ∧
    Stops (baseAfter base records) (n + before.length) line fault

variable {capacity base n : Nat} {line : List Char} {lines : List (List Char)} {fault : FormatFault}

theorem Passed.nil : Passed capacity base [] [] :=
  ⟨rfl, List.not_mem_nil, fun _ h => nomatch h⟩

theorem passed_cons {records : List Record} :
    Passed capacity base (line :: lines) records ↔ ∃ r rest, records = r :: rest ∧
      Record.decode? line = some r ∧ r ≠ .endOfFile ∧
      (∀ part ∈ placed base [r], Admitted capacity part.1 part.2.length) ∧
      Passed capacity (baseAfter base [r]) lines rest := by
  constructor
  · rintro ⟨decoded, goesOn, room⟩
    rw [List.mapM_cons] at decoded
    obtain ⟨r, first, more⟩ := Option.bind_eq_some_iff.mp decoded
    obtain ⟨rest, following, same⟩ := Option.bind_eq_some_iff.mp more
    obtain rfl := Option.some.inj same
    obtain ⟨goesOn_r, goesOn_rest⟩ := not_or.mp (mt List.mem_cons.mpr goesOn)
    rw [placed_cons (Ne.symm goesOn_r)] at room
    obtain ⟨room_r, room_rest⟩ := List.forall_mem_append.mp room
    exact ⟨r, rest, rfl, first, Ne.symm goesOn_r, room_r, following, goesOn_rest, room_rest⟩
  · rintro ⟨r, rest, rfl, first, goesOn_r, room_r, following, goesOn_rest, room_rest⟩
    refine ⟨by rw [List.mapM_cons, first, following]; rfl, ?_, ?_⟩
    · exact fun member => (List.mem_cons.mp member).elim (Ne.symm goesOn_r) goesOn_rest
    · rw [placed_cons goesOn_r]
      exact List.forall_mem_append.mpr ⟨room_r, room_rest⟩

/-- The fault is that of the first line, or that one is passed and the fault is one of the rest. -/
theorem stopsIn_cons :
    StopsIn capacity base n (line :: lines) fault ↔ Stops base n line fault ∨
      ∃ r, Record.decode? line = some r ∧ r ≠ .endOfFile ∧
        (∀ part ∈ placed base [r], Admitted capacity part.1 part.2.length) ∧
        StopsIn capacity (baseAfter base [r]) (n + 1) lines fault := by
  constructor
  · rintro ⟨_ | ⟨first, before⟩, stop, after, records, shape, passed, stops⟩
    · obtain ⟨rfl, rfl⟩ := List.cons_eq_cons.mp shape
      obtain rfl := Option.some.inj passed.decoded
      exact .inl stops
    · obtain ⟨rfl, rfl⟩ := List.cons_eq_cons.mp shape
      obtain ⟨r, rest, rfl, decoded, goesOn, room, passed⟩ := passed_cons.mp passed
      rw [baseAfter_cons, List.length_cons, Nat.add_comm before.length, ← Nat.add_assoc] at stops
      exact .inr ⟨r, decoded, goesOn, room, before, stop, after, rest, rfl, passed, stops⟩
  · rintro (stops | ⟨r, decoded, goesOn, room, before, stop, after, rest, rfl, passed, stops⟩)
    · exact ⟨[], line, lines, [], rfl, .nil, stops⟩
    · refine ⟨line :: before, stop, after, r :: rest, rfl,
        passed_cons.mpr ⟨r, rest, rfl, decoded, goesOn, room, passed⟩, ?_⟩
      rw [baseAfter_cons, List.length_cons, Nat.add_comm before.length, ← Nat.add_assoc]
      exact stops

theorem stopsIn_cons_of_none (noRecord : Record.decode? line = none) :
    StopsIn capacity base n (line :: lines) fault ↔ fault = .badRecord n := by
  rw [stopsIn_cons]
  constructor
  · rintro (stops | ⟨r, decoded, -⟩)
    · cases stops with
      | bad => rfl
      | stray offset bytes decoded => rw [noRecord] at decoded; cases decoded
    · rw [noRecord] at decoded
      cases decoded
  · rintro rfl
    exact .inl (.bad noRecord)

theorem stopsIn_cons_of_some {r : Record} (decoded : Record.decode? line = some r) :
    StopsIn capacity base n (line :: lines) fault ↔
      (∃ offset bytes, r = .data offset bytes ∧ Place.ofAddress? (base + offset.toNat) = none ∧
        fault = .strayRecord n) ∨
      r ≠ .endOfFile ∧ (∀ part ∈ placed base [r], Admitted capacity part.1 part.2.length) ∧
        StopsIn capacity (baseAfter base [r]) (n + 1) lines fault := by
  rw [stopsIn_cons]
  refine or_congr ⟨fun stops => ?_, ?_⟩ ⟨?_, fun rest => ⟨r, decoded, rest⟩⟩
  · cases stops with
    | bad noRecord => rw [noRecord] at decoded; cases decoded
    | stray offset bytes data outside =>
      exact ⟨offset, bytes, Option.some.inj (decoded.symm.trans data), outside, rfl⟩
  · rintro ⟨offset, bytes, rfl, outside, rfl⟩
    exact .stray offset bytes decoded outside
  · rintro ⟨r', same, rest⟩
    obtain rfl := Option.some.inj (decoded.symm.trans same)
    exact rest

end IntelHex

namespace Image

open IntelHex

variable {i : Image} {text : String} {capacity : Nat} {fault : FormatFault}

/-! ## Readings that fail for the format -/

theorem putConfigs_ne_format (offset : Nat) (bytes : List UInt8) :
    i.putConfigs offset bytes ≠ .error (.format fault) := by
  induction bytes generalizing i offset with
  | nil => exact fun h => nomatch h
  | cons b bytes ih =>
    change (i.putConfig offset b >>= fun j => j.putConfigs (offset + 1) bytes) ≠ _
    rw [putConfig]
    split
    · exact ih (offset + 1)
    · intro h
      cases h

theorem apply_eq_format {address n : Nat} {bytes : List UInt8} :
    i.apply address bytes n = .error (.format fault) ↔
      Place.ofAddress? address = none ∧ fault = .strayRecord n := by
  rw [apply]
  cases Place.ofAddress? address with
  | none => simp [eq_comm]
  | some place =>
    refine iff_of_false ?_ fun outside => Option.some_ne_none place outside.1
    cases place with
    | code offset =>
      change i.putCode offset bytes ≠ _
      rw [putCode]
      split <;> (intro h; cases h)
    | idLocations =>
      intro h
      cases h
    | config offset => exact putConfigs_ne_format offset bytes
    | eeprom offset =>
      change i.writeEeprom offset bytes ≠ _
      rw [writeEeprom]
      split <;> (intro h; cases h)

theorem applyLines_eq_format (lines : List (List Char)) (base n : Nat) :
    i.applyLines base n lines = .error (.format fault) ↔
      StopsIn i.capacity base n lines fault := by
  induction lines generalizing i base n with
  | nil =>
    refine iff_of_false (fun h => nomatch h) ?_
    rintro ⟨before, line, after, records, shape, -⟩
    exact List.append_ne_nil_of_right_ne_nil before (List.cons_ne_nil line after) shape.symm
  | cons line lines ih =>
    cases decoded : Record.decode? line with
    | none =>
      rw [stopsIn_cons_of_none decoded, applyLines, decoded]
      simp [eq_comm]
    | some r =>
      rw [stopsIn_cons_of_some decoded, applyLines, decoded]
      cases r with
      | data offset bytes =>
        change (i.apply (base + offset.toNat) bytes n >>= fun k =>
          k.applyLines base (n + 1) lines) = _ ↔ _
        cases applied : i.apply (base + offset.toNat) bytes n with
        | error e =>
          constructor
          · intro h
            obtain rfl := Except.error.inj h
            obtain ⟨outside, rfl⟩ := apply_eq_format.mp applied
            exact .inl ⟨offset, bytes, rfl, outside, rfl⟩
          · rintro (⟨_, _, same, outside, rfl⟩ | ⟨-, room, -⟩)
            · obtain ⟨rfl, rfl⟩ := Record.data.inj same
              exact applied.symm.trans (apply_eq_format.mpr ⟨outside, rfl⟩)
            · obtain ⟨k, put⟩ := exists_applyPart?.mpr (room _ List.mem_cons_self)
              cases applied.symm.trans (apply_number (applyPart?_eq_some.mp put) n)
        | ok k =>
          have put := applyPart?_eq_some.mpr (apply_number applied 0)
          change k.applyLines base (n + 1) lines = _ ↔ _
          rw [ih, capacity_applyPart? put]
          constructor
          · refine fun rest => .inr ⟨Record.noConfusion, fun part member => ?_, rest⟩
            obtain rfl := List.mem_singleton.mp member
            exact exists_applyPart?.mp ⟨k, put⟩
          · rintro (⟨_, _, same, outside, rfl⟩ | ⟨-, -, rest⟩)
            · obtain ⟨rfl, rfl⟩ := Record.data.inj same
              cases applied.symm.trans (apply_eq_format.mpr ⟨outside, rfl⟩)
            · exact rest
      | endOfFile => simp
      | segment s | linear s => simp [placed, baseAfter, ih]
      | startSegment s p | startLinear s p => simp [placed, baseAfter, ih]

theorem length_filled_add_count (lines : List (List Char)) :
    (lines.filter (! ·.isEmpty)).length + lines.count [] = lines.length := by
  induction lines with
  | nil => rfl
  | cons line lines ih =>
    cases line with
    | nil => simp [← ih, Nat.add_assoc]
    | cons c line => simp [← ih, Nat.add_right_comm]

/-- A text is refused for its format at a line that is not empty, which holds no record, or data
outside all regions, just when all that come before it are passed. The fault has the number of the
line but for the empty lines above it. -/
theorem ofIntelHex_eq_format :
    ofIntelHex text capacity = .error (.format fault) ↔
      ∃ before line after records n, Text.lines text.toList = before ++ line :: after ∧
        line ≠ [] ∧ Passed capacity 0 (before.filter (! ·.isEmpty)) records ∧
        Stops (baseAfter 0 records) n line fault ∧ n + before.count [] = before.length + 1 := by
  rw [ofIntelHex, applyLines_eq_format, capacity_blank, StopsIn]
  constructor
  · rintro ⟨_, line, rest, records, shape, passed, stops⟩
    obtain ⟨before, more, split, rfl, follows⟩ := List.filter_eq_append_iff.mp shape
    obtain ⟨gap, after, rfl, empty, some, rfl⟩ := List.filter_eq_cons_iff.mp follows
    have same : (before ++ gap).filter (! ·.isEmpty) = before.filter (! ·.isEmpty) := by
      rw [List.filter_append, List.filter_eq_nil_iff.mpr empty, List.append_nil]
    refine ⟨before ++ gap, line, after, records, _, by rw [split, List.append_assoc], ?_, ?_,
      stops, ?_⟩
    · rintro rfl
      cases some
    · rwa [same]
    · have lengths := length_filled_add_count (before ++ gap)
      rw [same] at lengths
      omega
  · rintro ⟨before, line, after, records, n, shape, some, passed, stops, number⟩
    have filled : (! line.isEmpty) = true := by simpa using some
    refine ⟨_, line, after.filter (! ·.isEmpty), records, ?_, passed, ?_⟩
    · rw [shape, List.filter_append, List.filter_cons, if_pos filled]
    · have lengths := length_filled_add_count before
      have same : 1 + (before.filter (! ·.isEmpty)).length = n := by omega
      rwa [same]

def gappedText : String := ":0100000001FE\n\nX\n"

/-- The third line is the first that a reading stops at. The fault has the number 2. -/
theorem ofIntelHex_eq_format_gappedText :
    ofIntelHex gappedText 16 = .error (.format (.badRecord 2)) ∧
      ∃ before line, Text.lines gappedText.toList = before ++ [line] ∧ before.length + 1 = 3 ∧
        line ≠ [] ∧ Record.decode? line = none ∧
        Passed 16 0 (before.filter (! ·.isEmpty)) [.data 0 [1]] := by
  have split : Text.lines gappedText.toList =
      [":0100000001FE".toList, []] ++ ["X".toList] := by decide +kernel
  have passed : Passed 16 0 ([":0100000001FE".toList, []].filter (! ·.isEmpty)) [.data 0 [1]] :=
    ⟨by decide +kernel, by decide, by decide⟩
  have noRecord : Record.decode? "X".toList = none := by decide
  exact ⟨rfl, _, _, split, rfl, by decide, noRecord, passed⟩

end Image

end InCircuit
