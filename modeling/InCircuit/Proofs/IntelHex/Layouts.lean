import InCircuit.Proofs.IntelHex.Filling

set_option autoImplicit false

/-!
# Files that are cut into records differently

What is read from a file is the bytes that its records assign, and how far the records reach: one
without data assigns nothing, and still extends the code or the EEPROM contents to where it
stands. So the layout of a file does not count, unless a record runs out of the code or of the ID
locations, whose bytes all go where the first one goes.
-/
namespace InCircuit

namespace IntelHex

/-! ## What records say -/

def recordsOf? (text : String) : Option (List Record) :=
  ((Text.lines text.toList).filter (! ·.isEmpty)).mapM Record.decode?

def textOf (records : List Record) : String :=
  String.ofList (records.flatMap fun r => r.encode ++ ['\n'])

theorem recordsOf?_textOf (records : List Record) (short : ∀ r ∈ records, r.payload.length < 256) :
    recordsOf? (textOf records) = some records := by
  rw [recordsOf?, textOf, String.toList_ofList, Record.lines_encode]
  induction records with
  | nil => rfl
  | cons r records ih =>
    rw [List.map_cons, List.mapM_cons, Record.decode?_encode r (short r List.mem_cons_self),
      ih fun r h => short r (List.mem_cons_of_mem _ h)]
    rfl

/-- The data up to the end-of-file record, each record with the address it starts at. -/
def placed (base : Nat) : List Record → List (Nat × List UInt8)
  | [] => []
  | .data offset bytes :: rest => (base + offset.toNat, bytes) :: placed base rest
  | .endOfFile :: _ => []
  | .segment s :: rest => placed (s.toNat * 16) rest
  | .linear u :: rest => placed (u.toNat * 65536) rest
  | .startSegment .. :: rest | .startLinear .. :: rest => placed base rest

def cells (address : Nat) : List UInt8 → List (Nat × UInt8)
  | [] => []
  | b :: rest => (address, b) :: cells (address + 1) rest

def assigned (parts : List (Nat × List UInt8)) : List (Nat × UInt8) :=
  parts.flatMap fun (address, bytes) => cells address bytes

/-- How far records reach into the regions whose extent an image keeps, and whether one of them is
outside all regions. -/
structure Reach where
  code : Nat
  eeprom : Nat
  stray : Bool
deriving DecidableEq

namespace Reach

def ofRecord (address length : Nat) : Reach :=
  match Place.ofAddress? address with
  | some (.code offset) => ⟨offset + length, 0, false⟩
  | some .idLocations | some (.config _) => ⟨0, 0, false⟩
  | some (.eeprom offset) => ⟨0, offset + length, false⟩
  | none => ⟨0, 0, true⟩

def Within (r : Reach) (capacity : Nat) : Prop :=
  wordsFor r.code ≤ capacity / 2 ∧ r.eeprom ≤ Image.eepromCapacity ∧ r.stray = false

instance (r : Reach) (capacity : Nat) : Decidable (r.Within capacity) :=
  inferInstanceAs (Decidable (_ ∧ _ ∧ _))

theorem within_code {limit capacity : Nat} :
    Within ⟨limit, 0, false⟩ capacity ↔ wordsFor limit ≤ capacity / 2 :=
  ⟨fun h => h.1, fun h => ⟨h, Nat.zero_le _, rfl⟩⟩

theorem within_eeprom {limit capacity : Nat} :
    Within ⟨0, limit, false⟩ capacity ↔ limit ≤ Image.eepromCapacity :=
  ⟨fun h => h.2.1, fun h => ⟨show wordsFor 0 ≤ _ from Nat.zero_le _, h, rfl⟩⟩

def join (p q : Reach) : Reach := ⟨max p.code q.code, max p.eeprom q.eeprom, p.stray || q.stray⟩

theorem join_none (p : Reach) : p.join ⟨0, 0, false⟩ = p := by
  rw [join, Nat.max_zero, Nat.max_zero, Bool.or_false]

theorem none_join (p : Reach) : join ⟨0, 0, false⟩ p = p := by
  rw [join, Nat.zero_max, Nat.zero_max, Bool.false_or]

theorem join_assoc (p q r : Reach) : (p.join q).join r = p.join (q.join r) := by
  simp only [join, Nat.max_assoc, Bool.or_assoc]

end Reach

def reach : List (Nat × List UInt8) → Reach
  | [] => ⟨0, 0, false⟩
  | (address, bytes) :: rest => (Reach.ofRecord address bytes.length).join (reach rest)

end IntelHex

namespace Image

open IntelHex

variable {i j : Image}

/-! ## Records one after another -/

def applyPart? (i : Image) (part : Nat × List UInt8) : Option Image :=
  (i.apply part.1 part.2 0).toOption

def assign? (i : Image) (c : Nat × UInt8) : Option Image := i.applyPart? (c.1, [c.2])

theorem toOption_eq_some {x : Except Fault Image} : x.toOption = some i ↔ x = .ok i := by
  cases x with
  | error e =>
    constructor
    · intro h
      cases h
    · intro h
      cases h
  | ok k => exact ⟨fun h => congrArg _ (Option.some.inj h), fun h => congrArg _ (Except.ok.inj h)⟩

theorem applyPart?_eq_some {address : Nat} {bytes : List UInt8} :
    i.applyPart? (address, bytes) = some j ↔ i.apply address bytes 0 = .ok j :=
  toOption_eq_some

theorem toOption_applyLines_data {line : List Char} {offset : UInt16} {bytes : List UInt8}
    (decoded : Record.decode? line = some (.data offset bytes)) (lines : List (List Char))
    (base n : Nat) :
    (i.applyLines base n (line :: lines)).toOption =
      (i.applyPart? (base + offset.toNat, bytes)).bind fun k =>
        (k.applyLines base (n + 1) lines).toOption := by
  rw [applyLines, decoded]
  change Except.toOption (i.apply (base + offset.toNat) bytes n >>=
    fun k => k.applyLines base (n + 1) lines) = _
  apply Option.ext
  intro j
  rw [toOption_eq_some, bind_eq_ok, Option.bind_eq_some_iff]
  refine exists_congr fun k => ?_
  rw [toOption_eq_some, applyPart?_eq_some]
  exact and_congr_left fun _ => ⟨fun h => apply_number h 0, fun h => apply_number h n⟩

theorem toOption_applyLines {lines : List (List Char)} {records : List Record}
    (decoded : lines.mapM Record.decode? = some records) (base n : Nat) :
    (i.applyLines base n lines).toOption = (placed base records).foldlM applyPart? i := by
  induction lines generalizing i records base n with
  | nil =>
    obtain rfl := Option.some.inj decoded
    rfl
  | cons line lines ih =>
    rw [List.mapM_cons] at decoded
    obtain ⟨r, first, more⟩ := Option.bind_eq_some_iff.mp decoded
    obtain ⟨rest, following, same⟩ := Option.bind_eq_some_iff.mp more
    obtain rfl := Option.some.inj same
    cases r with
    | data offset bytes =>
      rw [toOption_applyLines_data first]
      exact Option.bind_congr fun k _ => ih following base (n + 1)
    | endOfFile =>
      rw [applyLines, first]
      rfl
    | segment s | linear s =>
      rw [applyLines, first]
      exact ih following _ _
    | startSegment s p | startLinear s p =>
      rw [applyLines, first]
      exact ih following _ _

/-! ## Records byte by byte -/

theorem capacity_applyPart? {part : Nat × List UInt8} (h : i.applyPart? part = some j) :
    j.capacity = i.capacity := by
  have applied := toOption_eq_some.mp h
  rw [apply] at applied
  split at applied
  · obtain ⟨_, rfl⟩ := putCode_eq_ok.mp applied
    exact size_storeCode _ _ _
  · obtain rfl := Except.ok.inj applied
    rfl
  · have same := congrArg capacity (putConfigs_keeps applied)
    exact same
  · obtain ⟨_, rfl⟩ := writeEeprom_eq_ok.mp applied
    rfl
  · cases applied

theorem capacity_assign? {c : Nat × UInt8} (h : i.assign? c = some j) : j.capacity = i.capacity :=
  capacity_applyPart? h

theorem applyPart?_cells {address : Nat} {bytes : List UInt8} (data : bytes ≠ [])
    (whole : Whole i.capacity address bytes.length) :
    i.applyPart? (address, bytes) = (cells address bytes).foldlM assign? i := by
  induction bytes generalizing i address with
  | nil => exact absurd rfl data
  | cons b rest ih =>
    rw [cells, List.foldlM_cons]
    apply Option.ext
    intro j
    rw [Option.bind_eq_bind, Option.bind_eq_some_iff]
    by_cases last : rest = []
    · subst last
      constructor
      · exact fun h => ⟨j, h, rfl⟩
      · rintro ⟨k, h, same⟩
        obtain rfl := Option.some.inj same
        exact h
    · rw [List.length_cons, Nat.add_comm] at whole
      have cut := apply_append (n := 0) (j := j) whole (List.cons_ne_nil b []) last
      rw [applyPart?_eq_some, ← List.singleton_append, cut]
      refine exists_congr fun k => ?_
      rw [← applyPart?_eq_some, ← applyPart?_eq_some]
      refine and_congr_right fun first => ?_
      have left := whole.drop (List.length_pos_iff.mpr last) (applyPart?_eq_some.mp first)
      rw [← capacity_assign? (c := (address, b)) first] at left
      rw [ih last left]
      rfl

/-! ## Reach -/

def extended (i : Image) (r : Reach) : Image :=
  { i with size := max i.size r.code, eeprom := overwrite i.eeprom r.eeprom [] }

theorem capacity_extended (i : Image) (r : Reach) : (i.extended r).capacity = i.capacity := rfl

def extend? (i : Image) (r : Reach) : Option Image :=
  if r.Within i.capacity then some (i.extended r) else none

theorem extend?_eq_some {r : Reach} :
    i.extend? r = some j ↔ r.Within i.capacity ∧ i.extended r = j := by
  rw [extend?, Option.ite_none_right_eq_some, Option.some_inj]

theorem extended_none (i : Image) : i.extended ⟨0, 0, false⟩ = i := by
  rw [extended, overwrite_zero, Nat.max_zero]

theorem extend?_none (i : Image) : i.extend? ⟨0, 0, false⟩ = some i :=
  extend?_eq_some.mpr ⟨⟨Nat.zero_le _, Nat.zero_le _, rfl⟩, i.extended_none⟩

theorem extend?_join (i : Image) (p q : Reach) :
    i.extend? (p.join q) = (i.extend? p).bind (·.extend? q) := by
  have within : (p.join q).Within i.capacity ↔ p.Within i.capacity ∧ q.Within i.capacity := by
    have words : wordsFor (max p.code q.code) ≤ i.capacity / 2 ↔
        wordsFor p.code ≤ i.capacity / 2 ∧ wordsFor q.code ≤ i.capacity / 2 := by
      simp only [wordsFor]
      omega
    simp only [Reach.Within, Reach.join, words, Nat.max_le, Bool.or_eq_false_iff]
    constructor
    · rintro ⟨⟨pc, qc⟩, ⟨pe, qe⟩, ps, qs⟩
      exact ⟨⟨pc, pe, ps⟩, qc, qe, qs⟩
    · rintro ⟨⟨pc, pe, ps⟩, qc, qe, qs⟩
      exact ⟨⟨pc, qc⟩, ⟨pe, qe⟩, ps, qs⟩
  have twice : i.extended (p.join q) = (i.extended p).extended q := by
    simp only [extended, Reach.join, overwrite_nil_nil, Nat.max_assoc]
  apply Option.ext
  intro j
  rw [Option.bind_eq_some_iff, extend?_eq_some, within, twice]
  simp only [extend?_eq_some]
  constructor
  · rintro ⟨⟨hp, hq⟩, h⟩
    exact ⟨_, ⟨hp, rfl⟩, hq, h⟩
  · rintro ⟨k, ⟨hp, rfl⟩, hq, h⟩
    exact ⟨⟨hp, hq⟩, h⟩

theorem applyPart?_nil (i : Image) (address : Nat) :
    i.applyPart? (address, []) = i.extend? (Reach.ofRecord address 0) := by
  rw [applyPart?, apply, Reach.ofRecord]
  generalize Place.ofAddress? address = place
  obtain _ | (offset | _ | offset | offset) := place
  · exact (if_neg fun within => Bool.noConfusion within.2.2).symm
  · change (i.putCode offset []).toOption = i.extend? ⟨offset, 0, false⟩
    apply Option.ext
    intro j
    rw [toOption_eq_some, putCode_eq_ok, extend?_eq_some, Reach.within_code, extended,
      overwrite_zero]
    exact and_congr_right fun _ => eq_comm
  · exact i.extend?_none.symm
  · exact i.extend?_none.symm
  · change (i.writeEeprom offset []).toOption = i.extend? ⟨0, offset, false⟩
    apply Option.ext
    intro j
    rw [toOption_eq_some, writeEeprom_eq_ok, extend?_eq_some, Reach.within_eeprom, extended,
      Nat.max_zero]
    exact and_congr_right fun _ => eq_comm

theorem extend?_of_applyPart? {address : Nat} {bytes : List UInt8}
    (h : i.applyPart? (address, bytes) = some j) :
    j.extend? (Reach.ofRecord address bytes.length) = some j := by
  have applied := applyPart?_eq_some.mp h
  rw [apply] at applied
  rw [Reach.ofRecord]
  generalize Place.ofAddress? address = place at applied ⊢
  obtain _ | (offset | _ | offset | offset) := place
  · cases applied
  · obtain ⟨fits, rfl⟩ := putCode_eq_ok.mp applied
    change extend? _ ⟨offset + bytes.length, 0, false⟩ = _
    rw [extend?_eq_some, Reach.within_code, extended, overwrite_zero, Nat.max_assoc, Nat.max_self]
    refine ⟨?_, rfl⟩
    simp only [capacity, size_storeCode]
    exact fits
  · exact j.extend?_none
  · exact j.extend?_none
  · obtain ⟨fits, rfl⟩ := writeEeprom_eq_ok.mp applied
    change extend? _ ⟨0, offset + bytes.length, false⟩ = _
    rw [extend?_eq_some, Reach.within_eeprom, extended, ← overwrite_append, List.append_nil,
      Nat.max_zero]
    exact ⟨fits, rfl⟩

theorem assign?_extended (i : Image) (r : Reach) (c : Nat × UInt8) :
    (i.extended r).assign? c = (i.assign? c).map (·.extended r) := by
  rw [assign?, applyPart?, apply, assign?, applyPart?, apply]
  split
  · rename_i offset _
    rw [putCode, putCode]
    change (if i.capacity / 2 < _ then _ else _ : Except Fault Image).toOption = _
    split
    · rfl
    · change some _ = some _
      simp only [extended, Nat.max_right_comm]
  · rfl
  · rename_i offset _
    rw [putConfigs, putConfigs, putConfig, putConfig]
    split
    · rfl
    · rfl
  · rename_i offset _
    apply Option.ext
    intro j
    rw [toOption_eq_some, writeEeprom_eq_ok, Option.map_eq_some_iff]
    simp only [toOption_eq_some, writeEeprom_eq_ok]
    constructor
    · rintro ⟨fits, rfl⟩
      exact ⟨_, ⟨fits, rfl⟩, by rw [extended, extended, overwrite_nil_comm]⟩
    · rintro ⟨k, ⟨fits, rfl⟩, rfl⟩
      exact ⟨fits, by rw [extended, extended, overwrite_nil_comm]⟩
  · rfl

theorem assign?_extend? (i : Image) (r : Reach) (c : Nat × UInt8) :
    (i.extend? r).bind (·.assign? c) = (i.assign? c).bind (·.extend? r) := by
  by_cases within : r.Within i.capacity
  · rw [extend?, if_pos within, Option.bind_some, assign?_extended]
    cases assigned : i.assign? c with
    | none => rfl
    | some k =>
      rw [← capacity_assign? assigned] at within
      rw [Option.bind_some, extend?, if_pos within]
      rfl
  · rw [extend?, if_neg within]
    cases assigned : i.assign? c with
    | none => rfl
    | some k =>
      rw [← capacity_assign? assigned] at within
      rw [Option.bind_some, extend?, if_neg within]
      rfl

theorem foldlM_assign?_extend? (i : Image) (r : Reach) (cs : List (Nat × UInt8)) :
    (i.extend? r).bind (cs.foldlM assign? ·) = (cs.foldlM assign? i).bind (·.extend? r) := by
  induction cs generalizing i with
  | nil =>
    change (i.extend? r).bind some = i.extend? r
    exact Option.bind_fun_some _
  | cons c cs ih =>
    simp only [List.foldlM_cons, Option.bind_eq_bind]
    rw [← Option.bind_assoc, assign?_extend?, Option.bind_assoc, Option.bind_assoc]
    exact Option.bind_congr fun k _ => ih k

/-- A record assigns its bytes and extends the image to its end. -/
theorem applyPart?_eq {address : Nat} {bytes : List UInt8}
    (whole : Whole i.capacity address bytes.length) :
    i.applyPart? (address, bytes) =
      ((cells address bytes).foldlM assign? i).bind
        (·.extend? (Reach.ofRecord address bytes.length)) := by
  by_cases data : bytes = []
  · subst data
    exact i.applyPart?_nil address
  · rw [← applyPart?_cells data whole]
    cases applied : i.applyPart? (address, bytes) with
    | none => rfl
    | some k => exact (extend?_of_applyPart? applied).symm

theorem capacity_foldlM {cs : List (Nat × UInt8)} (h : cs.foldlM assign? i = some j) :
    j.capacity = i.capacity := by
  induction cs generalizing i with
  | nil =>
    obtain rfl := Option.some.inj h
    rfl
  | cons c cs ih =>
    rw [List.foldlM_cons] at h
    obtain ⟨k, first, rest⟩ := Option.bind_eq_some_iff.mp h
    rw [ih rest, capacity_assign? first]

theorem foldlM_cells {parts : List (Nat × List UInt8)} (data : ∀ part ∈ parts, part.2 ≠ [])
    (whole : ∀ part ∈ parts, Whole i.capacity part.1 part.2.length) :
    parts.foldlM applyPart? i = (assigned parts).foldlM assign? i := by
  induction parts generalizing i with
  | nil => rfl
  | cons part parts ih =>
    obtain ⟨address, bytes⟩ := part
    rw [List.foldlM_cons, assigned, List.flatMap_cons, List.foldlM_append,
      applyPart?_cells (data _ List.mem_cons_self) (whole _ List.mem_cons_self)]
    refine Option.bind_congr fun k first => ih ?_ ?_
    · exact fun part h => data part (List.mem_cons_of_mem _ h)
    · rw [capacity_foldlM first]
      exact fun part h => whole part (List.mem_cons_of_mem _ h)

theorem foldlM_applyPart? {parts : List (Nat × List UInt8)}
    (whole : ∀ part ∈ parts, Whole i.capacity part.1 part.2.length) :
    parts.foldlM applyPart? i =
      ((assigned parts).foldlM assign? i).bind (·.extend? (reach parts)) := by
  induction parts generalizing i with
  | nil => exact i.extend?_none.symm
  | cons part parts ih =>
    obtain ⟨address, bytes⟩ := part
    have first := whole _ List.mem_cons_self
    have later (k : Image) (same : k.capacity = i.capacity) :
        parts.foldlM applyPart? k =
          ((assigned parts).foldlM assign? k).bind (·.extend? (reach parts)) :=
      ih fun part h => by rw [same]; exact whole part (List.mem_cons_of_mem _ h)
    let here := Reach.ofRecord address bytes.length
    calc (i.applyPart? (address, bytes)).bind (parts.foldlM applyPart? ·)
      _ = (((cells address bytes).foldlM assign? i).bind (·.extend? here)).bind
            (parts.foldlM applyPart? ·) := by rw [applyPart?_eq first]
      _ = ((cells address bytes).foldlM assign? i).bind fun k => (k.extend? here).bind fun k =>
            ((assigned parts).foldlM assign? k).bind (·.extend? (reach parts)) := by
        rw [Option.bind_assoc]
        refine Option.bind_congr fun k hk => Option.bind_congr fun l hl => later l ?_
        obtain ⟨_, rfl⟩ := extend?_eq_some.mp hl
        exact (k.capacity_extended here).trans (capacity_foldlM hk)
      _ = ((cells address bytes).foldlM assign? i).bind fun k =>
            ((assigned parts).foldlM assign? k).bind (·.extend? (here.join (reach parts))) := by
        refine Option.bind_congr fun k _ => ?_
        rw [← Option.bind_assoc, foldlM_assign?_extend?, Option.bind_assoc]
        simp only [extend?_join]
      _ = ((cells address bytes ++ assigned parts).foldlM assign? i).bind
            (·.extend? (here.join (reach parts))) := by
        rw [List.foldlM_append, Option.bind_eq_bind, Option.bind_assoc]

/-! ## The extent of an image -/

def extent (i : Image) : Reach := ⟨i.size, i.eeprom.size, false⟩

theorem extent_of_applyPart? {part : Nat × List UInt8} (h : i.applyPart? part = some j) :
    j.extent = i.extent.join (Reach.ofRecord part.1 part.2.length) := by
  have applied := toOption_eq_some.mp h
  rw [apply] at applied
  rw [Reach.ofRecord]
  generalize Place.ofAddress? part.1 = place at applied ⊢
  obtain _ | (offset | _ | offset | offset) := place
  · cases applied
  · obtain ⟨_, rfl⟩ := putCode_eq_ok.mp applied
    simp only [extent, Reach.join, Nat.max_zero, Bool.or_false]
  · obtain rfl := Except.ok.inj applied
    exact i.extent.join_none.symm
  · have same := congrArg extent (putConfigs_keeps applied)
    exact same.trans i.extent.join_none.symm
  · obtain ⟨_, rfl⟩ := writeEeprom_eq_ok.mp applied
    simp only [extent, Reach.join, Nat.max_zero, Bool.or_false, size_overwrite]

theorem extent_foldlM {parts : List (Nat × List UInt8)} (h : parts.foldlM applyPart? i = some j) :
    j.extent = i.extent.join (reach parts) := by
  induction parts generalizing i with
  | nil =>
    obtain rfl := Option.some.inj h
    exact i.extent.join_none.symm
  | cons part parts ih =>
    rw [List.foldlM_cons] at h
    obtain ⟨k, first, rest⟩ := Option.bind_eq_some_iff.mp h
    rw [ih rest, extent_of_applyPart? first, reach, Reach.join_assoc]

/-! ## Files -/

theorem toOption_ofIntelHex {text : String} {records : List Record}
    (read : recordsOf? text = some records) (capacity : Nat) :
    (ofIntelHex text capacity).toOption = (placed 0 records).foldlM applyPart? (blank capacity 0) :=
  toOption_applyLines read 0 1

theorem extent_ofIntelHex {text : String} {records : List Record} {capacity : Nat}
    (read : recordsOf? text = some records) (h : ofIntelHex text capacity = .ok i) :
    i.extent = reach (placed 0 records) := by
  have folded := toOption_eq_some.mpr h
  rw [toOption_ofIntelHex read] at folded
  rw [extent_foldlM folded]
  exact Reach.none_join _

def Alike (x y : Except Fault Image) : Prop :=
  (∃ e e', x = .error e ∧ y = .error e') ∨ ∃ i, x = .ok i ∧ y = .ok i

theorem alike_iff {x y : Except Fault Image} : Alike x y ↔ x.toOption = y.toOption := by
  constructor
  · rintro (⟨e, e', rfl, rfl⟩ | ⟨i, rfl, rfl⟩)
    · rfl
    · rfl
  · intro same
    cases x with
    | error e =>
      cases y with
      | error e' => exact .inl ⟨e, e', rfl, rfl⟩
      | ok k => cases same
    | ok i =>
      cases y with
      | error e => cases same
      | ok k => exact .inr ⟨i, rfl, congrArg _ (Option.some.inj same).symm⟩

/-- Two files that assign the same bytes in the same order are read alike, whatever their records,
if every record has data or the records reach equally far. Otherwise only if both are refused. -/
theorem ofIntelHex_alike {capacity : Nat} {text text' : String} {records records' : List Record}
    (read : recordsOf? text = some records) (read' : recordsOf? text' = some records')
    (whole : ∀ part ∈ placed 0 records, Whole capacity part.1 part.2.length)
    (whole' : ∀ part ∈ placed 0 records', Whole capacity part.1 part.2.length)
    (same : assigned (placed 0 records) = assigned (placed 0 records')) :
    ((∀ part ∈ placed 0 records ++ placed 0 records', part.2 ≠ []) →
        Alike (ofIntelHex text capacity) (ofIntelHex text' capacity)) ∧
      (Alike (ofIntelHex text capacity) (ofIntelHex text' capacity) ↔
        reach (placed 0 records) = reach (placed 0 records') ∨
          ∃ e e', ofIntelHex text capacity = .error e ∧ ofIntelHex text' capacity = .error e') := by
  rw [← capacity_blank capacity 0] at whole whole'
  refine ⟨fun data => ?_, ?_, ?_⟩
  · rw [alike_iff, toOption_ofIntelHex read, toOption_ofIntelHex read',
      foldlM_cells (fun part h => data part (List.mem_append_left _ h)) whole,
      foldlM_cells (fun part h => data part (List.mem_append_right _ h)) whole', same]
  · rintro (refused | ⟨i, h, h'⟩)
    · exact .inr refused
    · exact .inl ((extent_ofIntelHex read h).symm.trans (extent_ofIntelHex read' h'))
  · rintro (far | refused)
    · rw [alike_iff, toOption_ofIntelHex read, toOption_ofIntelHex read', foldlM_applyPart? whole,
        foldlM_applyPart? whole', same, far]
    · exact .inl refused

def joinedRecords : List Record :=
  [.data 14 [1, 2, 3, 4], .linear 0x30, .data 5 [0x0F, 0xFF], .linear 0xF0, .data 0 [7], .endOfFile]

/-- The same bytes in more records, of which one is empty and one is in another segment. -/
def cutRecords : List Record :=
  [.data 14 [1], .data 15 [], .data 15 [2], .segment 1, .data 0 [3, 4], .linear 0x30,
    .data 5 [0x0F], .data 6 [0xFF], .linear 0xF0, .data 0 [7], .endOfFile]

/-- Both texts are read, with the same image. -/
theorem ofIntelHex_alike_cut :
    Alike (ofIntelHex (textOf joinedRecords) 18) (ofIntelHex (textOf cutRecords) 18) ∧
      (ofIntelHex (textOf joinedRecords) 18).toOption.isSome := by
  have read := recordsOf?_textOf joinedRecords (by decide)
  have read' := recordsOf?_textOf cutRecords (by decide)
  have far : reach (placed 0 joinedRecords) = reach (placed 0 cutRecords) := by decide +kernel
  refine ⟨(ofIntelHex_alike read read' (by decide) (by decide) (by decide)).2.mpr (.inl far), ?_⟩
  rw [toOption_ofIntelHex read]
  decide +kernel

def Assigns (text : String) (cs : List (Nat × UInt8)) : Prop :=
  ∃ records, recordsOf? text = some (records ++ [.endOfFile]) ∧ .endOfFile ∉ records ∧
    assigned (placed 0 records) = cs

/-- Two texts that assign the same bytes, and are not read alike. -/
def ReadApart (text text' : String) (capacity : Nat) : Prop :=
  (∃ cs, Assigns text cs ∧ Assigns text' cs) ∧
    ¬ Alike (ofIntelHex text capacity) (ofIntelHex text' capacity)

theorem readApart {capacity : Nat} {text text' : String} {records records' : List Record}
    (read : recordsOf? text = some (records ++ [.endOfFile]))
    (read' : recordsOf? text' = some (records' ++ [.endOfFile]))
    (closed : .endOfFile ∉ records) (closed' : .endOfFile ∉ records')
    (same : assigned (placed 0 records) = assigned (placed 0 records'))
    (apart : (placed 0 (records ++ [.endOfFile])).foldlM applyPart? (blank capacity 0) ≠
      (placed 0 (records' ++ [.endOfFile])).foldlM applyPart? (blank capacity 0)) :
    ReadApart text text' capacity := by
  refine ⟨⟨_, ⟨records, read, closed, rfl⟩, records', read', closed', same.symm⟩, ?_⟩
  rw [alike_iff, toOption_ofIntelHex read, toOption_ofIntelHex read']
  exact apart

/-- A record that runs out of the code is refused where there is no room for it, its bytes one by
one are not. -/
theorem applyPart?_code_end (room : i.capacity = 0x200000) (a b : UInt8) :
    [(0x1FFFFF, [a, b])].foldlM applyPart? i ≠
      [(0x1FFFFF, [a]), (0x200000, [b])].foldlM applyPart? i := by
  have joined : i.applyPart? (0x1FFFFF, [a, b]) = none := by
    have wide : i.capacity / 2 < wordsFor (0x1FFFFF + 2) := by
      rw [room]
      decide
    change (i.apply 0x1FFFFF [a, b] 0).toOption = none
    rw [apply_code (by decide), putCode]
    exact congrArg _ (if_pos wide)
  have fits : wordsFor (0x1FFFFF + 1) ≤ i.capacity / 2 := by
    rw [room]
    decide
  obtain ⟨k, put⟩ : ∃ k, i.putCode 0x1FFFFF [a] = .ok k := ⟨_, putCode_eq_ok.mpr ⟨fits, rfl⟩⟩
  have first : i.applyPart? (0x1FFFFF, [a]) = some k :=
    applyPart?_eq_some.mpr ((apply_code (by decide) _ _).trans put)
  have second : k.applyPart? (0x200000, [b]) = some k :=
    applyPart?_eq_some.mpr (apply_idLocations (by decide) (by decide) _ _)
  simp only [List.foldlM_cons, List.foldlM_nil, joined, first, second, Option.bind_eq_bind,
    Option.bind_none, Option.bind_some, Option.pure_def]
  exact (Option.some_ne_none k).symm

/-- The same bytes are read differently when a record without data stands above them, when a record
runs out of the ID locations into the configuration, and when one runs out of code that has no room
for it. -/
theorem ofIntelHex_apart :
    ReadApart ":00001000F0\n:00000001FF\n" ":00000001FF\n" 32 ∧
    ReadApart ":02000004002FCB\n:02FFFF000102FD\n:00000001FF\n"
      ":02000004002FCB\n:01FFFF000100\n:020000040030CA\n:0100000002FD\n:00000001FF\n" 0 ∧
    ReadApart ":02000004001FDB\n:02FFFF000102FD\n:00000001FF\n"
      ":02000004001FDB\n:01FFFF000100\n:020000040020DA\n:0100000002FD\n:00000001FF\n" 0x200000 := by
  refine ⟨?_, ?_, ?_⟩
  · have above : recordsOf? ":00001000F0\n:00000001FF\n" =
        some ([.data 16 []] ++ [.endOfFile]) := by
      decide +kernel
    have nothing : recordsOf? ":00000001FF\n" = some ([] ++ [.endOfFile]) := by decide +kernel
    exact readApart above nothing (by decide) (by decide) (by decide) (by decide)
  · have joined : recordsOf? ":02000004002FCB\n:02FFFF000102FD\n:00000001FF\n" =
        some ([.linear 0x2F, .data 0xFFFF [1, 2]] ++ [.endOfFile]) := by
      decide +kernel
    have cut : recordsOf?
          ":02000004002FCB\n:01FFFF000100\n:020000040030CA\n:0100000002FD\n:00000001FF\n" =
        some ([.linear 0x2F, .data 0xFFFF [1], .linear 0x30, .data 0 [2]] ++ [.endOfFile]) := by
      decide +kernel
    exact readApart joined cut (by decide) (by decide) (by decide) (by decide)
  · have joined : recordsOf? ":02000004001FDB\n:02FFFF000102FD\n:00000001FF\n" =
        some ([.linear 0x1F, .data 0xFFFF [1, 2]] ++ [.endOfFile]) := by
      decide +kernel
    have cut : recordsOf?
          ":02000004001FDB\n:01FFFF000100\n:020000040020DA\n:0100000002FD\n:00000001FF\n" =
        some ([.linear 0x1F, .data 0xFFFF [1], .linear 0x20, .data 0 [2]] ++ [.endOfFile]) := by
      decide +kernel
    exact readApart joined cut (by decide) (by decide) (by decide)
      (applyPart?_code_end (capacity_blank _ _) 1 2)

end Image

end InCircuit
