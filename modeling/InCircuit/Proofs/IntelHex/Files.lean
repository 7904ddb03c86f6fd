import InCircuit.Proofs.IntelHex.Layouts
import InCircuit.Proofs.IntelHex.RoundTrip
import Mathlib.Data.List.ReduceOption

set_option autoImplicit false

/-!
# What a file says

The records of a text count up to the first end-of-file record. A text is read just when each of
them is a record and each of their data has room where it starts; the image then has at each place
the last byte that the records put there.
-/
namespace InCircuit

namespace IntelHex

/-- What the lines of a text hold up to the first end-of-file record, `none` for no record. -/
def counted (lines : List (List Char)) : List (Option Record) :=
  (lines.map Record.decode?).takeWhile (· ≠ some .endOfFile)

def countedRecords (text : String) : List (Option Record) :=
  counted ((Text.lines text.toList).filter (! ·.isEmpty))

def dataOf (text : String) : List (Nat × List UInt8) := placed 0 (countedRecords text).reduceOption

/-- There is room for data of a length at an address. ID locations take any. -/
structure Admitted (capacity address length : Nat) : Prop where
  code : address < Place.idBase → wordsFor (address + length) ≤ capacity / 2
  known : Place.configBase ≤ address → address < Place.configBase + Image.configCapacity ∨
    Place.eepromBase ≤ address ∧ address < Place.eepromBase + Image.eepromCapacity
  config : Place.configBase ≤ address → address < Place.configBase + Image.configCapacity →
    address + length ≤ Place.configBase + Image.configCapacity
  eeprom : Place.eepromBase ≤ address → address < Place.eepromBase + Image.eepromCapacity →
    address + length ≤ Place.eepromBase + Image.eepromCapacity

instance (capacity address length : Nat) : Decidable (Admitted capacity address length) :=
  decidable_of_iff (_ ∧ _ ∧ _ ∧ _) ⟨fun ⟨code, known, config, eeprom⟩ =>
    ⟨code, known, config, eeprom⟩, fun h => ⟨h.code, h.known, h.config, h.eeprom⟩⟩

def storedData (text : String) : List (Nat × List UInt8) :=
  (dataOf text).filter fun part => Place.ofAddress? part.1 ≠ some .idLocations

def lastAt? (cs : List (Nat × UInt8)) (address : Nat) : Option UInt8 :=
  (cs.findRev? (·.1 == address)).map (·.2)

/-- The last byte assigned to an address that means a place. -/
def lastIn? (cs : List (Nat × UInt8)) (place : Place) : Option UInt8 :=
  (cs.findRev? fun c => Place.ofAddress? c.1 == some place).map (·.2)

/-- Where data end that start from `base` up and below `limit`, counted from `base`. -/
def ends (base limit : Nat) (parts : List (Nat × List UInt8)) : List Nat :=
  (parts.filter fun part => base ≤ part.1 ∧ part.1 < limit).map fun part =>
    part.1 + part.2.length - base

theorem lastIn?_cons (c : Nat × UInt8) (cs : List (Nat × UInt8)) (place : Place) :
    lastIn? (c :: cs) place =
      (lastIn? cs place).or (if Place.ofAddress? c.1 = some place then some c.2 else none) := by
  simp only [lastIn?, List.findRev?_eq_find?_reverse, List.reverse_cons, List.find?_append,
    Option.map_or, List.find?_singleton, beq_iff_eq]
  split <;> rfl

theorem lastIn?_eq_none {place : Place} (never : ∀ a, Place.ofAddress? a ≠ some place)
    (cs : List (Nat × UInt8)) : lastIn? cs place = none := by
  rw [lastIn?, List.findRev?_eq_find?_reverse, List.find?_eq_none.mpr, Option.map_none]
  exact fun c _ => by simpa using never c.1

theorem lastIn?_eq_lastAt? {place : Place} {address : Nat}
    (only : ∀ a, Place.ofAddress? a = some place ↔ a = address) (cs : List (Nat × UInt8)) :
    lastIn? cs place = lastAt? cs address := by
  have same : (fun c : Nat × UInt8 => Place.ofAddress? c.1 == some place) = (·.1 == address) := by
    funext c
    rw [Bool.eq_iff_iff, beq_iff_eq, beq_iff_eq, only]
  rw [lastIn?, lastAt?, same]

namespace Place

theorem ofAddress?_eq_code {a offset : Nat} :
    ofAddress? a = some (.code offset) ↔ a = offset ∧ offset < idBase := by
  unfold ofAddress?
  grind

theorem ofAddress?_eq_config {a offset : Nat} (inside : offset < Image.configCapacity) :
    ofAddress? a = some (.config offset) ↔ a = configBase + offset := by
  have hid : idBase = 2097152 := rfl
  have hconfig : configBase = 3145728 := rfl
  unfold ofAddress?
  grind

theorem ofAddress?_eq_eeprom {a offset : Nat} (inside : offset < Image.eepromCapacity) :
    ofAddress? a = some (.eeprom offset) ↔ a = eepromBase + offset := by
  have hid : idBase = 2097152 := rfl
  have hconfig : configBase = 3145728 := rfl
  have heeprom : eepromBase = 15728640 := rfl
  have hbytes : Image.configCapacity = 32 := rfl
  unfold ofAddress?
  grind

end Place

end IntelHex

namespace Image

open IntelHex

variable {i j : Image}

/-! ## Records that count -/

/-- Reading applies the data of the lines that count, if each of these holds a record. -/
theorem toOption_applyLines_counted (lines : List (List Char)) (base n : Nat) :
    (i.applyLines base n lines).toOption =
      if none ∈ counted lines then none
      else (placed base (counted lines).reduceOption).foldlM applyPart? i := by
  -- The image, the base and the number of the record all move on from line to line.
  induction lines generalizing i base n with
  | nil => rfl
  | cons line lines ih =>
    by_cases last : Record.decode? line = some .endOfFile
    · have nothing : counted (line :: lines) = [] := by simp [counted, last]
      rw [nothing, applyLines, last]
      rfl
    have more : counted (line :: lines) = Record.decode? line :: counted lines := by
      simp [counted, last]
    rw [more]
    cases decoded : Record.decode? line with
    | none =>
      rw [applyLines, decoded, if_pos List.mem_cons_self]
      rfl
    | some r =>
      have member : none ∈ some r :: counted lines ↔ none ∈ counted lines := by simp
      rw [List.reduceOption_cons_of_some]
      simp only [member]
      cases r with
      | endOfFile => exact absurd decoded last
      | data offset bytes =>
        rw [toOption_applyLines_data decoded, Option.bind_congr fun k _ => ih base (n + 1)]
        split
        · exact Option.bind_fun_none _
        · rfl
      | segment s | linear s =>
        rw [applyLines, decoded]
        exact ih _ _
      | startSegment s p | startLinear s p =>
        rw [applyLines, decoded]
        exact ih _ _

/-! ## What reading keeps -/

structure Continues (i j : Image) : Prop where
  origin : j.origin = i.origin
  capacity : j.capacity = i.capacity
  built : i.Built → j.Built

theorem Continues.refl (i : Image) : Continues i i := ⟨rfl, rfl, id⟩

theorem Continues.trans {k : Image} (h : Continues i j) (next : Continues j k) : Continues i k :=
  ⟨next.origin.trans h.origin, next.capacity.trans h.capacity, next.built ∘ h.built⟩

theorem Built.putConfigs {offset : Nat} {bytes : List UInt8} (built : i.Built)
    (h : i.putConfigs offset bytes = .ok j) : j.Built := by
  induction bytes generalizing i offset with
  | nil =>
    obtain rfl := Except.ok.inj h
    exact built
  | cons b bytes ih =>
    obtain ⟨k, put, rest⟩ := bind_eq_ok.mp h
    exact ih (built.putConfig put) rest

theorem continues_applyPart? {part : Nat × List UInt8} (h : i.applyPart? part = some j) :
    Continues i j := by
  have capacity := capacity_applyPart? h
  have applied := toOption_eq_some.mp h
  rw [apply] at applied
  split at applied
  · refine ⟨?_, capacity, fun built => built.putCode applied⟩
    obtain ⟨_, rfl⟩ := putCode_eq_ok.mp applied
    rfl
  · obtain rfl := Except.ok.inj applied
    exact .refl i
  · have origin := congrArg Image.origin (putConfigs_keeps applied)
    exact ⟨origin, capacity, fun built => built.putConfigs applied⟩
  · refine ⟨?_, capacity, fun built => built.writeEeprom applied⟩
    obtain ⟨_, rfl⟩ := writeEeprom_eq_ok.mp applied
    rfl
  · cases applied

theorem continues_foldlM {parts : List (Nat × List UInt8)}
    (h : parts.foldlM applyPart? i = some j) : Continues i j := by
  induction parts generalizing i with
  | nil =>
    obtain rfl := Option.some.inj h
    exact .refl i
  | cons part parts ih =>
    rw [List.foldlM_cons] at h
    obtain ⟨k, first, rest⟩ := Option.bind_eq_some_iff.mp h
    exact (continues_applyPart? first).trans (ih rest)

/-! ## Room for records -/

theorem exists_putConfigs {offset : Nat} {bytes : List UInt8}
    (room : offset + bytes.length ≤ configCapacity) : ∃ j, i.putConfigs offset bytes = .ok j := by
  induction bytes generalizing i offset with
  | nil => exact ⟨i, rfl⟩
  | cons b bytes ih =>
    rw [List.length_cons] at room
    have inside : offset < 32 := by
      have : configCapacity = 32 := rfl
      omega
    rw [putConfigs, putConfig, dif_pos inside]
    exact ih (by omega)

theorem exists_applyPart? {address : Nat} {bytes : List UInt8} :
    (∃ j, i.applyPart? (address, bytes) = some j) ↔ Admitted i.capacity address bytes.length := by
  obtain ⟨hid, hconfig, heeprom, hbytes, hcells⟩ := place_limits
  simp only [applyPart?_eq_some]
  -- One case for each kind of place, in the order of their addresses. What room the other kinds
  -- want holds of no such address.
  by_cases code : address < Place.idBase
  · rw [apply_code code]
    constructor
    · rintro ⟨j, put⟩
      have room := (putCode_eq_ok.mp put).1
      exact ⟨fun _ => room, fun _ => by omega, fun _ _ => by omega, fun _ _ => by omega⟩
    · exact fun admitted => ⟨_, putCode_eq_ok.mpr ⟨admitted.code code, rfl⟩⟩
  by_cases id : address < Place.configBase
  · rw [apply_idLocations (by omega) id]
    exact ⟨fun _ => ⟨fun _ => by omega, fun _ => by omega, fun _ _ => by omega,
      fun _ _ => by omega⟩, fun _ => ⟨i, rfl⟩⟩
  by_cases config : address < Place.configBase + configCapacity
  · obtain ⟨offset, rfl⟩ := Nat.exists_eq_add_of_le (Nat.le_of_not_lt id)
    rw [apply_config (by omega)]
    constructor
    · rintro ⟨j, put⟩
      have room : Place.configBase + offset + bytes.length ≤
          Place.configBase + configCapacity := by
        by_cases empty : bytes = []
        · rw [empty, List.length_nil]
          omega
        · have := putConfigs_le empty put
          omega
      exact ⟨fun _ => by omega, fun _ => .inl config, fun _ _ => room, fun _ _ => by omega⟩
    · intro admitted
      have room := admitted.config (by omega) config
      exact exists_putConfigs (by omega)
  by_cases eeprom : Place.eepromBase ≤ address ∧ address < Place.eepromBase + eepromCapacity
  · obtain ⟨offset, rfl⟩ := Nat.exists_eq_add_of_le eeprom.1
    rw [apply_eeprom (by omega)]
    constructor
    · rintro ⟨j, put⟩
      have room := (writeEeprom_eq_ok.mp put).1
      exact ⟨fun _ => by omega, fun _ => .inr eeprom, fun _ _ => by omega, fun _ _ => by omega⟩
    · intro admitted
      have room := admitted.eeprom eeprom.1 eeprom.2
      exact ⟨_, writeEeprom_eq_ok.mpr ⟨by omega, rfl⟩⟩
  · rw [apply_stray (by omega) eeprom]
    constructor
    · rintro ⟨j, h⟩
      cases h
    · intro admitted
      have known := admitted.known (by omega)
      omega

theorem exists_foldlM {parts : List (Nat × List UInt8)} :
    (∃ j, parts.foldlM applyPart? i = some j) ↔
      ∀ part ∈ parts, Admitted i.capacity part.1 part.2.length := by
  induction parts generalizing i with
  | nil => exact ⟨fun _ _ h => (nomatch h), fun _ => ⟨i, rfl⟩⟩
  | cons part parts ih =>
    simp only [List.foldlM_cons, Option.bind_eq_bind, Option.bind_eq_some_iff, List.forall_mem_cons]
    constructor
    · rintro ⟨j, k, first, rest⟩
      refine ⟨exists_applyPart?.mp ⟨k, first⟩, ?_⟩
      rw [← capacity_applyPart? first]
      exact ih.mp ⟨j, rest⟩
    · rintro ⟨first, rest⟩
      obtain ⟨k, applied⟩ := exists_applyPart?.mpr first
      rw [← capacity_applyPart? applied] at rest
      obtain ⟨j, applied'⟩ := ih.mpr rest
      exact ⟨j, k, applied, applied'⟩

/-! ## What a place holds -/

def read? (i : Image) : Place → Option UInt8
  | .code offset => i.byteAt? offset
  | .idLocations => none
  | .config offset => i.configAt? offset
  | .eeprom offset => some (i.eeprom.getD offset erased)

theorem byteAt?_putCode {offset : Nat} {b : UInt8} (h : i.putCode offset [b] = .ok j) (o : Nat) :
    j.byteAt? o = if offset = o then some b else i.byteAt? o := by
  obtain ⟨fits, rfl⟩ := putCode_eq_ok.mp h
  have room : place offset < i.code.size := by
    have whole : wordsFor (offset + 1) ≤ i.code.size / 2 := fits
    have within : place offset < 2 * (i.code.size / 2) := by
      rw [place_lt (by omega)]
      rw [wordsFor] at whole
      omega
    omega
  change (storeCode i.code offset [b])[place o]? = _
  rw [getElem?_storeCode]
  by_cases same : offset = o
  · subst same
    rw [if_pos ⟨Nat.le_refl _, Nat.lt_succ_self _, room⟩, if_pos rfl, Nat.sub_self]
    rfl
  · have outside : ¬ (offset ≤ o ∧ o < offset + [b].length ∧ place o < i.code.size) := by
      rw [List.length_singleton]
      omega
    rw [if_neg outside, if_neg same]
    rfl

theorem configAt?_putConfigs {offset : Nat} {b : UInt8} (h : i.putConfigs offset [b] = .ok j)
    (o : Nat) : j.configAt? o = if offset = o then some b else i.configAt? o := by
  obtain ⟨k, put, rest⟩ := bind_eq_ok.mp h
  obtain rfl := Except.ok.inj rest
  exact configAt?_putConfig put o

theorem read?_assign? {c : Nat × UInt8} (h : i.assign? c = some j) {place : Place}
    (stored : place ≠ .idLocations) :
    j.read? place = if Place.ofAddress? c.1 = some place then some c.2 else i.read? place := by
  have applied := toOption_eq_some.mp h
  rw [apply] at applied
  split at applied
  · rename_i offset here
    rw [here]
    obtain ⟨_, made⟩ := putCode_eq_ok.mp applied
    cases place with
    | code o => simp only [read?, byteAt?_putCode applied, Option.some.injEq, Place.code.injEq]
    | _ => simp [made, read?, configAt?]
  · rename_i here
    obtain rfl := Except.ok.inj applied
    rw [here, if_neg fun same => stored (Option.some.inj same).symm]
  · rename_i offset here
    rw [here]
    have made := putConfigs_keeps applied
    cases place with
    | config o =>
      simp only [read?, configAt?_putConfigs applied, Option.some.injEq, Place.config.injEq]
    | _ =>
      rw [made]
      simp [read?, byteAt?]
  · rename_i offset here
    rw [here]
    obtain ⟨_, rfl⟩ := writeEeprom_eq_ok.mp applied
    cases place with
    | eeprom o =>
      simp only [read?, getD_overwrite, Option.some.injEq, Place.eeprom.injEq]
      by_cases same : offset = o
      · simp [same]
      · rw [if_neg same, if_neg (by rw [List.length_singleton]; omega)]
    | _ => simp [read?, byteAt?, configAt?]
  · cases applied

theorem read?_foldlM {cs : List (Nat × UInt8)} (h : cs.foldlM assign? i = some j) {place : Place}
    (stored : place ≠ .idLocations) :
    j.read? place = (lastIn? cs place).or (i.read? place) := by
  induction cs generalizing i with
  | nil =>
    obtain rfl := Option.some.inj h
    rfl
  | cons c cs ih =>
    rw [List.foldlM_cons] at h
    obtain ⟨k, first, rest⟩ := Option.bind_eq_some_iff.mp h
    rw [ih rest, read?_assign? first stored, lastIn?_cons, Option.or_assoc]
    split <;> rfl

theorem read?_extended (i : Image) (r : Reach) (place : Place) :
    (i.extended r).read? place = i.read? place := by
  cases place with
  | eeprom offset =>
    change some ((overwrite i.eeprom r.eeprom []).getD offset erased) = _
    rw [getD_overwrite, if_neg (by rw [List.length_nil]; omega)]
    rfl
  | _ => rfl

/-! ## How far the contents reach -/

theorem ends_cons (base limit : Nat) (part : Nat × List UInt8) (parts : List (Nat × List UInt8)) :
    (ends base limit (part :: parts)).foldr max 0 =
      max (if base ≤ part.1 ∧ part.1 < limit then part.1 + part.2.length - base else 0)
        ((ends base limit parts).foldr max 0) := by
  rw [ends, List.filter_cons]
  by_cases inside : base ≤ part.1 ∧ part.1 < limit
  · rw [if_pos (decide_eq_true inside), if_pos inside]
    rfl
  · rw [if_neg (by simpa using inside), if_neg inside, Nat.zero_max]
    rfl

theorem code_ofRecord (address length : Nat) :
    (Reach.ofRecord address length).code =
      if 0 ≤ address ∧ address < Place.idBase then address + length - 0 else 0 := by
  unfold Reach.ofRecord Place.ofAddress?
  grind

theorem eeprom_ofRecord (address length : Nat) :
    (Reach.ofRecord address length).eeprom =
      if Place.eepromBase ≤ address ∧ address < Place.eepromBase + eepromCapacity then
        address + length - Place.eepromBase
      else 0 := by
  obtain ⟨hid, hconfig, heeprom, hbytes, hcells⟩ := place_limits
  unfold Reach.ofRecord Place.ofAddress?
  grind

theorem code_reach (parts : List (Nat × List UInt8)) :
    (reach parts).code = (ends 0 Place.idBase parts).foldr max 0 := by
  induction parts with
  | nil => rfl
  | cons part parts ih => rw [ends_cons, ← ih, ← code_ofRecord, reach, Reach.join]

theorem eeprom_reach (parts : List (Nat × List UInt8)) :
    (reach parts).eeprom =
      (ends Place.eepromBase (Place.eepromBase + eepromCapacity) parts).foldr max 0 := by
  induction parts with
  | nil => rfl
  | cons part parts ih => rw [ends_cons, ← ih, ← eeprom_ofRecord, reach, Reach.join]

/-! ## Reading a text -/

theorem foldlM_stored (parts : List (Nat × List UInt8)) :
    (parts.filter fun part => Place.ofAddress? part.1 ≠ some .idLocations).foldlM applyPart? i =
      parts.foldlM applyPart? i := by
  induction parts generalizing i with
  | nil => rfl
  | cons part parts ih =>
    rw [List.filter_cons]
    by_cases ignored : Place.ofAddress? part.1 = some .idLocations
    · have kept : i.applyPart? part = some i := by rw [applyPart?, apply, ignored]; rfl
      rw [if_neg (by simpa using ignored), ih, List.foldlM_cons, kept]
      rfl
    · rw [if_pos (by simpa using ignored), List.foldlM_cons, List.foldlM_cons]
      exact Option.bind_congr fun k _ => ih

variable {text : String} {capacity : Nat}

theorem ofIntelHex_eq_ok :
    ofIntelHex text capacity = .ok i ↔
      none ∉ countedRecords text ∧ (dataOf text).foldlM applyPart? (blank capacity 0) = some i := by
  rw [← toOption_eq_some, ofIntelHex, toOption_applyLines_counted, Option.ite_none_left_eq_some]
  rfl

theorem continues_ofIntelHex (h : ofIntelHex text capacity = .ok i) :
    Continues (blank capacity 0) i :=
  continues_foldlM (ofIntelHex_eq_ok.mp h).2

theorem fits_ofIntelHex (h : ofIntelHex text capacity = .ok i) :
    i.origin % 2 = 0 ∧ i.origin + 2 * i.words ≤ capacity := by
  obtain ⟨origin, size, built⟩ := continues_ofIntelHex h
  have roomy := (built (.blank capacity 0)).roomy
  rw [size, capacity_blank] at roomy
  have start : i.origin = 0 := origin
  omega

theorem exists_ofIntelHex :
    (∃ i, ofIntelHex text capacity = .ok i) ↔
      none ∉ countedRecords text ∧
        ∀ part ∈ dataOf text, Admitted capacity part.1 part.2.length := by
  simp only [ofIntelHex_eq_ok, exists_and_left, exists_foldlM, capacity_blank]

theorem read?_ofIntelHex (whole : ∀ part ∈ dataOf text, Whole capacity part.1 part.2.length)
    (h : ofIntelHex text capacity = .ok i) {place : Place} (stored : place ≠ .idLocations) :
    i.read? place =
      (lastIn? (assigned (dataOf text)) place).or ((blank capacity 0).read? place) := by
  have folded := (ofIntelHex_eq_ok.mp h).2
  rw [foldlM_applyPart? (by rw [capacity_blank]; exact whole)] at folded
  obtain ⟨k, assigned, extended⟩ := Option.bind_eq_some_iff.mp folded
  obtain ⟨_, rfl⟩ := extend?_eq_some.mp extended
  rw [read?_extended, read?_foldlM assigned stored]

/-- A text is read just when every record that counts is one and has room, and the image has at each
place the last byte put there. ID locations count for nothing. -/
theorem ofIntelHex_contents
    (whole : ∀ part ∈ dataOf text, Whole capacity part.1 part.2.length) :
    ((∃ i, ofIntelHex text capacity = .ok i) ↔
        none ∉ countedRecords text ∧
          ∀ part ∈ dataOf text, Admitted capacity part.1 part.2.length) ∧
      ∀ i, ofIntelHex text capacity = .ok i →
        i.origin = 0 ∧ i.capacity = capacity ∧
        (∀ a, i.byteAt? a =
          if place a < capacity then
            some (if a < Place.idBase then (lastAt? (assigned (dataOf text)) a).getD erased
              else erased)
          else none) ∧
        (∀ o < configCapacity,
          i.configAt? o = lastAt? (assigned (dataOf text)) (Place.configBase + o)) ∧
        (∀ o < i.eeprom.size, i.eeprom[o]? =
          some ((lastAt? (assigned (dataOf text)) (Place.eepromBase + o)).getD erased)) ∧
        i.size = (ends 0 Place.idBase (dataOf text)).foldr max 0 ∧
        i.eeprom.size = (ends Place.eepromBase (Place.eepromBase + eepromCapacity)
          (dataOf text)).foldr max 0 ∧
        ∀ text', none ∉ countedRecords text' → storedData text' = storedData text →
          ofIntelHex text' capacity = .ok i := by
  refine ⟨exists_ofIntelHex, fun i h => ?_⟩
  obtain ⟨origin, size, built⟩ := continues_ofIntelHex h
  rw [capacity_blank] at size
  have folded := (ofIntelHex_eq_ok.mp h).2
  have far := extent_foldlM folded
  refine ⟨origin, size, fun a => ?_, fun o ho => ?_, fun o ho => ?_, ?_, ?_, ?_⟩
  · have held : i.read? (.code a) = _ := read?_ofIntelHex whole h Place.noConfusion
    change i.byteAt? a = _ at held
    have start : (blank capacity 0).read? (.code a) =
        if place a < capacity then some erased else none :=
      Array.getElem?_replicate
    by_cases room : place a < capacity
    · rw [held, start, if_pos room, if_pos room]
      split
      · rename_i low
        rw [lastIn?_eq_lastAt? fun x => Place.ofAddress?_eq_code.trans (and_iff_left low)]
        exact Option.or_some
      · rename_i high
        rw [lastIn?_eq_none fun x h => high (Place.ofAddress?_eq_code.mp h).2]
        rfl
    · have past : i.code.size ≤ place a := Nat.le_of_not_lt (by rw [← size] at room; exact room)
      rw [byteAt?, Array.getElem?_eq_none past, if_neg room]
  · have held : i.read? (.config o) = _ := read?_ofIntelHex whole h Place.noConfusion
    change i.configAt? o = _ at held
    rw [held, lastIn?_eq_lastAt? fun x => Place.ofAddress?_eq_config ho, read?,
      (blank capacity 0).configAt?_eq ho]
    simp only [blank, Vector.getElem_replicate, Option.or_none]
  · have held : i.read? (.eeprom o) = _ := read?_ofIntelHex whole h Place.noConfusion
    change some (i.eeprom.getD o erased) = _ at held
    have inside : o < eepromCapacity :=
      Nat.lt_of_lt_of_le ho (built (.blank capacity 0)).eeprom_le
    rw [lastIn?_eq_lastAt? fun x => Place.ofAddress?_eq_eeprom inside] at held
    have start : (blank capacity 0).read? (.eeprom o) = some erased := rfl
    rw [start, Option.or_some, Array.getD_eq_getD_getElem?, Array.getElem?_eq_getElem ho] at held
    rw [Array.getElem?_eq_getElem ho]
    exact held
  · rw [← code_reach]
    exact (congrArg Reach.code far).trans (Nat.zero_max _)
  · rw [← eeprom_reach]
    exact (congrArg Reach.eeprom far).trans (Nat.zero_max _)
  · intro text' valid same
    rw [ofIntelHex_eq_ok, ← foldlM_stored, ← storedData, same, storedData, foldlM_stored]
    exact ⟨valid, folded⟩

/-- Code that is written over and code in a segment of its own, data for the ID locations, a gap in
the EEPROM, an empty record above it, and a line after the end. -/
def variedText : String :=
  textOf [.data 0 [1, 2, 3, 4], .data 2 [0xAA], .segment 1, .data 2 [5], .linear 0x20,
    .data 0 [9, 9], .linear 0x30, .data 1 [0x0F], .linear 0xF0, .data 3 [7], .data 8 [],
    .endOfFile] ++ "beyond"

theorem countedRecords_variedText : countedRecords variedText =
    [.data 0 [1, 2, 3, 4], .data 2 [0xAA], .segment 1, .data 2 [5], .linear 0x20, .data 0 [9, 9],
      .linear 0x30, .data 1 [0x0F], .linear 0xF0, .data 3 [7], .data 8 []].map some := by
  decide +kernel

theorem dataOf_variedText : dataOf variedText =
    [(0, [1, 2, 3, 4]), (2, [0xAA]), (18, [5]), (0x200000, [9, 9]), (0x300001, [0x0F]),
      (0xF00003, [7]), (0xF00008, [])] := by
  rw [dataOf, countedRecords_variedText]
  rfl

theorem ofIntelHex_contents_variedText :
    ∃ i, ofIntelHex variedText 20 = .ok i ∧ i.byteAt? 1 = some 2 ∧ i.byteAt? 2 = some 0xAA ∧
      i.byteAt? 4 = some 0xFF ∧ i.byteAt? 18 = some 5 ∧ i.size = 19 ∧ i.configAt? 0 = none ∧
      i.configAt? 1 = some 0x0F ∧ i.eeprom.size = 8 ∧ i.eeprom[2]? = some 0xFF ∧
      i.eeprom[3]? = some 7 := by
  have whole : ∀ part ∈ dataOf variedText, Whole 20 part.1 part.2.length := by
    rw [dataOf_variedText]
    decide
  have admitted : ∀ part ∈ dataOf variedText, Admitted 20 part.1 part.2.length := by
    rw [dataOf_variedText]
    decide
  obtain ⟨read, contents⟩ := ofIntelHex_contents whole
  obtain ⟨i, h⟩ := read.mpr ⟨by rw [countedRecords_variedText]; decide, admitted⟩
  obtain ⟨_, _, code, config, eeprom, size, length, _⟩ := contents i h
  rw [dataOf_variedText] at code config eeprom size length
  refine ⟨i, h, code 1, code 2, code 4, code 18, size, config 0 (by decide), config 1 (by decide),
    length, eeprom 2 ?_, eeprom 3 ?_⟩
  · rw [length]
    decide
  · rw [length]
    decide

end Image

end InCircuit
