import InCircuit.Proofs.Image.Contents

set_option autoImplicit false

/-!
# An image after writes

Whether a write is accepted is a matter of its bounds and of the capacity alone, so of any list of
writes it is known beforehand which are accepted. The image then has at each place the last byte
that an accepted write put there, and is erased elsewhere; the refused writes leave no trace.
-/
namespace InCircuit.Image

inductive Write where
  | code (offset : Nat) (bytes : List UInt8)
  | config (offset : Nat) (value : UInt8)
  | eeprom (offset : Nat) (bytes : List UInt8)
deriving DecidableEq

namespace Write

/-- Whether an image of a capacity has room for the write. All numbers are below `limit`, and a code
write whose end is not is refused. -/
def Fits (limit capacity : Nat) : Write → Prop
  | code offset bytes =>
    offset + bytes.length < limit ∧ wordsFor (offset + bytes.length) ≤ capacity / 2
  | config offset _ => offset < configCapacity
  | eeprom offset bytes => offset + bytes.length ≤ eepromCapacity

instance (limit capacity : Nat) : DecidablePred (Fits limit capacity)
  | code _ _ => inferInstanceAs (Decidable (_ ∧ _))
  | config _ _ => inferInstanceAs (Decidable (_ < _))
  | eeprom _ _ => inferInstanceAs (Decidable (_ ≤ _))

def refusal (capacity : Nat) : Write → Fault
  | code offset bytes => .outOfRange offset bytes.length capacity
  | config offset _ => .outOfRange offset 1 configCapacity
  | eeprom offset bytes => .outOfRange offset bytes.length eepromCapacity

def byteFrom? (offset : Nat) (bytes : List UInt8) (o : Nat) : Option UInt8 :=
  if offset ≤ o then bytes[o - offset]? else none

/-- What the write puts at an offset of the code; likewise for the other regions. -/
def codeByte? (o : Nat) : Write → Option UInt8
  | code offset bytes => byteFrom? offset bytes o
  | _ => none

def configByte? (o : Nat) : Write → Option UInt8
  | config offset value => if offset = o then some value else none
  | _ => none

def eepromByte? (o : Nat) : Write → Option UInt8
  | eeprom offset bytes => byteFrom? offset bytes o
  | _ => none

def codeEnd? : Write → Option Nat
  | code offset bytes => some (offset + bytes.length)
  | _ => none

def eepromEnd? : Write → Option Nat
  | eeprom offset bytes => some (offset + bytes.length)
  | _ => none

theorem byteFrom?_eq (offset : Nat) (bytes : List UInt8) (o : Nat) :
    byteFrom? offset bytes o =
      if offset ≤ o ∧ o < offset + bytes.length then bytes[o - offset]? else none := by
  unfold byteFrom?
  by_cases low : offset ≤ o
  · rw [if_pos low]
    split
    · rfl
    · exact List.getElem?_eq_none (by omega)
  · rw [if_neg low, if_neg fun inside => low inside.1]

theorem codeByte?_of_end_le {w : Write} {o : Nat} (past : w.codeEnd?.getD 0 ≤ o) :
    w.codeByte? o = none := by
  cases w with
  | code offset bytes =>
    change offset + bytes.length ≤ o at past
    rw [codeByte?, byteFrom?_eq, if_neg (by omega)]
  | config _ _ | eeprom _ _ => rfl

end Write

def put (i : Image) : Write → Except Fault Image
  | .code offset bytes => i.putCode offset bytes
  | .config offset value => i.putConfig offset value
  | .eeprom offset bytes => i.writeEeprom offset bytes

/-- The image after a write, which changes nothing when it is refused. -/
def after (i : Image) (w : Write) : Image :=
  match i.put w with
  | .ok j => j
  | .error _ => i

def afterAll (i : Image) (ws : List Write) : Image := ws.foldl after i

variable {limit capacity : Nat} {i j : Image} {w : Write}

/-! ## What is accepted -/

theorem put_eq_error (machine : i.capacity < limit) (h : ¬ w.Fits limit i.capacity) :
    i.put w = .error (w.refusal i.capacity) := by
  cases w with
  | code offset bytes =>
    have full : i.capacity / 2 < wordsFor (offset + bytes.length) := by
      simp only [Write.Fits, wordsFor] at h ⊢
      omega
    exact if_pos full
  | config offset value => exact dif_neg h
  | eeprom offset bytes => exact if_pos (Nat.lt_of_not_le h)

theorem exists_put (h : w.Fits limit i.capacity) : ∃ j, i.put w = .ok j := by
  cases w with
  | code offset bytes => exact ⟨_, if_neg (Nat.not_lt_of_le h.2)⟩
  | config offset value => exact ⟨_, dif_pos h⟩
  | eeprom offset bytes => exact ⟨_, if_neg (Nat.not_lt_of_le h)⟩

theorem put_eq_ok_iff (machine : i.capacity < limit) :
    (∃ j, i.put w = .ok j) ↔ w.Fits limit i.capacity := by
  refine ⟨fun ⟨j, put⟩ => ?_, exists_put⟩
  apply Classical.byContradiction
  intro full
  rw [put_eq_error machine full] at put
  cases put

theorem after_of_put (h : i.put w = .ok j) : i.after w = j := by
  rw [after, h]

theorem after_of_not_fits (machine : i.capacity < limit) (h : ¬ w.Fits limit i.capacity) :
    i.after w = i := by
  rw [after, put_eq_error machine h]

/-! ## What a write changes -/

def written (i : Image) : Write → Image
  | .code offset bytes =>
    { i with
      code := storeCode i.code offset bytes
      size := max i.size (offset + bytes.length) }
  | .config offset value => { i with config := i.config.setIfInBounds offset (some value) }
  | .eeprom offset bytes => { i with eeprom := overwrite i.eeprom offset bytes }

theorem eq_written (put : i.put w = .ok j) : j = i.written w := by
  cases w with
  | code offset bytes => exact (putCode_eq_ok.mp put).2
  | config offset value =>
    obtain ⟨inside, rfl⟩ := putConfig_eq_ok.mp put
    have same : i.config.set offset (some value) inside =
        i.config.setIfInBounds offset (some value) := by
      ext o ho
      rw [Vector.getElem_set, Vector.getElem_setIfInBounds]
    rw [written, same]
  | eeprom offset bytes => exact (writeEeprom_eq_ok.mp put).2

theorem capacity_written (i : Image) (w : Write) : (i.written w).capacity = i.capacity := by
  cases w with
  | code offset bytes => exact size_storeCode _ _ _
  | _ => rfl

theorem byteAt?_written {o : Nat} (inside : place o < i.capacity) (w : Write) :
    (i.written w).byteAt? o = (w.codeByte? o).or (i.byteAt? o) := by
  cases w with
  | code offset bytes =>
    refine (getElem?_storeCode _ _ _ _).trans ?_
    rw [Write.codeByte?, Write.byteFrom?_eq]
    by_cases here : offset ≤ o ∧ o < offset + bytes.length
    · rw [if_pos ⟨here.1, here.2, inside⟩, if_pos here, List.getElem?_eq_getElem (by omega),
        Option.some_or]
    · rw [if_neg fun now => here ⟨now.1, now.2.1⟩, if_neg here]
      rfl
  | _ => rfl

theorem size_written (i : Image) (w : Write) :
    (i.written w).size = max i.size (w.codeEnd?.getD 0) := by
  cases w with
  | code offset bytes => rfl
  | _ => exact (Nat.max_zero _).symm

theorem configAt?_written (put : i.put w = .ok j) (o : Nat) :
    (i.written w).configAt? o = (w.configByte? o).or (i.configAt? o) := by
  cases w with
  | config offset value =>
    rw [← eq_written put, configAt?_putConfig put, Write.configByte?]
    split <;> rfl
  | _ => rfl

theorem size_eeprom_written (i : Image) (w : Write) :
    (i.written w).eeprom.size = max i.eeprom.size (w.eepromEnd?.getD 0) := by
  cases w with
  | eeprom offset bytes => exact size_overwrite _ _ _
  | _ => exact (Nat.max_zero _).symm

theorem getD_eeprom_written (i : Image) (w : Write) (o : Nat) :
    (i.written w).eeprom.getD o erased = (w.eepromByte? o).getD (i.eeprom.getD o erased) := by
  cases w with
  | eeprom offset bytes =>
    refine (getD_overwrite _ _ _ _).trans ?_
    rw [Write.eepromByte?, Write.byteFrom?_eq]
    split
    · rw [List.getD_eq_getElem?_getD, List.getElem?_eq_getElem (by omega)]
      rfl
    · rfl
  | _ => rfl

theorem Write.Fits.codeEnd_le (h : w.Fits limit capacity) :
    w.codeEnd?.getD 0 ≤ 2 * (capacity / 2) := by
  cases w with
  | code offset bytes =>
    have fits := h.2
    change offset + bytes.length ≤ _
    rw [wordsFor] at fits
    omega
  | _ => exact Nat.zero_le _

/-! ## What is there then -/

/-- An image of a capacity is as a list of accepted writes has left it, the last one counting. -/
structure Holds (capacity : Nat) (accepted : List Write) (i : Image) : Prop where
  room : i.capacity = capacity
  code : ∀ o < 2 * (capacity / 2),
    i.byteAt? o = some ((accepted.findSomeRev? (Write.codeByte? o)).getD erased)
  beyond : ∀ o b, i.size ≤ o → i.byteAt? o = some b → b = erased
  size : i.size = (accepted.filterMap Write.codeEnd?).foldr max 0
  whole : i.size ≤ 2 * (capacity / 2)
  config : ∀ o, i.configAt? o = accepted.findSomeRev? (Write.configByte? o)
  length : i.eeprom.size = (accepted.filterMap Write.eepromEnd?).foldr max 0
  eeprom : ∀ o, i.eeprom.getD o erased =
    (accepted.findSomeRev? (Write.eepromByte? o)).getD erased

theorem findSomeRev?_concat {β : Type} (f : Write → Option β) (ws : List Write) (w : Write) :
    (ws ++ [w]).findSomeRev? f = (f w).or (ws.findSomeRev? f) := by
  rw [List.findSomeRev?_eq_findSome?_reverse, List.findSomeRev?_eq_findSome?_reverse,
    List.reverse_concat, List.findSome?_cons]
  cases f w <;> rfl

theorem foldr_max_concat (f : Write → Option Nat) (ws : List Write) (w : Write) :
    ((ws ++ [w]).filterMap f).foldr max 0 =
      max ((ws.filterMap f).foldr max 0) ((f w).getD 0) := by
  induction ws with
  | nil => cases stop : f w <;> simp [stop]
  | cons v ws ih =>
    rw [List.cons_append]
    cases stop : f v with
    | none => rwa [List.filterMap_cons_none stop, List.filterMap_cons_none stop]
    | some n =>
      rw [List.filterMap_cons_some stop, List.filterMap_cons_some stop, List.foldr_cons,
        List.foldr_cons, ih, Nat.max_assoc]

theorem holds_blank (capacity origin : Nat) : Holds capacity [] (blank capacity origin) where
  room := capacity_blank capacity origin
  code o h := by
    have inside : place o < capacity := Nat.lt_of_lt_of_le ((place_lt (by omega)).mpr h) (by omega)
    rw [byteAt?, blank, Array.getElem?_replicate, if_pos inside]
    rfl
  beyond o b _ h := by
    rw [byteAt?, blank, Array.getElem?_replicate] at h
    split at h
    · exact (Option.some.inj h).symm
    · cases h
  size := rfl
  whole := Nat.zero_le _
  config o := by
    by_cases h : o < 32
    · rw [configAt?_eq _ h, blank, Vector.getElem_replicate]
      rfl
    · rw [configAt?_of_le _ (Nat.le_of_not_lt h)]
      rfl
  length := rfl
  eeprom _ := rfl

variable {accepted : List Write}

theorem Holds.put (machine : capacity < limit) (h : Holds capacity accepted i)
    (put : i.put w = .ok j) : Holds capacity (accepted ++ [w]) j := by
  obtain rfl := h.room
  have fits := (put_eq_ok_iff machine).mp ⟨j, put⟩
  have inside {o : Nat} (ho : o < 2 * (i.capacity / 2)) : place o < i.capacity := by
    have whole := (place_lt (Nat.mul_mod_right 2 _)).mpr ho
    omega
  have known := configAt?_written put
  obtain rfl := eq_written put
  constructor
  case room => exact capacity_written i w
  case code =>
    intro o ho
    rw [byteAt?_written (inside ho), h.code o ho, findSomeRev?_concat, Option.or_some,
      Option.getD_or]
  case beyond =>
    intro o b past there
    have inside : place o < (i.written w).capacity := (Array.getElem?_eq_some_iff.mp there).1
    rw [capacity_written] at inside
    rw [size_written] at past
    rw [byteAt?_written inside, Write.codeByte?_of_end_le (by omega), Option.none_or] at there
    exact h.beyond o b (by omega) there
  case size => rw [size_written, h.size, foldr_max_concat]
  case whole =>
    rw [size_written]
    exact Nat.max_le.mpr ⟨h.whole, fits.codeEnd_le⟩
  case config =>
    intro o
    rw [known, h.config, findSomeRev?_concat]
  case length => rw [size_eeprom_written, h.length, foldr_max_concat]
  case eeprom =>
    intro o
    rw [getD_eeprom_written, h.eeprom, findSomeRev?_concat, Option.getD_or]

theorem Holds.after (machine : capacity < limit) (h : Holds capacity accepted i) (w : Write) :
    Holds capacity (accepted ++ [w].filter (·.Fits limit capacity)) (i.after w) := by
  obtain rfl := h.room
  by_cases fits : w.Fits limit i.capacity
  · obtain ⟨j, put⟩ := exists_put fits
    rw [List.filter_cons_of_pos (by simpa using fits), after_of_put put]
    exact h.put machine put
  · rw [List.filter_cons_of_neg (by simpa using fits), after_of_not_fits machine fits,
      List.filter_nil, List.append_nil]
    exact h

theorem Holds.afterAll (machine : capacity < limit) (h : Holds capacity accepted i)
    (ws : List Write) :
    Holds capacity (accepted ++ ws.filter (·.Fits limit capacity)) (i.afterAll ws) := by
  induction ws generalizing i accepted with
  | nil => rwa [List.filter_nil, List.append_nil]
  | cons w ws ih =>
    have next := ih (h.after machine w)
    rwa [List.append_assoc, ← List.filter_append] at next

/-- After any writes to an erased image it is as the accepted ones have left it, and a further write
is accepted exactly when it fits; one that does not is refused and changes nothing. -/
theorem afterAll_blank (machine : capacity < limit) (origin : Nat) (ws : List Write) :
    Holds capacity (ws.filter (·.Fits limit capacity)) ((blank capacity origin).afterAll ws) ∧
      ∀ w : Write, ((∃ j, ((blank capacity origin).afterAll ws).put w = .ok j) ↔
          w.Fits limit capacity) ∧
        (¬ w.Fits limit capacity →
          ((blank capacity origin).afterAll ws).put w = .error (w.refusal capacity) ∧
          ((blank capacity origin).afterAll ws).after w = (blank capacity origin).afterAll ws) := by
  have held := (holds_blank capacity origin).afterAll machine ws
  rw [List.nil_append] at held
  have room := held.room
  have small : ((blank capacity origin).afterAll ws).capacity < limit := by rwa [room]
  refine ⟨held, fun w => ⟨?_, fun full => ⟨?_, ?_⟩⟩⟩
  · rw [put_eq_ok_iff small, room]
  · rw [put_eq_error small (by rwa [room]), room]
  · exact after_of_not_fits small (by rwa [room])

/-- Writes to an image of seven bytes. Two overlap and one is empty; the others end in the odd last
byte, past all numbers, or outside their region. -/
def overlapping : List Write :=
  [.code 1 [0x11, 0x12, 0x13], .code 5 [0x41, 0x42], .code 0 [0x21, 0x22], .code 5 [],
    .code (UInt64.size - 1) [0x61], .config 31 0x40, .config 32 0x40, .eeprom 3 [0x31, 0x32],
    .eeprom 1023 [0x51, 0x52]]

theorem afterAll_blank_overlapping :
    7 < UInt64.size ∧ Holds 7 [.code 1 [0x11, 0x12, 0x13], .code 0 [0x21, 0x22], .code 5 [],
      .config 31 0x40, .eeprom 3 [0x31, 0x32]] ((blank 7 0x100).afterAll overlapping) := by
  have machine : 7 < UInt64.size := by decide
  have accepted : overlapping.filter (·.Fits UInt64.size 7) = [.code 1 [0x11, 0x12, 0x13],
      .code 0 [0x21, 0x22], .code 5 [], .config 31 0x40, .eeprom 3 [0x31, 0x32]] := by decide
  rw [← accepted]
  exact ⟨machine, (afterAll_blank machine 0x100 overlapping).1⟩

end InCircuit.Image
