import InCircuit.Emulator

set_option autoImplicit false

/-!
# Memory under erasing and programming

Closed forms of what the cycles of the emulated part do to an array of cells: a run of row erases
leaves the cells below a limit erased, and the latches, once committed, clear bits from an address
on.
-/
namespace InCircuit

structure Memory where
  code : Array UInt8
  config : Array UInt8
  eeprom : Array UInt8

namespace Memory

def eraseBelow (limit : Nat) (cells : Array UInt8) : Array UInt8 :=
  cells.mapIdx fun a b => if a < limit then erased else b

/-- The cells with the bits cleared that are clear in `bytes`, given from `start` on. -/
def clearBits (start : Nat) (bytes : List UInt8) (cells : Array UInt8) : Array UInt8 :=
  cells.mapIdx fun a b => if start ≤ a then b &&& bytes.getD (a - start) erased else b

@[simp]
theorem and_erased (b : UInt8) : b &&& erased = b := UInt8.and_neg_one

@[simp]
theorem erased_and (b : UInt8) : erased &&& b = b := UInt8.neg_one_and

theorem eraseBelow_zero (cells : Array UInt8) : eraseBelow 0 cells = cells := by
  apply Array.ext_getElem?
  intro a
  simp [eraseBelow]

theorem eraseBelow_of_size_le {limit : Nat} {cells : Array UInt8} (h : cells.size ≤ limit) :
    eraseBelow limit cells = Array.replicate cells.size erased := by
  apply Array.ext_getElem?
  intro a
  by_cases ha : a < cells.size
  · have hl : a < limit := by omega
    simp [eraseBelow, ha, hl]
  · simp [eraseBelow, ha]

def eraseCode (m : Memory) (limit : Nat) : Memory := { m with code := eraseBelow limit m.code }

theorem getElem?_code_eraseCode (m : Memory) {limit a : Nat} (below : a < limit)
    (inside : a < m.code.size) : (m.eraseCode limit).code[a]? = some erased := by
  change (m.code.mapIdx _)[a]? = _
  rw [Array.getElem?_mapIdx, Array.getElem?_eq_getElem inside, Option.map_some, if_pos below]

def clearCode (m : Memory) (start : Nat) (bytes : List UInt8) : Memory :=
  { m with code := clearBits start bytes m.code }

def setConfig (m : Memory) (offset : Nat) (b : UInt8) : Memory :=
  { m with config := m.config.setIfInBounds offset b }

def wiped (m : Memory) : Memory where
  code := Array.replicate m.code.size erased
  config := Array.replicate m.config.size erased
  eeprom := Array.replicate m.eeprom.size erased

end Memory

namespace Emulator

theorem getElem?_eraseFrom (count start : Nat) (cells : Array UInt8) (a : Nat) :
    (eraseFrom cells start count)[a]? =
      if start ≤ a ∧ a < start + count then cells[a]?.map fun _ => erased else cells[a]? := by
  induction count generalizing cells start with
  | zero =>
    have h : ¬ (start ≤ a ∧ a < start + 0) := by omega
    rw [if_neg h]
    rfl
  | succ count ih =>
    rw [eraseFrom, ih, Array.getElem?_setIfInBounds]
    by_cases he : start = a
    · subst he
      by_cases hs : start < cells.size <;> simp [hs]
    · rw [if_neg he]
      congr 1
      exact propext (by omega)

theorem eraseFrom_eraseBelow (cells : Array UInt8) (start count : Nat) :
    eraseFrom (Memory.eraseBelow start cells) start count =
      Memory.eraseBelow (start + count) cells := by
  apply Array.ext_getElem?
  intro a
  rw [getElem?_eraseFrom]
  by_cases ha : a < cells.size
  · by_cases hs : a < start
    · have hn : ¬ start ≤ a := by omega
      have hl : a < start + count := by omega
      simp [Memory.eraseBelow, ha, hs, hn, hl]
    · have hn : start ≤ a := by omega
      by_cases hl : a < start + count <;> simp [Memory.eraseBelow, ha, hs, hn, hl]
  · simp [Memory.eraseBelow, ha]

/-- What a latch leaves of one cell, the keys of the latch being different from each other. -/
theorem getElem?_foldl_modify (block : Nat) (latch : List (Nat × UInt8)) (cells : Array UInt8)
    (distinct : latch.Pairwise fun x y => x.1 ≠ y.1) (a : Nat) :
    (latch.foldl (fun cells x => cells.modify (block + x.1) (· &&& x.2)) cells)[a]? =
      match latch.find? (fun x => block + x.1 == a) with
      | some x => cells[a]?.map (· &&& x.2)
      | none => cells[a]? := by
  induction latch generalizing cells with
  | nil => rfl
  | cons x latch ih =>
    rw [List.foldl_cons, ih _ distinct.tail, List.find?_cons, Array.getElem?_modify]
    by_cases hx : block + x.1 = a
    · have later : latch.find? (fun y => block + y.1 == a) = none := by
        rw [List.find?_eq_none]
        intro y hy he
        have hne := List.rel_of_pairwise_cons distinct hy
        have he : block + y.1 = a := by simpa using he
        omega
      simp [hx, later]
    · have hb : (block + x.1 == a) = false := by simpa using hx
      rw [if_neg hx, hb]

theorem commitCode_eq_clearBits (code : Array UInt8) (block offset : Nat)
    (latch : Std.TreeMap Nat UInt8) (bytes : List UInt8)
    (h : ∀ o, latch[o]? = if offset ≤ o then bytes[o - offset]? else none) :
    commitCode code block latch = Memory.clearBits (block + offset) bytes code := by
  apply Array.ext_getElem?
  intro a
  have distinct : latch.toList.Pairwise fun x y => x.1 ≠ y.1 :=
    Std.TreeMap.distinct_keys_toList.imp fun hne he => hne (by simp [he])
  rw [commitCode, Std.TreeMap.foldl_eq_foldl_toList, getElem?_foldl_modify block _ code distinct]
  simp only [Memory.clearBits, Array.getElem?_mapIdx]
  cases hf : latch.toList.find? (fun x => block + x.1 == a) with
  | some x =>
    have hx : block + x.1 = a := by simpa using List.find?_some hf
    have hm := h x.1
    rw [Std.TreeMap.mem_toList_iff_getElem?_eq_some.mp (List.mem_of_find?_eq_some hf)] at hm
    split at hm
    · have ha : block + offset ≤ a := by omega
      have hd : a - (block + offset) = x.1 - offset := by omega
      simp [ha, hd, ← hm]
    · cases hm
  | none =>
    by_cases ha : block + offset ≤ a
    · have hm := h (a - block)
      have ho : offset ≤ a - block := by omega
      have hd : a - block - offset = a - (block + offset) := by omega
      have absent : latch[a - block]? = none := by
        rw [Option.eq_none_iff_forall_ne_some]
        intro v hv
        have mem := Std.TreeMap.mem_toList_iff_getElem?_eq_some.mpr hv
        have := List.find?_eq_none.mp hf _ mem
        exact this (by simp; omega)
      rw [absent, if_pos ho, hd] at hm
      simp [ha, ← hm]
    · simp [ha]

end Emulator

end InCircuit
