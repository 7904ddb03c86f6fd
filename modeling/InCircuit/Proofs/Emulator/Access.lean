import InCircuit.Proofs.Emulator.Journal
import InCircuit.Proofs.Erasing
import InCircuit.Proofs.Faults
import InCircuit.Proofs.Plans

set_option autoImplicit false

/-!
# Access at an address

Reading and writing a word point the table pointer first, wherever it stood. An address beyond the
pointer is refused before anything is sent. At any other the emulated part brings the two bytes from
there on, or fills what the address selects: a control register, a byte of the configuration latch
or a word of the code latch.
-/
namespace InCircuit

namespace Emulator

/-! ## What a table write fills -/

inductive Slot where
  | eraseKeyLow
  | eraseKeyHigh
  | panelControl
  | config (address : Nat)
  | code (offset : Nat)
deriving DecidableEq

def content (m : Emulator) : Slot → Option UInt8
  | .eraseKeyLow => some m.eraseKeyLow
  | .eraseKeyHigh => some m.eraseKeyHigh
  | .panelControl => some m.panelControl
  | .config address => m.configLatch[address]?
  | .code offset => m.latch[offset]?

def selection (m : Emulator) (address : Nat) (data : UInt16) : List (Slot × UInt8) :=
  if address = Address.eraseKeyLow then [(.eraseKeyLow, selected address data)]
  else if address = Address.eraseKeyHigh then [(.eraseKeyHigh, selected address data)]
  else if address = Address.panelControl then [(.panelControl, selected address data)]
  else if Address.config ≤ address then [(.config address, selected address data)]
  else
    let offset := (address - address % 2) % m.latchSize
    [(.code offset, data.toNat.toUInt8), (.code (offset + 1), (data.toNat / 256).toUInt8)]

theorem lookup_cons (s t : Slot) (b : UInt8) (rest : List (Slot × UInt8)) :
    ((t, b) :: rest).lookup s = if t = s then some b else rest.lookup s := by
  by_cases same : t = s
  · subst same
    rw [List.lookup_cons_self, if_pos rfl]
  · have other : (s == t) = false := by simpa using Ne.symm same
    rw [List.lookup_cons, other, if_neg same]

/-- A table write fills the slots that the table pointer selects and leaves every other as it
was. -/
theorem content_latchWord (m : Emulator) (data : UInt16) (s : Slot) :
    (m.latchWord data).content s =
      ((m.selection m.pointer data).lookup s).or (m.content s) := by
  unfold latchWord selection
  simp only [selected]
  split
  · cases s <;> rfl
  split
  · cases s <;> rfl
  split
  · cases s <;> rfl
  split
  · cases s with
    | config a =>
      simp only [content, lookup_cons, List.lookup_nil, Slot.config.injEq,
        Std.TreeMap.getElem?_insert, Nat.compare_eq_eq]
      split <;> rfl
    | _ => rfl
  · generalize (m.pointer - m.pointer % 2) % m.latchSize = offset
    cases s with
    | code o =>
      simp only [content, lookup_cons, List.lookup_nil, Slot.code.injEq,
        Std.TreeMap.getElem?_insert, Nat.compare_eq_eq]
      by_cases low : offset = o
      · simp [low]
      · by_cases high : offset + 1 = o <;> simp [low, high]
    | _ => rfl

/-- After a word has been written at an address: the slots are filled that the address selects, the
table pointer stands behind it, and W has been used on the way. All else is as it was. -/
structure Stored (m : Emulator) (address : Nat) (data : UInt16) (n : Emulator) : Prop where
  slots (s : Slot) : n.content s = ((m.selection address data).lookup s).or (m.content s)
  rest : n =
    { m with
      w := address.toUInt8
      pointer := (address + 1) % 16777216
      eraseKeyLow := n.eraseKeyLow
      eraseKeyHigh := n.eraseKeyHigh
      panelControl := n.panelControl
      configLatch := n.configLatch
      latch := n.latch }

theorem stored (m : Emulator) (address : Nat) (data : UInt16) :
    m.Stored address data (((m.pointAt address).latchWord data).movePointer 1) where
  slots s := by
    have pointed : (m.pointAt address).content s = m.content s := by cases s <;> rfl
    have moved (n : Emulator) : (n.movePointer 1).content s = n.content s := by cases s <;> rfl
    rw [moved, content_latchWord, pointed]
    rfl
  rest := by
    obtain ⟨_, _, _, _, _, filled⟩ := (m.pointAt address).latchWord_eq data
    rw [filled]
    rfl

/-! ## Words of memory -/

/-- The two bytes from an address on, low byte first. Behind the last address comes the first. -/
def wordAt (m : Emulator) (address : Nat) : UInt16 :=
  UInt16.ofNat ((m.byteAt ((address + 1) % 16777216)).toNat * 256 + (m.byteAt address).toNat)

theorem toNat_wordAt (m : Emulator) (address : Nat) :
    (m.wordAt address).toNat =
      (m.byteAt address).toNat + 256 * (m.byteAt ((address + 1) % 16777216)).toNat := by
  rw [wordAt, Nat.mul_comm, Instruction.toNat_word _ (UInt8.toNat_lt _), Nat.add_comm]

end Emulator

namespace Routine

open Emulator Procedure Transfer

variable {ε : Type} {I : Emulator → Prop} {m : Emulator}

theorem setPointer_of_wide {address : UInt32} (wide : Address.last < address.toNat) :
    (setPointer address.toNat : Routine ε Unit) = throw (.addressTooWide address) := by
  have same : address.toNat.toUInt32 = address := UInt32.ofNat_toNat
  unfold setPointer
  rw [if_pos wide, same]
  rfl

theorem goes_fetchWord {address : Nat} (h : address ≤ Address.last) (hI : Around I m) :
    Goes I (fetchWord address : Routine ε UInt16) m (m.wordAt address)
      { m.pointAt address with
        pointer := (address + 2) % 16777216
        tablat := m.byteAt ((address + 1) % 16777216) } := by
  let between : Emulator :=
    { m.pointAt address with
      pointer := (address + 1) % 16777216
      tablat := m.byteAt address }
  have low : Goes I (nextByte : Routine ε UInt8) (m.pointAt address) (m.byteAt address) between :=
    goes_nextByte (hI.of_held rfl)
  have high : Goes I (nextByte : Routine ε UInt8) between (m.byteAt ((address + 1) % 16777216))
      { between with
        pointer := ((address + 1) % 16777216 + 1) % 16777216
        tablat := m.byteAt ((address + 1) % 16777216) } :=
    goes_nextByte (hI.of_held rfl)
  have next : ((address + 1) % 16777216 + 1) % 16777216 = (address + 2) % 16777216 := by omega
  rw [next] at high
  exact (goes_setPointer h hI).bind (low.bind (high.bind (goes_pure I _ _)))

theorem sure_fetchWord {address : Nat} (h : address ≤ Address.last) :
    Sure (fetchWord address : Routine ε UInt16) :=
  (sure_setPointer h).bind fun _ => (sure_clock _).bind fun _ => (sure_clock _).bind fun _ =>
    sure_pure _

theorem sends_fetchWord {address : Nat} (h : address ≤ Address.last) :
    Sends (fetchWord address : Routine ε UInt16)
      (pointing address ++ [.receive .tableReadPostInc, .receive .tableReadPostInc]) :=
  (sends_setPointer h).bind fun _ => (sends_clock _).bind fun _ => (sends_clock _).bind fun _ =>
    sends_pure _

/-- Access at any address, the table pointer anywhere before it, over a link that carries eight
transfers more. -/
theorem access_outcome (l : Lossy Emulator) (address : UInt32) (data : UInt16) :
    (Address.last < address.toNat →
      (setPointer address.toNat : Routine ε Unit).run.outcome l =
        (.error (.addressTooWide address), l) ∧
      (fetchWord address.toNat : Routine ε UInt16).run.outcome l =
        (.error (.addressTooWide address), l) ∧
      (storeWord address.toNat data : Routine ε Unit).run.outcome l =
        (.error (.addressTooWide address), l)) ∧
    (address.toNat ≤ Address.last → (∀ limit ∈ l.limit, l.attempted + 8 ≤ limit) →
      (setPointer address.toNat : Routine ε Unit).run.outcome l =
        (.ok (),
          { l with
            target := { l.target with w := address.toNat.toUInt8, pointer := address.toNat }
            attempted := l.attempted + 6 }) ∧
      (∃ word : UInt16,
        word.toNat = (l.target.byteAt address.toNat).toNat +
          256 * (l.target.byteAt ((address.toNat + 1) % 16777216)).toNat ∧
        (fetchWord address.toNat : Routine ε UInt16).run.outcome l =
          (.ok word,
            { l with
              target :=
                { l.target with
                  w := address.toNat.toUInt8
                  pointer := (address.toNat + 2) % 16777216
                  tablat := l.target.byteAt ((address.toNat + 1) % 16777216) }
              attempted := l.attempted + 8 })) ∧
      ∃ n, l.target.Stored address.toNat data n ∧
        (storeWord address.toNat data : Routine ε Unit).run.outcome l =
          (.ok (), { l with target := n, attempted := l.attempted + 7 })) := by
  have anywhere : Around (fun _ => True) l.target := fun _ _ => trivial
  constructor
  · intro wide
    refine ⟨?_, ?_, ?_⟩
    · rw [setPointer_of_wide wide]
      rfl
    · rw [fetchWord, setPointer_of_wide wide]
      rfl
    · rw [storeWord, setPointer_of_wide wide]
      rfl
  · intro narrow carries
    have room (k : Nat) (fewer : k ≤ 8) : ∀ limit ∈ l.limit, l.attempted + k ≤ limit :=
      fun limit mem => Nat.le_trans (Nat.add_le_add_left fewer _) (carries limit mem)
    refine ⟨?_, ⟨_, l.target.toNat_wordAt address.toNat, ?_⟩, _,
      l.target.stored address.toNat data, ?_⟩
    · exact (goes_setPointer narrow anywhere).lossy_outcome (sure_setPointer narrow)
        (sends_setPointer narrow) (room 6 (by decide))
    · exact (goes_fetchWord narrow anywhere).lossy_outcome (sure_fetchWord narrow)
        (sends_fetchWord narrow) (room 8 (by decide))
    · exact (goes_storeWord narrow anywhere rfl trivial).lossy_outcome (sure_storeWord narrow data)
        (sends_storeWord narrow data) (room 7 (by decide))

/-- A link that carries just eight transfers will do. A word at the last address takes its high byte
from the first, where the code is erased. -/
theorem access_outcome_erased :
    let m : Emulator := { Emulator.new {} with pointer := 0xABCDEF }
    let l : Lossy Emulator := ⟨m, some 8, 0⟩
    (Address.last < (0x1000000 : UInt32).toNat ∧
      (setPointer 0x1000000 : Routine Report Unit).run.outcome l =
        (.error (.addressTooWide 0x1000000), l)) ∧
    (∀ limit ∈ l.limit, l.attempted + 8 ≤ limit) ∧
    ((0xFFFFFF : UInt32).toNat ≤ Address.last ∧
      (fetchWord 0xFFFFFF : Routine Report UInt16).run.outcome l =
        (.ok 0xFF00,
          { l with
            target := { m with w := 0xFF, pointer := 1, tablat := m.byteAt 0 }
            attempted := 8 })) ∧
    ((0x300001 : UInt32).toNat ≤ Address.last ∧
      ∃ n, (storeWord 0x300001 0x1234 : Routine Report Unit).run.outcome l =
          (.ok (), { l with target := n, attempted := 7 }) ∧
        n.content (.config 0x300001) = some 0x12 ∧ n.content (.config 0x300000) = none ∧
        n.content (.code 0) = none) := by
  intro m l
  have wide : Address.last < (0x1000000 : UInt32).toNat := by decide
  have last : (0xFFFFFF : UInt32).toNat ≤ Address.last := by decide
  have config : (0x300001 : UInt32).toNat ≤ Address.last := by decide
  have carries : ∀ limit ∈ l.limit, l.attempted + 8 ≤ limit := by decide
  have refused := (access_outcome (ε := Report) l 0x1000000 0x1234).1 wide
  obtain ⟨_, ⟨word, value, fetched⟩, _⟩ := (access_outcome l 0xFFFFFF 0x1234).2 last carries
  obtain ⟨_, _, n, stored, wrote⟩ := (access_outcome l 0x300001 0x1234).2 config carries
  have low : m.byteAt 0xFFFFFF = 0 := by decide
  have high : m.byteAt 0 = erased := by
    simp [m, byteAt, Emulator.new]
  have whole : word = 0xFF00 := by
    apply UInt16.toNat_inj.mp
    rw [value]
    change (m.byteAt 0xFFFFFF).toNat + 256 * (m.byteAt 0).toNat = _
    rw [low, high]
    rfl
  subst whole
  refine ⟨⟨wide, refused.1⟩, carries, ⟨last, fetched⟩, config, n, wrote, ?_⟩
  simp only [stored.slots]
  decide

end Routine

end InCircuit
