import InCircuit.Proofs.Emulator.Bounds

set_option autoImplicit false

/-!
# Nothing out of range

The emulated part once more, with every access checked: a cell or a row of a memory must exist, an
address sum must fit 32 bits, and a difference must not be negative. From power-up on no check ever
fails, whatever the transfers, and the checked part does what the part does.
-/
namespace InCircuit

namespace Checked

def sum? (a b : Nat) : Option Nat := if a + b < 4294967296 then some (a + b) else none

def difference? (a b : Nat) : Option Nat := if b ≤ a then some (a - b) else none

def put? (cells : Array UInt8) (index : Nat) (b : UInt8) : Option (Array UInt8) :=
  if index < cells.size then some (cells.setIfInBounds index b) else none

def erase? (cells : Array UInt8) (start stop : Nat) : Option (Array UInt8) :=
  if start ≤ stop ∧ stop ≤ cells.size then
    some (Emulator.eraseFrom cells start (stop - start))
  else none

variable {a b : Nat}

theorem sum?_eq (h : a + b < 4294967296) : sum? a b = some (a + b) := if_pos h

theorem difference?_eq (h : b ≤ a) : difference? a b = some (a - b) := if_pos h

theorem put?_eq {cells : Array UInt8} {index : Nat} (h : index < cells.size) (b : UInt8) :
    put? cells index b = some (cells.setIfInBounds index b) := if_pos h

theorem erase?_eq {cells : Array UInt8} {start stop : Nat} (h : start ≤ stop)
    (inside : stop ≤ cells.size) :
    erase? cells start stop = some (Emulator.eraseFrom cells start (stop - start)) :=
  if_pos ⟨h, inside⟩

end Checked

namespace Emulator

open Checked

/-! ## Checked accesses -/

def byteAt? (m : Emulator) (address : Nat) : Option UInt8 := do
  let stop ← sum? Address.config m.setup.configBytes
  if address < m.setup.codeSize then m.code[address]?
  else if Address.config ≤ address ∧ address < stop then
    let offset ← difference? address Address.config
    m.config[offset]?
  else if address = Address.deviceId then some m.setup.deviceId.toNat.toUInt8
  else if address = Address.deviceId + 1 then some (m.setup.deviceId.toNat / 256).toUInt8
  else some 0

def putControl? (m : Emulator) : (index : Nat) → UInt8 → Option Emulator
  | 0, b => some { m with eraseKeyLow := b }
  | 1, b => some { m with eraseKeyHigh := b }
  | 2, b => some { m with panelControl := b }
  | _, _ => none

def latchWord? (m : Emulator) (data : UInt16) : Option Emulator :=
  if Address.eraseKeyLow ≤ m.pointer ∧ m.pointer ≤ Address.panelControl then do
    let index ← difference? m.pointer Address.eraseKeyLow
    m.putControl? index (selected m.pointer data)
  else if Address.config ≤ m.pointer then
    some { m with configLatch := m.configLatch.insert m.pointer (selected m.pointer data) }
  else do
    let next ← sum? m.latchOffset 1
    return { m with
      latch := (m.latch.insert m.latchOffset data.toNat.toUInt8).insert next
        (data.toNat / 256).toUInt8 }

def movePointer? (m : Emulator) (step : Nat) : Option Emulator := do
  let moved ← sum? m.pointer step
  return { m with pointer := moved % 16777216 }

def beginRead? (m : Emulator) : Option Emulator :=
  if m.flag Eecon1.eepgd ∨ m.flag Eecon1.cfgs then some m
  else if m.eepromAddress < m.eeprom.size then do
    let b ← m.eeprom[m.eepromAddress]?
    return { m with eedata := b }
  else some { m with eedata := 0 }

def beginWrite? (m : Emulator) : Option Emulator :=
  if m.unlock ≠ .both ∨ ¬ m.flag Eecon1.wren ∨ m.flag Eecon1.eepgd ∨ m.flag Eecon1.cfgs then
    some m.beginWrite
  else if m.eepromAddress < m.eeprom.size then do
    let eeprom ← put? m.eeprom m.eepromAddress m.eedata
    return { m.beginWrite with eeprom }
  else some { m.beginWrite with eeprom := m.eeprom }

def execute? (m : Emulator) : Instruction → Option Emulator
  | .bsf f b =>
    if f = Register.eecon1.address ∧ b = Eecon1.rd then m.beginRead?
    else if f = Register.eecon1.address ∧ b = Eecon1.wr then m.beginWrite?
    else some (m.bsf f b)
  | i => some (m.execute i)

def clearRow? (m : Emulator) (address : Nat) : Option Emulator :=
  let page := max m.setup.erasePage 1
  let start := address - address % page
  if m.setup.codeSize ≤ start then some m
  else do
    let stop ← sum? start page
    let code ← erase? m.code start (min stop m.setup.codeSize)
    return { m with code, rowErases := m.rowErases + 1 }

/-- Stores latched configuration bytes; those at `stop` or past it are dropped. -/
def commitConfig? (stop : Nat) (config : Array UInt8) :
    List (Nat × UInt8) → Option (Array UInt8)
  | [] => some config
  | (address, b) :: rest =>
    if Address.config ≤ address ∧ address < stop then do
      let offset ← difference? address Address.config
      let config ← put? config offset b
      commitConfig? stop config rest
    else commitConfig? stop config rest

def commitCode? (stop block : Nat) (code : Array UInt8) :
    List (Nat × UInt8) → Option (Array UInt8)
  | [] => some code
  | (offset, b) :: rest => do
    let address ← sum? block offset
    if address < stop then
      let old ← code[address]?
      let code ← put? code address (old &&& b)
      commitCode? stop block code rest
    else commitCode? stop block code rest

def runCycle? (m : Emulator) (trigger : Nat) : Option Emulator :=
  if ¬ m.flag Eecon1.eepgd then some m.spent
  else if m.flag Eecon1.free then
    if m.flag Eecon1.wren then m.freed.clearRow? trigger else some m.freed
  else if m.flag Eecon1.cfgs then do
    let stop ← sum? Address.config m.setup.configBytes
    let config ← commitConfig? stop m.config m.configLatch.toList
    return { m.spent with config }
  else do
    let code ← commitCode? m.setup.codeSize (trigger - trigger % m.latchSize) m.code
      m.latch.toList
    return { m.spent with code }

def hold? (m : Emulator) (h : Hold) : Option Emulator :=
  if h.lines.clock then
    match m.armed with
    | some trigger => m.runCycle? trigger
    | none => some m
  else some (m.hold h)

def transmit? (m : Emulator) (c : Command) (word : UInt16) :
    Option (Except Fault UInt8 × Emulator) :=
  match c with
  | .coreInstruction =>
    match Instruction.decode word with
    | some i => do return (.ok 0, ← m.execute? i)
    | none => some (.error .linkFailure, m)
  | .tableWritePostInc => do return (.ok 0, ← (← m.latchWord? word).movePointer? 1)
  | .tableWritePostInc2 => do return (.ok 0, ← (← m.latchWord? word).movePointer? 2)
  | .tableWriteStartPostInc2 => do return (.ok 0, ← (← m.latchWord? word).arm.movePointer? 2)
  | .tableWriteStart => do return (.ok 0, (← m.latchWord? word).arm)
  | c => some (Link.clock (.transmit c word) m)

def receive? (m : Emulator) : Command → Option (Except Fault UInt8 × Emulator)
  | .tableRead => do
    return m.serve (← m.byteAt? m.pointer)
  | .tableReadPostInc => do
    let b ← m.byteAt? m.pointer
    return (← m.movePointer? 1).serve b
  | .tableReadPostDec => do
    return (m.movePointer 16777215).serve (← m.byteAt? m.pointer)
  | .tableReadPreInc => do
    let m ← m.movePointer? 1
    return m.serve (← m.byteAt? m.pointer)
  | c => some (Link.clock (.receive c) m)

def clock? (m : Emulator) : Transfer → Option (Except Fault UInt8 × Emulator)
  | .transmit c word => m.transmit? c word
  | .receive c => m.receive? c
  | .hold h => do return (.ok 0, ← m.hold? h)
  | .data c => some (Link.clock (.data c) m)
  | .delay micros => some (Link.clock (.delay micros) m)

end Emulator

/-- The addresses that are summed up fit 32 bits: of the configuration and of an erase page. -/
structure Setup.Addressable (s : Setup) : Prop where
  config : Address.config + s.configBytes < 4294967296
  page : s.erasePage < 4294967296

namespace Emulator

open Checked

variable {s : Setup} {m : Emulator}

theorem getElem?_eq_getD {cells : Array UInt8} {index : Nat} (h : index < cells.size) :
    cells[index]? = some (cells.getD index 0) := by
  simp [Array.getD, h]

theorem byteAt?_eq (fits : s.Addressable) (h : Bounded s m) (address : Nat) :
    m.byteAt? address = some (m.byteAt address) := by
  have code := h.sized.code
  have config := h.sized.config
  obtain rfl := h.setup
  simp only [byteAt?, byteAt, sum?_eq fits.config, Option.bind_eq_bind, Option.bind_some]
  split
  · exact getElem?_eq_getD (Nat.lt_of_lt_of_eq ‹_› code.symm)
  split
  · rename_i inside
    rw [difference?_eq inside.1, Option.bind_some]
    refine getElem?_eq_getD ?_
    change m.config.size = _ at config
    omega
  split
  · rfl
  split <;> rfl

theorem movePointer?_eq (h : m.pointer ≤ Address.last) {step : Nat} (short : step ≤ 2) :
    m.movePointer? step = some (m.movePointer step) := by
  have last : Address.last = 16777215 := rfl
  rw [movePointer?, sum?_eq (by omega)]
  rfl

theorem latchWord?_eq (h : m.pointer ≤ Address.last) (data : UInt16) :
    m.latchWord? data = some (m.latchWord data) := by
  have last : Address.last = 16777215 := rfl
  have low : Address.eraseKeyLow = 3932164 := rfl
  have high : Address.eraseKeyHigh = 3932165 := rfl
  have panel : Address.panelControl = 3932166 := rfl
  have config : Address.config = 3145728 := rfl
  unfold latchWord? latchWord
  by_cases control : Address.eraseKeyLow ≤ m.pointer ∧ m.pointer ≤ Address.panelControl
  · rw [if_pos control, difference?_eq control.1]
    obtain here | here | here : m.pointer = Address.eraseKeyLow ∨
        m.pointer = Address.eraseKeyHigh ∨ m.pointer = Address.panelControl := by omega
    · have index : m.pointer - Address.eraseKeyLow = 0 := by omega
      simp only [if_pos here, index]
      rfl
    · have index : m.pointer - Address.eraseKeyLow = 1 := by omega
      have other : m.pointer ≠ Address.eraseKeyLow := by omega
      simp only [if_neg other, if_pos here, index]
      rfl
    · have index : m.pointer - Address.eraseKeyLow = 2 := by omega
      have other : m.pointer ≠ Address.eraseKeyLow := by omega
      have another : m.pointer ≠ Address.eraseKeyHigh := by omega
      simp only [if_neg other, if_neg another, if_pos here, index]
      rfl
  · have first : m.pointer ≠ Address.eraseKeyLow := by omega
    have second : m.pointer ≠ Address.eraseKeyHigh := by omega
    have third : m.pointer ≠ Address.panelControl := by omega
    rw [if_neg control]
    simp only [if_neg first, if_neg second, if_neg third]
    split
    · rfl
    · have offset : m.latchOffset ≤ m.pointer - m.pointer % 2 := Nat.mod_le _ _
      rw [sum?_eq (by omega)]
      rfl

theorem beginRead?_eq (m : Emulator) : m.beginRead? = some m.beginRead := by
  unfold beginRead? beginRead
  by_cases selected : m.flag Eecon1.eepgd ∨ m.flag Eecon1.cfgs
  · rw [if_pos selected, if_pos selected]
  rw [if_neg selected, if_neg selected]
  by_cases inside : m.eepromAddress < m.eeprom.size
  · rw [if_pos inside, getElem?_eq_getD inside]
    rfl
  · have past : m.eeprom.getD m.eepromAddress 0 = 0 := by simp [Array.getD, inside]
    rw [if_neg inside, past]

theorem beginWrite?_eq (m : Emulator) : m.beginWrite? = some m.beginWrite := by
  unfold beginWrite?
  split
  · rfl
  rename_i unlocked
  have written : m.beginWrite.eeprom = m.eeprom.setIfInBounds m.eepromAddress m.eedata := by
    rw [beginWrite, if_neg unlocked]
  split
  · rw [put?_eq ‹_›, ← written]
    rfl
  · have past : m.eeprom.setIfInBounds m.eepromAddress m.eedata = m.eeprom := by
      simp [Array.setIfInBounds, ‹¬ _›]
    rw [← past, ← written]

theorem execute?_eq (m : Emulator) (i : Instruction) : m.execute? i = some (m.execute i) := by
  cases i with
  | bsf f b =>
    simp only [execute?, execute, bsf]
    by_cases eecon1 : f = Register.eecon1.address
    · subst eecon1
      simp only [true_and, if_true]
      split
      · exact beginRead?_eq m
      split
      · exact beginWrite?_eq m
      · rfl
    · simp only [eecon1, false_and, if_false]
  | _ => rfl

theorem clearRow?_eq (page : m.setup.erasePage < 4294967296)
    (size : m.code.size = m.setup.codeSize) {address : Nat} (h : address ≤ Address.last) :
    m.clearRow? address = some (m.clearRow address) := by
  have last : Address.last = 16777215 := rfl
  unfold clearRow? clearRow
  simp only
  by_cases past : m.setup.codeSize ≤ address - address % max m.setup.erasePage 1
  · rw [if_pos past, if_pos past]
  rw [if_neg past, if_neg past]
  have sum : address - address % max m.setup.erasePage 1 + max m.setup.erasePage 1 <
      4294967296 := by
    by_cases large : address < max m.setup.erasePage 1
    · rw [Nat.mod_eq_of_lt large]
      omega
    · omega
  rw [sum?_eq sum, Option.bind_eq_bind, Option.bind_some, erase?_eq (by omega) (by omega)]
  have count : min (address - address % max m.setup.erasePage 1 + max m.setup.erasePage 1)
        m.setup.codeSize - (address - address % max m.setup.erasePage 1) =
      min (max m.setup.erasePage 1)
        (m.setup.codeSize - (address - address % max m.setup.erasePage 1)) := by omega
  rw [count]
  rfl

theorem commitConfig?_eq (config : Array UInt8) {latch : List (Nat × UInt8)}
    (low : ∀ x ∈ latch, Address.config ≤ x.1) :
    commitConfig? (Address.config + config.size) config latch =
      some (latch.foldl (fun config x => config.setIfInBounds (x.1 - Address.config) x.2)
        config) := by
  induction latch generalizing config with
  | nil => rfl
  | cons x rest ih =>
    obtain ⟨address, b⟩ := x
    obtain ⟨here, later⟩ := List.forall_mem_cons.mp low
    rw [commitConfig?, List.foldl_cons]
    have next := ih (config.setIfInBounds (address - Address.config) b) later
    rw [Array.size_setIfInBounds] at next
    split
    · rename_i inside
      rw [difference?_eq here, Option.bind_eq_bind, Option.bind_some, put?_eq (by omega)]
      exact next
    · rename_i outside
      have dropped : config.setIfInBounds (address - Address.config) b = config :=
        Array.setIfInBounds_eq_of_size_le (by omega)
      rw [dropped] at next ⊢
      exact next

theorem setIfInBounds_getD {cells : Array UInt8} {index : Nat} (f : UInt8 → UInt8) :
    cells.setIfInBounds index (f (cells.getD index 0)) = cells.modify index f := by
  apply Array.ext_getElem?
  intro k
  rw [Array.getElem?_setIfInBounds, Array.getElem?_modify]
  by_cases here : index = k
  · subst here
    by_cases inside : index < cells.size
    · simp [inside]
    · simp [inside]
  · rw [if_neg here, if_neg here]

theorem modify_of_size_le {cells : Array UInt8} {index : Nat} (h : cells.size ≤ index)
    (f : UInt8 → UInt8) : cells.modify index f = cells := by
  rw [← setIfInBounds_getD, Array.setIfInBounds_eq_of_size_le h]

theorem commitCode?_eq (code : Array UInt8) {block : Nat} {latch : List (Nat × UInt8)}
    (low : block ≤ Address.last) (offsets : ∀ x ∈ latch, x.1 ≤ Address.last) :
    commitCode? code.size block code latch =
      some (latch.foldl (fun code x => code.modify (block + x.1) (· &&& x.2)) code) := by
  have last : Address.last = 16777215 := rfl
  induction latch generalizing code with
  | nil => rfl
  | cons x rest ih =>
    obtain ⟨offset, b⟩ := x
    obtain ⟨here, later⟩ := List.forall_mem_cons.mp offsets
    have next := ih (code.modify (block + offset) (· &&& b)) later
    rw [Array.size_modify] at next
    rw [commitCode?, sum?_eq (by omega), Option.bind_eq_bind, Option.bind_some, List.foldl_cons]
    split
    · rename_i inside
      rw [getElem?_eq_getD inside, Option.bind_eq_bind, Option.bind_some, put?_eq inside,
        setIfInBounds_getD (· &&& b)]
      exact next
    · rename_i outside
      rw [modify_of_size_le (Nat.le_of_not_lt outside)] at next ⊢
      exact next

theorem runCycle_ite (m : Emulator) (trigger : Nat) : m.runCycle trigger =
    if ¬ m.flag Eecon1.eepgd then m.spent
    else if m.flag Eecon1.free then
      if m.flag Eecon1.wren then m.freed.clearRow trigger else m.freed
    else if m.flag Eecon1.cfgs then
      { m.spent with config := commitConfig m.config m.configLatch }
    else
      { m.spent with code := commitCode m.code (trigger - trigger % m.latchSize) m.latch } := rfl

theorem runCycle?_eq (fits : s.Addressable) (h : Bounded s m) {trigger : Nat}
    (armed : trigger ≤ Address.last) : m.runCycle? trigger = some (m.runCycle trigger) := by
  have code : m.code.size = s.codeSize := h.sized.code
  have config : m.config.size = s.configBytes := h.sized.config
  have listed {latch : Std.TreeMap Nat UInt8} {x : Nat × UInt8} (mem : x ∈ latch.toList) :
      latch[x.1]? = some x.2 := Std.TreeMap.mem_toList_iff_getElem?_eq_some.mp mem
  obtain rfl := h.setup
  rw [runCycle_ite, runCycle?]
  split
  · rfl
  split
  · split
    · exact clearRow?_eq (m := m.freed) fits.page code armed
    · rfl
  split
  · have low : ∀ x ∈ m.configLatch.toList, Address.config ≤ x.1 := fun x mem =>
      (h.configLatch x.1 x.2 (listed mem)).1
    rw [sum?_eq fits.config, ← config, Option.bind_eq_bind, Option.bind_some,
      commitConfig?_eq m.config low, commitConfig, Std.TreeMap.foldl_eq_foldl_toList]
    rfl
  · have block : trigger - trigger % m.latchSize ≤ Address.last :=
      Nat.le_trans (Nat.sub_le _ _) armed
    have low : ∀ x ∈ m.latch.toList, x.1 ≤ Address.last := fun x mem =>
      h.latch x.1 x.2 (listed mem)
    rw [← code, commitCode?_eq m.code block low, commitCode, Std.TreeMap.foldl_eq_foldl_toList]
    rfl

theorem hold?_eq (fits : s.Addressable) (h : Bounded s m) (x : Hold) :
    m.hold? x = some (m.hold x) := by
  unfold hold? hold
  split
  · cases armed : m.armed with
    | some trigger => exact runCycle?_eq fits h (h.armed trigger armed)
    | none => rfl
  · rfl

theorem transmit?_eq (h : Bounded s m) (c : Command) (word : UInt16) :
    m.transmit? c word = some (Link.clock (.transmit c word) m) := by
  have latched := latchWord?_eq h.pointer word
  have pointer : (m.latchWord word).pointer ≤ Address.last := (h.latchWord word).pointer
  cases c with
  | coreInstruction =>
    cases known : Instruction.decode word with
    | some i =>
      rw [clock_known m known]
      simp only [transmit?, known, execute?_eq]
      rfl
    | none =>
      rw [clock_unknown m known]
      simp only [transmit?, known]
  | tableWritePostInc | tableWritePostInc2 =>
    rw [transmit?, latched, Option.bind_eq_bind, Option.bind_some,
      movePointer?_eq pointer (by decide)]
    rfl
  | tableWriteStartPostInc2 =>
    rw [transmit?, latched, Option.bind_eq_bind, Option.bind_some,
      movePointer?_eq (m := (m.latchWord word).arm) pointer (by decide)]
    rfl
  | tableWriteStart =>
    rw [transmit?, latched]
    rfl
  | _ => rfl

theorem receive?_eq (fits : s.Addressable) (h : Bounded s m) (c : Command) :
    m.receive? c = some (Link.clock (.receive c) m) := by
  have read := byteAt?_eq fits h m.pointer
  cases c with
  | tableRead | tableReadPostDec =>
    rw [receive?, read]
    rfl
  | tableReadPostInc =>
    rw [receive?, read, movePointer?_eq h.pointer (by decide)]
    rfl
  | tableReadPreInc =>
    have moved : Bounded s (m.movePointer 1) := h.of_held rfl rfl (pointer_movePointer m 1)
    rw [receive?, movePointer?_eq h.pointer (by decide), Option.bind_eq_bind, Option.bind_some,
      byteAt?_eq fits moved]
    rfl
  | _ => rfl

/-- Within the bounds no check of a transfer fails, and the checks make no difference. -/
theorem clock?_eq (fits : s.Addressable) (h : Bounded s m) (t : Transfer) :
    m.clock? t = some (Link.clock t m) := by
  cases t with
  | transmit c word => exact transmit?_eq h c word
  | receive c => exact receive?_eq fits h c
  | hold x =>
    rw [clock?, hold?_eq fits h]
    rfl
  | data _ | delay _ => rfl

end Emulator

/-! ## From power-up on -/

namespace Lossy

open Emulator

def clock? (l : Lossy Emulator) (t : Transfer) : Option (Except Fault UInt8 × Lossy Emulator) :=
  if l.isLost then some (Link.clock t l)
  else do
    let ran ← l.target.clock? t
    return (ran.1, ⟨ran.2, l.limit, l.attempted + 1⟩)

def afterAll? (l : Lossy Emulator) : List Transfer → Option (Lossy Emulator)
  | [] => some l
  | t :: ts => do
    let ran ← l.clock? t
    ran.2.afterAll? ts

variable {s : Setup} {memory : Memory} {l : Lossy Emulator}

theorem clock?_eq (fits : s.Addressable) (h : Bounded s l.target) (t : Transfer) :
    l.clock? t = some (Link.clock t l) := by
  unfold clock?
  split
  · rfl
  · rename_i lost
    rw [Emulator.clock?_eq fits h]
    simp only [Link.clock, if_neg lost]
    rfl

theorem bounded_clock (h : Bounded s l.target) (t : Transfer) :
    Bounded s (Link.clock t l).2.target := by
  cases lost : l.isLost with
  | true =>
    rw [(clock_of_lost lost t).2]
    exact h
  | false =>
    rw [(clock_of_not_lost lost t).2]
    exact h.clock t

theorem afterAll?_eq (fits : s.Addressable) (h : Bounded s l.target) (ts : List Transfer) :
    l.afterAll? ts = some (Link.afterAll l ts) ∧ Bounded s (Link.afterAll l ts).target := by
  induction ts generalizing l with
  | nil => exact ⟨rfl, h⟩
  | cons t ts ih =>
    rw [afterAll?, clock?_eq fits h]
    exact ih (bounded_clock h t)

end Lossy

namespace Emulator

/-- Whatever is sent to a part of any sizes, nothing is accessed out of range: the checked run does
not fail and does the same. The memories keep their sizes, and addresses their 24 bits. -/
theorem transfers_in_range {s : Setup} {memory : Memory} (fits : s.Addressable)
    (sized : memory.Sized s) (limit : Option Nat) (ts : List Transfer) :
    (Lossy.powerUp s memory limit).afterAll? ts =
        some (Link.afterAll (Lossy.powerUp s memory limit) ts) ∧
      Bounded s (Link.afterAll (Lossy.powerUp s memory limit) ts).target :=
  Lossy.afterAll?_eq fits (bounded_powerUp sized) ts

/-- Pages and blocks of odd sizes, neither of which divides the code size. -/
def oddSizes : Setup where
  codeSize := 100
  erasePage := 7
  writeBlock := 3
  configBytes := 5
  eepromSize := 10

def wrapping : List Transfer :=
  [.transmit .coreInstruction Instruction.setEepgd.encode, .receive .tableReadPostDec,
    .transmit .tableWriteStartPostInc2 0x1234, .hold .postProgram]

theorem transfers_in_range_oddSizes :
    ∃ l, (Lossy.powerUp oddSizes (.zeroed oddSizes) none).afterAll? wrapping = some l ∧
      l.target.memory.Sized oddSizes ∧ l.target.pointer = 1 := by
  obtain ⟨run, bounded⟩ := transfers_in_range (s := oddSizes) ⟨by decide, by decide⟩
    (Memory.sized_zeroed oddSizes) none wrapping
  exact ⟨_, run, bounded.sized, rfl⟩

end Emulator

end InCircuit
