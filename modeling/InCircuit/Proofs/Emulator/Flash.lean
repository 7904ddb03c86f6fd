import InCircuit.Proofs.Emulator.Journal

set_option autoImplicit false

/-!
# Protection of code and configuration

Table writes fill latches and arm cycles; code and configuration change only when a pulse runs an
armed cycle or a keyed bulk erase. The journal of table writes, armings and runs tells where the
armed cycle and the latched configuration bytes come from.
-/
namespace InCircuit

inductive FlashEvent where
  | wrote (address : Nat) (data : UInt16)
  | armed (address : Nat)
  | ran

namespace FlashEvent

/-- A word was written at an address, and no cycle has run since. -/
def Wrote (log : List FlashEvent) (address : Nat) (data : UInt16) : Prop :=
  ∃ before since, log = before ++ wrote address data :: since ∧ ran ∉ since

/-- A cycle was armed at an address, and there have only been table writes since. -/
def Armed (log : List FlashEvent) (address : Nat) : Prop :=
  ∃ before since, log = before ++ armed address :: since ∧ ∀ e ∈ since, ∃ a data, e = wrote a data

theorem Wrote.append {log : List FlashEvent} {address : Nat} {data : UInt16}
    (h : Wrote log address data) {new : List FlashEvent} (calm : ran ∉ new) :
    Wrote (log ++ new) address data := by
  obtain ⟨before, since, rfl, none_since⟩ := h
  refine ⟨before, since ++ new, by rw [List.append_assoc, List.cons_append], ?_⟩
  exact fun h => (List.mem_append.mp h).elim none_since calm

theorem Armed.append {log : List FlashEvent} {address : Nat} (h : Armed log address) (a : Nat)
    (data : UInt16) : Armed (log ++ [wrote a data]) address := by
  obtain ⟨before, since, rfl, writes⟩ := h
  refine ⟨before, since ++ [wrote a data], by rw [List.append_assoc, List.cons_append], ?_⟩
  intro e he
  rcases List.mem_append.mp he with he | he
  · exact writes e he
  · exact ⟨a, data, List.mem_singleton.mp he⟩

/-- Every run takes up an arming, `pending` if there is one to begin with. -/
def Paired : (pending : Bool) → List FlashEvent → Prop
  | _, [] => True
  | pending, wrote _ _ :: log => Paired pending log
  | _, armed _ :: log => Paired true log
  | pending, ran :: log => pending = true ∧ Paired false log

theorem Paired.of_append {before log : List FlashEvent} {pending : Bool}
    (h : Paired pending (before ++ log)) : ∃ pending, Paired pending log := by
  induction before generalizing pending with
  | nil => exact ⟨pending, h⟩
  | cons e before ih =>
    cases e with
    | wrote _ _ => exact ih h
    | armed _ => exact ih h
    | ran => exact ih h.2

theorem Paired.armed_first {between rest : List FlashEvent}
    (h : Paired false (between ++ ran :: rest)) : ∃ address, armed address ∈ between := by
  induction between with
  | nil => cases h.1
  | cons e between ih =>
    cases e with
    | wrote _ _ =>
      obtain ⟨address, later⟩ := ih h
      exact ⟨address, List.mem_cons_of_mem _ later⟩
    | armed address => exact ⟨address, List.mem_cons_self⟩
    | ran => cases h.1

theorem Paired.armed_between {before between rest : List FlashEvent} {pending : Bool}
    (h : Paired pending (before ++ ran :: (between ++ ran :: rest))) :
    ∃ address, armed address ∈ between := by
  obtain ⟨_, from_run⟩ := h.of_append
  exact from_run.2.armed_first

end FlashEvent

/-! ## Blocks of an array -/

theorem same_block_iff (a b : Nat) {n : Nat} (pos : 0 < n) :
    a / n = b / n ↔ b - b % n ≤ a ∧ a < b - b % n + n := by
  have ha := Nat.div_add_mod a n
  have hb := Nat.div_add_mod b n
  have la := Nat.mod_lt a pos
  have start : b - b % n = n * (b / n) := by omega
  rw [start]
  constructor
  · intro same
    rw [← same]
    omega
  · rintro ⟨low, high⟩
    rw [Nat.div_eq_iff pos]
    constructor
    · rw [Nat.mul_comm]; exact low
    · rw [Nat.mul_comm]; omega

namespace Emulator

theorem size_eraseFrom (cells : Array UInt8) (start count : Nat) :
    (eraseFrom cells start count).size = cells.size := by
  induction count generalizing cells start with
  | zero => rfl
  | succ count ih => rw [eraseFrom, ih, Array.size_setIfInBounds]

theorem getElem?_clearRow {m : Emulator} (size : m.code.size = m.setup.codeSize) (address a : Nat) :
    (m.clearRow address).code[a]? =
      if a / max m.setup.erasePage 1 = address / max m.setup.erasePage 1 then
        m.code[a]?.map fun _ => erased
      else m.code[a]? := by
  have pos : 0 < max m.setup.erasePage 1 := by omega
  rw [clearRow]
  generalize max m.setup.erasePage 1 = page at pos
  simp only [same_block_iff a address pos]
  generalize address - address % page = start
  by_cases inside : a < m.code.size
  · have hs : ¬ m.setup.codeSize ≤ start ∨ ¬ start ≤ a := by omega
    split
    · rw [if_neg (by omega)]
    · rw [getElem?_eraseFrom]
      congr 1
      exact propext (by omega)
  · have absent : m.code[a]? = none := by simpa using inside
    split
    · simp [absent]
    · rw [getElem?_eraseFrom, absent]
      simp

theorem size_clearRow (m : Emulator) (address : Nat) :
    (m.clearRow address).code.size = m.code.size := by
  rw [clearRow]
  split
  · rfl
  · exact size_eraseFrom _ _ _

theorem getElem?_commitCode {latch : Std.TreeMap Nat UInt8} {size : Nat} (pos : 0 < size)
    (offsets : ∀ o b, latch[o]? = some b → o < size) (code : Array UInt8) (address a : Nat) :
    ∃ mask, (commitCode code (address - address % size) latch)[a]? = code[a]?.map (· &&& mask) ∧
      (a / size ≠ address / size → mask = erased) := by
  have distinct : latch.toList.Pairwise fun x y => x.1 ≠ y.1 :=
    Std.TreeMap.distinct_keys_toList.imp fun hne he => hne (by simp [he])
  rw [commitCode, Std.TreeMap.foldl_eq_foldl_toList, getElem?_foldl_modify _ _ code distinct]
  cases hf : latch.toList.find? (fun x => address - address % size + x.1 == a) with
  | some x =>
    refine ⟨x.2, rfl, fun outside => absurd ?_ outside⟩
    have hx : address - address % size + x.1 = a := by simpa using List.find?_some hf
    have := offsets x.1 x.2
      (Std.TreeMap.mem_toList_iff_getElem?_eq_some.mp (List.mem_of_find?_eq_some hf))
    exact (same_block_iff a address pos).mpr (by omega)
  | none =>
    refine ⟨erased, ?_, fun _ => rfl⟩
    simp

theorem size_commitCode (code : Array UInt8) (block : Nat) (latch : Std.TreeMap Nat UInt8) :
    (commitCode code block latch).size = code.size := by
  rw [commitCode, Std.TreeMap.foldl_eq_foldl_toList]
  induction latch.toList generalizing code with
  | nil => rfl
  | cons x rest ih => rw [List.foldl_cons, ih, Array.size_modify]

theorem size_commitConfig (config : Array UInt8) (latch : Std.TreeMap Nat UInt8) :
    (commitConfig config latch).size = config.size := by
  rw [commitConfig, Std.TreeMap.foldl_eq_foldl_toList]
  induction latch.toList generalizing config with
  | nil => rfl
  | cons x rest ih => rw [List.foldl_cons, ih, Array.size_setIfInBounds]

theorem getElem?_commitConfig {config : Array UInt8} {latch : Std.TreeMap Nat UInt8} {i : Nat}
    {b : UInt8} (h : (commitConfig config latch)[i]? = some b) :
    config[i]? = some b ∨ ∃ address, latch[address]? = some b ∧ address - Address.config = i := by
  rw [commitConfig, Std.TreeMap.foldl_eq_foldl_toList] at h
  have entries : ∀ x ∈ latch.toList, latch[x.1]? = some x.2 := fun _ hx =>
    Std.TreeMap.mem_toList_iff_getElem?_eq_some.mp hx
  generalize latch.toList = rest at h entries
  induction rest generalizing config with
  | nil => exact .inl h
  | cons x rest ih =>
    rcases ih h fun y hy => entries y (List.mem_cons_of_mem x hy) with kept | latched
    · rw [Array.getElem?_setIfInBounds] at kept
      split at kept
      · rename_i here
        split at kept
        · obtain rfl := Option.some.inj kept
          exact .inr ⟨x.1, entries x List.mem_cons_self, here⟩
        · cases kept
      · exact .inl kept
    · exact .inr latched

/-! ## What the latches and the armed cycle come from -/

def flashNote (m : Emulator) (t : Transfer) : List FlashEvent :=
  match t.effect with
  | .latch data arms => .wrote m.pointer data :: if arms then [.armed m.pointer] else []
  | .hold h => if h.lines.clock && m.armed.isSome then [.ran] else []
  | .execute _ | .quiet => []

/-- Everything that waits for a cycle comes from the noted events. -/
structure Tracked (s : Setup) (m : Emulator) (log : List FlashEvent) : Prop where
  setup : m.setup = s
  size : m.code.size = s.codeSize
  offset : ∀ o b, m.latch[o]? = some b → o < m.latchSize
  config : ∀ a b, m.configLatch[a]? = some b →
    Address.config ≤ a ∧ ∃ data, FlashEvent.Wrote log a data ∧ b = selected a data
  armed : ∀ a, m.armed = some a → FlashEvent.Armed log a

variable {s : Setup} {m n : Emulator} {log : List FlashEvent}

theorem Tracked.of_held {eeprom : Array UInt8} (h : Tracked s m log)
    (hn : n.held = { m.held with memory := { m.memory with eeprom } }) : Tracked s n log := by
  have setup : n.setup = m.setup := congrArg Held.setup hn
  have code : n.code = m.code := congrArg (fun k : Held => k.memory.code) hn
  have latch : n.latch = m.latch := congrArg Held.latch hn
  have configLatch : n.configLatch = m.configLatch := congrArg Held.configLatch hn
  have armed : n.armed = m.armed := congrArg Held.armed hn
  refine ⟨setup.trans h.setup, ?_, ?_, ?_, ?_⟩
  · rw [code]
    exact h.size
  · rw [latch, latchSize, setup]
    exact h.offset
  · rw [configLatch]
    exact h.config
  · rw [armed]
    exact h.armed

theorem Tracked.config_append (h : Tracked s m log) {new : List FlashEvent} (calm : .ran ∉ new)
    (a : Nat) (b : UInt8) (hb : m.configLatch[a]? = some b) :
    Address.config ≤ a ∧ ∃ data, FlashEvent.Wrote (log ++ new) a data ∧ b = selected a data := by
  obtain ⟨beyond, data, written, value⟩ := h.config a b hb
  exact ⟨beyond, data, written.append calm, value⟩

theorem Tracked.wrote (h : Tracked s m log) (address : Nat) (data : UInt16) :
    Tracked s m (log ++ [.wrote address data]) where
  setup := h.setup
  size := h.size
  offset := h.offset
  config := h.config_append (by simp)
  armed a ha := (h.armed a ha).append address data

theorem Tracked.latchWord (even : m.latchSize % 2 = 0) (h : Tracked s m log) (data : UInt16) :
    Tracked s (m.latchWord data) (log ++ [.wrote m.pointer data]) ∧
      (m.latchWord data).pointer = m.pointer := by
  have noted := h.wrote m.pointer data
  have filled := m.latched data
  generalize m.latchWord data = k at filled
  cases filled with
  | control _ _ _ => exact ⟨⟨noted.setup, noted.size, noted.offset, noted.config, noted.armed⟩, rfl⟩
  | config beyond =>
    refine ⟨⟨noted.setup, noted.size, noted.offset, ?_, noted.armed⟩, rfl⟩
    intro a b hb
    rw [Std.TreeMap.getElem?_insert] at hb
    split at hb
    · rename_i here
      obtain rfl := Nat.compare_eq_eq.mp here
      exact ⟨beyond, data, ⟨log, [], rfl, List.not_mem_nil⟩, (Option.some.inj hb).symm⟩
    · exact noted.config a b hb
  | code low high =>
    refine ⟨⟨noted.setup, noted.size, ?_, noted.config, noted.armed⟩, rfl⟩
    intro o b hb
    have pos : 0 < m.latchSize := by
      rw [latchSize]
      omega
    have room : m.latchOffset < m.latchSize := Nat.mod_lt _ pos
    have whole : m.latchOffset % 2 = 0 := by
      rw [latchOffset, Nat.mod_mod_of_dvd _ (Nat.dvd_of_mod_eq_zero even)]
      omega
    change o < m.latchSize
    rw [Std.TreeMap.getElem?_insert, Std.TreeMap.getElem?_insert] at hb
    split at hb
    · have here := Nat.compare_eq_eq.mp ‹_›
      omega
    split at hb
    · have here := Nat.compare_eq_eq.mp ‹_›
      omega
    · exact noted.offset o b hb

theorem Tracked.arm (h : Tracked s m log) (pointer : Nat) :
    Tracked s { m.arm with pointer } (log ++ [.armed m.pointer]) where
  setup := h.setup
  size := h.size
  offset := h.offset
  config := h.config_append (by simp)
  armed a ha := by
    obtain rfl := Option.some.inj ha
    exact ⟨log, [], rfl, fun e he => absurd he List.not_mem_nil⟩

/-- With empty latches only the armed cycle is left to tell of. -/
theorem tracked_of_empty (setup : n.setup = s) (size : n.code.size = s.codeSize)
    (latch : n.latch = {}) (configLatch : n.configLatch = {})
    (armed : ∀ a, n.armed = some a → FlashEvent.Armed log a) : Tracked s n log where
  setup := setup
  size := size
  offset o b hb := by
    rw [latch, Std.TreeMap.getElem?_emptyc] at hb
    cases hb
  config a b hb := by
    rw [configLatch, Std.TreeMap.getElem?_emptyc] at hb
    cases hb
  armed := armed

theorem Tracked.runCycle (h : Tracked s m log) (trigger : Nat) (later : List FlashEvent) :
    Tracked s (m.runCycle trigger) later := by
  have size : (m.runCycle trigger).code.size = m.code.size := by
    have ran := m.cycled trigger
    generalize m.runCycle trigger = k at ran
    cases ran with
    | erased _ _ _ => exact m.freed.size_clearRow trigger
    | programmed _ _ _ => exact size_commitCode _ _ _
    | ignored _ | refused _ _ | configured _ _ _ => rfl
  obtain ⟨_, _, _, _, ran⟩ := m.runCycle_eq trigger
  rw [ran] at size ⊢
  exact tracked_of_empty h.setup (size.trans h.size) rfl rfl fun _ none_left => by cases none_left

theorem Tracked.wipe (h : Tracked s m log) : Tracked s m.wipe log :=
  tracked_of_empty h.setup (Array.size_replicate.trans h.size) rfl rfl h.armed

theorem Tracked.clock (even : max s.writeBlock 2 % 2 = 0) (h : Tracked s m log) (t : Transfer) :
    Tracked s (Link.clock t m).2 (log ++ m.flashNote t) := by
  have even_m : m.latchSize % 2 = 0 := by
    rw [latchSize, h.setup]
    exact even
  have done := does_clock m t
  rw [flashNote]
  generalize t.effect = effect at done
  generalize (Link.clock t m).2 = n at done
  cases done with
  | execute i =>
    rw [List.append_nil]
    exact h.of_held (held_execute_eeprom m i)
  | latch word pointer => exact (h.latchWord even_m word).1.of_held rfl
  | arm word pointer =>
    obtain ⟨filled, at_pointer⟩ := h.latchWord even_m word
    have armed := filled.arm pointer
    rw [at_pointer, List.append_assoc] at armed
    exact armed
  | cycle clock armed => exact h.runCycle _ _
  | wipe clock keyed =>
    simp only [clock, Bool.false_and, Bool.false_eq_true, if_false, List.append_nil]
    exact h.wipe
  | pass idle =>
    simp only [idle, Bool.false_eq_true, if_false, List.append_nil]
    exact h
  | quiet pointer tablat =>
    rw [List.append_nil]
    exact h.of_held rfl

/-! ## Each arming runs once -/

theorem armed_runCycle (m : Emulator) (trigger : Nat) : (m.runCycle trigger).armed = none := by
  obtain ⟨_, _, _, _, ran⟩ := m.runCycle_eq trigger
  rw [ran]
  rfl

theorem armed_latchWord (m : Emulator) (data : UInt16) : (m.latchWord data).armed = m.armed := by
  obtain ⟨_, _, _, _, _, filled⟩ := m.latchWord_eq data
  rw [filled]

theorem paired_clock (m : Emulator) (t : Transfer) {later : List FlashEvent}
    (h : FlashEvent.Paired (Link.clock t m).2.armed.isSome later) :
    FlashEvent.Paired m.armed.isSome (m.flashNote t ++ later) := by
  have done := does_clock m t
  rw [flashNote]
  generalize t.effect = effect at done
  generalize (Link.clock t m).2 = n at done h
  cases done with
  | execute i =>
    have kept : (m.execute i).armed = m.armed := congrArg Held.armed (held_execute_eeprom m i)
    rw [kept] at h
    exact h
  | latch word pointer =>
    change FlashEvent.Paired (m.latchWord word).armed.isSome later at h
    rw [armed_latchWord] at h
    exact h
  | arm word pointer => exact h
  | cycle clock armed =>
    rw [armed_runCycle] at h
    simp only [clock, armed, Option.isSome_some, Bool.and_self, if_true]
    exact ⟨rfl, h⟩
  | wipe clock keyed =>
    simp only [clock, Bool.false_and, Bool.false_eq_true, if_false]
    exact h
  | pass idle =>
    simp only [idle, Bool.false_eq_true, if_false]
    exact h
  | quiet pointer tablat => exact h

theorem paired_journal (l : Lossy Emulator) (ts : List Transfer) :
    FlashEvent.Paired l.target.armed.isSome (l.journal flashNote ts) := by
  -- The transfers are taken from the first on, so what the part has armed by then is pending.
  induction ts generalizing l with
  | nil => trivial
  | cons t ts ih =>
    have rest := ih (Link.clock t l).2
    rw [Lossy.journal]
    cases lost : l.isLost with
    | true =>
      rw [(Lossy.clock_of_lost lost t).2] at rest
      exact rest
    | false =>
      rw [(Lossy.clock_of_not_lost lost t).2] at rest
      exact paired_clock l.target t rest

/-! ## Changes of code and configuration -/

/-- What a cycle armed at an address does when code memory is selected. -/
structure CycleEffect (p : Part) (log : List FlashEvent) (trigger : Nat) (m n : Emulator) :
    Prop where
  eeprom : n.eeprom = m.eeprom
  /-- A row erase with writes disabled does nothing. -/
  refused : m.flag Eecon1.free = true → m.flag Eecon1.wren = false →
    n.code = m.code ∧ n.config = m.config
  /-- An enabled one erases the row that holds the address. -/
  erased : m.flag Eecon1.free = true → m.flag Eecon1.wren = true →
    n.config = m.config ∧ ∀ a, n.code[a]? =
      if a / p.erasePage = trigger / p.erasePage then m.code[a]?.map fun _ => erased
      else m.code[a]?
  /-- Bits are cleared, and only in the write block that holds the address. -/
  programmed : m.flag Eecon1.free = false → m.flag Eecon1.cfgs = false →
    n.config = m.config ∧ ∀ a, ∃ mask, n.code[a]? = m.code[a]?.map (· &&& mask) ∧
      (a / (2 * p.wordsPerWrite) ≠ trigger / (2 * p.wordsPerWrite) → mask = InCircuit.erased)
  /-- Only bytes are stored that have been latched since the cycle before. -/
  configured : m.flag Eecon1.free = false → m.flag Eecon1.cfgs = true →
    n.code = m.code ∧ n.config.size = m.config.size ∧
      ∀ i b, n.config[i]? = some b → m.config[i]? = some b ∨
        ∃ data, FlashEvent.Wrote log (Address.config + i) data ∧
          b = selected (Address.config + i) data

def HoldsKey (m : Emulator) (f : Family) : Prop :=
  ∀ x ∈ f.eraseKey, m.controlRegister x.1 = x.2.toNat.toUInt8

structure FlashGuarded (p : Part) (f : Family) (log : List FlashEvent) (t : Transfer)
    (reply : Except Fault UInt8) (m n : Emulator) : Prop where
  /-- Only two kinds of pulses change anything. -/
  changed : n.code ≠ m.code ∨ n.config ≠ m.config → ∃ h, t = .hold h ∧ reply = .ok 0 ∧
    ((h.lines.clock = true ∧ (∃ trigger, m.armed = some trigger) ∧ m.flag Eecon1.eepgd = true) ∨
      (h.lines.clock = false ∧ m.HoldsKey f))
  /-- The cycle that runs was armed last and has not run before. -/
  cycle : ∀ h trigger, t = .hold h → reply = .ok 0 → h.lines.clock = true →
    m.armed = some trigger → FlashEvent.Armed log trigger ∧ n.armed = none ∧
      (m.flag Eecon1.eepgd = true → CycleEffect p log trigger m n)
  wipe : ∀ h, t = .hold h → reply = .ok 0 → h.lines.clock = false → m.HoldsKey f →
    n.memory = m.memory.wiped

theorem isKeyed_iff {f : Family} (family : m.family = f) : m.isKeyed = true ↔ m.HoldsKey f := by
  rw [isKeyed, family, HoldsKey, List.all_eq_true]
  exact forall₂_congr fun _ _ => beq_iff_eq

theorem Tracked.cycleEffect {p : Part} (suited : Suited p s) (words : 0 < p.wordsPerWrite)
    (h : Tracked s m log) (trigger : Nat) (eepgd : m.flag Eecon1.eepgd = true) :
    CycleEffect p log trigger m (m.runCycle trigger) where
  eeprom := by
    obtain ⟨_, _, _, _, ran⟩ := m.runCycle_eq trigger
    rw [ran]
    rfl
  refused free wren := by
    have ran := m.cycled trigger
    generalize m.runCycle trigger = k at ran
    cases ran with
    | ignored _ => exact ⟨rfl, rfl⟩
    | refused _ _ => exact ⟨rfl, rfl⟩
    | erased _ _ enabled => exact absurd (enabled.symm.trans wren) (by decide)
    | configured _ other _ => exact absurd (free.symm.trans other) (by decide)
    | programmed _ other _ => exact absurd (free.symm.trans other) (by decide)
  erased free wren := by
    rw [runCycle_erase trigger eepgd free wren]
    have page : max m.setup.erasePage 1 = p.erasePage := by
      have := suited.page_pos
      rw [h.setup, suited.erasePage]
      omega
    constructor
    · obtain ⟨code, rowErases, cleared⟩ := m.freed.clearRow_eq trigger
      have kept : (m.freed.clearRow trigger).config = m.freed.config := by rw [cleared]
      exact kept
    · intro a
      have row := getElem?_clearRow (m := m.freed)
        (h.size.trans (congrArg Setup.codeSize h.setup).symm) trigger a
      rw [← page]
      exact row
  programmed free cfgs := by
    rw [runCycle_code trigger eepgd cfgs free]
    have block : m.latchSize = 2 * p.wordsPerWrite := by
      have := suited.block
      rw [latchSize, h.setup]
      omega
    refine ⟨rfl, fun a => ?_⟩
    rw [← block]
    exact getElem?_commitCode (by omega) h.offset m.code trigger a
  configured free cfgs := by
    rw [runCycle_config trigger eepgd cfgs free]
    refine ⟨rfl, size_commitConfig _ _, fun i b hb => ?_⟩
    rcases getElem?_commitConfig hb with kept | ⟨address, latched, rfl⟩
    · exact .inl kept
    · obtain ⟨beyond, data, written, value⟩ := h.config address b latched
      rw [Nat.add_sub_cancel' beyond]
      exact .inr ⟨data, written, value⟩

theorem changed_clock {t : Transfer}
    (changed : (Link.clock t m).2.code ≠ m.code ∨ (Link.clock t m).2.config ≠ m.config) :
    ∃ h, t = .hold h ∧
      ((h.lines.clock = true ∧ (∃ trigger, m.armed = some trigger) ∧
          m.flag Eecon1.eepgd = true) ∨
        (h.lines.clock = false ∧ m.isKeyed = true)) := by
  have done := does_clock m t
  generalize effect_eq : t.effect = effect at done
  generalize (Link.clock t m).2 = n at done changed
  have same (code : n.code = m.code) (config : n.config = m.config) : False :=
    changed.elim (fun h => h code) fun h => h config
  cases done with
  | execute i =>
    have kept := held_execute_eeprom m i
    have code : (m.execute i).code = m.code := congrArg (fun k : Held => k.memory.code) kept
    have config : (m.execute i).config = m.config :=
      congrArg (fun k : Held => k.memory.config) kept
    exact (same code config).elim
  | latch word pointer | arm word pointer =>
    obtain ⟨_, _, _, _, _, filled⟩ := m.latchWord_eq word
    rw [filled] at same
    exact (same rfl rfl).elim
  | cycle clock armed =>
    rename_i h trigger
    refine ⟨h, Transfer.effect_eq_hold effect_eq, .inl ⟨clock, ⟨trigger, armed⟩, ?_⟩⟩
    have ran := m.cycled trigger
    generalize m.runCycle trigger = k at ran same
    cases ran with
    | ignored _ => exact (same rfl rfl).elim
    | refused _ _ => exact (same rfl rfl).elim
    | erased eepgd _ _ | configured eepgd _ _ | programmed eepgd _ _ => exact eepgd
  | wipe clock keyed => exact ⟨_, Transfer.effect_eq_hold effect_eq, .inr ⟨clock, keyed⟩⟩
  | pass | quiet => exact (same rfl rfl).elim

theorem Tracked.guarded {p : Part} {f : Family} (suited : Suited p s)
    (words : 0 < p.wordsPerWrite) (family : m.family = f) (h : Tracked s m log) (t : Transfer) :
    FlashGuarded p f log t (Link.clock t m).1 m (Link.clock t m).2 where
  changed changed := by
    obtain ⟨hold, rfl, cause⟩ := changed_clock changed
    rw [isKeyed_iff family] at cause
    exact ⟨hold, rfl, rfl, cause⟩
  cycle hold trigger is_hold _ clock armed := by
    subst is_hold
    have ran : (Link.clock (.hold hold) m).2 = m.runCycle trigger := by
      change m.hold hold = _
      rw [Emulator.hold, if_pos clock, armed]
    rw [ran]
    exact ⟨h.armed trigger armed, armed_runCycle m trigger, h.cycleEffect suited words trigger⟩
  wipe hold is_hold _ clock keyed := by
    subst is_hold
    change (m.hold hold).memory = _
    rw [Emulator.hold, if_neg (by rw [clock]; decide), if_pos ((isKeyed_iff family).mpr keyed)]
    rfl

/-- Whatever a part has gone through since power-up, its code and configuration change only by the
cycle that was armed last, within the row or block that it was armed for or to what has been latched
for it, or by a keyed bulk erase. No cycle has run twice. -/
theorem flash_changes_guarded {p : Part} {f : Family} {s : Setup} {memory : Memory}
    (known : (f, p) ∈ Family.knownParts) (emulates : s.Emulates p) (sized : memory.Sized s)
    (limit : Option Nat) (ts : List Transfer) (t : Transfer) :
    let start := Lossy.powerUp s memory limit
    let l := Link.afterAll start ts
    let log := start.journal flashNote ts
    FlashGuarded p f log t (Link.clock t l).1 l.target (Link.clock t l).2.target ∧
      ∀ before between rest, log = before ++ .ran :: (between ++ .ran :: rest) →
        ∃ address, .armed address ∈ between := by
  intro start l log
  have suited := emulates.suited known
  have even : max s.writeBlock 2 % 2 = 0 := by
    rw [suited.block]
    omega
  have tracked : Tracked s l.target log :=
    Lossy.journal_invariant (Tracked s) (fun m noted t h => h.clock even t) ts
      (tracked_of_empty rfl sized.code rfl rfl fun _ none_armed => by cases none_armed)
  have guarded := tracked.guarded suited (Family.knownParts_layout _ known).1
    ((emulates.drives known).family_eq tracked.setup) t
  have paired : FlashEvent.Paired false log := paired_journal start ts
  constructor
  · cases lost : l.isLost with
    | true =>
      obtain ⟨reply, target⟩ := Lossy.clock_of_lost lost t
      rw [reply, target]
      exact ⟨fun changed => False.elim (changed.elim (absurd rfl) (absurd rfl)),
        fun _ _ _ ok => (by cases ok), fun _ _ ok => (by cases ok)⟩
    | false =>
      obtain ⟨reply, target⟩ := Lossy.clock_of_not_lost lost t
      rw [reply, target]
      exact guarded
  · intro before between rest split
    rw [split] at paired
    exact paired.armed_between

/-- The first row erased on a link that carries no more than that. -/
theorem flash_changes_guarded_firstRow :
    let start := Lossy.powerUp .pic18f452 (.zeroed .pic18f452) (some 5)
    let ts := [Instruction.setEepgd, .setFree, .setWren].map
      (fun i => .transmit .coreInstruction i.encode) ++ [.transmit .tableWriteStart 0]
    let l := Link.afterAll start ts
    CycleEffect .pic18f452 (start.journal flashNote ts) 0 l.target
      (Link.clock (.hold .postProgram) l).2.target :=
  ((flash_changes_guarded Part.pic18f452_mem_knownParts Setup.emulates_pic18f452
    (Memory.sized_zeroed _) (some 5) _ (.hold .postProgram)).1.cycle .postProgram 0 rfl
      rfl rfl (by decide +kernel)).2.2 (by decide +kernel)

end Emulator

end InCircuit
