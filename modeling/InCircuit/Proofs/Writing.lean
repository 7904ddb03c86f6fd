import InCircuit.Proofs.Operations

set_option autoImplicit false

/-!
# Writing an image and comparing with it

A write erases, programs block by block, and ends with the configuration. What it leaves is the
image over erased memory, and comparing the part with the image finds just that.
-/
namespace InCircuit

/-! ## What a write leaves -/

def Memory.withCode (m : Memory) (i : Image) (limit : Nat) : Memory :=
  { m with code := m.code.mapIdx fun a b =>
      if i.origin ≤ a ∧ a < limit then i.cell (a - i.origin) else b }

def Part.blockBytes (p : Part) : Nat := 2 * max p.wordsPerWrite 1

/-- The address where the image ends or its first `blocks` write blocks do. -/
def Image.reach (i : Image) (p : Part) (blocks : Nat) : Nat :=
  min ((i.origin / p.blockBytes + blocks) * p.blockBytes) (i.origin + 2 * i.words)

namespace Device

theorem getElem?_code_erased {mode : EraseMode} {prior : Memory} (a : Nat) :
    (mode.erased prior).code[a]? = if a < prior.code.size then some erased else none := by
  cases mode <;> simp only [EraseMode.erased, Memory.wiped, Array.getElem?_replicate]

def written (d : Device) (i : Image) (mode : EraseMode) (prior : Memory) : Memory :=
  ((mode.erased prior).withCode i (i.origin + 2 * i.words)).configure i d.part.configBytes

/-- The memories that a write passes through: those of the erasure, then those with the image in
some first write blocks, then those with its configuration below an offset. -/
inductive Passed (d : Device) (i : Image) (mode : EraseMode) (prior : Memory) : Memory → Prop
  | erasing {m : Memory} (h : Erasing d.part.erasePage prior mode m) : Passed d i mode prior m
  | code (blocks : Nat) :
    Passed d i mode prior ((mode.erased prior).withCode i (i.reach d.part blocks))
  | config (offset : Nat) (h : offset ≤ d.part.configBytes) : Passed d i mode prior
      (((mode.erased prior).withCode i (i.origin + 2 * i.words)).configure i offset)

variable {d : Device} {i : Image} {mode : EraseMode} {prior : Memory} {s : Setup}

theorem program_erased (limit : Nat) :
    (mode.erased prior).program i limit = (mode.erased prior).withCode i limit := by
  simp only [Memory.program, Memory.withCode]
  congr 1
  apply Array.ext_getElem?
  intro a
  simp only [Array.getElem?_mapIdx, getElem?_code_erased]
  by_cases ha : a < prior.code.size
  · simp [ha]
  · simp [ha]

theorem reach_eq (p : Part) (even : i.origin % 2 = 0) (blocks : Nat) :
    (Routine.Blocks.ofImage p i).start + 2 * min (blocks * (Routine.Blocks.ofImage p i).length)
      (Routine.Blocks.ofImage p i).stop = i.reach p blocks := by
  have stop := Routine.Blocks.start_stop p i even
  have start : (Routine.Blocks.ofImage p i).start = i.origin / p.blockBytes * p.blockBytes := by
    have := Nat.div_add_mod i.origin p.blockBytes
    have hstart : (Routine.Blocks.ofImage p i).start = i.origin - i.origin % p.blockBytes := rfl
    rw [Nat.mul_comm] at this
    omega
  have length : 2 * (blocks * (Routine.Blocks.ofImage p i).length) = blocks * p.blockBytes :=
    Nat.mul_left_comm 2 blocks _
  rw [Image.reach, Nat.add_mul]
  omega

theorem getElem?_code_written (a : Nat) :
    (d.written i mode prior).code[a]? =
      if a < prior.code.size then
        some (if i.origin ≤ a ∧ a < i.origin + 2 * i.words then i.cell (a - i.origin) else erased)
      else none := by
  simp only [written, Memory.configure, Memory.withCode, Array.getElem?_mapIdx,
    getElem?_code_erased]
  by_cases ha : a < prior.code.size
  · simp [ha]
  · simp [ha]

theorem getElem?_config_written {o : Nat} (h : o < d.part.configBytes)
    (room : o < prior.config.size) :
    (d.written i mode prior).config[o]? =
      (i.configAt? o).or (match mode with
        | .bulk => some erased
        | .pages => prior.config[o]?) := by
  simp only [written, Memory.configure, Memory.withCode, Array.getElem?_mapIdx, if_pos h]
  cases i.configAt? o <;> cases mode <;> simp [EraseMode.erased, Memory.wiped, room]

theorem eeprom_written : (d.written i mode prior).eeprom = (match mode with
    | .bulk => Array.replicate prior.eeprom.size erased
    | .pages => prior.eeprom) := by
  cases mode <;> rfl

end Device

namespace Device

open Emulator Procedure Routine

variable {d : Device} {i : Image} {s : Setup} {m : Emulator}

/-- A write that is not refused ends well, and passes through no other memories than these. -/
theorem along_write (mode : EraseMode) (drives : d.Drives s) (hm : Resting d.part s m)
    (even : i.origin % 2 = 0) (fits : i.origin + 2 * i.words ≤ d.part.codeSize) :
    (d.write i mode).run.Along (fun n => d.Passed i mode m.memory n.memory)
      (returning fun _ n => Idle s (d.written i mode m.memory) ⟨0, 0, .none⟩ n ∧
        n.mode.free = false) m := by
  unfold write
  rw [requireRoom_eq_ok.mpr fits]
  refine (goes_pure _ () m).along ?_
  refine along_seq (along_erase (P := d.Passed i mode m.memory) mode drives hm.idle hm.code hm.free
    fun k hk => .erasing hk) ?_
  rintro _ n ⟨idle_n, free_n⟩
  refine along_seq (along_programCode (P := d.Passed i mode m.memory) drives even fits idle_n
    free_n fun k => ?_) ?_
  · rw [reach_eq d.part even, program_erased]
    exact .code k
  rintro _ k ⟨idle_k, free_k⟩
  rw [program_erased] at idle_k
  exact along_programConfig (P := d.Passed i mode m.memory) drives.suited idle_k free_k
    fun o ho => .config o ho

theorem write_outcome (mode : EraseMode) (drives : d.Drives s) (hm : Resting d.part s m)
    (even : i.origin % 2 = 0) (fits : i.origin + 2 * i.words ≤ d.part.codeSize) :
    ((d.write i mode).run.outcome m).1 = .ok () ∧
      ((d.write i mode).run.outcome m).2.memory = d.written i mode m.memory ∧
      Resting d.part s ((d.write i mode).run.outcome m).2 := by
  obtain ⟨_, n, ended, idle, _⟩ := outcome_of_returning (along_write mode drives hm even fits)
  have rest : Resting d.part s _ := Along.outcome (rests_write (i := i) drives hm mode)
  rw [ended] at rest ⊢
  exact ⟨rfl, idle.memory, rest⟩

theorem along_write_odd (mode : EraseMode) (drives : d.Drives s) (hm : Resting d.part s m)
    (odd : i.origin % 2 ≠ 0) (fits : i.origin + 2 * i.words ≤ d.part.codeSize) :
    (d.write i mode).run.Along (fun _ => True)
      (fun v n => v = .error .misaligned ∧ n.memory = mode.erased m.memory) m := by
  unfold write
  rw [requireRoom_eq_ok.mpr fits]
  refine (goes_pure _ () m).along ?_
  refine along_seq (along_erase (P := fun _ => True) mode drives hm.idle hm.code hm.free
    fun _ _ => trivial) ?_
  rintro _ n ⟨idle_n, free_n⟩
  refine (along_bind _ _ _ _ _).mpr ((along_programCode_odd (P := fun _ => True) odd fits idle_n
    trivial).mono (fun _ h => h) ?_)
  rintro _ k ⟨rfl, idle_k, _⟩
  exact ⟨rfl, idle_k.memory⟩

end Device

/-! ## Comparing the part with an image -/

/-- The memory has every byte of the image, in whole words of code. -/
structure Memory.Carries (m : Memory) (d : Device) (source : Image) : Prop where
  room : 2 * source.words ≤ source.capacity
  code : ∀ o < 2 * source.words, source.byteAt? o = m.code[source.origin + o]?
  config : ∀ o < d.part.configBytes, ∀ b, source.configAt? o = some b → m.config[o]? = some b

namespace Emulator

variable {p : Part} {s : Setup} {m : Emulator}

theorem Resting.byteAt (hm : Resting p s m) (suited : Suited p s) {a : Nat} (h : a < p.codeSize) :
    m.code[a]? = some (m.byteAt a) := by
  have hs : a < m.code.size := by
    have := hm.code
    change m.code.size = _ at this
    omega
  rw [Emulator.byteAt, hm.idle.setup, if_pos (by rw [suited.codeSize]; exact h),
    Array.getD_eq_getD_getElem?, Array.getElem?_eq_getElem hs]
  rfl

theorem Resting.configByte (hm : Resting p s m) (suited : Suited p s) {o : Nat}
    (h : o < p.configBytes) : m.config[o]? = some (m.configByte o) := by
  have hs : o < m.config.size := by
    have := hm.config
    change m.config.size = _ at this
    omega
  have past : ¬ Address.config + o < m.setup.codeSize := by
    rw [hm.idle.setup, suited.codeSize]
    have := suited.low
    omega
  have inside : Address.config ≤ Address.config + o ∧
      Address.config + o < Address.config + m.setup.configBytes := by
    rw [hm.idle.setup, suited.configBytes]
    omega
  rw [Emulator.configByte, Emulator.byteAt, if_neg past, if_pos inside, Nat.add_sub_cancel_left,
    Array.getD_eq_getD_getElem?, Array.getElem?_eq_getElem hs]
  rfl

end Emulator

namespace Device

open Emulator

variable {d : Device} {s : Setup} {m : Emulator}

theorem codeRead_eq_ok {offset length : Nat} (even : offset % 2 = 0) (words : length % 2 = 0)
    (pos : length ≠ 0) (fits : offset + length ≤ d.part.codeSize) :
    ∃ r : Image, d.codeRead m offset length = .ok r ∧ r.origin = offset ∧ r.capacity = length ∧
      r.size = length ∧ r.config = Vector.replicate 32 none ∧
      ∀ o < length, r.byteAt? o = some (m.byteAt (offset + o)) := by
  have aligned : ¬ (offset % 2 ≠ 0 ∨ length % 2 ≠ 0) := by omega
  have room : d.requireRange offset length = .ok () := requireRange_eq_ok.mpr fits
  have whole : 2 * (length / 2) = length := by omega
  obtain ⟨r, put, origin, capacity, size, config, bytes⟩ :=
    Image.putCode_blank offset (m.bytesFrom offset length) (by rw [length_bytesFrom]; exact words)
  rw [length_bytesFrom] at put capacity size bytes
  refine ⟨r, ?_, origin, capacity, size, config, fun o ho => ?_⟩
  · rw [codeRead, if_neg aligned]
    change (d.readLength offset length >>= fun length => _) = _
    rw [readLength, if_neg pos]
    change (d.requireRange offset length >>= fun _ => _) = _
    rw [room]
    change (Image.blank length offset).putCode 0 (m.bytesFrom offset (2 * (length / 2))) = _
    rw [whole, put]
  · rw [bytes o ho, bytesFrom, List.getElem?_map, List.getElem?_range ho]
    rfl

theorem exists_readback (suited : Suited d.part s) (hm : Resting d.part s m) {source : Image}
    (range : source.words = 0 ∨
      source.origin % 2 = 0 ∧ source.origin + 2 * source.words ≤ d.part.codeSize) :
    ∃ r : Image, (if 2 * source.words = 0 then pure (Image.blank 0 source.origin)
        else d.codeRead m source.origin (2 * source.words)) = .ok r ∧
      r.capacity = 2 * source.words ∧
      ∀ o < 2 * source.words, r.byteAt? o = m.code[source.origin + o]? := by
  by_cases empty : 2 * source.words = 0
  · rw [if_pos empty]
    exact ⟨_, rfl, by simp [Image.blank, Image.capacity, empty], fun o ho => by omega⟩
  · rw [if_neg empty]
    obtain ⟨even, fits⟩ := range.resolve_left (by omega)
    obtain ⟨r, hr, _, capacity, _, _, bytes⟩ :=
      codeRead_eq_ok (d := d) (m := m) even (by omega) empty fits
    refine ⟨r, hr, capacity, fun o ho => ?_⟩
    rw [bytes o ho, hm.byteAt suited (by omega)]

/-- A comparison is one with the bytes of the part, as far as the image has any. -/
theorem comparison_eq_compare (suited : Suited d.part s) (hm : Resting d.part s m) {source : Image}
    (range : source.words = 0 ∨
      source.origin % 2 = 0 ∧ source.origin + 2 * source.words ≤ d.part.codeSize) :
    ∃ r : Image, d.comparison m source = d.compare source r ∧ r.capacity = 2 * source.words ∧
      (∀ o < 2 * source.words, r.byteAt? o = m.code[source.origin + o]?) ∧
      ∀ o < d.part.configBytes, ∀ b, source.configAt? o = some b →
        r.configAt? o = m.config[o]? := by
  obtain ⟨r, hr, capacity, bytes⟩ := exists_readback suited hm range
  have compared : d.comparison m source =
      d.compare source (if source.knownConfig.isEmpty then r else d.configRead m r) := by
    unfold comparison
    by_cases empty : 2 * source.words = 0
    · rw [if_pos empty] at hr ⊢
      rw [hr]
      rfl
    · rw [if_neg empty] at hr ⊢
      rw [hr]
      rfl
  refine ⟨_, compared, ?_, fun o ho => ?_, fun o ho b hb => ?_⟩
  · split <;> exact capacity
  · rw [← bytes o ho]
    split <;> rfl
  · have known : source.knownConfig.isEmpty = false := by
      rw [List.isEmpty_eq_false_iff_exists_mem]
      exact ⟨_, Image.mem_knownConfig.mpr hb⟩
    rw [known, if_neg Bool.false_ne_true, hm.configByte suited ho, configRead,
      Image.configAt?_withConfig r _ suited.configBytes_le, if_pos ho, Option.some_or]

/-- A comparison succeeds just when the part has the bytes of the image. -/
theorem comparison_agrees (suited : Suited d.part s) (hm : Resting d.part s m) {source : Image}
    (range : source.words = 0 ∨
      source.origin % 2 = 0 ∧ source.origin + 2 * source.words ≤ d.part.codeSize) :
    ∃ r : Image, d.comparison m source = d.compare source r ∧
      (d.Agrees source r ↔ m.memory.Carries d source) := by
  obtain ⟨r, compared, capacity, bytes, known⟩ := comparison_eq_compare suited hm range
  refine ⟨r, compared, ?_, ?_⟩
  · rintro ⟨room, _, code, config⟩
    refine ⟨room, fun o ho => (code o ho).trans (bytes o ho), fun o ho b hb => ?_⟩
    rw [← config o ho b hb]
    exact (known o ho b hb).symm
  · rintro ⟨room, code, config⟩
    refine ⟨room, by omega, fun o ho => (code o ho).trans (bytes o ho).symm, fun o ho b hb => ?_⟩
    rw [known o ho b hb]
    exact config o ho b hb

theorem comparison_of_carries (suited : Suited d.part s) (hm : Resting d.part s m)
    {source : Image} (even : source.origin % 2 = 0)
    (fits : source.origin + 2 * source.words ≤ d.part.codeSize)
    (carries : m.memory.Carries d source) : d.comparison m source = .ok (d.covered source) := by
  obtain ⟨r, compared, agrees⟩ := comparison_agrees suited hm (.inr ⟨even, fits⟩)
  rw [compared, compare_of_agrees (agrees.mpr carries)]

theorem comparison_of_not_carries (suited : Suited d.part s) (hm : Resting d.part s m)
    {source : Image} (even : source.origin % 2 = 0)
    (fits : source.origin + 2 * source.words ≤ d.part.codeSize)
    (differs : ¬ m.memory.Carries d source) :
    d.comparison m source = .error (.mismatch (d.covered source).total) := by
  obtain ⟨r, compared, agrees⟩ := comparison_agrees suited hm (.inr ⟨even, fits⟩)
  rw [compared, compare_of_not_agrees (mt agrees.mp differs)]

theorem carries_written {i : Image} {mode : EraseMode} {prior : Memory}
    (room : 2 * i.words ≤ i.capacity) (fits : i.origin + 2 * i.words ≤ prior.code.size)
    (config : d.part.configBytes ≤ prior.config.size) : (d.written i mode prior).Carries d i := by
  refine ⟨room, fun o ho => ?_, fun o ho b hb => ?_⟩
  · rw [getElem?_code_written, if_pos (by omega), if_pos (by omega), Nat.add_sub_cancel_left,
      Image.byteAt?_of_lt room ho]
  · rw [getElem?_config_written ho (by omega), hb]
    rfl

end Device

end InCircuit
