import InCircuit.Proofs.TableMemory
import InCircuit.Proofs.Writing

set_option autoImplicit false

/-!
# A part and a table memory that agree

An emulated part latches words and lets cycles commit them; a table memory has each byte at once.
Over erased memory both come to hold the same bytes wherever a read of the device looks, and then no
read tells one from the other.
-/
namespace InCircuit

namespace Procedure

variable {σ τ ε α β : Type} [Link σ] [Link τ]

/-- Both links bring the procedure to the same end, and `R` holds of how it leaves them. -/
def Abreast (R : α → σ → τ → Prop) (p : Procedure ε α) (m : σ) (t : τ) : Prop :=
  ∃ v m' t', p.outcome m = (v, m') ∧ p.outcome t = (v, t') ∧ R v m' t'

theorem abreast_done {R : α → σ → τ → Prop} {v : α} {m : σ} {t : τ} (h : R v m t) :
    (done v : Procedure ε α).Abreast R m t :=
  ⟨v, m, t, rfl, rfl, h⟩

theorem Abreast.bind {R : α → σ → τ → Prop} {S : β → σ → τ → Prop} {p : Procedure ε α}
    {f : α → Procedure ε β} {m : σ} {t : τ} (h : p.Abreast R m t)
    (next : ∀ v m t, R v m t → (f v).Abreast S m t) : (p >>= f).Abreast S m t := by
  obtain ⟨v, m', t', hm, ht, hR⟩ := h
  obtain ⟨w, m'', t'', hm', ht', hS⟩ := next v m' t' hR
  exact ⟨w, m'', t'', by rw [outcome_bind, hm, hm'], by rw [outcome_bind, ht, ht'], hS⟩

theorem abreast_tracked {R : α → σ → τ → Prop} {p : Procedure Mark α} {m : σ} {t : τ}
    (h : p.Abreast R m t) (tracker : Tracker) : (p.tracked tracker).Abreast R m t := by
  rw [Abreast, outcome_tracked, outcome_tracked]
  exact h

end Procedure

namespace Routine

open Procedure

variable {σ τ ε α β : Type} [Link σ] [Link τ] {m m' : σ} {t t' : τ}

def succeeding (R : α → σ → τ → Prop) : Except Fault α → σ → τ → Prop
  | .ok a, m, t => R a m t
  | .error _, _, _ => False

theorem abreast_goes {I : σ → Prop} {J : τ → Prop} {r : Routine ε α} {a : α}
    {R : α → σ → τ → Prop} (hm : Goes I r m a m') (ht : Goes J r t a t') (h : R a m' t') :
    r.run.Abreast (succeeding R) m t := by
  obtain ⟨_, _, part, rfl, rfl⟩ := outcome_of_returning hm
  obtain ⟨_, _, table, rfl, rfl⟩ := outcome_of_returning ht
  exact ⟨_, _, _, part, table, h⟩

theorem abreast_seq {R : α → σ → τ → Prop} {S : Except Fault β → σ → τ → Prop} {r : Routine ε α}
    {f : α → Routine ε β} (h : r.run.Abreast (succeeding R) m t)
    (next : ∀ a m t, R a m t → (f a).run.Abreast S m t) : (r >>= f).run.Abreast S m t := by
  refine Abreast.bind (f := ExceptT.bindCont f) h ?_
  rintro (e | a) m t hR
  · exact hR.elim
  · exact next a m t hR

variable {K : σ → τ → Prop}

/-- What holds of both links all the way holds whether or not there is a fault. -/
theorem abreast_bind {r : Routine ε α} {f : α → Routine ε β} (h : r.run.Abreast (fun _ => K) m t)
    (next : ∀ a m t, K m t → (f a).run.Abreast (fun _ => K) m t) :
    (r >>= f).run.Abreast (fun _ => K) m t := by
  refine Abreast.bind (f := ExceptT.bindCont f) h ?_
  rintro (e | a) m t hK
  · exact abreast_done hK
  · exact next a m t hK

theorem abreast_mk (v : Except Fault α) (h : K m t) :
    (ExceptT.mk (pure v) : Routine ε α).run.Abreast (fun _ => K) m t :=
  abreast_done h

theorem abreast_emit {f : Unit → Routine ε α} {S : Except Fault α → σ → τ → Prop} (e : ε)
    (h : (f ()).run.Abreast S m t) : (emit e >>= f).run.Abreast S m t :=
  abreast_seq (R := fun _ k l => k = m ∧ l = t)
    (abreast_goes (goes_emit (fun _ => True) e m) (goes_emit (fun _ => True) e t) ⟨rfl, rfl⟩)
    fun _ _ _ same => by
      obtain ⟨rfl, rfl⟩ := same
      exact h

end Routine

/-! ## Reading -/

def Part.Readable (p : Part) (a : Nat) : Prop :=
  a < p.codeSize ∨ Address.config ≤ a ∧ a < Address.config + p.configBytes ∨
    Address.deviceId ≤ a ∧ a ≤ Address.deviceId + 1

/-- The control register that one family sets before programming is not read. -/
theorem Part.Readable.ne_panelControl {p : Part} {s : Setup} {a : Nat} (h : p.Readable a)
    (suited : Suited p s) : a ≠ Address.panelControl := by
  have hconfig : Address.config = 3145728 := rfl
  have hpanel : Address.panelControl = 3932166 := rfl
  have hid : Address.deviceId = 4194302 := rfl
  have code := suited.low
  have config := suited.configBytes_le
  rw [Part.Readable] at h
  omega

def Alike (p : Part) (m : Emulator) (t : TableMemory) : Prop :=
  ∀ a, p.Readable a → m.byteAt a = t.byte a

structure AlikeAt (p : Part) (address : Nat) (m : Emulator) (t : TableMemory) : Prop where
  alike : Alike p m t
  part : m.pointer = address
  table : t.pointer = address

namespace Routine

open Procedure

variable {ε : Type} {p : Part} {m : Emulator} {t : TableMemory} {address : Nat}

theorem abreast_setPointer (h : address ≤ Address.last) (alike : Alike p m t) :
    (setPointer address : Routine ε Unit).run.Abreast (succeeding fun _ => AlikeAt p address) m t :=
  abreast_goes (goes_setPointer (I := fun _ => True) h fun _ _ => trivial)
    (goes_table_setPointer h t) ⟨alike, rfl, rfl⟩

theorem abreast_nextByte (at_address : AlikeAt p address m t) (readable : p.Readable address)
    (room : address + 1 < 16777216) :
    (nextByte : Routine ε UInt8).run.Abreast (succeeding fun _ => AlikeAt p (address + 1)) m t := by
  obtain ⟨alike, rfl, table⟩ := at_address
  have served : Goes (fun _ => True) (nextByte : Routine ε UInt8) t (m.byteAt m.pointer)
      (t.advance 1) := by
    rw [alike _ readable, ← table]
    exact goes_table _ t rfl
  refine abreast_goes (goes_nextByte (I := fun _ => True) fun _ _ => trivial) served
    ⟨alike, Nat.mod_eq_of_lt room, ?_⟩
  change (t.pointer + 1) % 4294967296 = _
  rw [table, Nat.mod_eq_of_lt (by omega)]

theorem abreast_readWords (count : Nat) (bytes : Array UInt8) (at_address : AlikeAt p address m t)
    (readable : ∀ a, address ≤ a → a < address + 2 * count → p.Readable a)
    (room : address + 2 * count < 16777216) :
    (readWords count bytes).run.Abreast (succeeding fun _ => Alike p) m t := by
  induction count generalizing address bytes m t with
  | zero => exact abreast_done at_address.alike
  | succ count ih =>
    refine abreast_seq (abreast_nextByte at_address (readable _ (by omega) (by omega)) (by omega))
      fun low m t here => ?_
    refine abreast_seq (abreast_nextByte here (readable _ (by omega) (by omega)) (by omega))
      fun high m t here => ?_
    exact abreast_emit _ (ih _ here (fun a low high => readable a (by omega) (by omega)) (by omega))

variable {d : Device}

theorem abreast_readCode (low : d.part.codeSize ≤ Address.config) (offset size : Nat)
    (alike : Alike d.part m t) :
    (readCode d offset size).run.Abreast (fun _ => Alike d.part) m t := by
  have hlast : Address.last = 16777215 := rfl
  have hconfig : Address.config = 3145728 := rfl
  unfold readCode
  by_cases odd : offset % 2 ≠ 0 ∨ size % 2 ≠ 0
  · rw [if_pos odd]
    exact abreast_mk _ alike
  rw [if_neg odd]
  refine abreast_bind (abreast_mk _ alike) fun length m t alike => ?_
  cases range : d.requireRange offset length with
  | error e => exact abreast_mk _ alike
  | ok u =>
    have fits := Device.requireRange_eq_ok.mp range
    refine abreast_bind (abreast_mk (.ok u) alike) fun _ m t alike => ?_
    refine abreast_seq (abreast_setPointer (by omega) alike) fun _ m t here => ?_
    refine abreast_emit _ (abreast_seq (abreast_readWords _ _ here
      (fun a low high => .inl (by omega)) (by omega)) fun bytes m t alike => ?_)
    exact abreast_emit _ (abreast_mk _ alike)

theorem abreast_readConfigFrom (count offset : Nat) (i : Image)
    (room : offset + count ≤ d.part.configBytes) (small : d.part.configBytes ≤ 32)
    (here : AlikeAt d.part (Address.config + offset) m t) :
    (readConfigFrom count offset i : Procedure ε _).Abreast (fun _ => Alike d.part) m t := by
  have hconfig : Address.config = 3145728 := rfl
  induction count generalizing offset i m t with
  | zero => exact abreast_done here.alike
  | succ count ih =>
    have served := abreast_nextByte (ε := ε) here (.inr (.inl (by omega))) (by omega)
    refine Abreast.bind served ?_
    rintro (e | b) m t next
    · exact next.elim
    · cases put : i.putConfig offset b with
      | error e =>
        simp only [put]
        exact abreast_done next.alike
      | ok j =>
        simp only [put]
        exact ih _ _ (by omega) next

theorem abreast_fillConfig (configAddress : d.part.configAddress = Address.config)
    (small : d.part.configBytes ≤ 32) (i : Image) (alike : Alike d.part m t) :
    (fillConfig d i : Procedure ε _).Abreast (fun _ => Alike d.part) m t := by
  unfold fillConfig
  rw [configAddress]
  refine Abreast.bind (abreast_setPointer (ε := ε) (by decide) alike) ?_
  rintro (e | u) m t here
  · exact here.elim
  · exact abreast_readConfigFrom _ 0 i (by omega) small here

theorem abreast_readConfig (configAddress : d.part.configAddress = Address.config)
    (small : d.part.configBytes ≤ 32) (i : Image) (alike : Alike d.part m t) :
    (readConfig d i : Routine ε Image).run.Abreast (fun _ => Alike d.part) m t :=
  (abreast_fillConfig configAddress small i alike).bind fun _ _ _ alike => abreast_done alike

theorem abreast_fetchDeviceId (alike : Alike p m t) :
    (fetchDeviceId : Routine ε UInt16).run.Abreast (fun _ => Alike p) m t := by
  refine abreast_seq (abreast_setPointer (by decide) alike) fun _ m t here => ?_
  refine abreast_seq (abreast_nextByte here (.inr (.inr (by omega))) (by decide))
    fun low m t here => ?_
  refine abreast_seq (abreast_nextByte here (.inr (.inr (by omega))) (by decide))
    fun high m t here => ?_
  exact abreast_mk _ here.alike

end Routine

namespace Device

open Procedure Routine

variable {d : Device} {p : Part} {m : Emulator} {t : TableMemory}

theorem abreast_identify (alike : Alike p m t) :
    identify.run.Abreast (fun _ => Alike p) m t :=
  abreast_bind (abreast_fetchDeviceId alike) fun _ _ _ alike => abreast_mk _ alike

theorem abreast_readCode (low : d.part.codeSize ≤ Address.config) (offset size : Nat)
    (alike : Alike d.part m t) :
    (d.readCode offset size).run.Abreast (fun _ => Alike d.part) m t :=
  abreast_tracked (Routine.abreast_readCode low offset size alike) _

theorem abreast_readAll {s : Setup} (suited : Suited d.part s) (offset size : Nat)
    (alike : Alike d.part m t) :
    (d.readAll offset size false).run.Abreast (fun _ => Alike d.part) m t := by
  refine abreast_bind (abreast_readCode suited.low offset size alike) fun i m t alike => ?_
  refine abreast_bind (abreast_readConfig suited.configAddress suited.configBytes_le i alike)
    fun i m t alike => ?_
  exact abreast_mk (.ok i) alike

theorem abreast_verify {s : Setup} (suited : Suited d.part s) (source : Image)
    (alike : Alike d.part m t) : (d.verify source).run.Abreast (fun _ => Alike d.part) m t := by
  have finish (r : Image) (m : Emulator) (t : TableMemory) (alike : Alike d.part m t) :
      (d.finishVerify source r).run.Abreast (fun _ => Alike d.part) m t := by
    unfold finishVerify
    split
    · exact abreast_mk _ alike
    · exact abreast_bind (abreast_readConfig suited.configAddress suited.configBytes_le r alike)
        fun _ _ _ alike => abreast_mk _ alike
  rw [verify_eq_finish]
  split
  · exact finish _ m t alike
  · exact abreast_bind (abreast_readCode suited.low _ _ alike) finish

end Device

/-! ## Programming -/

namespace Emulator

open Routine

variable {p : Part} {s : Setup} {m n : Emulator} {i : Image}

theorem Resting.byteAt_program (hm : Resting p s m) (hn : Resting p s n) (suited : Suited p s)
    {limit : Nat} (fits : limit ≤ p.codeSize) (stored : n.memory = m.memory.program i limit)
    (a : Nat) : n.byteAt a =
      if i.origin ≤ a ∧ a < limit then m.byteAt a &&& i.cell (a - i.origin) else m.byteAt a := by
  have code : n.code = _ := congrArg Memory.code stored
  have config : n.config = m.config := congrArg Memory.config stored
  by_cases inside : a < p.codeSize
  · apply Option.some.inj
    rw [← hn.byteAt suited inside, code, Memory.program, Array.getElem?_mapIdx]
    change (m.code[a]?).map _ = _
    rw [hm.byteAt suited inside, Option.map_some]
  · have past : ¬ a < s.codeSize := by rwa [suited.codeSize]
    rw [if_neg (by omega), Emulator.byteAt, Emulator.byteAt, hm.idle.setup, hn.idle.setup, config,
      if_neg past, if_neg past]

theorem Resting.byteAt_configure (hm : Resting p s m) (hn : Resting p s n) (suited : Suited p s)
    (stored : n.memory = m.memory.configure i p.configBytes) :
    n.byteAt = configured i 0 p.configBytes m.byteAt := by
  have code : n.code = m.code := congrArg Memory.code stored
  have config : n.config = _ := congrArg Memory.config stored
  funext a
  rw [configured, Nat.add_zero]
  by_cases inside : Address.config ≤ a ∧ a < Address.config + p.configBytes
  · have low : a - Address.config < p.configBytes := by omega
    have here : Address.config + (a - Address.config) = a := Nat.add_sub_cancel' inside.1
    have before := hm.configByte suited low
    have after := hn.configByte suited low
    rw [Emulator.configByte, here] at before after
    apply Option.some.inj
    rw [if_pos inside, ← after, config, Memory.configure, Array.getElem?_mapIdx]
    change (m.config[a - Address.config]?).map _ = _
    rw [before, Option.map_some, if_pos low]
  · have outside : ¬ (Address.config ≤ a ∧ a < Address.config + s.configBytes) := by
      rwa [suited.configBytes]
    rw [if_neg inside, Emulator.byteAt, Emulator.byteAt, hm.idle.setup, hn.idle.setup, code,
      if_neg outside, if_neg outside]

end Emulator

namespace Device

open Emulator Procedure Routine

variable {d : Device} {s : Setup} {i : Image} {m : Emulator} {t : TableMemory}

theorem abreast_programCode (drives : d.Drives s) (hm : Resting d.part s m)
    (even : i.origin % 2 = 0) (fits : i.origin + 2 * i.words ≤ d.part.codeSize)
    (blank : ∀ a < d.part.codeSize, m.byteAt a = erased) (alike : Alike d.part m t) :
    (d.programCode i).run.Abreast (succeeding fun _ m' t' => Alike d.part m' t' ∧
      Resting d.part s m' ∧ m'.memory = m.memory.program i (i.origin + 2 * i.words)) m t := by
  have low := drives.suited.low
  have table : (d.programCode i).run.Along (fun _ => True)
      (returning fun _ n => ∀ a ≠ Address.panelControl, n.byte a = coded d.part i t.byte a) t := by
    unfold programCode
    rw [requireRoom_eq_ok.mpr fits]
    exact (along_tracked _ _ t _ _).mpr (along_table_programCode d.family even (by omega) t)
  obtain ⟨_, n, part, idle, _⟩ := outcome_of_returning
    (along_programCode (P := fun _ => True) drives even fits hm.idle hm.free fun _ => trivial)
  obtain ⟨_, k, table, bytes⟩ := outcome_of_returning table
  have hn : Resting d.part s _ := Along.outcome (rests_programCode (i := i) drives hm)
  rw [part] at hn
  refine ⟨.ok (), n, k, part, table, fun a readable => ?_, hn, idle.memory⟩
  have lead := Blocks.start_lead d.part i even
  rw [hm.byteAt_program hn drives.suited fits idle.memory,
    bytes a (readable.ne_panelControl drives.suited), coded, ← alike a readable]
  by_cases inside : i.origin ≤ a ∧ a < i.origin + 2 * i.words
  · rw [if_pos inside, if_pos (by omega), if_pos inside.1, blank a (by omega),
      Memory.erased_and]
  · -- The words before the image in its first block are erased ones: the part clears no bit for
    -- them, and the table memory stores what was there.
    rw [if_neg inside]
    split
    · rw [if_neg (by omega), blank a (by omega)]
    · rfl

theorem abreast_programConfig (drives : d.Drives s) (hm : Resting d.part s m)
    (alike : Alike d.part m t) :
    (d.programConfig i).run.Abreast (succeeding fun _ m' t' => Alike d.part m' t' ∧
      Resting d.part s m' ∧ m'.memory = m.memory.configure i d.part.configBytes) m t := by
  obtain ⟨_, n, part, idle, _⟩ := outcome_of_returning (along_programConfig (ε := Report)
    (P := fun _ => True) (i := i) drives.suited hm.idle hm.free fun _ _ => trivial)
  obtain ⟨_, k, table, bytes⟩ := outcome_of_returning (stores_programConfig (ε := Report) i
    drives.suited.configAddress drives.suited.configBytes_le t)
  have hn : Resting d.part s _ := Along.outcome (rests_programConfig (i := i) drives hm)
  rw [programConfig, part] at hn
  refine ⟨.ok (), n, k, part, table, fun a readable => ?_, hn, idle.memory⟩
  rw [hm.byteAt_configure hn drives.suited idle.memory, bytes, configured, configured,
    alike a readable]

end Device

end InCircuit
