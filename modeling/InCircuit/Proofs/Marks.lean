import InCircuit.Proofs.Image.Built
import InCircuit.Proofs.Parts
import InCircuit.Proofs.Progress
import InCircuit.Proofs.Runs

set_option autoImplicit false

/-!
# The marks of a routine

Which marks a run makes is a matter of how far it gets. A routine that is through has made the marks
of its plan, and one that a fault has ended has made some of the first of them, never all. So the
last mark of the loop of an operation is a sign that the loop is through.
-/
namespace InCircuit

namespace Procedure

variable {σ ε α β : Type}

section

variable [Link σ]

def announced : Procedure ε α → σ → List ε
  | done _, _ => []
  | emit e next, m => e :: next.announced m
  | clock t next, m => (next (Link.clock t m).1).announced (Link.clock t m).2

theorem run_announced (p : Procedure ε α) (m : σ) (events : Array ε) :
    (p.run m events).events = events ++ (p.announced m).toArray := by
  induction p generalizing m events with
  | done a => exact (Array.append_empty).symm
  | emit e next ih =>
    refine (ih m (events.push e)).trans ?_
    simp [announced]
  | clock t next ih => exact ih _ _ events

theorem announced_bind (p : Procedure ε α) (f : α → Procedure ε β) (m : σ) :
    (p >>= f).announced m =
      p.announced m ++ (f (p.outcome m).1).announced (p.outcome m).2 := by
  induction p generalizing m with
  | done a => rfl
  | emit e next ih => exact congrArg (e :: ·) (ih m)
  | clock t next ih => exact ih _ _

theorem announced_tracked (p : Procedure Mark α) (t : Tracker) (m : σ) :
    (p.tracked t).announced m = t.reports (p.announced m) := by
  induction p generalizing t m with
  | done a => rfl
  | emit e next ih =>
    simp only [tracked, announced, Tracker.reports]
    obtain ⟨next_t, _ | r⟩ := t.step e
    · exact ih next_t m
    · exact congrArg (r :: ·) (ih next_t m)
  | clock x next ih => exact ih _ t _

end

/-- However its transfers are answered, `Q` holds of the value of a run and its events. -/
def Emits (Q : α → List ε → Prop) : Procedure ε α → Prop
  | done a => Q a []
  | emit e next => next.Emits fun a es => Q a (e :: es)
  | clock _ next => ∀ reply, (next reply).Emits Q

variable {Q R : α → List ε → Prop} {p : Procedure ε α}

theorem Emits.mono (h : p.Emits Q) (hQ : ∀ a es, Q a es → R a es) : p.Emits R := by
  induction p generalizing Q R with
  | done a => exact hQ a [] h
  | emit e next ih => exact ih h fun a es => hQ a (e :: es)
  | clock t next ih => exact fun reply => ih reply (h reply) hQ

theorem emits_bind {f : α → Procedure ε β} {Q : β → List ε → Prop} :
    (p >>= f).Emits Q ↔ p.Emits fun a es => (f a).Emits fun b later => Q b (es ++ later) := by
  induction p generalizing Q with
  | done a => rfl
  | emit e next ih => exact ih
  | clock t next ih => exact forall_congr' fun reply => ih reply

theorem Emits.outcome [Link σ] (h : p.Emits Q) (m : σ) : Q (p.outcome m).1 (p.announced m) := by
  induction p generalizing m Q with
  | done a => exact h
  | emit e next ih => exact ih h m
  | clock t next ih => exact ih _ (h _) _

end Procedure

namespace Routine

open Procedure

variable {ε α β : Type} {r : Routine ε α} {f : α → Routine ε β}

theorem announced_filled {σ : Type} [Link σ] (p : Procedure ε (Except Fault Unit × α)) (m : σ) :
    (filled p).run.announced m = p.announced m :=
  (p.announced_bind _ m).trans (List.append_nil _)

theorem emits_bind {Q : Except Fault β → List ε → Prop}
    (h : r.run.Emits fun v es => match v with
      | .ok a => (f a).run.Emits fun w later => Q w (es ++ later)
      | .error e => Q (.error e) es) : (r >>= f).run.Emits Q := by
  refine (Procedure.emits_bind (f := ExceptT.bindCont f)).mpr (h.mono ?_)
  rintro (e | a) es hQ
  · change Q (.error e) (es ++ [])
    rw [List.append_nil]
    exact hQ
  · exact hQ

/-! ## Routines without events -/

def Silent (r : Routine ε α) : Prop := r.run.Emits fun _ es => es = []

theorem Silent.emits_bind {Q : Except Fault β → List ε → Prop} (h : Silent r)
    (fault : ∀ e, Q (.error e) []) (next : ∀ a, (f a).run.Emits Q) : (r >>= f).run.Emits Q := by
  refine Routine.emits_bind (h.mono ?_)
  rintro (e | a) _ rfl
  · exact fault e
  · exact next a

theorem Silent.bind (h : Silent r) (next : ∀ a, Silent (f a)) : Silent (r >>= f) :=
  h.emits_bind (fun _ => rfl) next

theorem silent_mk (v : Except Fault α) : Silent (ExceptT.mk (pure v) : Routine ε α) := rfl

theorem silent_clock (t : Transfer) : Silent (clock t : Routine ε UInt8) := fun _ => rfl

theorem silent_transmit (c : Command) (data : UInt16) :
    Silent (transmit c data : Routine ε Unit) :=
  (silent_clock _).bind fun _ => silent_mk _

theorem silent_execute (i : Instruction) : Silent (execute i : Routine ε Unit) :=
  silent_transmit _ _

theorem silent_executeAll (is : List Instruction) : Silent (executeAll is : Routine ε Unit) := by
  unfold executeAll
  induction is.map Instruction.encode with
  | nil => exact silent_mk _
  | cons w words ih => exact (silent_transmit _ w).bind fun _ => ih

theorem silent_load (register : Register) (value : UInt8) :
    Silent (load register value : Routine ε Unit) :=
  (silent_execute _).bind fun _ => silent_execute _

theorem silent_setPointer (address : Nat) : Silent (setPointer address : Routine ε Unit) := by
  unfold setPointer
  split
  · exact silent_mk _
  · exact (silent_load _ _).bind fun _ => (silent_load _ _).bind fun _ => silent_load _ _

theorem silent_storeWord (address : Nat) (data : UInt16) :
    Silent (storeWord address data : Routine ε Unit) :=
  (silent_setPointer _).bind fun _ => silent_transmit _ _

theorem silent_delay (micros : UInt32) : Silent (delay micros : Routine ε Unit) :=
  (silent_clock _).bind fun _ => silent_mk _

theorem silent_postProgram : Silent (postProgram : Routine ε Unit) :=
  ((silent_clock _).bind fun _ => silent_mk _).bind fun _ => (silent_delay _).bind fun _ =>
    (silent_clock _).bind fun _ => silent_mk _

theorem silent_loadBuffer (ws : List UInt16) : Silent (loadBuffer ws : Routine ε Unit) := by
  induction ws with
  | nil => exact silent_mk _
  | cons w ws ih =>
    cases ws with
    | nil => exact silent_transmit _ w
    | cons v ws => exact (silent_transmit _ w).bind fun _ => ih

theorem silent_pointEeprom (address : Nat) : Silent (pointEeprom address : Routine ε Unit) :=
  (silent_load _ _).bind fun _ => silent_load _ _

theorem silent_waitWritten (tries : Nat) : Silent (waitWritten tries : Routine ε Unit) := by
  induction tries with
  | zero => exact silent_mk _
  | succ tries ih =>
    refine (silent_executeAll _).bind fun _ => (silent_clock _).bind fun eecon1 => ?_
    split
    · exact (silent_delay _).bind fun _ => ih
    · exact silent_mk _

theorem silent_writeEepromByte (address : Nat) (byte : UInt8) :
    Silent (writeEepromByte address byte : Routine ε Unit) :=
  (silent_pointEeprom _).bind fun _ => (silent_load _ _).bind fun _ =>
    (silent_execute _).bind fun _ => (silent_load _ _).bind fun _ =>
    (silent_load _ _).bind fun _ => (silent_execute _).bind fun _ => silent_waitWritten _

/-! ## Loops -/

/-- If it is not ended by a fault, the routine has the marks of its plan and a value with `P`. If it
is, it has some of the first of them, and not all. -/
def Marks (r : Routine ε α) (P : α → Prop) (plan : List ε) : Prop :=
  r.run.Emits fun v es => match v with
    | .ok a => P a ∧ es = plan
    | .error _ => ∃ e later, plan = es ++ e :: later

variable {P : α → Prop} {R : β → Prop} {e : ε} {plan : List ε}

theorem marks_pure {a : α} (h : P a) : Marks (pure a : Routine ε α) P [] := ⟨h, rfl⟩

theorem Silent.marks_bind (h : Silent r) (next : ∀ a, Marks (f a) R (e :: plan)) :
    Marks (r >>= f) R (e :: plan) :=
  h.emits_bind (fun _ => ⟨e, plan, rfl⟩) next

theorem marks_emit_bind {f : Unit → Routine ε β} (next : Marks (f ()) R plan) :
    Marks (emit e >>= f) R (e :: plan) := by
  refine Routine.emits_bind (next.mono ?_)
  rintro (fault | b) es ended
  · obtain ⟨x, later, rfl⟩ := ended
    exact ⟨x, later, rfl⟩
  · exact ⟨ended.1, congrArg _ ended.2⟩

theorem marks_readWords (count : Nat) (bytes : Array UInt8) :
    Marks (readWords count bytes) (fun read => read.size = bytes.size + count * 2)
      ((List.range' (bytes.size + 2) count 2).map .reached) := by
  induction count generalizing bytes with
  | zero => exact marks_pure (by omega)
  | succ count ih =>
    refine (silent_clock _).marks_bind fun low => (silent_clock _).marks_bind fun high => ?_
    -- The marks are counted by the bytes read, so the plan of the rest is that of the longer array.
    have size : ((bytes.push low).push high).size = bytes.size + 2 := by simp
    have rest := ih ((bytes.push low).push high)
    simp only [size] at rest ⊢
    exact marks_emit_bind (rest.mono fun v es h => by
      cases v with
      | ok read => exact ⟨by omega, h.2⟩
      | error fault => exact h)

theorem marks_readEepromFrom (count address : Nat) (bytes : Array UInt8) :
    Marks (readEepromFrom count address bytes) (fun read => read.size = bytes.size + count)
      ((List.range' (address + 1) count 1).map .reached) := by
  induction count generalizing address bytes with
  | zero => exact marks_pure rfl
  | succ count ih =>
    refine (silent_pointEeprom _).marks_bind fun _ => (silent_executeAll _).marks_bind fun _ =>
      (silent_clock _).marks_bind fun byte => ?_
    have size : (bytes.push byte).size = bytes.size + 1 := by simp
    have rest := ih (address + 1) (bytes.push byte)
    simp only [size] at rest
    exact marks_emit_bind (rest.mono fun v es h => by
      cases v with
      | ok read => exact ⟨by omega, h.2⟩
      | error fault => exact h)

theorem marks_writeEepromFrom (address : Nat) (bytes : List UInt8) :
    Marks (writeEepromFrom address bytes) (fun _ => True)
      ((List.range' (address + 1) bytes.length 1).map .reached) := by
  induction bytes generalizing address with
  | nil => exact marks_pure trivial
  | cons b bytes ih =>
    exact (silent_writeEepromByte _ _).marks_bind fun _ => marks_emit_bind (ih (address + 1))

theorem marks_erasePagesFrom (page count address : Nat) :
    Marks (erasePagesFrom page count address) (fun _ => True)
      ((List.range' (address + page) count page).map .reached) := by
  induction count generalizing address with
  | zero => exact marks_pure trivial
  | succ count ih =>
    exact (silent_executeAll _).marks_bind fun _ => (silent_setPointer _).marks_bind fun _ =>
      (silent_transmit _ _).marks_bind fun _ => silent_postProgram.marks_bind fun _ =>
      marks_emit_bind (ih (address + page))

def Blocks.programmed (b : Blocks) (slot : Nat) : Nat := 2 * (min slot b.stop - b.lead)

theorem marks_blocks (b : Blocks) (i : Image) (count slot : Nat) :
    Marks (b.program i count (min slot b.stop)) (fun _ => True)
      (((List.range' (slot + b.length) count b.length).map b.programmed).map .reached) := by
  induction count generalizing slot with
  | zero => exact marks_pure trivial
  | succ count ih =>
    have next : min slot b.stop + min b.length (b.stop - min slot b.stop) =
        min (slot + b.length) b.stop := by omega
    unfold Blocks.program
    simp only [next]
    exact (silent_setPointer _).marks_bind fun _ => (silent_loadBuffer _).marks_bind fun _ =>
      silent_postProgram.marks_bind fun _ => marks_emit_bind (ih (slot + b.length))

/-! ## Whole operations -/

/-- The routine starts, makes the marks `us` and finishes. If a fault ends it, it has not started or
not made the last of the marks. -/
def Tracks (r : Routine Mark α) (us : List Nat) : Prop :=
  r.run.Emits fun v es => match v with
    | .ok _ => es = .start :: (us.map .reached ++ [.finish])
    | .error _ => es = [] ∨
      ∃ before u after, us = before ++ u :: after ∧ es = .start :: before.map .reached

section

variable {r : Routine Mark α} {f : α → Routine Mark β} {P : α → Prop} {us : List Nat}

theorem tracks_throw (fault : Fault) :
    Tracks (ExceptT.mk (pure (.error fault)) : Routine Mark α) us :=
  .inl rfl

theorem Silent.tracks_bind (h : Silent r) (next : ∀ a, Tracks (f a) us) : Tracks (r >>= f) us :=
  h.emits_bind (fun _ => .inl rfl) next

/-- All that comes after the loop is the end, which does not fail. -/
theorem Marks.tracks (h : Marks r P (us.map .reached))
    (next : ∀ a, P a → (f a).run.Emits fun v es => (∃ b, v = .ok b) ∧ es = [.finish]) :
    Tracks (emit .start >>= fun _ => r >>= f) us := by
  have loop : (r >>= f).run.Emits fun v es => match v with
      | .ok _ => es = us.map .reached ++ [.finish]
      | .error _ => ∃ before u after, us = before ++ u :: after ∧ es = before.map .reached := by
    refine Routine.emits_bind (h.mono ?_)
    rintro (fault | a) es ended
    · obtain ⟨e, later, shape⟩ := ended
      obtain ⟨before, rest, rfl, rfl, tail⟩ := List.map_eq_append_iff.mp shape
      obtain ⟨u, after, rfl, -, -⟩ := List.map_eq_cons_iff.mp tail
      exact ⟨before, u, after, rfl, rfl⟩
    · obtain ⟨brought, rfl⟩ := ended
      refine (next a brought).mono ?_
      rintro _ _ ⟨⟨b, rfl⟩, rfl⟩
      rfl
  refine Routine.emits_bind (loop.mono ?_)
  rintro (fault | b) es ended
  · obtain ⟨before, u, after, shape, rfl⟩ := ended
    exact .inr ⟨before, u, after, shape, rfl⟩
  · exact congrArg _ ended

end

def ends (total size : Nat) : List Nat := List.range' size (pieces total size) size

theorem rises_ends {total step size stop : Nat} {g : Nat → Nat} (positive : 0 < size)
    (near : ∀ x, g (x + size) ≤ g x + step) (early : ∀ x, x < stop → total = 0 ∨ g x < total)
    (late : ∀ x, stop ≤ x → total ≤ g x) :
    Tracker.Rises total step (g 0) ((ends stop size).map g) := by
  have rises := Tracker.rises_range' near early late (pieces stop size) 0
    (by rw [Nat.zero_add]; exact le_pieces_mul stop positive)
    (by rw [Nat.zero_add]; exact pieces_mul_lt stop positive)
  rwa [Nat.zero_add] at rises

theorem rises_ends_self (total : Nat) {size : Nat} (positive : 0 < size) :
    Tracker.Rises total size 0 (ends total size) := by
  have rises : Tracker.Rises total size 0 ((ends total size).map id) :=
    rises_ends positive (fun x => Nat.le_refl _) (fun x below => .inr below) fun x up => up
  rwa [List.map_id] at rises

theorem ends_one (total : Nat) : ends total 1 = List.range' 1 total 1 :=
  congrArg (List.range' 1 · 1) (Nat.div_one total)

theorem ends_two {total : Nat} (even : total % 2 = 0) :
    ends total 2 = List.range' 2 (total / 2) 2 := by
  have count : pieces total 2 = total / 2 := by
    change (total + 1) / 2 = total / 2
    omega
  rw [ends, count]

theorem tracks_eraseByPage (p : Part) :
    Tracks (eraseByPage p) (ends p.codeSize (max p.erasePage 1)) := by
  have loop := marks_erasePagesFrom (max p.erasePage 1) (pieces p.codeSize (max p.erasePage 1)) 0
  rw [Nat.zero_add] at loop
  exact loop.tracks fun _ _ => ⟨⟨(), rfl⟩, rfl⟩

def Blocks.marks (b : Blocks) : List Nat := (ends b.stop b.length).map b.programmed

theorem rises_blocks (p : Part) (i : Image) :
    Tracker.Rises i.size (2 * max p.wordsPerWrite 1) 0 (Blocks.ofImage p i).marks := by
  have length : (Blocks.ofImage p i).length = max p.wordsPerWrite 1 := rfl
  have stop : (Blocks.ofImage p i).stop = (Blocks.ofImage p i).lead + (i.size + 1) / 2 := rfl
  have positive : 0 < (Blocks.ofImage p i).length := by omega
  have near (x : Nat) : (Blocks.ofImage p i).programmed (x + (Blocks.ofImage p i).length) ≤
      (Blocks.ofImage p i).programmed x + 2 * max p.wordsPerWrite 1 := by
    simp only [Blocks.programmed]
    omega
  have early (x : Nat) (below : x < (Blocks.ofImage p i).stop) :
      i.size = 0 ∨ (Blocks.ofImage p i).programmed x < i.size := by
    simp only [Blocks.programmed]
    omega
  have late (x : Nat) (up : (Blocks.ofImage p i).stop ≤ x) :
      i.size ≤ (Blocks.ofImage p i).programmed x := by
    simp only [Blocks.programmed]
    omega
  have rises := rises_ends positive near early late
  have first : (Blocks.ofImage p i).programmed 0 = 0 := by
    rw [Blocks.programmed, Nat.zero_min, Nat.zero_sub]
  rwa [first] at rises

theorem tracks_programBlocks (p : Part) (i : Image) :
    Tracks (programBlocks p i) (Blocks.ofImage p i).marks := by
  unfold programBlocks
  split
  · exact tracks_throw _
  · have loop := marks_blocks (Blocks.ofImage p i) i
      (pieces (Blocks.ofImage p i).stop (Blocks.ofImage p i).length) 0
    rw [Nat.zero_min, Nat.zero_add] at loop
    exact loop.tracks fun _ _ => ⟨⟨(), rfl⟩, rfl⟩

/-- The image has room for what was scanned, so its write is no fault after the last mark. -/
theorem tracks_fillEeprom {p : Part} (room : p.eepromBytes ≤ Image.eepromCapacity) (i : Image) :
    Tracks (filled (fillEeprom p i)) (ends p.eepromBytes 1) := by
  rw [filled_fillEeprom, ends_one]
  simp only [scanEeprom, bind_assoc, pure_bind]
  refine (silent_executeAll _).tracks_bind fun _ =>
    (marks_readEepromFrom p.eepromBytes 0 #[]).tracks fun bytes read => ?_
  have fits : ¬ Image.eepromCapacity < 0 + bytes.toList.length := by
    rw [Array.length_toList, read]
    simpa using room
  exact ⟨⟨_, if_neg fits⟩, rfl⟩

def readTotal (p : Part) (offset size : Nat) : Nat := if size = 0 then p.codeSize - offset else size

theorem readLength_eq {d : Device} {offset size length : Nat}
    (h : d.readLength offset size = .ok length) : length = readTotal d.part offset size := by
  unfold Device.readLength at h
  unfold readTotal
  split at h
  · rw [if_pos ‹_›]
    split at h
    · cases h
    · exact (Except.ok.inj h).symm
  · rw [if_neg ‹_›]
    exact (Except.ok.inj h).symm

theorem tracks_readCode {d : Device} (whole : d.part.codeSize % 2 = 0) (offset size : Nat) :
    Tracks (readCode d offset size) (ends (readTotal d.part offset size) 2) := by
  unfold readCode
  by_cases odd : offset % 2 ≠ 0 ∨ size % 2 ≠ 0
  · rw [if_pos odd]
    exact tracks_throw _
  rw [if_neg odd]
  have even : readTotal d.part offset size % 2 = 0 := by
    unfold readTotal
    split <;> omega
  rw [ends_two even]
  cases known : d.readLength offset size with
  | error fault => exact tracks_throw _
  | ok length =>
    obtain rfl := readLength_eq known
    change Tracks (ExceptT.mk (pure (d.requireRange offset _)) >>= fun _ => _) _
    refine (silent_mk _).tracks_bind fun _ => (silent_setPointer _).tracks_bind fun _ =>
      (marks_readWords _ #[]).tracks fun bytes read => ?_
    have fits : wordsFor (0 + bytes.toList.length) ≤
        (Image.blank (readTotal d.part offset size) offset).capacity / 2 := by
      rw [Image.capacity_blank, Array.length_toList, read, List.size_toArray, List.length_nil]
      simp only [wordsFor]
      omega
    exact ⟨⟨_, Image.putCode_eq_ok.mpr ⟨fits, rfl⟩⟩, rfl⟩

end Routine

namespace Family

open Routine

theorem silent_enterConfigMode {ε : Type} (f : Family) :
    Silent (f.enterConfigMode : Routine ε Unit) := by
  cases f <;> exact silent_executeAll _

theorem silent_selectSinglePanel {ε : Type} (f : Family) :
    Silent (f.selectSinglePanel : Routine ε Unit) :=
  f.silent_enterConfigMode.bind fun _ => silent_storeWord _ _

theorem tracks_pageErase (f : Family) (p : Part) :
    Tracks (f.pageErase p) (ends p.codeSize (max p.erasePage 1)) := by
  cases f with
  | f2xx => exact f2xx.silent_selectSinglePanel.tracks_bind fun _ => tracks_eraseByPage p
  | f2xxx =>
    exact f2xxx.silent_enterConfigMode.tracks_bind fun _ => (silent_execute _).tracks_bind fun _ =>
      (silent_storeWord _ _).tracks_bind fun _ => tracks_eraseByPage p

theorem tracks_programCode (f : Family) (p : Part) (i : Image) :
    Tracks (f.programCode p i) (Blocks.ofImage p i).marks := by
  cases f with
  | f2xx =>
    exact f2xx.silent_selectSinglePanel.tracks_bind fun _ => (silent_executeAll _).tracks_bind
      fun _ => tracks_programBlocks p i
  | f2xxx => exact (silent_executeAll _).tracks_bind fun _ => tracks_programBlocks p i

end Family

end InCircuit
