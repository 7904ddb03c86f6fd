import InCircuit.Eeprom
import InCircuit.Proofs.Plans

set_option autoImplicit false

/-!
# Polling the EEPROM

All that writing the EEPROM takes from the link are the bytes that come when TABLAT is shifted out.
The replies to the polls of one byte are busy ones up to the first that is not, or as many busy ones
as there may be polls, and then the whole write has timed out. So the replies, byte by byte, say
which transfers there are.
-/
namespace InCircuit

def shiftedOut (said : List (Transfer × UInt8)) : List UInt8 :=
  said.filterMap fun x => if x.1 = .receive .shiftOutTablat then some x.2 else none

theorem shiftedOut_append (said later : List (Transfer × UInt8)) :
    shiftedOut (said ++ later) = shiftedOut said ++ shiftedOut later := List.filterMap_append

theorem shiftedOut_eq_nil {said : List (Transfer × UInt8)}
    (quiet : .receive .shiftOutTablat ∉ said.map Prod.fst) : shiftedOut said = [] := by
  refine List.filterMap_eq_nil_iff.mpr fun x mem => if_neg fun shifted => quiet ?_
  exact List.mem_map.mpr ⟨x, mem, shifted⟩

namespace Routine

open Procedure

variable {ε α β : Type}

/-- Unless a transfer fails, `Q` holds of the value, the transfers and what was shifted out. -/
def Hears (r : Routine ε α) (Q : Except Fault α → List Transfer → List UInt8 → Prop) : Prop :=
  r.run.Says fun v said => Q v (said.map Prod.fst) (shiftedOut said)

variable {Q R : Except Fault β → List Transfer → List UInt8 → Prop} {r : Routine ε α}
  {f : α → Routine ε β}

theorem Hears.mono {r : Routine ε β} (h : Hears r R)
    (hQ : ∀ v asked heard, R v asked heard → Q v asked heard) : Hears r Q :=
  Says.mono h fun v _ => hQ v _ _

theorem Hears.bind {P : Except Fault α → List Transfer → List UInt8 → Prop} (h : Hears r P)
    (fault : ∀ e asked heard, P (.error e) asked heard → Q (.error e) asked heard)
    (next : ∀ a asked heard, P (.ok a) asked heard →
      Hears (f a) fun v later more => Q v (asked ++ later) (heard ++ more)) :
    Hears (r >>= f) Q := by
  refine says_bind (Says.mono h ?_)
  rintro (e | a) said hP
  · exact fault e _ _ hP
  · refine Says.mono (next a _ _ hP) fun v later hQ => ?_
    rwa [List.map_append, shiftedOut_append]

theorem Sends.hears_bind {plan : List Transfer} (h : Sends r plan)
    (quiet : .receive .shiftOutTablat ∉ plan)
    (next : ∀ a, Hears (f a) fun v later heard => Q v (plan ++ later) heard) :
    Hears (r >>= f) Q := by
  refine Hears.bind (P := fun v asked heard => (∃ a, v = .ok a) ∧ asked = plan ∧ heard = [])
    (Says.mono h fun v said sent => ?_) (fun e asked heard h => nomatch h.1) ?_
  · exact ⟨sent.1, sent.2, shiftedOut_eq_nil (sent.2 ▸ quiet)⟩
  · rintro a _ _ ⟨-, rfl, rfl⟩
    exact next a

theorem hears_shiftOut_bind {f : UInt8 → Routine ε β}
    (next : ∀ b, Hears (f b) fun v later heard =>
      Q v (.receive .shiftOutTablat :: later) (b :: heard)) : Hears (shiftOut >>= f) Q :=
  next

theorem hears_emit_bind {e : ε} {f : Unit → Routine ε β} (next : Hears (f ()) Q) :
    Hears (emit e >>= f) Q :=
  next

end Routine

/-! ## Polls -/

def isBusy (eecon1 : UInt8) : Bool := Bits.test eecon1 Eecon1.wr

/-- Fewer than `tries` busy replies, and then one that is not. -/
def Settled (tries : Nat) (replies : List UInt8) : Prop :=
  ∃ busy last, replies = busy ++ [last] ∧ busy.length < tries ∧ (∀ r ∈ busy, isBusy r = true) ∧
    isBusy last = false

def Spent (tries : Nat) (replies : List UInt8) : Prop :=
  replies.length = tries ∧ ∀ r ∈ replies, isBusy r = true

namespace Settled

variable {tries : Nat} {r : UInt8} {replies : List UInt8}

theorem single (idle : isBusy r = false) : Settled (tries + 1) [r] :=
  ⟨[], r, rfl, Nat.succ_pos tries, by simp, idle⟩

theorem cons (busy : isBusy r = true) (h : Settled tries replies) :
    Settled (tries + 1) (r :: replies) := by
  obtain ⟨before, last, rfl, short, all, idle⟩ := h
  exact ⟨r :: before, last, rfl, Nat.succ_lt_succ short, List.forall_mem_cons.mpr ⟨busy, all⟩, idle⟩

theorem not_spent (h : Settled tries replies) : ¬ Spent tries replies := by
  rintro ⟨-, all⟩
  obtain ⟨before, last, rfl, -, -, idle⟩ := h
  simp [all last] at idle

end Settled

def Waited (tries : Nat) (v : Except Fault Unit) (replies : List UInt8) : Prop :=
  v = .ok () ∧ Settled tries replies ∨ v = .error .timeout ∧ Spent tries replies

theorem Waited.cons {tries : Nat} {v : Except Fault Unit} {r : UInt8} {replies : List UInt8}
    (busy : isBusy r = true) (h : Waited tries v replies) :
    Waited (tries + 1) v (r :: replies) := by
  rcases h with ⟨ok, settled⟩ | ⟨timeout, spent⟩
  · exact .inl ⟨ok, settled.cons busy⟩
  · exact .inr ⟨timeout, congrArg Nat.succ spent.1, List.forall_mem_cons.mpr ⟨busy, spent.2⟩⟩

namespace Transfer

def poll (reply : UInt8) : List Transfer :=
  [.movfW Register.eecon1.address, .movwf Register.tablat.address, .nop].map instruction ++
    .receive .shiftOutTablat :: if isBusy reply then [.delay 1000] else []

def startWrite (address : Nat) (byte : UInt8) : List Transfer :=
  [.movlw address.toUInt8, .movwf Register.eeadr.address,
    .movlw (address / 256).toUInt8, .movwf Register.eeadrH.address,
    .movlw byte, .movwf Register.eedata.address, .setWren,
    .movlw 0x55, .movwf Register.eecon2.address, .movlw 0xAA, .movwf Register.eecon2.address,
    .setWr].map instruction

/-- The writes of bytes from an address on, each with the replies to its polls. -/
def writes (address : Nat) : (bytes : List UInt8) → (polls : List (List UInt8)) → List Transfer
  | b :: bytes, replies :: polls =>
    startWrite address b ++ replies.flatMap poll ++ writes (address + 1) bytes polls
  | _, _ => []

theorem quiet_instructions (is : List Instruction) :
    .receive .shiftOutTablat ∉ is.map instruction := by
  simp [instruction]

@[simp]
theorem instruction_inj {i j : Instruction} : instruction i = instruction j ↔ i = j := by
  refine ⟨fun same => ?_, congrArg instruction⟩
  have word := congrArg Instruction.decode (Transfer.transmit.inj same).2
  rw [Instruction.decode_encode, Instruction.decode_encode] at word
  exact Option.some.inj word

theorem clearWren_not_mem_writes (address : Nat) (bytes : List UInt8) (polls : List (List UInt8)) :
    instruction .clearWren ∉ writes address bytes polls := by
  have start (address : Nat) (b : UInt8) : instruction .clearWren ∉ startWrite address b := by
    simp [startWrite, Instruction.clearWren, Instruction.clearBit, Instruction.setWren,
      Instruction.setWr, Instruction.setBit]
  have polled (r : UInt8) : instruction .clearWren ∉ poll r := by
    cases busy : isBusy r <;>
      simp [poll, busy, Instruction.clearWren, Instruction.clearBit] <;> simp [instruction]
  induction bytes generalizing address polls with
  | nil => simp [writes]
  | cons b bytes ih =>
    cases polls with
    | nil => simp [writes]
    | cons replies polls => simp [writes, start, polled, ih]

theorem getLast?_writes {last : List UInt8} (spent : Spent 100 last) (earlier : List (List UInt8))
    (address : Nat) {bytes : List UInt8} (short : earlier.length < bytes.length) :
    (writes address bytes (earlier ++ [last])).getLast? = some (.delay 1000) := by
  induction earlier generalizing address bytes with
  | nil =>
    obtain ⟨b, bytes, rfl⟩ := List.exists_cons_of_length_pos short
    obtain ⟨init, r, rfl⟩ := List.eq_nil_or_concat last |>.resolve_left fun empty => by
      simp [empty, Spent] at spent
    have busy : isBusy r = true := spent.2 r (by simp)
    simp [writes, poll, busy]
  | cons replies earlier ih =>
    obtain ⟨b, bytes, rfl⟩ := List.exists_cons_of_length_pos (Nat.zero_lt_of_lt short)
    have rest := ih (address + 1) (Nat.lt_of_succ_lt_succ short)
    simp [writes, rest]

end Transfer

namespace Routine

open Transfer

variable {ε : Type}

theorem hears_waitWritten (tries : Nat) :
    Hears (waitWritten tries : Routine ε Unit) fun v asked heard =>
      asked = heard.flatMap poll ∧ Waited tries v heard := by
  induction tries with
  | zero => exact ⟨rfl, .inr ⟨rfl, rfl, by simp [shiftedOut]⟩⟩
  | succ tries ih =>
    unfold waitWritten
    refine (sends_executeAll _).hears_bind (quiet_instructions _) fun _ => ?_
    refine hears_shiftOut_bind fun eecon1 => ?_
    change Hears (if isBusy eecon1 = true then _ else _) _
    split
    · rename_i busy
      refine (sends_delay 1000).hears_bind (by simp) fun _ => ih.mono ?_
      rintro v asked heard ⟨rfl, waited⟩
      exact ⟨by simp [poll, busy], waited.cons busy⟩
    · rename_i idle
      rw [Bool.not_eq_true] at idle
      exact ⟨by simp [poll, idle, shiftedOut], .inl ⟨rfl, .single idle⟩⟩

theorem hears_writeEepromByte (address : Nat) (byte : UInt8) :
    Hears (writeEepromByte address byte : Routine ε Unit) fun v asked heard =>
      asked = startWrite address byte ++ heard.flatMap poll ∧ Waited 100 v heard := by
  -- Up to the start of the write there is one plan. Only the polls depend on the link.
  have start : Sends (do
      pointEeprom address
      load .eedata byte
      execute .setWren
      load .eecon2 0x55
      load .eecon2 0xAA
      execute .setWr : Routine ε Unit) (startWrite address byte) :=
    ((sends_load _ _).bind fun _ => sends_load _ _).bind fun _ => (sends_load _ _).bind fun _ =>
      (sends_execute _).bind fun _ => (sends_load _ _).bind fun _ => (sends_load _ _).bind fun _ =>
      sends_execute _
  have whole := start.hears_bind (quiet_instructions _) (f := fun _ => waitWritten 100)
    (Q := fun v asked heard => asked = startWrite address byte ++ heard.flatMap poll ∧
      Waited 100 v heard)
    fun _ => (hears_waitWritten 100).mono fun _ _ _ h => h.imp_left (congrArg _)
  unfold writeEepromByte
  simpa only [bind_assoc] using whole

def Completed (bytes : List UInt8) (v : Except Fault Unit) (polls : List (List UInt8)) : Prop :=
  v = .ok () ∧ polls.length = bytes.length ∧ (∀ replies ∈ polls, Settled 100 replies) ∨
    v = .error .timeout ∧ ∃ earlier last, polls = earlier ++ [last] ∧
      earlier.length < bytes.length ∧ (∀ replies ∈ earlier, Settled 100 replies) ∧ Spent 100 last

theorem Completed.cons {bytes : List UInt8} {v : Except Fault Unit} {replies : List UInt8}
    {polls : List (List UInt8)} (settled : Settled 100 replies) (h : Completed bytes v polls)
    (b : UInt8) : Completed (b :: bytes) v (replies :: polls) := by
  rcases h with ⟨ok, all, settles⟩ | ⟨timeout, earlier, last, rfl, short, settles, spent⟩
  · exact .inl ⟨ok, congrArg Nat.succ all, List.forall_mem_cons.mpr ⟨settled, settles⟩⟩
  · exact .inr ⟨timeout, replies :: earlier, last, rfl, Nat.succ_lt_succ short,
      List.forall_mem_cons.mpr ⟨settled, settles⟩, spent⟩

theorem hears_writeEepromFrom (address : Nat) (bytes : List UInt8) :
    Hears (writeEepromFrom address bytes) fun v asked heard => ∃ polls,
      asked = writes address bytes polls ∧ heard = polls.flatten ∧ Completed bytes v polls := by
  induction bytes generalizing address with
  | nil => exact ⟨[], rfl, rfl, .inl ⟨rfl, rfl, by simp⟩⟩
  | cons b bytes ih =>
    unfold writeEepromFrom
    refine (hears_writeEepromByte address b).bind ?_ ?_
    · rintro e asked heard ⟨rfl, ⟨ended, -⟩ | ⟨timeout, spent⟩⟩
      · cases ended
      · refine ⟨[heard], by simp [writes], by simp, .inr ⟨timeout, [], heard, rfl, ?_, ?_, spent⟩⟩
        · exact Nat.succ_pos _
        · simp
    · rintro _ asked heard ⟨rfl, ⟨-, settled⟩ | ⟨timeout, -⟩⟩
      · refine hears_emit_bind ((ih (address + 1)).mono ?_)
        rintro v _ _ ⟨polls, rfl, rfl, completed⟩
        exact ⟨heard :: polls, rfl, rfl, completed.cons settled b⟩
      · cases timeout

theorem hears_writeEeprom {p : Part} {i : Image} (fits : i.eeprom.size ≤ p.eepromBytes) :
    Hears (writeEeprom p i) fun v asked heard => ∃ polls, heard = polls.flatten ∧
      Completed i.eeprom.toList v polls ∧
      asked = [.clearEepgd, .clearCfgs].map instruction ++ writes 0 i.eeprom.toList polls ++
        if v.isOk then [instruction .clearWren] else [] := by
  unfold writeEeprom
  rw [if_neg (Nat.not_lt_of_le fits)]
  refine (sends_executeAll _).hears_bind (quiet_instructions _) fun _ => ?_
  refine hears_emit_bind ((hears_writeEepromFrom 0 i.eeprom.toList).bind ?_ ?_)
  · rintro e _ _ ⟨polls, rfl, rfl, completed⟩
    exact ⟨polls, rfl, completed, by simp [Except.isOk, Except.toBool]⟩
  · rintro ⟨⟩ _ _ ⟨polls, rfl, rfl, completed⟩
    refine hears_emit_bind (Procedure.Says.mono (sends_execute .clearWren) ?_)
    rintro _ said ⟨⟨⟨⟩, rfl⟩, asked⟩
    have quiet : shiftedOut said = [] :=
      shiftedOut_eq_nil (by rw [asked]; exact quiet_instructions [.clearWren])
    exact ⟨polls, by simp [quiet], completed, by simp [asked, Except.isOk, Except.toBool]⟩

/-- Over a link that fails no transfer the shifted out bytes decide, byte by byte, how often a write
is polled, whether it times out, and which transfers there are. -/
theorem writeEeprom_polls {σ : Type} [Link σ] {p : Part} {i : Image}
    (fits : i.eeprom.size ≤ p.eepromBytes) (t : Tracker) (m : σ)
    (carried : ∀ x ∈ ((writeEeprom p i).tracked t).run.exchanges m, ∃ b, x.2 = .ok b) :
    ∃ (said : List (Transfer × UInt8)) (polls : List (List UInt8)),
      ((writeEeprom p i).tracked t).run.exchanges m = said.map (fun x => (x.1, .ok x.2)) ∧
      shiftedOut said = polls.flatten ∧
      ((((writeEeprom p i).tracked t).run.outcome m).1 = .error .timeout ↔
        ∃ replies ∈ polls, Spent 100 replies) ∧
      ((∃ replies ∈ polls, Spent 100 replies) →
        (∃ earlier last, polls = earlier ++ [last] ∧ earlier.length < i.eeprom.size ∧
          (∀ replies ∈ earlier, Settled 100 replies) ∧ Spent 100 last) ∧
        said.map Prod.fst =
          [.clearEepgd, .clearCfgs].map instruction ++ writes 0 i.eeprom.toList polls ∧
        (said.map Prod.fst).getLast? = some (.delay 1000) ∧
        instruction .clearWren ∉ said.map Prod.fst) ∧
      ((¬ ∃ replies ∈ polls, Spent 100 replies) →
        (((writeEeprom p i).tracked t).run.outcome m).1 = .ok () ∧
        polls.length = i.eeprom.size ∧ (∀ replies ∈ polls, Settled 100 replies) ∧
        said.map Prod.fst = [.clearEepgd, .clearCfgs].map instruction ++
          writes 0 i.eeprom.toList polls ++ [instruction .clearWren]) := by
  obtain ⟨said, exchanged, polls, heard, completed, asked⟩ :=
    (Procedure.says_tracked (hears_writeEeprom fits) t).said m carried
  refine ⟨said, polls, exchanged, heard, ?_⟩
  change Completed _ (((writeEeprom p i).tracked t).run.outcome m).1 polls at completed
  change _ = _ ++ ite ((((writeEeprom p i).tracked t).run.outcome m).1.isOk = true) _ _ at asked
  generalize (((writeEeprom p i).tracked t).run.outcome m).1 = v at *
  rcases completed with ⟨rfl, all, settles⟩ | ⟨rfl, earlier, last, rfl, short, settles, spent⟩
  · have none : ¬ ∃ replies ∈ polls, Spent 100 replies := fun ⟨_, mem, spent⟩ =>
      (settles _ mem).not_spent spent
    exact ⟨iff_of_false (by simp) none, fun some => absurd some none,
      fun _ => ⟨rfl, all, settles, asked⟩⟩
  · have some : ∃ replies ∈ earlier ++ [last], Spent 100 replies := ⟨last, by simp, spent⟩
    have sent : said.map Prod.fst = [.clearEepgd, .clearCfgs].map instruction ++
        writes 0 i.eeprom.toList (earlier ++ [last]) := asked.trans (List.append_nil _)
    refine ⟨iff_of_true rfl some, fun _ => ⟨⟨earlier, last, rfl, short, settles, spent⟩, sent,
      ?_, ?_⟩, fun none => absurd some none⟩
    · rw [sent, List.getLast?_append, getLast?_writes spent earlier 0 short]
      rfl
    · rw [sent, List.mem_append]
      exact not_or.mpr ⟨by decide, clearWren_not_mem_writes 0 _ _⟩

end Routine

structure Scripted where
  replies : List UInt8

instance : Link Scripted where
  clock t l :=
    match t, l with
    | .receive .shiftOutTablat, ⟨r :: replies⟩ => (.ok r, ⟨replies⟩)
    | _, l => (.ok 0, l)

theorem Scripted.answers (t : Transfer) (l : Scripted) : ∃ b, (Link.clock t l).1 = .ok b := by
  simp only [Link.clock]
  split <;> exact ⟨_, rfl⟩

namespace Routine

open Transfer

def twoWrites : Procedure Report (Except Fault Unit) :=
  ((writeEeprom (Family.f2xx.part "PIC18F452" 0x04 0b001 32)
    { Image.blank 0 0 with eeprom := #[0x5A, 0xA5] }).tracked
      { operation := .eepromWrite, total := 2 }).run

def settledThenBusy : Scripted := ⟨0x02 :: 0x00 :: List.replicate 100 0x02⟩

theorem writeEeprom_polls_secondByte :
    (twoWrites.outcome settledThenBusy).1 = .error .timeout ∧
      twoWrites.transfers settledThenBusy = 535 ∧
      ∃ said : List (Transfer × UInt8),
        twoWrites.exchanges settledThenBusy = said.map (fun x => (x.1, .ok x.2)) ∧
        (said.map Prod.fst).getLast? = some (.delay 1000) ∧
        instruction .clearWren ∉ said.map Prod.fst := by
  have failed : (twoWrites.outcome settledThenBusy).1.isOk = false := by decide +kernel
  obtain ⟨said, polls, exchanged, -, timeout, hangs, done⟩ := writeEeprom_polls
    (by decide) { operation := .eepromWrite, total := 2 } settledThenBusy
    (Procedure.carried_of_answers Scripted.answers twoWrites settledThenBusy)
  by_cases spent : ∃ replies ∈ polls, Spent 100 replies
  · obtain ⟨-, -, ends, quiet⟩ := hangs spent
    exact ⟨timeout.mpr spent, by decide +kernel, said, exchanged, ends, quiet⟩
  · have ok : (twoWrites.outcome settledThenBusy).1 = .ok () := (done spent).1
    rw [ok] at failed
    cases failed

end Routine

end InCircuit
