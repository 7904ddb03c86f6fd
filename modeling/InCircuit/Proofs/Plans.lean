import InCircuit.Proofs.Halting

set_option autoImplicit false

/-!
# Plans

The plan of a run is what it asks for when every transfer is answered. A routine that halts at a
failure carries such a plan out, up to the end or to the first transfer that fails.
-/
namespace InCircuit

/-- The transfers of a plan asked for in turn, until one fails or all are answered. -/
inductive Performs : List Transfer → List (Transfer × Except Fault UInt8) → Prop
  | nil : Performs [] []
  | answered (t : Transfer) (b : UInt8) {plan : List Transfer}
      {asked : List (Transfer × Except Fault UInt8)} (rest : Performs plan asked) :
      Performs (t :: plan) ((t, .ok b) :: asked)
  | failed (t : Transfer) (e : Fault) (plan : List Transfer) : Performs (t :: plan) [(t, .error e)]

theorem Performs.mem {plan : List Transfer} {asked : List (Transfer × Except Fault UInt8)}
    (h : Performs plan asked) {x : Transfer × Except Fault UInt8} (mem : x ∈ asked) :
    x.1 ∈ plan := by
  induction h with
  | nil => exact absurd mem List.not_mem_nil
  | answered t b rest ih =>
    rcases List.mem_cons.mp mem with rfl | later
    · exact List.mem_cons_self
    · exact List.mem_cons_of_mem _ (ih later)
  | failed t e plan =>
    obtain rfl := List.mem_singleton.mp mem
    exact List.mem_cons_self

namespace Procedure

variable {σ ε α β : Type}

/-- As long as every transfer is answered, `Q` holds of the value that a run ends with and of its
transfers with their answers. -/
def Says (Q : α → List (Transfer × UInt8) → Prop) : Procedure ε α → Prop
  | done a => Q a []
  | emit _ next => next.Says Q
  | clock t next => ∀ b, (next (.ok b)).Says fun a said => Q a ((t, b) :: said)

theorem Says.mono {Q R : α → List (Transfer × UInt8) → Prop} {p : Procedure ε α} (h : p.Says Q)
    (hQ : ∀ a said, Q a said → R a said) : p.Says R := by
  induction p generalizing Q R with
  | done a => exact hQ a [] h
  | emit e next ih => exact ih h hQ
  | clock t next ih => exact fun b => ih (.ok b) (h b) fun a said => hQ a ((t, b) :: said)

theorem says_bind {p : Procedure ε α} {f : α → Procedure ε β}
    {Q : β → List (Transfer × UInt8) → Prop} :
    (p >>= f).Says Q ↔
      p.Says fun a said => (f a).Says fun b later => Q b (said ++ later) := by
  induction p generalizing Q with
  | done a => rfl
  | emit e next ih => exact ih
  | clock t next ih => exact forall_congr' fun b => ih (.ok b)

theorem says_tracked {p : Procedure Mark α} {Q : α → List (Transfer × UInt8) → Prop}
    (h : p.Says Q) (t : Tracker) : (p.tracked t).Says Q := by
  induction p generalizing t Q with
  | done a => exact h
  | emit e next ih =>
    simp only [tracked]
    split <;> exact ih h _
  | clock x next ih => exact fun b => ih (.ok b) (h b) t

theorem Says.exists {p : Procedure ε α} {Q : α → List (Transfer × UInt8) → Prop} (h : p.Says Q) :
    ∃ a said, Q a said := by
  induction p generalizing Q with
  | done a => exact ⟨a, [], h⟩
  | emit e next ih => exact ih h
  | clock t next ih =>
    obtain ⟨a, said, hQ⟩ := ih (.ok 0) (h 0)
    exact ⟨a, (t, 0) :: said, hQ⟩

variable [Link σ]

theorem carried_of_answers (answers : ∀ (t : Transfer) (m : σ), ∃ b, (Link.clock t m).1 = .ok b)
    (p : Procedure ε α) (m : σ) : ∀ x ∈ p.exchanges m, ∃ b, x.2 = .ok b := by
  induction p generalizing m with
  | done a => simp [exchanges]
  | emit e next ih => exact ih m
  | clock t next ih => exact List.forall_mem_cons.mpr ⟨answers t m, ih _ _⟩

theorem Says.said {Q : α → List (Transfer × UInt8) → Prop} {p : Procedure ε α} (h : p.Says Q)
    (m : σ) (carried : ∀ x ∈ p.exchanges m, ∃ b, x.2 = .ok b) :
    ∃ said : List (Transfer × UInt8), p.exchanges m = said.map (fun x => (x.1, .ok x.2)) ∧
      Q (p.outcome m).1 said := by
  induction p generalizing m Q with
  | done a => exact ⟨[], rfl, h⟩
  | emit e next ih => exact ih h m carried
  | clock t next ih =>
    obtain ⟨⟨b, reply⟩, later⟩ := List.forall_mem_cons.mp carried
    change (Link.clock t m).1 = .ok b at reply
    rw [reply] at later
    obtain ⟨said, asked, hQ⟩ := ih (.ok b) (h b) _ later
    refine ⟨(t, b) :: said, by simp [exchanges, reply, asked], ?_⟩
    simp only [outcome, reply]
    exact hQ

variable {Q : Except Fault α → List (Transfer × UInt8) → Prop}
  {R : Except Fault α → Prop} {p : Procedure ε (Except Fault α)}

theorem Ends.carried (h : p.Ends R) (m : σ) {a : α} (ok : (p.outcome m).1 = .ok a) :
    ∀ x ∈ p.exchanges m, ∃ b, x.2 = .ok b := by
  induction p generalizing m with
  | done v => simp [exchanges]
  | emit e next ih => exact ih h m ok
  | clock t next ih =>
    simp only [Procedure.outcome] at ok
    simp only [exchanges, List.forall_mem_cons]
    cases reply : (Link.clock t m).1 with
    | error e =>
      rw [reply, h.1] at ok
      cases ok
    | ok b =>
      rw [reply] at ok
      exact ⟨⟨b, rfl⟩, ih (.ok b) (h.2 b) _ ok⟩

theorem Ends.said (h : p.Ends R) (speaks : p.Says Q) (m : σ) {a : α}
    (ok : (p.outcome m).1 = .ok a) :
    ∃ said : List (Transfer × UInt8),
      p.exchanges m = said.map (fun x => (x.1, .ok x.2)) ∧ Q (.ok a) said := by
  obtain ⟨said, asked, hQ⟩ := speaks.said m (h.carried m ok)
  rw [ok] at hQ
  exact ⟨said, asked, hQ⟩

/-- Whatever is answered, a run carries a plan out. -/
theorem Ends.performs (h : p.Ends R) (speaks : p.Says Q) (m : σ) :
    ∃ v said, Q v said ∧ Performs (said.map Prod.fst) (p.exchanges m) := by
  induction p generalizing m Q with
  | done v => exact ⟨v, [], speaks, .nil⟩
  | emit e next ih => exact ih h speaks m
  | clock t next ih =>
    simp only [exchanges]
    cases reply : (Link.clock t m).1 with
    | error e =>
      obtain ⟨v, said, hQ⟩ := (speaks 0).exists
      rw [h.1]
      exact ⟨v, (t, 0) :: said, hQ, .failed t e _⟩
    | ok b =>
      obtain ⟨v, said, hQ, asked⟩ := ih (.ok b) (h.2 b) (speaks b) (Link.clock t m).2
      exact ⟨v, (t, b) :: said, hQ, .answered t b asked⟩

end Procedure

namespace Routine

open Procedure

variable {ε α β : Type}

theorem says_bind {r : Routine ε α} {f : α → Routine ε β}
    {Q : Except Fault β → List (Transfer × UInt8) → Prop}
    (h : r.run.Says fun v said => match v with
      | .ok a => (f a).run.Says fun w later => Q w (said ++ later)
      | .error e => Q (.error e) said) : (r >>= f).run.Says Q := by
  refine (Procedure.says_bind (f := ExceptT.bindCont f)).mpr (h.mono ?_)
  rintro (e | a) said hQ
  · change Q (.error e) (said ++ [])
    rw [List.append_nil]
    exact hQ
  · exact hQ

/-! ## Routines with one plan -/

/-- Unless a transfer fails the routine succeeds, and its transfers are just these. -/
def Sends (r : Routine ε α) (plan : List Transfer) : Prop :=
  r.run.Says fun v said => (∃ a, v = .ok a) ∧ said.map Prod.fst = plan

theorem Sends.says_bind {r : Routine ε α} {plan : List Transfer} (h : Sends r plan)
    {f : α → Routine ε β} {Q : Except Fault β → List Transfer → Prop}
    (next : ∀ a, (f a).run.Says fun w said => Q w (plan ++ said.map Prod.fst)) :
    (r >>= f).run.Says fun w said => Q w (said.map Prod.fst) := by
  refine Routine.says_bind (h.mono ?_)
  rintro _ said ⟨⟨a, rfl⟩, rfl⟩
  refine (next a).mono fun w later hQ => ?_
  rw [List.map_append]
  exact hQ

theorem Sends.bind {r : Routine ε α} {f : α → Routine ε β} {plan rest : List Transfer}
    (h : Sends r plan) (next : ∀ a, Sends (f a) rest) : Sends (r >>= f) (plan ++ rest) :=
  h.says_bind (Q := fun v said => (∃ b, v = .ok b) ∧ said = plan ++ rest) fun a =>
    (next a).mono fun _ _ said => ⟨said.1, congrArg _ said.2⟩

theorem Goes.lossy_outcome {σ : Type} [Link σ] {I : σ → Prop} {r : Routine ε α} {l : Lossy σ}
    {a : α} {m : σ} {plan : List Transfer} (goes : Goes I r l.target a m) (sure : Sure r)
    (sends : Sends r plan)
    (carries : ∀ limit ∈ l.limit, l.attempted + plan.length ≤ limit) :
    r.run.outcome l =
      (.ok a, { l with target := m, attempted := l.attempted + plan.length }) := by
  obtain ⟨_, _, ended, rfl, rfl⟩ := outcome_of_returning goes
  obtain ⟨said, asked, _, planned⟩ := Ends.said sure sends l.target (congrArg Prod.fst ended)
  have count : r.run.transfers l.target = plan.length := by
    rw [← length_exchanges, asked, ← planned, List.length_map, List.length_map]
  rw [Procedure.lossy_outcome r.run l (by rwa [count]), ended, count]

theorem sends_pure (a : α) : Sends (pure a : Routine ε α) [] := ⟨⟨a, rfl⟩, rfl⟩

theorem sends_emit (e : ε) : Sends (emit e) [] := ⟨⟨(), rfl⟩, rfl⟩

theorem sends_clock (t : Transfer) : Sends (clock t : Routine ε UInt8) [t] :=
  fun b => ⟨⟨b, rfl⟩, rfl⟩

theorem sends_transmit (c : Command) (data : UInt16) :
    Sends (transmit c data : Routine ε Unit) [.transmit c data] :=
  (sends_clock _).bind fun _ => sends_pure ()

theorem sends_hold (h : Hold) : Sends (hold h : Routine ε Unit) [.hold h] :=
  (sends_clock _).bind fun _ => sends_pure ()

theorem sends_delay (micros : UInt32) : Sends (delay micros : Routine ε Unit) [.delay micros] :=
  (sends_clock _).bind fun _ => sends_pure ()

theorem sends_sendData (payload : UInt32) :
    Sends (sendData payload : Routine ε Unit) [.data payload] :=
  (sends_clock _).bind fun _ => sends_pure ()

theorem sends_executeWords (words : List UInt16) :
    Sends (executeWords words : Routine ε Unit) (words.map (.transmit .coreInstruction)) := by
  induction words with
  | nil => exact sends_pure ()
  | cons w words ih => exact (sends_transmit _ w).bind fun _ => ih

end Routine

/-! ## Plans of the table pointer -/

def Transfer.instruction (i : Instruction) : Transfer := .transmit .coreInstruction i.encode

def Transfer.pointing (address : Nat) : List Transfer :=
  [.movlw (address / 65536).toUInt8, .movwf Register.tblptrU.address,
    .movlw (address / 256).toUInt8, .movwf Register.tblptrH.address,
    .movlw address.toUInt8, .movwf Register.tblptrL.address].map instruction

namespace Routine

open Transfer

variable {ε : Type}

theorem sends_execute (i : Instruction) : Sends (execute i : Routine ε Unit) [instruction i] :=
  sends_transmit _ _

theorem sends_executeAll (is : List Instruction) :
    Sends (executeAll is : Routine ε Unit) (is.map instruction) := by
  have sent := sends_executeWords (ε := ε) (is.map Instruction.encode)
  rwa [List.map_map] at sent

theorem sends_load (r : Register) (value : UInt8) : Sends (load r value : Routine ε Unit)
    ([.movlw value, .movwf r.address].map instruction) :=
  (sends_execute _).bind fun _ => sends_execute _

theorem sends_setPointer {address : Nat} (h : address ≤ Address.last) :
    Sends (setPointer address : Routine ε Unit) (pointing address) := by
  unfold setPointer
  rw [if_neg (by omega)]
  exact (sends_load _ _).bind fun _ => (sends_load _ _).bind fun _ => sends_load _ _

theorem sends_storeWord {address : Nat} (h : address ≤ Address.last) (data : UInt16) :
    Sends (storeWord address data : Routine ε Unit)
      (pointing address ++ [.transmit .tableWritePostInc data]) :=
  (sends_setPointer h).bind fun _ => sends_transmit _ _

theorem sends_postProgram :
    Sends (postProgram : Routine ε Unit) [.hold .postProgram, .delay 5, .data 0] :=
  (sends_hold _).bind fun _ => (sends_delay _).bind fun _ => sends_sendData _

end Routine

end InCircuit
