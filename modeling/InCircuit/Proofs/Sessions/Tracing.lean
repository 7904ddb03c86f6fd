import InCircuit.Proofs.Links
import InCircuit.TransferLog
import Mathlib.Data.List.Forall2

set_option autoImplicit false

/-!
# The log of a session

A traced link and a link that keeps its exchanges answer alike, and the log is a function of the
exchanges: the first commands of all that were asked for, as many as it has room for.
-/
namespace InCircuit

def Transfer.isCommand : Transfer → Bool
  | transmit _ _ | receive _ => true
  | hold _ | data _ | delay _ => false

/-- The line of an answered command: the data sent, or the byte read, or 0 if the read failed. -/
inductive LogLine.Notes : Transfer × Except Fault UInt8 → LogLine → Prop
  | sent (c : Command) (data : UInt16) (reply : Except Fault UInt8) :
    Notes (.transmit c data, reply) ⟨c, data⟩
  | brought (c : Command) (b : UInt8) : Notes (.receive c, .ok b) ⟨c, b.toUInt16⟩
  | failed (c : Command) (e : Fault) : Notes (.receive c, .error e) ⟨c, 0⟩

namespace TransferLog

open LogLine

variable {capacity : Nat} {asked : List (Transfer × Except Fault UInt8)} {log : TransferLog}

/-- The log has a line for each of the first commands that were asked for, up to its capacity. -/
structure Records (capacity : Nat) (asked : List (Transfer × Except Fault UInt8))
    (log : TransferLog) : Prop where
  room : log.capacity = capacity
  lines : List.Forall₂ Notes ((asked.filter (·.1.isCommand)).take capacity) log.lines.toList

def note (log : TransferLog) (x : Transfer × Except Fault UInt8) : TransferLog :=
  match ofTransfer? x.1 x.2 with
  | some line => log.push line
  | none => log

theorem ofTransfer?_of_isCommand {x : Transfer × Except Fault UInt8} (h : x.1.isCommand = true) :
    ∃ line, ofTransfer? x.1 x.2 = some line ∧ Notes x line := by
  obtain ⟨t, reply⟩ := x
  cases t with
  | transmit c data => exact ⟨_, rfl, .sent c data reply⟩
  | receive c =>
    cases reply with
    | ok b => exact ⟨_, rfl, .brought c b⟩
    | error e => exact ⟨_, rfl, .failed c e⟩
  | hold _ | data _ | delay _ => cases h

theorem note_of_not_isCommand {x : Transfer × Except Fault UInt8} (h : x.1.isCommand = false)
    (log : TransferLog) : log.note x = log := by
  obtain ⟨t, reply⟩ := x
  cases t with
  | transmit _ _ | receive _ => cases h
  | hold _ | data _ | delay _ => rfl

theorem Records.size_eq (h : Records capacity asked log) :
    log.lines.size = min capacity (asked.filter (·.1.isCommand)).length := by
  rw [← Array.length_toList, ← h.lines.length_eq, List.length_take]

theorem Records.note (h : Records capacity asked log) (x : Transfer × Except Fault UInt8) :
    Records capacity (asked ++ [x]) (log.note x) := by
  have size := h.size_eq
  obtain ⟨room, lines⟩ := h
  cases command : x.1.isCommand with
  | false =>
    rw [note_of_not_isCommand command]
    refine ⟨room, ?_⟩
    rw [List.filter_append, List.filter_cons_of_neg (by simp [command]), List.filter_nil,
      List.append_nil]
    exact lines
  | true =>
    obtain ⟨line, noted, notes⟩ := ofTransfer?_of_isCommand command
    have later : (asked ++ [x]).filter (·.1.isCommand) =
        asked.filter (·.1.isCommand) ++ [x] := by
      rw [List.filter_append, List.filter_cons_of_pos (by simpa using command), List.filter_nil]
    rw [TransferLog.note, noted]
    dsimp only
    rw [push, isFull]
    by_cases full : log.capacity ≤ log.lines.size
    · rw [if_pos (decide_eq_true full)]
      refine ⟨room, ?_⟩
      rw [later, List.take_append_of_le_length (by omega)]
      exact lines
    · rw [if_neg (by simpa using full)]
      refine ⟨room, ?_⟩
      rw [later, List.take_of_length_le (by rw [List.length_append, List.length_singleton]; omega),
        Array.toList_push]
      rw [List.take_of_length_le (by omega)] at lines
      exact List.rel_append lines (.cons notes .nil)

theorem Records.foldl (h : Records capacity asked log)
    (later : List (Transfer × Except Fault UInt8)) :
    Records capacity (asked ++ later) (later.foldl TransferLog.note log) := by
  induction later generalizing asked log with
  | nil => rwa [List.append_nil]
  | cons x later ih =>
    have rest := ih (h.note x)
    rwa [List.append_assoc] at rest

def ofExchanges (capacity : Nat) (asked : List (Transfer × Except Fault UInt8)) : TransferLog :=
  asked.foldl note { capacity }

theorem records_ofExchanges (capacity : Nat) (asked : List (Transfer × Except Fault UInt8)) :
    Records capacity asked (ofExchanges capacity asked) := by
  have fresh : Records capacity [] { capacity } := by
    refine ⟨rfl, ?_⟩
    rw [List.filter_nil, List.take_nil]
    exact .nil
  exact fresh.foldl asked

end TransferLog

theorem Traced.clock_eq {σ : Type} [Link σ] (t : Transfer) (target : σ) (log : TransferLog) :
    Link.clock t (⟨target, log⟩ : Traced σ) = ((Link.clock t target).1,
      ⟨(Link.clock t target).2, log.note (t, (Link.clock t target).1)⟩) := by
  simp only [Link.clock, TransferLog.note]
  cases LogLine.ofTransfer? t (Link.clock t target).1 <;> rfl

namespace Answered

variable {σ : Type}

def traced (capacity : Nat) (l : Answered σ) : Traced σ :=
  ⟨l.target, .ofExchanges capacity l.exchanges⟩

theorem hom_traced [Link σ] (capacity : Nat) : Link.Hom (traced (σ := σ) capacity) := by
  intro t l
  have next : TransferLog.ofExchanges capacity (l.exchanges ++ [(t, (Link.clock t l.target).1)]) =
      (TransferLog.ofExchanges capacity l.exchanges).note (t, (Link.clock t l.target).1) := by
    rw [TransferLog.ofExchanges, List.foldl_append]
    rfl
  rw [traced, Traced.clock_eq, ← next]
  rfl

end Answered

namespace Session

variable {σ : Type}

def traced (s : Session σ) (capacity : Nat) : Session (Traced σ) :=
  s.map fun link => ⟨link, { capacity }⟩

theorem map_onRecord_target (s : Session σ) : s.onRecord.map (·.target) = s := rfl

theorem map_onRecord_traced (s : Session σ) (capacity : Nat) :
    s.onRecord.map (Answered.traced capacity) = s.traced capacity := rfl

end Session

end InCircuit
