import InCircuit.Proofs.Image.Contents
import InCircuit.Proofs.Plans
import InCircuit.Proofs.Sessions.Halting

set_option autoImplicit false

/-!
# Reading the configuration into an image

An image is written byte by byte while the configuration is read, unlike the EEPROM contents. So a
fault leaves it with the bytes that were read before, and only a fault before the first of them
leaves it as it was.
-/
namespace InCircuit

def Transfer.fetch : Transfer := .receive .tableReadPostInc

def fetched (asked : List (Transfer × Except Fault UInt8)) : List UInt8 :=
  asked.filterMap fun x => if x.1 = .fetch then x.2.toOption else none

theorem fetched_append (asked later : List (Transfer × Except Fault UInt8)) :
    fetched (asked ++ later) = fetched asked ++ fetched later := List.filterMap_append

theorem Performs.fetched_eq_nil {plan : List Transfer}
    {asked : List (Transfer × Except Fault UInt8)} (h : Performs plan asked)
    (without : .fetch ∉ plan) : fetched asked = [] := by
  refine List.filterMap_eq_nil_iff.mpr fun x mem => if_neg fun same => without ?_
  rw [← same]
  exact h.mem mem

/-- Table reads that were to bring so many bytes. -/
inductive Fetches : (count : Nat) → (bytes : List UInt8) → (result : Except Fault Unit) →
    (asked : List (Transfer × Except Fault UInt8)) → Prop
  | nil : Fetches 0 [] (.ok ()) []
  | cons (b : UInt8) {count : Nat} {bytes : List UInt8} {result : Except Fault Unit}
      {asked : List (Transfer × Except Fault UInt8)} (rest : Fetches count bytes result asked) :
      Fetches (count + 1) (b :: bytes) result ((.fetch, .ok b) :: asked)
  | fault (e : Fault) (count : Nat) : Fetches (count + 1) [] (.error e) [(.fetch, .error e)]

namespace Fetches

variable {count : Nat} {bytes : List UInt8} {result : Except Fault Unit}
  {asked : List (Transfer × Except Fault UInt8)}

theorem fetched_eq (h : Fetches count bytes result asked) : fetched asked = bytes := by
  induction h with
  | nil => rfl
  | cons b rest ih => exact congrArg (b :: ·) ih
  | fault e count => rfl

theorem length_le (h : Fetches count bytes result asked) : bytes.length ≤ count := by
  induction h with
  | nil => exact Nat.le_refl 0
  | cons b rest ih => exact Nat.succ_le_succ ih
  | fault e count => exact Nat.zero_le _

theorem ok_iff (h : Fetches count bytes result asked) : result = .ok () ↔ bytes.length = count := by
  induction h with
  | nil => exact iff_of_true rfl rfl
  | cons b rest ih => exact ih.trans Nat.succ_inj.symm
  | fault e count => exact iff_of_false (by simp) (by simp)

theorem failed (h : Fetches count bytes result asked) {e : Fault} (ended : result = .error e) :
    ∃ earlier t, asked = earlier ++ [(t, .error e)] := by
  induction h with
  | nil => cases ended
  | cons b rest ih =>
    obtain ⟨earlier, t, rfl⟩ := ih ended
    exact ⟨_ :: earlier, t, rfl⟩
  | fault e' count =>
    obtain rfl := Except.error.inj ended
    exact ⟨[], .fetch, rfl⟩

end Fetches

/-- `j` is `i` with bytes written over the configuration from an offset on. -/
structure Image.Overlaid (i : Image) (offset : Nat) (bytes : List UInt8) (j : Image) : Prop where
  config : ∀ k, j.configAt? k =
    if offset ≤ k then bytes[k - offset]?.or (i.configAt? k) else i.configAt? k
  rest : j = { i with config := j.config }

namespace Image.Overlaid

variable {i j k : Image} {offset : Nat}

theorem nil (i : Image) (offset : Nat) : i.Overlaid offset [] i :=
  ⟨fun _ => (ite_self _).symm, rfl⟩

theorem cons {b : UInt8} {bytes : List UInt8} (put : i.putConfig offset b = .ok j)
    (h : j.Overlaid (offset + 1) bytes k) : i.Overlaid offset (b :: bytes) k := by
  constructor
  · intro o
    rw [h.config, configAt?_putConfig put]
    by_cases here : offset = o
    · subst here
      rw [if_neg (by omega), if_pos rfl, if_pos (Nat.le_refl _), Nat.sub_self]
      rfl
    · rw [if_neg here]
      by_cases past : offset + 1 ≤ o
      · obtain ⟨n, rfl⟩ := Nat.exists_eq_add_of_le past
        rw [if_pos past, if_pos (by omega), Nat.add_sub_cancel_left,
          show offset + 1 + n - offset = n + 1 by omega, List.getElem?_cons_succ]
      · rw [if_neg past, if_neg (by omega)]
  · obtain ⟨_, rfl⟩ := putConfig_eq_ok.mp put
    exact h.rest

end Image.Overlaid

namespace Routine

open Procedure

variable {σ ε : Type} [Link σ]

theorem outcome_nextByte (m : σ) :
    (nextByte : Routine ε UInt8).run.outcome m = Link.clock .fetch m := rfl

theorem exchanges_nextByte (m : σ) :
    (nextByte : Routine ε UInt8).run.exchanges m = [(.fetch, (Link.clock .fetch m).1)] := rfl

theorem readConfigFrom_run (count offset : Nat) (i : Image) (m : σ) (room : offset + count ≤ 32) :
    ∃ bytes, i.Overlaid offset bytes ((readConfigFrom (ε := ε) count offset i).outcome m).1.2 ∧
      Fetches count bytes ((readConfigFrom (ε := ε) count offset i).outcome m).1.1
        ((readConfigFrom (ε := ε) count offset i).exchanges m) := by
  induction count generalizing offset i m with
  | zero => exact ⟨[], .nil i offset, .nil⟩
  | succ count ih =>
    rw [readConfigFrom, outcome_bind, exchanges_bind, outcome_nextByte, exchanges_nextByte]
    generalize Link.clock .fetch m = ran
    obtain ⟨e | b, next⟩ := ran
    · exact ⟨[], .nil i offset, .fault e count⟩
    · obtain ⟨j, put⟩ : ∃ j, i.putConfig offset b = .ok j := ⟨_, dif_pos (by omega)⟩
      obtain ⟨bytes, overlaid, fetches⟩ := ih (offset + 1) j next (by omega)
      simp only [put]
      exact ⟨b :: bytes, overlaid.cons put, fetches.cons b⟩

end Routine

/-- Reading the configuration of `p` into `i` asked for `asked`, answered `result` and left `j`. -/
structure Image.ConfigRead (p : Part) (i : Image) (asked : List (Transfer × Except Fault UInt8))
    (result : Except Fault Unit) (j : Image) : Prop where
  /-- A fault is that of the last transfer, and no other transfer failed. -/
  fault : ∀ e, result = .error e ↔ ∃ earlier t, asked = earlier ++ [(t, .error e)]
  /-- Without a fault every configuration byte of the part has been read. -/
  complete : result = .ok () ↔ (fetched asked).length = p.configBytes
  bounded : (fetched asked).length ≤ p.configBytes
  /-- The bytes read are in the image in their order, however it ended. -/
  config : ∀ k, j.configAt? k = (fetched asked)[k]?.or (i.configAt? k)
  rest : j = { i with config := j.config }

namespace Routine

open Procedure

variable {σ ε : Type} [Link σ] {d : Device}

theorem fetch_not_mem_pointing (address : Nat) : .fetch ∉ Transfer.pointing address := by
  simp [Transfer.pointing, Transfer.instruction, Transfer.fetch]

theorem configRead_fillConfig (address : d.part.configAddress ≤ Address.last)
    (positive : 0 < d.part.configBytes) (room : d.part.configBytes ≤ 32) (i : Image) (m : σ) :
    i.ConfigRead d.part ((fillConfig (ε := ε) d i).exchanges m)
      ((fillConfig (ε := ε) d i).outcome m).1.1 ((fillConfig (ε := ε) d i).outcome m).1.2 := by
  have sure : Sure (setPointer d.part.configAddress : Routine ε Unit) := sure_setPointer address
  obtain ⟨_, said, ⟨-, plan⟩, performs⟩ := Ends.performs sure (sends_setPointer address) m
  have silent : fetched ((setPointer (ε := ε) d.part.configAddress).run.exchanges m) = [] :=
    performs.fetched_eq_nil (plan ▸ fetch_not_mem_pointing _)
  have halted (e : Fault) (ended : ∃ earlier t,
      (fillConfig (ε := ε) d i).exchanges m = earlier ++ [(t, .error e)]) :
      ((fillConfig (ε := ε) d i).outcome m).1.1 = .error e := by
    obtain ⟨earlier, t, asked⟩ := ended
    exact ((halts_readConfig d i).halted_filled m asked).2
  unfold fillConfig at halted ⊢
  rw [outcome_bind, exchanges_bind] at halted ⊢
  -- Loading the table pointer reads nothing, so a fault there leaves the image as it was.
  cases pointed : ((setPointer (ε := ε) d.part.configAddress).run.outcome m).1 with
  | error e =>
    rw [pointed] at halted
    refine ⟨fun e' => ⟨fun ended => ?_, halted e'⟩, ?_, ?_, ?_, rfl⟩
    · obtain rfl := Except.error.inj ended
      obtain ⟨earlier, t, asked⟩ := sure.failed pointed
      exact ⟨earlier, t, (List.append_nil _).trans asked⟩
    all_goals rw [fetched_append, silent]
    · have failed : (.error e : Except Fault Unit) ≠ .ok () := by simp
      exact iff_of_false failed (Nat.ne_of_lt positive)
    · exact Nat.zero_le _
    · exact fun k => rfl
  | ok =>
    rw [pointed] at halted
    obtain ⟨bytes, overlaid, fetches⟩ := readConfigFrom_run (ε := ε) d.part.configBytes 0 i
      ((setPointer (ε := ε) d.part.configAddress).run.outcome m).2 (by omega)
    refine ⟨fun e => ⟨fun ended => ?_, halted e⟩, ?_, ?_, ?_, overlaid.rest⟩
    · obtain ⟨earlier, t, asked⟩ := fetches.failed ended
      exact ⟨(setPointer d.part.configAddress).run.exchanges m ++ earlier, t,
        (congrArg (_ ++ ·) asked).trans (List.append_assoc _ _ _).symm⟩
    all_goals rw [fetched_append, silent, List.nil_append, fetches.fetched_eq]
    · exact fetches.ok_iff
    · exact fetches.length_le
    · exact overlaid.config

end Routine

namespace Session

open Procedure

variable {σ : Type} [Link σ] {s : Session σ} {d : Device}

/-- On any part and over any link, the bytes that came before a fault are kept. So the image is left
as it was by the faults that come before the first byte, and not in general by the others. -/
theorem readConfigInto_keeps_bytes (known : (d.family, d.part) ∈ Family.knownParts)
    (identified : s.device? = some d) (i : Image) :
    ∃ asked, (s.onRecord.readConfigInto i).2.link = ⟨(s.readConfigInto i).2.link, asked⟩ ∧
      i.ConfigRead d.part asked (s.readConfigInto i).1.1 (s.readConfigInto i).1.2 := by
  obtain ⟨-, -, -, -, -, address, room, -⟩ := Family.knownParts_layout _ known
  have positive := Family.knownParts_config _ known
  have asked := s.onRecord_after (.readConfigInto i)
  rw [identified] at asked
  refine ⟨_, asked.trans (congrArg _ (exchanges_bind_silent _ (fun _ _ => rfl) s.link)), ?_⟩
  rw [readConfigInto, fillOnDevice_some identified, (s.perform_outcome (Routine.fillConfig d i)).1]
  exact Routine.configRead_fillConfig (address ▸ by decide) positive room i s.link

/-- The link is lost after the first byte, or not at all. -/
theorem readConfigInto_keeps_bytes_blank :
    (((onPic18f452For 15).readConfigInto (.blank 0 0)).1.1 = .error .linkFailure ∧
      ((onPic18f452For 15).readConfigInto (.blank 0 0)).1.2.configAt? 0 = some 0 ∧
      ((onPic18f452For 15).readConfigInto (.blank 0 0)).1.2.configAt? 1 = none) ∧
    (onPic18f452.readConfigInto (.blank 0 0)).1.1 = .ok () ∧
      (onPic18f452.readConfigInto (.blank 0 0)).1.2.configAt? 13 = some 0 := by
  have lost : (onPic18f452For 15).device? = some .pic18f452 := by decide
  obtain ⟨asked, recorded, read⟩ := readConfigInto_keeps_bytes (s := onPic18f452For 15)
    Part.pic18f452_mem_knownParts lost (.blank 0 0)
  obtain ⟨asked', recorded', read'⟩ := readConfigInto_keeps_bytes (s := onPic18f452)
    Part.pic18f452_mem_knownParts device?_onPic18f452 (.blank 0 0)
  obtain rfl : _ = asked := congrArg Answered.exchanges recorded
  obtain rfl : _ = asked' := congrArg Answered.exchanges recorded'
  have brought : fetched ((onPic18f452For 15).onRecord.readConfigInto
      (.blank 0 0)).2.link.exchanges = [0] := by decide
  have brought' : fetched (onPic18f452.onRecord.readConfigInto (.blank 0 0)).2.link.exchanges =
      List.replicate 14 0 := by decide
  have kept := read.config
  have filled := read'.config
  have ended := read'.complete
  rw [brought] at kept
  rw [brought'] at filled ended
  refine ⟨⟨(read.fault .linkFailure).mpr ?_, kept 0, kept 1⟩, ended.mpr rfl, filled 13⟩
  exact ⟨((onPic18f452For 15).onRecord.readConfigInto (.blank 0 0)).2.link.exchanges.dropLast,
    .fetch, rfl⟩

/-- An image that had nothing in it has a byte after the fault. -/
theorem readConfigInto_halfFills :
    ((onPic18f452For 15).readConfigInto (.blank 0 0)).1.1 = .error .linkFailure ∧
      ((onPic18f452For 15).readConfigInto (.blank 0 0)).1.2 ≠ .blank 0 0 :=
  ⟨rfl, by decide⟩

end Session

end InCircuit
