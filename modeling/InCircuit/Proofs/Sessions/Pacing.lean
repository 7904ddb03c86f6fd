import InCircuit.Proofs.Pacing
import InCircuit.Proofs.Sessions.Identification

set_option autoImplicit false

/-!
# Calls that keep the time

Whatever a call asks for, and wherever it is cut off by a failure, each programming cycle is given
its time at once, and the pulse of a bulk erase comes right after the key and before its settling.
-/
namespace InCircuit

open Transfer

/-- Each cycle has its time right after its start, and what looks like that time is nowhere else.
Any other hold is the pulse of a bulk erase, with the key of the family before it and the two
settlings after it. -/
structure Timed (f : Family) (bulk : Bool) (plan : List Transfer) : Prop where
  started : ∀ before t after, plan = before ++ t :: after → t.startsCycle = true →
    cycleTime <+: after
  time : ∀ before t after, plan = before ++ t :: after → t ∈ cycleTime →
    ∃ earlier start passed, before = earlier ++ start :: passed ∧ start.startsCycle = true ∧
      passed ++ [t] <+: cycleTime
  pulse : ∀ before h after, plan = before ++ .hold h :: after → h ≠ .postProgram →
    bulk = true ∧ before = f.keying ∧ h = .erase f.eraseMillis ∧
      [.delay f.eraseSettle, .delay 20] <+: after

theorem Paced.timed {plan : List Transfer} (h : Paced plan) (f : Family) (bulk : Bool) :
    Timed f bulk plan where
  started _ _ _ := h.started
  time _ _ _ := h.after_start
  pulse before pulse after shape other := by
    refine absurd (h.holds ?_) other
    rw [shape]
    exact List.mem_append_right _ List.mem_cons_self

theorem Paced.timed_erasure {rest : List Transfer} (h : Paced rest) (f : Family) :
    Timed f true (f.erasure ++ rest) where
  started before t after shape starts := by
    obtain ⟨left, inside, _⟩ | ⟨passed, _, later⟩ := append_cons_cases _ shape
    · have mem : t ∈ f.erasure := inside ▸ List.mem_append_right _ List.mem_cons_self
      rw [f.startsCycle_of_mem_erasure t mem] at starts
      cases starts
    · exact h.started later starts
  time before t after shape time := by
    obtain ⟨left, inside, _⟩ | ⟨before, rfl, later⟩ := append_cons_cases _ shape
    · have mem : t ∈ f.erasure := inside ▸ List.mem_append_right _ List.mem_cons_self
      exact absurd mem (f.not_mem_erasure t time)
    · obtain ⟨earlier, start, passed, rfl, found⟩ := h.after_start later time
      exact ⟨f.erasure ++ earlier, start, passed, by rw [List.append_assoc], found⟩
  pulse before pulse after shape other := by
    rw [Family.erasure, List.append_assoc] at shape
    obtain ⟨left, inside, _⟩ | ⟨passed, rfl, later⟩ := append_cons_cases _ shape
    · have mem : Transfer.hold pulse ∈ f.keying :=
        inside ▸ List.mem_append_right _ List.mem_cons_self
      exact absurd mem (f.hold_not_mem_keying pulse)
    · cases passed with
      | nil =>
        obtain ⟨same, rfl⟩ := List.cons_eq_cons.mp later
        exact ⟨rfl, List.append_nil _, (Transfer.hold.inj same).symm, List.prefix_append _ rest⟩
      | cons x passed =>
        have mem : Transfer.hold pulse ∈ [Transfer.delay f.eraseSettle, .delay 20] ++ rest := by
          have tail : [Transfer.delay f.eraseSettle, .delay 20] ++ rest =
              passed ++ .hold pulse :: after :=
            (List.cons_eq_cons.mp later).2
          rw [tail]
          exact List.mem_append_right _ List.mem_cons_self
        obtain settling | mem := List.mem_append.mp mem
        · simp at settling
        · exact absurd (h.holds mem) other

namespace Call

def isBulk : Call → Bool
  | bulkErase | erase .bulk | write _ .bulk => true
  | _ => false

end Call

namespace Device

open Routine

theorem says_write_bulk (d : Device) (i : Image) :
    (d.write i .bulk).run.Says fun _ said => Timed d.family true (said.map Prod.fst) := by
  unfold write
  cases d.requireRoom i with
  | error e => exact Paced.nil.timed _ _
  | ok u =>
    exact d.sends_bulkErase.says_bind (Q := fun _ said => Timed d.family true said) fun _ =>
      Procedure.Says.mono (d.paces_afterErase i) fun _ _ paced => paced.timed_erasure _

end Device

namespace Call

open Procedure Routine

variable {σ : Type} [Link σ]

theorem performs_procedure (c : Call) (d : Device) (m : σ) :
    ∃ plan, Performs plan ((c.procedure (some d)).exchanges m) ∧ Timed d.family c.isBulk plan := by
  have timed {α : Type} {r : Routine Report α} (halts : Halts r)
      (speaks : r.run.Says fun _ said => Timed d.family c.isBulk (said.map Prod.fst)) :
      ∃ plan, Performs plan (r.run.exchanges m) ∧ Timed d.family c.isBulk plan := by
    obtain ⟨_, said, timed, asked⟩ := Ends.performs halts speaks m
    exact ⟨_, asked, timed⟩
  have paced {α : Type} {r : Routine Report α} (halts : Halts r) (h : r.Paces) :
      ∃ plan, Performs plan (r.run.exchanges m) ∧ Timed d.family c.isBulk plan :=
    timed halts (Says.mono h fun _ _ paced => paced.timed d.family c.isBulk)
  have works {α : Type} {p : Procedure Report α}
      (h : ∃ plan, Performs plan (p.exchanges m) ∧ Timed d.family c.isBulk plan) :
      ∃ plan, Performs plan ((working d p).exchanges m) ∧ Timed d.family c.isBulk plan := by
    rw [working, exchanges_bind_silent p fun _ _ => rfl]
    exact h
  have erased (h : true = c.isBulk) :
      ∃ plan, Performs plan (d.bulkErase.run.exchanges m) ∧ Timed d.family c.isBulk plan := by
    refine timed (d.halts_erase .bulk) (Says.mono d.sends_bulkErase fun _ _ said => ?_)
    have alone := Paced.nil.timed_erasure d.family
    rw [List.append_nil] at alone
    exact said.2 ▸ h ▸ alone
  cases c with
  | report _ | reopen => exact ⟨[], .nil, Paced.nil.timed _ _⟩
  | deviceId =>
    rw [procedure, exchanges_bind_silent _ fun _ _ => rfl]
    exact paced halts_fetchDeviceId paces_fetchDeviceId
  | identify =>
    rw [Session.exchanges_identify]
    exact paced Device.halts_identify Device.paces_identify
  | bulkErase => exact works (erased rfl)
  | pageErase => exact works (paced (d.halts_erase .pages) d.paces_pageErase)
  | erase mode =>
    cases mode with
    | bulk => exact works (erased rfl)
    | pages => exact works (paced (d.halts_erase .pages) d.paces_pageErase)
  | programCode i => exact works (paced (d.halts_programCode i) (d.paces_programCode i))
  | programConfig i =>
    exact works (paced (halts_programConfig d.part i) (paces_programConfig d.part i))
  | programEeprom i => exact works (paced (d.halts_programEeprom i) (d.paces_programEeprom i))
  | readCode offset size =>
    exact works (paced (d.halts_readCode offset size) (d.paces_readCode offset size))
  | readConfigInto i =>
    rw [procedure, ← working_filled]
    exact works (paced (halts_readConfig d i) (paces_readConfig d i))
  | readEepromInto i =>
    rw [procedure, ← working_filled]
    exact works (paced (d.halts_readEeprom i) (d.paces_readEeprom i))
  | readAll offset size eeprom =>
    exact works (paced (d.halts_readAll offset size eeprom) (d.paces_readAll offset size eeprom))
  | write i mode =>
    cases mode with
    | bulk => exact works (timed (d.halts_write i .bulk) (d.says_write_bulk i))
    | pages => exact works (paced (d.halts_write i .pages) (d.paces_write_pages i))
  | verify source => exact works (paced (d.halts_verify source) (d.paces_verify source))

end Call

namespace Session

variable {σ : Type} [Link σ]

/-- Whatever the link answers, a call on a device asks for the transfers of a plan that keeps the
time, all of them or up to the first that fails. -/
theorem call_keeps_time {s : Session σ} {d : Device} (bound : s.device? = some d) (c : Call) :
    ∃ plan, Performs plan (s.onRecord.after c).link.exchanges ∧ Timed d.family c.isBulk plan := by
  rw [onRecord_after, bound]
  exact c.performs_procedure d s.link

/-- The link is lost once the pulse of a bulk erase is over. -/
theorem call_keeps_time_lostSettling :
    (∃ plan, Performs plan ((onPic18f452For 17).onRecord.after
        (.write (.blank 0 0) .bulk)).link.exchanges ∧ Timed .f2xx true plan) ∧
      ((onPic18f452For 17).onRecord.after (.write (.blank 0 0) .bulk)).link.exchanges.map Prod.fst =
        Family.f2xx.keying ++ [.hold (.erase 10), .delay 50] ∧
      (onPic18f452For 17).answer (.write (.blank 0 0) .bulk) = .error .linkFailure :=
  ⟨call_keeps_time (d := .pic18f452) (by decide) _, by decide, by rfl⟩

end Session

end InCircuit
