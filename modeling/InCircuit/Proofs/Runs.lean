import InCircuit.Session

set_option autoImplicit false

/-!
# Runs of a procedure

What a run ends with does not depend on the events before it, so a run is a value and the link it
leaves. `Along` says of a run that every link state it passes through has one property and that its
end has another; both are computed on the procedure, transfer by transfer. A lost link cuts a
routine off at a state that the undisturbed run passes through as well.
-/
namespace InCircuit

namespace Procedure

variable {σ ε α β : Type} [Link σ]

def outcome : Procedure ε α → σ → α × σ
  | done a, m => (a, m)
  | emit _ next, m => next.outcome m
  | clock t next, m => (next (Link.clock t m).1).outcome (Link.clock t m).2

def transfers : Procedure ε α → σ → Nat
  | done _, _ => 0
  | emit _ next, m => next.transfers m
  | clock t next, m => (next (Link.clock t m).1).transfers (Link.clock t m).2 + 1

def exchanges : Procedure ε α → σ → List (Transfer × Except Fault UInt8)
  | done _, _ => []
  | emit _ next, m => next.exchanges m
  | clock t next, m =>
    (t, (Link.clock t m).1) :: (next (Link.clock t m).1).exchanges (Link.clock t m).2

/-- Every link state after a transfer has `I`, and the end has `Q`. -/
def Along (I : σ → Prop) (Q : α → σ → Prop) : Procedure ε α → σ → Prop
  | done a, m => Q a m
  | emit _ next, m => next.Along I Q m
  | clock t next, m =>
    I (Link.clock t m).2 ∧ (next (Link.clock t m).1).Along I Q (Link.clock t m).2

theorem run_outcome (p : Procedure ε α) (m : σ) (events : Array ε) :
    (p.run m events).value = (p.outcome m).1 ∧ (p.run m events).link = (p.outcome m).2 := by
  induction p generalizing m events with
  | done a => exact ⟨rfl, rfl⟩
  | emit e next ih => exact ih m (events.push e)
  | clock t next ih => exact ih (Link.clock t m).1 (Link.clock t m).2 events

theorem outcome_bind (p : Procedure ε α) (f : α → Procedure ε β) (m : σ) :
    (p >>= f).outcome m = (f (p.outcome m).1).outcome (p.outcome m).2 := by
  induction p generalizing m with
  | done a => rfl
  | emit e next ih => exact ih m
  | clock t next ih => exact ih (Link.clock t m).1 (Link.clock t m).2

theorem exchanges_bind (p : Procedure ε α) (f : α → Procedure ε β) (m : σ) :
    (p >>= f).exchanges m =
      p.exchanges m ++ (f (p.outcome m).1).exchanges (p.outcome m).2 := by
  induction p generalizing m with
  | done a => rfl
  | emit e next ih => exact ih m
  | clock t next ih =>
    change (t, (Link.clock t m).1) :: _ = (t, (Link.clock t m).1) :: _
    exact congrArg _ (ih (Link.clock t m).1 (Link.clock t m).2)

theorem exchanges_bind_silent (p : Procedure ε α) {f : α → Procedure ε β}
    (silent : ∀ a m, (f a).exchanges (σ := σ) m = []) (m : σ) :
    (p >>= f).exchanges m = p.exchanges m := by
  rw [exchanges_bind, silent, List.append_nil]

theorem length_exchanges (p : Procedure ε α) (m : σ) : (p.exchanges m).length = p.transfers m := by
  induction p generalizing m with
  | done a => rfl
  | emit e next ih => exact ih m
  | clock t next ih => exact congrArg (· + 1) (ih (Link.clock t m).1 (Link.clock t m).2)

theorem outcome_link_of_exchanges_eq_nil (p : Procedure ε α) (m : σ) (h : p.exchanges m = []) :
    (p.outcome m).2 = m := by
  induction p generalizing m with
  | done a => rfl
  | emit e next ih => exact ih m h
  | clock t next ih => exact absurd h (List.cons_ne_nil _ _)

theorem along_bind (p : Procedure ε α) (f : α → Procedure ε β) (m : σ) (I : σ → Prop)
    (Q : β → σ → Prop) :
    (p >>= f).Along I Q m ↔ p.Along I (fun a m => (f a).Along I Q m) m := by
  induction p generalizing m with
  | done a => rfl
  | emit e next ih => exact ih m
  | clock t next ih => exact and_congr_right fun _ => ih (Link.clock t m).1 (Link.clock t m).2

theorem Along.mono {p : Procedure ε α} {m : σ} {I J : σ → Prop} {Q R : α → σ → Prop}
    (h : p.Along I Q m) (hI : ∀ m, I m → J m) (hQ : ∀ a m, Q a m → R a m) : p.Along J R m := by
  induction p generalizing m with
  | done a => exact hQ a m h
  | emit e next ih => exact ih h
  | clock t next ih => exact ⟨hI _ h.1, ih _ h.2⟩

theorem along_of_forall (p : Procedure ε α) {Q : α → σ → Prop} (h : ∀ a m, Q a m) (m : σ) :
    p.Along (fun _ => True) Q m := by
  induction p generalizing m with
  | done a => exact h a m
  | emit e next ih => exact ih m
  | clock t next ih => exact ⟨trivial, ih _ _⟩

theorem Along.outcome {p : Procedure ε α} {m : σ} {I : σ → Prop} {Q : α → σ → Prop}
    (h : p.Along I Q m) : Q (p.outcome m).1 (p.outcome m).2 := by
  induction p generalizing m with
  | done a => exact h
  | emit e next ih => exact ih h
  | clock t next ih => exact ih _ h.2

theorem along_tracked (p : Procedure Mark α) (t : Tracker) (m : σ) (I : σ → Prop)
    (Q : α → σ → Prop) : (p.tracked t).Along I Q m ↔ p.Along I Q m := by
  induction p generalizing m t with
  | done a => rfl
  | emit e next ih =>
    simp only [tracked, Along]
    split <;> exact ih _ m
  | clock x next ih => exact and_congr_right fun _ => ih _ t _

theorem outcome_tracked (p : Procedure Mark α) (t : Tracker) (m : σ) :
    (p.tracked t).outcome m = p.outcome m := by
  induction p generalizing m t with
  | done a => rfl
  | emit e next ih =>
    simp only [tracked]
    split <;> exact ih _ m
  | clock x next ih => exact ih _ t _

theorem exchanges_tracked (p : Procedure Mark α) (t : Tracker) (m : σ) :
    (p.tracked t).exchanges m = p.exchanges m := by
  induction p generalizing m t with
  | done a => rfl
  | emit e next ih =>
    simp only [tracked]
    split <;> exact ih _ m
  | clock x next ih => exact congrArg _ (ih _ t _)

theorem tracked_bind_done (p : Procedure Mark α) (g : α → β) (t : Tracker) :
    (p >>= fun a => done (g a)).tracked t = p.tracked t >>= fun a => done (g a) := by
  induction p generalizing t with
  | done a => rfl
  | emit e next ih =>
    change (emit e (next >>= fun a => done (g a))).tracked t = _
    simp only [tracked]
    split
    · exact congrArg _ (ih _)
    · exact ih _
  | clock x next ih => exact congrArg (clock x) (funext fun reply => ih reply t)

/-! ## Faults and lost links -/

theorem map_eq_error {v : Except Fault α} {f : α → β} {e : Fault} :
    v.map f = .error e ↔ v = .error e := by
  cases v <;> simp [Except.map]

/-- A transfer that fails ends the procedure at once with its fault; if none does, the end has
`Q`. -/
def Ends (Q : Except Fault α → Prop) : Procedure ε (Except Fault α) → Prop
  | done v => Q v
  | emit _ next => next.Ends Q
  | clock _ next => (∀ e, next (.error e) = done (.error e)) ∧ ∀ b, (next (.ok b)).Ends Q

theorem ends_tracked {Q : Except Fault α → Prop} {p : Procedure Mark (Except Fault α)}
    (h : p.Ends Q) (t : Tracker) : (p.tracked t).Ends Q := by
  induction p generalizing t with
  | done a => exact h
  | emit e next ih =>
    simp only [tracked]
    split <;> exact ih h _
  | clock x next ih =>
    refine ⟨fun e => ?_, fun b => ih _ (h.2 b) t⟩
    change (next (.error e)).tracked t = _
    rw [h.1 e]
    rfl

theorem Ends.outcome {Q : Except Fault α → Prop} {p : Procedure ε (Except Fault α)} (h : p.Ends Q)
    (m : σ) (carried : ∀ x ∈ p.exchanges m, ∃ b, x.2 = .ok b) : Q (p.outcome m).1 := by
  induction p generalizing m with
  | done a => exact h
  | emit e next ih => exact ih h m carried
  | clock t next ih =>
    obtain ⟨b, hb⟩ := carried _ (List.mem_cons_self)
    refine ih (Link.clock t m).1 ?_ _ fun x hx => carried x (List.mem_cons_of_mem _ hx)
    change (Link.clock t m).1 = .ok b at hb
    rw [hb]
    exact h.2 b

theorem lossy_clock_of_lt (t : Transfer) (m : σ) {n limit : Nat} (h : n < limit) :
    Link.clock t (⟨m, some limit, n⟩ : Lossy σ) =
      ((Link.clock t m).1, ⟨(Link.clock t m).2, some limit, n + 1⟩) := by
  have hn : ¬ limit ≤ n := by omega
  simp [Link.clock, Lossy.isLost, hn]

theorem lossy_clock_of_le (t : Transfer) (m : σ) {n limit : Nat} (h : limit ≤ n) :
    Link.clock t (⟨m, some limit, n⟩ : Lossy σ) =
      (.error .linkFailure, ⟨m, some limit, n + 1⟩) := by
  simp [Link.clock, Lossy.isLost, h]

theorem lossy_clock_attempted (t : Transfer) (l : Lossy σ) :
    (Link.clock t l).2.attempted = l.attempted + 1 := by
  change (if l.isLost then _ else _ : Except Fault UInt8 × Lossy σ).2.attempted = _
  split <;> rfl

theorem attempted_le_lossy_outcome (p : Procedure ε α) (l : Lossy σ) :
    l.attempted ≤ (p.outcome l).2.attempted := by
  induction p generalizing l with
  | done a => exact Nat.le_refl _
  | emit e next ih => exact ih l
  | clock t next ih =>
    have first := lossy_clock_attempted t l
    have rest := ih (Link.clock t l).1 (Link.clock t l).2
    change _ ≤ ((next (Link.clock t l).1).outcome (Link.clock t l).2).2.attempted
    omega

/-- A link that has refused nothing has carried all that was asked for. -/
theorem transfers_le_of_attempted_le (p : Procedure ε α) (m : σ) {n limit : Nat}
    (h : (p.outcome (⟨m, some limit, n⟩ : Lossy σ)).2.attempted ≤ limit) :
    n + p.transfers m ≤ limit := by
  induction p generalizing m n with
  | done a => exact h
  | emit e next ih => exact ih m h
  | clock t next ih =>
    have first := lossy_clock_attempted t (⟨m, some limit, n⟩ : Lossy σ)
    have rest := attempted_le_lossy_outcome (next (Link.clock t (⟨m, some limit, n⟩ : Lossy σ)).1)
      (Link.clock t (⟨m, some limit, n⟩ : Lossy σ)).2
    have carried : n < limit :=
      Nat.lt_of_lt_of_le (Nat.lt_of_lt_of_eq (Nat.lt_succ_self n) first.symm) (Nat.le_trans rest h)
    simp only [outcome] at h
    rw [lossy_clock_of_lt t m carried] at h
    have later : n + 1 + (next (Link.clock t m).1).transfers (Link.clock t m).2 ≤ limit := ih _ _ h
    simp only [transfers]
    omega

theorem lossy_outcome_of_le (p : Procedure ε α) (m : σ) {n limit : Nat}
    (h : n + p.transfers m ≤ limit) :
    p.outcome (⟨m, some limit, n⟩ : Lossy σ) =
      ((p.outcome m).1, ⟨(p.outcome m).2, some limit, n + p.transfers m⟩) := by
  induction p generalizing m n with
  | done a => rfl
  | emit e next ih => exact ih m h
  | clock t next ih =>
    simp only [transfers] at h
    have rest := ih (Link.clock t m).1 (Link.clock t m).2 (n := n + 1) (by omega)
    simp only [outcome, transfers]
    rw [lossy_clock_of_lt t m (by omega), ← Nat.add_assoc, Nat.add_right_comm]
    exact rest

theorem lossy_outcome_of_none (p : Procedure ε α) (m : σ) (n : Nat) :
    p.outcome (⟨m, none, n⟩ : Lossy σ) =
      ((p.outcome m).1, ⟨(p.outcome m).2, none, n + p.transfers m⟩) := by
  induction p generalizing m n with
  | done a => rfl
  | emit e next ih => exact ih m n
  | clock t next ih =>
    simp only [transfers]
    rw [← Nat.add_assoc, Nat.add_right_comm]
    exact ih (Link.clock t m).1 (Link.clock t m).2 (n + 1)

theorem lossy_outcome (p : Procedure ε α) (l : Lossy σ)
    (carries : ∀ limit ∈ l.limit, l.attempted + p.transfers l.target ≤ limit) :
    p.outcome l = ((p.outcome l.target).1,
      { l with
        target := (p.outcome l.target).2
        attempted := l.attempted + p.transfers l.target }) := by
  obtain ⟨m, _ | limit, n⟩ := l
  · exact lossy_outcome_of_none p m n
  · exact lossy_outcome_of_le p m (carries limit rfl)

/-- A link lost before the end cuts the procedure off at a state that it passes through. -/
theorem lossy_outcome_of_lt {R : Except Fault α → Prop} (p : Procedure ε (Except Fault α))
    (hp : p.Ends R) (m : σ) {I : σ → Prop} {Q : Except Fault α → σ → Prop} (hm : I m)
    (ha : p.Along I Q m) {n limit : Nat} (hn : n ≤ limit) (h : limit < n + p.transfers m) :
    ∃ m', I m' ∧ p.outcome (⟨m, some limit, n⟩ : Lossy σ) =
      (.error .linkFailure, ⟨m', some limit, limit + 1⟩) := by
  induction p generalizing m n with
  | done a => simp only [transfers] at h; omega
  | emit e next ih => exact ih hp m hm ha hn h
  | clock t next ih =>
    by_cases he : limit = n
    · subst he
      refine ⟨m, hm, ?_⟩
      simp only [outcome]
      rw [lossy_clock_of_le t m (Nat.le_refl _), hp.1]
      rfl
    · simp only [transfers] at h
      simp only [outcome]
      rw [lossy_clock_of_lt t m (by omega)]
      obtain ⟨hI, rest⟩ := ha
      cases hr : (Link.clock t m).1 with
      | ok b =>
        rw [hr] at rest h
        exact ih _ (hp.2 b) _ hI rest (by omega) (by omega)
      | error e =>
        rw [hr, hp.1 e] at h
        simp only [transfers] at h
        omega

end Procedure

namespace Routine

open Procedure

variable {σ ε α β : Type}

/-- The routine can only end in a fault when a transfer has failed. -/
def Sure (r : Routine ε α) : Prop := r.run.Ends fun v => ∃ a, v = .ok a

theorem ends_bind {R : Except Fault α → Prop} {Q : Except Fault β → Prop} {r : Routine ε α}
    {f : α → Routine ε β} (h : r.run.Ends R) (next : ∀ a, R (.ok a) → (f a).run.Ends Q)
    (fault : ∀ e, R (.error e) → Q (.error e)) : (r >>= f).run.Ends Q := by
  change (Procedure.bind (ExceptT.bindCont f) r.run).Ends Q
  generalize r.run = p at h
  induction p with
  | done v =>
    cases v with
    | ok a => exact next a h
    | error e => exact fault e h
  | emit e next ih => exact ih h
  | clock t next ih =>
    refine ⟨fun e => ?_, fun b => ih _ (h.2 b)⟩
    change Procedure.bind (ExceptT.bindCont f) (next (.error e)) = _
    rw [h.1 e]
    rfl

theorem Sure.bind_ends {Q : Except Fault β → Prop} {r : Routine ε α} {f : α → Routine ε β}
    (h : Sure r) (next : ∀ a, (f a).run.Ends Q) : (r >>= f).run.Ends Q :=
  ends_bind h (fun a _ => next a) fun _ ⟨_, ha⟩ => nomatch ha

theorem Sure.bind {r : Routine ε α} {f : α → Routine ε β} (h : Sure r) (next : ∀ a, Sure (f a)) :
    Sure (r >>= f) :=
  h.bind_ends next

theorem Sure.tracked {r : Routine Mark α} (h : Sure r) (t : Tracker) : Sure (r.tracked t) :=
  ends_tracked h t

theorem sure_pure (a : α) : Sure (pure a : Routine ε α) := ⟨a, rfl⟩

theorem sure_emit (e : ε) : Sure (emit e) := ⟨(), rfl⟩

theorem sure_clock (t : Transfer) : Sure (clock t : Routine ε UInt8) :=
  ⟨fun _ => rfl, fun b => ⟨b, rfl⟩⟩

variable [Link σ]

def returning (Q : α → σ → Prop) : Except Fault α → σ → Prop
  | .ok a, m => Q a m
  | .error _, _ => False

/-- From `m` the routine returns `a` and leaves `m'`, by way of states that have `I`. -/
def Goes (I : σ → Prop) (r : Routine ε α) (m : σ) (a : α) (m' : σ) : Prop :=
  r.run.Along I (returning fun b s => b = a ∧ s = m') m

theorem along_returning_mono {I : σ → Prop} {Q R : α → σ → Prop} {r : Routine ε α} {m : σ}
    (h : r.run.Along I (returning Q) m) (hQ : ∀ a n, Q a n → R a n) :
    r.run.Along I (returning R) m := by
  refine h.mono (fun _ h => h) ?_
  rintro (_ | a) n hn
  · exact hn
  · exact hQ a n hn

theorem outcome_of_returning {I : σ → Prop} {Q : α → σ → Prop} {r : Routine ε α} {m : σ}
    (h : r.run.Along I (returning Q) m) : ∃ a n, r.run.outcome m = (.ok a, n) ∧ Q a n := by
  have ended := h.outcome
  generalize r.run.outcome m = ran at ended
  obtain ⟨_ | a, n⟩ := ran
  · exact ended.elim
  · exact ⟨a, n, rfl, ended⟩

theorem along_seq {I : σ → Prop} {P : α → σ → Prop} {Q : Except Fault β → σ → Prop}
    {r : Routine ε α} {f : α → Routine ε β} {m : σ} (h : r.run.Along I (returning P) m)
    (next : ∀ a m', P a m' → (f a).run.Along I Q m') : (r >>= f).run.Along I Q m := by
  refine (along_bind r.run (ExceptT.bindCont f) m I Q).mpr (h.mono (fun _ h => h) ?_)
  intro v m' hv
  cases v with
  | ok a => exact next a m' hv
  | error e => exact hv.elim

theorem Goes.along {I : σ → Prop} {Q : Except Fault β → σ → Prop} {r : Routine ε α}
    {f : α → Routine ε β} {m m' : σ} {a : α} (h : Goes I r m a m')
    (next : (f a).run.Along I Q m') : (r >>= f).run.Along I Q m := by
  refine along_seq h ?_
  rintro b s ⟨rfl, rfl⟩
  exact next

theorem Goes.bind {I : σ → Prop} {r : Routine ε α} {f : α → Routine ε β} {m m' s : σ} {a : α}
    {b : β} (h : Goes I r m a m') (next : Goes I (f a) m' b s) : Goes I (r >>= f) m b s :=
  h.along next

theorem Goes.returns {I : σ → Prop} {Q : α → σ → Prop} {r : Routine ε α} {m m' : σ} {a : α}
    (h : Goes I r m a m') (hQ : Q a m') : r.run.Along I (returning Q) m := by
  refine along_returning_mono h ?_
  rintro b s ⟨rfl, rfl⟩
  exact hQ

theorem goes_pure (I : σ → Prop) (a : α) (m : σ) : Goes I (pure a : Routine ε α) m a m :=
  ⟨rfl, rfl⟩

theorem goes_emit (I : σ → Prop) (e : ε) (m : σ) : Goes I (emit e) m () m := ⟨rfl, rfl⟩

theorem goes_clock {I : σ → Prop} {t : Transfer} {m m' : σ} {b : UInt8}
    (h : Link.clock t m = (.ok b, m')) (hI : I m') :
    Goes I (clock t : Routine ε UInt8) m b m' := by
  simp only [Goes, clock, ExceptT.run_mk, Along, h]
  exact ⟨hI, rfl, rfl⟩

/-! ### Filling an image -/

theorem outcome_filled (p : Procedure ε (Except Fault Unit × α)) (m : σ) :
    (filled p).run.outcome m =
      ((p.outcome m).1.1.map fun () => (p.outcome m).1.2, (p.outcome m).2) :=
  outcome_bind p _ m

theorem exchanges_filled (p : Procedure ε (Except Fault Unit × α)) (m : σ) :
    (filled p).run.exchanges m = p.exchanges m :=
  exchanges_bind_silent p (fun _ _ => rfl) m

/-- The scan comes first, and the image is written in one go. -/
theorem filled_fillEeprom (p : Part) (i : Image) :
    filled (fillEeprom p i) =
      scanEeprom p >>= fun bytes => ExceptT.mk (pure (i.writeEeprom 0 bytes.toList)) := by
  change fillEeprom p i >>= _ = (scanEeprom p).run >>= ExceptT.bindCont _
  unfold fillEeprom
  rw [bind_assoc]
  refine congrArg _ (funext fun v => ?_)
  cases v with
  | error e => rfl
  | ok bytes =>
    change _ = Procedure.done (i.writeEeprom 0 bytes.toList)
    cases h : i.writeEeprom 0 bytes.toList with
    | error e =>
      simp only [h]
      rfl
    | ok j =>
      simp only [h]
      rfl

end Routine

namespace Device

theorem readEeprom_eq (d : Device) (i : Image) :
    d.readEeprom i =
      (Routine.scanEeprom d.part >>= fun bytes =>
        ExceptT.mk (pure (i.writeEeprom 0 bytes.toList)) : Routine Mark Image).tracked
        { operation := .eepromRead, total := d.part.eepromBytes } := by
  rw [← Routine.filled_fillEeprom]
  exact (Procedure.tracked_bind_done _ _ _).symm

def finishVerify (d : Device) (source readback : Image) : Routine Report Compared :=
  if source.knownConfig.isEmpty then ExceptT.mk (pure (d.compare source readback))
  else do
    let readback ← Routine.readConfig d readback
    ExceptT.mk (pure (d.compare source readback))

theorem verify_eq_finish (d : Device) (source : Image) :
    d.verify source =
      if 2 * source.words = 0 then d.finishVerify source (.blank 0 source.origin)
      else d.readCode source.origin (2 * source.words) >>= d.finishVerify source := by
  unfold verify finishVerify
  cases source.knownConfig.isEmpty <;> split <;> rfl

end Device

end InCircuit
