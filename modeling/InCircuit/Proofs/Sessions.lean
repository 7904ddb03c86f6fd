import InCircuit.Proofs.Operations

set_option autoImplicit false

/-!
# Sessions from power-up on

A session is worked on by calls. What a call does to the link and to the device that is remembered
is one procedure, so what every procedure preserves holds after any list of calls.
-/
namespace InCircuit

/-- A call of a session operation, the attaching and detaching of a sink, or a new session on the
same link. -/
inductive Call where
  | deviceId
  | identify
  | bulkErase
  | pageErase
  | erase (mode : EraseMode)
  | programCode (i : Image)
  | programConfig (i : Image)
  | programEeprom (i : Image)
  | readCode (offset size : Nat)
  | readConfigInto (i : Image)
  | readEepromInto (i : Image)
  | readAll (offset size : Nat) (eeprom : Bool)
  | write (i : Image) (mode : EraseMode)
  | verify (source : Image)
  | report (sink : Option (Array Report))
  | reopen

namespace Session

variable {σ : Type} [Link σ]

def after (s : Session σ) : Call → Session σ
  | .deviceId => s.deviceId.2
  | .identify => s.identify.2
  | .bulkErase => s.bulkErase.2
  | .pageErase => s.pageErase.2
  | .erase mode => (s.erase mode).2
  | .programCode i => (s.programCode i).2
  | .programConfig i => (s.programConfig i).2
  | .programEeprom i => (s.programEeprom i).2
  | .readCode offset size => (s.readCode offset size).2
  | .readConfigInto i => (s.readConfigInto i).2
  | .readEepromInto i => (s.readEepromInto i).2
  | .readAll offset size eeprom => (s.readAll offset size eeprom).2
  | .write i mode => (s.write i mode).2
  | .verify source => (s.verify source).2
  | .report sink => { s with sink }
  | .reopen => { link := s.link }

def afterAll (s : Session σ) (calls : List Call) : Session σ := calls.foldl after s

/-- Some calls lead to the session from a new one on the link. -/
def Follows (s : Session σ) (link : σ) : Prop :=
  ∃ calls, s = ({ link } : Session σ).afterAll calls

theorem Follows.after {s : Session σ} {link : σ} (h : s.Follows link) (c : Call) :
    (s.after c).Follows link := by
  obtain ⟨calls, rfl⟩ := h
  exact ⟨calls ++ [c], by rw [afterAll, afterAll, List.foldl_append]; rfl⟩

end Session

namespace Call

open Procedure

def working {α : Type} (d : Device) (p : Procedure Report α) : Procedure Report (Option Device) :=
  p >>= fun _ => done (some d)

def procedure (c : Call) (device? : Option Device) : Procedure Report (Option Device) :=
  match c, device? with
  | .deviceId, _ => Routine.fetchDeviceId.run >>= fun _ => done device?
  | .identify, _ => Device.identify.run >>= fun
    | .ok d => done (some d)
    | .error _ => done none
  | .reopen, _ => done none
  | .report _, _ | _, none => done device?
  | .bulkErase, some d => working d d.bulkErase.run
  | .pageErase, some d => working d d.pageErase.run
  | .erase mode, some d => working d (d.erase mode).run
  | .programCode i, some d => working d (d.programCode i).run
  | .programConfig i, some d => working d (d.programConfig i).run
  | .programEeprom i, some d => working d (d.programEeprom i).run
  | .readCode offset size, some d => working d (d.readCode offset size).run
  | .readConfigInto i, some d => working d (Routine.fillConfig d i)
  | .readEepromInto i, some d => working d (d.fillEeprom i)
  | .readAll offset size eeprom, some d => working d (d.readAll offset size eeprom).run
  | .write i mode, some d => working d (d.write i mode).run
  | .verify source, some d => working d (d.verify source).run

/-- Whether the image is kept or given up on a fault makes no difference to the device. -/
theorem working_filled (d : Device) (p : Procedure Report (Except Fault Unit × Image)) :
    working d (Routine.filled p).run = working d p := by
  change (p >>= fun v => done (v.1.map fun () => v.2)) >>= _ = _
  rw [bind_assoc]
  rfl

end Call

namespace Session

open Procedure

variable {σ α : Type} [Link σ]

theorem perform_outcome (s : Session σ) (p : Procedure Report α) :
    (s.perform p).1 = (p.outcome s.link).1 ∧
      (s.perform p).2.link = (p.outcome s.link).2 ∧ (s.perform p).2.device? = s.device? := by
  obtain ⟨link, series, device?, sink⟩ := s
  cases sink with
  | none => exact ⟨(p.run_outcome link #[]).1, (p.run_outcome link #[]).2, rfl⟩
  | some reports => exact ⟨(p.run_outcome link reports).1, (p.run_outcome link reports).2, rfl⟩

theorem onDevice_outcome {s : Session σ} {d : Device} (h : s.device? = some d)
    (r : Device → Routine Report α) :
    (s.onDevice r).1 = ((r d).run.outcome s.link).1 ∧
      (s.onDevice r).2.link = ((r d).run.outcome s.link).2 ∧
      (s.onDevice r).2.device? = some d := by
  have performed := s.perform_outcome (r d).run
  rw [onDevice, h]
  rw [h] at performed
  exact performed

theorem identify_outcome (s : Session σ) :
    s.identify.1 = (Device.identify.run.outcome s.link).1 ∧
      s.identify.2.link = (Device.identify.run.outcome s.link).2 ∧
      s.identify.2.device? = s.identify.1.toOption := by
  have performed := ({ s with device? := none } : Session σ).perform_outcome Device.identify.run
  unfold identify
  generalize ({ s with device? := none } : Session σ).perform Device.identify.run = ran
    at performed ⊢
  obtain ⟨_ | d, s'⟩ := ran
  · exact performed
  · exact ⟨performed.1, performed.2.1, rfl⟩

theorem onDevice_none {s : Session σ} (h : s.device? = none) (r : Device → Routine Report α) :
    s.onDevice r = (.error .noDevice, s) := by
  rw [onDevice, h]

variable {fill : Device → Image → Procedure Report (Except Fault Unit × Image)}

theorem fillOnDevice_none {s : Session σ} (h : s.device? = none) (i : Image) :
    s.fillOnDevice i fill = ((.error .noDevice, i), s) := by
  rw [fillOnDevice, h]

theorem fillOnDevice_some {s : Session σ} {d : Device} (h : s.device? = some d) (i : Image) :
    s.fillOnDevice i fill = s.perform (fill d i) := by
  rw [fillOnDevice, h]

theorem after_outcome (s : Session σ) (c : Call) :
    (s.after c).link = ((c.procedure s.device?).outcome s.link).2 ∧
      (s.after c).device? = ((c.procedure s.device?).outcome s.link).1 := by
  have idle {α : Type} (h : s.device? = none) (r : Device → Routine Report α) :
      (s.onDevice r).2.link = s.link ∧ (s.onDevice r).2.device? = none := by
    rw [onDevice_none h r]
    exact ⟨rfl, h⟩
  have works {α : Type} {d : Device} (h : s.device? = some d) (r : Device → Routine Report α) :
      (s.onDevice r).2.link = ((Call.working d (r d).run).outcome s.link).2 ∧
        (s.onDevice r).2.device? = ((Call.working d (r d).run).outcome s.link).1 := by
    rw [Call.working, outcome_bind]
    exact (onDevice_outcome h r).2
  have unfilled {fill : Device → Image → Procedure Report (Except Fault Unit × Image)}
      (h : s.device? = none) (i : Image) :
      (s.fillOnDevice i fill).2.link = s.link ∧ (s.fillOnDevice i fill).2.device? = none := by
    rw [fillOnDevice_none h]
    exact ⟨rfl, h⟩
  have fills {fill : Device → Image → Procedure Report (Except Fault Unit × Image)} {d : Device}
      (h : s.device? = some d) (i : Image) :
      (s.fillOnDevice i fill).2.link = ((Call.working d (fill d i)).outcome s.link).2 ∧
        (s.fillOnDevice i fill).2.device? = ((Call.working d (fill d i)).outcome s.link).1 := by
    rw [fillOnDevice_some h, Call.working, outcome_bind]
    exact ⟨(s.perform_outcome (fill d i)).2.1, (s.perform_outcome (fill d i)).2.2.trans h⟩
  cases c with
  | report sink => exact ⟨rfl, rfl⟩
  | reopen => exact ⟨rfl, rfl⟩
  | deviceId =>
    have performed := s.perform_outcome (Routine.fetchDeviceId (ε := Report)).run
    rw [Call.procedure, outcome_bind]
    exact performed.2
  | identify =>
    obtain ⟨value, link, device⟩ := s.identify_outcome
    rw [Call.procedure, outcome_bind, ← value, ← link]
    change s.identify.2.link = _ ∧ s.identify.2.device? = _
    rw [device]
    cases s.identify.1 <;> exact ⟨rfl, rfl⟩
  | readConfigInto i | readEepromInto i =>
    cases hd : s.device? with
    | none => exact unfilled hd i
    | some d => exact fills hd i
  | bulkErase | pageErase | erase _ | programCode _ | programConfig _ | programEeprom _
  | readCode _ _ | readAll _ _ _ | write _ _ | verify _ =>
    cases hd : s.device? with
    | none => exact idle hd _
    | some d => exact works hd _

/-! ## The emulated part between calls -/

theorem readAll_eq {s : Session Emulator} {d : Device} {setup : Setup}
    (suited : Suited d.part setup) (h : s.device? = some d) (offset size : Nat) (eeprom : Bool) :
    (s.readAll offset size eeprom).1 = d.wholeRead s.link offset size eeprom ∧
      (s.readAll offset size eeprom).2.link.memory = s.link.memory ∧
      (s.readAll offset size eeprom).2.device? = some d := by
  obtain ⟨value, link, device⟩ := onDevice_outcome h (·.readAll offset size eeprom)
  obtain ⟨brought, kept⟩ := (Device.brings_readAll (I := fun _ => True) (m := s.link) suited offset
    size eeprom fun _ _ => trivial).outcome
  refine ⟨value.trans brought, ?_, device⟩
  change (s.readAll offset size eeprom).2.link = _ at link
  rw [link]
  exact Emulator.memory_eq_of_held kept.held

theorem verify_eq {s : Session Emulator} {d : Device} {setup : Setup} (suited : Suited d.part setup)
    (h : s.device? = some d) (source : Image) :
    (s.verify source).1 = d.comparison s.link source :=
  (onDevice_outcome h (·.verify source)).1.trans (Device.brings_verify (I := fun _ => True)
    (m := s.link) suited source fun _ _ => trivial).outcome.1

theorem readCode_eq {s : Session Emulator} {d : Device} {setup : Setup}
    (suited : Suited d.part setup) (h : s.device? = some d) (offset size : Nat) :
    (s.readCode offset size).1 = d.codeRead s.link offset size := by
  have anywhere : Emulator.Around (fun _ => True) s.link := fun _ _ => trivial
  exact (onDevice_outcome h (·.readCode offset size)).1.trans
    ((Routine.brings_readCode offset size anywhere suited.low).tracked _).outcome.1

/-- A session of a part that rests, and that is remembered as what it is, if at all. -/
structure Resting (p : Part) (f : Family) (setup : Setup) (m : Emulator) (device? : Option Device) :
    Prop where
  part : m.Resting p setup
  device : ∀ d, device? = some d → d = ⟨setup.deviceId, p, f⟩

variable {p : Part} {f : Family} {setup : Setup} {m : Emulator} {device? : Option Device}

open Routine in
theorem along_procedure (emulates : setup.Emulates p) (known : (f, p) ∈ Family.knownParts)
    (rest : Resting p f setup m device?) (c : Call) :
    (c.procedure device?).Along (fun _ => True)
      (fun device? n => Resting p f setup n device?) m := by
  have drives := emulates.drives known
  have hm := rest.part
  have anywhere : Emulator.Around (fun _ => True) m := fun _ _ => trivial
  have suited := drives.suited
  have fetched := brings_fetchDeviceId (ε := Report) anywhere
    (by rw [hm.idle.setup, suited.codeSize]; exact suited.low)
    (by rw [hm.idle.setup, suited.configBytes]; exact suited.configBytes_le)
  have works {α : Type} {q : Procedure Report α}
      (h : q.Along (fun _ => True) (fun _ n => n.Resting p setup) m) :
      (Call.working ⟨setup.deviceId, p, f⟩ q).Along (fun _ => True)
        (fun device? n => Resting p f setup n device?) m := by
    refine (along_bind _ _ _ _ _).mpr (h.mono (fun _ h => h) fun _ n hn => ⟨hn, ?_⟩)
    intro d hd
    exact (Option.some.inj hd).symm
  have read : (Call.deviceId.procedure device?).Along (fun _ => True)
      (fun device? n => Resting p f setup n device?) m :=
    (along_bind _ _ _ _ _).mpr (fetched.mono (fun _ h => h) fun _ n hn =>
      ⟨hm.of_kept hn.2, rest.device⟩)
  have identified : (Call.identify.procedure device?).Along (fun _ => True)
      (fun device? n => Resting p f setup n device?) m := by
    refine (along_bind _ _ _ _ _).mpr ((Device.brings_identify suited hm.idle.setup
      anywhere).mono (fun _ h => h) ?_)
    rintro _ n ⟨rfl, kept⟩
    rw [emulates.identified known]
    exact ⟨hm.of_kept kept, fun d hd => (Option.some.inj hd).symm⟩
  -- Without a device no call but the two that read the identification word reaches the part.
  cases device? with
  | none =>
    cases c with
    | deviceId => exact read
    | identify => exact identified
    | reopen => exact ⟨hm, fun _ h => nomatch h⟩
    | _ => exact rest
  | some d =>
    obtain rfl := rest.device d rfl
    cases c with
    | deviceId => exact read
    | identify => exact identified
    | report sink => exact rest
    | reopen => exact ⟨hm, fun _ h => nomatch h⟩
    | bulkErase => exact works (Device.rests_erase drives hm .bulk)
    | pageErase => exact works (Device.rests_erase drives hm .pages)
    | erase mode => exact works (Device.rests_erase drives hm mode)
    | programCode i => exact works (Device.rests_programCode drives hm)
    | programConfig i => exact works (Device.rests_programConfig drives hm)
    | programEeprom i => exact works (Device.rests_programEeprom drives hm)
    | readCode offset size => exact works (Device.rests_readCode drives hm offset size)
    | readConfigInto i =>
      exact works ((along_fillConfig i anywhere suited.configAddress suited.configBytes_le).mono
        (fun _ h => h) fun _ n hn => hm.of_kept hn.2)
    | readEepromInto i =>
      rw [Call.procedure, ← Call.working_filled]
      exact works (Device.rests_readEeprom drives hm)
    | readAll offset size eeprom => exact works (Device.rests_readAll drives hm offset size eeprom)
    | write i mode => exact works (Device.rests_write drives hm mode)
    | verify source => exact works (Device.rests_verify drives hm source)

end Session

structure Memory.Sized (memory : Memory) (s : Setup) : Prop where
  code : memory.code.size = s.codeSize
  config : memory.config.size = s.configBytes
  eeprom : memory.eeprom.size = s.eepromSize

/-- A part as it is after power-up, with what its memories have kept. -/
def Emulator.powerUp (s : Setup) (memory : Memory) : Emulator where
  setup := s
  code := memory.code
  config := memory.config
  eeprom := memory.eeprom

namespace Session

open Procedure

variable {p : Part} {f : Family} {setup : Setup}

theorem resting_powerUp {memory : Memory} (suited : Suited p setup) (sized : memory.Sized setup) :
    Resting p f setup (.powerUp setup memory) none := by
  have free : (Emulator.Mode.ofByte 0).free = false := by decide
  refine ⟨⟨⟨rfl, rfl, rfl, rfl, rfl, rfl⟩, free, ?_, ?_, ?_⟩, fun d h => nomatch h⟩
  · exact sized.code.trans suited.codeSize
  · exact sized.config.trans suited.configBytes
  · exact sized.eeprom.trans suited.eepromSize

theorem resting_afterAll (emulates : setup.Emulates p) (known : (f, p) ∈ Family.knownParts)
    (calls : List Call) {s : Session Emulator} (rest : Resting p f setup s.link s.device?) :
    Resting p f setup (s.afterAll calls).link (s.afterAll calls).device? := by
  induction calls generalizing s with
  | nil => exact rest
  | cons c calls ih =>
    obtain ⟨link, device⟩ := s.after_outcome c
    refine ih ?_
    rw [link, device]
    exact (along_procedure emulates known rest c).outcome

/-- Whatever calls there have been since power-up, the part rests. -/
theorem Follows.resting {s : Session Emulator} {memory : Memory} (emulates : setup.Emulates p)
    (known : (f, p) ∈ Family.knownParts) (sized : memory.Sized setup)
    (follows : s.Follows (.powerUp setup memory)) : Resting p f setup s.link s.device? := by
  obtain ⟨calls, rfl⟩ := follows
  exact resting_afterAll emulates known calls (resting_powerUp (emulates.suited known) sized)

/-! ## A link that can be lost -/

theorem attempted_le_afterAll {σ : Type} [Link σ] (calls : List Call) (s : Session (Lossy σ)) :
    s.link.attempted ≤ (s.afterAll calls).link.attempted := by
  induction calls generalizing s with
  | nil => exact Nat.le_refl _
  | cons c calls ih =>
    have first := attempted_le_lossy_outcome (c.procedure s.device?) s.link
    rw [← (s.after_outcome c).1] at first
    exact Nat.le_trans first (ih (s.after c))

theorem resting_lossy_afterAll (emulates : setup.Emulates p) (known : (f, p) ∈ Family.knownParts)
    (calls : List Call) {s : Session (Lossy Emulator)} {m : Emulator} {limit n : Nat}
    (start : s.link = ⟨m, some limit, n⟩) (rest : Resting p f setup m s.device?)
    (carried : (s.afterAll calls).link.attempted ≤ limit) :
    ∃ m' n', (s.afterAll calls).link = ⟨m', some limit, n'⟩ ∧
      Resting p f setup m' (s.afterAll calls).device? := by
  induction calls generalizing s m n with
  | nil => exact ⟨m, n, start, rest⟩
  | cons c calls ih =>
    obtain ⟨link, device⟩ := s.after_outcome c
    rw [start] at link device
    have first : (s.after c).link.attempted ≤ limit :=
      Nat.le_trans (attempted_le_afterAll calls (s.after c)) carried
    rw [link] at first
    have same := lossy_outcome_of_le (c.procedure s.device?) m
      (transfers_le_of_attempted_le (c.procedure s.device?) m first)
    rw [same] at link device
    have kept := (along_procedure emulates known rest c).outcome
    rw [← device] at kept
    exact ih link kept carried

/-- The same on a link that can be lost, as long as it has refused nothing. -/
theorem Follows.resting_lossy {s : Session (Lossy Emulator)} {memory : Memory} {limit : Nat}
    (emulates : setup.Emulates p) (known : (f, p) ∈ Family.knownParts) (sized : memory.Sized setup)
    (follows : s.Follows ⟨.powerUp setup memory, some limit, 0⟩)
    (carried : s.link.attempted ≤ limit) :
    ∃ m n, s.link = ⟨m, some limit, n⟩ ∧ Resting p f setup m s.device? := by
  obtain ⟨calls, rfl⟩ := follows
  exact resting_lossy_afterAll emulates known calls rfl
    (resting_powerUp (emulates.suited known) sized) carried

end Session

/-! ## A session to try things on -/

def Part.pic18f452 : Part := Family.f2xx.part "PIC18F452" 0x04 0b001 32

def Setup.pic18f452 : Setup := (Setup.ofPart .pic18f452).withRevision 7

def Device.pic18f452 : Device := ⟨0x2704, .pic18f452, .f2xx⟩

theorem Setup.emulates_pic18f452 : Setup.pic18f452.Emulates .pic18f452 := ⟨7, 2, false, rfl⟩

theorem Part.pic18f452_mem_knownParts : (Family.f2xx, Part.pic18f452) ∈ Family.knownParts := by
  decide

def Memory.zeroed (s : Setup) : Memory where
  code := Array.replicate s.codeSize 0
  config := Array.replicate s.configBytes 0
  eeprom := Array.replicate s.eepromSize 0

theorem Memory.sized_zeroed (s : Setup) : (Memory.zeroed s).Sized s :=
  ⟨Array.size_replicate, Array.size_replicate, Array.size_replicate⟩

def Session.onPic18f452 : Session Emulator :=
  ({ link := .powerUp .pic18f452 (.zeroed .pic18f452) } : Session Emulator).after .identify

theorem Session.follows_onPic18f452 :
    Session.onPic18f452.Follows (.powerUp .pic18f452 (.zeroed .pic18f452)) :=
  ⟨[.identify], rfl⟩

theorem Session.device?_onPic18f452 :
    Session.onPic18f452.device? = some .pic18f452 := by
  decide

theorem Session.memory_onPic18f452 : Session.onPic18f452.link.memory = .zeroed .pic18f452 := rfl

def Session.onPic18f452For (limit : Nat) : Session (Lossy Emulator) :=
  ({ link := ⟨.powerUp .pic18f452 (.zeroed .pic18f452), some limit, 0⟩ } :
    Session (Lossy Emulator)).after .identify

theorem Session.follows_onPic18f452For (limit : Nat) :
    (Session.onPic18f452For limit).Follows
      ⟨.powerUp .pic18f452 (.zeroed .pic18f452), some limit, 0⟩ :=
  ⟨[.identify], rfl⟩

/-! ## Nothing left under way -/

namespace Emulator

/-- No cycle is armed or loaded, no row erase is chosen, no EEPROM write is unlocked, and the
control registers do not hold the key of the bulk erase. -/
structure Quiet (m : Emulator) : Prop where
  armed : m.armed = none
  latch : m.latch = {}
  configLatch : m.configLatch = {}
  free : m.flag Eecon1.free = false
  unlock : m.unlock = .none
  keyless : m.isKeyed = false

variable {p : Part} {s : Setup} {m : Emulator}

theorem Resting.keyless (hm : Resting p s m) : m.isKeyed = false := by
  have low : m.eraseKeyLow = 0 := congrArg Lock.keyLow hm.idle.lock
  have high : m.eraseKeyHigh = 0 := congrArg Lock.keyHigh hm.idle.lock
  cases hf : m.family with
  | f2xx => simp [isKeyed, hf, Family.eraseKey, controlRegister, low]
  | f2xxx => simp [isKeyed, hf, Family.eraseKey, controlRegister, low, high]

theorem Resting.quiet (hm : Resting p s m) : m.Quiet where
  armed := hm.idle.armed
  latch := hm.idle.latch
  configLatch := hm.idle.configLatch
  free := hm.free
  unlock := congrArg Lock.unlock hm.idle.lock
  keyless := hm.keyless

end Emulator

namespace Session

/-- Whatever calls there have been since power-up, and however they ended, nothing is left under
way in the part. -/
theorem Follows.leaves_quiet {p : Part} {f : Family} {setup : Setup} {memory : Memory}
    {s : Session Emulator} (known : (f, p) ∈ Family.knownParts) (emulates : setup.Emulates p)
    (sized : memory.Sized setup) (follows : s.Follows (.powerUp setup memory)) : s.link.Quiet :=
  (follows.resting emulates known sized).part.quiet

/-- A write refused once the part is erased, an EEPROM write that times out, and a page erase. -/
theorem Follows.leaves_quiet_refused :
    (({ link := .powerUp { Setup.pic18f452 with stuck := true } (.zeroed .pic18f452) } :
      Session Emulator).afterAll [.identify, .write (.blank 0 1) .bulk,
        .programEeprom { Image.blank 0 0 with eeprom := #[0x5A] }, .pageErase]).link.Quiet :=
  Follows.leaves_quiet Part.pic18f452_mem_knownParts ⟨7, 2, true, rfl⟩ (Memory.sized_zeroed _)
    ⟨_, rfl⟩

end Session

end InCircuit
