import InCircuit.Proofs.CommandLine.Jobs
import InCircuit.Proofs.Sessions.Tracing

set_option autoImplicit false

/-!
# Commands with a log

A log changes nothing but itself: not what calls bring, not the reports, not the part, and not what
an action prints, reads, writes or fails with. Once it is full it stays as it is.
-/
namespace InCircuit

theorem Task.bind_bind {α β γ : Type} (f : α → Task β) (g : β → Task γ) (t : Task α) :
    (t.bind f).bind g = t.bind fun a => (f a).bind g := by
  induction t with
  | done a => rfl
  | print line next ih => exact congrArg (Task.print line) ih
  | printError line next ih => exact congrArg (Task.printError line) ih
  | readFile path next ih => exact congrArg (Task.readFile path) (funext ih)
  | writeFile path content next ih => exact congrArg (Task.writeFile path content) (funext ih)

namespace Job

variable {τ σ α β : Type} {f : τ → σ}

/-- Over a mapped session the one job does what the other does, and leaves the mapped session. -/
def Alike (f : τ → σ) (j : Job τ α) (k : Job σ α) : Prop :=
  ∀ s : Session τ, k.run.run (s.map f) = (j.run.run s).bind fun r => .done (r.1, r.2.map f)

theorem run_bind (j : Job σ α) (next : α → Job σ β) (s : Session σ) :
    (j >>= next).run.run s = (j.run.run s).bind fun r =>
      match r.1 with
      | .ok a => (next a).run.run r.2
      | .error e => .done (.error e, r.2) := by
  change Task.bind _ (j.run.run s) = _
  congr 1
  funext r
  obtain ⟨_ | a, s⟩ := r <;> rfl

theorem Alike.bind {j : Job τ α} {k : Job σ α} {next : α → Job τ β} {next' : α → Job σ β}
    (h : Alike f j k) (rest : ∀ a, Alike f (next a) (next' a)) :
    Alike f (j >>= next) (k >>= next') := by
  intro s
  rw [run_bind, run_bind, h s, Task.bind_bind, Task.bind_bind]
  congr 1
  funext r
  obtain ⟨_ | a, s⟩ := r
  · rfl
  · exact rest a s

theorem alike_mk (f : τ → σ) (v : Except Failure α) :
    Alike f (ExceptT.mk (pure v)) (ExceptT.mk (pure v)) := fun _ => rfl

theorem alike_ite {p : Prop} [Decidable p] {j j' : Job τ α} {k k' : Job σ α} (h : Alike f j k)
    (h' : Alike f j' k') : Alike f (if p then j else j') (if p then k else k') := by
  split
  · exact h
  · exact h'

theorem alike_ofTask (f : τ → σ) (t : Task α) : Alike f (ofTask t) (ofTask t) := fun s =>
  (Task.bind_bind (fun a => .done (Except.ok a, s)) (fun r => .done (r.1, r.2.map f)) t).symm

theorem alike_print (f : τ → σ) (line : String) : Alike f (print line) (print line) :=
  alike_ofTask f _

theorem alike_ofExcept {ε : Type} (f : τ → σ) (cause : ε → Failure) (v : Except ε α) :
    Alike f (ofExcept cause v) (ofExcept cause v) := by
  cases v with
  | ok a => exact alike_mk f (.ok a)
  | error e => exact alike_mk f (.error (cause e))

theorem alike_onSession {op : Session τ → Except Fault α × Session τ}
    {op' : Session σ → Except Fault α × Session σ}
    (h : ∀ s, op' (s.map f) = ((op s).1, (op s).2.map f)) :
    Alike f (onSession op) (onSession op') := by
  intro s
  simp only [onSession, ExceptT.run_mk, StateT.run, h s]
  cases op s with
  | mk v after => cases v <;> rfl

theorem alike_loadHex (f : τ → σ) (path : String) (capacity : Nat) :
    Alike f (loadHex path capacity) (loadHex path capacity) := by
  refine (alike_ofTask f _).bind fun r => (alike_ofExcept f _ r).bind fun content => ?_
  cases String.fromUTF8? content with
  | none => exact alike_mk f _
  | some text => exact alike_ofExcept f _ _

theorem alike_identify [Link τ] [Link σ] (f : τ → σ) (d : Device) :
    Alike f (identify d) (identify d) := by
  unfold identify
  repeat' first
    | exact alike_print f _
    | refine (alike_print f _).bind fun _ => ?_

variable [Link τ] [Link σ]

theorem alike_read (hom : Link.Hom f) (output : String) (offset size : Nat) (eeprom : Bool) :
    Alike f (read output offset size eeprom) (read output offset size eeprom) := by
  have all (s : Session τ) := s.onDevice_map hom (·.readAll offset size eeprom)
  refine (alike_onSession all).bind fun i => (alike_print f _).bind fun _ => ?_
  split
  · exact (alike_ofExcept f _ _).bind fun _ => (alike_ofTask f _).bind fun r =>
      (alike_ofExcept f _ r).bind fun _ => alike_print f _
  · exact (alike_ofTask f _).bind fun r => (alike_ofExcept f _ r).bind fun _ => alike_print f _

theorem alike_confirm (hom : Link.Hom f) (i : Image) (verify : Bool) :
    Alike f (confirm i verify) (confirm i verify) := by
  have verified : Alike f (onSession (·.verify i)) (onSession (·.verify i)) :=
    alike_onSession fun s => s.onDevice_map hom (·.verify i)
  exact alike_ite (verified.bind fun _ => (alike_print f _).bind fun _ => alike_print f _)
    (alike_print f _)

theorem alike_finish (hom : Link.Hom f) (i : Image) (verify eeprom : Bool) :
    Alike f (finish i verify eeprom) (finish i verify eeprom) := by
  have stored : Alike f (onSession (·.programEeprom i)) (onSession (·.programEeprom i)) :=
    alike_onSession fun s => s.onDevice_map hom (·.programEeprom i)
  exact alike_ite (stored.bind fun _ => alike_confirm hom i verify) (alike_confirm hom i verify)

theorem alike_write (hom : Link.Hom f) (d : Device) (input : String) (mode : EraseMode)
    (verify eeprom : Bool) :
    Alike f (write d input mode verify eeprom) (write d input mode verify eeprom) := by
  refine (alike_loadHex f _ _).bind fun i => (alike_print f _).bind fun _ =>
    Alike.bind ?_ fun _ => alike_finish hom i verify eeprom
  exact alike_onSession fun s => s.onDevice_map hom (·.write i mode)

theorem alike_erase (hom : Link.Hom f) (d : Device) (mode : EraseMode) :
    Alike f (erase d mode) (erase d mode) := by
  have erased : Alike f (onSession (Session.erase · mode)) (onSession (Session.erase · mode)) :=
    alike_onSession fun s => s.onDevice_map hom (·.erase mode)
  cases mode with
  | bulk => exact (alike_print f _).bind fun _ => erased.bind fun _ => alike_print f _
  | pages => exact (alike_print f _).bind fun _ => erased.bind fun _ => alike_print f _

theorem alike_verify (hom : Link.Hom f) (d : Device) (input : String) :
    Alike f (verify d input) (verify d input) :=
  (alike_loadHex f _ _).bind fun i =>
    (alike_onSession fun s => s.onDevice_map hom (·.verify i)).bind fun _ => alike_print f _

theorem alike_action (hom : Link.Hom f) (a : Action) : Alike f a.job a.job := by
  refine (alike_onSession fun s => s.identify_map hom).bind fun d =>
    (alike_print f _).bind fun _ => ?_
  cases a with
  | identify => exact alike_identify f d
  | read output offset size eeprom => exact alike_read hom output offset size eeprom
  | write input mode check eeprom => exact alike_write hom d input mode check eeprom
  | erase mode => exact alike_erase hom d mode
  | verify input => exact alike_verify hom d input

omit [Link τ] [Link σ] in
theorem Alike.result {j : Job τ α} {k : Job σ α} (h : Alike f j k) (s : Session τ) (c : Console) :
    k.result (s.map f) c =
      (((j.result s c).1.1, (j.result s c).1.2.map f), (j.result s c).2) := by
  rw [Job.result, h s, Task.runIn_bind]
  rfl

end Job

namespace Session

variable {σ : Type} [Link σ]

/-- A session that has been worked on over a link, over a traced link and over one that keeps what
it is asked for, to the same end. The log has the first commands that were asked for. -/
def Traces (capacity : Nat) (s : Session σ) (logged : Session (Traced σ))
    (recorded : Session (Answered σ)) : Prop :=
  ∃ log asked, logged = s.map (⟨·, log⟩) ∧ recorded = s.map (⟨·, asked⟩) ∧
    TransferLog.Records capacity asked log

omit [Link σ] in
theorem traces_map (capacity : Nat) (s : Session (Answered σ)) :
    Traces capacity (s.map (·.target)) (s.map (Answered.traced capacity)) s :=
  ⟨_, s.link.exchanges, rfl, rfl, TransferLog.records_ofExchanges _ _⟩

theorem calls_traced (s : Session σ) (capacity : Nat) (calls : List Call) :
    (s.traced capacity).bringsAll calls = s.bringsAll calls ∧
      Traces capacity (s.afterAll calls) ((s.traced capacity).afterAll calls)
        (s.onRecord.afterAll calls) := by
  obtain ⟨brought, after⟩ := s.onRecord.calls_map (Answered.hom_traced capacity) calls
  obtain ⟨brought', after'⟩ := s.onRecord.calls_map Answered.hom_target calls
  rw [map_onRecord_traced] at brought after
  rw [map_onRecord_target] at brought' after'
  rw [brought, brought', after, after']
  exact ⟨rfl, traces_map capacity _⟩

theorem action_traced (s : Session σ) (capacity : Nat) (a : Action) (c : Console) :
    (a.job.result (s.traced capacity) c).1.1 = (a.job.result s c).1.1 ∧
      (a.job.result (s.traced capacity) c).2 = (a.job.result s c).2 ∧
      Traces capacity (a.job.result s c).1.2 (a.job.result (s.traced capacity) c).1.2
        (a.job.result s.onRecord c).1.2 := by
  have logged := (Job.alike_action (Answered.hom_traced capacity) a).result s.onRecord c
  have plain := (Job.alike_action Answered.hom_target a).result s.onRecord c
  rw [map_onRecord_traced] at logged
  rw [map_onRecord_target] at plain
  rw [logged, plain]
  exact ⟨rfl, rfl, traces_map capacity _⟩

end Session

theorem Action.runOver_traced {σ : Type} [Link σ] (a : Action) (link : σ) (series : Series)
    (capacity : Nat) (c : Console) :
    ((a.runOver (⟨link, { capacity }⟩ : Traced σ) series).runIn c).1.1 =
        ((a.runOver link series).runIn c).1.1 ∧
      ((a.runOver (⟨link, { capacity }⟩ : Traced σ) series).runIn c).2 =
        ((a.runOver link series).runIn c).2 := by
  obtain ⟨result, console, _⟩ := ({ link, series } : Session σ).action_traced capacity a c
  exact ⟨result, console⟩

namespace Request

theorem runIn_printErrors (lines : List String) (c : Console) :
    ∃ text, (printErrors lines).runIn c = ((), { c with err := c.err ++ text }) := by
  induction lines generalizing c with
  | nil => exact ⟨"", by rw [String.append_empty]; rfl⟩
  | cons line lines ih =>
    obtain ⟨text, printed⟩ := ih { c with err := c.err ++ line ++ "\n" }
    refine ⟨line ++ "\n" ++ text, printed.trans ?_⟩
    simp only [String.append_assoc]

variable {α β : Type}

theorem runIn_result (t : Task (α × β)) (c : Console) :
    ((do let r ← t; return r.1).runIn c).1 = (t.runIn c).1.1 ∧
      ((do let r ← t; return r.1).runIn c).2 = (t.runIn c).2 := by
  have ran := Task.runIn_bind (fun r => Task.done r.1) t c
  exact ⟨congrArg Prod.fst ran, congrArg Prod.snd ran⟩

theorem runIn_thenPrint (t : Task (α × β)) (lines : β → List String) (c : Console) :
    ∃ text, (do let r ← t; printErrors (lines r.2); return r.1).runIn c =
      ((t.runIn c).1.1, { (t.runIn c).2 with err := (t.runIn c).2.err ++ text }) := by
  obtain ⟨text, printed⟩ := runIn_printErrors (lines (t.runIn c).1.2) (t.runIn c).2
  refine ⟨text, (Task.runIn_bind _ t c).trans ((Task.runIn_bind _ _ _).trans ?_)⟩
  rw [printed]
  rfl

/-- With a log, a command prints the log at the end, and does nothing else differently. -/
theorem runSession_traced (o : SessionOptions) (capacity : Nat) (a : Action) (c : Console) :
    ∃ text, (runSession { o with trace? := some capacity } a).runIn c =
      (((runSession { o with trace? := none } a).runIn c).1,
        { ((runSession { o with trace? := none } a).runIn c).2 with
          err := ((runSession { o with trace? := none } a).runIn c).2.err ++ text }) := by
  unfold runSession
  cases o.programmer.connect with
  | error cause => exact ⟨"", by rw [String.append_empty]⟩
  | ok emulator =>
    simp only
    obtain ⟨value, console⟩ := runIn_result (a.runOver emulator o.series) c
    obtain ⟨value', console'⟩ := a.runOver_traced emulator o.series capacity c
    obtain ⟨text, printed⟩ := runIn_thenPrint
      (a.runOver (⟨emulator, { capacity }⟩ : Traced Emulator) o.series)
      (fun s => ("ICSP command log (" ++ Text.decimal s.link.log.lines.size ++ " of " ++
        Text.decimal s.link.log.capacity ++ " records):") :: s.link.log.texts) c
    rw [value', console', ← value, ← console] at printed
    exact ⟨text, printed⟩

end Request

/-- Over any link, calls and actions over the traced link go as over the link itself, and the log
has the first commands that were asked for. So a command that is to trace does what it does
otherwise, and prints the log. -/
theorem Session.log_transparent {σ : Type} [Link σ] (s : Session σ) (capacity : Nat) :
    (∀ calls, (s.traced capacity).bringsAll calls = s.bringsAll calls ∧
      Traces capacity (s.afterAll calls) ((s.traced capacity).afterAll calls)
        (s.onRecord.afterAll calls)) ∧
    (∀ (a : Action) (c : Console),
      (a.job.result (s.traced capacity) c).1.1 = (a.job.result s c).1.1 ∧
        (a.job.result (s.traced capacity) c).2 = (a.job.result s c).2 ∧
        Traces capacity (a.job.result s c).1.2 (a.job.result (s.traced capacity) c).1.2
          (a.job.result s.onRecord c).1.2) ∧
    ∀ (o : SessionOptions) (a : Action) (c : Console), ∃ text,
      (Request.runSession { o with trace? := some capacity } a).runIn c =
        (((Request.runSession { o with trace? := none } a).runIn c).1,
          { ((Request.runSession { o with trace? := none } a).runIn c).2 with
            err := ((Request.runSession { o with trace? := none } a).runIn c).2.err ++ text }) :=
  ⟨s.calls_traced capacity, s.action_traced capacity, fun o => Request.runSession_traced o capacity⟩

end InCircuit
