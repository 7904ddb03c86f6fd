import InCircuit.Proofs.Sessions.Halting

set_option autoImplicit false

/-!
# Links that answer alike

A map between two kinds of links that goes along with every transfer takes any run over the one to a
run over the other: the same result, the same reports, and the mapped link at the end. What a
decorator adds to a link is forgotten by such a map.
-/
namespace InCircuit

/-- Each transfer is answered over `f l` as over `l`, and leads to the mapped state. -/
def Link.Hom {τ σ : Type} [Link τ] [Link σ] (f : τ → σ) : Prop :=
  ∀ t l, Link.clock t (f l) = ((Link.clock t l).1, f (Link.clock t l).2)

theorem Answered.hom_target {σ : Type} [Link σ] : Link.Hom fun l : Answered σ => l.target :=
  fun _ _ => rfl

variable {τ σ : Type}

theorem Procedure.run_map [Link τ] [Link σ] {f : τ → σ} (hom : Link.Hom f) {ε α : Type}
    (p : Procedure ε α) (l : τ) (events : Array ε) :
    p.run (f l) events =
      ⟨(p.run l events).value, f (p.run l events).link, (p.run l events).events⟩ := by
  induction p generalizing l events with
  | done a => rfl
  | emit e next ih => exact ih l (events.push e)
  | clock t next ih =>
    simp only [Procedure.run, hom t l]
    exact ih (Link.clock t l).1 (Link.clock t l).2 events

inductive Brought where
  | nothing
  | id (r : Except Fault UInt16)
  | device (r : Except Fault Device)
  | done (r : Except Fault Unit)
  | image (r : Except Fault Image)
  | filled (r : Except Fault Unit) (i : Image)
  | compared (r : Except Fault Compared)

namespace Session

variable {α : Type}

def map (f : τ → σ) (s : Session τ) : Session σ := ⟨f s.link, s.series, s.device?, s.sink⟩

section

variable [Link σ]

def brings (s : Session σ) : Call → Brought
  | .deviceId => .id s.deviceId.1
  | .identify => .device s.identify.1
  | .bulkErase => .done s.bulkErase.1
  | .pageErase => .done s.pageErase.1
  | .erase mode => .done (s.erase mode).1
  | .programCode i => .done (s.programCode i).1
  | .programConfig i => .done (s.programConfig i).1
  | .programEeprom i => .done (s.programEeprom i).1
  | .readCode offset size => .image (s.readCode offset size).1
  | .readConfigInto i => .filled (s.readConfigInto i).1.1 (s.readConfigInto i).1.2
  | .readEepromInto i => .filled (s.readEepromInto i).1.1 (s.readEepromInto i).1.2
  | .readAll offset size eeprom => .image (s.readAll offset size eeprom).1
  | .write i mode => .done (s.write i mode).1
  | .verify source => .compared (s.verify source).1
  | .report _ | .reopen => .nothing

def bringsAll (s : Session σ) : List Call → List Brought
  | [] => []
  | c :: calls => s.brings c :: (s.after c).bringsAll calls

end

variable [Link τ] [Link σ] {f : τ → σ}

theorem perform_map (hom : Link.Hom f) (s : Session τ) (p : Procedure Report α) :
    (s.map f).perform p = ((s.perform p).1, (s.perform p).2.map f) := by
  obtain ⟨link, series, device?, _ | reports⟩ := s
  · simp only [map, perform, p.run_map hom]
  · simp only [map, perform, p.run_map hom]

theorem onDevice_map (hom : Link.Hom f) (s : Session τ) (r : Device → Routine Report α) :
    (s.map f).onDevice r = ((s.onDevice r).1, (s.onDevice r).2.map f) := by
  cases hd : s.device? with
  | none => rw [onDevice_none hd, onDevice_none (show (s.map f).device? = none from hd)]
  | some d =>
    rw [onDevice, onDevice, hd, show (s.map f).device? = some d from hd]
    exact s.perform_map hom (r d).run

theorem identify_map (hom : Link.Hom f) (s : Session τ) :
    (s.map f).identify = (s.identify.1, s.identify.2.map f) := by
  have performed : ({ s.map f with device? := none } : Session σ).perform Device.identify.run = _ :=
    ({ s with device? := none } : Session τ).perform_map hom Device.identify.run
  unfold identify
  rw [performed]
  generalize ({ s with device? := none } : Session τ).perform Device.identify.run = ran
  obtain ⟨_ | d, s⟩ := ran <;> rfl

theorem fillOnDevice_map (hom : Link.Hom f) (s : Session τ) (i : Image)
    (fill : Device → Image → Procedure Report (Except Fault Unit × Image)) :
    (s.map f).fillOnDevice i fill =
      ((s.fillOnDevice i fill).1, (s.fillOnDevice i fill).2.map f) := by
  cases hd : s.device? with
  | none => rw [fillOnDevice_none hd, fillOnDevice_none (show (s.map f).device? = none from hd)]
  | some d =>
    rw [fillOnDevice_some hd, fillOnDevice_some (show (s.map f).device? = some d from hd)]
    exact s.perform_map hom (fill d i)

theorem call_map (hom : Link.Hom f) (s : Session τ) (c : Call) :
    (s.map f).brings c = s.brings c ∧ (s.map f).after c = (s.after c).map f := by
  have works {α : Type} (r : Device → Routine Report α) :
      ((s.map f).onDevice r).1 = (s.onDevice r).1 ∧
        ((s.map f).onDevice r).2 = (s.onDevice r).2.map f := by
    rw [s.onDevice_map hom r]
    exact ⟨rfl, rfl⟩
  cases c with
  | report sink => exact ⟨rfl, rfl⟩
  | reopen => exact ⟨rfl, rfl⟩
  | deviceId =>
    have performed := s.perform_map hom (Routine.fetchDeviceId (ε := Report)).run
    exact ⟨congrArg Brought.id (congrArg Prod.fst performed), congrArg Prod.snd performed⟩
  | identify =>
    have identified := s.identify_map hom
    exact ⟨congrArg Brought.device (congrArg Prod.fst identified), congrArg Prod.snd identified⟩
  | readConfigInto i | readEepromInto i =>
    have filled := s.fillOnDevice_map hom i
    constructor
    · exact congrArg (fun v => Brought.filled v.1 v.2) (congrArg Prod.fst (filled _))
    · exact congrArg Prod.snd (filled _)
  | bulkErase | pageErase | erase _ | programCode _ | programConfig _ | programEeprom _
  | write _ _ => exact ⟨congrArg Brought.done (works _).1, (works _).2⟩
  | readCode _ _ | readAll _ _ _ =>
    exact ⟨congrArg Brought.image (works _).1, (works _).2⟩
  | verify _ => exact ⟨congrArg Brought.compared (works _).1, (works _).2⟩

theorem calls_map (hom : Link.Hom f) (calls : List Call) (s : Session τ) :
    (s.map f).bringsAll calls = s.bringsAll calls ∧
      (s.map f).afterAll calls = (s.afterAll calls).map f := by
  induction calls generalizing s with
  | nil => exact ⟨rfl, rfl⟩
  | cons c calls ih =>
    obtain ⟨brought, after⟩ := s.call_map hom c
    obtain ⟨later, last⟩ := ih (s.after c)
    constructor
    · rw [bringsAll, bringsAll, brought, after, later]
    · rw [afterAll, List.foldl_cons, after]
      exact last

end Session

end InCircuit
