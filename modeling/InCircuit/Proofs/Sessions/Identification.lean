import InCircuit.Proofs.Plans
import InCircuit.Proofs.Sessions.Halting

set_option autoImplicit false

/-!
# The identified device

A session works on the device that its latest identification was answered with. The device is a part
of its own family and goes by the word that was read then. Without a device every operation on it is
refused, and nothing at all happens.
-/
namespace InCircuit

namespace Device

open Procedure Routine

theorem ofId_eq_ok {id : UInt16} {d : Device} (h : ofId id = .ok d) :
    d.id = id ∧ d.part ∈ d.family.parts ∧ d.part.matchesId id = true ∧
      DeviceId.familyCode id ∈ d.family.codes := by
  unfold ofId at h
  split at h
  · rename_i f claimed
    unfold Device.bind Family.find at h
    split at h
    · rename_i p found
      injection h with h
      subst h
      have named := List.find?_some found
      have code := List.find?_some claimed
      exact ⟨rfl, List.mem_of_find?_eq_some found, named, List.contains_iff_mem.mp code⟩
    · cases h
  · cases h

theorem says_identify : identify.run.Says fun v said => ∀ d, v = .ok d →
    ∃ pointed low high,
      said = pointed ++ [(.receive .tableReadPostInc, low), (.receive .tableReadPostInc, high)] ∧
      pointed.map Prod.fst = Transfer.pointing Address.deviceId ∧
      ofId (UInt16.ofNat (high.toNat * 256 + low.toNat)) = .ok d := by
  have pointed : Sends (setPointer Address.deviceId : Routine Report Unit)
      (Transfer.pointing Address.deviceId) := sends_setPointer (by decide)
  refine Routine.says_bind (Routine.says_bind (pointed.mono ?_))
  rintro _ said ⟨⟨u, rfl⟩, plan⟩ low high d h
  exact ⟨said, low, high, List.append_nil _, plan, h⟩

end Device

namespace Call

def isWork : Call → Bool
  | deviceId | identify | report _ | reopen => false
  | _ => true

def image? : Call → Option Image
  | programCode i | programConfig i | programEeprom i | readConfigInto i | readEepromInto i
  | write i _ | verify i => some i
  | _ => none

end Call

namespace Session

open Procedure

variable {σ : Type} [Link σ]

/-- The image that a call was given, as the call leaves it. -/
def imageAfter (s : Session σ) : Call → Option Image
  | .readConfigInto i => some (s.readConfigInto i).1.2
  | .readEepromInto i => some (s.readEepromInto i).1.2
  | c => c.image?

/-- The call is refused for want of a device; link, reports and image stay as they are. -/
structure RefusedUnbound (s : Session σ) (c : Call) : Prop where
  answer : s.answer c = .error .noDevice
  session : s.after c = s
  asked : (s.onRecord.after c).link.exchanges = []
  image : s.imageAfter c = c.image?

theorem refused_unbound {s : Session σ} (h : s.device? = none) {c : Call} (work : c.isWork = true) :
    s.RefusedUnbound c := by
  have idle {α : Type} (r : Device → Routine Report α) : s.onDevice r = (.error .noDevice, s) :=
    onDevice_none h r
  have brings {α : Type} (r : Device → Routine Report α) :
      (s.onDevice r).1.map (fun _ => ()) = .error .noDevice := by rw [idle r]; rfl
  have unfilled {fill : Device → Image → Procedure Report (Except Fault Unit × Image)} (i : Image) :
      s.fillOnDevice i fill = ((.error .noDevice, i), s) := fillOnDevice_none h i
  have asked : (s.onRecord.after c).link.exchanges = [] := by
    rw [onRecord_after, h]
    cases c with
    | deviceId | identify => cases work
    | _ => rfl
  cases c with
  | deviceId | identify | report _ | reopen => cases work
  | bulkErase | pageErase | erase _ | programCode _ | programConfig _ | programEeprom _
  | write _ _ =>
    exact ⟨congrArg Prod.fst (idle _), congrArg Prod.snd (idle _), asked, rfl⟩
  | readCode _ _ | readAll _ _ _ | verify _ =>
    exact ⟨brings _, congrArg Prod.snd (idle _), asked, rfl⟩
  | readConfigInto i | readEepromInto i =>
    exact ⟨congrArg (·.1.1) (unfilled i), congrArg Prod.snd (unfilled i), asked,
      congrArg some (congrArg (·.1.2) (unfilled i))⟩

/-! ## The device after calls -/

/-- An identification decides the device, a new session has none, and no other call matters. -/
theorem device?_after (s : Session σ) (c : Call) :
    (s.after c).device? = match c with
      | .identify => s.identify.1.toOption
      | .reopen => none
      | _ => s.device? := by
  have works {α : Type} (d : Device) (p : Procedure Report α) :
      ((Call.working d p).outcome s.link).1 = some d := by
    rw [Call.working, outcome_bind]
    rfl
  cases c with
  | identify => exact s.identify_outcome.2.2
  | reopen => rfl
  | report sink => rfl
  | deviceId => exact (s.perform_outcome Routine.fetchDeviceId.run).2.2
  | bulkErase | pageErase | erase _ | programCode _ | programConfig _ | programEeprom _
  | readCode _ _ | readConfigInto _ | readEepromInto _ | readAll _ _ _ | write _ _ | verify _ =>
    rw [(s.after_outcome _).2]
    cases h : s.device? with
    | none => rfl
    | some d => exact works d _

theorem afterAll_append (s : Session σ) (calls later : List Call) :
    s.afterAll (calls ++ later) = (s.afterAll calls).afterAll later := List.foldl_append

theorem device?_afterAll_of_kept (s : Session σ) {calls : List Call}
    (h : ∀ c ∈ calls, c ≠ .identify ∧ c ≠ .reopen) : (s.afterAll calls).device? = s.device? := by
  induction calls generalizing s with
  | nil => rfl
  | cons c calls ih =>
    change ((s.after c).afterAll calls).device? = _
    rw [ih _ fun x hx => h x (List.mem_cons_of_mem c hx), device?_after]
    obtain ⟨hi, hr⟩ := h c List.mem_cons_self
    cases c with
    | identify => exact absurd rfl hi
    | reopen => exact absurd rfl hr
    | _ => rfl

/-- A device comes from the latest identification, if it was not there before. -/
theorem identified_of_device? {d : Device} (calls : List Call) {s : Session σ}
    (h : (s.afterAll calls).device? = some d) :
    (s.device? = some d ∧ ∀ c ∈ calls, c ≠ .identify ∧ c ≠ .reopen) ∨
      ∃ earlier later, calls = earlier ++ .identify :: later ∧
        (∀ c ∈ later, c ≠ .identify ∧ c ≠ .reopen) ∧
        (s.afterAll earlier).identify.1 = .ok d := by
  induction calls generalizing s with
  | nil => exact .inl ⟨h, fun c hc => nomatch hc⟩
  | cons c calls ih =>
    obtain ⟨bound, kept⟩ | ⟨earlier, later, rfl, kept, answer⟩ := ih h
    · rw [device?_after] at bound
      cases c with
      | identify =>
        refine .inr ⟨[], calls, rfl, kept, ?_⟩
        change s.identify.1 = .ok d
        cases answer : s.identify.1 with
        | error e => rw [answer] at bound; cases bound
        | ok e => rw [answer] at bound; exact congrArg Except.ok (Option.some.inj bound)
      | reopen => cases bound
      | _ => exact .inl ⟨bound, List.forall_mem_cons.mpr ⟨⟨nofun, nofun⟩, kept⟩⟩
    · exact .inr ⟨c :: earlier, later, rfl, kept, answer⟩

omit [Link σ] in
theorem device_eq_ok {s : Session σ} {d : Device} : s.device = .ok d ↔ s.device? = some d := by
  unfold device
  cases s.device? with
  | none => simp
  | some e => simp

omit [Link σ] in
theorem device_eq_error {s : Session σ} : s.device = .error .noDevice ↔ s.device? = none := by
  unfold device
  cases s.device? with
  | none => simp
  | some e => simp

theorem exchanges_identify (device? : Option Device) (link : σ) :
    (Call.identify.procedure device?).exchanges link = Device.identify.run.exchanges link := by
  refine exchanges_bind_silent _ (fun v m => ?_) link
  cases v <;> rfl

theorem read_of_identify {s : Session σ} {d : Device} (h : s.identify.1 = .ok d) :
    ∃ pointed low high,
      (s.onRecord.after .identify).link.exchanges = pointed ++
        [(.receive .tableReadPostInc, .ok low), (.receive .tableReadPostInc, .ok high)] ∧
      pointed.map Prod.fst = Transfer.pointing Address.deviceId ∧
      Device.ofId (UInt16.ofNat (high.toNat * 256 + low.toNat)) = .ok d := by
  rw [s.identify_outcome.1] at h
  obtain ⟨said, asked, read⟩ := Device.halts_identify.said Device.says_identify s.link h
  obtain ⟨pointed, low, high, rfl, plan, named⟩ := read d rfl
  refine ⟨pointed.map fun x => (x.1, .ok x.2), low, high, ?_, ?_, named⟩
  · rw [onRecord_after, exchanges_identify, asked, List.map_append]
    rfl
  · rw [← plan, List.map_map]
    rfl

/-- The device of a session is the answer of its latest identification. It is a part of its own
family and goes by the word read then. While there is none, whatever needs it is refused. -/
theorem device_of_latest_identify (link : σ) (calls : List Call) :
    (∀ d, (({ link } : Session σ).afterAll calls).device = .ok d ↔
      ∃ earlier later, calls = earlier ++ .identify :: later ∧
        (∀ c ∈ later, c ≠ .identify ∧ c ≠ .reopen) ∧
        (({ link } : Session σ).afterAll earlier).identify.1 = .ok d) ∧
    (∀ earlier later d, calls = earlier ++ .identify :: later →
      (({ link } : Session σ).afterAll earlier).identify.1 = .ok d →
      d.part ∈ d.family.parts ∧ d.part.matchesId d.id = true ∧
      DeviceId.familyCode d.id ∈ d.family.codes ∧
      ∃ pointed low high,
        ((({ link } : Session σ).afterAll earlier).onRecord.after .identify).link.exchanges =
          pointed ++
            [(.receive .tableReadPostInc, .ok low), (.receive .tableReadPostInc, .ok high)] ∧
        pointed.map Prod.fst = Transfer.pointing Address.deviceId ∧
        d.id = UInt16.ofNat (high.toNat * 256 + low.toNat)) ∧
    ((({ link } : Session σ).afterAll calls).device = .error .noDevice →
      ∀ c : Call, c.isWork = true → (({ link } : Session σ).afterAll calls).RefusedUnbound c) := by
  refine ⟨fun d => ⟨fun h => ?_, ?_⟩, fun earlier later d _ answer => ?_, fun h c work => ?_⟩
  · obtain ⟨bound, _⟩ | identified := identified_of_device? calls (device_eq_ok.mp h)
    · cases bound
    · exact identified
  · rintro ⟨earlier, later, rfl, kept, answer⟩
    rw [device_eq_ok, afterAll_append]
    change (((({ link } : Session σ).afterAll earlier).after .identify).afterAll later).device? = _
    rw [device?_afterAll_of_kept _ kept, device?_after]
    simp only [answer]
    rfl
  · obtain ⟨pointed, low, high, asked, plan, named⟩ := read_of_identify answer
    obtain ⟨id, part, matched, code⟩ := Device.ofId_eq_ok named
    rw [← id] at matched code
    exact ⟨part, matched, code, pointed, low, high, asked, plan, id⟩
  · exact refused_unbound (device_eq_error.mp h) work

/-- The link is lost once the part has been identified; identifying it again leaves no device. -/
theorem device_of_latest_identify_lostLink :
    (({ link := ⟨.powerUp .pic18f452 (.zeroed .pic18f452), some 8, 0⟩ } :
        Session (Lossy Emulator)).afterAll [.identify, .bulkErase]).device = .ok .pic18f452 ∧
      (({ link := ⟨.powerUp .pic18f452 (.zeroed .pic18f452), some 8, 0⟩ } :
        Session (Lossy Emulator)).afterAll [.identify, .bulkErase, .identify]).RefusedUnbound
          (.write (.blank 0 0) .bulk) := by
  refine ⟨((device_of_latest_identify _ _).1 _).mpr ⟨[], [.bulkErase], rfl, ?_, rfl⟩,
    (device_of_latest_identify _ _).2.2 (device_eq_error.mpr (by decide)) _ rfl⟩
  intro c hc
  obtain rfl := List.mem_singleton.mp hc
  exact ⟨nofun, nofun⟩

end Session

end InCircuit
