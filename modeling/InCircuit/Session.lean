import InCircuit.Workflow

/-!
# Sessions

A session owns a link and remembers which device was identified on it. Until one is, every
operation on the device fails with `noDevice` and asks nothing of the link. Reports are kept only
while a sink is attached.
-/
namespace InCircuit

structure Session (σ : Type) where
  link : σ
  series : Series := .pic18F
  device? : Option Device := none
  /-- The reports received, if a sink is attached. -/
  sink : Option (Array Report) := none

namespace Session

variable {σ α : Type} [Link σ]

def perform (s : Session σ) (p : Procedure Report α) : α × Session σ :=
  match s with
  | ⟨link, series, device?, some reports⟩ =>
    let ran := p.run link reports
    (ran.value, ⟨ran.link, series, device?, some ran.events⟩)
  | ⟨link, series, device?, none⟩ =>
    let ran := p.run link #[]
    (ran.value, ⟨ran.link, series, device?, none⟩)

def onDevice (s : Session σ) (r : Device → Routine Report α) : Except Fault α × Session σ :=
  match s.device? with
  | none => (.error .noDevice, s)
  | some d => s.perform (r d).run

/-- Fills an image from the identified device. The image comes back in any case. -/
def fillOnDevice (s : Session σ) (i : Image)
    (fill : Device → Image → Procedure Report (Except Fault Unit × Image)) :
    (Except Fault Unit × Image) × Session σ :=
  match s.device? with
  | none => ((.error .noDevice, i), s)
  | some d => s.perform (fill d i)

def device (s : Session σ) : Except Fault Device :=
  match s.device? with
  | none => .error .noDevice
  | some d => .ok d

/-- The identification word, whether or not it names a device. -/
def deviceId (s : Session σ) : Except Fault UInt16 × Session σ :=
  s.perform Routine.fetchDeviceId.run

/-- Identifies the device. A failure leaves the session without one. -/
def identify (s : Session σ) : Except Fault Device × Session σ :=
  match { s with device? := none }.perform Device.identify.run with
  | (.ok d, s) => (.ok d, { s with device? := some d })
  | (.error fault, s) => (.error fault, s)

def bulkErase (s : Session σ) : Except Fault Unit × Session σ := s.onDevice Device.bulkErase

def pageErase (s : Session σ) : Except Fault Unit × Session σ := s.onDevice Device.pageErase

def erase (s : Session σ) (mode : EraseMode) : Except Fault Unit × Session σ :=
  s.onDevice (·.erase mode)

def programCode (s : Session σ) (i : Image) : Except Fault Unit × Session σ :=
  s.onDevice (·.programCode i)

def programConfig (s : Session σ) (i : Image) : Except Fault Unit × Session σ :=
  s.onDevice (·.programConfig i)

def programEeprom (s : Session σ) (i : Image) : Except Fault Unit × Session σ :=
  s.onDevice (·.programEeprom i)

def readCode (s : Session σ) (offset size : Nat) : Except Fault Image × Session σ :=
  s.onDevice (·.readCode offset size)

/-- Reads the configuration into an image, which a fault leaves half filled. -/
def readConfigInto (s : Session σ) (i : Image) : (Except Fault Unit × Image) × Session σ :=
  s.fillOnDevice i Routine.fillConfig

/-- Reads the EEPROM into an image, which a fault leaves as it was. -/
def readEepromInto (s : Session σ) (i : Image) : (Except Fault Unit × Image) × Session σ :=
  s.fillOnDevice i Device.fillEeprom

def readAll (s : Session σ) (offset size : Nat) (eeprom : Bool) :
    Except Fault Image × Session σ :=
  s.onDevice (·.readAll offset size eeprom)

def write (s : Session σ) (i : Image) (mode : EraseMode) : Except Fault Unit × Session σ :=
  s.onDevice (·.write i mode)

def verify (s : Session σ) (source : Image) : Except Fault Compared × Session σ :=
  s.onDevice (·.verify source)

end Session

end InCircuit
