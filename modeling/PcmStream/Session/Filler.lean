import PcmStream.Callback
import PcmStream.Device
import PcmStream.Fifo
import PcmStream.Metrics

/- The thread that fills a device buffer, writes it, and starts over until it is told to stop. Only
   the write blocks. A step is what the thread does between two points where the owner may come in;
   a fault ends the thread, and the device is lost with it. -/
namespace PcmStream

inductive Supply (κ : Type) where
  | callback (c : κ)
  | fifo
  deriving DecidableEq, Repr

inductive Stage where
  | starting
  | checking
  | filling
  | writing
  | finished
  | broken (f : Fault)
  deriving DecidableEq, Repr

structure Filler (δ κ : Type) where
  device : δ
  supply : Supply κ
  params : Params
  buffer : List UInt8 := []
  log : SummaryLog
  stop : Bool := false
  stage : Stage := .starting
  deriving DecidableEq, Repr

/-- What the filler and the owner of the session have in common. -/
structure Shared where
  fifo : Option Fifo
  metrics : Metrics := {}
  journal : Journal
  deriving DecidableEq, Repr

namespace Shared

def notice (s : Shared) (thread : Thread) (n : Notice) : Shared :=
  { s with journal := s.journal.notice thread n }

def fetch (s : Shared) (f : Fetch) : Shared := { s with journal := s.journal.fetch f }

/-- The clock of the record stands still while a summary is made. -/
def summarize (s : Shared) (log : SummaryLog) (thread : Thread) : SummaryLog × Shared :=
  match log.poll s.journal.now s.journal.now s.metrics with
  | (none, log) => (log, s)
  | (some growth, log) => (log, s.notice thread (.summary growth))

end Shared

namespace Filler

variable {δ κ : Type}

def isAlive (t : Filler δ κ) : Bool :=
  match t.stage with
  | .finished => false
  | .broken _ => false
  | _ => true

def breakDown (t : Filler δ κ) (f : Fault) : Filler δ κ := { t with stage := .broken f }

def start (t : Filler δ κ) (s : Shared) : Filler δ κ × Shared :=
  match bytesFor t.params.bufferFrames t.params.frameSize with
  | .error f => (t.breakDown f, s)
  | .ok size =>
    ({ t with buffer := silence size, log := { time := s.journal.now }, stage := .checking },
      s.notice .fill (.fillerStarted t.params.bufferFrames))

def check (t : Filler δ κ) (s : Shared) : Filler δ κ × Shared :=
  if t.stop then ({ t with stage := .finished }, s.notice .fill .fillerFinished)
  else ({ t with stage := .filling }, s)

/-- A packet queue that cannot fill the whole buffer leaves it to silence. -/
def fillFrom (q : Fifo) (t : Filler δ κ) (s : Shared) : Filler δ κ × Shared :=
  match q.read t.buffer with
  | .error f => (t.breakDown f, s.fetch ⟨q.available, .broken f⟩)
  | .ok (count, bytes, rest) =>
    let s := s.fetch ⟨q.available, .ok count⟩
    if count = 0 then
      ({ t with buffer := silence t.buffer.length, stage := .writing },
        { s with metrics := s.metrics.countSilence })
    else ({ t with buffer := bytes, stage := .writing }, { s with fifo := some rest })

def fill [Callback κ] (t : Filler δ κ) (s : Shared) : Filler δ κ × Shared :=
  match t.supply with
  | .callback c =>
    match Callback.fill c (silence t.buffer.length) t.params with
    | .error f => (t.breakDown f, s)
    | .ok (bytes, c) => ({ t with supply := .callback c, buffer := bytes, stage := .writing }, s)
  | .fifo =>
    match s.fifo with
    | some q => t.fillFrom q s
    | none => ({ t with stage := .writing }, s)

/-- After a failed recovery the thread rests for the time of one buffer. -/
def recover [Device δ] (t : Filler δ κ) (s : Shared) (e : DeviceError) : Filler δ κ × Shared :=
  let (outcome, device, journal) :=
    Device.recoverIn .fill t.device (s.journal.notice .fill (.writeFailed e))
  let t := { t with device }
  let s := { s with metrics := s.metrics.countDeviceError, journal }
  match outcome with
  | .ok () => (t, s)
  | .broken f => (t.breakDown f, s)
  | .failed e =>
    let s := { s with metrics := s.metrics.countRecoveryFailure }.notice .fill (.recoveryFailed e)
    match t.params.bufferTime with
    | .ok nanos => (t, { s with journal := s.journal.sleep nanos })
    | .error f => (t.breakDown f, s)

def summarize (t : Filler δ κ) (s : Shared) : Filler δ κ × Shared :=
  if t.isAlive then
    let (log, s) := s.summarize t.log .fill
    ({ t with log }, s)
  else (t, s)

def write [Device δ] (t : Filler δ κ) (s : Shared) : Filler δ κ × Shared :=
  let (outcome, device, journal) :=
    Device.writeIn .fill t.device t.buffer t.params.bufferFrames s.journal
  let t := { t with device, stage := .checking }
  let s := { s with journal }
  match outcome with
  | .ok frames => t.summarize { s with metrics := s.metrics.countWrite frames }
  | .failed e => let (t, s) := t.recover s e; t.summarize s
  | .broken f => (t.breakDown f, s)

def step [Device δ] [Callback κ] (t : Filler δ κ) (s : Shared) : Filler δ κ × Shared :=
  match t.stage with
  | .starting => t.start s
  | .checking => t.check s
  | .filling => t.fill s
  | .writing => t.write s
  | .finished => (t, s)
  | .broken _ => (t, s)

/-- Takes at most so many steps, none of them a write. -/
def approach [Device δ] [Callback κ] : Nat → Filler δ κ → Shared → Filler δ κ × Shared
  | 0, t, s => (t, s)
  | n + 1, t, s =>
    if t.stage = .writing then (t, s)
    else let (t, s) := t.step s; approach n t s

def settle [Device δ] [Callback κ] (t : Filler δ κ) (s : Shared) : Filler δ κ × Shared :=
  approach 3 t s

def turn [Device δ] [Callback κ] (t : Filler δ κ) (s : Shared) : Filler δ κ × Shared :=
  let (t, s) := t.settle s
  let (t, s) := t.step s
  t.settle s

def finishFuel [Device δ] [Callback κ] : Nat → Filler δ κ → Shared → Filler δ κ × Shared
  | 0, t, s => (t, s)
  | fuel + 1, t, s =>
    if t.isAlive then let (t, s) := t.step s; finishFuel fuel t s else (t, s)

/-- Raises the stop flag and waits for the end. From no stage does that take more than three
    steps: a fill that has begun, its write, and the check of the flag. -/
def finish [Device δ] [Callback κ] (t : Filler δ κ) (s : Shared) : Filler δ κ × Shared :=
  finishFuel 3 { t with stop := true } s

/-- Stops the thread and closes the device that it gives back; a broken thread gives none back. -/
def release [Device δ] [Callback κ] (t : Filler δ κ) (s : Shared) : Shared :=
  let (t, s) := t.finish s
  match t.stage with
  | .broken _ => s.notice .main .fillerBroken
  | _ => { s with journal := Device.disconnectIn t.device s.journal }

end Filler

end PcmStream
