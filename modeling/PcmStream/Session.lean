import PcmStream.Session.Filler

/- A session feeds one device. In callback and packet mode a filler holds the device and the owner at
   most pushes packets; in queue mode there is no thread and the owner holds the device. -/
namespace PcmStream

inductive Holder (δ κ : Type) where
  | filler (t : Filler δ κ)
  | owner (d : δ)
  | nobody
  deriving DecidableEq, Repr

structure Session (δ κ : Type) where
  params : Params
  packetFrames : Nat
  packetCount : Nat
  mode : Mode
  shared : Shared
  holder : Holder δ κ
  log : SummaryLog
  staging : List UInt8 := []
  deriving DecidableEq, Repr

namespace Session

variable {δ κ : Type}

def journal (s : Session δ κ) : Journal := s.shared.journal
def metrics (s : Session δ κ) : Metrics := s.shared.metrics
def fifo (s : Session δ κ) : Option Fifo := s.shared.fifo

def withFifo (s : Session δ κ) (q : Fifo) : Session δ κ :=
  { s with shared := { s.shared with fifo := some q } }

def withMetrics (s : Session δ κ) (metrics : Metrics) : Session δ κ :=
  { s with shared := { s.shared with metrics } }

def advance (s : Session δ κ) (nanos : Nat) : Session δ κ :=
  { s with shared := { s.shared with journal := s.journal.advance nanos } }

section Advance

variable (s : Session δ κ) (nanos : Nat)

@[simp] theorem advance_zero : s.advance 0 = s := rfl
@[simp] theorem advance_params : (s.advance nanos).params = s.params := rfl
@[simp] theorem advance_holder : (s.advance nanos).holder = s.holder := rfl
@[simp] theorem advance_mode : (s.advance nanos).mode = s.mode := rfl
@[simp] theorem advance_fifo : (s.advance nanos).fifo = s.fifo := rfl
@[simp] theorem advance_metrics : (s.advance nanos).metrics = s.metrics := rfl
@[simp] theorem advance_staging : (s.advance nanos).staging = s.staging := rfl

end Advance

def isRunning (s : Session δ κ) : Bool :=
  match s.holder with
  | .filler t => t.isAlive
  | .owner _ => true
  | .nobody => false

/-- The frames that there is room for now. -/
def room [Device δ] (s : Session δ κ) : Nat :=
  match s.holder with
  | .filler _ =>
    match s.fifo with
    | some q => q.space / s.params.frameSize
    | none => 0
  | .owner d => Device.freeFrames d s.journal.now
  | .nobody => 0

def run [Device δ] [Callback κ] : Nat → Session δ κ → Nat × Session δ κ
  | 0, s => (0, s)
  | n + 1, s =>
    match s.holder with
    | .filler t =>
      if t.isAlive then
        let (t, shared) := t.turn s.shared
        let (count, s) := run n { s with holder := .filler t, shared }
        (count + 1, s)
      else (0, s)
    | _ => (0, s)

def closed (s : Session δ κ) (shared : Shared) : Session δ κ :=
  { s with holder := .nobody, shared := shared.notice .main .sessionClosed }

/-- Ends the stream. The packet queue is closed first, then the filler finishes and the device is
    closed. On a closed session it does nothing. -/
def close [Device δ] [Callback κ] (s : Session δ κ) : Session δ κ :=
  let shared := { s.shared with fifo := s.fifo.map Fifo.close }
  match s.holder with
  | .filler t => s.closed (t.release shared)
  | .owner d => s.closed { shared with journal := Device.disconnectIn d shared.journal }
  | .nobody => { s with shared }

end Session

end PcmStream
