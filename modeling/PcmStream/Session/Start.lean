import PcmStream.Session

/- Starting a session: the device is asked for the configured stream, what it agrees to is checked
   against the packets, and the feed is started. A refused device is closed again. -/
namespace PcmStream

inductive Feed (κ : Type) where
  | callback (c : κ)
  | fifo
  | queue
  deriving DecidableEq, Repr

def Feed.mode {κ : Type} : Feed κ → Mode
  | callback _ => .callback
  | fifo => .fifo
  | queue => .queue

/-- What a session meets at its start: the steps towards its first write that the thread takes before
    the start is announced, why no thread can be made, a text at which the log breaks off, and what
    was recorded before. -/
structure Surroundings where
  headStart : Nat := 0
  spawnFailure : Option String := none
  logBreaksAt : Option String := none
  journal : Journal := {}
  deriving DecidableEq, Repr

/-- The thread is at its first write, or has ended, before the start is announced. -/
def Surroundings.ahead : Surroundings := { headStart := 3 }

@[simp] theorem Surroundings.ahead_journal : ahead.journal = {} := rfl

inductive Opening (δ κ : Type) where
  | session (s : Session δ κ)
  | refused (e : SessionError) (j : Journal)
  | broken (f : Fault) (j : Journal)

def objection? (config : Config) (mode : Mode) (p : Params) : Option SessionError :=
  let packets := p.bufferFrames / config.packetFrames
  if p.sampleRate = 0 ∨ p.channels = 0 ∨ p.bufferFrames = 0 then
    some (.unusable s!"device negotiated unusable parameters: {p.describe}")
  else if p.bufferFrames % config.packetFrames ≠ 0 then
    some (.packetMismatch p.bufferFrames config.packetFrames)
  else if mode = .fifo ∧ config.packetCount < packets then
    some (.poolTooSmall config.packetCount packets)
  else none

def hasPart (part : List Char) : List Char → Bool
  | [] => part.isEmpty
  | c :: text => part.isPrefixOf (c :: text) || hasPart part text

namespace Session

variable {δ κ : Type} [Device δ] [Callback κ]

/-- What a session leaves whose start could not be logged: a filler is stopped and its device
    closed; a device held by the owner is only dropped. -/
def abandon (s : Session δ κ) : Journal :=
  match s.holder with
  | .filler t => (t.release s.shared).journal
  | _ => s.journal

def announce (s : Session δ κ) (around : Surroundings) : Opening δ κ :=
  let n : Notice := .sessionStarted s.mode s.params s.packetCount s.packetFrames
  let s := { s with shared := s.shared.notice .main n }
  match around.logBreaksAt with
  | some part =>
    if hasPart part.toList n.text.toList then .broken (.breakdown "log sink panic") s.abandon
    else .session s
  | none => .session s

def idle (config : Config) (mode : Mode) (p : Params) (j : Journal) : Session δ κ :=
  { params := p, packetFrames := config.packetFrames, packetCount := config.packetCount, mode
    shared := { fifo := none, journal := j }, holder := .nobody, log := { time := j.now } }

/-- Starts a filler and does not wait for it. Without a thread the device is only dropped. -/
def launch (s : Session δ κ) (d : δ) (supply : Supply κ) (around : Surroundings) :
    Opening δ κ :=
  match around.spawnFailure with
  | some text => .refused (.spawn text) s.journal
  | none =>
    let t : Filler δ κ := { device := d, supply, params := s.params, log := s.log }
    let (t, shared) := t.approach around.headStart s.shared
    announce { s with holder := .filler t, shared } around

def makeFifo (config : Config) (p : Params) : Except Fault Fifo := do
  let packetSize ← mulWord config.packetFrames p.frameSize
  Fifo.new packetSize config.packetCount

def start (config : Config) (feed : Feed κ) (d : δ) (around : Surroundings) : Opening δ κ :=
  let (outcome, d, j) := Device.connectIn d config.params around.journal
  let config := config.withDefaults
  match outcome with
  | .failed e => .refused (.device e) j
  | .broken f => .broken f j
  | .ok p =>
    match objection? config feed.mode p with
    | some e => .refused e (Device.disconnectIn d j)
    | none =>
      let s : Session δ κ := idle config feed.mode p j
      match feed with
      | .callback c => s.launch d (.callback c) around
      | .fifo =>
        match makeFifo config p with
        | .error f => .broken f j
        | .ok q => (s.withFifo q).launch d .fifo around
      | .queue => announce { s with holder := .owner d } around

end Session

end PcmStream
