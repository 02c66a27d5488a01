import PcmStream.Journal

/- Output devices. A device is shown the clock. What it does besides answering, sleep and log, is
   part of its reply, so that every device is recorded in one way. -/
namespace PcmStream

structure Reply (δ α : Type) where
  outcome : Outcome α
  device : δ
  slept : Option Nat := none
  notices : List Notice := []

class Device (δ : Type) where
  connect : δ → Nat → Params → Reply δ Params
  write : δ → Nat → List UInt8 → Nat → Reply δ Nat
  recover : δ → Nat → Reply δ Unit
  freeFrames : δ → Nat → Nat
  disconnect : δ → Nat → Reply δ Unit

def Reply.enter {δ α : Type} (r : Reply δ α) (thread : Thread) (j : Journal) : Journal :=
  let j := r.notices.foldl (fun j n => j.notice thread n) j
  match r.slept with
  | some nanos => j.sleep nanos
  | none => j

namespace Device

variable {δ : Type} [Device δ]

def connectIn (d : δ) (requested : Params) (j : Journal) : Outcome Params × δ × Journal :=
  let r := connect d j.now requested
  (r.outcome, r.device, (r.enter .main j).call (.opened requested))

def writeIn (thread : Thread) (d : δ) (bytes : List UInt8) (frames : Nat) (j : Journal) :
    Outcome Nat × δ × Journal :=
  let r := write d j.now bytes frames
  (r.outcome, r.device, (r.enter thread j).call (.wrote frames bytes r.outcome))

def recoverIn (thread : Thread) (d : δ) (j : Journal) : Outcome Unit × δ × Journal :=
  let r := recover d j.now
  (r.outcome, r.device, (r.enter thread j).call (.recovered r.outcome))

def disconnectIn (d : δ) (j : Journal) : Journal :=
  let r := disconnect d j.now
  (r.enter .main j).call .closed

end Device

end PcmStream
