import PcmStream.Device

/- A device without output. It plays frames at the sample rate and forgets them; a write sleeps
   until what exceeds one buffer has been played. Unpaced, it takes everything at once. -/
namespace PcmStream

structure NullDevice where
  params : Option Params := none
  paced : Bool := true
  started : Option Nat := none
  written : Nat := 0
  deriving DecidableEq, Repr

namespace NullDevice

/-- The frames written since the device started and not yet played. -/
def backlog (d : NullDevice) (now : Nat) (p : Params) : Nat :=
  match d.started with
  | none => 0
  | some time => d.written - framesOfNanos (now - time) p.sampleRate

def connect (d : NullDevice) (requested : Params) : Reply NullDevice Params :=
  { outcome := .ok requested
    device := { d with params := some requested, started := none, written := 0 }
    notices := [.nullOpened requested] }

/-- A device that has run dry starts anew. -/
def restart (d : NullDevice) (now backlog : Nat) : NullDevice :=
  if backlog = 0 then { d with started := some now, written := 0 } else d

def pause (excess : Nat) (p : Params) : Except Fault (Option Nat) :=
  if excess = 0 then .ok none else (nanosOfFrames excess p.sampleRate).map some

def writePaced (d : NullDevice) (now frames : Nat) (p : Params) : Reply NullDevice Nat :=
  let backlog := d.backlog now p
  let d := d.restart now backlog
  match addWord backlog frames with
  | .error f => { outcome := .broken f, device := d }
  | .ok total =>
    match pause (total - p.bufferFrames) p with
    | .error f => { outcome := .broken f, device := d }
    | .ok slept =>
      match addWord d.written frames with
      | .error f => { outcome := .broken f, device := d, slept }
      | .ok written => { outcome := .ok frames, device := { d with written }, slept }

def write (d : NullDevice) (now frames : Nat) : Reply NullDevice Nat :=
  match d.params with
  | none => { outcome := .failed .notOpen, device := d }
  | some p => if d.paced then d.writePaced now frames p else { outcome := .ok frames, device := d }

def freeFrames (d : NullDevice) (now : Nat) : Nat :=
  match d.params with
  | none => 0
  | some p => if d.paced then p.bufferFrames - d.backlog now p else p.bufferFrames

def disconnect (d : NullDevice) : Reply NullDevice Unit :=
  { outcome := .ok ()
    device := { d with params := none, started := none }
    notices := if d.params.isSome then [.nullClosed] else [] }

instance : Device NullDevice where
  connect d _ requested := d.connect requested
  write d now _ frames := d.write now frames
  recover d _ := { outcome := .ok (), device := d }
  freeFrames := freeFrames
  disconnect d _ := d.disconnect

end NullDevice

end PcmStream
