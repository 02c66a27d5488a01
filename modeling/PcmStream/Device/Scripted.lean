import PcmStream.Device

/- A device that follows a script: what it negotiates, how its writes and recoveries end, and how
   many frames it has free. Past the end of the script all goes well. -/
namespace PcmStream

inductive WriteScript where
  | full
  | short (frames : Nat)
  | failed (e : DeviceError)
  | broken (f : Fault)
  deriving DecidableEq, Repr

structure Negotiation where
  sampleRate : Option Nat := none
  channels : Option Nat := none
  format : Option SampleFormat := none
  bufferFrames : Option Nat := none
  deriving DecidableEq, Repr

def Negotiation.settle (n : Negotiation) (p : Params) : Params :=
  ⟨n.sampleRate.getD p.sampleRate, n.channels.getD p.channels, n.format.getD p.format,
    n.bufferFrames.getD p.bufferFrames⟩

structure ScriptedDevice where
  terms : Except DeviceError Negotiation := .ok {}
  free : Nat := 0
  writes : List WriteScript := []
  recoveries : List (Option DeviceError) := []

namespace ScriptedDevice

def connect (d : ScriptedDevice) (requested : Params) : Reply ScriptedDevice Params :=
  match d.terms with
  | .ok terms => { outcome := .ok (terms.settle requested), device := d }
  | .error e => { outcome := .failed e, device := d }

def write (d : ScriptedDevice) (frames : Nat) : Reply ScriptedDevice Nat :=
  let after := { d with writes := d.writes.tail }
  match d.writes.headD .full with
  | .full => { outcome := .ok frames, device := { after with free := d.free - frames } }
  | .short n => { outcome := .ok n, device := { after with free := d.free - n } }
  | .failed e => { outcome := .failed e, device := after }
  | .broken f => { outcome := .broken f, device := after }

def recover (d : ScriptedDevice) : Reply ScriptedDevice Unit :=
  { outcome := match d.recoveries.headD none with
      | none => .ok ()
      | some e => .failed e
    device := { d with recoveries := d.recoveries.tail } }

instance : Device ScriptedDevice where
  connect d _ requested := d.connect requested
  write d _ _ frames := d.write frames
  recover d _ := d.recover
  freeFrames d _ := d.free
  disconnect d _ := { outcome := .ok (), device := d }

end ScriptedDevice

end PcmStream
