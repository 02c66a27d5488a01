import PcmStream.Notice

/- The record of a session: the calls on its device, the filler's fetches from the packet queue, log
   messages and sleeps, in order and with the time of each. -/
namespace PcmStream

/-- How a call on a device ends. A device that breaks down takes its caller with it. -/
inductive Outcome (α : Type) where
  | ok (a : α)
  | failed (e : DeviceError)
  | broken (f : Fault)
  deriving DecidableEq, Repr

inductive Call where
  | opened (requested : Params)
  | wrote (frames : Nat) (bytes : List UInt8) (outcome : Outcome Nat)
  | recovered (outcome : Outcome Unit)
  | closed
  deriving DecidableEq, Repr

/-- One fetch of a device buffer out of the packet queue: the bytes of full packets that waited, and
    how many bytes the filler got. -/
structure Fetch where
  ready : Nat
  outcome : Outcome Nat
  deriving DecidableEq, Repr

inductive Thread where
  | main
  | fill
  deriving DecidableEq, Repr

inductive Event where
  | call (c : Call)
  | fetch (f : Fetch)
  | notice (thread : Thread) (n : Notice)
  | sleep (nanos : Nat)
  deriving DecidableEq, Repr

structure Entry where
  time : Nat
  event : Event
  deriving DecidableEq, Repr

structure Journal where
  now : Nat := 0
  entries : List Entry := []
  deriving DecidableEq, Repr

namespace Journal

def record (j : Journal) (e : Event) : Journal := { j with entries := j.entries ++ [⟨j.now, e⟩] }

def call (j : Journal) (c : Call) : Journal := j.record (.call c)

def fetch (j : Journal) (f : Fetch) : Journal := j.record (.fetch f)

def notice (j : Journal) (thread : Thread) (n : Notice) : Journal := j.record (.notice thread n)

def advance (j : Journal) (nanos : Nat) : Journal := { j with now := j.now + nanos }

def sleep (j : Journal) (nanos : Nat) : Journal := (j.record (.sleep nanos)).advance nanos

def events (j : Journal) : List Event := j.entries.map (·.event)

def calls (j : Journal) : List Call :=
  j.events.filterMap fun | .call c => some c | _ => none

def fetches (j : Journal) : List Fetch :=
  j.events.filterMap fun | .fetch f => some f | _ => none

def notices (j : Journal) (thread : Thread) : List Notice :=
  j.events.filterMap fun
    | .notice t n => if t = thread then some n else none
    | _ => none

end Journal

end PcmStream
