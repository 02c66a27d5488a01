import PcmStream.Fault
import PcmStream.Time

/- The counters of a session, each a machine word that wraps, and the summary of their growth that
   is logged about once a second. -/
namespace PcmStream

structure Metrics where
  buffersWritten : Nat := 0
  framesWritten : Nat := 0
  silenceBuffers : Nat := 0
  deviceErrors : Nat := 0
  recoveryFailures : Nat := 0
  framesPushed : Nat := 0
  pushesSkipped : Nat := 0
  deriving DecidableEq, Repr, Inhabited

def bump (counter n : Nat) : Nat := (counter + n) % wordLimit

namespace Metrics

def countWrite (m : Metrics) (frames : Nat) : Metrics :=
  { m with
    buffersWritten := bump m.buffersWritten 1, framesWritten := bump m.framesWritten frames }

def countSilence (m : Metrics) : Metrics := { m with silenceBuffers := bump m.silenceBuffers 1 }

def countDeviceError (m : Metrics) : Metrics := { m with deviceErrors := bump m.deviceErrors 1 }

def countRecoveryFailure (m : Metrics) : Metrics :=
  { m with recoveryFailures := bump m.recoveryFailures 1 }

def countPush (m : Metrics) (frames : Nat) : Metrics :=
  { m with framesPushed := bump m.framesPushed frames }

def countSkip (m : Metrics) : Metrics := { m with pushesSkipped := bump m.pushesSkipped 1 }

def growthFrom (m earlier : Metrics) : Metrics :=
  { buffersWritten := m.buffersWritten - earlier.buffersWritten
    framesWritten := m.framesWritten - earlier.framesWritten
    silenceBuffers := m.silenceBuffers - earlier.silenceBuffers
    deviceErrors := m.deviceErrors - earlier.deviceErrors
    recoveryFailures := m.recoveryFailures - earlier.recoveryFailures
    framesPushed := m.framesPushed - earlier.framesPushed
    pushesSkipped := m.pushesSkipped - earlier.pushesSkipped }

end Metrics

structure SummaryLog where
  covered : Metrics := {}
  time : Nat
  deriving DecidableEq, Repr

/-- The growth since the last summary, if by `now` a second has passed. The time that is kept is read
    from the clock again, once the summary is out. -/
def SummaryLog.poll (log : SummaryLog) (now later : Nat) (m : Metrics) :
    Option Metrics × SummaryLog :=
  if now - log.time < nanosPerSecond then (none, log)
  else (some (m.growthFrom log.covered), ⟨m, later⟩)

end PcmStream
