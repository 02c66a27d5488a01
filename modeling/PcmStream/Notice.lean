import PcmStream.Config
import PcmStream.Error
import PcmStream.Metrics

/- Log messages: what is reported, at which level, and in which words. -/
namespace PcmStream

inductive Level where
  | debug
  | warn
  | error
  deriving DecidableEq, Repr

def Level.name : Level → String
  | debug => "DEBUG"
  | warn => "WARN"
  | error => "ERROR"

inductive Notice where
  | nullOpened (p : Params)
  | nullClosed
  | sessionStarted (mode : Mode) (p : Params) (packetCount packetFrames : Nat)
  | sessionClosed
  | fillerStarted (bufferFrames : Nat)
  | fillerFinished
  | fillerBroken
  | writeFailed (e : DeviceError)
  | enqueueFailed (e : DeviceError)
  | recoveryFailed (e : DeviceError)
  | summary (growth : Metrics)
  deriving DecidableEq, Repr

namespace Notice

def level : Notice → Level
  | fillerBroken => .warn
  | writeFailed _ => .warn
  | enqueueFailed _ => .warn
  | recoveryFailed _ => .error
  | _ => .debug

def text : Notice → String
  | nullOpened p =>
      s!"Null audio device opened: {p.sampleRate}Hz, {p.channels} channel(s), " ++
        s!"{p.format.label}, {p.bufferFrames} frame buffer"
  | nullClosed => "Null audio device closed"
  | sessionStarted mode p packetCount packetFrames =>
      s!"Audio session started: {mode.label} mode, {p.sampleRate}Hz, " ++
        s!"{p.channels} channel(s), {p.format.label}, {p.bufferFrames} frame buffer, " ++
        s!"{packetCount} x {packetFrames} frame packets"
  | sessionClosed => "Audio session shut down"
  | fillerStarted bufferFrames => s!"Audio fill thread started ({bufferFrames} frames per buffer)"
  | fillerFinished => "Audio fill thread finished"
  | fillerBroken => "Audio fill thread panicked"
  | writeFailed e => s!"Audio device write failed: {e.message}; recovering"
  | enqueueFailed e => s!"Audio device enqueue failed: {e.message}; recovering"
  | recoveryFailed e => s!"Audio device recovery failed: {e.message}"
  | summary m =>
      s!"AUDIO METRICS [tid]: buffers={m.buffersWritten}, frames={m.framesWritten}, " ++
        s!"silence={m.silenceBuffers}, pushed={m.framesPushed}, skipped={m.pushesSkipped}, " ++
        s!"device_errors={m.deviceErrors}, recovery_failures={m.recoveryFailures}"

def line (n : Notice) : String := s!"{n.level.name} {n.text}"

end Notice

end PcmStream
