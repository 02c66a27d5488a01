import PcmStream.Sample

/- What can go wrong on a device, in opening a session and in loading a configuration, with the
   text of each. -/
namespace PcmStream

inductive DeviceError where
  | noDevice
  | unsupportedFormat (format : SampleFormat)
  | underrun
  | write (text : String)
  | notOpen
  | stream (text : String)
  deriving DecidableEq, Repr

def DeviceError.message : DeviceError → String
  | noDevice => "No audio output device available"
  | unsupportedFormat format => s!"Unsupported sample format: {format.label}"
  | underrun => "Audio device underrun"
  | write text => s!"Audio device write failed: {text}"
  | notOpen => "Audio device is not open"
  | stream text => s!"Audio stream error: {text}"

inductive SessionError where
  | device (e : DeviceError)
  | packetMismatch (bufferFrames packetFrames : Nat)
  | poolTooSmall (packetCount packetsPerBuffer : Nat)
  | unusable (text : String)
  | spawn (text : String)
  deriving DecidableEq, Repr

namespace SessionError

def message : SessionError → String
  | device e => s!"Failed to open audio device: {e.message}"
  | packetMismatch bufferFrames _ =>
      s!"Device buffer of {bufferFrames} frames is not a whole number of packets"
  | poolTooSmall packetCount packetsPerBuffer =>
      s!"{packetCount} packets cannot hold a {packetsPerBuffer}-packet device buffer"
  | unusable text => s!"Invalid audio configuration: {text}"
  | spawn text => s!"Failed to spawn audio fill thread: {text}"

/-- The message of the cause, where another part of the system reported it. -/
def source? : SessionError → Option String
  | device e => some e.message
  | spawn text => some text
  | _ => none

end SessionError

inductive ConfigError where
  | read (path cause : String)
  | parse
  deriving DecidableEq, Repr

namespace ConfigError

def message : ConfigError → String
  | read path cause => s!"Failed to read {path}: {cause}"
  | parse => "Failed to parse audio config"

def source? : ConfigError → Option String
  | read _ cause => some cause
  | parse => none

end ConfigError

end PcmStream
