import PcmStream.Fault
import PcmStream.Single

/- Time in nanoseconds, and frames as time at a sample rate. Both ways go through seconds as a
   double, each step rounded, so one need not undo the other. -/
namespace PcmStream

def nanosPerSecond : Nat := 1000000000

/-- A span of seconds to the nearest nanosecond, a half to the even one. Its whole seconds have to
    fit a machine word. -/
def nanosOfSeconds (seconds : Double) : Except Fault Nat :=
  match Double.shape.decode seconds.toNat with
  | .finite false m e =>
      let nanos := roundDiv (scaleUp (m * nanosPerSecond) e) (scaleUp 1 (-e))
      if nanos < wordLimit * nanosPerSecond then .ok nanos else .error .durationOverflow
  | _ => .error .durationOverflow

def secondsOfNanos (nanos : Nat) : Double :=
  (Double.ofInt (nanos / nanosPerSecond)).add
    ((Double.ofInt (nanos % nanosPerSecond)).div (Double.ofInt nanosPerSecond))

def nanosOfFrames (frames sampleRate : Nat) : Except Fault Nat :=
  nanosOfSeconds ((Double.ofInt frames).div (Double.ofInt (max sampleRate 1)))

/-- The whole frames played in a span of time; they are held in a machine word. -/
def framesOfNanos (nanos sampleRate : Nat) : Nat :=
  (((secondsOfNanos nanos).mul (Double.ofInt sampleRate)).toIntWithin 0 (wordLimit - 1)).toNat

end PcmStream
