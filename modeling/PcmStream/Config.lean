import PcmStream.Fault
import PcmStream.Sample
import PcmStream.Time

/- What a caller asks for and what a device agrees to. Zero in a numeric field of a configuration
   stands for its default. -/
namespace PcmStream

structure Params where
  sampleRate : Nat
  channels : Nat
  format : SampleFormat
  bufferFrames : Nat
  deriving DecidableEq, Repr, Inhabited

structure Config where
  sampleRate : Nat := 0
  channels : Nat := 0
  bufferFrames : Nat := 0
  packetFrames : Nat := 0
  packetCount : Nat := 0
  format : SampleFormat := .f32
  deriving DecidableEq, Repr, Inhabited

namespace Params

def frameSize (p : Params) : Nat := p.channels * p.format.width

def bufferSize (p : Params) : Except Fault Nat := mulWord p.bufferFrames p.frameSize

def bufferTime (p : Params) : Except Fault Nat := nanosOfFrames p.bufferFrames p.sampleRate

def describe (p : Params) : String :=
  s!"StreamParams \x7b sample_rate: {p.sampleRate}, num_channels: {p.channels}, " ++
    s!"sample_format: {p.format.label}, buffer_frames: {p.bufferFrames} \x7d"

end Params

def orDefault (value fallback : Nat) : Nat := if value = 0 then fallback else value

namespace Config

def withDefaults (c : Config) : Config :=
  { sampleRate := orDefault c.sampleRate 44100
    channels := orDefault c.channels 1
    bufferFrames := orDefault c.bufferFrames 2048
    packetFrames := orDefault c.packetFrames 128
    packetCount := orDefault c.packetCount 64
    format := c.format }

def params (c : Config) : Params :=
  let c := c.withDefaults
  ⟨c.sampleRate, c.channels, c.format, c.bufferFrames⟩

def rateLimit : Nat := 1 <<< 32
def channelLimit : Nat := 1 <<< 16

def Fits (c : Config) : Prop :=
  c.sampleRate < rateLimit ∧ c.channels < channelLimit ∧
    c.bufferFrames < wordLimit ∧ c.packetFrames < wordLimit ∧ c.packetCount < wordLimit

end Config

/-- The three ways to feed a device: a callback for each buffer, packets pushed in advance, or
    direct writes into the device's free space. -/
inductive Mode where
  | callback
  | fifo
  | queue
  deriving DecidableEq, Repr

def Mode.label : Mode → String
  | callback => "Callback"
  | fifo => "Fifo"
  | queue => "Queue"

end PcmStream
