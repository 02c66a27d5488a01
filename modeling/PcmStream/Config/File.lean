import PcmStream.Config
import PcmStream.Error
import PcmStream.Toml.Value

/- Configurations as TOML. Keys that are not fields are read and ignored; missing fields keep their
   default. -/
namespace PcmStream.Config

open Toml

def number? (limit : Nat) : Value → Option Nat
  | .integer n => if 0 ≤ n ∧ n < limit then some n.toNat else none
  | _ => none

def isEmptyValue : Value → Bool
  | .array [] _ => true
  | .table _ [] => true
  | _ => false

/-- A format is its name, or a table whose one key is the name and whose value is empty. -/
def format? : Value → Option SampleFormat
  | .string text => SampleFormat.named? text
  | .table _ [(key, v)] => if isEmptyValue v then SampleFormat.named? key else none
  | _ => none

def setField? (c : Config) (key : String) (v : Value) : Option Config :=
  match key with
  | "sample_rate" => (number? rateLimit v).map fun n => { c with sampleRate := n }
  | "num_channels" => (number? channelLimit v).map fun n => { c with channels := n }
  | "buffer_frames" => (number? wordLimit v).map fun n => { c with bufferFrames := n }
  | "packet_frames" => (number? wordLimit v).map fun n => { c with packetFrames := n }
  | "num_packets" => (number? wordLimit v).map fun n => { c with packetCount := n }
  | "sample_format" => (format? v).map fun f => { c with format := f }
  | _ => some c

def ofEntries? (es : Entries) : Option Config := es.foldlM (fun c e => c.setField? e.1 e.2) {}

def entries (c : Config) : Entries :=
  [("sample_rate", .integer c.sampleRate), ("num_channels", .integer c.channels),
    ("buffer_frames", .integer c.bufferFrames), ("packet_frames", .integer c.packetFrames),
    ("num_packets", .integer c.packetCount), ("sample_format", .string c.format.name)]

def ofToml (lib : Library) (text : String) : Except ConfigError Config :=
  match (lib.read? text).bind ofEntries? with
  | some c => .ok c
  | none => .error .parse

def toToml (lib : Library) (c : Config) : Option String := lib.print? c.entries

inductive File where
  | missing
  | directory
  | bytes (content : List UInt8)

def load (lib : Library) (path : String) : File → Except ConfigError Config
  | .missing => .error (.read path "No such file or directory (os error 2)")
  | .directory => .error (.read path "Is a directory (os error 21)")
  | .bytes content =>
    match String.fromUTF8? ⟨content.toArray⟩ with
    | some text => ofToml lib text
    | none => .error (.read path "stream did not contain valid UTF-8")

end PcmStream.Config
