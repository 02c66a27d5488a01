import PcmStream.Single

/- Sample types and their bytes. Integers count in parts of their greatest value; a single counts
   directly. Bytes are little-endian. -/
namespace PcmStream

inductive SampleFormat where
  | f32
  | i16
  | i32
  deriving DecidableEq, Repr, Inhabited

namespace SampleFormat

def width : SampleFormat → Nat
  | f32 => 4
  | i16 => 2
  | i32 => 4

def name : SampleFormat → String
  | f32 => "f32"
  | i16 => "i16"
  | i32 => "i32"

def label : SampleFormat → String
  | f32 => "F32"
  | i16 => "I16"
  | i32 => "I32"

def all : List SampleFormat := [f32, i16, i32]

def named? (text : String) : Option SampleFormat := all.find? (·.name == text)

theorem width_pos (f : SampleFormat) : 0 < f.width := by cases f <;> decide

end SampleFormat

def littleEndian : Nat → Nat → List UInt8
  | 0, _ => []
  | width + 1, n => UInt8.ofNat n :: littleEndian width (n / 256)

@[simp] theorem length_littleEndian (width n : Nat) : (littleEndian width n).length = width := by
  induction width generalizing n with
  | zero => rfl
  | succ width ih => simp [littleEndian, ih]

class Sample (σ : Type) where
  format : SampleFormat
  silence : σ
  toSingle : σ → Single
  ofSingle : Single → σ
  bytes : σ → List UInt8
  length_bytes : ∀ x, (bytes x).length = format.width

def fullScale (x : Single) : Single := Single.clamp Single.minusOne Single.one x

instance : Sample Single where
  format := .f32
  silence := Single.zero
  toSingle x := x
  ofSingle := fullScale
  bytes x := littleEndian 4 x.toNat
  length_bytes _ := length_littleEndian 4 _

instance : Sample Int16 where
  format := .i16
  silence := 0
  toSingle x := (Single.ofInt x.toInt).div (Single.ofInt 32767)
  ofSingle x :=
    let scaled := (fullScale x).mul (Single.ofInt 32767)
    Int16.ofInt (scaled.toIntWithin (-32768) 32767)
  bytes x := littleEndian 2 x.toUInt16.toNat
  length_bytes _ := length_littleEndian 2 _

/-- Doubles hold the greatest 32-bit integer exactly, singles do not. -/
instance : Sample Int32 where
  format := .i32
  silence := 0
  toSingle x := (Single.ofInt x.toInt).div (Single.ofInt 2147483647)
  ofSingle x :=
    let scaled := (Double.ofSingle (fullScale x)).mul (Double.ofInt 2147483647)
    Int32.ofInt (scaled.toIntWithin (-2147483648) 2147483647)
  bytes x := littleEndian 4 x.toUInt32.toNat
  length_bytes _ := length_littleEndian 4 _

def SampleFormat.encode (f : SampleFormat) (x : Single) : List UInt8 :=
  match f with
  | .f32 => Sample.bytes (Sample.ofSingle x : Single)
  | .i16 => Sample.bytes (Sample.ofSingle x : Int16)
  | .i32 => Sample.bytes (Sample.ofSingle x : Int32)

def silence (n : Nat) : List UInt8 := List.replicate n 0

end PcmStream
