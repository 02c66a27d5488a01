import PcmStream.Binary

/- Numbers of 32 and of 64 bits, as bit patterns. -/
namespace PcmStream

structure Single where
  bits : UInt32
  deriving DecidableEq, Repr, Inhabited

structure Double where
  bits : UInt64
  deriving DecidableEq, Repr, Inhabited

namespace Single

def shape : Binary := ⟨23, 8⟩

def ofNat (bits : Nat) : Single := ⟨UInt32.ofNat bits⟩
def toNat (x : Single) : Nat := x.bits.toNat

def zero : Single := ⟨0⟩
def half : Single := ⟨0x3f000000⟩
def one : Single := ⟨0x3f800000⟩
def minusOne : Single := ⟨0xbf800000⟩

def ofInt (n : Int) : Single := ofNat (shape.ofInt n)
def add (x y : Single) : Single := ofNat (shape.add x.toNat y.toNat)
def sub (x y : Single) : Single := ofNat (shape.sub x.toNat y.toNat)
def mul (x y : Single) : Single := ofNat (shape.mul x.toNat y.toNat)
def div (x y : Single) : Single := ofNat (shape.div x.toNat y.toNat)
def lt (x y : Single) : Bool := shape.lt x.toNat y.toNat

def fract (x : Single) : Single := x.sub (ofNat (shape.trunc x.toNat))

/-- A NaN is on neither side of a bound and stays. -/
def clamp (low high x : Single) : Single :=
  let x := if x.lt low then low else x
  if high.lt x then high else x

def toIntWithin (low high : Int) (x : Single) : Int := shape.toIntWithin low high x.toNat

end Single

namespace Double

def shape : Binary := ⟨52, 11⟩

def ofNat (bits : Nat) : Double := ⟨UInt64.ofNat bits⟩
def toNat (x : Double) : Nat := x.bits.toNat

def ofInt (n : Int) : Double := ofNat (shape.ofInt n)
def add (x y : Double) : Double := ofNat (shape.add x.toNat y.toNat)
def sub (x y : Double) : Double := ofNat (shape.sub x.toNat y.toNat)
def mul (x y : Double) : Double := ofNat (shape.mul x.toNat y.toNat)
def div (x y : Double) : Double := ofNat (shape.div x.toNat y.toNat)
def toIntWithin (low high : Int) (x : Double) : Int := shape.toIntWithin low high x.toNat

def ofSingle (x : Single) : Double := ofNat (shape.ofNumber (Single.shape.decode x.toNat))
def toSingle (x : Double) : Single := Single.ofNat (Single.shape.ofNumber (shape.decode x.toNat))

end Double

end PcmStream
