/- Binary floating point on bit patterns. A pattern is decoded into sign, integer and power of two,
   the operation is done exactly, and the exact result is rounded once to the nearest pattern,
   ties to the even one. Patterns are natural numbers; the widths in use are wrapped elsewhere.

   A NaN operand comes out quiet and with its payload, the first of two before the second; an
   operation that has no value gives the negative quiet NaN without payload. -/
namespace PcmStream

/-- Sign, biased exponent and stored fraction, from the highest bit down. -/
structure Binary where
  fraction : Nat
  exponent : Nat
  deriving DecidableEq, Repr

/-- What a pattern stands for; a finite number is `mantissa * 2 ^ scale` under its sign. -/
inductive Number where
  | nan
  | infinite (negative : Bool)
  | finite (negative : Bool) (mantissa : Nat) (scale : Int)
  deriving DecidableEq, Repr

def Number.neg : Number → Number
  | .nan => .nan
  | .infinite s => .infinite !s
  | .finite s m e => .finite (!s) m e

def roundDiv (n d : Nat) : Nat :=
  let q := n / d
  let r := n % d
  if d < 2 * r ∨ (2 * r = d ∧ q % 2 = 1) then q + 1 else q

def scaleUp (n : Nat) (e : Int) : Nat := n <<< e.toNat

def scaleDown (n : Nat) (e : Int) : Nat := scaleUp n e >>> (-e).toNat

namespace Binary

def signBit (f : Binary) : Nat := 1 <<< (f.exponent + f.fraction)
def infinity (f : Binary) : Nat := (1 <<< f.exponent - 1) <<< f.fraction
def quietBit (f : Binary) : Nat := 1 <<< (f.fraction - 1)
def invalid (f : Binary) : Nat := f.signBit + f.infinity + f.quietBit

def least (f : Binary) : Int := 2 - (1 <<< (f.exponent - 1) : Nat) - f.fraction

def magnitude (f : Binary) (bits : Nat) : Nat := bits % f.signBit
def isNegative (f : Binary) (bits : Nat) : Bool := bits / f.signBit % 2 == 1
def isNaN (f : Binary) (bits : Nat) : Bool := f.infinity < f.magnitude bits
def withSign (f : Binary) (negative : Bool) (magnitude : Nat) : Nat :=
  if negative then f.signBit + magnitude else magnitude

def decode (f : Binary) (bits : Nat) : Number :=
  let magnitude := f.magnitude bits
  let field := magnitude >>> f.fraction
  let stored := magnitude % (1 <<< f.fraction)
  if f.infinity < magnitude then .nan
  else if magnitude = f.infinity then .infinite (f.isNegative bits)
  else if field = 0 then .finite (f.isNegative bits) stored f.least
  else .finite (f.isNegative bits) (1 <<< f.fraction + stored) (f.least + (field - 1))

def binade (num den : Nat) (scale : Int) : Int :=
  let guess : Int := (num.log2 : Int) - den.log2
  if scaleUp den guess ≤ scaleUp num (-guess) then scale + guess else scale + guess - 1

/-- The pattern nearest to `num / den * 2 ^ scale`. Counted in units of its last place the number
    fills at most one more bit than is stored, and a carry moves into the exponent field. -/
def encode (f : Binary) (negative : Bool) (num den : Nat) (scale : Int) : Nat :=
  if num = 0 then f.withSign negative 0
  else
    let unit := max (binade num den scale - f.fraction) f.least
    let mantissa := roundDiv (scaleUp num (scale - unit)) (scaleUp den (unit - scale))
    let magnitude := (unit - f.least).toNat <<< f.fraction + mantissa
    f.withSign negative (min magnitude f.infinity)

def ofNumber (f : Binary) : Number → Nat
  | .nan => f.invalid
  | .infinite negative => f.withSign negative f.infinity
  | .finite negative mantissa scale => f.encode negative mantissa 1 scale

def ofInt (f : Binary) (n : Int) : Nat := f.encode (n < 0) n.natAbs 1 0

/-- One operand's NaN survives an operation; other operands go on to `exact`. -/
def combine (f : Binary) (exact : Number → Number → Nat) (a b : Nat) : Nat :=
  if f.isNaN a then a ||| f.quietBit
  else if f.isNaN b then b ||| f.quietBit
  else exact (f.decode a) (f.decode b)

def mul (f : Binary) : Nat → Nat → Nat := f.combine fun
  | .finite s m e, .finite s' m' e' => f.encode (s != s') (m * m') 1 (e + e')
  | .infinite s, .infinite s' => f.withSign (s != s') f.infinity
  | .infinite s, .finite s' m _ => if m = 0 then f.invalid else f.withSign (s != s') f.infinity
  | .finite s m _, .infinite s' => if m = 0 then f.invalid else f.withSign (s != s') f.infinity
  | _, _ => f.invalid

def div (f : Binary) : Nat → Nat → Nat := f.combine fun
  | .finite s m e, .finite s' m' e' =>
      if m' = 0 then if m = 0 then f.invalid else f.withSign (s != s') f.infinity
      else f.encode (s != s') m m' (e - e')
  | .infinite s, .finite s' _ _ => f.withSign (s != s') f.infinity
  | .finite s _ _, .infinite s' => f.withSign (s != s') 0
  | _, _ => f.invalid

def signed (negative : Bool) (n : Nat) : Int := if negative then -n else n

def addExact (f : Binary) : Number → Number → Nat
  | .finite s m e, .finite s' m' e' =>
      let scale := min e e'
      let sum := signed s (scaleUp m (e - scale)) + signed s' (scaleUp m' (e' - scale))
      if sum = 0 then f.withSign (s && s') 0 else f.encode (sum < 0) sum.natAbs 1 scale
  | .infinite s, .infinite s' => if s = s' then f.withSign s f.infinity else f.invalid
  | .infinite s, .finite .. => f.withSign s f.infinity
  | .finite .., .infinite s => f.withSign s f.infinity
  | _, _ => f.invalid

def add (f : Binary) : Nat → Nat → Nat := f.combine f.addExact
def sub (f : Binary) : Nat → Nat → Nat := f.combine fun x y => f.addExact x y.neg

def trunc (f : Binary) (bits : Nat) : Nat :=
  if f.isNaN bits then bits ||| f.quietBit
  else match f.decode bits with
    | .finite s m e => f.encode s (scaleDown m e) 1 0
    | _ => bits

/-- A rank of the numbers in their order; both zeros have one rank. -/
def rank (f : Binary) (bits : Nat) : Int := signed (f.isNegative bits) (f.magnitude bits)

def lt (f : Binary) (a b : Nat) : Bool :=
  !f.isNaN a && !f.isNaN b && f.rank a < f.rank b

/-- The integer part, held between two bounds; nothing is known of a NaN and it gives zero. -/
def toIntWithin (f : Binary) (low high : Int) (bits : Nat) : Int :=
  match f.decode bits with
  | .nan => 0
  | .infinite s => if s then low else high
  | .finite s m e => max low (min high (signed s (scaleDown m e)))

end Binary

end PcmStream
