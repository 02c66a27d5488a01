/- Faults stop an operation in the middle. They are not results of the library: a caller meets one
   only after a misuse, a machine word that is too small, or a breakdown of code it supplied.
   Sizes and counters are natural numbers; a fault stands where one would leave the machine word. -/
namespace PcmStream

inductive Fault where
  | ringOverflow
  | ringUnderflow
  | emptyPacket
  | emptyPool
  | unalignedRead (length packetSize : Nat)
  | strayPacket (index pool : Nat)
  | packetLength (found packetSize : Nat)
  | addOverflow
  | mulOverflow
  | durationOverflow
  | capacityOverflow
  | breakdown (text : String)
  deriving DecidableEq, Repr

def Fault.message : Fault → String
  | ringOverflow => "index ring overflow"
  | ringUnderflow => "index ring underflow"
  | emptyPacket => "packet size must be non-zero"
  | emptyPool => "packet count must be non-zero"
  | unalignedRead length packetSize =>
      s!"read of {length} bytes is not a multiple of the {packetSize}-byte packet size"
  | strayPacket index pool => s!"packet {index} is not in the pool of {pool}"
  | packetLength found packetSize => s!"packet of {found} bytes where {packetSize} belong"
  | addOverflow => "attempt to add with overflow"
  | mulOverflow => "attempt to multiply with overflow"
  | durationOverflow =>
      "cannot convert float seconds to Duration: value is either too big or NaN"
  | capacityOverflow => "capacity overflow"
  | breakdown text => text

def wordLimit : Nat := 1 <<< 64

def addWord (a b : Nat) : Except Fault Nat :=
  if a + b < wordLimit then .ok (a + b) else .error .addOverflow

def mulWord (a b : Nat) : Except Fault Nat :=
  if a * b < wordLimit then .ok (a * b) else .error .mulOverflow

/-- The bytes of one allocation are below this. -/
def allocLimit : Nat := 1 <<< 63

/-- Takes memory for `count` values of `width` bytes in one piece. Below the limit memory is taken to
    suffice, and what grows is taken to grow to no more than it needs. -/
def allocate (count width : Nat) : Except Fault Unit :=
  if count * width < allocLimit then .ok () else .error .capacityOverflow

def bytesFor (count width : Nat) : Except Fault Nat := do
  let size ← mulWord count width
  allocate size 1
  return size

theorem allocLimit_lt_wordLimit : allocLimit < wordLimit := by decide

theorem addWord_eq_ok_iff {a b c : Nat} : addWord a b = .ok c ↔ a + b < wordLimit ∧ c = a + b := by
  grind [addWord]

theorem mulWord_eq_ok_iff {a b c : Nat} : mulWord a b = .ok c ↔ a * b < wordLimit ∧ c = a * b := by
  grind [mulWord]

theorem allocate_eq_ok_iff {a b : Nat} : allocate a b = .ok () ↔ a * b < allocLimit := by
  grind [allocate]

theorem bytesFor_eq_ok_iff {a b c : Nat} :
    bytesFor a b = .ok c ↔ a * b < allocLimit ∧ c = a * b := by
  have small := allocLimit_lt_wordLimit
  unfold bytesFor mulWord allocate
  by_cases fits : a * b < allocLimit
  · have word : a * b < wordLimit := Nat.lt_trans fits small
    simp [word, fits, bind, Except.bind, pure, Except.pure, eq_comm]
  · by_cases word : a * b < wordLimit <;> simp [word, fits, bind, Except.bind]

end PcmStream
