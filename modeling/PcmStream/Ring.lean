import PcmStream.Fault

/- A ring of packet indices. One slot always stays unused, so that head = tail means empty and
   never full. Slots outside the window from tail to head hold leftovers. -/
namespace PcmStream

structure Ring where
  slots : List Nat
  head : Nat
  tail : Nat
  deriving DecidableEq, Repr

namespace Ring

def slotWidth : Nat := 8

/-- Memory can hold the slots for `limit` values and the one that stays unused. -/
def Fits (limit : Nat) : Prop := (limit + 1) * slotWidth < allocLimit

instance (limit : Nat) : Decidable (Fits limit) := inferInstanceAs (Decidable (_ < _))

def new (limit : Nat) : Except Fault Ring := do
  let size ← addWord limit 1
  allocate size slotWidth
  return ⟨List.replicate size 0, 0, 0⟩

def capacity (r : Ring) : Nat := r.slots.length

def count (r : Ring) : Nat := (r.head + r.capacity - r.tail) % r.capacity

def isEmpty (r : Ring) : Bool := r.head == r.tail

def isFull (r : Ring) : Bool := r.count == r.capacity - 1

def next (r : Ring) (i : Nat) : Nat := (i + 1) % r.capacity

def enqueue (r : Ring) (value : Nat) : Except Fault Ring :=
  if r.isFull then .error .ringOverflow
  else .ok { r with slots := r.slots.set r.head value, head := r.next r.head }

def dequeue (r : Ring) : Except Fault (Nat × Ring) :=
  if r.isEmpty then .error .ringUnderflow
  else .ok (r.slots.getD r.tail 0, { r with tail := r.next r.tail })

/-- The queued values, oldest first. -/
def toList (r : Ring) : List Nat :=
  (List.range r.count).map fun i => r.slots.getD ((r.tail + i) % r.capacity) 0

end Ring

end PcmStream
