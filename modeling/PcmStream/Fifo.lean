import PcmStream.Ring

/- A pool of equal packets between a writer and a reader. A packet index is in the free ring, in the
   ready ring, or in flight in the writer's hands. The reader gets whole packets or nothing.
   A write is a loop of three steps, claim, copy and publish. A reader may come in between any two
   of them, so each is a definition of its own. -/
namespace PcmStream

/-- A packet in the writer's hands. Its first `offset` bytes are new, the others left over. -/
structure InFlight where
  index : Nat
  data : List UInt8
  offset : Nat
  deriving DecidableEq, Repr

def InFlight.filled (packet : InFlight) : List UInt8 := packet.data.take packet.offset

def InFlight.append (packet : InFlight) (bytes : List UInt8) : Except Fault InFlight :=
  let offset := packet.offset + bytes.length
  if packet.data.length < offset then .error (.packetLength packet.data.length offset)
  else .ok { packet with data := packet.filled ++ bytes ++ packet.data.drop offset, offset }

structure Fifo where
  packetSize : Nat
  packetCount : Nat
  isOpen : Bool
  packets : List (List UInt8)
  free : Ring
  ready : Ring
  inFlight : Option InFlight
  deriving DecidableEq, Repr

structure Occupancy where
  free : Nat
  ready : Nat
  inFlight : Bool
  deriving DecidableEq, Repr

def Occupancy.total (o : Occupancy) : Nat := o.free + o.ready + o.inFlight.toNat

namespace Fifo

/-- The place of a packet in the pool is an address and a length. -/
def placeWidth : Nat := 16

def Fits (packetSize packetCount : Nat) : Prop :=
  packetCount * placeWidth < allocLimit ∧ packetSize < allocLimit

instance (packetSize packetCount : Nat) : Decidable (Fits packetSize packetCount) :=
  inferInstanceAs (Decidable (_ ∧ _))

def new (packetSize packetCount : Nat) : Except Fault Fifo := do
  if packetSize = 0 then throw .emptyPacket
  if packetCount = 0 then throw .emptyPool
  allocate packetCount placeWidth
  allocate packetSize 1
  let ring ← Ring.new packetCount
  let free ← (List.range packetCount).foldlM Ring.enqueue ring
  return {
    packetSize, packetCount, free
    isOpen := true
    packets := List.replicate packetCount (List.replicate packetSize 0)
    ready := ring
    inFlight := none }

/-- Has a packet in flight, taking the next free one out of the pool if there is none. The place of
    a packet in flight is empty. None if no packet is free. -/
def claim (q : Fifo) : Except Fault (Option Fifo) := do
  if q.inFlight.isSome then return some q
  if q.free.isEmpty then return none
  let (index, free) ← q.free.dequeue
  match q.packets[index]? with
  | none => throw (.strayPacket index q.packets.length)
  | some data =>
    return some
      { q with free, packets := q.packets.set index [], inFlight := some ⟨index, data, 0⟩ }

def room (q : Fifo) : Nat :=
  match q.inFlight with
  | some packet => q.packetSize - packet.offset
  | none => 0

def copy (q : Fifo) (src : List UInt8) : Except Fault Fifo :=
  match q.inFlight with
  | some packet => do
      let packet ← packet.append (src.take q.room)
      return { q with inFlight := some packet }
  | none => .ok q

def publish (q : Fifo) : Except Fault Fifo :=
  match q.inFlight with
  | none => .ok q
  | some packet =>
    if packet.offset ≠ q.packetSize then .ok q
    else if q.packets.length ≤ packet.index then
      .error (.strayPacket packet.index q.packets.length)
    else do
      let ready ← q.ready.enqueue packet.index
      return { q with
        ready, packets := q.packets.set packet.index packet.data, inFlight := none }

/-- Every round takes at least one byte, so the length of `src` is fuel enough. -/
def writeFuel : Nat → Fifo → List UInt8 → Except Fault (Fifo × List UInt8)
  | 0, q, src => .ok (q, src)
  | _, q, [] => .ok (q, [])
  | fuel + 1, q, src => do
      match ← q.claim with
      | none => return (q, src)
      | some q =>
        let copied ← q.copy src
        let published ← copied.publish
        writeFuel fuel published (src.drop q.room)

def write (q : Fifo) (src : List UInt8) : Except Fault (Nat × Fifo) := do
  if q.isOpen then
    let (q, rest) ← writeFuel src.length q src
    return (src.length - rest.length, q)
  else return (0, q)

/-- The next `n` packets, each back in the free ring as soon as it is copied. -/
def readPackets : Nat → Fifo → Except Fault (List UInt8 × Fifo)
  | 0, q => .ok ([], q)
  | n + 1, q => do
      let (index, ready) ← q.ready.dequeue
      match q.packets[index]? with
      | none => throw (.strayPacket index q.packets.length)
      | some packet =>
        if packet.length ≠ q.packetSize then throw (.packetLength packet.length q.packetSize)
        let free ← q.free.enqueue index
        let (rest, q) ← readPackets n { q with ready, free }
        return (packet ++ rest, q)

/-- Fills the whole of `dst` with the oldest packets, or leaves it as it is: the count of bytes
    read, what `dst` then holds, and the queue. -/
def read (q : Fifo) (dst : List UInt8) : Except Fault (Nat × List UInt8 × Fifo) := do
  if dst.length % q.packetSize ≠ 0 then throw (.unalignedRead dst.length q.packetSize)
  let needed := dst.length / q.packetSize
  if q.isOpen = false ∨ needed = 0 ∨ q.ready.count < needed then return (0, dst, q)
  let (bytes, q) ← readPackets needed q
  return (needed * q.packetSize, bytes, q)

def space (q : Fifo) : Nat := if q.isOpen then q.free.count * q.packetSize + q.room else 0

def available (q : Fifo) : Nat := if q.isOpen then q.ready.count * q.packetSize else 0

def occupancy (q : Fifo) : Occupancy :=
  if q.isOpen then ⟨q.free.count, q.ready.count, q.inFlight.isSome⟩ else ⟨0, 0, false⟩

def close (q : Fifo) : Fifo := { q with isOpen := false, packets := [], inFlight := none }

/-- The bytes written and not yet read, oldest first. -/
def toList (q : Fifo) : List UInt8 :=
  q.ready.toList.flatMap (q.packets.getD · []) ++ (q.inFlight.map (·.filled)).getD []

end Fifo

end PcmStream
