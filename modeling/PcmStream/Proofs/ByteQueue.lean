import PcmStream.Proofs.PacketOwnership

/- The packet queue as a bounded queue of bytes. Between two calls a packet in flight is begun and
   not full, so the bytes alone tell how many packets are free, ready and in flight. -/
namespace PcmStream

namespace Fifo

variable {q : Fifo} {size count : Nat}

theorem held_lt (h : q.Sound size count) (rest : q.AtRest) : q.held < size := by
  have pos := h.positive
  cases held : q.inFlight with
  | none => simp [Fifo.held, held, pos]
  | some packet => simpa [Fifo.held, held, ← h.packetSize] using (rest packet held).2

theorem held_pos_iff (rest : q.AtRest) : 0 < q.held ↔ q.inFlight.isSome = true := by
  cases held : q.inFlight with
  | none => simp [Fifo.held, held]
  | some packet => simpa [Fifo.held, held] using (rest packet held).1

theorem ready_count_eq (h : q.Sound size count) (rest : q.AtRest) :
    q.ready.count = q.toList.length / size := by
  have short := held_lt h rest
  refine (Nat.div_eq_of_lt_le ?_ ?_).symm
  · rw [length_toList h]
    exact Nat.le_add_right _ _
  · rw [length_toList h, Nat.add_mul]
    omega

theorem held_eq (h : q.Sound size count) (rest : q.AtRest) : q.held = q.toList.length % size := by
  have short := held_lt h rest
  rw [length_toList h, Nat.mul_comm, Nat.mul_add_mod, Nat.mod_eq_of_lt short]

theorem free_count_eq (h : q.Sound size count) (rest : q.AtRest) :
    q.free.count = count - (q.toList.length + size - 1) / size := by
  have short := held_lt h rest
  have pos := h.positive
  have places := owners_length h
  have begun := held_pos_iff rest
  have rounded :
      (q.toList.length + size - 1) / size = q.ready.count + q.inFlight.toList.length := by
    rw [length_toList h]
    refine Nat.div_eq_of_lt_le ?_ ?_
    · cases held : q.inFlight <;> simp [held, Nat.add_mul] at begun ⊢ <;> omega
    · cases held : q.inFlight <;> simp [held, Nat.add_mul] at begun ⊢ <;> omega
  omega

theorem space_eq (h : q.Sound size count) : q.space = q.free.count * size + q.room := by
  simp [space, h.isOpen, h.packetSize]

theorem round_spec (h : q.Sound size count) (rest : q.AtRest) {src : List UInt8}
    (some_byte : src ≠ []) :
    (q.claim = .ok none ∧ q.space = 0) ∨
    ∃ claimed copied q', q.claim = .ok (some claimed) ∧ claimed.copy src = .ok copied ∧
      copied.publish = .ok q' ∧ 0 < claimed.room ∧ claimed.room ≤ q.space ∧
      q'.Sound size count ∧ q'.AtRest ∧ q'.toList = q.toList ++ src.take claimed.room := by
  have pos := h.positive
  have byte := List.length_pos_iff.mpr some_byte
  rcases claim_spec h with ⟨none_free, none_held, empty⟩ |
    ⟨claimed, packet, done, sound, held, same, fresh⟩
  · refine .inl ⟨none_free, ?_⟩
    rw [space_eq h, ← Ring.length_toList, empty]
    simp [room, none_held]
  · have begun : packet.offset < size := by
      rcases fresh with zero | kept
      · omega
      · exact h.packetSize ▸ (rest packet kept).2
    have room := room_eq sound held
    have total := space_add_length h
    have total' := space_add_length sound
    have parts := space_eq sound
    rw [same] at total'
    obtain ⟨copied, packet', copy, sound', held', offset, bytes⟩ := copy_spec sound held src
    obtain ⟨q', publish, sound'', bytes', still⟩ := publish_spec sound' held'
    refine .inr ⟨claimed, copied, q', done, copy, publish, by omega, by omega, sound'', ?_, ?_⟩
    · intro other left
      obtain ⟨rfl, short⟩ := still other left
      rw [sound''.packetSize]
      omega
    · rw [bytes', bytes, same]

theorem writeFuel_succ {fuel : Nat} {src : List UInt8} (some_byte : src ≠ []) :
    q.writeFuel (fuel + 1) src = q.claim.bind fun
      | none => .ok (q, src)
      | some q => q.copy src >>= fun copied => copied.publish >>= fun published =>
          published.writeFuel fuel (src.drop q.room) := by
  cases src with
  | nil => exact absurd rfl some_byte
  | cons b others => rfl

theorem take_drop_twice (src : List UInt8) (room later all : Nat)
    (long : room ≤ src.length → all = room + later) (short : src.length < room → src.length ≤ all) :
    src.take room ++ (src.drop room).take later = src.take all ∧
      (src.drop room).drop later = src.drop all := by
  rw [← List.take_add, List.drop_drop]
  by_cases reaches : room ≤ src.length
  · rw [long reaches]
    exact ⟨rfl, rfl⟩
  · rw [List.take_of_length_le (by omega), List.take_of_length_le (by omega),
      List.drop_of_length_le (by omega), List.drop_of_length_le (by omega)]
    exact ⟨rfl, rfl⟩

theorem writeFuel_spec (fuel : Nat) (h : q.Sound size count) (rest : q.AtRest)
    (src : List UInt8) (enough : src.length ≤ fuel) :
    ∃ q', q.writeFuel fuel src = .ok (q', src.drop q.space) ∧ q'.Sound size count ∧ q'.AtRest ∧
      q'.toList = q.toList ++ src.take q.space := by
  induction fuel generalizing q src with
  | zero =>
    have none_left : src = [] := List.length_eq_zero_iff.mp (by omega)
    exact ⟨q, by simp [writeFuel, none_left], h, rest, by simp [none_left]⟩
  | succ fuel ih =>
    by_cases none_left : src = []
    · subst none_left
      exact ⟨q, by simp [writeFuel], h, rest, by simp⟩
    · rw [writeFuel_succ none_left]
      rcases round_spec h rest none_left with ⟨stopped, no_space⟩ |
        ⟨claimed, copied, next, claim, copy, publish, progress, room, sound, rest', bytes⟩
      · exact ⟨q, by simp [stopped, no_space, Except.bind], h, rest, by simp [no_space]⟩
      · have fewer : (src.drop claimed.room).length ≤ fuel := by rw [List.length_drop]; omega
        obtain ⟨q', done, sound', rest'', bytes'⟩ := ih sound rest' (src.drop claimed.room) fewer
        have total := space_add_length h
        have total' := space_add_length sound
        rw [bytes, List.length_append, List.length_take] at total'
        obtain ⟨joined, left⟩ := take_drop_twice src claimed.room next.space q.space
          (by omega) (by omega)
        refine ⟨q', ?_, sound', rest'', by rw [bytes', bytes, List.append_assoc, joined]⟩
        simp only [claim, copy, publish, done, left, bind, Except.bind]

theorem writeFuel_enough {fuel fuel' : Nat} (h : q.Sound size count) (rest : q.AtRest)
    {src : List UInt8} (enough : src.length ≤ fuel) (enough' : src.length ≤ fuel') :
    q.writeFuel fuel src = q.writeFuel fuel' src := by
  induction fuel generalizing fuel' q src with
  | zero =>
    have none_left : src = [] := List.length_eq_zero_iff.mp (by omega)
    subst none_left
    cases fuel' <;> simp [writeFuel]
  | succ fuel ih =>
    by_cases none_left : src = []
    · subst none_left
      cases fuel' <;> simp [writeFuel]
    · have byte := List.length_pos_iff.mpr none_left
      obtain ⟨fuel', rfl⟩ := Nat.exists_eq_succ_of_ne_zero (show fuel' ≠ 0 by omega)
      rw [writeFuel_succ none_left, writeFuel_succ none_left]
      rcases round_spec h rest none_left with ⟨stopped, _⟩ |
        ⟨claimed, copied, next, claim, copy, publish, progress, _, sound, rest', _⟩
      · simp only [stopped, Except.bind]
      -- A round that goes on takes at least one byte off the source.
      · have fewer : (src.drop claimed.room).length < src.length := by rw [List.length_drop]; omega
        have same : next.writeFuel fuel (src.drop claimed.room) =
            next.writeFuel fuel' (src.drop claimed.room) := ih sound rest' (by omega) (by omega)
        simp only [claim, copy, publish, bind, Except.bind, same]

theorem write_spec (h : q.Sound size count) (rest : q.AtRest) (src : List UInt8) :
    ∃ q', q.write src = .ok (min src.length q.space, q') ∧ q'.Sound size count ∧ q'.AtRest ∧
      q'.toList = q.toList ++ src.take q.space := by
  obtain ⟨q', done, sound, rest', bytes⟩ := writeFuel_spec src.length h rest src (Nat.le_refl _)
  have taken : src.length - (src.length - q.space) = min src.length q.space := by omega
  refine ⟨q', ?_, sound, rest', bytes⟩
  simp [write, h.isOpen, done, taken, bind, Except.bind, pure, Except.pure]

theorem read_unaligned {dst : List UInt8} (odd : dst.length % q.packetSize ≠ 0) :
    q.read dst = .error (.unalignedRead dst.length q.packetSize) := by
  rw [read, if_pos odd]
  rfl

theorem read_aligned {dst : List UInt8} (aligned : dst.length % q.packetSize = 0) :
    q.read dst =
      let needed := dst.length / q.packetSize
      if q.isOpen = false ∨ needed = 0 ∨ q.ready.count < needed then .ok (0, dst, q)
      else (q.readPackets needed).bind fun (bytes, q) => .ok (needed * q.packetSize, bytes, q) := by
  rw [read, if_neg (by simpa using aligned)]
  rfl

theorem read_spec (h : q.Sound size count) {dst : List UInt8} (aligned : dst.length % size = 0) :
    ((dst.length / size = 0 ∨ q.ready.count < dst.length / size) ∧ q.read dst = .ok (0, dst, q)) ∨
    ((0 < dst.length / size ∧ dst.length / size ≤ q.ready.count) ∧
      ∃ bytes q', q.read dst = .ok (dst.length, bytes, q') ∧ q'.Sound size count ∧
        q'.inFlight = q.inFlight ∧ q.toList = bytes ++ q'.toList ∧ bytes.length = dst.length) := by
  have whole : dst.length / size * size = dst.length :=
    Nat.div_mul_cancel (Nat.dvd_of_mod_eq_zero aligned)
  rw [read_aligned (h.packetSize ▸ aligned), h.packetSize]
  by_cases short : dst.length / size = 0 ∨ q.ready.count < dst.length / size
  · exact .inl ⟨short, if_pos (.inr short)⟩
  · have enough : 0 < dst.length / size ∧ dst.length / size ≤ q.ready.count := by
      simp only [not_or, Nat.not_lt] at short
      exact ⟨Nat.pos_of_ne_zero short.1, short.2⟩
    obtain ⟨bytes, q', done, sound, held, split, length⟩ := readPackets_spec _ h enough.2
    refine .inr ⟨enough, bytes, q', ?_, sound, held, split, length.trans whole⟩
    rw [if_neg (by simp only [h.isOpen, Bool.true_eq_false, false_or]; exact short), done]
    simp only [Except.bind, sound.packetSize, whole]

theorem write_closed (shut : q.isOpen = false) (src : List UInt8) : q.write src = .ok (0, q) := by
  simp [write, shut, pure, Except.pure]

theorem read_closed (shut : q.isOpen = false) {dst : List UInt8}
    (aligned : dst.length % q.packetSize = 0) : q.read dst = .ok (0, dst, q) := by
  rw [read_aligned aligned]
  exact if_pos (.inl shut)

end Fifo

inductive Request where
  | write (src : List UInt8)
  | read (dst : List UInt8)
  | close
  deriving DecidableEq, Repr

inductive Answer where
  | accepted (bytes : Nat)
  | fetched (bytes : Nat) (dst : List UInt8)
  | closed
  | fault (f : Fault)
  deriving DecidableEq, Repr

def Fifo.serve (q : Fifo) : Request → Answer × Fifo
  | .write src =>
    match q.write src with
    | .ok (bytes, q) => (.accepted bytes, q)
    | .error f => (.fault f, q)
  | .read dst =>
    match q.read dst with
    | .ok (bytes, dst, q) => (.fetched bytes dst, q)
    | .error f => (.fault f, q)
  | .close => (.closed, q.close)

def Fifo.serveAll : Fifo → List Request → List Answer × Fifo
  | q, [] => ([], q)
  | q, r :: requests =>
    let (answer, q) := q.serve r
    let (answers, q) := q.serveAll requests
    (answer :: answers, q)

/-- A bounded queue of bytes; none once it is closed. Its packets only set the unit of reading. -/
structure ByteQueue where
  packetSize : Nat
  packetCount : Nat
  bytes : Option (List UInt8)
  deriving DecidableEq, Repr

namespace ByteQueue

def write (b : ByteQueue) (src : List UInt8) : Answer × ByteQueue :=
  match b.bytes with
  | none => (.accepted 0, b)
  | some bytes =>
    let accepted := min src.length (b.packetCount * b.packetSize - bytes.length)
    (.accepted accepted, { b with bytes := some (bytes ++ src.take accepted) })

def read (b : ByteQueue) (packets : Nat) (dst : List UInt8) : Answer × ByteQueue :=
  match b.bytes with
  | none => (.fetched 0 dst, b)
  | some bytes =>
    let n := packets * b.packetSize
    if 1 ≤ packets ∧ packets ≤ bytes.length / b.packetSize then
      (.fetched n (bytes.take n), { b with bytes := some (bytes.drop n) })
    else (.fetched 0 dst, b)

def serve (b : ByteQueue) : Request → Answer × ByteQueue
  | .write src => b.write src
  | .read dst =>
    if dst.length % b.packetSize = 0 then b.read (dst.length / b.packetSize) dst
    else (.fault (.unalignedRead dst.length b.packetSize), b)
  | .close => (.closed, { b with bytes := none })

def serveAll : ByteQueue → List Request → List Answer × ByteQueue
  | b, [] => ([], b)
  | b, r :: requests =>
    let (answer, b) := b.serve r
    let (answers, b) := b.serveAll requests
    (answer :: answers, b)

def space (b : ByteQueue) : Nat :=
  match b.bytes with
  | none => 0
  | some bytes => b.packetCount * b.packetSize - bytes.length

def available (b : ByteQueue) : Nat :=
  match b.bytes with
  | none => 0
  | some bytes => bytes.length / b.packetSize * b.packetSize

def occupancy (b : ByteQueue) : Occupancy :=
  match b.bytes with
  | none => ⟨0, 0, false⟩
  | some bytes =>
    { free := b.packetCount - (bytes.length + b.packetSize - 1) / b.packetSize
      ready := bytes.length / b.packetSize
      inFlight := bytes.length % b.packetSize ≠ 0 }

end ByteQueue

def Fifo.Holds (q : Fifo) (b : ByteQueue) : Prop :=
  match b.bytes with
  | none => q.packetSize = b.packetSize ∧ q.isOpen = false
  | some bytes => q.Sound b.packetSize b.packetCount ∧ q.AtRest ∧ q.toList = bytes

/-- All that can be asked about a packet queue is as for the byte queue. -/
structure Fifo.Shows (q : Fifo) (b : ByteQueue) : Prop where
  isOpen : q.isOpen = b.bytes.isSome
  space : q.space = b.space
  available : q.available = b.available
  occupancy : q.occupancy = b.occupancy

namespace Fifo

variable {q : Fifo} {b : ByteQueue}

theorem holds_none_iff {size count : Nat} :
    q.Holds ⟨size, count, none⟩ ↔ q.packetSize = size ∧ q.isOpen = false := Iff.rfl

theorem holds_some_iff {size count : Nat} {bytes : List UInt8} :
    q.Holds ⟨size, count, some bytes⟩ ↔ q.Sound size count ∧ q.AtRest ∧ q.toList = bytes := Iff.rfl

theorem packetSize_of_holds (h : q.Holds b) : q.packetSize = b.packetSize := by
  obtain ⟨size, count, _ | bytes⟩ := b
  · exact (holds_none_iff.mp h).1
  · exact (holds_some_iff.mp h).1.packetSize

theorem serve_write_holds (h : q.Holds b) (src : List UInt8) :
    (q.serve (.write src)).1 = (b.serve (.write src)).1 ∧
      (q.serve (.write src)).2.Holds (b.serve (.write src)).2 := by
  obtain ⟨size, count, _ | bytes⟩ := b
  · rw [serve, write_closed (holds_none_iff.mp h).2]
    exact ⟨rfl, h⟩
  · obtain ⟨sound, rest, listed⟩ := holds_some_iff.mp h
    obtain ⟨q', done, sound', rest', listed'⟩ := write_spec sound rest src
    have space : q.space = count * size - bytes.length := by
      have total := space_add_length sound
      rw [listed] at total
      exact Nat.eq_sub_of_add_eq total
    simp only [serve, done, ByteQueue.serve, ByteQueue.write, ← space, true_and]
    refine holds_some_iff.mpr ⟨sound', rest', ?_⟩
    rw [listed', listed, Nat.min_comm, ← List.take_eq_take_min]

theorem serve_read_aligned {size count : Nat} {bytes dst : List UInt8}
    (h : q.Holds ⟨size, count, some bytes⟩) (aligned : dst.length % size = 0) :
    let model := ByteQueue.read ⟨size, count, some bytes⟩ (dst.length / size) dst
    (q.serve (.read dst)).1 = model.1 ∧ (q.serve (.read dst)).2.Holds model.2 := by
  obtain ⟨sound, rest, listed⟩ := holds_some_iff.mp h
  have ready := ready_count_eq sound rest
  have whole : dst.length / size * size = dst.length :=
    Nat.div_mul_cancel (Nat.dvd_of_mod_eq_zero aligned)
  rw [listed] at ready
  simp only [serve, ByteQueue.read, whole, ← ready]
  rcases read_spec sound aligned with ⟨short, done⟩ |
    ⟨enough, taken, q', done, sound', held, split, length⟩
  · have refused : ¬ (1 ≤ dst.length / size ∧ dst.length / size ≤ q.ready.count) := by
      rintro ⟨some_packet, enough⟩
      rcases short with none_wanted | few
      · exact absurd none_wanted (Nat.ne_of_gt some_packet)
      · exact absurd few (Nat.not_lt.mpr enough)
    rw [done, if_neg refused]
    exact ⟨rfl, h⟩
  · have granted : 1 ≤ dst.length / size ∧ dst.length / size ≤ q.ready.count := enough
    rw [listed] at split
    rw [done, if_pos granted]
    have rest' := atRest_congr held (sound'.packetSize.trans sound.packetSize.symm) rest
    refine ⟨by rw [split, List.take_left' length], holds_some_iff.mpr ⟨sound', rest', ?_⟩⟩
    rw [split, List.drop_left' length]

theorem serve_read_holds (h : q.Holds b) (dst : List UInt8) :
    (q.serve (.read dst)).1 = (b.serve (.read dst)).1 ∧
      (q.serve (.read dst)).2.Holds (b.serve (.read dst)).2 := by
  have sized := packetSize_of_holds h
  by_cases aligned : dst.length % b.packetSize = 0
  · rw [ByteQueue.serve, if_pos aligned]
    obtain ⟨size, count, _ | bytes⟩ := b
    · rw [serve, read_closed (holds_none_iff.mp h).2 (sized ▸ aligned)]
      exact ⟨rfl, h⟩
    · exact serve_read_aligned h aligned
  · rw [ByteQueue.serve, if_neg aligned, serve, read_unaligned (sized ▸ aligned), sized]
    exact ⟨rfl, h⟩

theorem serve_close_holds (h : q.Holds b) :
    (q.serve .close).1 = (b.serve .close).1 ∧ (q.serve .close).2.Holds (b.serve .close).2 := by
  have sized := packetSize_of_holds h
  exact ⟨rfl, holds_none_iff.mpr ⟨sized, rfl⟩⟩

theorem serve_holds (h : q.Holds b) (r : Request) :
    (q.serve r).1 = (b.serve r).1 ∧ (q.serve r).2.Holds (b.serve r).2 := by
  cases r with
  | write src => exact serve_write_holds h src
  | read dst => exact serve_read_holds h dst
  | close => exact serve_close_holds h

theorem serveAll_holds (requests : List Request) (h : q.Holds b) :
    (q.serveAll requests).1 = (b.serveAll requests).1 ∧
      (q.serveAll requests).2.Holds (b.serveAll requests).2 := by
  induction requests generalizing q b with
  | nil => exact ⟨rfl, h⟩
  | cons r requests ih =>
    obtain ⟨answer, next⟩ := serve_holds h r
    obtain ⟨answers, last⟩ := ih next
    simp only [serveAll, ByteQueue.serveAll]
    exact ⟨by rw [answer, answers], last⟩

theorem shows_of_holds (h : q.Holds b) : q.Shows b := by
  obtain ⟨size, count, _ | bytes⟩ := b
  · have shut := (holds_none_iff.mp h).2
    constructor <;> simp [shut, space, ByteQueue.space, available, ByteQueue.available, occupancy,
      ByteQueue.occupancy]
  · obtain ⟨sound, rest, listed⟩ := holds_some_iff.mp h
    have total := space_add_length sound
    have ready := ready_count_eq sound rest
    have free := free_count_eq sound rest
    have begun := held_pos_iff rest
    rw [held_eq sound rest] at begun
    rw [listed] at total ready free begun
    constructor
    · exact sound.isOpen
    · exact Nat.eq_sub_of_add_eq total
    · simp [available, sound.isOpen, sound.packetSize, ready, ByteQueue.available]
    · simp only [occupancy, sound.isOpen, if_true, ByteQueue.occupancy, ready, free]
      congr 1
      rw [Bool.eq_iff_iff, ← begun]
      simp [Nat.pos_iff_ne_zero]

theorem serve_sizes (b : ByteQueue) (r : Request) :
    (b.serve r).2.packetSize = b.packetSize ∧ (b.serve r).2.packetCount = b.packetCount := by
  obtain ⟨size, count, _ | bytes⟩ := b <;> cases r <;>
    simp only [ByteQueue.serve, ByteQueue.write, ByteQueue.read] <;> grind

theorem serveAll_sizes (requests : List Request) (b : ByteQueue) :
    (b.serveAll requests).2.packetSize = b.packetSize ∧
      (b.serveAll requests).2.packetCount = b.packetCount := by
  induction requests generalizing b with
  | nil => exact ⟨rfl, rfl⟩
  | cons r requests ih =>
    have one := serve_sizes b r
    simp only [ByteQueue.serveAll]
    exact ⟨(ih _).1.trans one.1, (ih _).2.trans one.2⟩

/-- Every run of calls on a new packet queue is answered as by a queue of bytes, of which no more
    than the packets hold are ever kept. -/
theorem packet_queue_is_byte_queue {size count : Nat} (positive : 0 < size)
    (some_packet : 0 < count) (fits : Fits size count) :
    ∃ q, Fifo.new size count = .ok q ∧ ∀ requests : List Request,
      let after := q.serveAll requests
      let model := ByteQueue.serveAll ⟨size, count, some []⟩ requests
      after.1 = model.1 ∧ after.2.Shows model.2 ∧
        ∀ bytes, model.2.bytes = some bytes →
          bytes.length ≤ count * size ∧
          ∀ src fuel, src.length ≤ fuel →
            after.2.writeFuel fuel src = after.2.writeFuel src.length src := by
  obtain ⟨q, made, sound, none_held, empty⟩ := new_spec positive some_packet fits
  refine ⟨q, made, ?_⟩
  intro requests
  have start : q.Holds ⟨size, count, some []⟩ :=
    holds_some_iff.mpr ⟨sound, by simp [AtRest, none_held], empty⟩
  obtain ⟨answers, holds⟩ := serveAll_holds requests start
  obtain ⟨sameSize, sameCount⟩ := serveAll_sizes requests ⟨size, count, some []⟩
  refine ⟨answers, shows_of_holds holds, ?_⟩
  intro bytes kept
  rw [Holds, kept] at holds
  obtain ⟨sound', rest, listed⟩ := holds
  refine ⟨?_, fun src fuel enough => writeFuel_enough sound' rest enough (Nat.le_refl _)⟩
  have bound := length_toList_le sound'
  rwa [listed, sameSize, sameCount] at bound

/-- The first packet is read and filled again, and the last write brings more than fits. -/
theorem byte_queue_of_two_packets : 0 < 2 ∧ Fits 2 2 ∧ ∃ q, Fifo.new 2 2 = .ok q ∧
    (q.serveAll [.write [1, 2, 3], .read [0, 0], .write [4, 5, 6, 7], .read [0, 0, 0, 0]]).1 =
      [.accepted 3, .fetched 2 [1, 2], .accepted 3, .fetched 4 [3, 4, 5, 6]] := by
  obtain ⟨q, made, same⟩ := @packet_queue_is_byte_queue 2 2 (by decide) (by decide) (by decide)
  exact ⟨by decide, by decide, q, made, (same _).1⟩

end Fifo

end PcmStream
