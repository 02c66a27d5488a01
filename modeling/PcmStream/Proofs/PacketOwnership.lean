import PcmStream.Fifo
import PcmStream.Proofs.RingQueue

/- Who has which packet. Every index of the pool is in the free ring, in the ready ring or in the
   writer's hands, and only the writer's place in the pool is empty. This holds between any two
   steps of a write; each step says what it does to the bytes of the queue. -/
namespace PcmStream.Fifo

def owners (q : Fifo) : List Nat :=
  q.free.toList ++ q.ready.toList ++ q.inFlight.toList.map (·.index)

/-- An open queue of `count` packets of `size` bytes, also in the middle of a write. -/
structure Sound (q : Fifo) (size count : Nat) : Prop where
  packetSize : q.packetSize = size
  packetCount : q.packetCount = count
  isOpen : q.isOpen = true
  positive : 0 < size
  free : q.free.Sound count
  ready : q.ready.Sound count
  pool : q.packets.length = count
  owners : q.owners.Perm (List.range count)
  box : ∀ i ∈ q.free.toList ++ q.ready.toList,
    ∃ data, q.packets[i]? = some data ∧ data.length = size
  held : ∀ packet, q.inFlight = some packet → packet.data.length = size ∧ packet.offset ≤ size

def AtRest (q : Fifo) : Prop :=
  ∀ packet, q.inFlight = some packet → 0 < packet.offset ∧ packet.offset < q.packetSize

def held (q : Fifo) : Nat := (q.inFlight.map (·.offset)).getD 0

variable {q : Fifo} {size count : Nat}

theorem atRest_congr {q' : Fifo} (held : q'.inFlight = q.inFlight)
    (sized : q'.packetSize = q.packetSize) (rest : q.AtRest) : q'.AtRest := by
  intro packet left
  rw [sized]
  exact rest packet (held ▸ left)

theorem owners_nodup (h : q.Sound size count) : q.owners.Nodup :=
  h.owners.nodup_iff.mpr List.nodup_range

theorem owner_lt (h : q.Sound size count) {i : Nat} (mem : i ∈ q.owners) : i < count :=
  List.mem_range.mp (h.owners.mem_iff.mp mem)

theorem owners_length (h : q.Sound size count) :
    q.free.count + q.ready.count + q.inFlight.toList.length = count := by
  have same := h.owners.length_eq
  simp only [Fifo.owners, List.length_append, List.length_map, List.length_range,
    Ring.length_toList] at same
  exact same

theorem box_of_apart (h : q.Sound size count) {i : Nat} (inside : i < count)
    (apart : ∀ packet, q.inFlight = some packet → packet.index ≠ i) :
    ∃ data, q.packets[i]? = some data ∧ data.length = size := by
  have owned : i ∈ q.owners := h.owners.mem_iff.mpr (List.mem_range.mpr inside)
  refine h.box i ((List.mem_append.mp owned).resolve_right ?_)
  intro held
  obtain ⟨packet, mem, same⟩ := List.mem_map.mp held
  exact apart packet (Option.mem_toList.mp mem) same

theorem occupancy_total (h : q.Sound size count) : q.occupancy.total = count := by
  have places := owners_length h
  cases held : q.inFlight <;>
    simpa [occupancy, h.isOpen, Occupancy.total, held] using places

theorem length_flatMap_eq {α β : Type} {f : α → List β} {n : Nat} (xs : List α)
    (each : ∀ x ∈ xs, (f x).length = n) : (xs.flatMap f).length = xs.length * n := by
  induction xs with
  | nil => simp
  | cons x xs ih =>
    have rest := ih fun y mem => each y (List.mem_cons_of_mem x mem)
    simp only [List.flatMap_cons, List.length_append, List.length_cons, rest,
      each x List.mem_cons_self, Nat.add_mul]
    omega

theorem box_getD (h : q.Sound size count) {i : Nat} (mem : i ∈ q.free.toList ++ q.ready.toList) :
    (q.packets.getD i []).length = size := by
  obtain ⟨data, found, whole⟩ := h.box i mem
  simp [List.getD_eq_getElem?_getD, found, whole]

theorem filled_length (h : q.Sound size count) {packet : InFlight}
    (held : q.inFlight = some packet) : packet.filled.length = packet.offset := by
  have whole := h.held packet held
  simp only [InFlight.filled, List.length_take]
  omega

theorem length_toList (h : q.Sound size count) :
    q.toList.length = q.ready.count * size + q.held := by
  have waiting : (q.ready.toList.flatMap (q.packets.getD · [])).length =
      q.ready.toList.length * size :=
    length_flatMap_eq _ fun i mem => box_getD h (List.mem_append_right _ mem)
  rw [toList, List.length_append, waiting, Ring.length_toList]
  cases none_or : q.inFlight with
  | none => simp [Fifo.held, none_or]
  | some packet => simp [Fifo.held, none_or, filled_length h none_or]

theorem space_add_length (h : q.Sound size count) :
    q.space + q.toList.length = count * size := by
  have places := owners_length h
  rw [length_toList h]
  simp only [space, h.isOpen, if_true, h.packetSize, room, Fifo.held]
  cases none_or : q.inFlight with
  | none =>
    simp only [none_or, Option.toList_none, List.length_nil] at places
    simp only [Option.map_none, Option.getD_none, ← places, Nat.add_mul]
    omega
  | some packet =>
    have fits := (h.held packet none_or).2
    simp only [none_or, Option.toList_some, List.length_singleton] at places
    simp only [Option.map_some, Option.getD_some, ← places, Nat.add_mul]
    omega

theorem length_toList_le (h : q.Sound size count) : q.toList.length ≤ count * size := by
  have total := space_add_length h
  omega

theorem disjoint_held (h : q.Sound size count) {packet : InFlight}
    (held : q.inFlight = some packet) {i : Nat} (mem : i ∈ q.free.toList ++ q.ready.toList) :
    i ≠ packet.index := by
  have distinct := owners_nodup h
  rw [Fifo.owners, held, List.nodup_append] at distinct
  exact distinct.2.2 i mem packet.index (by simp)

theorem flatMap_boxes_congr {packets packets' : List (List UInt8)} {indices : List Nat}
    (same : ∀ i ∈ indices, packets'[i]? = packets[i]?) :
    indices.flatMap (packets'.getD · []) = indices.flatMap (packets.getD · []) := by
  rw [List.flatMap_def, List.flatMap_def]
  congr 1
  apply List.map_congr_left
  intro i mem
  simp only [List.getD_eq_getElem?_getD, same i mem]

theorem take_free_spec (h : q.Sound size count) (held : q.inFlight = none) {index : Nat}
    {others : List Nat} (free : q.free.toList = index :: others) :
    ∃ ring data, q.free.dequeue = .ok (index, ring) ∧ q.packets[index]? = some data ∧
      let packets := q.packets.set index []
      let q' : Fifo := { q with free := ring, packets, inFlight := some ⟨index, data, 0⟩ }
      q'.Sound size count ∧ q'.toList = q.toList := by
  obtain ⟨ring, taken, sound, listed⟩ := Ring.dequeue_spec h.free free
  obtain ⟨data, found, whole⟩ := h.box index (by simp [free])
  have before := h.owners
  have distinct := owners_nodup h
  simp only [Fifo.owners, free, held, Option.toList_none, List.map_nil, List.append_nil,
    List.cons_append] at before distinct
  have moved : ∀ i ∈ others ++ q.ready.toList, (q.packets.set index [])[i]? = q.packets[i]? := by
    intro i mem
    refine List.getElem?_set_ne ?_
    rintro rfl
    exact (List.nodup_cons.mp distinct).1 mem
  refine ⟨ring, data, taken, found, ?_, ?_⟩
  · refine ⟨h.packetSize, h.packetCount, h.isOpen, h.positive, sound, h.ready,
      by simp [h.pool], ?_, ?_, ?_⟩
    · simp only [Fifo.owners, listed, Option.toList_some, List.map_singleton]
      exact (List.perm_append_singleton index _).trans before
    · intro i mem
      rw [listed] at mem
      rw [moved i mem]
      exact h.box i (by rw [free]; exact List.mem_cons_of_mem index mem)
    · rintro packet ⟨rfl⟩
      exact ⟨whole, Nat.zero_le size⟩
  · have kept := flatMap_boxes_congr fun i mem => moved i (List.mem_append_right others mem)
    simp only [toList, kept, held]
    simp [InFlight.filled]

theorem claim_spec (h : q.Sound size count) :
    (q.claim = .ok none ∧ q.inFlight = none ∧ q.free.toList = []) ∨
    ∃ q' packet, q.claim = .ok (some q') ∧ q'.Sound size count ∧ q'.inFlight = some packet ∧
      q'.toList = q.toList ∧ (packet.offset = 0 ∨ q.inFlight = some packet) := by
  cases held : q.inFlight with
  | some packet =>
    exact .inr ⟨q, packet, by simp [claim, held, pure, Except.pure], h, held, rfl, .inr rfl⟩
  | none =>
    have emptyIff := Ring.isEmpty_iff h.free
    cases free : q.free.toList with
    | nil =>
      have empty := emptyIff.mpr free
      exact .inl ⟨by simp [claim, held, empty, pure, Except.pure], rfl, rfl⟩
    | cons index others =>
      have filled : q.free.isEmpty = false := by
        rw [free] at emptyIff
        simpa using emptyIff
      obtain ⟨ring, data, taken, found, sound, same⟩ := take_free_spec h held free
      refine .inr ⟨_, _, ?_, sound, rfl, same, .inl rfl⟩
      simp [claim, held, filled, taken, found, bind, Except.bind, pure, Except.pure]

theorem room_eq (h : q.Sound size count) {packet : InFlight} (held : q.inFlight = some packet) :
    q.room = size - packet.offset := by
  simp [room, held, h.packetSize]

theorem append_spec (packet : InFlight) (bytes : List UInt8)
    (fits : packet.offset + bytes.length ≤ packet.data.length) :
    ∃ packet', packet.append bytes = .ok packet' ∧ packet'.index = packet.index ∧
      packet'.offset = packet.offset + bytes.length ∧
      packet'.data.length = packet.data.length ∧ packet'.filled = packet.filled ++ bytes := by
  have inside : ¬ packet.data.length < packet.offset + bytes.length := by omega
  have start : packet.filled.length = packet.offset := by
    simp only [InFlight.filled, List.length_take]
    omega
  let packet' : InFlight :=
    { packet with
      data := packet.filled ++ bytes ++ packet.data.drop (packet.offset + bytes.length)
      offset := packet.offset + bytes.length }
  refine ⟨packet', by simp [InFlight.append, inside, packet'], rfl, rfl, ?_, ?_⟩
  · simp only [packet', List.length_append, start, List.length_drop]
    omega
  · exact List.take_left' (by simp [packet', start])

theorem copy_spec (h : q.Sound size count) {packet : InFlight} (held : q.inFlight = some packet)
    (src : List UInt8) :
    ∃ q' packet', q.copy src = .ok q' ∧ q'.Sound size count ∧ q'.inFlight = some packet' ∧
      packet'.offset = packet.offset + min src.length q.room ∧
      q'.toList = q.toList ++ src.take q.room := by
  obtain ⟨whole, fits⟩ := h.held packet held
  have room := room_eq h held
  obtain ⟨packet', appended, index, offset, length, filled⟩ :=
    append_spec packet (src.take q.room) (by rw [List.length_take]; omega)
  rw [List.length_take, Nat.min_comm] at offset
  let q' : Fifo := { q with inFlight := some packet' }
  refine ⟨q', packet', ?_, ?_, rfl, offset, ?_⟩
  · simp [copy, held, appended, bind, Except.bind, pure, Except.pure, q']
  · refine ⟨h.packetSize, h.packetCount, h.isOpen, h.positive, h.free, h.ready, h.pool, ?_, h.box,
      ?_⟩
    · simpa [q', Fifo.owners, held, index] using h.owners
    · rintro other ⟨rfl⟩
      exact ⟨length.trans whole, by omega⟩
  · simp [toList, q', held, filled, List.append_assoc]

theorem publish_spec (h : q.Sound size count) {packet : InFlight}
    (held : q.inFlight = some packet) :
    ∃ q', q.publish = .ok q' ∧ q'.Sound size count ∧ q'.toList = q.toList ∧
      ∀ packet', q'.inFlight = some packet' → packet' = packet ∧ packet.offset < size := by
  obtain ⟨whole, fits⟩ := h.held packet held
  by_cases full : packet.offset = size
  · have inside : packet.index < count := owner_lt h (by simp [Fifo.owners, held])
    have places := owners_length h
    simp only [held, Option.toList_some, List.length_singleton] at places
    obtain ⟨ring, queued, sound, listed⟩ :=
      Ring.enqueue_spec h.ready packet.index (by rw [Ring.length_toList]; omega)
    let q' : Fifo :=
      { q with ready := ring, packets := q.packets.set packet.index packet.data, inFlight := none }
    have kept : ∀ i ∈ q.free.toList ++ q.ready.toList, q'.packets[i]? = q.packets[i]? :=
      fun i mem => List.getElem?_set_ne (disjoint_held h held mem).symm
    have returned : q'.packets[packet.index]? = some packet.data := by
      simp [q', h.pool, inside]
    refine ⟨q', ?_, ?_, ?_, by simp [q']⟩
    · have notOut : ¬ q.packets.length ≤ packet.index := by have := h.pool; omega
      simp [publish, held, full, h.packetSize, notOut, queued, bind, Except.bind, pure, Except.pure,
        q']
    · refine ⟨h.packetSize, h.packetCount, h.isOpen, h.positive, h.free, sound,
        by simp [q', h.pool], ?_, ?_, by simp [q']⟩
      · simpa [q', Fifo.owners, held, listed] using h.owners
      · intro i mem
        rw [show q'.ready.toList = q.ready.toList ++ [packet.index] from listed,
          ← List.append_assoc, List.mem_append, List.mem_singleton] at mem
        rcases mem with mem | same
        · rw [kept i mem]
          exact h.box i mem
        · exact ⟨packet.data, same ▸ returned, whole⟩
    · have all : packet.filled = packet.data := by simp [InFlight.filled, full, ← whole]
      have old := flatMap_boxes_congr fun i mem => kept i (List.mem_append_right _ mem)
      rw [toList, toList, show q'.ready.toList = _ from listed, List.flatMap_append, old, held]
      simp [q', all, List.getD_eq_getElem?_getD, h.pool, inside]
  · refine ⟨q, by simp [publish, held, h.packetSize, full], h, rfl, ?_⟩
    intro packet' same
    rw [held, Option.some.injEq] at same
    exact ⟨same.symm, by omega⟩

theorem read_one_spec (h : q.Sound size count) {index : Nat} {others : List Nat}
    (waiting : q.ready.toList = index :: others) :
    ∃ ready data free, q.ready.dequeue = .ok (index, ready) ∧ q.packets[index]? = some data ∧
      data.length = size ∧ q.free.enqueue index = .ok free ∧ ready.toList = others ∧
      let q' : Fifo := { q with ready, free }
      q'.Sound size count ∧ q.toList = data ++ q'.toList := by
  obtain ⟨ready, taken, soundReady, listed⟩ := Ring.dequeue_spec h.ready waiting
  obtain ⟨data, found, whole⟩ := h.box index (by simp [waiting])
  have places := owners_length h
  have one : 0 < q.ready.count := by rw [← Ring.length_toList, waiting]; exact Nat.succ_pos _
  obtain ⟨free, put, soundFree, grown⟩ :=
    Ring.enqueue_spec h.free index (by rw [Ring.length_toList]; omega)
  have moved : (free.toList ++ ready.toList).Perm (q.free.toList ++ q.ready.toList) := by
    rw [grown, listed, waiting, List.append_assoc]
    rfl
  refine ⟨ready, data, free, taken, found, whole, put, listed, ?_, ?_⟩
  · refine ⟨h.packetSize, h.packetCount, h.isOpen, h.positive, soundFree, soundReady, h.pool, ?_,
      fun i mem => h.box i (moved.mem_iff.mp mem), h.held⟩
    exact (moved.append_right _).trans h.owners
  · simp [toList, waiting, listed, List.getD_eq_getElem?_getD, found]

theorem readPackets_spec (n : Nat) (h : q.Sound size count) (enough : n ≤ q.ready.count) :
    ∃ bytes q', q.readPackets n = .ok (bytes, q') ∧ q'.Sound size count ∧
      q'.inFlight = q.inFlight ∧ q.toList = bytes ++ q'.toList ∧ bytes.length = n * size := by
  induction n generalizing q with
  | zero => exact ⟨[], q, rfl, h, rfl, by simp, by simp⟩
  | succ n ih =>
    cases waiting : q.ready.toList with
    | nil =>
      rw [← Ring.length_toList, waiting, List.length_nil] at enough
      omega
    | cons index others =>
      obtain ⟨ready, data, free, taken, found, whole, put, listed, sound, first⟩ :=
        read_one_spec h waiting
      have left : n ≤ ready.count := by
        rw [← Ring.length_toList, waiting, List.length_cons] at enough
        rw [← Ring.length_toList, listed]
        omega
      obtain ⟨bytes, q', rest, sound', held, later, length⟩ := ih sound left
      refine ⟨data ++ bytes, q', ?_, sound', held, by rw [first, later, List.append_assoc], ?_⟩
      · have right_length : data.length = q.packetSize := whole.trans h.packetSize.symm
        simp [readPackets, taken, found, right_length, put, rest, bind, Except.bind, pure,
          Except.pure]
      · rw [List.length_append, whole, length, Nat.add_mul]
        omega

theorem Fits.ring (fits : Fits size count) (some_packet : 0 < count) : Ring.Fits count := by
  have pool := fits.1
  unfold placeWidth at pool
  unfold Ring.Fits Ring.slotWidth
  omega

theorem new_spec (positive : 0 < size) (some_packet : 0 < count) (fits : Fits size count) :
    ∃ q, Fifo.new size count = .ok q ∧ q.Sound size count ∧ q.inFlight = none ∧ q.toList = [] := by
  obtain ⟨ring, made, sound, empty⟩ := Ring.new_spec (fits.ring some_packet)
  obtain ⟨free, filled, soundFree, listed⟩ :=
    Ring.enqueue_all_spec (List.range count) sound (by simp [empty])
  rw [empty, List.nil_append] at listed
  refine ⟨⟨size, count, true, List.replicate count (List.replicate size 0), free, ring, none⟩,
    ?_, ?_, rfl, by simp [toList, empty]⟩
  · have notEmpty : size ≠ 0 := by omega
    have notNone : count ≠ 0 := by omega
    have pool : allocate count placeWidth = .ok () := allocate_eq_ok_iff.mpr fits.1
    have packet : allocate size 1 = .ok () := allocate_eq_ok_iff.mpr (by simpa using fits.2)
    simp [Fifo.new, notEmpty, notNone, pool, packet, made, filled, bind, Except.bind, pure,
      Except.pure]
  · refine ⟨rfl, rfl, rfl, positive, soundFree, sound, by simp, ?_, ?_, by simp⟩
    · simp [Fifo.owners, listed, empty]
    · intro i mem
      rw [listed, empty, List.append_nil, List.mem_range] at mem
      exact ⟨List.replicate size 0, by simp [mem], by simp⟩

theorem fits_of_new (made : Fifo.new size count = .ok q) :
    0 < size ∧ 0 < count ∧ Fits size count := by
  have positive : 0 < size := by
    apply Nat.pos_of_ne_zero
    intro empty
    simp [Fifo.new, empty, bind, Except.bind, throw, throwThe, MonadExceptOf.throw] at made
  have some_packet : 0 < count := by
    apply Nat.pos_of_ne_zero
    intro empty
    simp [Fifo.new, Nat.ne_of_gt positive, empty, bind, Except.bind, throw, throwThe,
      MonadExceptOf.throw] at made
  have some_byte := Nat.ne_of_gt positive
  have some_place := Nat.ne_of_gt some_packet
  refine ⟨positive, some_packet, ?_, ?_⟩
  · cases pool : allocate count placeWidth with
    | ok => exact allocate_eq_ok_iff.mp pool
    | error f => simp [Fifo.new, some_byte, some_place, pool, bind, Except.bind] at made
  · cases packet : allocate size 1 with
    | ok => simpa using allocate_eq_ok_iff.mp packet
    | error f =>
      cases pool : allocate count placeWidth <;>
        simp [Fifo.new, some_byte, some_place, pool, packet, bind, Except.bind] at made

theorem sound_of_new (made : Fifo.new size count = .ok q) :
    q.Sound size count ∧ q.inFlight = none ∧ q.toList = [] := by
  obtain ⟨positive, some_packet, fits⟩ := fits_of_new made
  obtain ⟨q', made', sound⟩ := new_spec positive some_packet fits
  rw [made] at made'
  cases made'
  exact sound

end PcmStream.Fifo
