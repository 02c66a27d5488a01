import PcmStream.Proofs.ByteQueue

/- Writers and readers at one packet queue. A write call holds the writer lock from its first step
   to its last, and between two of its steps anyone may read. Occupancy, space and shutdown need the
   writer lock too. The receipts and the reads are kept for the statements; no step reads them. -/
namespace PcmStream

inductive Phase where
  | checking
  | claiming
  | copying
  | publishing
  deriving DecidableEq, Repr

/-- A write call that holds the writer lock, and the space there was when it got the lock. -/
structure WriteCall where
  writer : Nat
  src : List UInt8
  rest : List UInt8
  phase : Phase
  spaceBefore : Nat
  deriving DecidableEq, Repr

def WriteCall.accepted (c : WriteCall) : Nat := c.src.length - c.rest.length

/-- A write call that has returned, and whether the queue was open and dry at its last step. -/
structure Receipt where
  writer : Nat
  src : List UInt8
  accepted : Nat
  spaceBefore : Nat
  wasOpen : Bool
  ranDry : Bool
  deriving DecidableEq, Repr

structure Traffic where
  queue : Fifo
  running : Option WriteCall := none
  receipts : List Receipt := []
  reads : List (List UInt8) := []
  deriving DecidableEq, Repr

namespace Traffic

/-- The accepted bytes of all calls, in the order in which the calls got the lock. -/
def written (s : Traffic) : List UInt8 :=
  s.receipts.flatMap (fun r => r.src.take r.accepted) ++
    (s.running.map fun c => c.src.take c.accepted).getD []

def delivered (s : Traffic) : List UInt8 := s.reads.flatten

def lock (s : Traffic) (writer : Nat) (src : List UInt8) : Traffic :=
  { s with running := some ⟨writer, src, src, .checking, s.queue.space⟩ }

def complete (s : Traffic) (c : WriteCall) : Traffic :=
  let receipt : Receipt :=
    { writer := c.writer, src := c.src, accepted := c.accepted, spaceBefore := c.spaceBefore
      wasOpen := s.queue.isOpen
      ranDry := s.queue.free.isEmpty && s.queue.inFlight.isNone }
  { s with running := none, receipts := s.receipts ++ [receipt] }

def proceed (s : Traffic) (c : WriteCall) : Except Fault Traffic :=
  match c.phase with
  | .checking =>
    if s.queue.isOpen then .ok { s with running := some { c with phase := .claiming } }
    else .ok (s.complete c)
  | .claiming => do
    if c.rest = [] then return s.complete c
    match ← s.queue.claim with
    | none => return s.complete c
    | some queue => return { s with queue, running := some { c with phase := .copying } }
  | .copying => do
    let queue ← s.queue.copy c.rest
    let rest := c.rest.drop s.queue.room
    return { s with queue, running := some { c with rest, phase := .publishing } }
  | .publishing => do
    let queue ← s.queue.publish
    return { s with queue, running := some { c with phase := .claiming } }

def read (s : Traffic) (dst : List UInt8) : Except Fault Traffic := do
  let (count, bytes, queue) ← s.queue.read dst
  return { s with queue, reads := if count = 0 then s.reads else s.reads ++ [bytes] }

inductive Step (s : Traffic) : Except Fault Traffic → Prop where
  | lock (writer : Nat) (src : List UInt8) (idle : s.running = none) :
      Step s (.ok (s.lock writer src))
  | proceed (c : WriteCall) (busy : s.running = some c) : Step s (s.proceed c)
  | read (dst : List UInt8) (aligned : dst.length % s.queue.packetSize = 0) : Step s (s.read dst)
  | look (idle : s.running = none) : Step s (.ok s)
  | close (idle : s.running = none) : Step s (.ok { s with queue := s.queue.close })

inductive Reachable (start : Traffic) : Traffic → Prop where
  | start : Reachable start start
  | next {s s' : Traffic} : Reachable start s → Step s (.ok s') → Reachable start s'

end Traffic

def WriteCall.Placed (c : WriteCall) (q : Fifo) : Prop :=
  match c.phase with
  | .checking => c.rest = c.src ∧ q.AtRest
  | .claiming => q.isOpen = true ∧ q.AtRest
  | .copying => q.isOpen = true ∧ c.rest ≠ [] ∧
      ∃ packet, q.inFlight = some packet ∧ packet.offset < q.packetSize
  | .publishing => q.isOpen = true ∧ ∃ packet, q.inFlight = some packet ∧ 0 < packet.offset

/-- A call on an open queue gets the space that there was, and stops early only at a dry queue. -/
def Receipt.Fair (r : Receipt) : Prop :=
  r.accepted ≤ r.src.length ∧ (r.wasOpen = true →
    min r.src.length r.spaceBefore ≤ r.accepted ∧ (r.accepted < r.src.length → r.ranDry = true))

structure Traffic.Orderly (s : Traffic) (size count : Nat) : Prop where
  packetSize : s.queue.packetSize = size
  sound : s.queue.isOpen = true → s.queue.Sound size count
  rest : s.running = none → s.queue.AtRest
  placed : ∀ c, s.running = some c → c.Placed s.queue
  left : ∀ c, s.running = some c → c.rest = c.src.drop c.accepted
  space : ∀ c, s.running = some c → s.queue.isOpen = true →
    c.spaceBefore ≤ s.queue.space + c.accepted
  stream : s.queue.isOpen = true → s.written = s.delivered ++ s.queue.toList
  inOrder : s.delivered <+: s.written
  aligned : size ∣ s.delivered.length
  fair : ∀ r ∈ s.receipts, r.Fair

namespace Traffic

variable {s : Traffic} {size count : Nat}

theorem written_running {c : WriteCall} (busy : s.running = some c) :
    s.written = s.receipts.flatMap (fun r => r.src.take r.accepted) ++ c.src.take c.accepted := by
  simp [written, busy]

theorem written_idle (idle : s.running = none) :
    s.written = s.receipts.flatMap (fun r => r.src.take r.accepted) := by
  simp [written, idle]

theorem written_complete {c : WriteCall} (busy : s.running = some c) :
    (s.complete c).written = s.written := by
  rw [written_running busy, written_idle rfl]
  simp [complete]

theorem accepted_le (c : WriteCall) : c.accepted ≤ c.src.length := Nat.sub_le _ _

theorem orderly_complete (h : s.Orderly size count) {c : WriteCall} (busy : s.running = some c)
    (rest : s.queue.AtRest)
    (fair : s.queue.isOpen = true → min c.src.length c.spaceBefore ≤ c.accepted ∧
      (c.accepted < c.src.length → (s.queue.free.isEmpty && s.queue.inFlight.isNone) = true)) :
    (s.complete c).Orderly size count := by
  have same := written_complete busy
  refine { h with rest := fun _ => rest, placed := by rintro _ ⟨⟩, left := by rintro _ ⟨⟩,
                  space := by rintro _ ⟨⟩, stream := same ▸ h.stream, inOrder := same ▸ h.inOrder,
                  fair := ?_ }
  intro r mem
  rcases List.mem_append.mp mem with old | new
  · exact h.fair r old
  · rw [List.mem_singleton.mp new]
    exact ⟨accepted_le c, fair⟩

theorem orderly_lock (h : s.Orderly size count) (idle : s.running = none) (writer : Nat)
    (src : List UInt8) : (s.lock writer src).Orderly size count := by
  have same : (s.lock writer src).written = s.written := by
    rw [written_idle idle, written_running rfl]
    simp [lock, WriteCall.accepted]
  refine { h with rest := by rintro ⟨⟩, placed := ?_, left := ?_, space := ?_,
                  stream := same ▸ h.stream, inOrder := same ▸ h.inOrder }
  · rintro _ ⟨rfl⟩
    exact ⟨rfl, h.rest idle⟩
  · rintro _ ⟨rfl⟩
    simp [WriteCall.accepted]
  · rintro _ ⟨rfl⟩ _
    exact Nat.le_add_right _ _

theorem orderly_phase (h : s.Orderly size count) {c : WriteCall} (busy : s.running = some c)
    (isOpen : s.queue.isOpen = true) {queue : Fifo} (sound : queue.Sound size count)
    (bytes : queue.toList = s.queue.toList) (phase : Phase)
    (placed : WriteCall.Placed { c with phase } queue) :
    Orderly { s with queue, running := some { c with phase } } size count := by
  have same : written { s with queue, running := some { c with phase } } = s.written := by
    rw [written_running busy, written_running rfl]
    rfl
  have space : queue.space = s.queue.space := by
    have total := Fifo.space_add_length (h.sound isOpen)
    have total' := Fifo.space_add_length sound
    rw [bytes] at total'
    omega
  refine { h with packetSize := sound.packetSize, sound := fun _ => sound, rest := by rintro ⟨⟩,
                  placed := ?_, left := ?_, space := ?_, stream := fun _ => ?_,
                  inOrder := same ▸ h.inOrder }
  · rintro _ ⟨rfl⟩
    exact placed
  · rintro _ ⟨rfl⟩
    exact h.left c busy
  · rintro _ ⟨rfl⟩ _
    rw [space]
    exact h.space c busy isOpen
  · rw [same, h.stream isOpen, bytes]
    rfl

theorem proceed_checking (h : s.Orderly size count) {c : WriteCall} (busy : s.running = some c)
    (at_phase : c.phase = .checking) :
    ∃ s', s.proceed c = .ok s' ∧ s'.Orderly size count := by
  have placed := h.placed c busy
  simp only [WriteCall.Placed, at_phase] at placed
  simp only [proceed, at_phase]
  split
  · rename_i isOpen
    exact ⟨_, rfl, orderly_phase h busy isOpen (h.sound isOpen) rfl .claiming ⟨isOpen, placed.2⟩⟩
  · rename_i shut
    exact ⟨_, rfl, orderly_complete h busy placed.2 fun isOpen => absurd isOpen shut⟩

theorem proceed_claiming (h : s.Orderly size count) {c : WriteCall} (busy : s.running = some c)
    (at_phase : c.phase = .claiming) :
    ∃ s', s.proceed c = .ok s' ∧ s'.Orderly size count := by
  have placed := h.placed c busy
  simp only [WriteCall.Placed, at_phase] at placed
  obtain ⟨isOpen, rest⟩ := placed
  have sound := h.sound isOpen
  by_cases done : c.rest = []
  · refine ⟨s.complete c, by simp [proceed, at_phase, done, pure, Except.pure],
      orderly_complete h busy rest fun _ => ?_⟩
    have all : c.accepted = c.src.length := by simp [WriteCall.accepted, done]
    omega
  rcases Fifo.claim_spec sound with ⟨claim, none_held, none_free⟩ |
    ⟨queue, packet, claim, sound', held, bytes, fresh⟩
  · refine ⟨s.complete c, ?_, orderly_complete h busy rest fun _ => ⟨?_, fun _ => ?_⟩⟩
    · simp [proceed, at_phase, done, claim, bind, Except.bind, pure, Except.pure]
    · have before := h.space c busy isOpen
      have empty : s.queue.space = 0 := by
        rw [Fifo.space_eq sound, ← Ring.length_toList, none_free]
        simp [Fifo.room, none_held]
      omega
    · simp [none_held, (Ring.isEmpty_iff sound.free).mpr none_free]
  · refine ⟨{ s with queue, running := some { c with phase := .copying } }, ?_,
      orderly_phase h busy isOpen sound' bytes .copying
        ⟨sound'.isOpen, done, packet, held, ?_⟩⟩
    · simp [proceed, at_phase, done, claim, bind, Except.bind, pure, Except.pure]
    · rw [sound'.packetSize]
      rcases fresh with zero | kept
      · rw [zero]
        exact sound.positive
      · exact sound.packetSize ▸ (rest packet kept).2

theorem copied_rest {c : WriteCall} (left : c.rest = c.src.drop c.accepted) (phase : Phase)
    (room : Nat) :
    let c' : WriteCall := { c with rest := c.rest.drop room, phase }
    c'.accepted = c.accepted + min room c.rest.length ∧ c'.rest = c'.src.drop c'.accepted ∧
      c.src.take c.accepted ++ c.rest.take room = c'.src.take c'.accepted := by
  have fits := accepted_le c
  have length := congrArg List.length left
  rw [List.length_drop] at length
  have more : c.src.length - (c.rest.drop room).length = c.accepted + min room c.rest.length := by
    rw [List.length_drop]
    omega
  intro c'
  have accepted : c'.accepted = c.accepted + min room c.rest.length := more
  refine ⟨accepted, ?_, ?_⟩
  · change c.rest.drop room = c.src.drop c'.accepted
    rw [left, List.drop_drop, List.drop_eq_drop_iff]
    omega
  · change c.src.take c.accepted ++ c.rest.take room = c.src.take c'.accepted
    rw [left, ← List.take_add, List.take_eq_take_iff]
    omega

theorem proceed_copying (h : s.Orderly size count) {c : WriteCall} (busy : s.running = some c)
    (at_phase : c.phase = .copying) :
    ∃ s', s.proceed c = .ok s' ∧ s'.Orderly size count := by
  have placed := h.placed c busy
  simp only [WriteCall.Placed, at_phase] at placed
  obtain ⟨isOpen, some_left, packet, held, short⟩ := placed
  have sound := h.sound isOpen
  obtain ⟨queue, packet', copy, sound', held', offset, bytes⟩ := Fifo.copy_spec sound held c.rest
  let c' : WriteCall := { c with rest := c.rest.drop s.queue.room, phase := .publishing }
  obtain ⟨(more : c'.accepted = _), left, copied⟩ :=
    copied_rest (h.left c busy) .publishing s.queue.room
  let s' : Traffic := { s with queue, running := some c' }
  have grown : s'.written = s.written ++ c.rest.take s.queue.room := by
    rw [written_running busy, written_running (s := s') rfl, List.append_assoc, ← copied]
  have byte := List.length_pos_iff.mpr some_left
  have room := Fifo.room_eq sound held
  have sized := sound.packetSize
  refine ⟨s', ?_, { h with packetSize := sound'.packetSize, sound := fun _ => sound',
                           rest := by rintro ⟨⟩, placed := ?_, left := ?_, space := ?_,
                           stream := fun _ => ?_, inOrder := ?_ }⟩
  · simp [proceed, at_phase, copy, bind, Except.bind, pure, Except.pure, s', c']
  · rintro _ ⟨rfl⟩
    exact ⟨sound'.isOpen, packet', held', by omega⟩
  · rintro _ ⟨rfl⟩
    exact left
  · rintro _ ⟨rfl⟩ _
    have before := h.space c busy isOpen
    have total := Fifo.space_add_length sound
    have total' := Fifo.space_add_length sound'
    rw [bytes, List.length_append, List.length_take] at total'
    change c.spaceBefore ≤ queue.space + c'.accepted
    omega
  · rw [grown, h.stream isOpen, List.append_assoc, ← bytes]
    rfl
  · rw [grown]
    exact h.inOrder.trans (List.prefix_append _ _)

theorem proceed_publishing (h : s.Orderly size count) {c : WriteCall} (busy : s.running = some c)
    (at_phase : c.phase = .publishing) :
    ∃ s', s.proceed c = .ok s' ∧ s'.Orderly size count := by
  have placed := h.placed c busy
  simp only [WriteCall.Placed, at_phase] at placed
  obtain ⟨isOpen, packet, held, begun⟩ := placed
  obtain ⟨queue, publish, sound, bytes, still⟩ := Fifo.publish_spec (h.sound isOpen) held
  refine ⟨{ s with queue, running := some { c with phase := .claiming } }, ?_,
    orderly_phase h busy isOpen sound bytes .claiming ⟨sound.isOpen, ?_⟩⟩
  · simp [proceed, at_phase, publish, bind, Except.bind, pure, Except.pure]
  · intro other left
    obtain ⟨rfl, short⟩ := still other left
    exact ⟨begun, sound.packetSize ▸ short⟩

theorem proceed_orderly (h : s.Orderly size count) {c : WriteCall} (busy : s.running = some c) :
    ∃ s', s.proceed c = .ok s' ∧ s'.Orderly size count := by
  cases at_phase : c.phase with
  | checking => exact proceed_checking h busy at_phase
  | claiming => exact proceed_claiming h busy at_phase
  | copying => exact proceed_copying h busy at_phase
  | publishing => exact proceed_publishing h busy at_phase

theorem placed_congr {c : WriteCall} {q q' : Fifo} (held : q'.inFlight = q.inFlight)
    (sized : q'.packetSize = q.packetSize) (isOpen : q'.isOpen = q.isOpen) (placed : c.Placed q) :
    c.Placed q' := by
  unfold WriteCall.Placed at placed ⊢
  cases at_phase : c.phase <;> simp only [at_phase] at placed ⊢
  · exact ⟨placed.1, Fifo.atRest_congr held sized placed.2⟩
  · exact ⟨isOpen ▸ placed.1, Fifo.atRest_congr held sized placed.2⟩
  · rw [isOpen, held, sized]
    exact placed
  · rw [isOpen, held]
    exact placed

theorem read_orderly (h : s.Orderly size count) {dst : List UInt8}
    (aligned : dst.length % s.queue.packetSize = 0) :
    ∃ s', s.read dst = .ok s' ∧ s'.Orderly size count := by
  by_cases shut : s.queue.isOpen = false
  · refine ⟨s, ?_, h⟩
    simp [read, Fifo.read_closed shut aligned, bind, Except.bind, pure, Except.pure]
  have isOpen : s.queue.isOpen = true := by simpa using shut
  have sound := h.sound isOpen
  rw [h.packetSize] at aligned
  rcases Fifo.read_spec sound aligned with ⟨_, refused⟩ |
    ⟨⟨some_packet, _⟩, bytes, queue, done, sound', held, split, length⟩
  · exact ⟨s, by simp [read, refused, bind, Except.bind, pure, Except.pure], h⟩
  · have nonempty : dst.length ≠ 0 := by
      rintro zero
      simp [zero] at some_packet
    have sized : queue.packetSize = s.queue.packetSize := sound'.packetSize.trans h.packetSize.symm
    have stream := h.stream isOpen
    have more : delivered { s with queue, reads := s.reads ++ [bytes] } = s.delivered ++ bytes := by
      simp [delivered]
    refine ⟨{ s with queue, reads := s.reads ++ [bytes] }, ?_,
      { h with packetSize := sound'.packetSize, sound := fun _ => sound',
               rest := fun idle => Fifo.atRest_congr held sized (h.rest idle),
               placed := fun c busy => placed_congr held sized (sound'.isOpen.trans isOpen.symm)
                 (h.placed c busy),
               space := fun c busy _ => ?_, stream := fun _ => ?_, inOrder := ?_, aligned := ?_ }⟩
    · simp [read, done, nonempty, bind, Except.bind, pure, Except.pure]
    · have before := h.space c busy isOpen
      have total := Fifo.space_add_length sound
      have total' := Fifo.space_add_length sound'
      rw [split, List.length_append] at total
      have more_space : s.queue.space ≤ queue.space := by omega
      exact Nat.le_trans before (Nat.add_le_add_right more_space _)
    · rw [more, List.append_assoc, ← split]
      exact stream
    · rw [more]
      refine ⟨queue.toList, ?_⟩
      rw [List.append_assoc, ← split]
      exact stream.symm
    · rw [more, List.length_append, length]
      exact Nat.dvd_add h.aligned (Nat.dvd_of_mod_eq_zero aligned)

theorem close_orderly (h : s.Orderly size count) (idle : s.running = none) :
    Orderly { s with queue := s.queue.close } size count :=
  { h with sound := by rintro ⟨⟩, rest := fun _ => by simp [Fifo.AtRest, Fifo.close],
           placed := by simp [idle], space := by simp [idle], stream := by rintro ⟨⟩ }

theorem step_orderly (h : s.Orderly size count) {r : Except Fault Traffic} (step : Step s r) :
    ∃ s', r = .ok s' ∧ s'.Orderly size count := by
  cases step with
  | lock writer src idle => exact ⟨_, rfl, orderly_lock h idle writer src⟩
  | proceed c busy => exact proceed_orderly h busy
  | read dst aligned => exact read_orderly h aligned
  | look idle => exact ⟨s, rfl, h⟩
  | close idle => exact ⟨_, rfl, close_orderly h idle⟩

theorem orderly_new {q : Fifo} (sound : q.Sound size count) (none_held : q.inFlight = none)
    (empty : q.toList = []) : Orderly { queue := q } size count where
  packetSize := sound.packetSize
  sound _ := sound
  rest _ := by simp [Fifo.AtRest, none_held]
  placed := by rintro _ ⟨⟩
  left := by rintro _ ⟨⟩
  space := by rintro _ ⟨⟩
  stream _ := by simp [written, delivered, empty]
  inOrder := List.prefix_rfl
  aligned := ⟨0, rfl⟩
  fair := by simp

theorem reachable_orderly {start : Traffic} (h : start.Orderly size count)
    (path : Reachable start s) : s.Orderly size count := by
  induction path with
  | start => exact h
  | next _ step ih =>
    obtain ⟨_, same, orderly⟩ := step_orderly ih step
    cases same
    exact orderly

end Traffic

end PcmStream
