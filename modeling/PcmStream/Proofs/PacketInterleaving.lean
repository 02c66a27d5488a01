import PcmStream.Proofs.PacketTraffic

/- What holds of a packet queue whatever its writers and readers do and in whatever order: each
   packet has one owner, and the bytes come out as they went in. -/
namespace PcmStream.Traffic

variable {s : Traffic} {size count : Nat}

theorem Reachable.trans {a b c : Traffic} (first : Reachable a b) (second : Reachable b c) :
    Reachable a c := by
  induction second with
  | start => exact first
  | next _ step ih => exact .next ih step

theorem Reachable.proceed {start s' : Traffic} {c : WriteCall} (path : Reachable start s)
    (busy : s.running = some c) (done : s.proceed c = .ok s') : Reachable start s' :=
  path.next (done ▸ .proceed c busy)

theorem Reachable.read {start s' : Traffic} (path : Reachable start s) (dst : List UInt8)
    (aligned : dst.length % s.queue.packetSize = 0) (done : s.read dst = .ok s') :
    Reachable start s' :=
  path.next (done ▸ .read dst aligned)

theorem return_alone {c : WriteCall} (busy : s.running = some c) (at_phase : c.phase = .claiming)
    (none_left : c.rest = []) :
    Reachable s (s.complete c) ∧ c.accepted = c.src.length := by
  refine ⟨Reachable.start.proceed busy ?_, by simp [WriteCall.accepted, none_left]⟩
  simp [Traffic.proceed, at_phase, none_left, pure, Except.pure]

theorem rounds_alone {fuel : Nat} {c : WriteCall} {queue : Fifo} {left : List UInt8}
    (busy : s.running = some c) (at_phase : c.phase = .claiming)
    (sound : s.queue.Sound size count) (rest : s.queue.AtRest) (enough : c.rest.length ≤ fuel)
    (done : s.queue.writeFuel fuel c.rest = .ok (queue, left)) :
    ∃ s', Reachable s s' ∧ s'.queue = queue ∧ s'.reads = s.reads ∧ s'.running = none ∧
      ∃ r : Receipt, s'.receipts = s.receipts ++ [r] ∧ r.src = c.src ∧
        r.accepted = c.src.length - left.length := by
  induction fuel generalizing s c with
  | zero =>
    have none_left : c.rest = [] := List.length_eq_zero_iff.mp (by omega)
    obtain ⟨path, all⟩ := return_alone busy at_phase none_left
    rw [none_left, Fifo.writeFuel] at done
    cases done
    exact ⟨_, path, rfl, rfl, rfl, _, rfl, rfl, all⟩
  | succ fuel ih =>
    by_cases none_left : c.rest = []
    · obtain ⟨path, all⟩ := return_alone busy at_phase none_left
      simp only [none_left, Fifo.writeFuel] at done
      cases done
      exact ⟨_, path, rfl, rfl, rfl, _, rfl, rfl, all⟩
    rw [Fifo.writeFuel_succ none_left] at done
    rcases Fifo.round_spec sound rest none_left with ⟨stopped, _⟩ |
      ⟨claimed, copied, next, claim, copy, publish, progress, _, sound', rest', _⟩
    · simp only [stopped, Except.bind, Except.ok.injEq, Prod.mk.injEq] at done
      obtain ⟨rfl, rfl⟩ := done
      refine ⟨s.complete c, Reachable.start.proceed busy ?_, rfl, rfl, rfl, _, rfl, rfl, rfl⟩
      simp [Traffic.proceed, at_phase, none_left, stopped, bind, Except.bind, pure, Except.pure]
    · simp only [claim, copy, publish, bind, Except.bind] at done
      let c₁ : WriteCall := { c with phase := .copying }
      let c₂ : WriteCall := { c with rest := c.rest.drop claimed.room, phase := .publishing }
      let c₃ : WriteCall := { c₂ with phase := .claiming }
      let s₁ : Traffic := { s with queue := claimed, running := some c₁ }
      let s₂ : Traffic := { s with queue := copied, running := some c₂ }
      let s₃ : Traffic := { s with queue := next, running := some c₃ }
      have step₁ : s.proceed c = .ok s₁ := by
        simp [Traffic.proceed, at_phase, none_left, claim, bind, Except.bind, pure, Except.pure,
          s₁, c₁]
      have step₂ : s₁.proceed c₁ = .ok s₂ := by
        simp [Traffic.proceed, s₁, c₁, copy, bind, Except.bind, pure, Except.pure, s₂, c₂]
      have step₃ : s₂.proceed c₂ = .ok s₃ := by
        simp [Traffic.proceed, s₂, c₂, publish, bind, Except.bind, pure, Except.pure, s₃, c₃]
      have round : Reachable s s₃ :=
        ((Reachable.start.proceed busy step₁).proceed rfl step₂).proceed rfl step₃
      have fewer : c₃.rest.length ≤ fuel := by
        change (c.rest.drop claimed.room).length ≤ fuel
        rw [List.length_drop]
        omega
      obtain ⟨s', path, same, reads, idle, r, receipts, src, accepted⟩ :=
        ih (s := s₃) (c := c₃) rfl rfl sound' rest' fewer done
      exact ⟨s', round.trans path, same, reads, idle, r, receipts, src, accepted⟩

/-- A write call that nobody interrupts is the sequential write. -/
theorem write_alone (h : s.Orderly size count) (idle : s.running = none) (writer : Nat)
    {src : List UInt8} {accepted : Nat} {queue : Fifo}
    (done : s.queue.write src = .ok (accepted, queue)) :
    ∃ s', Reachable s s' ∧ s'.queue = queue ∧ s'.reads = s.reads ∧ s'.running = none ∧
      ∃ r : Receipt, s'.receipts = s.receipts ++ [r] ∧ r.src = src ∧ r.accepted = accepted := by
  let c : WriteCall := ⟨writer, src, src, .checking, s.queue.space⟩
  let s₁ := s.lock writer src
  have locked : Reachable s s₁ := .next .start (.lock writer src idle)
  by_cases isOpen : s.queue.isOpen = true
  · let c₂ : WriteCall := { c with phase := .claiming }
    let s₂ : Traffic := { s₁ with running := some c₂ }
    have checked : s₁.proceed c = .ok s₂ := by
      simp [Traffic.proceed, s₁, c, Traffic.lock, isOpen, s₂, c₂]
    obtain ⟨queue', run, sound', rest', _⟩ := Fifo.writeFuel_spec src.length (h.sound isOpen)
      (h.rest idle) src (Nat.le_refl _)
    simp only [Fifo.write, isOpen, if_true, run, bind, Except.bind, pure, Except.pure,
      Except.ok.injEq, Prod.mk.injEq] at done
    obtain ⟨rfl, rfl⟩ := done
    obtain ⟨s', path, rounds⟩ := rounds_alone (s := s₂) (c := c₂) rfl rfl (h.sound isOpen)
      (h.rest idle) (Nat.le_refl _) run
    exact ⟨s', (locked.proceed rfl checked).trans path, rounds⟩
  · have shut : s.queue.isOpen = false := by simpa using isOpen
    have refused : s₁.proceed c = .ok (s₁.complete c) := by
      simp [Traffic.proceed, s₁, c, Traffic.lock, shut]
    rw [Fifo.write_closed shut] at done
    cases done
    refine ⟨s₁.complete c, locked.proceed rfl refused, rfl, rfl, rfl, _, rfl, rfl, ?_⟩
    simp [c, WriteCall.accepted]

/-- In every order of steps no step faults, and while the queue is open each packet of the pool is
    in one place: free, ready or in the writer's hands. The packets out of the writer's hands are
    whole; one in them is begun and not full between two calls. -/
theorem packets_have_one_owner (positive : 0 < size) (some_packet : 0 < count)
    (fits : Fifo.Fits size count) :
    ∃ q, Fifo.new size count = .ok q ∧ ∀ s, Reachable { queue := q } s →
      (∀ r, Step s r → ∃ s', r = .ok s') ∧
      (s.queue.isOpen = true →
        s.queue.owners.Perm (List.range count) ∧
        (∀ i < count, (∀ packet, s.queue.inFlight = some packet → packet.index ≠ i) →
          ∃ data, s.queue.packets[i]? = some data ∧ data.length = size) ∧
        (∀ packet, s.queue.inFlight = some packet → packet.offset ≤ size) ∧
        (s.running = none → s.queue.occupancy.total = count ∧
          ∀ packet, s.queue.inFlight = some packet → 0 < packet.offset ∧ packet.offset < size)) ∧
      (s.queue.isOpen = false → s.queue.occupancy.total = 0) := by
  obtain ⟨q, made, sound, none_held, empty⟩ := Fifo.new_spec positive some_packet fits
  refine ⟨q, made, ?_⟩
  intro s path
  have orderly := reachable_orderly (orderly_new sound none_held empty) path
  refine ⟨?_, ?_, ?_⟩
  · intro r step
    obtain ⟨s', same, _⟩ := step_orderly orderly step
    exact ⟨s', same⟩
  · intro isOpen
    have sound := orderly.sound isOpen
    refine ⟨sound.owners, fun i inside => Fifo.box_of_apart sound inside, ?_, ?_⟩
    · intro packet held
      exact (sound.held packet held).2
    · intro idle
      refine ⟨Fifo.occupancy_total sound, ?_⟩
      intro packet held
      exact orderly.packetSize ▸ orderly.rest idle packet held
  · intro shut
    simp [Fifo.occupancy, shut, Occupancy.total]

/-- A write call of three bytes, stopped with one packet in its hands and the pool with a hole. -/
theorem owners_amid_a_write : 0 < 2 ∧ Fifo.Fits 2 2 ∧ ∃ q s, Fifo.new 2 2 = .ok q ∧
    Reachable { queue := q } s ∧ s.queue.packets = [[], [0, 0]] ∧ s.queue.owners.Perm [0, 1] := by
  obtain ⟨q, made, safe⟩ := @packets_have_one_owner 2 2 (by decide) (by decide) (by decide)
  have begun : Reachable { queue := q } { queue := q } := .start
  cases made
  have locked := begun.next (.lock 0 [7, 8, 9] rfl)
  have copied := ((locked.proceed rfl rfl).proceed rfl rfl).proceed rfl rfl
  exact ⟨by decide, by decide, _, _, rfl, copied, rfl, ((safe _ copied).2.1 rfl).1⟩

/-- In every order of steps what the readers got is what the writers wrote up to some point, in
    whole packets. Each write call on an open queue gets at least the space there was at its start, and
    comes short only where at its last step no packet was free or in its hands. -/
theorem bytes_keep_their_order (positive : 0 < size) (some_packet : 0 < count)
    (fits : Fifo.Fits size count) :
    ∃ q, Fifo.new size count = .ok q ∧ ∀ s, Reachable { queue := q } s →
      s.delivered <+: s.written ∧ size ∣ s.delivered.length ∧
      ∀ r ∈ s.receipts, r.accepted ≤ r.src.length ∧
        (r.wasOpen = true → min r.src.length r.spaceBefore ≤ r.accepted ∧
          (r.accepted < r.src.length → r.ranDry = true)) := by
  obtain ⟨q, made, sound, none_held, empty⟩ := Fifo.new_spec positive some_packet fits
  refine ⟨q, made, ?_⟩
  intro s path
  have orderly := reachable_orderly (orderly_new sound none_held empty) path
  exact ⟨orderly.inOrder, orderly.aligned, orderly.fair⟩

/-- The same call, with a read between two of its steps. -/
theorem order_amid_a_write : 0 < 2 ∧ Fifo.Fits 2 2 ∧ ∃ q s, Fifo.new 2 2 = .ok q ∧
    Reachable { queue := q } s ∧ s.delivered = [7, 8] ∧ s.running ≠ none ∧
      s.delivered <+: s.written := by
  obtain ⟨q, made, safe⟩ := @bytes_keep_their_order 2 2 (by decide) (by decide) (by decide)
  have begun : Reachable { queue := q } { queue := q } := .start
  cases made
  have locked := begun.next (.lock 0 [7, 8, 9] rfl)
  have published := (((locked.proceed rfl rfl).proceed rfl rfl).proceed rfl rfl).proceed rfl rfl
  have read := published.read [0, 0] rfl rfl
  exact ⟨by decide, by decide, _, _, rfl, read, rfl, by decide, (safe _ read).1⟩

end PcmStream.Traffic
