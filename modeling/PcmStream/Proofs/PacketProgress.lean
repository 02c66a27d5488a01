import PcmStream.Proofs.PacketRoom

/- A session in packet mode always goes on. Packets without room hold a whole buffer, which is what
   the filler asks for next; so the owner and the filler never wait for each other. -/
namespace PcmStream

namespace Session

variable {δ κ : Type} {s s' : Session δ κ} {l : Layout} {before : Journal}
  {stream got : List UInt8} {q : Fifo}

theorem reads_ready {fetches : List Fetch} (h : s.Level l before stream q fetches)
    (enough : l.buffer ≤ q.available) : l.buffer ≤ q.toList.length ∧
      ∀ dst, dst.length = l.buffer →
        ∃ rest, q.read dst = .ok (l.buffer, q.toList.take l.buffer, rest) := by
  have carries : q.Carries l q.toList :=
    ⟨h.sound.packetSize, fun _ => ⟨h.sound, h.rest, rfl⟩⟩
  have hit : ∀ dst, dst.length = l.buffer → ∃ rest,
      q.read dst = .ok (l.buffer, q.toList.take l.buffer, rest) ∧ l.buffer ≤ q.toList.length := by
    intro dst sized
    rcases Fifo.read_carries carries sized with ⟨_, few⟩ | ⟨rest, done, _, _, fits⟩
    · omega
    · exact ⟨rest, done, fits⟩
  obtain ⟨_, _, fits⟩ := hit (silence l.buffer) (by simp [silence])
  refine ⟨fits, ?_⟩
  intro dst sized
  obtain ⟨rest, done, _⟩ := hit dst sized
  exact ⟨rest, done⟩

theorem next_buffer (h : s.Flows l before stream) (h' : s'.Flows l before (stream ++ got))
    (fifo : s.fifo = some q) (enough : l.buffer ≤ q.toList.length) {f : Fetch} {more : List Fetch}
    (fetched : s'.journal.fetches = s.journal.fetches ++ f :: more)
    (hit : f.outcome = .ok l.buffer) :
    ∃ buffers, s'.journal.handed ++ s'.parked =
      s.journal.handed ++ s.parked ++ q.toList.take l.buffer :: buffers := by
  obtain ⟨q', fifo', _⟩ := h'.isOpen
  obtain ⟨fetches, level⟩ := level_of_flows h fifo
  obtain ⟨fetches', level'⟩ := level_of_flows h' fifo'
  have joined := Journal.later_fetches level.fetched level'.fetched fetched
  have is_hit : f.missed = false := by
    simpa [Fetch.missed, hit] using Nat.ne_of_gt l.some_buffer
  have next : ((stream ++ got).drop (hits fetches * l.buffer)).take l.buffer =
      q.toList.take l.buffer := by
    rw [List.drop_append_of_le_length level.within, ← level.bytes,
      List.take_append_of_le_length enough]
  rw [level'.handed, level.handed, joined, delivery_fetches, delivery_append _ level.within,
    delivery, is_hit, ← List.append_assoc]
  simp only [Bool.false_eq_true, if_false, next]
  exact ⟨_, rfl⟩

/-- Since `s` nothing was fetched and a buffer is ready, or the first fetch hit. -/
def Supplied (s : Session δ κ) (l : Layout) (s' : Session δ κ) : Prop :=
  (s'.journal.fetches = s.journal.fetches ∧ ∃ q, s'.fifo = some q ∧ l.buffer ≤ q.available) ∨
    ∃ f more, s'.journal.fetches = s.journal.fetches ++ f :: more ∧ f.outcome = .ok l.buffer

variable [Device δ] [Callback κ]

theorem act_supplied {a b : Session δ κ} (supplied : s.Supplied l a) (h : a.Flows l before stream)
    (act : Act a got b) : s.Supplied l b := by
  have h' := act_flows h act
  rcases supplied with ⟨fetched, q, fifo, enough⟩ | ⟨f, more, fetched, hit⟩
  · obtain ⟨q', fifo', _, ⟨f, ready, fetched'⟩ | ⟨fetched', more⟩⟩ := act_serves h act fifo
    · rcases fair_of_flows h h' fetched' with ⟨_, few⟩ | ⟨hit, _⟩
      · omega
      · exact .inr ⟨f, [], by rw [fetched', fetched], hit⟩
    · exact .inl ⟨fetched'.trans fetched, q', fifo', Nat.le_trans enough more⟩
  · obtain ⟨later, fetched'⟩ := acts_fetches act.alone h
    refine .inr ⟨f, more ++ later, ?_, hit⟩
    rw [fetched', fetched, List.append_assoc, List.cons_append]

theorem acts_supplied (acts : Acts s got s') (h : s.Flows l before stream) (fifo : s.fifo = some q)
    (enough : l.buffer ≤ q.available) : s.Supplied l s' := by
  have ready : s.Supplied l s := .inl ⟨rfl, q, fifo, enough⟩
  exact (acts.keeps (P := fun s' stream => s'.Flows l before stream ∧ s.Supplied l s')
    (fun _ _ _ _ act h => ⟨act_flows h.1 act, act_supplied h.2 h.1 act⟩) ⟨h, ready⟩).2

/-- Whatever is called before the close: where there is no room, a whole buffer is ready, so that the
    device is next brought audio and not silence. And always either any push of a frame is accepted
    in part, or a fetch hits. -/
theorem session_never_wedges {config : Config} {d : δ} {around : Surroundings} {s₀ : Session δ κ}
    (started : start config .fifo d around = .session s₀) {all : List Move}
    (go_on : ∀ m ∈ all, m.closes = false) :
    let s := (s₀.moves all).1
    let size := s.params.bufferFrames * s.params.frameSize
    ∃ q, s.fifo = some q ∧
      (s.room = 0 → size ≤ q.available ∧ ∀ later, (∀ m ∈ later, m.closes = false) →
        let s' := (s.moves later).1
        s'.journal.fetches = s.journal.fetches ∨
        ∃ f more buffers, s'.journal.fetches = s.journal.fetches ++ f :: more ∧
          f.outcome = .ok size ∧ s'.journal.handed ++ s'.parked =
            s.journal.handed ++ s.parked ++ q.toList.take size :: buffers) ∧
      ((∀ bytes, s.params.frameSize ≤ bytes.length →
          ∃ n s', s.push bytes = (.ok n, s') ∧ 0 < n) ∨
        ∀ dst, dst.length = size → ∃ rest, q.read dst = .ok (size, q.toList.take size, rest)) := by
  intro s size
  obtain ⟨l, begun⟩ := start_flows started
  have flows : s.Flows l around.journal (s₀.moves all).2 := moves_flows begun go_on
  obtain ⟨q, fifo, _⟩ := flows.isOpen
  obtain ⟨fetches, level⟩ := level_of_flows flows fifo
  have sized : size = l.buffer := flows.suits.buffer
  rw [sized]
  refine ⟨q, fifo, ?_, ?_⟩
  · intro no_room
    have enough := (full_of_no_room flows fifo no_room).2
    refine ⟨enough, ?_⟩
    intro later go_on'
    have acts := moves_acts go_on' flows.filler
    rcases acts_supplied acts flows fifo enough with ⟨none_yet, _⟩ | ⟨f, more, fetched, hit⟩
    · exact .inl none_yet
    · obtain ⟨buffers, handed⟩ := next_buffer flows (acts_flows acts flows) fifo
        (reads_ready level enough).1 fetched hit
      exact .inr ⟨f, more, buffers, fetched, hit, handed⟩
  · by_cases no_room : s.room = 0
    · right
      exact (reads_ready level (full_of_no_room flows fifo no_room).2).2
    · left
      intro bytes a_frame
      obtain ⟨s', _, done, _⟩ := push_exact flows fifo bytes
      refine ⟨_, s', done, ?_⟩
      rw [flows.suits.frame] at a_frame
      have frames : 0 < bytes.length / l.frame := Nat.div_pos a_frame l.some_frame
      exact Nat.lt_min.mpr ⟨frames, Nat.pos_of_ne_zero no_room⟩

/-- Packets for one buffer and a half, filled up by one push: the first turn brings the buffer. -/
theorem full_packets_come_next :
    let config : Config :=
      { bufferFrames := 4, packetFrames := 2, packetCount := 3, format := .i16 }
    let all : List Move := [.push [1, 2, 3, 4, 5, 6, 7, 8, 9, 10, 11, 12, 13, 14]]
    let later : List Move := [.run 1]
    (∀ m ∈ all, m.closes = false) ∧ (∀ m ∈ later, m.closes = false) ∧
    ∃ s₀ : Session ScriptedDevice StockCallback, start config .fifo {} .ahead = .session s₀ ∧
      let s := (s₀.moves all).1
      s.room = 0 ∧ (∃ q, s.fifo = some q ∧ 8 ≤ q.available) ∧
        ∃ f, (s.moves later).1.journal.fetches = s.journal.fetches ++ [f] ∧ f.outcome = .ok 8 ∧
          (s.moves later).1.parked = [[1, 2, 3, 4, 5, 6, 7, 8]] := by
  intro config all later
  have go_on : ∀ m ∈ all, m.closes = false := by simp [all, Move.closes]
  have go_on' : ∀ m ∈ later, m.closes = false := by simp [later, Move.closes]
  let opened : Opening ScriptedDevice StockCallback := start config .fifo {} .ahead
  let seen (s : Session ScriptedDevice StockCallback) :=
    (s.room, s.params.bufferFrames * s.params.frameSize,
      [s, (s.moves later).1].map (·.journal.fetches.length), (s.moves later).1.parked)
  have evaluated : opened.session?.map (fun s₀ => seen (s₀.moves all).1) =
      some (0, 8, [1, 2], [[1, 2, 3, 4, 5, 6, 7, 8]]) := by decide +kernel
  obtain ⟨s₀, found, values⟩ := Option.map_eq_some_iff.mp evaluated
  simp only [seen, Prod.mk.injEq, List.map_cons, List.cons.injEq] at values
  obtain ⟨no_room, sized, ⟨before, after, _⟩, parked⟩ := values
  have started := Opening.eq_of_session? found
  obtain ⟨q, fifo, supplied, _⟩ := session_never_wedges started go_on
  obtain ⟨enough, next⟩ := supplied no_room
  rw [sized] at enough next
  refine ⟨go_on, go_on', s₀, started, no_room, ⟨q, fifo, enough⟩, ?_⟩
  rcases next later go_on' with none_yet | ⟨f, more, _, fetched, hit, _⟩
  · rw [none_yet, before] at after
    cases after
  · have lengths := congrArg List.length fetched
    simp only [List.length_append, List.length_cons, before, after] at lengths
    obtain rfl : more = [] := List.length_eq_zero_iff.mp (by omega)
    exact ⟨f, fetched, hit, parked⟩

end Session

end PcmStream
