import PcmStream.Proofs.StreamDelivery

/- The room of a session in packet mode. Before the close, what the packets hold and what they have
   room for make up the pool, and both are whole frames. So the room tells what a push gets
   accepted. -/
namespace PcmStream

namespace Fifo

variable {q q' : Fifo} {size count : Nat}

theorem write_available (h : q.Sound size count) (rest : q.AtRest) (h' : q'.Sound size count)
    (rest' : q'.AtRest) {more : List UInt8} (listed : q'.toList = q.toList ++ more) :
    q.available ≤ q'.available := by
  simp only [available, h.isOpen, h'.isOpen, if_true, h.packetSize, h'.packetSize,
    ready_count_eq h rest, ready_count_eq h' rest', listed, List.length_append]
  exact Nat.mul_le_mul_right _ (Nat.div_le_div_right (Nat.le_add_right _ _))

theorem full_of_no_space (h : q.Sound size count) (rest : q.AtRest) (no_space : q.space = 0) :
    q.inFlight = none ∧ q.available = count * size := by
  have parts := space_eq h
  have places := owners_length h
  have positive := h.positive
  have none_free : q.free.count = 0 := by
    have product : q.free.count * size = 0 := by omega
    rcases Nat.mul_eq_zero.mp product with none_free | no_size
    · exact none_free
    · omega
  cases held : q.inFlight with
  | none =>
    simp only [held, Option.toList_none, List.length_nil] at places
    have all_ready : q.ready.count = count := by omega
    simp [available, h.isOpen, all_ready, h.packetSize]
  | some packet =>
    have room := room_eq h held
    have begun := (rest packet held).2
    rw [h.packetSize] at begun
    omega

end Fifo

theorem Journal.later_fetches {before j j' : Journal} {fetches fetches' more : List Fetch}
    (h : j.fetches = before.fetches ++ fetches) (h' : j'.fetches = before.fetches ++ fetches')
    (fetched : j'.fetches = j.fetches ++ more) : fetches' = fetches ++ more := by
  rw [h, h', List.append_assoc] at fetched
  exact List.append_cancel_left fetched

namespace Session

variable {δ κ : Type}

structure Flows (s : Session δ κ) (l : Layout) (before : Journal) (stream : List UInt8) : Prop where
  feeds : s.Feeds l before stream
  suits : l.Suits s.params s.packetFrames s.packetCount
  filler : ∃ t, s.holder = .filler t
  isOpen : ∃ q, s.fifo = some q ∧ q.isOpen = true

/-- What the packets of a session hold, and what was fetched out of them. -/
structure Level (s : Session δ κ) (l : Layout) (before : Journal) (stream : List UInt8)
    (q : Fifo) (fetches : List Fetch) : Prop where
  sound : q.Sound l.packet l.count
  rest : q.AtRest
  fetched : s.journal.fetches = before.fetches ++ fetches
  fair : ∀ f ∈ fetches, f.Fair l.buffer
  handed : s.journal.handed ++ s.parked = before.handed ++ delivery l.buffer fetches stream
  bytes : q.toList = stream.drop (hits fetches * l.buffer)
  within : hits fetches * l.buffer ≤ stream.length
  whole : l.frame ∣ stream.length

variable {s s' : Session δ κ} {l : Layout} {before : Journal} {stream got : List UInt8} {q : Fifo}

theorem filler_of_flows (h : s.Flows l before stream) :
    ∃ t, s.holder = .filler t ∧ t.Feeds s.shared l before stream := by
  obtain ⟨t, holder⟩ := h.filler
  cases h.feeds with
  | running t' holder' frame feeds => exact ⟨t', holder', feeds⟩
  | closed nobody frame fed => simp [nobody] at holder

theorem level_of_flows (h : s.Flows l before stream) (fifo : s.fifo = some q) :
    ∃ fetches, s.Level l before stream q fetches := by
  obtain ⟨q', fifo', isOpen⟩ := h.isOpen
  obtain rfl : q = q' := Option.some.inj (fifo.symm.trans fifo')
  obtain ⟨fetches, buffers, fetched, handed, same, account⟩ := fed_of_feeds h.feeds
  obtain ⟨q', fifo', carries⟩ := account.queue
  obtain rfl : q = q' := Option.some.inj (fifo.symm.trans fifo')
  obtain ⟨sound, rest, listed⟩ := carries.sound isOpen
  have delivered : s.journal.handed ++ s.parked =
      before.handed ++ delivery l.buffer fetches stream := by
    rw [journal, handed, List.append_assoc, same]
  exact ⟨fetches, sound, rest, fetched, account.fair, delivered, listed, account.fetched,
    account.whole⟩

theorem fair_of_flows (h : s.Flows l before stream) (h' : s'.Flows l before got) {f : Fetch}
    (fetched : s'.journal.fetches = s.journal.fetches ++ [f]) : f.Fair l.buffer := by
  obtain ⟨q, fifo, _⟩ := h.isOpen
  obtain ⟨q', fifo', _⟩ := h'.isOpen
  obtain ⟨fetches, level⟩ := level_of_flows h fifo
  obtain ⟨fetches', level'⟩ := level_of_flows h' fifo'
  apply level'.fair
  rw [Journal.later_fetches level.fetched level'.fetched fetched]
  simp

section Level

variable {fetches : List Fetch}

theorem level_space (h : s.Level l before stream q fetches) :
    q.space + stream.length = l.count * l.packet + hits fetches * l.buffer := by
  have total := Fifo.space_add_length h.sound
  have within := h.within
  rw [h.bytes, List.length_drop] at total
  omega

theorem level_whole (h : s.Level l before stream q fetches) : l.frame ∣ q.space := by
  have packets : l.frame ∣ l.count * l.packet :=
    Nat.dvd_trans l.whole_frames (Nat.dvd_mul_left _ _)
  have buffers : l.frame ∣ hits fetches * l.buffer :=
    Nat.dvd_trans (Nat.dvd_trans l.whole_frames l.whole_packets) (Nat.dvd_mul_left _ _)
  apply (Nat.dvd_add_left h.whole).mp
  rw [level_space h]
  exact Nat.dvd_add packets buffers

theorem level_begun (h : s.Level l before stream q fetches) {packet : InFlight}
    (held : q.inFlight = some packet) : l.frame ∣ packet.offset := by
  have total := Fifo.space_add_length h.sound
  have packets : ∀ n, l.frame ∣ n * l.packet := fun n =>
    Nat.dvd_trans l.whole_frames (Nat.dvd_mul_left _ _)
  have bytes : l.frame ∣ q.toList.length := by
    apply (Nat.dvd_add_right (level_whole h)).mp
    rw [total]
    exact packets _
  rw [Fifo.length_toList h.sound] at bytes
  have begun : l.frame ∣ q.held := (Nat.dvd_add_right (packets _)).mp bytes
  simpa [Fifo.held, held] using begun

end Level

variable [Device δ]

theorem summarize_room (s : Session δ κ) : s.summarize.room = s.room := by
  have same : (s.shared.summarize s.log .main).2.journal.now = s.journal.now := by
    unfold Shared.summarize
    split <;> rfl
  unfold summarize
  split
  · rename_i d holder
    simp only [room, holder]
    exact congrArg (Device.freeFrames d) same
  · rfl

theorem room_eq_space (h : s.Flows l before stream) (fifo : s.fifo = some q) :
    s.room * l.frame = q.space := by
  obtain ⟨t, holder⟩ := h.filler
  obtain ⟨fetches, level⟩ := level_of_flows h fifo
  simp only [room, holder, fifo, h.suits.frame]
  exact Nat.div_mul_cancel (level_whole level)

theorem room_balance (h : s.Flows l before stream) : ∃ fetches,
    s.journal.fetches = before.fetches ++ fetches ∧
      s.room * l.frame + stream.length = l.count * l.packet + hits fetches * l.buffer := by
  obtain ⟨q, fifo, _⟩ := h.isOpen
  obtain ⟨fetches, level⟩ := level_of_flows h fifo
  refine ⟨fetches, level.fetched, ?_⟩
  rw [room_eq_space h fifo]
  exact level_space level

theorem room_change (h : s.Flows l before stream) (h' : s'.Flows l before (stream ++ got))
    {more : List Fetch} (fetched : s'.journal.fetches = s.journal.fetches ++ more) {frames : Nat}
    (length : got.length = frames * l.frame) :
    s'.room + frames = s.room + hits more * s.params.bufferFrames := by
  obtain ⟨fetches, before_more, balance⟩ := room_balance h
  obtain ⟨fetches', after_more, balance'⟩ := room_balance h'
  -- Both rooms fill the pool with the bytes on their way, and only `more` has come between them.
  have joined : fetches' = fetches ++ more := Journal.later_fetches before_more after_more fetched
  have buffer : hits more * l.buffer = hits more * s.params.bufferFrames * l.frame := by
    rw [← h.suits.buffer, h.suits.frame, Nat.mul_assoc]
  rw [joined, hits_append, Nat.add_mul, List.length_append, length] at balance'
  apply Nat.eq_of_mul_eq_mul_right l.some_frame
  rw [Nat.add_mul, Nat.add_mul, ← buffer]
  omega

theorem full_of_no_room (h : s.Flows l before stream) (fifo : s.fifo = some q)
    (no_room : s.room = 0) : q.inFlight = none ∧ l.buffer ≤ q.available := by
  obtain ⟨fetches, level⟩ := level_of_flows h fifo
  have no_space : q.space = 0 := by rw [← room_eq_space h fifo, no_room, Nat.zero_mul]
  obtain ⟨none_held, ready⟩ := Fifo.full_of_no_space level.sound level.rest no_space
  exact ⟨none_held, ready ▸ h.suits.pool⟩

theorem place_exact (h : s.Flows l before stream) (fifo : s.fifo = some q) {bytes : List UInt8}
    {frames : Nat} (enough : frames * l.frame ≤ bytes.length) :
    ∃ q', s.place bytes frames = (.ok (min frames s.room), s.withFifo q') ∧
      q'.toList = q.toList ++ bytes.take (min frames s.room * l.frame) ∧
      q'.isOpen = true ∧ q.available ≤ q'.available := by
  obtain ⟨t, holder⟩ := h.filler
  obtain ⟨fetches, level⟩ := level_of_flows h fifo
  have space := room_eq_space h fifo
  obtain ⟨q', done, sound, rest, listed⟩ :=
    Fifo.write_spec level.sound level.rest (bytes.take (frames * l.frame))
  have more := Fifo.write_available level.sound level.rest sound rest listed
  have taken : min (bytes.take (frames * l.frame)).length q.space =
      min frames s.room * l.frame := by
    rw [List.length_take, Nat.min_eq_left enough, ← space, Nat.mul_min_mul_right]
  refine ⟨q', ?_, ?_, sound.isOpen, more⟩
  · rw [taken] at done
    simp [place, holder, fifo, h.suits.frame, done, Nat.mul_div_cancel _ l.some_frame]
  · rw [listed, List.take_take, ← space, Nat.mul_min_mul_right, Nat.min_comm]

theorem pushRendered_refused {ρ : Type} [Renderer ρ] {r : ρ} (some_room : s.room ≠ 0)
    (large : ¬ s.Affords r) (took : Nat) : ∃ f, s.measure r = .error f ∧
      s.pushRendered r took = (.error f, { s with staging := [] }, r) := by
  cases measured : s.measure r with
  | ok size => exact absurd (measure_eq_ok_iff.mp measured).2 large
  | error f => exact ⟨f, rfl, by simp only [pushRendered, some_room, if_false, measured]⟩

variable [Callback κ]

/-- From `s` to `s'` the packets `q` are fetched from once, or they are not and no less is ready. -/
def Serves (s : Session δ κ) (q : Fifo) (s' : Session δ κ) : Prop :=
  ∃ q', s'.fifo = some q' ∧ q'.isOpen = true ∧
    ((∃ f, f.ready = q.available ∧ s'.journal.fetches = s.journal.fetches ++ [f]) ∨
      s'.journal.fetches = s.journal.fetches ∧ q.available ≤ q'.available)

theorem act_serves (h : s.Flows l before stream) (act : Act s got s') (fifo : s.fifo = some q) :
    s.Serves q s' := by
  obtain ⟨t, holder, feeds⟩ := filler_of_flows h
  obtain ⟨fetches, level⟩ := level_of_flows h fifo
  have isOpen := level.sound.isOpen
  have untouched : s'.fifo = s.fifo → s'.journal.fetches = s.journal.fetches → s.Serves q s' :=
    fun same fetched => ⟨q, same.trans fifo, isOpen, .inr ⟨fetched, Nat.le_refl _⟩⟩
  cases act with
  | step =>
    simp only [step, holder]
    obtain ⟨q', fifo', isOpen'⟩ := Filler.step_open feeds ⟨q, fifo, isOpen⟩
    refine ⟨q', fifo', isOpen', ?_⟩
    rcases Filler.step_fetch (t := t) feeds.supply fifo with ⟨_, fetch⟩ | ⟨_, fetched, same⟩
    · exact .inl fetch
    · have kept : q = q' := Option.some.inj (fifo.symm.trans (same.symm.trans fifo'))
      exact .inr ⟨fetched, kept ▸ Nat.le_refl _⟩
  | place enough done =>
    obtain ⟨q', done', _, isOpen', more⟩ := place_exact h fifo (h.suits.frame ▸ enough)
    rw [done'] at done
    cases done
    exact ⟨q', rfl, isOpen', .inr ⟨rfl, more⟩⟩
  | fault enough done =>
    obtain ⟨q', done', _⟩ := place_exact h fifo (h.suits.frame ▸ enough)
    rw [done'] at done
    cases done
  | skip => exact untouched rfl rfl
  | wait nanos => exact untouched rfl rfl
  | stage staging => exact untouched rfl rfl
  | summarize => exact untouched (by simp [summarize, holder]) (by simp [summarize, holder])

theorem act_flows (h : s.Flows l before stream) (act : Act s got s') :
    s'.Flows l before (stream ++ got) := by
  obtain ⟨t, holder⟩ := h.filler
  obtain ⟨q, fifo, _⟩ := h.isOpen
  obtain ⟨q', fifo', isOpen, _⟩ := act_serves h act fifo
  have settled := act_terms act
  simp only [terms, Prod.mk.injEq] at settled
  obtain ⟨params, packetFrames, packetCount, _⟩ := settled
  constructor
  · exact act_feeds h.feeds act
  · rw [params, packetFrames, packetCount]
    exact h.suits
  · exact (act_alike act).filler holder
  · exact ⟨q', fifo', isOpen⟩

theorem acts_flows (acts : Acts s got s') (h : s.Flows l before stream) :
    s'.Flows l before (stream ++ got) :=
  acts.keeps (P := fun s stream => s.Flows l before stream) (fun _ _ _ _ act h => act_flows h act) h

theorem start_flows {config : Config} {d : δ} {around : Surroundings} {s₀ : Session δ κ}
    (started : start config .fifo d around = .session s₀) :
    ∃ l : Layout, s₀.Flows l around.journal [] := by
  obtain ⟨l, suits, feeds, isOpen⟩ := start_suits started
  obtain ⟨d', j, p, q, n, _, _, _, rfl⟩ := start_packets started
  exact ⟨l, feeds, suits, ⟨_, rfl⟩, isOpen⟩

theorem moves_flows (h : s.Flows l before stream) {all : List Move}
    (go_on : ∀ m ∈ all, m.closes = false) :
    (s.moves all).1.Flows l before (stream ++ (s.moves all).2) :=
  acts_flows (moves_acts go_on h.filler) h

theorem push_exact (h : s.Flows l before stream) (fifo : s.fifo = some q) (bytes : List UInt8) :
    let n := min (bytes.length / l.frame) s.room
    ∃ s' q', s.push bytes = (.ok n, s') ∧ s'.fifo = some q' ∧
      q'.toList = q.toList ++ bytes.take (n * l.frame) ∧ s'.room + n = s.room := by
  intro n
  by_cases no_frame : bytes.length / l.frame = 0
  · have none_placed : n = 0 := by simp [n, no_frame]
    refine ⟨s, q, ?_, fifo, by simp [none_placed], by simp [none_placed]⟩
    simp [push, h.suits.frame, no_frame, none_placed]
  · have enough := Nat.div_mul_le_self bytes.length l.frame
    obtain ⟨q', done, listed, _⟩ := place_exact h fifo enough
    have flows := act_flows h (Act.place (h.suits.frame.symm ▸ enough) done)
    have length : (bytes.take (n * s.params.frameSize)).length = n * l.frame := by
      rw [List.length_take, h.suits.frame]
      apply Nat.min_eq_left
      exact Nat.le_trans (Nat.mul_le_mul_right _ (Nat.min_le_left _ _)) enough
    have change := room_change h flows (List.append_nil _).symm length
    refine ⟨_, q', ?_, rfl, listed, by simpa [hits] using change⟩
    simp [push, h.suits.frame, no_frame, done, n]

theorem fill_exact (h : s.Flows l before stream) (fifo : s.fifo = some q) {t : Filler δ κ}
    (holder : s.holder = .filler t) (filling : t.stage = .filling) :
    ∃ f, s.step.journal.fetches = s.journal.fetches ++ [f] ∧ f.ready = q.available ∧
      (q.available < l.buffer ∧ f.outcome = .ok 0 ∧ s.step.room = s.room ∨
        l.buffer ≤ q.available ∧ f.outcome = .ok l.buffer ∧
          s.step.room = s.room + s.params.bufferFrames) := by
  obtain ⟨t', holder', feeds⟩ := filler_of_flows h
  obtain rfl : t = t' := Holder.filler.inj (holder.symm.trans holder')
  have flows := act_flows h (Act.step s)
  have fetch : ∃ f, s.step.journal.fetches = s.journal.fetches ++ [f] ∧ f.ready = q.available := by
    rcases Filler.step_fetch (t := t) feeds.supply fifo with ⟨_, f, ready, fetched⟩ | ⟨elsewhere, _⟩
    · simp only [step, holder]
      exact ⟨f, fetched, ready⟩
    · exact absurd filling elsewhere
  obtain ⟨f, fetched, ready⟩ := fetch
  have none_accepted : ([] : List UInt8).length = 0 * l.frame := by simp
  have change := room_change h flows fetched none_accepted
  have fair := fair_of_flows h flows fetched
  rw [Fetch.Fair, ready] at fair
  refine ⟨f, fetched, ready, ?_⟩
  rcases fair with ⟨missed, few⟩ | ⟨hit, enough⟩
  · refine .inl ⟨few, missed, ?_⟩
    simpa [hits, Fetch.missed, missed] using change
  · refine .inr ⟨enough, hit, ?_⟩
    simpa [hits, Fetch.missed, hit, Nat.ne_of_gt l.some_buffer] using change

theorem acts_fetches (acts : Acts s got s') (h : s.Flows l before stream) :
    ∃ more, s'.journal.fetches = s.journal.fetches ++ more := by
  refine (acts.keeps (P := fun s' stream => s'.Flows l before stream ∧
    ∃ more, s'.journal.fetches = s.journal.fetches ++ more) ?_ ⟨h, [], by simp⟩).2
  intro a b stream got act ⟨flows, more, fetched⟩
  obtain ⟨q, fifo, _⟩ := flows.isOpen
  refine ⟨act_flows flows act, ?_⟩
  obtain ⟨_, _, _, ⟨f, _, fetched'⟩ | ⟨fetched', _⟩⟩ := act_serves flows act fifo
  · exact ⟨more ++ [f], by rw [fetched', fetched, List.append_assoc]⟩
  · exact ⟨more, fetched'.trans fetched⟩

theorem acts_exact (acts : Acts s got s') (h : s.Flows l before stream) : ∃ fetches,
    s'.journal.fetches = s.journal.fetches ++ fetches ∧
      s'.room + got.length / l.frame = s.room + hits fetches * s.params.bufferFrames := by
  obtain ⟨fetches, fetched⟩ := acts_fetches acts h
  have flows := acts_flows acts h
  have whole : l.frame ∣ got.length := by
    obtain ⟨_, _, _, _, _, account⟩ := fed_of_feeds h.feeds
    obtain ⟨_, _, _, _, _, account'⟩ := fed_of_feeds flows.feeds
    have both := account'.whole
    rw [List.length_append] at both
    exact (Nat.dvd_add_right account.whole).mp both
  exact ⟨fetches, fetched, room_change h flows fetched (Nat.div_mul_cancel whole).symm⟩

theorem pushStaged_exact (h : s.Flows l before stream) (bytes : List UInt8) :
    let n := min (bytes.length / l.frame) s.room
    ∃ s', s.pushStaged bytes = (.ok n, s') ∧ s'.room + n = s.room := by
  intro n
  obtain ⟨q, fifo, _⟩ := h.isOpen
  have emptied := act_flows h (Act.stage s [])
  obtain ⟨s', q', done, _, _, left⟩ := push_exact emptied fifo bytes
  refine ⟨{ s' with staging := bytes }, ?_, left⟩
  rw [pushStaged, done]
  rfl

theorem pushRendered_room {ρ : Type} [Renderer ρ] (h : s.Flows l before stream) {r : ρ}
    (small : s.Affords r) (took : Nat) :
    (s.pushRendered r took).1 = .ok s.room ∧ (s.pushRendered r took).2.1.room = 0 := by
  by_cases no_room : s.room = 0
  · rw [pushRendered, if_pos no_room, no_room]
    split
    · exact ⟨rfl, no_room⟩
    · exact ⟨rfl, no_room⟩
  · have size : s.measure r = .ok (s.room * l.frame) :=
      measure_eq_ok_iff.mpr ⟨by rw [h.suits.frame], small⟩
    have waited := act_flows h (Act.wait s took)
    have same : (s.advance took).room = s.room := by
      obtain ⟨t, holder⟩ := h.filler
      simp only [room, advance_holder, holder, advance_fifo, advance_params]
    let out := (Renderer.render r (resize 0 (s.room * l.frame) s.staging) s.params).out
    have measured : out.length / l.frame = s.room := by
      simp only [out, Renderer.length_render, length_resize]
      exact Nat.mul_div_cancel _ l.some_frame
    obtain ⟨s', done, left⟩ := pushStaged_exact waited out
    rw [measured, same, Nat.min_self] at done left
    have none_left : s'.summarize.room = 0 := by
      rw [summarize_room]
      omega
    simp only [pushRendered, no_room, if_false, size]
    rw [done]
    exact ⟨rfl, none_left⟩

/-- What the room of a session in packet mode tells about its packets `q` and about what comes. -/
structure Exact (s : Session δ κ) (q : Fifo) : Prop where
  fifo : s.fifo = some q
  space : q.space = s.room * s.params.frameSize
  begun : ∀ packet, q.inFlight = some packet → s.params.frameSize ∣ packet.offset
  push : ∀ bytes, let n := min (bytes.length / s.params.frameSize) s.room
    ∃ s' q', s.push bytes = (.ok n, s') ∧ s'.fifo = some q' ∧
      q'.toList = q.toList ++ bytes.take (n * s.params.frameSize) ∧ s'.room + n = s.room
  fill : ∀ t, s.holder = .filler t → t.stage = .filling →
    let size := s.params.bufferFrames * s.params.frameSize
    ∃ f, s.step.journal.fetches = s.journal.fetches ++ [f] ∧ f.ready = q.available ∧
      (q.available < size ∧ f.outcome = .ok 0 ∧ s.step.room = s.room ∨
        size ≤ q.available ∧ f.outcome = .ok size ∧
          s.step.room = s.room + s.params.bufferFrames)
  later : ∀ all, (∀ m ∈ all, m.closes = false) →
    ∃ fetches, (s.moves all).1.journal.fetches = s.journal.fetches ++ fetches ∧
      (s.moves all).1.room + (s.moves all).2.length / s.params.frameSize =
        s.room + hits fetches * s.params.bufferFrames
  rendered : ∀ {ρ : Type} [Renderer ρ] (r : ρ) (took : Nat), s.Affords r →
    (s.pushRendered r took).1 = .ok s.room ∧ (s.pushRendered r took).2.1.room = 0 ∧
      ∃ q', (s.pushRendered r took).2.1.fifo = some q' ∧ q'.inFlight = none
  refused : ∀ {ρ : Type} [Renderer ρ] (r : ρ) (took : Nat), s.room ≠ 0 → ¬ s.Affords r →
    ∃ f, (s.pushRendered r took).1 = .error f ∧ (s.pushRendered r took).2.1.fifo = s.fifo

theorem exact_of_flows (h : s.Flows l before stream) (fifo : s.fifo = some q) : s.Exact q := by
  obtain ⟨fetches, level⟩ := level_of_flows h fifo
  have frame := h.suits.frame
  constructor
  · exact fifo
  · rw [frame]
    exact (room_eq_space h fifo).symm
  · intro packet held
    rw [frame]
    exact level_begun level held
  · intro bytes
    rw [frame]
    exact push_exact h fifo bytes
  · intro t holder filling
    rw [h.suits.buffer]
    exact fill_exact h fifo holder filling
  · intro all go_on
    rw [frame]
    exact acts_exact (moves_acts go_on h.filler) h
  · intro ρ _ r took small
    obtain ⟨got, acts, _⟩ := move_acts s (m := .pushRendered r took) rfl
    have flows : (s.pushRendered r took).2.1.Flows l before (stream ++ got) := acts_flows acts h
    obtain ⟨q', fifo', _⟩ := flows.isOpen
    obtain ⟨all, none_left⟩ := pushRendered_room h small took
    exact ⟨all, none_left, q', fifo', (full_of_no_room flows fifo' none_left).1⟩
  · intro ρ _ r took some_room large
    obtain ⟨f, _, refused⟩ := pushRendered_refused some_room large took
    exact ⟨f, by rw [refused], by rw [refused]; rfl⟩

/-- Whatever is called before the close, the room is what the packets have space for, in whole
    frames. A push gets accepted what it brings or what there is room for, and lowers the room by
    that; a fill hits where a buffer is ready and raises it by one buffer, and a miss leaves it;
    rendering uses all of it up, unless memory cannot hold its bytes. -/
theorem room_is_exact {config : Config} {d : δ} {around : Surroundings} {s₀ : Session δ κ}
    (started : start config .fifo d around = .session s₀) {all : List Move}
    (go_on : ∀ m ∈ all, m.closes = false) : ∃ q, (s₀.moves all).1.Exact q := by
  obtain ⟨l, begun⟩ := start_flows started
  have flows := moves_flows begun go_on
  obtain ⟨q, fifo, _⟩ := flows.isOpen
  exact ⟨q, exact_of_flows flows fifo⟩

/-- Two pushes, the first with half a frame too much, leave a packet begun with one frame. The
    filler has come to its first fill, and that hits: two packets are ready. -/
theorem three_frames_left :
    let config : Config :=
      { bufferFrames := 4, packetFrames := 2, packetCount := 4, format := .i16 }
    let all : List Move := [.push [1, 2, 3, 4, 5, 6, 7, 8, 9], .push [10, 11], .step, .step]
    (∀ m ∈ all, m.closes = false) ∧
    ∃ s₀ : Session ScriptedDevice StockCallback, start config .fifo {} {} = .session s₀ ∧
      ∃ q, (s₀.moves all).1.Exact q ∧ (s₀.moves all).1.room = 3 ∧ q.space = 6 ∧
        q.available = 8 ∧ (s₀.moves all).1.step.room = 7 := by
  intro config all
  have go_on : ∀ m ∈ all, m.closes = false := by simp [all, Move.closes]
  let opened : Opening ScriptedDevice StockCallback := start config .fifo {} {}
  have evaluated : opened.session?.map (fun s₀ =>
      let s := (s₀.moves all).1
      (s.room, s.params.bufferFrames, s.params.frameSize, s.fifo.map Fifo.available,
        s.holder.filler?.map Filler.stage)) = some (3, 4, 2, some 8, some .filling) := by
    decide +kernel
  obtain ⟨s₀, found, values⟩ := Option.map_eq_some_iff.mp evaluated
  simp only [Prod.mk.injEq] at values
  obtain ⟨room, frames, frame, ready, reached⟩ := values
  have started := Opening.eq_of_session? found
  obtain ⟨q, exactly⟩ := room_is_exact started go_on
  rw [exactly.fifo, Option.map_some, Option.some.injEq] at ready
  refine ⟨go_on, s₀, started, q, exactly, room, ?_, ready, ?_⟩
  · rw [exactly.space, room, frame]
  · obtain ⟨t, holder, filling⟩ := Option.map_eq_some_iff.mp reached
    obtain ⟨f, _, _, filled⟩ := exactly.fill t (Holder.eq_of_filler? holder) filling
    rw [ready, frames, frame, room] at filled
    omega

end Session

end PcmStream
