import PcmStream.Device.Scripted
import PcmStream.Proofs.PacketSupply
import PcmStream.Proofs.SessionActs

/- A session in packet mode from its pushes to its device: whatever is called in whatever order, the
   device gets the bytes that the pushes got accepted, in order and cut by nothing but silence. -/
namespace PcmStream

namespace Session

variable {δ κ : Type}

def parked (s : Session δ κ) : List (List UInt8) :=
  match s.holder with
  | .filler t => t.parked
  | _ => []

inductive Feeds (s : Session δ κ) (l : Layout) (before : Journal) (stream : List UInt8) : Prop where
  | running (t : Filler δ κ) (holder : s.holder = .filler t) (frame : s.params.frameSize = l.frame)
      (feeds : t.Feeds s.shared l before stream)
  | closed (holder : s.holder = .nobody) (frame : s.params.frameSize = l.frame)
      (fed : s.shared.Fed l before stream [])

variable {s s' : Session δ κ} {l : Layout} {before : Journal} {stream got : List UInt8}

theorem frame_of_feeds (h : s.Feeds l before stream) : s.params.frameSize = l.frame := by
  cases h <;> assumption

theorem fed_of_feeds (h : s.Feeds l before stream) : s.shared.Fed l before stream s.parked := by
  cases h with
  | running t holder frame feeds => simpa only [parked, holder] using feeds.fed
  | closed holder frame fed => simpa only [parked, holder] using fed

theorem feeds_quiet (h : s.Feeds l before stream) (params : s'.params = s.params)
    (holder : s'.holder = s.holder) (hands : s.shared.Hands [] s'.shared) :
    s'.Feeds l before stream := by
  cases h with
  | running t filler frame feeds =>
    refine .running t (holder.trans filler) (params ▸ frame) ?_
    exact ⟨feeds.supply, feeds.buffer_size, feeds.buffer, Shared.fed_hands feeds.fed hands⟩
  | closed nobody frame fed =>
    exact .closed (holder.trans nobody) (params ▸ frame) (Shared.fed_hands fed hands)

theorem summarize_feeds (h : s.Feeds l before stream) : s.summarize.Feeds l before stream := by
  cases h with
  | running t holder frame feeds =>
    simpa [summarize, holder] using Feeds.running t holder frame feeds
  | closed holder frame fed => simpa [summarize, holder] using Feeds.closed holder frame fed

variable [Device δ]

theorem place_feeds (h : s.Feeds l before stream) {bytes : List UInt8} {frames : Nat}
    (enough : frames * l.frame ≤ bytes.length) :
    ∃ placed s', s.place bytes frames = (.ok placed, s') ∧ placed * l.frame ≤ bytes.length ∧
      s'.Feeds l before (stream ++ bytes.take (placed * l.frame)) := by
  cases h with
  | closed holder frame fed =>
    refine ⟨0, s, by simp [place, holder], by simp, ?_⟩
    simpa using Feeds.closed holder frame fed
  | running t holder frame feeds =>
    have length : (bytes.take (frames * l.frame)).length = frames * l.frame := by
      rw [List.length_take, Nat.min_eq_left enough]
    have whole : l.frame ∣ (bytes.take (frames * l.frame)).length := by
      rw [length]
      exact Nat.dvd_mul_left _ _
    obtain ⟨q, accepted, q', fifo, done, aligned, fits, fed⟩ := Shared.fed_write feeds.fed whole
    have back : accepted / l.frame * l.frame = accepted := Nat.div_mul_cancel aligned
    refine ⟨accepted / l.frame, s.withFifo q', ?_, by omega, ?_⟩
    · simp [place, holder, Session.fifo, fifo, frame, done]
    · refine .running t holder frame ⟨feeds.supply, feeds.buffer_size, feeds.buffer, ?_⟩
      rw [List.take_take, Nat.min_eq_left (by omega)] at fed
      rw [back]
      exact fed

variable [Callback κ]

theorem step_feeds (h : s.Feeds l before stream) : s.step.Feeds l before stream := by
  cases h with
  | running t holder frame feeds =>
    simp only [step, holder]
    exact .running _ rfl frame (Filler.step_feeds feeds)
  | closed holder frame fed => simpa [step, holder] using Feeds.closed holder frame fed

theorem act_feeds (h : s.Feeds l before stream) (act : Act s got s') :
    s'.Feeds l before (stream ++ got) := by
  have frame := frame_of_feeds h
  cases act with
  | step => simpa using step_feeds h
  | place enough done =>
    rw [frame] at enough ⊢
    obtain ⟨placed', s'', done', _, feeds⟩ := place_feeds h enough
    rw [done] at done'
    cases done'
    exact feeds_quiet feeds rfl rfl ⟨rfl, rfl, .refl _⟩
  | fault enough done =>
    rw [frame] at enough
    obtain ⟨placed', s'', done', _, _⟩ := place_feeds h enough
    rw [done] at done'
    cases done'
  | skip =>
    have skipped : (s.withMetrics s.metrics.countSkip).Feeds l before stream :=
      feeds_quiet h rfl rfl ⟨rfl, rfl, .refl _⟩
    simpa using skipped
  | wait nanos =>
    have later : s.advance nanos |>.Feeds l before stream :=
      feeds_quiet h rfl rfl ⟨rfl, rfl, rfl, by simp [advance, Journal.advance]; rfl⟩
    simpa using later
  | stage staging =>
    have staged : Feeds { s with staging } l before stream := feeds_quiet h rfl rfl (.refl _)
    simpa using staged
  | summarize => simpa using summarize_feeds h

theorem close_feeds (h : s.Feeds l before stream) : s.close.Feeds l before stream := by
  cases h with
  | running t holder frame feeds =>
    have shut : t.Feeds { s.shared with fifo := s.shared.fifo.map Fifo.close } l before stream :=
      ⟨feeds.supply, feeds.buffer_size, feeds.buffer, Shared.fed_close feeds.fed⟩
    simp only [close, holder]
    exact .closed rfl frame (Shared.fed_hands (Filler.release_feeds shut) (Shared.hands_notice _ _))
  | closed holder frame fed =>
    simp only [close, holder]
    exact .closed rfl frame (Shared.fed_close fed)

theorem move_feeds (h : s.Feeds l before stream) (m : Move) :
    (s.move m).2.Feeds l before (stream ++ s.accepted m) := by
  have unowned : ∀ d, s.holder ≠ .owner d := by
    intro d owned
    cases h with
    | running t holder => simp [holder] at owned
    | closed holder => simp [holder] at owned
  cases closes : m.closes with
  | false =>
    obtain ⟨got, acts, same⟩ := move_acts s closes
    rw [← same unowned]
    exact acts.keeps (P := fun s stream => s.Feeds l before stream)
      (fun _ _ _ _ act h => act_feeds h act) h
  | true =>
    cases m with
    | close => simpa [accepted, move, offered] using close_feeds h
    | _ => simp [Move.closes] at closes

theorem fits_of_no_objection {config : Config} {mode : Mode} {p : Params}
    (fine : objection? config mode p = none) :
    0 < p.channels ∧ 0 < p.bufferFrames ∧ config.packetFrames ∣ p.bufferFrames := by
  simp only [objection?] at fine
  split at fine
  · cases fine
  split at fine
  · cases fine
  exact ⟨by omega, by omega, Nat.dvd_of_mod_eq_zero (by omega)⟩

theorem pool_of_no_objection {config : Config} {p : Params}
    (fine : objection? config .fifo p = none) :
    p.bufferFrames / config.packetFrames ≤ config.packetCount := by
  simp only [objection?] at fine
  split at fine
  · cases fine
  split at fine
  · cases fine
  split at fine
  · cases fine
  · rename_i enough
    simpa using enough

theorem makeFifo_sound {config : Config} {p : Params} {q : Fifo}
    (made : makeFifo config p = .ok q) :
    q.Sound (config.packetFrames * p.frameSize) config.packetCount ∧ q.inFlight = none ∧
      q.toList = [] := by
  unfold makeFifo at made
  cases size : mulWord config.packetFrames p.frameSize with
  | error f => simp [size, bind, Except.bind] at made
  | ok packet =>
    obtain ⟨_, rfl⟩ := mulWord_eq_ok_iff.mp size
    rw [size] at made
    exact Fifo.sound_of_new made

theorem announce_session {s s₀ : Session δ κ} {around : Surroundings}
    (started : s.announce around = .session s₀) :
    let n : Notice := .sessionStarted s.mode s.params s.packetCount s.packetFrames
    s₀ = { s with shared := s.shared.notice .main n } := by
  simp only [announce] at started
  split at started
  · split at started
    · cases started
    · exact (Opening.session.inj started).symm
  · exact (Opening.session.inj started).symm

theorem start_packets {config : Config} {d : δ} {around : Surroundings} {s₀ : Session δ κ}
    (started : start config .fifo d around = .session s₀) :
    ∃ d' j p q n, Device.connectIn d config.params around.journal = (.ok p, d', j) ∧
      objection? config.withDefaults .fifo p = none ∧ makeFifo config.withDefaults p = .ok q ∧
      let s : Session δ κ := (idle config.withDefaults .fifo p j).withFifo q
      let t : Filler δ κ := { device := d', supply := .fifo, params := p, log := s.log }
      let began := t.approach around.headStart s.shared
      s₀ = { s with holder := .filler began.1, shared := began.2.notice .main n } := by
  rcases reply : Device.connectIn d config.params around.journal with ⟨outcome, d', j⟩
  simp only [start, reply] at started
  cases outcome with
  | failed e => cases started
  | broken f => cases started
  | ok p =>
    cases objection : objection? config.withDefaults (Feed.fifo : Feed κ).mode p with
    | some e => simp [objection] at started
    | none =>
      cases made : makeFifo config.withDefaults p with
      | error f => simp [objection, made] at started
      | ok q =>
        simp only [objection, made, launch] at started
        split at started
        · cases started
        · exact ⟨d', j, p, q, _, rfl, objection, made, announce_session started⟩

theorem makeFifo_fed {config : Config} {p : Params} {q : Fifo} {before j : Journal}
    (fine : objection? config .fifo p = none) (made : makeFifo config p = .ok q)
    (quiet : before.Hands [] j) :
    ∃ l : Layout, l.Suits p config.packetFrames config.packetCount ∧
      Shared.Fed { fifo := some q, journal := j } l before [] [] := by
  obtain ⟨channels, frames, whole⟩ := fits_of_no_objection fine
  have enough := pool_of_no_objection fine
  obtain ⟨sound, none_held, empty⟩ := makeFifo_sound made
  have some_frame : 0 < p.frameSize := Nat.mul_pos channels p.format.width_pos
  let l : Layout :=
    { frame := p.frameSize
      packet := config.packetFrames * p.frameSize
      count := config.packetCount
      buffer := p.bufferFrames * p.frameSize
      some_frame
      some_buffer := Nat.mul_pos frames some_frame
      whole_frames := Nat.dvd_mul_left _ _
      whole_packets := Nat.mul_dvd_mul_right whole _ }
  have pool : l.buffer ≤ l.count * l.packet := by
    change p.bufferFrames * p.frameSize ≤ config.packetCount * (config.packetFrames * p.frameSize)
    rw [← Nat.mul_assoc, ← Nat.div_mul_cancel whole]
    exact Nat.mul_le_mul_right _ (Nat.mul_le_mul_right _ enough)
  have carries : q.Carries l [] :=
    ⟨sound.packetSize, fun _ => ⟨sound, by simp [Fifo.AtRest, none_held], empty⟩⟩
  refine ⟨l, ⟨rfl, rfl, rfl, rfl, pool⟩, [], [], by simpa using quiet.fetches, quiet.handed, rfl, ?_⟩
  exact ⟨⟨0, rfl⟩, by simp [hits], by simp, rfl, q, rfl, by simpa using carries⟩

theorem start_suits {config : Config} {d : δ} {around : Surroundings}
    {s₀ : Session δ κ} (started : start config .fifo d around = .session s₀) :
    ∃ l : Layout, l.Suits s₀.params s₀.packetFrames s₀.packetCount ∧
      s₀.Feeds l around.journal [] ∧ ∃ q, s₀.fifo = some q ∧ q.isOpen = true := by
  have connected := Device.connectIn_hands d config.params around.journal
  obtain ⟨d', j, p, q, n, reply, fine, made, rfl⟩ := start_packets started
  rw [reply] at connected
  obtain ⟨l, suits, fed⟩ := makeFifo_fed fine made connected
  let t : Filler δ κ := { device := d', supply := .fifo, params := p, log := { time := j.now } }
  have waiting : t.Feeds { fifo := some q, journal := j } l around.journal [] :=
    ⟨rfl, suits.buffer, by simp [t], by simpa [t, Filler.parked] using fed⟩
  let lead := around.headStart
  obtain ⟨begun, isOpen⟩ :
      (t.approach lead _).1.Feeds (t.approach lead _).2 l around.journal [] ∧
        ∃ q, (t.approach lead _).2.fifo = some q ∧ q.isOpen = true :=
    Filler.approach_keeps
      (P := fun t shared => t.Feeds shared l around.journal [] ∧
        ∃ q, shared.fifo = some q ∧ q.isOpen = true)
      (fun _ _ h => ⟨Filler.step_feeds h.1, Filler.step_open h.1 h.2⟩) lead
      ⟨waiting, q, rfl, (makeFifo_sound made).1.isOpen⟩
  refine ⟨l, suits, .running _ rfl suits.frame ?_, isOpen⟩
  exact ⟨begun.supply, begun.buffer_size, begun.buffer,
    Shared.fed_hands begun.fed (Shared.hands_notice _ _)⟩

theorem start_feeds {config : Config} {d : δ} {around : Surroundings}
    {s₀ : Session δ κ} (started : start config .fifo d around = .session s₀) :
    ∃ l : Layout, s₀.params.bufferFrames * s₀.params.frameSize = l.buffer ∧
      s₀.Feeds l around.journal [] := by
  obtain ⟨l, suits, feeds, _⟩ := start_suits started
  exact ⟨l, suits.buffer, feeds⟩

/-- The device is handed whole buffers only, one for each fetch: silence for a miss and else the
    next bytes that the pushes got accepted. A fetch misses only where less than a buffer was ready,
    and never faults; what the filler still holds is the one buffer that waits for the device. -/
theorem device_gets_the_stream {config : Config} {d : δ} {around : Surroundings}
    {s₀ : Session δ κ} (started : start config .fifo d around = .session s₀) (all : List Move) :
    let size := s₀.params.bufferFrames * s₀.params.frameSize
    let s := (s₀.moves all).1
    let stream := (s₀.moves all).2
    ∃ fetches buffers,
      s.journal.fetches = around.journal.fetches ++ fetches ∧
      s.journal.handed = around.journal.handed ++ buffers ∧
      buffers ++ s.parked = delivery size fetches stream ∧
      (∀ buffer ∈ buffers, buffer.length = size) ∧
      audible fetches buffers <+: stream ∧
      (∀ f ∈ fetches, f.outcome = .ok 0 ∧ f.ready < size ∨ f.outcome = .ok size ∧ size ≤ f.ready) ∧
      s.metrics.silenceBuffers = misses fetches % wordLimit := by
  obtain ⟨l, sized, begun⟩ := start_feeds started
  have feeds := moves_keep (P := fun s stream => s.Feeds l around.journal stream)
    (fun _ _ m h => move_feeds h m) all begun
  obtain ⟨fetches, buffers, fetched, handed, same, account⟩ := fed_of_feeds feeds
  rw [List.nil_append] at same account
  rw [sized]
  refine ⟨fetches, buffers, fetched, handed, same, ?_, audible_delivery same, account.fair,
    account.silences⟩
  intro buffer mem
  exact delivery_whole account.fetched buffer (same ▸ List.mem_append_left _ mem)

/-- Two pushes and two turns on a device that fails its second write: silence that waited from the
    start, the first buffer of the stream, and silence again because the rest fills no buffer. -/
theorem audio_between_silences :
    let config : Config :=
      { bufferFrames := 4, packetFrames := 2, packetCount := 4, format := .i16 }
    let device : ScriptedDevice := { writes := [.short 1, .failed .underrun] }
    let all : List Move :=
      [.push [1, 2, 3, 4, 5, 6, 7, 8, 9], .run 1, .push [10, 11, 12, 13], .run 1]
    ∃ s₀ : Session ScriptedDevice StockCallback, start config .fifo device .ahead = .session s₀ ∧
      let s := (s₀.moves all).1
      s.journal.handed = [silence 8, [1, 2, 3, 4, 5, 6, 7, 8]] ∧ s.parked = [silence 8] ∧
        ∃ fetches, s.journal.handed ++ s.parked = delivery 8 fetches (s₀.moves all).2 := by
  intro config device all
  let opened : Opening ScriptedDevice StockCallback := start config .fifo device .ahead
  have evaluated : opened.session?.map (fun s₀ => (s₀.params.bufferFrames * s₀.params.frameSize,
      (s₀.moves all).1.journal.handed, (s₀.moves all).1.parked)) =
        some (8, [silence 8, [1, 2, 3, 4, 5, 6, 7, 8]], [silence 8]) := by decide +kernel
  obtain ⟨s₀, found, values⟩ := Option.map_eq_some_iff.mp evaluated
  simp only [Prod.mk.injEq] at values
  have started := Opening.eq_of_session? found
  obtain ⟨fetches, buffers, _, same, delivered, _⟩ := device_gets_the_stream started all
  refine ⟨s₀, started, values.2.1, values.2.2, fetches, ?_⟩
  rw [same, ← values.1]
  exact delivered

end Session

end PcmStream
