import PcmStream.Proofs.FillerFaults
import PcmStream.Proofs.PacketRoom
import PcmStream.Proofs.TimeConversion

/- The sizes and times of a session against the machine word. Nothing checks them before the device
   is opened; but where one buffer of the stream fits a word, and memory holds what a start takes
   of it, all that a session computes fits a word too, and only a callback or the device can end
   its filler. -/
namespace PcmStream

theorem SampleFormat.two_le_width (f : SampleFormat) : 2 ≤ f.width := by cases f <;> decide

def Params.Fits (p : Params) : Prop := p.bufferFrames * p.frameSize < wordLimit

namespace Params

variable {p : Params}

theorem frames_fit (fits : p.Fits) {n : Nat} (few : n ≤ p.bufferFrames) :
    mulWord n p.frameSize = .ok (n * p.frameSize) :=
  mulWord_eq_ok_iff.mpr ⟨(Nat.mul_le_mul_right p.frameSize few).trans_lt fits, rfl⟩

theorem bufferTime_made (usable : p.Usable) (fits : p.Fits) :
    ∃ nanos, p.bufferTime = .ok nanos := by
  have frame : 2 ≤ p.frameSize :=
    calc 2 ≤ p.format.width := p.format.two_le_width
      _ ≤ p.channels * p.format.width := Nat.le_mul_of_pos_left _ usable.channels
  -- No format is narrower than two bytes, so the frames are fewer than half of what a word counts.
  have double : p.bufferFrames * 2 < wordLimit := (Nat.mul_le_mul_left _ frame).trans_lt fits
  have word : wordLimit = 2 ^ 64 := by decide
  exact nanosOfFrames_made (by omega) p.sampleRate

theorem computed_of_held (usable : p.Usable) (held : p.bufferFrames * p.frameSize < allocLimit) :
    p.Computed :=
  ⟨⟨_, bytesFor_eq_ok_iff.mpr ⟨held, rfl⟩⟩,
    bufferTime_made usable (held.trans allocLimit_lt_wordLimit)⟩

end Params

namespace Config

variable {config : Config} {mode : Mode} {p : Params}

/-- Memory holds what a start takes of it: the buffer of a filler, and in packet mode the places of
    the pool and all its packets together. -/
structure Houses (config : Config) (mode : Mode) (p : Params) : Prop where
  buffer : mode ≠ .queue → p.bufferFrames * p.frameSize < allocLimit
  places : mode = .fifo → config.packetCount * Fifo.placeWidth < allocLimit
  packets : mode = .fifo → config.packetCount * (config.packetFrames * p.frameSize) < wordLimit

theorem packet_le (suits : config.Suits mode p) : config.packetFrames ≤ p.bufferFrames :=
  Nat.le_of_dvd suits.usable.frames suits.whole

theorem allots_of_houses (suits : config.Suits mode p) (houses : config.Houses mode p) :
    config.Allots mode p := by
  rintro rfl
  refine ⟨houses.places rfl, ?_⟩
  exact (Nat.mul_le_mul_right p.frameSize (packet_le suits)).trans_lt (houses.buffer (by simp))

end Config

def Opening.loss? {δ κ : Type} : Opening δ κ → Option (Fault × Journal)
  | .broken f j => some (f, j)
  | _ => none

theorem Opening.eq_of_loss? {δ κ : Type} {o : Opening δ κ} {f : Fault} {j : Journal}
    (h : o.loss? = some (f, j)) : o = .broken f j := by
  cases o with
  | broken f' j' =>
    obtain ⟨rfl, rfl⟩ := Prod.mk.inj (Option.some.inj h)
    rfl
  | session s => cases h
  | refused e j' => cases h

namespace Session

variable {δ κ : Type} [Device δ] {s : Session δ κ}

theorem room_fits (unowned : ∀ d, s.holder ≠ .owner d)
    (held : ∀ t q, s.holder = .filler t → s.fifo = some q → q.space < wordLimit) :
    ∃ size, mulWord s.room s.params.frameSize = .ok size := by
  refine ⟨_, mulWord_eq_ok_iff.mpr ⟨?_, rfl⟩⟩
  unfold room
  split
  · rename_i t holder
    split
    · rename_i q fifo
      exact (Nat.div_mul_le_self _ _).trans_lt (held t q holder fifo)
    · rw [Nat.zero_mul]
      decide
  · rename_i d holder
    exact absurd holder (unowned d)
  · rw [Nat.zero_mul]
    decide

variable [Callback κ] {config : Config} {feed : Feed κ} {d : δ} {around : Surroundings}
  {s₀ : Session δ κ}

/-- Every size and time of a session fits a word, and only a callback or the device can have ended
    its filler, or end it at the close. -/
structure Sized (s : Session δ κ) (before : Journal) : Prop where
  packet : ∃ size, mulWord s.packetFrames s.params.frameSize = .ok size
  buffer : ∃ size, s.params.bufferSize = .ok size
  memory : s.mode ≠ .queue → ∃ size, bytesFor s.params.bufferFrames s.params.frameSize = .ok size
  time : ∃ nanos, s.params.bufferTime = .ok nanos
  frames : ∀ n ≤ s.params.bufferFrames, ∃ size, mulWord n s.params.frameSize = .ok size
  room : (∀ d, s.holder ≠ .owner d) → ∃ size, mulWord s.room s.params.frameSize = .ok size
  pool : s.mode = .fifo → ∃ q size, s.fifo = some q ∧
    mulWord s.packetFrames s.params.frameSize = .ok size ∧ s.packetCount * size < wordLimit ∧
    q.space < wordLimit ∧ q.available < wordLimit
  filler : ∀ t f, s.holder = .filler t → t.stage = .broken f →
    ∃ more, s.journal.events = before.events ++ more ∧ t.Imposed more f
  ending : ∀ t f, s.holder = .filler t →
    let last := t.finish { s.shared with fifo := s.fifo.map Fifo.close }
    last.1.stage = .broken f →
      ∃ more, last.2.journal.events = before.events ++ more ∧ last.1.Imposed more f

theorem moves_terms (s : Session δ κ) (all : List Move) :
    (s.moves all).1.terms = s.terms :=
  @moves_keep _ _ _ _ (fun s' _ => s'.terms = s.terms)
    (fun s' _ m same => (move_terms s' m).trans same) all s [] rfl

theorem start_terms {p : Params} {d' : δ} {j : Journal}
    (reply : Device.connectIn d config.params around.journal = (.ok p, d', j))
    (started : start config feed d around = .session s₀) :
    s₀.terms =
      (p, config.withDefaults.packetFrames, config.withDefaults.packetCount, feed.mode) := by
  obtain ⟨d'', j', p', s, n, reply', _, prepared, rfl⟩ := start_prepared started
  rw [reply, Prod.mk.injEq, Outcome.ok.injEq] at reply'
  rw [reply'.1]
  exact (prepared_terms prepared : s.terms = _)

theorem moves_pool (started : start config feed d around = .session s₀)
    (packets : feed.mode = .fifo)
    (held : s₀.packetCount * (s₀.packetFrames * s₀.params.frameSize) < wordLimit)
    (all : List Move) :
    ∃ q, (s₀.moves all).1.fifo = some q ∧ q.space < wordLimit ∧ q.available < wordLimit := by
  obtain rfl : feed = .fifo := by cases feed <;> first | rfl | cases packets
  obtain ⟨l, suits, begun, _⟩ := start_suits started
  have feeds := moves_keep (P := fun s stream => s.Feeds l around.journal stream)
    (fun _ _ m h => move_feeds h m) all begun
  obtain ⟨fetches, buffers, _, _, _, account⟩ := fed_of_feeds feeds
  obtain ⟨q, fifo, carries⟩ := account.queue
  rw [suits.count, suits.packet] at held
  refine ⟨q, fifo, ?_⟩
  cases isOpen : q.isOpen with
  | false =>
    simp only [Fifo.space, Fifo.available, isOpen, Bool.false_eq_true, if_false]
    exact ⟨by decide, by decide⟩
  | true =>
    obtain ⟨sound, rest, _⟩ := carries.sound isOpen
    have total := Fifo.space_add_length sound
    have waiting : q.available ≤ q.toList.length := by
      simp only [Fifo.available, isOpen, if_true, sound.packetSize, Fifo.ready_count_eq sound rest]
      exact Nat.div_mul_le_self _ _
    omega

theorem moves_room (started : start config feed d around = .session s₀)
    (held : feed.mode = .fifo →
      s₀.packetCount * (s₀.packetFrames * s₀.params.frameSize) < wordLimit)
    (all : List Move) (unowned : ∀ d, (s₀.moves all).1.holder ≠ .owner d) :
    ∃ size, mulWord (s₀.moves all).1.room (s₀.moves all).1.params.frameSize = .ok size := by
  apply room_fits unowned
  intro t q holder fifo
  cases feed with
  | callback c =>
    have unpacked : (s₀.moves all).1.Unpacked around.journal := moves_unpacked started all
    rw [unpacked.fifo] at fifo
    cases fifo
  | fifo =>
    obtain ⟨q', has, space, _⟩ := moves_pool started rfl (held rfl) all
    rw [has] at fifo
    obtain rfl := Option.some.inj fifo
    exact space
  | queue => exact absurd rfl (moves_threaded started all holder)

/-- A device that agrees to a stream whose buffer fits a word, with packets that suit it and a pool
    that memory holds, is never lost to a size or a time that does not fit: only the log can break
    the start, and whatever the owner calls, every size and every time of the session is made. -/
theorem sizes_never_overflow {p : Params} {d' : δ} {j : Journal}
    (reply : Device.connectIn d config.params around.journal = (.ok p, d', j))
    (suits : config.withDefaults.Suits feed.mode p) (fits : p.Fits)
    (houses : config.withDefaults.Houses feed.mode p) :
    (∀ f j', start config feed d around = .broken f j' →
      ¬ around.Logs (.sessionStarted feed.mode p config.withDefaults.packetCount
        config.withDefaults.packetFrames)) ∧
    ∀ s₀ : Session δ κ, start config feed d around = .session s₀ → ∀ all : List Move,
      (s₀.moves all).1.Sized around.journal := by
  -- Only a filler takes memory for a buffer.
  have computed (threaded : feed.mode ≠ .queue) : p.Computed :=
    Params.computed_of_held suits.usable (houses.buffer threaded)
  refine ⟨?_, ?_⟩
  · intro f j' broken
    have ends : Ends config.withDefaults feed.mode p around j (Device.disconnectIn d' j)
        (start config feed d around) := start_ends reply
    rw [broken] at ends
    cases ends with
    | unmade _ large => exact absurd (Config.allots_of_houses suits houses) large
    | unlogged _ _ _ silenced => exact silenced
  · intro s₀ started all
    have settled := start_terms reply started
    have terms := (moves_terms s₀ all).trans settled
    simp only [Session.terms, Prod.mk.injEq] at settled terms
    obtain ⟨params, packetFrames, packetCount, mode⟩ := terms
    obtain ⟨params₀, packetFrames₀, packetCount₀, _⟩ := settled
    have packet := Params.frames_fit fits (Config.packet_le suits)
    have held (packets : feed.mode = .fifo) :
        s₀.packetCount * (s₀.packetFrames * s₀.params.frameSize) < wordLimit := by
      rw [packetFrames₀, packetCount₀, params₀]
      exact houses.packets packets
    constructor
    · exact ⟨_, by rw [packetFrames, params]; exact packet⟩
    · rw [params]
      exact ⟨_, Params.frames_fit fits le_rfl⟩
    · intro threaded
      rw [mode] at threaded
      rw [params]
      exact (computed threaded).size
    · rw [params]
      exact Params.bufferTime_made suits.usable fits
    · intro n few
      rw [params] at few ⊢
      exact ⟨_, Params.frames_fit fits few⟩
    · exact moves_room started held all
    · intro fifo
      have packets : feed.mode = .fifo := mode ▸ fifo
      obtain ⟨q, has, space, available⟩ := moves_pool started packets (held packets) all
      refine ⟨q, config.withDefaults.packetFrames * p.frameSize, has, ?_, ?_, space, available⟩
      · rw [packetFrames, params]
        exact packet
      · rw [packetCount]
        exact houses.packets packets
    · intro t f holder broken
      have made := computed (moves_threaded started all holder)
      exact (moves_imposed started (params₀ ▸ made) all holder).1 broken
    · intro t f holder last broken
      have made := computed (moves_threaded started all holder)
      exact (moves_imposed started (params₀ ▸ made) all holder).2 broken

/-- An eighth of the frames that a word counts, of two bytes each: no start breaks off, and a
    session that the owner feeds keeps all its sizes until it is closed. -/
theorem eighth_of_a_word_fits :
    let config : Config := { bufferFrames := 2 ^ 61, packetFrames := 2 ^ 61, format := .i16 }
    let pool : Config := { config with packetCount := 1 }
    let device : ScriptedDevice := {}
    config.params.Fits ∧ pool.withDefaults.Houses .fifo config.params ∧
    (∀ f j, start pool (.fifo : Feed StockCallback) device {} ≠ .broken f j) ∧
    ∃ s₀ : Session ScriptedDevice StockCallback, start config .queue device {} = .session s₀ ∧
      s₀.params.bufferFrames = 2 ^ 61 ∧
      (s₀.moves [.push [1, 2, 3], .wait 1, .close]).1.Sized {} := by
  intro config pool device
  have fits : config.params.Fits := by unfold Params.Fits; decide
  have houses : pool.withDefaults.Houses .fifo pool.params := by
    constructor <;> intro _ <;> decide
  have unlogged (n : Notice) : ({} : Surroundings).Logs n := by
    intro part breaks
    cases breaks
  have reply (config : Config) : Device.connectIn device config.params ({} : Surroundings).journal =
      (.ok config.params, device, Journal.call {} (.opened config.params)) := rfl
  let opened : Opening ScriptedDevice StockCallback := start config .queue device {}
  have evaluated : opened.session?.map (·.params.bufferFrames) = some (2 ^ 61) := by decide +kernel
  obtain ⟨s₀, found, frames⟩ := Option.map_eq_some_iff.mp evaluated
  have started := Opening.eq_of_session? found
  refine ⟨fits, houses, ?_, s₀, started, frames, ?_⟩
  · intro f j broken
    have suits : pool.withDefaults.Suits .fifo pool.params := Config.objection_iff.mp (by decide)
    obtain ⟨logged, _⟩ := @sizes_never_overflow ScriptedDevice StockCallback _ _ pool .fifo device
      {} _ _ _ (reply pool) suits fits houses
    exact logged f j broken (unlogged _)
  · have suits : config.withDefaults.Suits .queue config.params :=
      Config.objection_iff.mp (by decide)
    obtain ⟨_, sized⟩ := @sizes_never_overflow ScriptedDevice StockCallback _ _ config .queue device
      {} _ _ _ (reply config) suits fits (by constructor <;> simp [Feed.mode])
    exact sized s₀ started _

/-- As many frames of four bytes each pass every check of a start and do not fit. In packet mode the
    start breaks off with the device open, and a filler with a callback ends before its first
    buffer. -/
theorem quarter_of_a_word_overflows :
    let config : Config := { bufferFrames := 2 ^ 62, packetFrames := 2 ^ 62, packetCount := 1 }
    let device : ScriptedDevice := {}
    let counting : Feed StockCallback := .callback (.pattern { counting := true, next := 1 })
    config.Fits ∧ (∀ mode, config.withDefaults.Suits mode config.params) ∧
    (Device.connectIn device config.params {}).1 = .ok config.params ∧
    (∃ j, start config (.fifo : Feed StockCallback) device {} = .broken .mulOverflow j ∧
      j.calls = [.opened config.params]) ∧
    ∃ s₀ t, start config counting device .ahead = .session s₀ ∧ s₀.holder = .filler t ∧
      t.stage = .broken .mulOverflow := by
  intro config device counting
  let opening : Opening ScriptedDevice StockCallback := start config .fifo device {}
  have broken_off : opening.loss?.map (fun lost => (lost.1, lost.2.calls)) =
      some (.mulOverflow, [.opened config.params]) := by decide +kernel
  have ended : (start config counting device .ahead).session?.map
      (·.holder.filler?.map Filler.stage) = some (some (.broken .mulOverflow)) := by
    decide +kernel
  have agreed (config : Config) :
      (Device.connectIn device config.params {}).1 = .ok config.params := rfl
  refine ⟨?_, ?_, agreed config, ?_, ?_⟩
  · unfold Config.Fits
    decide
  · intro mode
    apply Config.objection_iff.mp
    cases mode <;> decide
  · obtain ⟨⟨f, j⟩, lost, values⟩ := Option.map_eq_some_iff.mp broken_off
    obtain ⟨rfl, calls⟩ := Prod.mk.inj values
    exact ⟨j, Opening.eq_of_loss? lost, calls⟩
  · obtain ⟨s₀, found, staged⟩ := Option.map_eq_some_iff.mp ended
    obtain ⟨t, holder, stage⟩ := Option.map_eq_some_iff.mp staged
    exact ⟨s₀, t, Opening.eq_of_session? found, Holder.eq_of_filler? holder, stage⟩

end Session

end PcmStream
