import PcmStream.Proofs.DeviceLife
import PcmStream.Proofs.StreamDelivery

/- How a start ends. Once the device has agreed to a stream, each way to end has its own condition,
   checked in one order. A device whose stream is objected to is closed again. -/
namespace PcmStream

structure Params.Usable (p : Params) : Prop where
  rate : 0 < p.sampleRate
  channels : 0 < p.channels
  frames : 0 < p.bufferFrames

theorem Params.frameSize_pos {p : Params} (h : p.Usable) : 0 < p.frameSize :=
  Nat.mul_pos h.channels p.format.width_pos

namespace Config

structure Suits (config : Config) (mode : Mode) (p : Params) : Prop where
  usable : p.Usable
  whole : config.packetFrames ∣ p.bufferFrames
  enough : mode = .fifo → p.bufferFrames / config.packetFrames ≤ config.packetCount

def Allots (config : Config) (mode : Mode) (p : Params) : Prop :=
  mode = .fifo → Fifo.Fits (config.packetFrames * p.frameSize) config.packetCount

theorem orDefault_pos (value : Nat) {fallback : Nat} (positive : 0 < fallback) :
    0 < orDefault value fallback := by
  unfold orDefault
  split
  · exact positive
  · omega

theorem packetFrames_pos (config : Config) : 0 < config.withDefaults.packetFrames :=
  orDefault_pos config.packetFrames (by decide)

theorem packetCount_pos (config : Config) : 0 < config.withDefaults.packetCount :=
  orDefault_pos config.packetCount (by decide)

/-- What there is to object to a stream, the first of it. -/
inductive Objects (config : Config) (mode : Mode) (p : Params) : Option SessionError → Prop where
  | unusable (text : String) (zero : ¬ p.Usable) : Objects config mode p (some (.unusable text))
  | mismatch (usable : p.Usable) (apart : ¬ config.packetFrames ∣ p.bufferFrames) :
      Objects config mode p (some (.packetMismatch p.bufferFrames config.packetFrames))
  | tooSmall (usable : p.Usable) (whole : config.packetFrames ∣ p.bufferFrames)
      (fifo : mode = .fifo) (few : config.packetCount < p.bufferFrames / config.packetFrames) :
      Objects config mode p
        (some (.poolTooSmall config.packetCount (p.bufferFrames / config.packetFrames)))
  | nothing (suits : config.Suits mode p) : Objects config mode p none

theorem objection_objects (config : Config) (mode : Mode) (p : Params) :
    config.Objects mode p (objection? config mode p) := by
  unfold objection?
  dsimp only
  split
  · rename_i zero
    apply Objects.unusable
    intro usable
    have rate := usable.rate
    have channels := usable.channels
    have frames := usable.frames
    omega
  · rename_i some_of_each
    have usable : p.Usable := by
      constructor <;> omega
    split
    · rename_i apart
      apply Objects.mismatch usable
      intro whole
      exact apart (Nat.mod_eq_zero_of_dvd whole)
    · rename_i none_left
      have whole : config.packetFrames ∣ p.bufferFrames := by
        apply Nat.dvd_of_mod_eq_zero
        omega
      split
      · rename_i small
        exact .tooSmall usable whole small.1 small.2
      · rename_i enough
        apply Objects.nothing
        constructor
        · exact usable
        · exact whole
        · intro fifo
          simpa [fifo] using enough

theorem objection_iff {config : Config} {mode : Mode} {p : Params} :
    objection? config mode p = none ↔ config.Suits mode p := by
  have objects := objection_objects config mode p
  constructor
  · intro fine
    rw [fine] at objects
    cases objects with
    | nothing suits => exact suits
  · intro suits
    generalize objection? config mode p = objection at objects
    cases objects with
    | unusable text zero => exact absurd suits.usable zero
    | mismatch usable apart => exact absurd suits.whole apart
    | tooSmall usable whole fifo few =>
      have enough := suits.enough fifo
      omega
    | nothing suits => rfl

end Config

theorem Device.connectIn_calls {δ : Type} [Device δ] (d : δ) (requested : Params) (j : Journal) :
    (connectIn d requested j).2.2.calls = j.calls ++ [.opened requested] := by
  simp [connectIn]

def Surroundings.Logs (around : Surroundings) (n : Notice) : Prop :=
  ∀ part, around.logBreaksAt = some part → hasPart part.toList n.text.toList = false

namespace Session

variable {δ κ : Type}

inductive Ends (config : Config) (mode : Mode) (p : Params) (around : Surroundings)
    (opened closed : Journal) : Opening δ κ → Prop where
  | objected {e : SessionError} (objects : config.Objects mode p (some e)) :
      Ends config mode p around opened closed (.refused e closed)
  | unmade {f : Fault} (suits : config.Suits mode p) (large : ¬ config.Allots mode p) :
      Ends config mode p around opened closed (.broken f opened)
  | unspawned {text : String} (suits : config.Suits mode p) (allots : config.Allots mode p)
      (threaded : mode ≠ .queue) (failed : around.spawnFailure = some text) :
      Ends config mode p around opened closed (.refused (.spawn text) opened)
  | unlogged {f : Fault} {j : Journal} (suits : config.Suits mode p)
      (allots : config.Allots mode p)
      (possible : mode = .queue ∨ around.spawnFailure = none)
      (silenced : ¬ around.Logs (.sessionStarted mode p config.packetCount config.packetFrames)) :
      Ends config mode p around opened closed (.broken f j)
  | begun {s : Session δ κ} (suits : config.Suits mode p) (allots : config.Allots mode p)
      (possible : mode = .queue ∨ around.spawnFailure = none)
      (logged : around.Logs (.sessionStarted mode p config.packetCount config.packetFrames)) :
      Ends config mode p around opened closed (.session s)

/-- Each way to end with its condition, for a device opened for `p`. Only a start without objection
    comes to the pool; one that memory cannot hold breaks it off, with the device open. -/
structure Judged (config : Config) (mode : Mode) (p : Params) (around : Surroundings)
    (opened closed : Journal) (o : Opening δ κ) : Prop where
  unusable : (∃ text j, o = .refused (.unusable text) j) ↔ ¬ p.Usable
  mismatch : (∃ frames packet j, o = .refused (.packetMismatch frames packet) j) ↔
    p.Usable ∧ ¬ config.packetFrames ∣ p.bufferFrames
  tooSmall : (∃ count needed j, o = .refused (.poolTooSmall count needed) j) ↔
    p.Usable ∧ config.packetFrames ∣ p.bufferFrames ∧ mode = .fifo ∧
      config.packetCount < p.bufferFrames / config.packetFrames
  unspawned : (∃ text j, o = .refused (.spawn text) j) ↔
    config.Suits mode p ∧ config.Allots mode p ∧ mode ≠ .queue ∧ around.spawnFailure ≠ none
  unmade : config.Suits mode p → ¬ config.Allots mode p → ∃ f, o = .broken f opened
  session : (∃ s, o = .session s) ↔
    config.Suits mode p ∧ config.Allots mode p ∧ (mode = .queue ∨ around.spawnFailure = none) ∧
      around.Logs (.sessionStarted mode p config.packetCount config.packetFrames)
  refused : ∀ e j, o = .refused e j →
    config.Objects mode p (some e) ∧ j = closed ∨
      ∃ text, e = .spawn text ∧ around.spawnFailure = some text ∧ j = opened

theorem unsuited_of_objects {config : Config} {p : Params} {mode : Mode} {e : SessionError}
    (h : config.Objects mode p (some e)) : ¬ config.Suits mode p := by
  intro suits
  cases h with
  | unusable text zero => exact zero suits.usable
  | mismatch usable apart => exact apart suits.whole
  | tooSmall usable whole fifo few => exact absurd (suits.enough fifo) (Nat.not_le_of_lt few)

theorem judged_of_ends {config : Config} {p : Params} {around : Surroundings} {mode : Mode}
    {opened closed : Journal} {o : Opening δ κ}
    (h : Ends config mode p around opened closed o) :
    Judged config mode p around opened closed o := by
  cases h with
  | objected objects =>
    have unsuited := unsuited_of_objects objects
    have why := objects
    cases objects with
    | unusable text zero => constructor <;> simp [zero, unsuited, why]
    | mismatch usable apart => constructor <;> simp [usable, apart, unsuited, why]
    | tooSmall usable whole fifo few =>
      subst fifo
      constructor <;> simp [usable, whole, few, unsuited, why]
  | unmade suits large =>
    constructor <;> simp [suits, suits.usable, suits.whole, large]
    exact suits.enough
  | unspawned suits allots threaded failed =>
    constructor <;> simp [suits, suits.usable, suits.whole, allots, threaded, failed]
    exact suits.enough
  | unlogged suits allots possible silenced =>
    constructor <;> simp [suits, suits.usable, suits.whole, allots, silenced]
    · exact suits.enough
    · exact possible.resolve_left
  | begun suits allots possible logged =>
    constructor <;> simp [suits, suits.usable, suits.whole, allots, logged, possible]
    · exact suits.enough
    · exact possible.resolve_left

variable [Device δ] [Callback κ]

inductive Supplies (config : Config) (p : Params) : Feed κ → Supply κ → Option Fifo → Prop where
  | callback (c : κ) : Supplies config p (.callback c) (.callback c) none
  | fifo {q : Fifo} (made : makeFifo config p = .ok q) : Supplies config p .fifo .fifo (some q)

/-- A session that runs and is yet to be announced: a filler is on the way to its first write, or
    the owner has the device. -/
inductive Prepared (config : Config) (feed : Feed κ) (p : Params) (d : δ) (j : Journal) :
    Session δ κ → Prop where
  | thread {supply : Supply κ} {fifo : Option Fifo} (supplied : Supplies config p feed supply fifo)
      (t : Filler δ κ) (began : t = { device := d, supply, params := p, log := { time := j.now } })
      (n : Nat) :
      Prepared config feed p d j
        { (idle config feed.mode p j : Session δ κ) with
          holder := .filler (t.approach n { fifo, journal := j }).1
          shared := (t.approach n { fifo, journal := j }).2 }
  | owner (queue : feed = .queue) :
      Prepared config feed p d j { (idle config feed.mode p j : Session δ κ) with holder := .owner d }

inductive Proceeds (config : Config) (feed : Feed κ) (p : Params) (d : δ) (j : Journal)
    (around : Surroundings) : Opening δ κ → Prop where
  | unmade {f : Fault} (large : ¬ config.Allots feed.mode p) :
      Proceeds config feed p d j around (.broken f j)
  | unspawned {text : String} (allots : config.Allots feed.mode p) (threaded : feed.mode ≠ .queue)
      (failed : around.spawnFailure = some text) :
      Proceeds config feed p d j around (.refused (.spawn text) j)
  | prepared {s : Session δ κ} (prepared : Prepared config feed p d j s)
      (allots : config.Allots feed.mode p)
      (possible : feed.mode = .queue ∨ around.spawnFailure = none) :
      Proceeds config feed p d j around (s.announce around)

variable {config : Config} {feed : Feed κ} {d d' : δ} {around : Surroundings} {p : Params}
  {j : Journal}

theorem makeFifo_allots {q : Fifo} (made : makeFifo config p = .ok q) (mode : Mode) :
    config.Allots mode p := by
  unfold makeFifo at made
  cases size : mulWord config.packetFrames p.frameSize with
  | error f => simp [size, bind, Except.bind] at made
  | ok packet =>
    obtain ⟨_, rfl⟩ := mulWord_eq_ok_iff.mp size
    rw [size] at made
    exact fun _ => (Fifo.fits_of_new made).2.2

theorem makeFifo_made {mode : Mode} (fifo : mode = .fifo) (usable : p.Usable)
    (allots : config.withDefaults.Allots mode p) :
    ∃ q, makeFifo config.withDefaults p = .ok q := by
  have fits := allots fifo
  have positive : 0 < config.withDefaults.packetFrames * p.frameSize :=
    Nat.mul_pos config.packetFrames_pos (Params.frameSize_pos usable)
  obtain ⟨q, made, _⟩ := Fifo.new_spec positive config.packetCount_pos fits
  have size := mulWord_eq_ok_iff.mpr
    ⟨Nat.lt_trans fits.2 allocLimit_lt_wordLimit, rfl⟩
  exact ⟨q, by simp [makeFifo, size, made, bind, Except.bind]⟩

theorem launch_proceeds {supply : Supply κ} {fifo : Option Fifo} {s : Session δ κ}
    (supplied : Supplies config p feed supply fifo) (threaded : feed.mode ≠ .queue)
    (allots : config.Allots feed.mode p) (idling : s = { (idle config feed.mode p j : Session δ κ) with
      shared := { fifo, journal := j } }) :
    Proceeds config feed p d j around (s.launch d supply around) := by
  subst idling
  unfold launch
  split
  · rename_i text failed
    exact .unspawned allots threaded failed
  · rename_i possible
    exact .prepared (.thread supplied _ rfl around.headStart) allots (.inr possible)

theorem start_proceeds (feed : Feed κ)
    (reply : Device.connectIn d config.params around.journal = (.ok p, d', j))
    (fine : objection? config.withDefaults feed.mode p = none) :
    Proceeds config.withDefaults feed p d' j around (start config feed d around) := by
  have usable := (Config.objection_iff.mp fine).usable
  simp only [start, reply, fine]
  cases feed with
  | callback c => exact launch_proceeds (.callback c) (by simp [Feed.mode]) (by rintro ⟨⟩) rfl
  | fifo =>
    cases made : makeFifo config.withDefaults p with
    | error f =>
      apply Proceeds.unmade
      intro allots
      obtain ⟨q, made'⟩ := makeFifo_made rfl usable allots
      rw [made] at made'
      cases made'
    | ok q => exact launch_proceeds (.fifo made) (by simp [Feed.mode]) (makeFifo_allots made _) rfl
  | queue => exact .prepared (.owner rfl) (by rintro ⟨⟩) (.inl rfl)

theorem start_announced {s₀ : Session δ κ} (started : start config feed d around = .session s₀) :
    ∃ d' j p s, Device.connectIn d config.params around.journal = (.ok p, d', j) ∧
      config.withDefaults.Suits feed.mode p ∧ Prepared config.withDefaults feed p d' j s ∧
      s.announce around = .session s₀ := by
  rcases reply : Device.connectIn d config.params around.journal with ⟨outcome, d', j⟩
  cases outcome with
  | failed e => simp [start, reply] at started
  | broken f => simp [start, reply] at started
  | ok p =>
    cases objection : objection? config.withDefaults feed.mode p with
    | some e => simp [start, reply, objection] at started
    | none =>
      have proceeds := start_proceeds feed reply objection
      rw [started] at proceeds
      generalize same : (Opening.session s₀ : Opening δ κ) = o at proceeds
      cases proceeds with
      | unmade large => cases same
      | unspawned allots threaded failed => cases same
      | @prepared s prepared allots possible =>
        exact ⟨d', j, p, s, rfl, Config.objection_iff.mp objection, prepared, rfl⟩

theorem start_prepared {s₀ : Session δ κ} (started : start config feed d around = .session s₀) :
    ∃ d' j p s n, Device.connectIn d config.params around.journal = (.ok p, d', j) ∧
      config.withDefaults.Suits feed.mode p ∧ Prepared config.withDefaults feed p d' j s ∧
      s₀ = { s with shared := s.shared.notice .main n } := by
  obtain ⟨d', j, p, s, reply, suits, prepared, announced⟩ := start_announced started
  exact ⟨d', j, p, s, _, reply, suits, prepared, announce_session announced⟩

theorem announce_ends {mode : Mode} {opened closed : Journal} {s : Session δ κ}
    (suits : config.Suits mode p) (allots : config.Allots mode p)
    (possible : mode = .queue ∨ around.spawnFailure = none)
    (terms : s.terms = (p, config.packetFrames, config.packetCount, mode)) :
    Ends config mode p around opened closed (s.announce around) := by
  simp only [Session.terms, Prod.mk.injEq] at terms
  obtain ⟨params, packetFrames, packetCount, rfl⟩ := terms
  unfold announce
  simp only [params, packetFrames, packetCount]
  split
  · rename_i part breaks
    split
    · rename_i silenced
      apply Ends.unlogged suits allots possible
      intro logs
      simp [logs part breaks] at silenced
    · rename_i spared
      apply Ends.begun suits allots possible
      intro part' breaks'
      rw [breaks] at breaks'
      cases breaks'
      simpa using spared
  · rename_i unbroken
    apply Ends.begun suits allots possible
    intro part breaks
    simp [unbroken] at breaks

theorem prepared_terms {s : Session δ κ} (h : Prepared config feed p d j s) :
    s.terms = (p, config.packetFrames, config.packetCount, feed.mode) := by
  cases h <;> rfl

theorem start_usable {s₀ : Session δ κ} (started : start config feed d around = .session s₀) :
    s₀.params.Usable := by
  obtain ⟨d', j, p, s, n, _, suits, prepared, rfl⟩ := start_prepared started
  have settled := prepared_terms prepared
  simp only [terms, Prod.mk.injEq] at settled
  exact settled.1 ▸ suits.usable

theorem start_ends (reply : Device.connectIn d config.params around.journal = (.ok p, d', j)) :
    Ends config.withDefaults feed.mode p around j (Device.disconnectIn d' j)
      (start config feed d around) := by
  have objects := Config.objection_objects config.withDefaults feed.mode p
  cases objection : objection? config.withDefaults feed.mode p with
  | some e =>
    rw [objection] at objects
    simp only [start, reply, objection]
    exact .objected objects
  | none =>
    have suits := Config.objection_iff.mp objection
    have proceeds := start_proceeds feed reply objection
    generalize start config feed d around = o at proceeds
    cases proceeds with
    | unmade large => exact .unmade suits large
    | unspawned allots threaded failed => exact .unspawned suits allots threaded failed
    | prepared prepared allots possible =>
      exact announce_ends suits allots possible (prepared_terms prepared)

theorem start_unsuited {feed feed' : Feed κ} (same : feed'.mode = feed.mode)
    (reply : Device.connectIn d config.params around.journal = (.ok p, d', j))
    (unsuited : ¬ config.withDefaults.Suits feed.mode p) :
    (start config feed' d around : Opening δ κ) = start config feed d around := by
  cases objection : objection? config.withDefaults feed.mode p with
  | none => exact absurd (Config.objection_iff.mp objection) unsuited
  | some e => simp only [start, reply, same, objection]

theorem start_packed {s₀ : Session δ κ} (started : start config .fifo d around = .session s₀) :
    ∃ q, s₀.fifo = some q ∧ 0 < q.packetSize ∧
      q.packetSize ∣ s₀.params.bufferFrames * s₀.params.frameSize ∧
      s₀.params.bufferFrames * s₀.params.frameSize ≤ q.packetCount * q.packetSize := by
  obtain ⟨l, suits, feeds, q, fifo, isOpen⟩ := start_suits started
  obtain ⟨sound, _⟩ := Shared.sound_of_fed (fed_of_feeds feeds) fifo isOpen
  refine ⟨q, fifo, ?_, ?_, ?_⟩
  · rw [sound.packetSize]
    exact sound.positive
  · rw [sound.packetSize, suits.buffer]
    exact l.whole_packets
  · rw [sound.packetSize, sound.packetCount, suits.buffer]
    exact suits.pool

/-- The device is opened once, for what the configuration asks, and if it will not open that is all.
    If it agrees to a stream, the start ends as the stream and the mode have it, and where there is
    no objection as the memory for the pool has it; a device whose stream is objected to is closed,
    and nothing else is done with it, nor is a callback asked for anything. No divisor of a start or
    of a session is zero, and in packet mode the packets divide the buffers and hold at least one. -/
theorem opening_is_judged (config : Config) (feed : Feed κ) (d : δ) (around : Surroundings) :
    let settings := config.withDefaults
    let asked := around.journal.calls ++ [.opened config.params]
    let o := start config feed d around
    0 < settings.packetFrames ∧
    (match Device.connectIn d config.params around.journal with
    | (.failed e, _, j) => o = .refused (.device e) j ∧ j.calls = asked
    | (.broken f, _, j) => o = .broken f j ∧ j.calls = asked
    | (.ok p, d', j) =>
      let closed := Device.disconnectIn d' j
      j.calls = asked ∧ closed.calls = asked ++ [.closed] ∧
      Judged settings feed.mode p around j closed o ∧
      (¬ settings.Suits feed.mode p →
        ∀ feed' : Feed κ, feed'.mode = feed.mode → start config feed' d around = o)) ∧
    ∀ s₀, o = .session s₀ → s₀.params.Usable ∧ 0 < s₀.params.frameSize ∧
      (feed.mode = .fifo → ∃ q, s₀.fifo = some q ∧ 0 < q.packetSize ∧
        q.packetSize ∣ s₀.params.bufferFrames * s₀.params.frameSize ∧
        s₀.params.bufferFrames * s₀.params.frameSize ≤ q.packetCount * q.packetSize) := by
  intro settings asked o
  have called := Device.connectIn_calls d config.params around.journal
  refine ⟨config.packetFrames_pos, ?_, ?_⟩
  · rcases reply : Device.connectIn d config.params around.journal with ⟨outcome, d', j⟩
    rw [reply] at called
    cases outcome with
    | failed e => exact ⟨by simp [o, start, reply], called⟩
    | broken f => exact ⟨by simp [o, start, reply], called⟩
    | ok p =>
      refine ⟨called, ?_, ?_, ?_⟩
      · rw [Device.disconnectIn_calls, called]
      · exact judged_of_ends (start_ends reply)
      · intro unsuited feed' same
        exact start_unsuited same reply unsuited
  · intro s₀ started
    have usable := start_usable started
    refine ⟨usable, Params.frameSize_pos usable, ?_⟩
    intro fifo
    cases feed with
    | fifo => exact start_packed started
    | callback c => simp [Feed.mode] at fifo
    | queue => simp [Feed.mode] at fifo

/-- A device that offers six frames where packets of four were asked for is refused, and closed. -/
theorem mismatch_is_closed :
    let config : Config := { bufferFrames := 8, packetFrames := 4, packetCount := 1, format := .i16 }
    let device : ScriptedDevice := { terms := .ok { bufferFrames := some 6 } }
    let p : Params := ⟨44100, 1, .i16, 6⟩
    ¬ config.withDefaults.Suits .fifo p ∧
    ∃ j, start config (.fifo : Feed StockCallback) device {} = .refused (.packetMismatch 6 4) j ∧
      j.calls = [.opened config.params, .closed] := by
  intro config device p
  have apart : p.Usable ∧ ¬ config.withDefaults.packetFrames ∣ p.bufferFrames := by
    refine ⟨⟨?_, ?_, ?_⟩, ?_⟩ <;> decide
  have reply : Device.connectIn device config.params ({} : Surroundings).journal =
      (.ok p, device, Journal.call {} (.opened config.params)) := rfl
  obtain ⟨_, ends, _⟩ := opening_is_judged config (.fifo : Feed StockCallback) device {}
  rw [reply] at ends
  obtain ⟨_, closed, judged, _⟩ := ends
  obtain ⟨frames, packet, j, refused⟩ := judged.mismatch.mpr apart
  refine ⟨fun suits => apart.2 suits.whole, j, ?_, ?_⟩
  · rcases judged.refused _ _ refused with ⟨objects, _⟩ | ⟨text, spawn, _⟩
    · cases objects with
      | mismatch => exact refused
    · cases spawn
  · rcases judged.refused _ _ refused with ⟨_, rfl⟩ | ⟨text, spawn, _⟩
    · exact closed
    · cases spawn

/-- A pool of as many packets as a machine word counts suits the device, but cannot be made. -/
theorem endless_pool_is_not_made :
    let config : Config :=
      { bufferFrames := 4, packetFrames := 2, packetCount := wordLimit - 1, format := .i16 }
    let device : ScriptedDevice := {}
    config.Fits ∧ config.withDefaults.packetFrames * config.params.frameSize < wordLimit ∧
    config.params.bufferFrames * config.params.frameSize < wordLimit ∧
    ∃ j, Device.connectIn device config.params {} = (.ok config.params, device, j) ∧
      config.withDefaults.Suits .fifo config.params ∧
      ¬ ∃ s₀, start config (.fifo : Feed StockCallback) device {} = .session s₀ := by
  intro config device
  refine ⟨?_, ?_, ?_, _, rfl, ?_, ?_⟩
  · unfold Config.Fits; decide
  · decide
  · decide
  · apply Config.objection_iff.mp
    decide
  · rintro ⟨s₀, started⟩
    have failed : (start config (.fifo : Feed StockCallback) device {}).session?.isSome = false := by
      decide +kernel
    rw [started] at failed
    simp [Opening.session?] at failed

end Session

end PcmStream
