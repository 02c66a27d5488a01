import PcmStream.Proofs.CallbackBuffers
import PcmStream.Proofs.PacketRoom

/- The three modes play the same audio. A session that gets all its frames by rendering brings each of
   them to the device, in packet mode through the packets and in queue mode by itself; when it renders,
   and how much at a time, makes no difference. -/
namespace PcmStream

inductive Tick (δ : Type) where
  | render
  | run (n : Nat)
  | step
  | wait (nanos : Nat)
  | change (f : δ → δ)
  | close

namespace Session

section Rendering

variable {δ κ ρ : Type} [Device δ] [Renderer ρ]

theorem pushRendered_made (s : Session δ κ) (r : ρ) (took : Nat) (some_room : s.room ≠ 0)
    (small : s.Affords r) :
    let made := Renderer.render r (resize 0 (s.room * s.params.frameSize) s.staging) s.params
    let pushed := (s.advance took).pushStaged made.out
    (s.pushRendered r took).1 = pushed.1 ∧ (s.pushRendered r took).2.2 = made.renderer ∧
      ((s.pushRendered r took).2.1 = pushed.2 ∨
        (s.pushRendered r took).2.1 = pushed.2.summarize) := by
  have size : s.measure r = .ok _ := measure_eq_ok_iff.mpr ⟨rfl, small⟩
  intro made
  simp only [pushRendered, if_neg some_room, size]
  rcases pushed : (s.advance took).pushStaged made.out with ⟨f | placed, s'⟩
  · exact ⟨rfl, rfl, .inl rfl⟩
  · exact ⟨rfl, rfl, .inr rfl⟩

variable [Callback κ]

theorem pushRendered_idle (s : Session δ κ) (r : ρ) (took : Nat)
    (idle : s.room = 0 ∨ ¬ s.Affords r) :
    (s.pushRendered r took).2.2 = r ∧ s.accepted (.pushRendered r took) = [] ∧
      (s.pushRendered r took).2.1.holder = s.holder ∧
      s.shared.Hands [] (s.pushRendered r took).2.1.shared := by
  by_cases no_room : s.room = 0
  · unfold accepted move pushRendered
    dsimp only
    rw [if_pos no_room]
    split
    · exact ⟨rfl, by simp, rfl, rfl, rfl, .refl _⟩
    · exact ⟨rfl, by simp, rfl, .refl _⟩
  · obtain ⟨f, _, refused⟩ := pushRendered_refused no_room (idle.resolve_left no_room) took
    unfold accepted move
    dsimp only
    rw [refused]
    exact ⟨rfl, rfl, rfl, .refl _⟩

def tick (s : Session δ κ) (r : ρ) : Tick δ → Session δ κ × ρ
  | .render => (s.pushRendered r 0).2
  | .run n => ((s.run n).2, r)
  | .step => (s.step, r)
  | .wait nanos => (s.advance nanos, r)
  | .change f => (s.deed (.change f), r)
  | .close => (s.close, r)

def ticks : Session δ κ → ρ → List (Tick δ) → Session δ κ × ρ
  | s, r, [] => (s, r)
  | s, r, k :: rest =>
    let (s, r) := s.tick r k
    s.ticks r rest

theorem ticks_keep {P : Session δ κ → ρ → Prop}
    (each : ∀ s r k, P s r → P (s.tick r k).1 (s.tick r k).2) (all : List (Tick δ))
    {s : Session δ κ} {r : ρ} (h : P s r) : P (s.ticks r all).1 (s.ticks r all).2 := by
  induction all generalizing s r with
  | nil => exact h
  | cons k rest ih => exact ih (each s r k h)

theorem tick_params (s : Session δ κ) (r : ρ) (k : Tick δ) : (s.tick r k).1.params = s.params := by
  cases k with
  | render => exact params_of_terms (move_terms s (.pushRendered r 0))
  | run n => exact params_of_terms (move_terms s (.run n))
  | step => exact params_of_terms (move_terms s .step)
  | wait nanos => rfl
  | change f =>
    simp only [tick, deed]
    split <;> rfl
  | close => exact params_of_terms (move_terms s .close)

end Rendering

section Packets

variable {δ κ : Type} {s : Session δ κ} {l : Layout} {before : Journal} {stream : List UInt8}

/-- The stream has come into the packets, whether the session is still open or closed. -/
def Received (s : Session δ κ) (l : Layout) (before : Journal) (stream : List UInt8) : Prop :=
  s.Flows l before stream ∨ s.holder = .nobody ∧ s.Feeds l before stream

theorem feeds_of_received (h : s.Received l before stream) : s.Feeds l before stream := by
  rcases h with flows | ⟨_, feeds⟩
  · exact flows.feeds
  · exact feeds

variable [Device δ] [Callback κ]

theorem move_received (h : s.Received l before stream) {m : Move} (none : s.accepted m = []) :
    (s.move m).2.Received l before stream := by
  have feeds := move_feeds (feeds_of_received h) m
  rw [none, List.append_nil] at feeds
  cases closes : m.closes with
  | false =>
    obtain ⟨got, acts, same⟩ := move_acts s closes
    rcases h with flows | ⟨nobody, _⟩
    · obtain ⟨t, holder⟩ := flows.filler
      rw [same (by simp [holder]), none] at acts
      exact .inl (by simpa using acts_flows acts flows)
    · exact .inr ⟨(acts_alike acts).nobody nobody, feeds⟩
  | true =>
    cases m with
    | close =>
      refine .inr ⟨?_, feeds⟩
      cases holder : s.holder <;> simp [move, close, closed, holder]
    | _ => simp [Move.closes] at closes

theorem change_received (h : s.Received l before stream) (f : δ → δ) :
    (s.deed (.change f)).Received l before stream := by
  rcases h with flows | ⟨nobody, feeds⟩
  · obtain ⟨t, holder, feeds⟩ := filler_of_flows flows
    have frame := frame_of_feeds flows.feeds
    simp only [deed, holder]
    refine .inl ⟨.running _ rfl frame ?_, flows.suits, ⟨_, rfl⟩, flows.isOpen⟩
    exact ⟨feeds.supply, feeds.buffer_size, feeds.buffer, feeds.fed⟩
  · exact .inr (by simpa [deed, nobody] using And.intro nobody feeds)

variable {ρ : Type} [Renderer ρ] {r r₀ : ρ} {p : Params} {good : ρ → Prop} {n : Nat}

theorem pushRendered_received (h : s.Received l before stream) (r : ρ) (took : Nat) :
    ((s.pushRendered r took).2.2 = r ∧ (s.pushRendered r took).2.1.Received l before stream) ∨
    ∃ m out, out.length = m * s.params.frameSize ∧
      (s.pushRendered r took).2.2 = (Renderer.render r out s.params).renderer ∧
      (s.pushRendered r took).2.1.Received l before
        (stream ++ (Renderer.render r out s.params).out) := by
  by_cases idle : s.room = 0 ∨ ¬ s.Affords r
  · obtain ⟨same, none, _⟩ := pushRendered_idle s r took idle
    exact .inl ⟨same, move_received h none⟩
  obtain ⟨some_room, affords⟩ := not_or.mp idle
  have small := Classical.not_not.mp affords
  rcases h with flows | ⟨nobody, _⟩
  · have whole : (resize 0 (s.room * s.params.frameSize) s.staging).length =
        s.room * s.params.frameSize := length_resize _ _ _
    obtain ⟨_, renderer, _⟩ := pushRendered_made s r took some_room small
    obtain ⟨t, holder⟩ := flows.filler
    obtain ⟨got, acts, same⟩ := move_acts s (m := .pushRendered r took) rfl
    have all := (pushRendered_room flows small took).1
    have taken : s.accepted (.pushRendered r took) = (Renderer.render r
        (resize 0 (s.room * s.params.frameSize) s.staging) s.params).out := by
      simp only [accepted, move, all, offered]
      apply List.take_of_length_le
      exact Nat.le_of_eq (by rw [Renderer.length_render, whole])
    rw [same (by simp [holder]), taken] at acts
    exact .inr ⟨s.room, _, whole, renderer, .inl (acts_flows acts flows)⟩
  · exact absurd (by simp [room, nobody]) some_room

/-- What has come into the packets is what `r₀` renders in `n` frames, and `r` goes on from there. -/
structure Relays (s : Session δ κ) (l : Layout) (before : Journal) (p : Params) (good : ρ → Prop)
    (r₀ r : ρ) (n : Nat) : Prop where
  params : s.params = p
  after : Renderer.After p good r₀ n r
  received : s.Received l before (Renderer.chunk r₀ p n)

theorem tick_relays (seamless : Seamless p good) (h : s.Relays l before p good r₀ r n)
    (k : Tick δ) : ∃ m, (s.tick r k).1.Relays l before p good r₀ (s.tick r k).2 m := by
  have params := (tick_params s r k).trans h.params
  have moved : ∀ {m : Move}, s.accepted m = [] →
      (s.move m).2.Received l before (Renderer.chunk r₀ p n) := move_received h.received
  cases k with
  | render =>
    rcases pushRendered_received h.received r 0 with ⟨same, received⟩ |
      ⟨m, out, sized, renderer, received⟩
    · refine ⟨n, params, ?_, received⟩
      simp only [tick, same]
      exact h.after
    · rw [h.params] at sized renderer received
      obtain ⟨after, joined⟩ := h.after.next seamless sized
      refine ⟨n + m, params, ?_, ?_⟩
      · simp only [tick, renderer]
        exact after
      · rw [joined]
        exact received
  | run m => exact ⟨n, params, h.after, moved (m := .run m) (by simp [accepted, move, offered])⟩
  | step => exact ⟨n, params, h.after, moved (m := .step) (by simp [accepted, move, offered])⟩
  | wait nanos =>
    exact ⟨n, params, h.after, moved (m := .wait nanos) (by simp [accepted, move, offered])⟩
  | change f => exact ⟨n, params, h.after, change_received h.received f⟩
  | close => exact ⟨n, params, h.after, moved (m := .close) (by simp [accepted, move, offered])⟩

theorem delivered_of_ticks {config : Config} {d : δ} {around : Surroundings} {s₀ : Session δ κ}
    (started : start config .fifo d around = .session s₀) (seamless : Seamless s₀.params good)
    (h : good r₀) (all : List (Tick δ)) :
    let size := s₀.params.bufferFrames * s₀.params.frameSize
    let s := (s₀.ticks r₀ all).1
    ∃ fetches buffers n, s.journal.fetches = around.journal.fetches ++ fetches ∧
      s.journal.handed = around.journal.handed ++ buffers ∧
      buffers ++ s.parked = delivery size fetches (Renderer.chunk r₀ s₀.params n) ∧
      ∀ m ≥ n, audible fetches (buffers ++ s.parked) <+: Renderer.chunk r₀ s₀.params m := by
  intro size s
  obtain ⟨l, flows⟩ := start_flows started
  have begun : s₀.Relays l around.journal s₀.params good r₀ r₀ 0 := by
    constructor
    · rfl
    · exact .start h
    · rw [Renderer.chunk_zero]
      exact .inl flows
  obtain ⟨n, relays⟩ := ticks_keep
    (P := fun s r => ∃ n, s.Relays l around.journal s₀.params good r₀ r n)
    (fun _ _ k ⟨_, relays⟩ => tick_relays seamless relays k) all ⟨0, begun⟩
  have feeds := feeds_of_received relays.received
  obtain ⟨fetches, buffers, fetched, handed, same, _⟩ := fed_of_feeds feeds
  have buffer_size : size = l.buffer := flows.suits.buffer
  rw [buffer_size]
  refine ⟨fetches, buffers, n, fetched, handed, same, ?_⟩
  intro m later
  have begins : audible fetches (buffers ++ s.parked) <+: Renderer.chunk r₀ s₀.params n :=
    audible_delivery (by rw [List.append_nil]; exact same)
  exact begins.trans (Renderer.chunk_leads seamless h later)

end Packets

section Queue

variable {δ κ ρ : Type} {s : Session δ κ} {r r₀ : ρ} {p : Params} {good : ρ → Prop} {n : Nat}
  {before : Journal}

theorem summarize_hands (s : Session δ κ) :
    s.summarize.holder = s.holder ∧ s.shared.Hands [] s.summarize.shared := by
  unfold summarize
  split
  · exact ⟨rfl, Shared.summarize_hands s.log .main⟩
  · exact ⟨rfl, .refl _⟩

variable [Device δ] [Renderer ρ]

theorem enqueue_hands (s : Session δ κ) (d : δ) (bytes : List UInt8) (frames : Nat) :
    (∃ d', (s.enqueue d bytes frames).2.holder = .owner d') ∧
      s.shared.Hands [bytes.take (frames * s.params.frameSize)]
        (s.enqueue d bytes frames).2.shared := by
  have tried := Device.writeIn_hands .main d (bytes.take (frames * s.params.frameSize)) frames
    s.journal
  rcases reply : Device.writeIn .main d (bytes.take (frames * s.params.frameSize)) frames
    s.journal with ⟨outcome, d', j⟩
  rw [reply] at tried
  cases outcome with
  | ok n =>
    simp only [enqueue, reply]
    exact ⟨⟨d', rfl⟩, rfl, rfl, tried⟩
  | broken f =>
    simp only [enqueue, reply]
    exact ⟨⟨d', rfl⟩, rfl, rfl, tried⟩
  | failed e =>
    have tried' := tried.trans ((Journal.hands_notice .main (.enqueueFailed e)).trans
      (Device.recoverIn_hands .main d' (j.notice .main (.enqueueFailed e))))
    rcases reply' : Device.recoverIn .main d' (j.notice .main (.enqueueFailed e)) with
      ⟨outcome', d'', j'⟩
    rw [reply'] at tried'
    cases outcome' with
    | ok _ =>
      simp only [enqueue, reply, reply']
      exact ⟨⟨d'', rfl⟩, rfl, rfl, tried'⟩
    | broken f =>
      simp only [enqueue, reply, reply']
      exact ⟨⟨d'', rfl⟩, rfl, rfl, tried'⟩
    | failed e' =>
      simp only [enqueue, reply, reply']
      exact ⟨⟨d'', rfl⟩, rfl, rfl, tried'.trans (Journal.hands_notice _ _)⟩

omit [Renderer ρ] in
theorem place_enqueues {d : δ} (holder : s.holder = .owner d) (some_room : s.room ≠ 0)
    (bytes : List UInt8) : s.place bytes s.room = s.enqueue d bytes s.room := by
  have free : Device.freeFrames d s.journal.now = s.room := by simp [room, holder]
  simp [place, holder, free, some_room]

theorem push_hands {d : δ} (holder : s.holder = .owner d) (some_room : s.room ≠ 0)
    (some_frame : 0 < s.params.frameSize) {bytes : List UInt8}
    (sized : bytes.length = s.room * s.params.frameSize) :
    (∃ d', (s.push bytes).2.holder = .owner d') ∧
      s.shared.Hands [bytes] (s.push bytes).2.shared := by
  have frames : bytes.length / s.params.frameSize = s.room := by
    rw [sized, Nat.mul_div_cancel _ some_frame]
  obtain ⟨owned, hands⟩ := enqueue_hands s d bytes s.room
  rw [← sized, List.take_length] at hands
  simp only [push, frames, if_neg some_room, place_enqueues holder some_room]
  rcases done : s.enqueue d bytes s.room with ⟨f | accepted, s'⟩
  · rw [done] at owned hands
    exact ⟨owned, hands⟩
  · rw [done] at owned hands
    exact ⟨owned, hands.fifo, hands.silences, hands.journal⟩

theorem pushStaged_hands {d : δ} (holder : s.holder = .owner d) (some_room : s.room ≠ 0)
    (some_frame : 0 < s.params.frameSize) {bytes : List UInt8}
    (sized : bytes.length = s.room * s.params.frameSize) :
    (∃ d', (s.pushStaged bytes).2.holder = .owner d') ∧
      s.shared.Hands [bytes] (s.pushStaged bytes).2.shared := by
  obtain ⟨owned, hands⟩ :=
    push_hands (s := { s with staging := [] }) holder some_room some_frame sized
  unfold pushStaged
  rcases done : push { s with staging := [] } bytes with ⟨f | accepted, s'⟩
  · rw [done] at owned hands
    exact ⟨owned, hands⟩
  · rw [done] at owned hands
    exact ⟨owned, hands⟩

theorem pushRendered_hands {d : δ} (holder : s.holder = .owner d) (some_room : s.room ≠ 0)
    (some_frame : 0 < s.params.frameSize) {r : ρ} (small : s.Affords r) :
    let out := resize 0 (s.room * s.params.frameSize) s.staging
    (s.pushRendered r 0).2.2 = (Renderer.render r out s.params).renderer ∧
      (∃ d', (s.pushRendered r 0).2.1.holder = .owner d') ∧
      s.shared.Hands [(Renderer.render r out s.params).out] (s.pushRendered r 0).2.1.shared := by
  intro out
  have whole : (Renderer.render r out s.params).out.length = s.room * s.params.frameSize := by
    rw [Renderer.length_render]
    exact length_resize _ _ _
  obtain ⟨_, renderer, after⟩ := pushRendered_made s r 0 some_room small
  obtain ⟨owned, hands⟩ := pushStaged_hands holder some_room some_frame whole
  refine ⟨renderer, ?_⟩
  rcases after with same | summarized
  · rw [same]
    exact ⟨owned, hands⟩
  · obtain ⟨kept, quiet⟩ := summarize_hands (s.pushStaged (Renderer.render r out s.params).out).2
    rw [summarized, advance_zero, kept]
    exact ⟨owned, hands.trans quiet⟩

/-- The device was handed what `r₀` renders in `n` frames, and `r` goes on from there. -/
structure Writes (s : Session δ κ) (before : Journal) (p : Params) (good : ρ → Prop) (r₀ r : ρ)
    (n : Nat) : Prop where
  params : s.params = p
  after : Renderer.After p good r₀ n r
  holder : s.holder = .nobody ∨ ∃ d, s.holder = .owner d
  written : ∃ buffers, s.journal.handed = before.handed ++ buffers ∧
    buffers.flatten = Renderer.chunk r₀ p n

variable [Callback κ]

theorem pushRendered_writes (seamless : Seamless p good) (some_frame : 0 < p.frameSize)
    (h : s.Writes before p good r₀ r n) :
    ∃ m, (s.pushRendered r 0).2.1.Writes before p good r₀ (s.pushRendered r 0).2.2 m := by
  have params := (params_of_terms (move_terms s (.pushRendered r 0))).trans h.params
  obtain ⟨buffers, handed, flattened⟩ := h.written
  by_cases idle : s.room = 0 ∨ ¬ s.Affords r
  · obtain ⟨same, _, holder, hands⟩ := pushRendered_idle s r 0 idle
    refine ⟨n, params, ?_, ?_, buffers, ?_, flattened⟩
    · rw [same]
      exact h.after
    · rw [holder]
      exact h.holder
    · rw [← handed, ← List.append_nil s.journal.handed]
      exact hands.journal.handed
  · obtain ⟨some_room, affords⟩ := not_or.mp idle
    have owned : ∃ d, s.holder = .owner d :=
      h.holder.resolve_left fun nobody => some_room (by simp [room, nobody])
    obtain ⟨d, owner⟩ := owned
    obtain ⟨renderer, held, hands⟩ :=
      pushRendered_hands owner some_room (h.params ▸ some_frame) (Classical.not_not.mp affords)
    rw [h.params] at renderer hands
    let staged := resize 0 (s.room * p.frameSize) s.staging
    have whole : staged.length = s.room * p.frameSize := length_resize _ _ _
    obtain ⟨after, joined⟩ := h.after.next seamless whole
    refine ⟨n + s.room, params, ?_, .inr held, buffers ++ [(Renderer.render r staged p).out], ?_, ?_⟩
    · rw [renderer]
      exact after
    · rw [← List.append_assoc, ← handed]
      exact hands.journal.handed
    · rw [List.flatten_append, flattened, joined, List.flatten_singleton]

theorem tick_writes (seamless : Seamless p good) (some_frame : 0 < p.frameSize)
    (h : s.Writes before p good r₀ r n) (k : Tick δ) :
    ∃ m, (s.tick r k).1.Writes before p good r₀ (s.tick r k).2 m := by
  have params := (tick_params s r k).trans h.params
  have quiet : ∀ s' : Session δ κ, s'.params = p →
      (s'.holder = .nobody ∨ ∃ d, s'.holder = .owner d) → s.journal.Hands [] s'.journal →
      s'.Writes before p good r₀ r n := by
    intro s' params holder hands
    obtain ⟨buffers, handed, flattened⟩ := h.written
    refine ⟨params, h.after, holder, buffers, ?_, flattened⟩
    rw [hands.handed, handed, List.append_nil]
  have unthreaded : ∀ t, s.holder ≠ .filler t := by
    rcases h.holder with nobody | ⟨d, owner⟩
    · simp [nobody]
    · simp [owner]
  cases k with
  | render => exact pushRendered_writes seamless some_frame h
  | run m => exact ⟨n, by simpa only [tick, run_unthreaded unthreaded m] using h⟩
  | step => exact ⟨n, by simpa only [tick, step_unthreaded unthreaded] using h⟩
  | wait nanos => exact ⟨n, quiet _ params h.holder ⟨rfl, (List.append_nil _).symm⟩⟩
  | change f =>
    refine ⟨n, quiet _ params ?_ ?_⟩
    · rcases h.holder with nobody | ⟨d, owner⟩
      · simp [tick, deed, nobody]
      · simp [tick, deed, owner]
    · simp only [tick, deed]
      split <;> exact .refl _
  | close =>
    refine ⟨n, quiet _ params ?_ ?_⟩
    · rcases h.holder with nobody | ⟨d, owner⟩
      · simp [tick, close, nobody]
      · simp [tick, close, closed, owner]
    · rcases h.holder with nobody | ⟨d, owner⟩
      · simp only [tick, close, nobody]
        exact .refl s.journal
      · simp only [tick, close, owner]
        exact (Device.disconnectIn_hands d s.journal).trans (Journal.hands_notice _ _)

theorem start_writes {config : Config} {d : δ} {around : Surroundings} {s₀ : Session δ κ}
    (started : start config .queue d around = .session s₀) (h : good r₀) :
    s₀.Writes around.journal s₀.params good r₀ r₀ 0 := by
  obtain ⟨d', j, p, s, n, reply, _, prepared, rfl⟩ := start_prepared started
  have connected := Device.connectIn_hands d config.params around.journal
  rw [reply] at connected
  cases prepared with
  | thread supplied => cases supplied
  | owner queue =>
    constructor
    · rfl
    · exact .start h
    · exact .inr ⟨d', rfl⟩
    · refine ⟨[], ?_, by rw [Renderer.chunk_zero]; rfl⟩
      exact (connected.trans (Journal.hands_notice .main n)).handed

theorem written_of_ticks {config : Config} {d : δ} {around : Surroundings} {s₀ : Session δ κ}
    (started : start config .queue d around = .session s₀) (seamless : Seamless s₀.params good)
    (h : good r₀) (all : List (Tick δ)) :
    ∃ buffers n, (s₀.ticks r₀ all).1.journal.handed = around.journal.handed ++ buffers ∧
      buffers.flatten = Renderer.chunk r₀ s₀.params n := by
  have some_frame := Params.frameSize_pos (start_usable started)
  obtain ⟨n, writes⟩ := ticks_keep
    (P := fun s r => ∃ n, s.Writes around.journal s₀.params good r₀ r n)
    (fun _ _ k ⟨_, writes⟩ => tick_writes seamless some_frame writes k) all
    ⟨0, start_writes started h⟩
  obtain ⟨buffers, handed, flattened⟩ := writes.written
  exact ⟨buffers, n, handed, flattened⟩

end Queue

/-- Let the audio of a voice be what a fresh copy of it renders at once. As callback, the voice has the
    device handed its audio buffer by buffer. Rendered into packets at any moments, it has the device
    handed its audio between silences, and what is no silence begins its audio. Rendered in queue mode
    into whatever is free, it has the device handed its audio without a gap. -/
theorem modes_play_the_same_audio {δ κ : Type} [Device δ] [Callback κ] (config : Config) (d : δ)
    (around : Surroundings) (v : Voice) :
    (∀ s₀ : Session δ Voice, start config (.callback v) d around = .session s₀ →
      v.Whole s₀.params.channels → ∀ all : List (Deed δ), ∃ buffers,
        (s₀.deeds all).journal.handed = around.journal.handed ++ buffers ∧
        ∀ k ≤ buffers.length,
          (buffers.take k).flatten = v.audio s₀.params (k * s₀.params.bufferFrames)) ∧
    (∀ s₀ : Session δ κ, start config .fifo d around = .session s₀ →
      v.Whole s₀.params.channels → ∀ all : List (Tick δ),
        let s := (s₀.ticks v all).1
        ∃ fetches buffers n, s.journal.fetches = around.journal.fetches ++ fetches ∧
          s.journal.handed = around.journal.handed ++ buffers ∧
          buffers ++ s.parked = delivery (s₀.params.bufferFrames * s₀.params.frameSize) fetches
            (v.audio s₀.params n) ∧
          ∀ m ≥ n, audible fetches (buffers ++ s.parked) <+: v.audio s₀.params m) ∧
    (∀ s₀ : Session δ κ, start config .queue d around = .session s₀ →
      v.Whole s₀.params.channels → ∀ all : List (Tick δ), ∃ buffers,
        (s₀.ticks v all).1.journal.handed = around.journal.handed ++ buffers ∧
        buffers.flatten =
          v.audio s₀.params (buffers.flatten.length / s₀.params.frameSize)) := by
  refine ⟨?_, ?_, ?_⟩
  · intro s₀ started whole all
    have some_channel := (start_usable started).channels
    simp only [Voice.audio_eq some_channel whole]
    exact handed_of_callback started (Voice.seamless some_channel) whole all
  · intro s₀ started whole all
    have some_channel := (start_usable started).channels
    simp only [Voice.audio_eq some_channel whole]
    exact delivered_of_ticks started (Voice.seamless some_channel) whole all
  · intro s₀ started whole all
    have usable := start_usable started
    obtain ⟨buffers, n, handed, flattened⟩ :=
      written_of_ticks started (Voice.seamless usable.channels) whole all
    have frames : buffers.flatten.length / s₀.params.frameSize = n := by
      rw [flattened, Renderer.length_chunk, Nat.mul_div_cancel _ (Params.frameSize_pos usable)]
    refine ⟨buffers, handed, ?_⟩
    rw [frames, Voice.audio_eq usable.channels whole, flattened]

/-- A loop of three frames on a device that refuses some of them. The buffers have four frames; the
    packets hold eight, and in queue mode there is room for three frames and then for five. -/
theorem one_loop_in_three_modes :
    let config : Config :=
      { bufferFrames := 4, packetFrames := 2, packetCount := 4, format := .i16 }
    let device : ScriptedDevice := { free := 3, writes := [.short 1, .failed .underrun] }
    let v : Voice := .int16 { producer := .clip { data := [1, 2, 3], looping := true } }
    let packets : List (Tick ScriptedDevice) := [.render, .run 2, .wait 5, .render, .run 1]
    let queue : List (Tick ScriptedDevice) :=
      [.render, .change fun d => { d with free := 5 }, .render]
    (∃ s₀ : Session ScriptedDevice Voice, start config (.callback v) device .ahead = .session s₀ ∧
      v.Whole s₀.params.channels ∧
      let s := s₀.deeds [.move (.run 2)]
      s.journal.handed = [[1, 0, 2, 0, 3, 0, 1, 0], [2, 0, 3, 0, 1, 0, 2, 0]] ∧
      s.journal.handed.flatten = v.audio s₀.params 8) ∧
    (∃ s₀ : Session ScriptedDevice StockCallback, start config .fifo device .ahead = .session s₀ ∧
      v.Whole s₀.params.channels ∧
      let s := (s₀.ticks v packets).1
      s.journal.handed =
        [silence 8, [1, 0, 2, 0, 3, 0, 1, 0], [2, 0, 3, 0, 1, 0, 2, 0]] ∧
      ∃ n, ∀ m ≥ n,
        audible s.journal.fetches (s.journal.handed ++ s.parked) <+: v.audio s₀.params m) ∧
    (∃ s₀ : Session ScriptedDevice StockCallback, start config .queue device .ahead = .session s₀ ∧
      v.Whole s₀.params.channels ∧
      let s := (s₀.ticks v queue).1
      s.journal.handed = [[1, 0, 2, 0, 3, 0], [1, 0, 2, 0, 3, 0, 1, 0, 2, 0]] ∧
      s.journal.handed.flatten = v.audio s₀.params 8) := by
  intro config device v packets queue
  have whole : ∀ channels, v.Whole channels := Nat.dvd_zero
  obtain ⟨played, relayed, written⟩ :=
    modes_play_the_same_audio (κ := StockCallback) config device .ahead v
  refine ⟨?_, ?_, ?_⟩
  · let opened : Opening ScriptedDevice Voice := start config (.callback v) device .ahead
    have evaluated : opened.session?.map (fun s₀ => (s₀.params.bufferFrames,
        (s₀.deeds [.move (.run 2)]).journal.handed)) =
        some (4, [[1, 0, 2, 0, 3, 0, 1, 0], [2, 0, 3, 0, 1, 0, 2, 0]]) := by decide +kernel
    obtain ⟨s₀, found, values⟩ := Option.map_eq_some_iff.mp evaluated
    simp only [Prod.mk.injEq] at values
    have started := Opening.eq_of_session? found
    refine ⟨s₀, started, whole _, values.2, ?_⟩
    obtain ⟨buffers, handed, chunks⟩ := played s₀ started (whole _) [.move (.run 2)]
    obtain rfl : (s₀.deeds [.move (.run 2)]).journal.handed = buffers := handed
    rw [← List.take_length (l := Journal.handed _), chunks _ (Nat.le_refl _), values.2, values.1]
    rfl
  · let opened : Opening ScriptedDevice StockCallback := start config .fifo device .ahead
    have evaluated : opened.session?.map (fun s₀ => (s₀.ticks v packets).1.journal.handed) =
        some [silence 8, [1, 0, 2, 0, 3, 0, 1, 0], [2, 0, 3, 0, 1, 0, 2, 0]] := by decide +kernel
    obtain ⟨s₀, found, values⟩ := Option.map_eq_some_iff.mp evaluated
    have started := Opening.eq_of_session? found
    refine ⟨s₀, started, whole _, values, ?_⟩
    obtain ⟨fetches, buffers, n, fetched, handed, _, begins⟩ :=
      relayed s₀ started (whole _) packets
    obtain rfl : (s₀.ticks v packets).1.journal.handed = buffers := handed
    obtain rfl : (s₀.ticks v packets).1.journal.fetches = fetches := fetched
    exact ⟨n, begins⟩
  · let opened : Opening ScriptedDevice StockCallback := start config .queue device .ahead
    have evaluated : opened.session?.map (fun s₀ => (s₀.params.frameSize,
        (s₀.ticks v queue).1.journal.handed)) =
        some (2, [[1, 0, 2, 0, 3, 0], [1, 0, 2, 0, 3, 0, 1, 0, 2, 0]]) := by decide +kernel
    obtain ⟨s₀, found, values⟩ := Option.map_eq_some_iff.mp evaluated
    simp only [Prod.mk.injEq] at values
    have started := Opening.eq_of_session? found
    refine ⟨s₀, started, whole _, values.2, ?_⟩
    obtain ⟨buffers, handed, flattened⟩ := written s₀ started (whole _) queue
    obtain rfl : (s₀.ticks v queue).1.journal.handed = buffers := handed
    rw [flattened, values.2, values.1]
    rfl

end Session

end PcmStream
