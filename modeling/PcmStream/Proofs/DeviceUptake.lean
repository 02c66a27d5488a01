import Mathlib.Data.List.Flatten
import PcmStream.Proofs.DeviceLife
import PcmStream.Proofs.StreamDelivery

/- What a device takes of a stream in packet mode. The filler hands over each buffer once, however the
   write ends, and goes on with the next; what a device refused is not offered to it again. -/
namespace PcmStream

structure Write where
  buffer : List UInt8
  outcome : Outcome Nat
  deriving DecidableEq, Repr

namespace Write

def frames (w : Write) : Nat :=
  match w.outcome with
  | .ok n => n
  | _ => 0

def taken (frameSize : Nat) (w : Write) : List UInt8 := w.buffer.take (w.frames * frameSize)

def refused (frameSize : Nat) (w : Write) : List UInt8 := w.buffer.drop (w.frames * frameSize)

end Write

def Journal.writes (j : Journal) : List Write :=
  j.calls.filterMap fun | .wrote _ bytes outcome => some ⟨bytes, outcome⟩ | _ => none

/-- The writes whose buffer is no silence for a miss, one write for each fetch. -/
def audibleWrites : List Fetch → List Write → List Write
  | f :: fetches, w :: writes =>
    (if f.missed then [] else [w]) ++ audibleWrites fetches writes
  | _, _ => []

section Lists

variable {fetches : List Fetch} {writes : List Write} {frameSize : Nat}

theorem handed_eq_writes (j : Journal) : j.handed = j.writes.map Write.buffer := by
  rw [Journal.handed, Journal.writes, List.map_filterMap]
  congr 1
  funext c
  cases c <;> rfl

theorem audible_writes : audible fetches (writes.map Write.buffer) =
    (audibleWrites fetches writes).flatMap Write.buffer := by
  induction fetches generalizing writes with
  | nil => rfl
  | cons f fetches ih =>
    cases writes with
    | nil => rfl
    | cons w writes => cases missed : f.missed <;> simp [audible, audibleWrites, missed, ih]

theorem audibleWrites_subset : audibleWrites fetches writes ⊆ writes := by
  induction fetches generalizing writes with
  | nil => simp [audibleWrites]
  | cons f fetches ih =>
    cases writes with
    | nil => simp [audibleWrites]
    | cons w writes =>
      intro v mem
      rw [audibleWrites, List.mem_append] at mem
      rcases mem with here | later
      · have same : v = w := by
          cases missed : f.missed <;> simp_all
        exact same ▸ List.mem_cons_self
      · exact List.mem_cons_of_mem w (ih later)

theorem flatMap_parts : writes.flatMap (fun w => w.taken frameSize ++ w.refused frameSize) =
    writes.flatMap Write.buffer := by
  simp [Write.taken, Write.refused]

theorem taken_sublist :
    (writes.flatMap (Write.taken frameSize)).Sublist (writes.flatMap Write.buffer) := by
  apply List.Sublist.flatMap_right
  intro w _
  exact List.take_sublist _ _

theorem taken_leads (full : ∀ w ∈ writes.dropLast, w.refused frameSize = []) :
    writes.flatMap (Write.taken frameSize) <+: writes.flatMap Write.buffer := by
  induction writes with
  | nil => simp
  | cons w writes ih =>
    cases writes with
    | nil => simpa [Write.taken] using List.take_prefix _ w.buffer
    | cons v rest =>
      rw [List.dropLast_cons_cons] at full
      -- Only the last write may refuse frames, so this one was taken whole.
      have whole : w.taken frameSize = w.buffer := by
        have split := List.take_append_drop (w.frames * frameSize) w.buffer
        have none_left := full w List.mem_cons_self
        rw [Write.refused] at none_left
        rwa [none_left, List.append_nil] at split
      have later := ih fun u mem => full u (List.mem_cons_of_mem w mem)
      rw [List.flatMap_cons, List.flatMap_cons, whole]
      exact (List.prefix_append_right_inj w.buffer).mpr later

end Lists

namespace Session

variable {δ κ : Type} [Device δ] [Callback κ]

theorem move_calls (s : Session δ κ) (m : Move) :
    ∃ more, (s.move m).2.journal.calls = s.journal.calls ++ more := by
  cases closes : m.closes with
  | false =>
    obtain ⟨got, acts, _⟩ := move_acts s closes
    obtain ⟨more, _, called⟩ := acts_uses acts
    exact ⟨more, called⟩
  | true =>
    cases m with
    | close =>
      by_cases nobody : s.holder = .nobody
      · exact ⟨[], by simp [move, close, nobody, journal]⟩
      · obtain ⟨more, _, called⟩ := close_calls nobody
        exact ⟨_, called⟩
    | _ => simp [Move.closes] at closes

theorem moves_calls (s : Session δ κ) (all : List Move) :
    ∃ more, (s.moves all).1.journal.calls = s.journal.calls ++ more := by
  induction all generalizing s with
  | nil => exact ⟨[], by simp [moves]⟩
  | cons m rest ih =>
    obtain ⟨first, called⟩ := move_calls s m
    obtain ⟨later, called'⟩ := ih (s.move m).2
    refine ⟨first ++ later, ?_⟩
    rw [moves, called', called, List.append_assoc]

theorem writes_of_feeds {config : Config} {d : δ} {around : Surroundings} {s₀ : Session δ κ}
    (started : start config .fifo d around = .session s₀) (all : List Move) :
    let size := s₀.params.bufferFrames * s₀.params.frameSize
    let s := (s₀.moves all).1
    ∃ fetches writes,
      s.journal.fetches = around.journal.fetches ++ fetches ∧
      s.journal.writes = around.journal.writes ++ writes ∧
      writes.map Write.buffer ++ s.parked = delivery size fetches (s₀.moves all).2 ∧
      hits fetches * size ≤ (s₀.moves all).2.length := by
  intro size s
  obtain ⟨l, sized, begun⟩ := start_feeds started
  have feeds : s.Feeds l around.journal (s₀.moves all).2 :=
    moves_keep (P := fun s stream => s.Feeds l around.journal stream)
      (fun _ _ m h => move_feeds h m) all begun
  obtain ⟨fetches, buffers, fetched, handed, same, account⟩ := fed_of_feeds feeds
  have lives := start_lives config (.fifo : Feed κ) d around
  rw [started] at lives
  obtain ⟨work, _, called⟩ := lives.life
  obtain ⟨more, called'⟩ := moves_calls s₀ all
  have later : ∃ writes, s.journal.writes = around.journal.writes ++ writes := by
    rw [Journal.writes, called', called, List.filterMap_append, List.filterMap_append,
      List.append_assoc]
    exact ⟨_, rfl⟩
  obtain ⟨writes, written⟩ := later
  have buffers_eq : buffers = writes.map Write.buffer := by
    have both := (handed_eq_writes s.journal).symm.trans handed
    rw [written, List.map_append, handed_eq_writes around.journal] at both
    exact (List.append_cancel_left both).symm
  have size_eq : size = l.buffer := sized
  rw [buffers_eq] at same
  rw [size_eq]
  exact ⟨fetches, writes, fetched, written, same, account.fetched⟩

/-- Whatever the device answers, each write of audio hands it the next buffer of the stream, and none
    is handed over twice. So the device has what was pushed, in order and without just those frames
    that it refused; as long as it has refused none but in the last write, that is the beginning of
    what was pushed. -/
theorem stream_goes_on_past_refusals {config : Config} {d : δ} {around : Surroundings}
    {s₀ : Session δ κ} (started : start config .fifo d around = .session s₀) (all : List Move) :
    let frame := s₀.params.frameSize
    let size := s₀.params.bufferFrames * frame
    let s := (s₀.moves all).1
    let stream := (s₀.moves all).2
    ∃ fetches writes,
      s.journal.fetches = around.journal.fetches ++ fetches ∧
      s.journal.writes = around.journal.writes ++ writes ∧
      writes.map Write.buffer ++ s.parked = delivery size fetches stream ∧
      let audio := audibleWrites fetches writes
      (∀ w ∈ audio, w.buffer.length = size) ∧
      audio.flatMap (fun w => w.taken frame ++ w.refused frame) <+: stream ∧
      (audio.flatMap (Write.taken frame)).Sublist stream ∧
      ((∀ w ∈ audio.dropLast, w.refused frame = []) →
        audio.flatMap (Write.taken frame) <+: stream) := by
  intro frame size s stream
  obtain ⟨fetches, writes, fetched, written, same, fits⟩ := writes_of_feeds started all
  have within : (audibleWrites fetches writes).flatMap Write.buffer <+: stream := by
    rw [← audible_writes]
    exact audible_delivery same
  refine ⟨fetches, writes, fetched, written, same, ?_, ?_, ?_, ?_⟩
  · intro w mem
    apply delivery_whole fits
    rw [← same]
    exact List.mem_append_left _ (List.mem_map_of_mem (audibleWrites_subset mem))
  · rw [flatMap_parts]
    exact within
  · exact taken_sublist.trans within.sublist
  · intro full
    exact (taken_leads full).trans within

/-- Two buffers pushed, and the write of the first fails. The recovery goes well, but the device is
    next handed the second buffer, and of the stream has that alone. -/
theorem refused_buffer_is_not_heard :
    let config : Config :=
      { bufferFrames := 4, packetFrames := 2, packetCount := 8, format := .i16 }
    let device : ScriptedDevice := { writes := [.full, .failed .underrun] }
    let all : List Move := [.push [1, 2, 3, 4, 5, 6, 7, 8, 9, 10, 11, 12, 13, 14, 15, 16], .run 3]
    ∃ s₀ : Session ScriptedDevice StockCallback, start config .fifo device .ahead = .session s₀ ∧
      let s := (s₀.moves all).1
      let stream := (s₀.moves all).2
      let heard := (audibleWrites s.journal.fetches s.journal.writes).flatMap
        (Write.taken s₀.params.frameSize)
      s.metrics.deviceErrors = 1 ∧ s.metrics.recoveryFailures = 0 ∧
      stream = [1, 2, 3, 4, 5, 6, 7, 8, 9, 10, 11, 12, 13, 14, 15, 16] ∧
      heard = [9, 10, 11, 12, 13, 14, 15, 16] ∧ ¬ heard <+: stream := by
  intro config device all
  let opened : Opening ScriptedDevice StockCallback := start config .fifo device .ahead
  have evaluated : opened.session?.map (fun s₀ =>
      let s := (s₀.moves all).1
      ([s.metrics.deviceErrors, s.metrics.recoveryFailures], (s₀.moves all).2,
        (audibleWrites s.journal.fetches s.journal.writes).flatMap
          (Write.taken s₀.params.frameSize))) =
      some ([1, 0], [1, 2, 3, 4, 5, 6, 7, 8, 9, 10, 11, 12, 13, 14, 15, 16],
        [9, 10, 11, 12, 13, 14, 15, 16]) := by decide +kernel
  obtain ⟨s₀, found, values⟩ := Option.map_eq_some_iff.mp evaluated
  simp only [Prod.mk.injEq, List.cons.injEq, and_true] at values
  obtain ⟨⟨errors, failures⟩, stream, heard⟩ := values
  refine ⟨s₀, Opening.eq_of_session? found, errors, failures, stream, heard, ?_⟩
  rw [stream, heard]
  decide

/-- A device that takes three frames of the first buffer of audio misses the fourth, and that alone. -/
theorem gap_of_one_frame :
    let config : Config :=
      { bufferFrames := 4, packetFrames := 2, packetCount := 8, format := .i16 }
    let device : ScriptedDevice := { writes := [.full, .short 3, .full] }
    let all : List Move := [.push [1, 2, 3, 4, 5, 6, 7, 8, 9, 10, 11, 12, 13, 14, 15, 16], .run 3]
    ∃ s₀ : Session ScriptedDevice StockCallback, start config .fifo device .ahead = .session s₀ ∧
      let s := (s₀.moves all).1
      let audio := audibleWrites s.journal.fetches s.journal.writes
      (audio.flatMap (Write.taken 2)).Sublist (s₀.moves all).2 ∧
      audio.map (Write.taken 2) = [[1, 2, 3, 4, 5, 6], [9, 10, 11, 12, 13, 14, 15, 16]] ∧
      audio.map (Write.refused 2) = [[7, 8], []] := by
  intro config device all
  let opened : Opening ScriptedDevice StockCallback := start config .fifo device .ahead
  have evaluated : opened.session?.map (fun s₀ =>
      let s := (s₀.moves all).1
      let audio := audibleWrites s.journal.fetches s.journal.writes
      (s₀.params.frameSize, audio.map (Write.taken 2), audio.map (Write.refused 2))) =
      some (2, [[1, 2, 3, 4, 5, 6], [9, 10, 11, 12, 13, 14, 15, 16]], [[7, 8], []]) := by
    decide +kernel
  obtain ⟨s₀, found, values⟩ := Option.map_eq_some_iff.mp evaluated
  simp only [Prod.mk.injEq] at values
  obtain ⟨frame, taken, refused⟩ := values
  have started := Opening.eq_of_session? found
  obtain ⟨fetches, writes, fetched, written, _, _, _, in_order, _⟩ :=
    stream_goes_on_past_refusals started all
  obtain rfl : (s₀.moves all).1.journal.fetches = fetches := fetched
  obtain rfl : (s₀.moves all).1.journal.writes = writes := written
  rw [frame] at in_order
  exact ⟨s₀, started, in_order, taken, refused⟩

end Session

end PcmStream
