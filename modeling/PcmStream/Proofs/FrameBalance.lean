import PcmStream.Proofs.DeviceCalls
import PcmStream.Proofs.PacketRoom

/- Where the frames of a session in packet mode are. The counters of pushes, writes and silences are
   moved by two threads at different places; while a buffer waits for the device, they tell together
   how many frames the packets hold. -/
namespace PcmStream

/-- The numbers that counters stand for, which do not wrap. -/
structure Tally where
  pushed : Nat
  taken : Nat
  refused : Nat
  silent : Nat
  deriving DecidableEq, Repr

def Tally.Fits (c : Tally) : Prop :=
  c.pushed < wordLimit ∧ c.taken < wordLimit ∧ c.refused < wordLimit ∧ c.silent < wordLimit

instance (c : Tally) : Decidable c.Fits := inferInstanceAs (Decidable (_ ∧ _ ∧ _ ∧ _))

namespace Metrics

structure Shows (m : Metrics) (c : Tally) : Prop where
  pushed : m.framesPushed = c.pushed % wordLimit
  taken : m.buffersWritten = c.taken % wordLimit
  refused : m.deviceErrors = c.refused % wordLimit
  silent : m.silenceBuffers = c.silent % wordLimit

theorem shows_exactly {m : Metrics} {c : Tally} (h : m.Shows c) (fits : c.Fits) :
    m.framesPushed = c.pushed ∧ m.buffersWritten = c.taken ∧ m.deviceErrors = c.refused ∧
      m.silenceBuffers = c.silent := by
  obtain ⟨pushed, taken, refused, silent⟩ := fits
  exact ⟨h.pushed.trans (Nat.mod_eq_of_lt pushed), h.taken.trans (Nat.mod_eq_of_lt taken),
    h.refused.trans (Nat.mod_eq_of_lt refused), h.silent.trans (Nat.mod_eq_of_lt silent)⟩

structure Tracks (m : Metrics) (frames : Nat) (calls : List Call) : Prop where
  pushed : m.framesPushed = frames % wordLimit
  taken : m.buffersWritten = calls.countP Call.isTaken % wordLimit
  refused : m.deviceErrors = calls.countP Call.isRefused % wordLimit

variable {m : Metrics} {frames : Nat} {calls : List Call}

theorem tracks_silence (h : m.Tracks frames calls) : m.countSilence.Tracks frames calls :=
  ⟨h.pushed, h.taken, h.refused⟩

theorem tracks_skip (h : m.Tracks frames calls) : m.countSkip.Tracks frames calls :=
  ⟨h.pushed, h.taken, h.refused⟩

theorem tracks_push (h : m.Tracks frames calls) (more : Nat) :
    (m.countPush more).Tracks (frames + more) calls :=
  ⟨by simp [countPush, bump, h.pushed], h.taken, h.refused⟩

theorem tracks_call (h : m.Tracks frames calls) (c : Call) :
    (m.follow c).Tracks frames (calls ++ [c]) := by
  have taken := h.taken
  have refused := h.refused
  cases c with
  | opened p => exact ⟨h.pushed, by simpa [Call.isTaken], by simpa [Call.isRefused]⟩
  | closed => exact ⟨h.pushed, by simpa [Call.isTaken], by simpa [Call.isRefused]⟩
  | recovered outcome =>
    cases outcome <;> exact ⟨h.pushed, by simpa [Call.isTaken], by simpa [Call.isRefused]⟩
  | wrote n bytes outcome =>
    cases outcome with
    | ok n =>
      refine ⟨h.pushed, ?_, by simpa [Call.isRefused]⟩
      simp [follow, countWrite, bump, taken, Call.isTaken]
    | failed e =>
      refine ⟨h.pushed, by simpa [Call.isTaken], ?_⟩
      simp [follow, countDeviceError, bump, refused, Call.isRefused]
    | broken f => exact ⟨h.pushed, by simpa [Call.isTaken], by simpa [Call.isRefused]⟩

theorem tracks_calls (h : m.Tracks frames calls) (more : List Call) :
    (more.foldl follow m).Tracks frames (calls ++ more) := by
  induction more generalizing m calls with
  | nil => simpa using h
  | cons c more ih =>
    have next := ih (tracks_call h c)
    simpa using next

end Metrics

section Lists

variable {calls : List Call} {fetches : List Fetch}

theorem length_handed (sane : ∀ c ∈ calls, c.isBroken = false) :
    (calls.filterMap fun | .wrote _ bytes _ => some bytes | _ => none).length =
      calls.countP Call.isTaken + calls.countP Call.isRefused := by
  induction calls with
  | nil => rfl
  | cons c calls ih =>
    have rest := ih fun c mem => sane c (List.mem_cons_of_mem _ mem)
    have first := sane c List.mem_cons_self
    cases c with
    | opened p => simpa [Call.isTaken, Call.isRefused] using rest
    | recovered outcome => simpa [Call.isTaken, Call.isRefused] using rest
    | closed => simpa [Call.isTaken, Call.isRefused] using rest
    | wrote n bytes outcome =>
      cases outcome with
      | ok n =>
        simp [List.countP_cons, Call.isTaken, Call.isRefused, rest]
        omega
      | failed e =>
        simp [List.countP_cons, Call.isTaken, Call.isRefused, rest]
        omega
      | broken f => simp [Call.isBroken] at first

theorem length_delivery (size : Nat) (stream : List UInt8) :
    (delivery size fetches stream).length = hits fetches + misses fetches := by
  induction fetches generalizing stream with
  | nil => rfl
  | cons f fetches ih =>
    cases missed : f.missed with
    | true =>
      simp [delivery, hits, misses, missed, ih]
      omega
    | false =>
      simp [delivery, hits, misses, missed, ih]
      omega

end Lists

/-- What the device was asked since `before` is counted, and nothing broke while `alive`. -/
def Shared.Noted (s : Shared) (before : Journal) (frames : Nat) (alive : Bool) : Prop :=
  ∃ calls, s.journal.calls = before.calls ++ calls ∧ s.metrics.Tracks frames calls ∧
    (alive = true → ∀ c ∈ calls, c.isBroken = false)

namespace Shared

variable {s s' : Shared} {before : Journal} {frames frames' : Nat} {alive alive' : Bool}

theorem noted_quiet (h : s.Noted before frames alive)
    (called : s'.journal.calls = s.journal.calls)
    (metrics : ∀ calls, s.metrics.Tracks frames calls → s'.metrics.Tracks frames' calls)
    (lives : alive' = true → alive = true) : s'.Noted before frames' alive' := by
  obtain ⟨calls, before_calls, tracks, sane⟩ := h
  exact ⟨calls, called.trans before_calls, metrics calls tracks, fun living => sane (lives living)⟩

theorem noted_calls (h : s.Noted before frames alive) {more : List Call} (called : s.Calls more s')
    (lives : alive' = true → alive = true)
    (sane : alive' = true → ∀ c ∈ more, c.isBroken = false) : s'.Noted before frames alive' := by
  obtain ⟨calls, before_calls, tracks, sane_before⟩ := h
  refine ⟨calls ++ more, ?_, ?_, ?_⟩
  · rw [called.calls, before_calls, List.append_assoc]
  · rw [called.metrics]
    exact Metrics.tracks_calls tracks more
  · intro living
    exact List.forall_mem_append.mpr ⟨sane_before (lives living), sane living⟩

end Shared

namespace Filler

variable {δ κ : Type} {t : Filler δ κ} {s : Shared} {before : Journal} {frames : Nat}

theorem fill_tracks [Callback κ] {calls : List Call} (h : s.metrics.Tracks frames calls) :
    (t.fill s).2.metrics.Tracks frames calls := by
  unfold fill
  split
  · split
    · exact h
    · exact h
  · split
    · unfold fillFrom
      split
      · exact h
      · dsimp only
        split
        · exact Metrics.tracks_silence h
        · exact h
    · exact h

variable [Device δ] [Callback κ]

theorem step_noted (h : s.Noted before frames t.isAlive) :
    (t.step s).2.Noted before frames (t.step s).1.isAlive := by
  cases stage : t.stage with
  | starting =>
    have alive : t.isAlive = true := by simp [isAlive, stage]
    simp only [step, stage, start]
    split
    · exact Shared.noted_quiet h rfl (fun _ tracks => tracks) (fun _ => alive)
    · exact Shared.noted_quiet h (Journal.calls_notice _ _ _) (fun _ tracks => tracks)
        (fun _ => alive)
  | checking =>
    have alive : t.isAlive = true := by simp [isAlive, stage]
    simp only [step, stage, check]
    split
    · exact Shared.noted_quiet h (Journal.calls_notice _ _ _) (fun _ tracks => tracks)
        (fun _ => alive)
    · exact Shared.noted_quiet h rfl (fun _ tracks => tracks) (fun _ => alive)
  | filling =>
    have alive : t.isAlive = true := by simp [isAlive, stage]
    simp only [step, stage]
    exact Shared.noted_quiet h (fill_calls t s) (fun _ => fill_tracks) (fun _ => alive)
  | writing =>
    have alive : t.isAlive = true := by simp [isAlive, stage]
    obtain ⟨more, called, sane⟩ := write_calls t s
    simp only [step, stage]
    exact Shared.noted_calls h called (fun _ => alive) sane
  | finished => simpa only [step, stage] using h
  | broken f => simpa only [step, stage] using h

theorem approach_noted (n : Nat) (h : s.Noted before frames t.isAlive) :
    (t.approach n s).2.Noted before frames (t.approach n s).1.isAlive :=
  approach_keeps (P := fun t s => s.Noted before frames t.isAlive) (fun _ _ => step_noted) n h

end Filler

namespace Session

variable {δ κ : Type}

def tally (s : Session δ κ) (before : Journal) (stream : List UInt8) : Tally :=
  let calls := s.journal.calls.drop before.calls.length
  let fetches := s.journal.fetches.drop before.fetches.length
  { pushed := stream.length / s.params.frameSize
    taken := calls.countP Call.isTaken
    refused := calls.countP Call.isRefused
    silent := misses fetches }

theorem tally_eq {s : Session δ κ} {before : Journal} {stream : List UInt8} {calls : List Call}
    {fetches : List Fetch} (called : s.shared.journal.calls = before.calls ++ calls)
    (fetched : s.shared.journal.fetches = before.fetches ++ fetches) :
    s.tally before stream = ⟨stream.length / s.params.frameSize, calls.countP Call.isTaken,
      calls.countP Call.isRefused, misses fetches⟩ := by
  simp [tally, journal, called, fetched]

structure Counted (s : Session δ κ) (l : Layout) (before : Journal) (stream : List UInt8) :
    Prop where
  flows : s.Flows l before stream
  noted : ∃ t, s.holder = .filler t ∧
    s.shared.Noted before (stream.length / l.frame) t.isAlive

variable {s s' : Session δ κ} {l : Layout} {before : Journal} {stream got : List UInt8}

theorem shows_tally (h : s.Counted l before stream) :
    s.metrics.Shows (s.tally before stream) := by
  obtain ⟨t, holder, calls, called, tracks, _⟩ := h.noted
  obtain ⟨fetches, buffers, fetched, _, _, account⟩ := fed_of_feeds h.flows.feeds
  rw [tally_eq called fetched, h.flows.suits.frame]
  exact ⟨tracks.pushed, tracks.taken, tracks.refused, account.silences⟩

variable [Device δ]

theorem frames_balance (h : s.Counted l before stream) (waits : s.parked ≠ []) :
    let c := s.tally before stream
    ∃ hits, c.taken + c.refused + 1 = c.silent + hits ∧
      c.pushed + s.room = s.packetCount * s.packetFrames + s.params.bufferFrames * hits := by
  obtain ⟨t, holder, calls, called, _, sane⟩ := h.noted
  have writing : t.stage = .writing := by simpa [parked, holder, Filler.parked] using waits
  obtain ⟨fetches, buffers, fetched, handed, same, account⟩ := fed_of_feeds h.flows.feeds
  obtain ⟨fetches', fetched', balance⟩ := room_balance h.flows
  obtain rfl : fetches' = fetches := List.append_cancel_left (fetched'.symm.trans fetched)
  have suits := h.flows.suits
  have made : buffers.length = calls.countP Call.isTaken + calls.countP Call.isRefused := by
    rw [← length_handed (sane (by simp [Filler.isAlive, writing]))]
    rw [Journal.handed, called, List.filterMap_append] at handed
    exact congrArg List.length (List.append_cancel_left handed).symm
  have waiting : s.parked = [t.buffer] := by simp [parked, holder, Filler.parked, writing]
  have lengths := congrArg List.length same
  rw [waiting, List.length_append, length_delivery, made, List.length_singleton] at lengths
  rw [tally_eq called fetched]
  -- Each write so far, and the one that waits, stands for one fetch: a hit or a miss.
  have writes : calls.countP Call.isTaken + calls.countP Call.isRefused + 1 =
      misses fetches' + hits fetches' := by omega
  refine ⟨hits fetches', writes, ?_⟩
  have pool : s.packetCount * s.packetFrames * l.frame = l.count * l.packet := by
    rw [← suits.packet, ← suits.count, suits.frame, Nat.mul_assoc]
  have taken : s.params.bufferFrames * hits fetches' * l.frame = hits fetches' * l.buffer := by
    rw [← suits.buffer, suits.frame, Nat.mul_right_comm, Nat.mul_comm]
  have pushed : stream.length / l.frame * l.frame = stream.length :=
    Nat.div_mul_cancel account.whole
  apply Nat.eq_of_mul_eq_mul_right l.some_frame
  rw [suits.frame, Nat.add_mul, Nat.add_mul, pool, taken, pushed]
  omega

variable [Callback κ]

theorem act_counted (h : s.Counted l before stream) (act : Act s got s') :
    s'.Counted l before (stream ++ got) := by
  refine ⟨act_flows h.flows act, ?_⟩
  obtain ⟨t, holder, noted⟩ := h.noted
  obtain ⟨q, fifo, _⟩ := h.flows.isOpen
  have frame := h.flows.suits.frame
  cases act with
  | step =>
    simp only [step, holder, List.append_nil]
    exact ⟨_, rfl, Filler.step_noted noted⟩
  | @place _ bytes frames placed enough done =>
    rw [frame] at enough ⊢
    obtain ⟨q', done', _⟩ := place_exact h.flows fifo enough
    rw [done'] at done
    cases done
    have fits : min frames s.room * l.frame ≤ bytes.length :=
      Nat.le_trans (Nat.mul_le_mul_right _ (Nat.min_le_left _ _)) enough
    rw [List.length_append, List.length_take, Nat.min_eq_left fits,
      Nat.add_mul_div_right _ _ l.some_frame]
    exact ⟨t, holder, Shared.noted_quiet noted rfl (fun _ tracks => Metrics.tracks_push tracks _)
      (fun living => living)⟩
  | fault enough done =>
    rw [frame] at enough
    obtain ⟨q', done', _⟩ := place_exact h.flows fifo enough
    rw [done'] at done
    cases done
  | skip =>
    rw [List.append_nil]
    exact ⟨t, holder, Shared.noted_quiet noted rfl (fun _ => Metrics.tracks_skip)
      (fun living => living)⟩
  | wait nanos =>
    rw [List.append_nil]
    exact ⟨t, holder, Shared.noted_quiet noted rfl (fun _ tracks => tracks) (fun living => living)⟩
  | stage staging =>
    rw [List.append_nil]
    exact ⟨t, holder, noted⟩
  | summarize =>
    rw [List.append_nil]
    simp only [summarize, holder]
    exact ⟨t, rfl, noted⟩

theorem start_counted {config : Config} {d : δ} {around : Surroundings} {s₀ : Session δ κ}
    (started : start config .fifo d around = .session s₀) :
    ∃ l : Layout, s₀.Counted l around.journal [] := by
  have opened : (Device.connectIn d config.params around.journal).2.2.calls =
      around.journal.calls ++ [.opened config.params] := by simp [Device.connectIn]
  obtain ⟨l, flows⟩ := start_flows started
  obtain ⟨d', j, p, q, n, reply, _, _, rfl⟩ := start_packets started
  rw [reply] at opened
  let t : Filler δ κ := { device := d', supply := .fifo, params := p, log := { time := j.now } }
  have waiting : Shared.Noted { fifo := some q, journal := j } around.journal 0 t.isAlive :=
    ⟨[.opened config.params], opened, ⟨rfl, rfl, rfl⟩, by simp [Call.isBroken]⟩
  have noted := Filler.approach_noted around.headStart waiting
  refine ⟨l, flows, _, rfl, ?_⟩
  simp only [List.length_nil, Nat.zero_div]
  exact Shared.noted_quiet noted (Journal.calls_notice _ _ _) (fun _ tracks => tracks)
    (fun living => living)

/-- As long as no counter has wrapped, and a buffer waits for the device: the frames that were pushed
    are those in the packets and those in the buffers that were no silence, whatever the device
    answered. -/
theorem frames_are_conserved {config : Config} {d : δ} {around : Surroundings} {s₀ : Session δ κ}
    (started : start config .fifo d around = .session s₀) {all : List Move}
    (go_on : ∀ m ∈ all, m.closes = false) (waits : (s₀.moves all).1.parked ≠ []) :
    let s := (s₀.moves all).1
    let c := s.tally around.journal (s₀.moves all).2
    let m := s.metrics
    m.Shows c ∧ (c.Fits →
      m.silenceBuffers ≤ m.buffersWritten + m.deviceErrors + 1 ∧
      (m.framesPushed : Int) = (s.packetCount * s.packetFrames - s.room) +
        s.params.bufferFrames * (m.buffersWritten + m.deviceErrors + 1 - m.silenceBuffers)) := by
  intro s c m
  obtain ⟨l, begun⟩ := start_counted started
  have counted : s.Counted l around.journal (s₀.moves all).2 :=
    (moves_acts go_on begun.flows.filler).keeps
      (P := fun s stream => s.Counted l around.journal stream)
      (fun _ _ _ _ act h => act_counted h act) begun
  have shows : m.Shows c := shows_tally counted
  refine ⟨shows, ?_⟩
  intro fits
  obtain ⟨hits, writes, balance⟩ := frames_balance counted waits
  obtain ⟨pushed, taken, refused, silent⟩ := Metrics.shows_exactly shows fits
  rw [← pushed] at balance
  rw [← taken, ← refused, ← silent] at writes
  have heard : (m.buffersWritten + m.deviceErrors + 1 - m.silenceBuffers : Int) = hits := by omega
  refine ⟨by omega, ?_⟩
  rw [heard, ← Int.natCast_mul, ← Int.natCast_mul]
  omega

/-- Six frames pushed past a device that fails its second write: four were in the buffer that it
    failed, and two are in the packets. -/
theorem six_frames_conserved :
    let config : Config :=
      { bufferFrames := 4, packetFrames := 2, packetCount := 4, format := .i16 }
    let device : ScriptedDevice := { writes := [.short 1, .failed .underrun] }
    let all : List Move :=
      [.push [1, 2, 3, 4, 5, 6, 7, 8, 9], .run 1, .push [10, 11, 12, 13], .run 1]
    let counted : Tally := { pushed := 6, taken := 1, refused := 1, silent := 2 }
    (∀ m ∈ all, m.closes = false) ∧ counted.Fits ∧
    ∃ s₀ : Session ScriptedDevice StockCallback, start config .fifo device .ahead = .session s₀ ∧
      let s := (s₀.moves all).1
      let m := s.metrics
      s.parked ≠ [] ∧ s.tally {} (s₀.moves all).2 = counted ∧ m.Shows counted ∧
      (m.framesPushed : Int) = (s.packetCount * s.packetFrames - s.room) +
        s.params.bufferFrames * (m.buffersWritten + m.deviceErrors + 1 - m.silenceBuffers) := by
  intro config device all counted
  have go_on : ∀ m ∈ all, m.closes = false := by simp [all, Move.closes]
  have fits : counted.Fits := by decide
  let opened : Opening ScriptedDevice StockCallback := start config .fifo device .ahead
  have evaluated : opened.session?.map (fun s₀ => ((s₀.moves all).1.parked,
      (s₀.moves all).1.tally {} (s₀.moves all).2)) = some ([silence 8], counted) := by
    decide +kernel
  obtain ⟨s₀, found, values⟩ := Option.map_eq_some_iff.mp evaluated
  simp only [Prod.mk.injEq] at values
  have started := Opening.eq_of_session? found
  have waits : (s₀.moves all).1.parked ≠ [] := by simp [values.1]
  obtain ⟨shows, balance⟩ := frames_are_conserved started go_on waits
  rw [Surroundings.ahead_journal, values.2] at shows balance
  exact ⟨go_on, fits, s₀, started, waits, values.2, shows, (balance fits).2⟩

end Session

end PcmStream
