import PcmStream.Proofs.OwnerWrites
import PcmStream.Proofs.RoundingError

/- How much a paced device queues. A write sleeps for the playing time of what exceeds one buffer,
   but the sleep is cut to whole nanoseconds and the frames played to whole frames, and doubles are
   rounded. So the queue may hold more than a buffer when the sleep is over; here is by how much. -/
namespace PcmStream

/-- What a device may queue besides one buffer, when `written` frames have been written since it
    started: less than one frame, the frames of half a nanosecond, and what the doubles lose. -/
def Params.slack (p : Params) (written : Nat) : ℚ :=
  1 + p.sampleRate / (2 * nanosPerSecond) + written / 2 ^ 50

theorem Params.slack_pos (p : Params) (written : Nat) : 0 < p.slack written := by
  unfold slack
  positivity

namespace NullDevice

def Use.Running : Use → Prop
  | .connect _ => False
  | .disconnect => False
  | _ => True

/-- An open device that is paced, and queues little besides one buffer. -/
structure Queues (p : Params) (d : NullDevice) (now : Nat) : Prop where
  opened : d.params = some p
  paced : d.paced = true
  past : ∀ time, d.started = some time → time ≤ now
  counted : d.written < wordLimit
  bounded : d.backlog now p < p.bufferFrames + p.slack d.written

variable {d : NullDevice} {now n : Nat} {p : Params}

theorem Queues.later (h : Queues p d now) (nanos : Nat) : Queues p d (now + nanos) := by
  refine ⟨h.opened, h.paced, ?_, h.counted, ?_⟩
  · intro time started
    exact (h.past time started).trans (Nat.le_add_right now nanos)
  · have less : (d.backlog (now + nanos) p : ℚ) ≤ d.backlog now p :=
      Nat.cast_le.mpr (d.backlog_mono (Nat.le_add_right now nanos) p)
    exact less.trans_lt h.bounded

theorem Queues.empty (opened : d.params = some p) (paced : d.paced = true)
    (past : ∀ time, d.started = some time → time ≤ now) (new : d.written = 0) : Queues p d now := by
  have none : d.backlog now p = 0 := Nat.le_zero.mp (new ▸ d.backlog_le_written now p)
  refine ⟨opened, paced, past, ?_, ?_⟩
  · rw [new]
    decide
  · rw [none, Nat.cast_zero]
    exact add_pos_of_nonneg_of_pos (Nat.cast_nonneg _) (p.slack_pos _)

theorem connect_queues (paced : d.paced = true) (now : Nat) (p : Params) :
    Queues p (d.connect p).device now := by
  refine Queues.empty rfl paced ?_ rfl
  intro time started
  cases started

theorem restart_queues (h : Queues p d now) :
    Queues p (d.restart now (d.backlog now p)) now := by
  unfold restart
  split
  · refine Queues.empty h.opened h.paced ?_ rfl
    intro time started
    exact (Option.some.inj started).ge
  · exact h

theorem framesOfNanos_zero (rate : Nat) : framesOfNanos 0 rate = 0 := by
  have none : (secondsOfNanos 0).toNat = 0 := by decide +kernel
  rw [framesOfNanos_eq, none,
    playedAt_zero (Nat.zero_le _) (Binary.nearest_le_infinity _) (.inl rfl)]
  rfl

theorem restart_running (h : Queues p d now) :
    ∃ time ≤ now, (d.restart now (d.backlog now p)).started = some time ∧
      (d.restart now (d.backlog now p)).written =
        framesOfNanos (now - time) p.sampleRate + d.backlog now p := by
  unfold restart
  split
  · rename_i dry
    refine ⟨now, le_rfl, rfl, ?_⟩
    rw [dry, Nat.sub_self, framesOfNanos_zero]
  · rename_i some_left
    cases started : d.started with
    | none =>
      rw [backlog, started] at some_left
      exact absurd rfl some_left
    | some time =>
      rw [backlog, started] at some_left ⊢
      dsimp only at some_left ⊢
      exact ⟨time, h.past time started, rfl, by omega⟩

theorem pause_eq {excess : Nat} {slept : Option Nat} (made : pause excess p = .ok slept) :
    excess = 0 ∧ slept = none ∨
      ∃ nanos, slept = some nanos ∧ nanosOfFrames excess p.sampleRate = .ok nanos := by
  unfold pause at made
  split at made
  · rename_i none
    exact .inl ⟨none, (Except.ok.inj made).symm⟩
  · cases asked : nanosOfFrames excess p.sampleRate with
    | error f =>
      rw [asked] at made
      cases made
    | ok nanos =>
      rw [asked] at made
      exact .inr ⟨nanos, (Except.ok.inj made).symm, rfl⟩

theorem room_bounds {time queued : Nat} (started : d.started = some time)
    (all : d.written = framesOfNanos (now - time) p.sampleRate + queued)
    (fits : queued ≤ p.bufferFrames) : d.backlog now p < p.bufferFrames + p.slack d.written := by
  have waits : d.backlog now p = queued := by
    rw [backlog, started, all]
    exact Nat.add_sub_cancel_left _ _
  rw [waits]
  exact (Nat.cast_le.mpr fits).trans_lt (lt_add_of_pos_right _ (p.slack_pos d.written))

theorem sleep_bounds {time queued slept : Nat} (some_rate : 1 ≤ p.sampleRate)
    (rate : p.sampleRate < Config.rateLimit) (started : d.started = some time) (past : time ≤ now)
    (all : d.written = framesOfNanos (now - time) p.sampleRate + queued)
    (counted : d.written < wordLimit)
    (made : nanosOfFrames (queued - p.bufferFrames) p.sampleRate = .ok slept) :
    d.backlog (now + slept) p < p.bufferFrames + p.slack d.written := by
  have slack := p.slack_pos d.written
  have passed : now + slept - time = now - time + slept := by omega
  have few : queued - p.bufferFrames ≤ 2 ^ 64 := by
    unfold wordLimit at counted
    omega
  have short (in_word : framesOfNanos (now - time + slept) p.sampleRate < wordLimit - 1) :=
    frames_after_sleep few some_rate rate.le made in_word
  have excess : framesOfNanos (now - time) p.sampleRate + (queued - p.bufferFrames) ≤
    d.written := by omega
  have most : d.written ≤ framesOfNanos (now - time) p.sampleRate + (queued - p.bufferFrames) +
    p.bufferFrames := by omega
  rw [backlog, started]
  dsimp only
  rw [passed]
  generalize framesOfNanos (now - time + slept) p.sampleRate = after at short ⊢
  generalize framesOfNanos (now - time) p.sampleRate = before at short excess most
  generalize queued - p.bufferFrames = extra at short excess most
  rcases Nat.lt_or_ge after d.written with left | played
  · have short := short (by omega)
    have lost : ((before : ℚ) + extra) / 2 ^ 50 ≤ d.written / 2 ^ 50 := by
      gcongr
      exact_mod_cast excess
    have most : (d.written : ℚ) ≤ before + extra + p.bufferFrames := by exact_mod_cast most
    rw [Nat.cast_sub left.le]
    unfold Params.slack
    linarith
  · rw [Nat.sub_eq_zero_of_le played, Nat.cast_zero]
    exact add_pos_of_nonneg_of_pos (Nat.cast_nonneg _) slack

theorem write_queues (h : Queues p d now) (some_rate : 1 ≤ p.sampleRate)
    (rate : p.sampleRate < Config.rateLimit) (n : Nat) :
    Queues p (d.writePaced now n p).device (now + (d.writePaced now n p).slept.getD 0) := by
  have restarted := restart_queues h
  obtain ⟨time, past, started, all⟩ := restart_running h
  unfold writePaced
  dsimp only
  split
  · exact restarted
  · rename_i total sum
    obtain ⟨in_word, rfl⟩ := addWord_eq_ok_iff.mp sum
    split
    · exact restarted
    · rename_i slept paused
      split
      · exact restarted.later (slept.getD 0)
      · rename_i written grown
        obtain ⟨counted, rfl⟩ := addWord_eq_ok_iff.mp grown
        refine ⟨restarted.opened, restarted.paced, ?_, counted, ?_⟩
        · exact (restarted.later (slept.getD 0)).past
        · have all' : (d.restart now (d.backlog now p)).written + n =
              framesOfNanos (now - time) p.sampleRate + (d.backlog now p + n) := by omega
          rcases pause_eq paused with ⟨fits, rfl⟩ | ⟨nanos, rfl, made⟩
          · exact room_bounds started all' (Nat.sub_eq_zero_iff_le.mp fits)
          · exact sleep_bounds some_rate rate started past all' counted made

theorem use_queues (h : Queues p d now) (some_rate : 1 ≤ p.sampleRate)
    (rate : p.sampleRate < Config.rateLimit) {u : Use} (running : u.Running) :
    Queues p (d.use now u).1 (d.use now u).2 := by
  cases u with
  | connect requested => exact running.elim
  | disconnect => exact running.elim
  | recover => exact h
  | wait nanos => exact h.later nanos
  | write n =>
    have written : Device.write d now [] n = d.writePaced now n p := by
      change d.write now n = _
      unfold write
      rw [h.opened]
      exact if_pos h.paced
    unfold use
    dsimp only
    rw [written]
    exact write_queues h some_rate rate n

theorem uses_queue (all : List Use) (running : ∀ u ∈ all, u.Running) (some_rate : 1 ≤ p.sampleRate)
    (rate : p.sampleRate < Config.rateLimit) (h : Queues p d now) :
    Queues p (d.uses now all).1 (d.uses now all).2 := by
  induction all generalizing d now with
  | nil => exact h
  | cons u rest ih =>
    have first := use_queues h some_rate rate (running u List.mem_cons_self)
    exact ih (fun u mem => running u (List.mem_cons_of_mem _ mem)) first

/-- However an open paced device is used, its queue holds little besides one buffer. At no more
    than one frame a nanosecond, and before a run has grown immense, little is one frame. -/
theorem backlog_near_one_buffer (d : NullDevice) (p : Params) (start : Nat) (all : List Use)
    (paced : d.paced = true) (some_rate : 1 ≤ p.sampleRate)
    (rate : p.sampleRate < Config.rateLimit) (running : ∀ u ∈ all, u.Running) :
    let (d', now) := (Device.connect d start p).device.uses start all
    (d'.backlog now p : ℚ) < p.bufferFrames + p.slack d'.written ∧
      (p.sampleRate ≤ nanosPerSecond → d'.written ≤ 2 ^ 48 →
        d'.backlog now p ≤ p.bufferFrames + 1) := by
  have queues := uses_queue all running some_rate rate (connect_queues paced start p)
  rcases reached : (Device.connect d start p).device.uses start all with ⟨d', now⟩
  change (d.connect p).device.uses start all = (d', now) at reached
  rw [reached] at queues
  refine ⟨queues.bounded, ?_⟩
  intro slow young
  have per_nano : (p.sampleRate : ℚ) / (2 * nanosPerSecond) ≤ 1 / 2 := by
    have slow : (p.sampleRate : ℚ) ≤ nanosPerSecond := Nat.cast_le.mpr slow
    have second_pos := seconds_pos
    rw [div_le_iff₀ (by positivity)]
    linarith
  have lost : (d'.written : ℚ) / 2 ^ 50 ≤ 1 / 4 := by
    have young : (d'.written : ℚ) ≤ 2 ^ 48 := by exact_mod_cast young
    rw [div_le_iff₀ (by positivity)]
    linarith
  have bounded := queues.bounded
  unfold Params.slack at bounded
  have below : (d'.backlog now p : ℚ) < (p.bufferFrames + 2 : Nat) := by
    push_cast
    linarith
  exact Nat.le_of_lt_succ (Nat.cast_lt.mp below)

/-- A wait, two writes and a recovery between them at 44100 frames a second leave five frames in a
    buffer of four, the most that there may be. -/
theorem five_left_of_a_buffer_of_four :
    let p : Params := { sampleRate := 44100, channels := 1, format := .i16, bufferFrames := 4 }
    let all : List Use := [.wait 5, .write 4, .recover, .write 2]
    let (d, now) := (Device.connect ({} : NullDevice) 0 p).device.uses 0 all
    (∀ u ∈ all, u.Running) ∧ now = 45356 ∧ d.backlog now p = 5 ∧
      (d.backlog now p : ℚ) < p.bufferFrames + p.slack d.written ∧
      d.backlog now p ≤ p.bufferFrames + 1 := by
  intro p all
  have running : ∀ u ∈ all, u.Running := by simp [all, Use.Running]
  have near := backlog_near_one_buffer {} p 0 all rfl (by decide) (by decide) running
  rcases reached : (Device.connect ({} : NullDevice) 0 p).device.uses 0 all with ⟨d, now⟩
  rw [reached] at near
  have values : (Device.connect ({} : NullDevice) 0 p).device.uses 0 all =
    ({ params := some p, started := some 5, written := 6 }, 45356) := by decide +kernel
  rw [reached, Prod.mk.injEq] at values
  obtain ⟨rfl, rfl⟩ := values
  exact ⟨running, rfl, by decide +kernel, near.1, near.2 (by decide) (by decide)⟩

/-- A sleep for two frames at 44100 frames a second is cut to 45351 nanoseconds, and only one whole
    frame is played in it. A sleep for 29 frames at 100 frames a second is exact, but doubles put
    0.29 times 100 below 29. Both devices wake up with a frame more than their buffer holds. -/
theorem sleep_ends_a_frame_early :
    let p : Params := { sampleRate := 44100, channels := 1, format := .i16, bufferFrames := 4 }
    let p' : Params := { sampleRate := 100, channels := 1, format := .i16, bufferFrames := 1 }
    let (d, now) := (Device.connect ({} : NullDevice) 0 p).device.uses 0 [.write 6]
    let (d', now') := (Device.connect ({} : NullDevice) 0 p').device.uses 0 [.write 30]
    now = 45351 ∧ d.backlog now p = 5 ∧ ¬ d.backlog now p ≤ p.bufferFrames ∧
      now' = 290000000 ∧ d'.backlog now' p' = 2 ∧ ¬ d'.backlog now' p' ≤ p'.bufferFrames := by
  decide +kernel

end NullDevice

end PcmStream
