import PcmStream.Device.Null
import PcmStream.Proofs.DeviceUptake
import PcmStream.Proofs.FaithfulCounters
import PcmStream.Proofs.TimeConversion

/- What an owner writes while it holds the device. It asks for no more frames than the device has
   room for, so a device that keeps its promise does not make it wait. The device without output
   keeps it: its backlog only shrinks as time goes by, and a write that fits beside it finds no
   excess. -/
namespace PcmStream

namespace NullDevice

inductive Use where
  | connect (requested : Params)
  | write (frames : Nat)
  | recover
  | disconnect
  | wait (nanos : Nat)
  deriving DecidableEq, Repr

def Use.frames : Use → Nat
  | .write frames => frames
  | _ => 0

def Use.Quiet : Use → Prop
  | .recover => True
  | .wait _ => True
  | _ => False

def use (d : NullDevice) (now : Nat) : Use → NullDevice × Nat
  | .connect requested => ((Device.connect d now requested).device, now)
  | .write frames =>
    let r := Device.write d now [] frames
    (r.device, now + r.slept.getD 0)
  | .recover => ((Device.recover d now).device, now)
  | .disconnect => ((Device.disconnect d now).device, now)
  | .wait nanos => (d, now + nanos)

def uses (d : NullDevice) (now : Nat) (all : List Use) : NullDevice × Nat :=
  all.foldl (fun (d, now) u => d.use now u) (d, now)

def framesOf (all : List Use) : Nat := (all.map Use.frames).sum

variable {d : NullDevice} {now now' n : Nat} {p : Params}

theorem backlog_le_written (d : NullDevice) (now : Nat) (p : Params) :
    d.backlog now p ≤ d.written := by
  unfold backlog
  split
  · exact Nat.zero_le _
  · exact Nat.sub_le _ _

theorem backlog_mono (d : NullDevice) (later : now ≤ now') (p : Params) :
    d.backlog now' p ≤ d.backlog now p := by
  unfold backlog
  split
  · exact le_rfl
  · rename_i time _
    exact Nat.sub_le_sub_left
      (framesOfNanos_mono (Nat.sub_le_sub_right later time) p.sampleRate) d.written

theorem restart_written (d : NullDevice) (now backlog : Nat) :
    (d.restart now backlog).written ≤ d.written := by
  unfold restart
  split
  · exact Nat.zero_le _
  · exact le_rfl

theorem writePaced_written (d : NullDevice) (now n : Nat) (p : Params) :
    (d.writePaced now n p).device.written ≤ d.written + n := by
  have restarted := d.restart_written now (d.backlog now p)
  unfold writePaced
  dsimp only
  split
  · exact Nat.le_add_right_of_le restarted
  · split
    · exact Nat.le_add_right_of_le restarted
    · split
      · exact Nat.le_add_right_of_le restarted
      · rename_i written sum
        obtain ⟨_, rfl⟩ := addWord_eq_ok_iff.mp sum
        exact Nat.add_le_add_right restarted n

theorem write_written (d : NullDevice) (now n : Nat) :
    (d.write now n).device.written ≤ d.written + n := by
  unfold write
  split
  · exact Nat.le_add_right _ _
  · split
    · exact writePaced_written d now n _
    · exact Nat.le_add_right _ _

theorem use_written (d : NullDevice) (now : Nat) (u : Use) :
    (d.use now u).1.written ≤ d.written + u.frames := by
  cases u with
  | connect requested => exact Nat.zero_le _
  | write n => exact write_written d now n
  | recover => exact le_rfl
  | disconnect => exact le_rfl
  | wait nanos => exact le_rfl

theorem uses_written (all : List Use) (d : NullDevice) (now : Nat) :
    (d.uses now all).1.written ≤ d.written + framesOf all := by
  induction all generalizing d now with
  | nil => exact le_rfl
  | cons u rest ih =>
    have first := use_written d now u
    have later := ih (d.use now u).1 (d.use now u).2
    have sum : framesOf (u :: rest) = u.frames + framesOf rest := List.sum_cons
    rw [sum]
    calc (d.uses now (u :: rest)).1.written
        ≤ (d.use now u).1.written + framesOf rest := later
      _ ≤ d.written + (u.frames + framesOf rest) := by omega

theorem uses_quiet (between : List Use) (quiet : ∀ u ∈ between, u.Quiet) (d : NullDevice)
    (now : Nat) : (d.uses now between).1 = d ∧ now ≤ (d.uses now between).2 := by
  induction between generalizing now with
  | nil => exact ⟨rfl, le_rfl⟩
  | cons u rest ih =>
    have rest_quiet : ∀ u ∈ rest, u.Quiet := fun u mem => quiet u (List.mem_cons_of_mem _ mem)
    have first_quiet := quiet u List.mem_cons_self
    cases u with
    | recover => exact ih rest_quiet now
    | wait nanos =>
      obtain ⟨same, later⟩ := ih rest_quiet (now + nanos)
      exact ⟨same, (Nat.le_add_right now nanos).trans later⟩
    | connect requested => exact first_quiet.elim
    | write n => exact first_quiet.elim
    | disconnect => exact first_quiet.elim

theorem write_prompt (positive : 1 ≤ n) (room : n ≤ d.freeFrames now) (later : now ≤ now')
    (fits : d.written + n < wordLimit) :
    ∃ d', d.write now' n = { outcome := .ok n, device := d' } := by
  unfold freeFrames at room
  unfold write
  cases params : d.params with
  | none =>
    rw [params] at room
    exact absurd (positive.trans room) (Nat.not_succ_le_zero 0)
  | some p =>
    rw [params] at room
    dsimp only at room ⊢
    split
    · rename_i paced
      rw [if_pos paced] at room
      -- What waits has only shrunk since the look, so nothing exceeds the buffer.
      have shrunk := d.backlog_mono later p
      have within := d.backlog_le_written now' p
      have restarted := d.restart_written now' (d.backlog now' p)
      have total := addWord_eq_ok_iff.mpr ⟨(by omega : d.backlog now' p + n < wordLimit), rfl⟩
      have sum := addWord_eq_ok_iff.mpr
        ⟨(by omega : (d.restart now' (d.backlog now' p)).written + n < wordLimit), rfl⟩
      have no_excess : d.backlog now' p + n - p.bufferFrames = 0 := by omega
      unfold writePaced
      dsimp only
      rw [total]
      dsimp only
      rw [no_excess, pause, if_pos rfl]
      dsimp only
      rw [sum]
      exact ⟨_, rfl⟩
    · exact ⟨d, rfl⟩

end NullDevice

def Call.frames : Call → Nat
  | .wrote frames _ _ => frames
  | _ => 0

def Journal.brought (j : Journal) : Nat := (j.calls.map Call.frames).sum

namespace Session

variable {δ κ : Type} [Device δ]

/-- What an owner may ask of its device for bytes that are offered: nothing, or one write of the
    first frames of them, at least one and no more than the device has free, and a recovery after
    it. -/
inductive Asks (s : Session δ κ) (offered : List UInt8) : List Call → Prop where
  | nothing : Asks s offered []
  | write {d : δ} {n : Nat} {outcome : Outcome Nat} {after : List Call}
      (holder : s.holder = .owner d) (positive : 1 ≤ n)
      (count : n = min (offered.length / s.params.frameSize) (Device.freeFrames d s.journal.now))
      (recovery : after = [] ∨ ∃ e, outcome = .failed e ∧ ∃ answer, after = [.recovered answer]) :
      Asks s offered (.wrote n (offered.take (n * s.params.frameSize)) outcome :: after)

/-- How a write of the owner ends: what the device answers, what it is asked after that, and how
    many frames the owner counts as accepted. -/
inductive Sent : Outcome Nat → List Call → Except Fault Nat → Prop where
  | taken (n : Nat) : Sent (.ok n) [] (.ok n)
  | recovered {e : DeviceError} {answer : Outcome Unit} (alive : ∀ f, answer ≠ .broken f) :
      Sent (.failed e) [.recovered answer] (.ok 0)
  | lost (e : DeviceError) (f : Fault) : Sent (.failed e) [.recovered (.broken f)] (.error f)
  | broken (f : Fault) : Sent (.broken f) [] (.error f)

theorem enqueue_sends (s : Session δ κ) (d : δ) (bytes : List UInt8) (n : Nat) :
    ∃ outcome after, (s.enqueue d bytes n).2.journal.calls = s.journal.calls ++
        .wrote n (bytes.take (n * s.params.frameSize)) outcome :: after ∧
      Sent outcome after (s.enqueue d bytes n).1 := by
  have tried := Device.writeIn_calls .main d (bytes.take (n * s.params.frameSize)) n s.journal
  rcases reply : Device.writeIn .main d (bytes.take (n * s.params.frameSize)) n s.journal with
    ⟨outcome, d', j⟩
  rw [reply] at tried
  refine ⟨outcome, ?_⟩
  cases outcome with
  | ok taken =>
    simp only [enqueue, reply]
    exact ⟨[], tried, .taken taken⟩
  | broken f =>
    simp only [enqueue, reply]
    exact ⟨[], tried, .broken f⟩
  | failed e =>
    have tried' := Device.recoverIn_calls .main d' (j.notice .main (.enqueueFailed e))
    rcases reply' : Device.recoverIn .main d' (j.notice .main (.enqueueFailed e)) with
      ⟨answer, d'', j'⟩
    rw [reply', Journal.calls_notice, tried, List.append_assoc] at tried'
    refine ⟨[.recovered answer], ?_⟩
    cases answer with
    | ok _ =>
      simp only [enqueue, reply, reply']
      exact ⟨tried', .recovered (by simp)⟩
    | broken f =>
      simp only [enqueue, reply, reply']
      exact ⟨tried', .lost e f⟩
    | failed e' =>
      simp only [enqueue, reply, reply']
      exact ⟨(Journal.calls_notice _ _ _).trans tried', .recovered (by simp)⟩

theorem enqueue_asks (s : Session δ κ) (d : δ) (bytes : List UInt8) (n : Nat) :
    ∃ outcome after, (s.enqueue d bytes n).2.journal.calls = s.journal.calls ++
        .wrote n (bytes.take (n * s.params.frameSize)) outcome :: after ∧
      (after = [] ∨ ∃ e, outcome = .failed e ∧ ∃ answer, after = [.recovered answer]) := by
  obtain ⟨outcome, after, called, sent⟩ := enqueue_sends s d bytes n
  refine ⟨outcome, after, called, ?_⟩
  generalize (s.enqueue d bytes n).1 = result at sent
  cases sent with
  | taken => exact .inl rfl
  | broken => exact .inl rfl
  | recovered => exact .inr ⟨_, rfl, _, rfl⟩
  | lost => exact .inr ⟨_, rfl, _, rfl⟩

variable {s : Session δ κ} {offered : List UInt8}

theorem place_asks (unthreaded : ∀ t, s.holder ≠ .filler t) (bytes : List UInt8) :
    ∃ calls, (s.place bytes (bytes.length / s.params.frameSize)).2.journal.calls =
        s.journal.calls ++ calls ∧ s.Asks bytes calls := by
  have still : ∃ calls, s.journal.calls = s.journal.calls ++ calls ∧ s.Asks bytes calls :=
    ⟨[], (List.append_nil _).symm, .nothing⟩
  unfold place
  split
  · rename_i t holder
    exact absurd holder (unthreaded t)
  · rename_i d holder
    dsimp only
    split
    · exact still
    · rename_i some_room
      obtain ⟨outcome, after, called, recovery⟩ := enqueue_asks s d bytes
        (min (bytes.length / s.params.frameSize) (Device.freeFrames d s.journal.now))
      exact ⟨_, called, .write holder (Nat.pos_of_ne_zero some_room) rfl recovery⟩
  · exact still

theorem push_asks (unthreaded : ∀ t, s.holder ≠ .filler t) (bytes : List UInt8) :
    ∃ calls, (s.push bytes).2.journal.calls = s.journal.calls ++ calls ∧ s.Asks bytes calls := by
  have placing := place_asks unthreaded bytes
  unfold push
  dsimp only
  split
  · exact ⟨[], (List.append_nil _).symm, .nothing⟩
  · rcases done : s.place bytes (bytes.length / s.params.frameSize) with ⟨f | accepted, s'⟩
    · rw [done] at placing
      exact placing
    · rw [done] at placing
      exact placing

theorem pushStaged_asks (unthreaded : ∀ t, s.holder ≠ .filler t) (bytes : List UInt8) :
    ∃ calls, (s.pushStaged bytes).2.journal.calls = s.journal.calls ++ calls ∧
      s.Asks bytes calls := by
  obtain ⟨calls, called, asks⟩ := push_asks (s := { s with staging := [] }) unthreaded bytes
  refine ⟨calls, ?_, ?_⟩
  · unfold pushStaged
    split
    · rename_i accepted s' done
      rw [done] at called
      exact called
    · rename_i f s' done
      rw [done] at called
      exact called
  · cases asks with
    | nothing => exact .nothing
    | write holder positive count recovery => exact .write holder positive count recovery

theorem Asks.of_whole {σ : Type} {f : σ → List UInt8} {samples : List σ} {calls : List Call}
    (sized : ∀ x, (f x).length = s.params.format.width)
    (asks : s.Asks
      ((samples.take (samples.length / s.params.channels * s.params.channels)).flatMap f)
      calls) : s.Asks (samples.flatMap f) calls := by
  have width_pos := s.params.format.width_pos
  have length (xs : List σ) : (xs.flatMap f).length = xs.length * s.params.format.width :=
    Fifo.length_flatMap_eq xs fun x _ => sized x
  have cut := Nat.div_mul_le_self samples.length s.params.channels
  have whole : ((samples.take (samples.length / s.params.channels * s.params.channels)).flatMap
      f).length / s.params.frameSize = (samples.flatMap f).length / s.params.frameSize := by
    rw [length, length, List.length_take, Nat.min_eq_left cut, Params.frameSize,
      Nat.mul_div_mul_right _ _ width_pos, Nat.mul_div_mul_right _ _ width_pos]
    rcases Nat.eq_zero_or_pos s.params.channels with none | some
    · rw [none, Nat.div_zero, Nat.div_zero]
    · exact Nat.mul_div_cancel _ some
  cases asks with
  | nothing => exact .nothing
  | @write _ n _ _ holder positive count recovery =>
    have fits : n * s.params.frameSize ≤ ((samples.take
        (samples.length / s.params.channels * s.params.channels)).flatMap f).length :=
      calc n * s.params.frameSize ≤ _ / s.params.frameSize * s.params.frameSize :=
            Nat.mul_le_mul_right _ (count ▸ Nat.min_le_left _ _)
        _ ≤ _ := Nat.div_mul_le_self _ _
    rw [take_flatMap_take f samples _ _ fits]
    exact .write holder positive (whole ▸ count) recovery

theorem pushTyped_asks (unthreaded : ∀ t, s.holder ≠ .filler t) {σ : Type} [Sample σ]
    (samples : List σ) :
    ∃ calls, (s.pushTyped samples).2.journal.calls = s.journal.calls ++ calls ∧
      s.Asks (s.offered (.pushTyped samples)) calls := by
  unfold pushTyped offered
  dsimp only
  split
  · rename_i same
    obtain ⟨calls, called, asks⟩ := push_asks unthreaded
      ((samples.take (samples.length / s.params.channels * s.params.channels)).flatMap Sample.bytes)
    exact ⟨calls, called, asks.of_whole fun x => same ▸ Sample.length_bytes x⟩
  · rw [convert_all _ _ _ (length_resize 0 _ s.staging)]
    obtain ⟨calls, called, asks⟩ := pushStaged_asks unthreaded
      ((samples.take (samples.length / s.params.channels * s.params.channels)).flatMap
        (convertSample s.params.format Single.one))
    exact ⟨calls, called, asks.of_whole (length_convertSample s.params.format Single.one)⟩

omit [Device δ] in
theorem summarize_journal (s : Session δ κ) : s.summarize.journal.calls = s.journal.calls := by
  unfold summarize
  split
  · have quiet := (Shared.summarize_calls (s := s.shared) s.log .main).calls
    rwa [List.append_nil] at quiet
  · rfl

theorem pushRendered_asks (unthreaded : ∀ t, s.holder ≠ .filler t) {ρ : Type} [Renderer ρ]
    (r : ρ) (took : Nat) :
    ∃ calls, (s.pushRendered r took).2.1.journal.calls = s.journal.calls ++ calls ∧
      (s.advance took).Asks (s.offered (.pushRendered r took)) calls := by
  have still : ∃ calls, s.journal.calls = s.journal.calls ++ calls ∧
      (s.advance took).Asks (s.offered (.pushRendered r took)) calls :=
    ⟨[], (List.append_nil _).symm, .nothing⟩
  unfold pushRendered
  dsimp only
  split
  · split
    · exact still
    · exact still
  · split
    · exact still
    · rename_i size measured
      obtain ⟨rfl, _⟩ := measure_eq_ok_iff.mp measured
      obtain ⟨calls, called, asks⟩ := pushStaged_asks (s := s.advance took) unthreaded
        (s.offered (.pushRendered r took))
      refine ⟨calls, ?_, asks⟩
      unfold offered at called
      dsimp only at called
      split
      · rename_i f s' done
        rw [done] at called
        exact called
      · rename_i pushed s' done
        rw [done] at called
        exact (summarize_journal s').trans called

theorem pushRendered_skips {d : δ} (holder : s.holder = .owner d) (queue : s.mode = .queue)
    (full : Device.freeFrames d s.journal.now = 0) {ρ : Type} [Renderer ρ] (r : ρ) (took : Nat) :
    s.pushRendered r took = (.ok 0, s.withMetrics s.metrics.countSkip, r) := by
  have no_room : s.room = 0 := by rwa [room, holder]
  have counted : s.mode ≠ .callback ∧ s.isRunning = true := by simp [isRunning, holder, queue]
  unfold pushRendered
  dsimp only
  rw [if_pos no_room, if_pos counted]

/-- The session as a move places what it offers: what is rendered comes only after it. -/
def atPlacing (s : Session δ κ) : Move → Session δ κ
  | @Move.pushRendered _ _ _ took => s.advance took
  | _ => s

variable [Callback κ]

theorem move_asks (unthreaded : ∀ t, s.holder ≠ .filler t) {m : Move} (goes_on : m.closes = false) :
    ∃ calls, (s.move m).2.journal.calls = s.journal.calls ++ calls ∧
      (s.atPlacing m).Asks (s.offered m) calls := by
  have still : ∃ calls, s.journal.calls = s.journal.calls ++ calls ∧
      (s.atPlacing m).Asks (s.offered m) calls :=
    ⟨[], (List.append_nil _).symm, .nothing⟩
  cases m with
  | push bytes => exact push_asks unthreaded bytes
  | pushTyped samples => exact pushTyped_asks unthreaded samples
  | pushRendered r took => exact pushRendered_asks unthreaded r took
  | run n =>
    simp only [move, run_unthreaded unthreaded]
    exact still
  | step =>
    simp only [move, step_unthreaded unthreaded]
    exact still
  | wait nanos => exact still
  | close => simp [Move.closes] at goes_on

end Session

namespace Journal

theorem brought_append {j j' : Journal} {more : List Call} (called : j'.calls = j.calls ++ more) :
    j'.brought = j.brought + (more.map Call.frames).sum := by
  rw [brought, brought, called, List.map_append, List.sum_append]

def Awake (j j' : Journal) : Prop :=
  ∃ more, j'.events = j.events ++ more ∧ ∀ nanos, .sleep nanos ∉ more

theorem Awake.refl (j : Journal) : j.Awake j := ⟨[], (List.append_nil _).symm, by simp⟩

theorem Awake.trans {a b c : Journal} (h : a.Awake b) (h' : b.Awake c) : a.Awake c := by
  obtain ⟨more, events, none⟩ := h
  obtain ⟨more', events', none'⟩ := h'
  refine ⟨more ++ more', by rw [events', events, List.append_assoc], ?_⟩
  intro nanos mem
  rcases List.mem_append.mp mem with first | later
  · exact none nanos first
  · exact none' nanos later

theorem awake_call (j : Journal) (c : Call) : j.Awake (j.call c) :=
  ⟨[.call c], j.events_call c, by simp⟩

theorem awake_notice (j : Journal) (thread : Thread) (n : Notice) :
    j.Awake (j.notice thread n) :=
  ⟨[.notice thread n], j.events_notice thread n, by simp⟩

end Journal

namespace Session

section Prompt

variable {κ : Type} {s s' : Session NullDevice κ} {d : NullDevice} {n : Nat} {before : Journal}

theorem enqueue_prompt {earlier : Nat} (bytes : List UInt8) (positive : 1 ≤ n)
    (room : n ≤ d.freeFrames earlier) (later : earlier ≤ s.journal.now)
    (fits : d.written + n < wordLimit) :
    ∃ d' metrics, s.enqueue d bytes n = (.ok n,
      { s with
        holder := .owner d'
        shared := { s.shared with
          metrics
          journal := s.journal.call (.wrote n (bytes.take (n * s.params.frameSize)) (.ok n)) } }) ∧
      d'.written ≤ d.written + n := by
  obtain ⟨d', wrote⟩ := NullDevice.write_prompt positive room later fits
  have bound := d.write_written s.journal.now n
  rw [wrote] at bound
  have reply : Device.write d s.journal.now (bytes.take (n * s.params.frameSize)) n =
      { outcome := .ok n, device := d' } := wrote
  refine ⟨d', s.metrics.countWrite n, ?_, bound⟩
  simp only [enqueue, Device.writeIn, reply]
  rfl

/-- Since `before` nobody slept, and the device has written no more than it was brought. -/
structure Prompt (before : Journal) (s : Session NullDevice κ) : Prop where
  unthreaded : ∀ t, s.holder ≠ .filler t
  written : ∀ d, s.holder = .owner d → before.brought + d.written ≤ s.journal.brought
  awake : before.Awake s.journal

theorem Prompt.same (h : s.Prompt before) (holder : s'.holder = s.holder)
    (calls : s'.journal.calls = s.journal.calls) (awake : s.journal.Awake s'.journal) :
    s'.Prompt before := by
  have brought : s'.journal.brought = s.journal.brought := by
    rw [Journal.brought, Journal.brought, calls]
  constructor
  · rw [holder]
    exact h.unthreaded
  · rw [holder, brought]
    exact h.written
  · exact h.awake.trans awake

theorem place_prompt (h : s.Prompt before) (bytes : List UInt8) (frames : Nat)
    (few : (s.place bytes frames).2.journal.brought < before.brought + wordLimit) :
    (s.place bytes frames).2.Prompt before := by
  unfold place at few ⊢
  split at few
  · rename_i t holder
    exact absurd holder (h.unthreaded t)
  · rename_i d holder
    dsimp only at few ⊢
    split at few
    · rename_i none_free
      rw [if_pos none_free]
      exact h
    · rename_i some_room
      rw [if_neg some_room]
      generalize count : min frames (Device.freeFrames d s.journal.now) = n at *
      obtain ⟨outcome, after, called, _⟩ := enqueue_asks s d bytes n
      have brought := Journal.brought_append called
      rw [List.map_cons, List.sum_cons, Call.frames] at brought
      have written := h.written d holder
      have room : n ≤ d.freeFrames s.journal.now := count ▸ Nat.min_le_right _ _
      obtain ⟨d', metrics, done, written'⟩ := enqueue_prompt bytes (Nat.pos_of_ne_zero some_room)
        room le_rfl (by omega)
      rw [done] at brought ⊢
      constructor
      · simp
      · intro d'' same
        obtain rfl := Holder.owner.inj same
        omega
      · exact h.awake.trans (s.journal.awake_call _)
  · exact h

theorem summarize_awake (shared : Shared) (log : SummaryLog) (thread : Thread) :
    shared.journal.Awake (shared.summarize log thread).2.journal := by
  unfold Shared.summarize
  split
  · exact .refl _
  · exact shared.journal.awake_notice _ _

theorem summarize_prompt (h : s.Prompt before) : s.summarize.Prompt before := by
  have calls := summarize_journal s
  unfold summarize at calls ⊢
  split
  · rename_i d holder
    rw [holder] at calls
    exact h.same rfl calls (summarize_awake s.shared s.log .main)
  · exact h

variable [Callback κ]

theorem act_prompt {got : List UInt8} (act : Act s got s') (h : s.Prompt before)
    (few : s'.journal.brought < before.brought + wordLimit) : s'.Prompt before := by
  cases act with
  | step =>
    rw [step_unthreaded h.unthreaded]
    exact h
  | @place _ bytes frames placed _ done =>
    have placing := place_prompt h bytes frames
    rw [done] at placing
    exact (placing few).same rfl rfl (.refl _)
  | @fault _ bytes frames f _ done =>
    have placing := place_prompt h bytes frames
    rw [done] at placing
    exact placing few
  | skip => exact h.same rfl rfl (.refl _)
  | wait nanos => exact h.same rfl rfl (.refl _)
  | stage staging => exact h.same rfl rfl (.refl _)
  | summarize => exact summarize_prompt h

theorem close_prompt (h : s.Prompt before) : s.close.Prompt before := by
  unfold close
  dsimp only
  split
  · rename_i t holder
    exact absurd holder (h.unthreaded t)
  · rename_i d holder
    refine ⟨by simp [closed], by simp [closed], h.awake.trans ?_⟩
    have entered : s.journal.Awake
        ((Device.disconnect d s.journal.now).enter .main s.journal) := by
      refine ⟨_, Reply.events_enter _ .main s.journal, ?_⟩
      simp [Reply.asides, Device.disconnect, NullDevice.disconnect]
    exact (entered.trans (Journal.awake_call _ .closed)).trans (Journal.awake_notice _ _ _)
  · exact h.same rfl rfl (.refl _)

theorem moves_prompt (all : List Move) (h : s.Prompt before)
    (few : (s.moves all).1.journal.brought < before.brought + wordLimit) :
    (s.moves all).1.Prompt before := by
  -- What is brought only grows, so few frames in the end were few all along.
  let Kept (s : Session NullDevice κ) : Prop :=
    s.journal.brought < before.brought + wordLimit → s.Prompt before
  have act_kept (s s' : Session NullDevice κ) (stream got : List UInt8) (act : Act s got s')
      (kept : Kept s) : Kept s' := by
    intro few
    obtain ⟨more, _, called⟩ := act_uses act
    have grown := Journal.brought_append called
    exact act_prompt act (kept (by omega)) few
  have each (s : Session NullDevice κ) (stream : List UInt8) (m : Move) (kept : Kept s) :
      Kept (s.move m).2 := by
    cases closes : m.closes with
    | false =>
      obtain ⟨got, acts, _⟩ := move_acts s closes
      exact @Acts.keeps _ _ _ _ _ _ _ (fun s _ => Kept s) act_kept acts [] kept
    | true =>
      cases m with
      | close =>
        intro few
        obtain ⟨more, called⟩ := move_calls s .close
        have grown := Journal.brought_append called
        exact close_prompt (kept (by omega))
      | _ => simp [Move.closes] at closes
  exact @moves_keep _ _ _ _ (fun s _ => Kept s) each all s [] (fun _ => h) few

theorem start_prompt {config : Config} {around : Surroundings} {s₀ : Session NullDevice κ}
    (started : start config .queue d around = .session s₀) : s₀.Prompt around.journal := by
  obtain ⟨d', j, p, s, m, reply, _, prepared, rfl⟩ := start_prepared started
  cases prepared with
  | thread supplied => cases supplied
  | owner _ =>
    simp only [Device.connectIn, Prod.mk.injEq] at reply
    obtain ⟨_, rfl, rfl⟩ := reply
    have entered : around.journal.Awake
        ((Device.connect d around.journal.now config.params).enter .main around.journal) := by
      refine ⟨_, Reply.events_enter _ .main around.journal, ?_⟩
      simp [Reply.asides, Device.connect, NullDevice.connect]
    have opened : (((Device.connect d around.journal.now config.params).enter .main
        around.journal).call (.opened config.params)).calls =
          around.journal.calls ++ [.opened config.params] := by simp
    refine ⟨by simp, ?_, ?_⟩
    · intro d' same
      obtain rfl := Holder.owner.inj same
      exact Nat.le_of_eq (Journal.brought_append ((Journal.calls_notice _ _ _).trans opened)).symm
    · exact (entered.trans (Journal.awake_call _ _)).trans (Journal.awake_notice _ _ _)

end Prompt

variable {δ κ : Type} [Device δ] [Callback κ]

/-- An owner asks its device for at most one write a call, of the first of the frames that it
    offers, as many as the device has free just before the write; and if none are free, a turn asks
    neither the renderer nor the device. The device without output takes at once any write within
    the free frames that it showed before, whatever has been done with it, however late the write
    comes and whatever recoveries come before it, as long as a word counts all frames. So whatever
    an owner does with it, nobody sleeps; not even if time goes by between its look at the free
    frames and its write. -/
theorem owner_never_waits (config : Config) (around : Surroundings) :
    (∀ (d : δ) (s₀ : Session δ κ), start config .queue d around = .session s₀ →
      ∀ deeds : List (Deed δ), let s := s₀.deeds deeds
        (∀ m : Move, m.closes = false → ∃ calls,
          (s.move m).2.journal.calls = s.journal.calls ++ calls ∧
            (s.atPlacing m).Asks (s.offered m) calls) ∧
        ∀ d', s.holder = .owner d' → Device.freeFrames d' s.journal.now = 0 →
          ∀ {ρ : Type} [Renderer ρ] (r : ρ) (took : Nat),
            s.pushRendered r took = (.ok 0, s.withMetrics s.metrics.countSkip, r)) ∧
    (∀ (paced : Bool) (start : Nat) (history between : List NullDevice.Use),
      (∀ u ∈ between, u.Quiet) →
      let seen := ({ paced } : NullDevice).uses start history
      let late := seen.1.uses seen.2 between
      ∀ n bytes, 1 ≤ n → n ≤ Device.freeFrames seen.1 seen.2 →
        NullDevice.framesOf history + n < wordLimit →
        ∃ d', Device.write late.1 late.2 bytes n = { outcome := .ok n, device := d' }) ∧
    ∀ (d : NullDevice) (s₀ : Session NullDevice κ), start config .queue d around = .session s₀ →
      ∀ moves : List Move, let s := (s₀.moves moves).1
        s.journal.brought < around.journal.brought + wordLimit →
          around.journal.Awake s.journal ∧
          ∀ d', s.holder = .owner d' → ∀ n bytes nanos, 1 ≤ n →
            n ≤ Device.freeFrames d' s.journal.now →
            s.journal.brought + n < around.journal.brought + wordLimit →
            let (answer, s') := (s.advance nanos).enqueue d' bytes n
            answer = .ok n ∧ around.journal.Awake s'.journal := by
  refine ⟨?_, ?_, ?_⟩
  · intro d s₀ started deeds s
    obtain ⟨queue, unthreaded⟩ := start_unthreaded started deeds
    refine ⟨fun m goes_on => move_asks unthreaded goes_on, ?_⟩
    intro d' holder full ρ _ r took
    exact pushRendered_skips holder queue full r took
  · intro paced start history between quiet seen late n bytes positive room fits
    have written : seen.1.written ≤ 0 + NullDevice.framesOf history :=
      NullDevice.uses_written history { paced } start
    obtain ⟨same, later⟩ : late.1 = seen.1 ∧ seen.2 ≤ late.2 :=
      NullDevice.uses_quiet between quiet seen.1 seen.2
    rw [same]
    exact NullDevice.write_prompt positive room later (by omega)
  · intro d s₀ started moves s few
    have prompt : s.Prompt around.journal := moves_prompt moves (start_prompt started) few
    refine ⟨prompt.awake, ?_⟩
    intro d' holder n bytes nanos positive room fits
    have written := prompt.written d' holder
    have later : s.journal.now ≤ (s.advance nanos).journal.now := Nat.le_add_right _ nanos
    obtain ⟨d'', metrics, done, _⟩ :=
      enqueue_prompt (s := s.advance nanos) bytes positive room later (by omega)
    rw [done]
    exact ⟨rfl, prompt.awake.trans (Journal.awake_call (s.advance nanos).journal _)⟩

/-- Three frames and then one fill the buffer, so a turn is skipped; when two have been played, the
    next turn brings two, and a write that comes later than its look is taken at once. -/
theorem two_frames_later :
    let config : Config :=
      { sampleRate := 8000, bufferFrames := 4, packetFrames := 2, format := .i16 }
    let voice : Voice := .int16 { producer := .clip { data := [5, 6, 7] } }
    let bytes : List UInt8 := [1, 2, 3, 4, 5, 6, 7]
    let filling : List (Deed NullDevice) :=
      [.move (.push bytes), .move (.pushTyped [(7 : Int16), 8])]
    let moves : List Move := [.push bytes, .pushTyped [(7 : Int16), 8], .pushRendered voice 0,
      .wait 260000, .pushRendered voice 1000, .wait 130000]
    let history : List NullDevice.Use := [.connect config.params, .write 4, .wait 260000]
    let seen := ({} : NullDevice).uses 0 history
    let between : List NullDevice.Use := [.recover, .wait 140000]
    let late := seen.1.uses seen.2 between
    ∃ s₀ : Session NullDevice StockCallback, start config .queue {} {} = .session s₀ ∧
      s₀.Asks bytes [.wrote 3 [1, 2, 3, 4, 5, 6] (.ok 3)] ∧
      (s₀.deeds filling).pushRendered voice 0 = (.ok 0,
        (s₀.deeds filling).withMetrics (s₀.deeds filling).metrics.countSkip, voice) ∧
      (∃ d', Device.write late.1 late.2 [1, 2, 3, 4] 2 = { outcome := .ok 2, device := d' }) ∧
      (s₀.moves moves).1.journal.calls = [.opened config.params,
        .wrote 3 [1, 2, 3, 4, 5, 6] (.ok 3), .wrote 1 [7, 0] (.ok 1),
        .wrote 2 [5, 0, 6, 0] (.ok 2)] ∧
      Journal.Awake {} (s₀.moves moves).1.journal ∧
      ∃ d', (s₀.moves moves).1.holder = .owner d' ∧
        Journal.Awake {} (((s₀.moves moves).1.advance 50000).enqueue d' [9, 9] 1).2.journal := by
  intro config voice bytes filling moves history seen between late
  let full : NullDevice := { params := some config.params, started := some 0, written := 4 }
  let ahead : NullDevice := { params := some config.params, started := some 0, written := 6 }
  let written : List Call := [.opened config.params, .wrote 3 [1, 2, 3, 4, 5, 6] (.ok 3),
    .wrote 1 [7, 0] (.ok 1), .wrote 2 [5, 0, 6, 0] (.ok 2)]
  let opened : Opening NullDevice StockCallback := start config .queue {} {}
  have filled : opened.session?.map (fun s₀ => ((s₀.deeds []).journal.calls,
      ((s₀.deeds []).move (.push bytes)).2.journal.calls, (s₀.deeds filling).holder,
      (s₀.deeds filling).journal.now)) =
      some ([.opened config.params], written.take 2, .owner full, 0) := by decide +kernel
  have ran : opened.session?.map (fun s₀ => ((s₀.moves moves).1.journal.calls,
      (s₀.moves moves).1.holder, (s₀.moves moves).1.journal.now)) =
      some (written, .owner ahead, 391000) := by decide +kernel
  obtain ⟨s₀, found, values⟩ := Option.map_eq_some_iff.mp filled
  rw [found, Option.map_some, Option.some.injEq] at ran
  simp only [Prod.mk.injEq] at values ran
  obtain ⟨before, pushed, holder, at_once⟩ := values
  obtain ⟨calls, held, later⟩ := ran
  have started := Opening.eq_of_session? found
  obtain ⟨asked, kept, awake⟩ :=
    @owner_never_waits NullDevice StockCallback _ _ config {}
  obtain ⟨asks, _⟩ := asked {} s₀ started []
  obtain ⟨_, skipped⟩ := asked {} s₀ started filling
  obtain ⟨more, called, asks⟩ := asks (.push bytes) rfl
  have brought : (s₀.moves moves).1.journal.brought = 6 := by
    rw [Journal.brought, calls]
    rfl
  obtain ⟨slept, prompt⟩ := awake {} s₀ started moves (by rw [brought]; decide)
  refine ⟨s₀, started, ?_, ?_, ?_, calls, slept, ahead, held, ?_⟩
  · have same : more = [.wrote 3 [1, 2, 3, 4, 5, 6] (.ok 3)] := by
      rw [pushed, before] at called
      exact (List.cons.inj called).2.symm
    exact same ▸ asks
  · exact skipped full holder (by rw [at_once]; decide +kernel) voice 0
  · have quiet : ∀ u ∈ between, u.Quiet := by
      simp [between, NullDevice.Use.Quiet]
    exact kept true 0 history between quiet 2 [1, 2, 3, 4] (by decide) (by decide +kernel)
      (by decide +kernel)
  · have answer := prompt ahead held 1 [9, 9] 50000 (by decide) (by rw [later]; decide +kernel)
      (by rw [brought]; decide)
    rcases done : ((s₀.moves moves).1.advance 50000).enqueue ahead [9, 9] 1 with ⟨outcome, s'⟩
    rw [done] at answer
    exact answer.2

end Session

end PcmStream
