import Mathlib.Algebra.Ring.Nat
import PcmStream.Proofs.DeviceAttempts
import PcmStream.Proofs.PacketSupply

/- The counters beside the record. Whoever has the device, each step enters whole pieces in the record
   and does to the counters just what the events stand for. -/
namespace PcmStream

namespace Metrics

/-- What is due to the counters for some events, frames placed and turns skipped. -/
def due (events : List Event) (placed skipped : Nat) : Metrics :=
  let calls := events.filterMap Event.call?
  { buffersWritten := calls.countP Call.isTaken
    framesWritten := (calls.map Call.framesTaken).sum
    silenceBuffers := misses (events.filterMap Event.fetch?)
    deviceErrors := calls.countP Call.isRefused
    recoveryFailures := calls.countP Call.isUnrecovered
    framesPushed := placed
    pushesSkipped := skipped }

def plus (m n : Metrics) : Metrics :=
  { buffersWritten := m.buffersWritten + n.buffersWritten
    framesWritten := m.framesWritten + n.framesWritten
    silenceBuffers := m.silenceBuffers + n.silenceBuffers
    deviceErrors := m.deviceErrors + n.deviceErrors
    recoveryFailures := m.recoveryFailures + n.recoveryFailures
    framesPushed := m.framesPushed + n.framesPushed
    pushesSkipped := m.pushesSkipped + n.pushesSkipped }

def wrapped (m : Metrics) : Metrics :=
  { buffersWritten := m.buffersWritten % wordLimit
    framesWritten := m.framesWritten % wordLimit
    silenceBuffers := m.silenceBuffers % wordLimit
    deviceErrors := m.deviceErrors % wordLimit
    recoveryFailures := m.recoveryFailures % wordLimit
    framesPushed := m.framesPushed % wordLimit
    pushesSkipped := m.pushesSkipped % wordLimit }

def Fits (m : Metrics) : Prop :=
  m.buffersWritten < wordLimit ∧ m.framesWritten < wordLimit ∧ m.silenceBuffers < wordLimit ∧
    m.deviceErrors < wordLimit ∧ m.recoveryFailures < wordLimit ∧ m.framesPushed < wordLimit ∧
    m.pushesSkipped < wordLimit

instance (m : Metrics) : Decidable m.Fits :=
  inferInstanceAs (Decidable (_ ∧ _ ∧ _ ∧ _ ∧ _ ∧ _ ∧ _))

def heed (m : Metrics) : Event → Metrics
  | .call c => m.follow c
  | .fetch f => if f.missed then m.countSilence else m
  | _ => m

variable {m n : Metrics}

theorem plus_assoc (a b c : Metrics) : (a.plus b).plus c = a.plus (b.plus c) := by
  simp [plus, Nat.add_assoc]

theorem growthFrom_plus (a b : Metrics) : (a.plus b).growthFrom a = b := by
  simp [plus, growthFrom]

theorem wrapped_of_fits (fits : m.Fits) : m.wrapped = m := by
  obtain ⟨written, frames, silence, errors, failures, pushed, skipped⟩ := fits
  simp [wrapped, Nat.mod_eq_of_lt, *]

theorem fits_of_plus (fits : (m.plus n).Fits) : m.Fits := by
  simp only [Fits, plus] at fits ⊢
  omega

theorem due_append (events more : List Event) (placed placed' skipped skipped' : Nat) :
    due (events ++ more) (placed + placed') (skipped + skipped') =
      (due events placed skipped).plus (due more placed' skipped') := by
  simp [due, plus, misses]

theorem due_nil (m : Metrics) : m.plus (due [] 0 0) = m := by
  simp [due, plus, misses]

theorem bump_mod (a n : Nat) : bump (a % wordLimit) n = (a + n) % wordLimit := Nat.mod_add_mod ..

theorem follow_wrapped (c : Metrics) (call : Call) :
    c.wrapped.follow call = (c.plus (due [.call call] 0 0)).wrapped := by
  cases call with
  | opened p => rfl
  | closed => rfl
  | wrote frames bytes outcome =>
    cases outcome with
    | ok n => simp only [follow, countWrite, wrapped, bump_mod]; rfl
    | failed e => simp only [follow, countDeviceError, wrapped, bump_mod]; rfl
    | broken f => rfl
  | recovered outcome =>
    cases outcome with
    | ok _ => rfl
    | failed e => simp only [follow, countRecoveryFailure, wrapped, bump_mod]; rfl
    | broken f => rfl

theorem heed_wrapped (c : Metrics) (e : Event) :
    c.wrapped.heed e = (c.plus (due [e] 0 0)).wrapped := by
  cases e with
  | call call => exact follow_wrapped c call
  | notice thread n => rfl
  | sleep nanos => rfl
  | fetch f =>
    have due_fetch : due [.fetch f] 0 0 = { silenceBuffers := misses [f] } := rfl
    rw [due_fetch]
    cases missed : f.missed with
    | true =>
      simp only [heed, missed, if_true, countSilence, wrapped, bump_mod]
      simp [plus, misses, missed]
    | false => simp [heed, missed, plus, misses]

theorem foldl_heed (more : List Event) (c : Metrics) :
    more.foldl heed c.wrapped = (c.plus (due more 0 0)).wrapped := by
  induction more generalizing c with
  | nil => rw [due_nil]; rfl
  | cons e more ih =>
    have both := due_append [e] more 0 0 0 0
    rw [List.foldl_cons, heed_wrapped, ih, plus_assoc, ← both]
    rfl

@[simp] theorem heed_asides {δ α : Type} (r : Reply δ α) (thread : Thread) (m : Metrics) :
    (r.asides thread).foldl heed m = m := by
  have noticed : ∀ notices : List Notice,
      (notices.map (Event.notice thread)).foldl heed m = m := by
    intro notices
    induction notices with
    | nil => rfl
    | cons n notices ih => exact ih
  unfold Reply.asides
  rw [List.foldl_append, noticed]
  cases r.slept <;> rfl

@[simp] theorem heed_rest (mode : Mode) (p : Params) (m : Metrics) :
    (mode.rest p).foldl heed m = m := by
  unfold Mode.rest
  split
  · rfl
  · split <;> rfl

end Metrics

structure Shared.Enters (δ : Type) [Device δ] (mode : Mode) (p : Params) (s : Shared)
    (more : List Event) (s' : Shared) : Prop where
  events : s'.journal.events = s.journal.events ++ more
  conduct : Conduct δ mode p more
  metrics : s'.metrics = more.foldl Metrics.heed s.metrics

namespace Shared

variable {δ : Type} [Device δ] {mode : Mode} {p : Params} {a b c s : Shared}

theorem Enters.refl (s : Shared) : s.Enters δ mode p [] s := ⟨by simp, .nil, rfl⟩

theorem Enters.trans {more more' : List Event} (h : a.Enters δ mode p more b)
    (h' : b.Enters δ mode p more' c) : a.Enters δ mode p (more ++ more') c := by
  constructor
  · rw [h'.events, h.events, List.append_assoc]
  · exact h.conduct.append h'.conduct
  · rw [h'.metrics, h.metrics, List.foldl_append]

theorem notice_enters (s : Shared) (thread : Thread) (n : Notice) :
    s.Enters δ mode p [.notice thread n] (s.notice thread n) :=
  ⟨by simp [notice], (Piece.message thread n).alone, rfl⟩

theorem summarize_enters (s : Shared) (log : SummaryLog) (thread : Thread) :
    ∃ more, s.Enters δ mode p more (s.summarize log thread).2 := by
  unfold summarize
  split
  · exact ⟨[], .refl s⟩
  · exact ⟨_, notice_enters s thread _⟩

end Shared

/-- A fault that ends a filler, and where it shows: in a size, in a callback, or in the record. -/
inductive Faulted (κ : Type) [Callback κ] (p : Params) (events : List Event) (f : Fault) : Prop where
  | size (large : bytesFor p.bufferFrames p.frameSize = .error f)
  | time (long : p.bufferTime = .error f)
  | callback (c : κ) (size : Nat) (broke : Callback.fill c (silence size) p = .error f)
  | fetch (ready : Nat) (mem : .fetch ⟨ready, .broken f⟩ ∈ events)
  | write (frames : Nat) (bytes : List UInt8) (mem : .call (.wrote frames bytes (.broken f)) ∈ events)
  | recovery (mem : .call (.recovered (.broken f)) ∈ events)

theorem Faulted.mono {κ : Type} [Callback κ] {p : Params} {events more : List Event} {f : Fault}
    (h : Faulted κ p events f) (within : events ⊆ more) : Faulted κ p more f := by
  cases h with
  | size large => exact .size large
  | time long => exact .time long
  | callback c size broke => exact .callback c size broke
  | fetch ready mem => exact .fetch ready (within mem)
  | write frames bytes mem => exact .write frames bytes (within mem)
  | recovery mem => exact .recovery (within mem)

namespace Filler

variable {δ κ : Type} {mode : Mode} {p : Params}

def Lasts [Callback κ] (t : Filler δ κ) (p : Params) (events : List Event) : Prop :=
  ∀ f, t.stage = .broken f → Faulted κ p events f

variable [Device δ]

theorem summarize_enters (t : Filler δ κ) (s : Shared) :
    ∃ more, s.Enters δ mode p more (t.summarize s).2 ∧ (t.summarize s).1.stage = t.stage := by
  unfold summarize
  split
  · obtain ⟨more, entered⟩ := Shared.summarize_enters (δ := δ) s t.log .fill
    exact ⟨more, entered, rfl⟩
  · exact ⟨[], .refl s, rfl⟩

variable [Callback κ]

/-- The recovery ends the attempt that a failed write has begun. -/
theorem recover_enters {d : δ} {now frames : Nat} {bytes : List UInt8} {reply : Reply δ Nat}
    {e : DeviceError} (wrote : Device.write d now bytes frames = reply)
    (failed : reply.outcome = .failed e) (threaded : mode ≠ .queue) (t : Filler δ κ)
    (given : t.device = reply.device) (whole : ∀ f, t.stage ≠ .broken f) {before : Shared}
    (s : Shared) (entered : s.journal.events =
      before.journal.events ++ reply.asides .fill ++ [.call (.wrote frames bytes (.failed e))])
    (uncounted : s.metrics = before.metrics) :
    ∃ more, before.Enters δ mode t.params more (t.recover s e).2 ∧
      (t.recover s e).1.Lasts t.params more := by
  have thread := Mode.thread_of_threaded threaded
  generalize asked : s.journal.notice .fill (.writeFailed e) = j
  generalize recovered : Device.recover reply.device j.now = recovery
  have attempt : Attempt δ mode t.params _ := .failed wrote failed recovered
  have events : j.events = before.journal.events ++ reply.asides .fill ++
      [.call (.wrote frames bytes (.failed e)), .notice .fill (.writeFailed e)] := by
    simp [← asked, entered]
  cases outcome : recovery.outcome with
  | ok _ =>
    rw [outcome, thread] at attempt
    simp only [recover, Device.recoverIn, asked, given, recovered, outcome]
    refine ⟨_, ⟨?_, (Piece.attempt attempt).alone, ?_⟩, ?_⟩
    · simp [events, Mode.aftermath, Thread.report]
    · simp [Metrics.heed, Mode.aftermath, uncounted]
      rfl
    · intro f broken
      exact absurd broken (whole f)
  | broken f =>
    rw [outcome, thread] at attempt
    simp only [recover, Device.recoverIn, asked, given, recovered, outcome]
    refine ⟨_, ⟨?_, (Piece.attempt attempt).alone, ?_⟩, ?_⟩
    · simp [events, Mode.aftermath, Thread.report]
    · simp [Metrics.heed, Mode.aftermath, uncounted]
      rfl
    · intro f' broken
      cases broken
      exact .recovery (by simp)
  | failed e' =>
    rw [outcome, thread] at attempt
    cases time : t.params.bufferTime with
    | ok nanos =>
      simp only [recover, Device.recoverIn, asked, given, recovered, outcome, time]
      refine ⟨_, ⟨?_, (Piece.attempt attempt).alone, ?_⟩, ?_⟩
      · simp [Shared.notice, events, Mode.aftermath, Mode.rest, threaded, thread, time,
          Thread.report]
      · simp [Shared.notice, Metrics.heed, Mode.aftermath, uncounted]
        rfl
      · intro f broken
        exact absurd broken (whole f)
    | error f =>
      simp only [recover, Device.recoverIn, asked, given, recovered, outcome, time]
      refine ⟨_, ⟨?_, (Piece.attempt attempt).alone, ?_⟩, ?_⟩
      · simp [Shared.notice, events, Mode.aftermath, Mode.rest, threaded, thread, time,
          Thread.report]
      · simp [Shared.notice, Metrics.heed, Mode.aftermath, uncounted]
        rfl
      · intro f' broken
        cases broken
        exact .time time

theorem write_enters (t : Filler δ κ) (s : Shared) (threaded : mode ≠ .queue) :
    ∃ more, s.Enters δ mode t.params more (t.write s).2 ∧ (t.write s).1.Lasts t.params more := by
  have thread := Mode.thread_of_threaded threaded
  generalize wrote : Device.write t.device s.journal.now t.buffer t.params.bufferFrames = reply
  -- The summary that may follow a write ends no filler.
  have summarized : ∀ {t' : Filler δ κ} {s' : Shared} {more : List Event},
      s.Enters δ mode t.params more s' → t'.Lasts t.params more →
      ∃ more, s.Enters δ mode t.params more (t'.summarize s').2 ∧
        (t'.summarize s').1.Lasts t.params more := by
    intro t' s' more entered lasts
    obtain ⟨later, quiet, same⟩ := summarize_enters t' s'
    refine ⟨_, entered.trans quiet, ?_⟩
    intro f broken
    exact (lasts f (same ▸ broken)).mono (by simp)
  cases outcome : reply.outcome with
  | ok n =>
    have attempt : Attempt δ mode t.params _ := .settled wrote (by simp [outcome])
    rw [outcome, thread] at attempt
    simp only [write, Device.writeIn, wrote, outcome]
    refine summarized ⟨?_, (Piece.attempt attempt).alone, ?_⟩ ?_
    · simp
    · simp [Metrics.heed]
      rfl
    · intro f broken
      cases broken
  | broken f =>
    have attempt : Attempt δ mode t.params _ := .settled wrote (by simp [outcome])
    rw [outcome, thread] at attempt
    simp only [write, Device.writeIn, wrote, outcome]
    refine ⟨_, ⟨?_, (Piece.attempt attempt).alone, ?_⟩, ?_⟩
    · simp
    · simp [Metrics.heed]
      rfl
    · intro f' broken
      cases broken
      exact .write t.params.bufferFrames t.buffer (by simp)
  | failed e =>
    simp only [write, Device.writeIn, wrote, outcome]
    let resumed : Filler δ κ := { t with device := reply.device, stage := .checking }
    have whole : ∀ f, resumed.stage ≠ .broken f := by simp [resumed]
    let written : Shared :=
      { s with
        journal := (reply.enter .fill s.journal).call
          (.wrote t.params.bufferFrames t.buffer (.failed e)) }
    have entered : written.journal.events = s.journal.events ++ reply.asides .fill ++
        [.call (.wrote t.params.bufferFrames t.buffer (.failed e))] := by
      simp [written]
    obtain ⟨more, entered, lasts⟩ :=
      recover_enters wrote outcome threaded resumed rfl whole written entered rfl
    exact summarized entered lasts

theorem fill_enters (mode : Mode) (t : Filler δ κ) (s : Shared) :
    ∃ more, s.Enters δ mode t.params more (t.fill s).2 ∧ (t.fill s).1.params = t.params ∧
      (t.fill s).1.Lasts t.params more := by
  unfold fill
  cases t.supply with
  | callback c =>
    dsimp only
    split
    · rename_i f broke
      refine ⟨[], .refl s, rfl, ?_⟩
      intro f' broken
      cases broken
      exact .callback c _ broke
    · refine ⟨[], .refl s, rfl, ?_⟩
      intro f broken
      cases broken
  | fifo =>
    dsimp only
    split
    · rename_i q fifo
      unfold fillFrom
      split
      · rename_i f failed
        refine ⟨_, ⟨Journal.events_fetch _ _, (Piece.fetch _).alone, rfl⟩, rfl, ?_⟩
        intro f' broken
        cases broken
        exact .fetch q.available (by simp)
      · rename_i count bytes rest fetched
        dsimp only
        split
        · rename_i missed
          refine ⟨_, ⟨Journal.events_fetch _ _, (Piece.fetch _).alone, ?_⟩, rfl, ?_⟩
          · simp [Metrics.heed, Fetch.missed, missed, Shared.fetch]
          · intro f broken
            cases broken
        · rename_i hit
          refine ⟨_, ⟨Journal.events_fetch _ _, (Piece.fetch _).alone, ?_⟩, rfl, ?_⟩
          · simp [Metrics.heed, Fetch.missed, hit, Shared.fetch]
          · intro f broken
            cases broken
    · refine ⟨[], .refl s, rfl, ?_⟩
      intro f broken
      cases broken

theorem step_enters (t : Filler δ κ) (s : Shared) (threaded : mode ≠ .queue) :
    ∃ more, s.Enters δ mode t.params more (t.step s).2 ∧ (t.step s).1.params = t.params ∧
      ∀ events, t.Lasts t.params events → (t.step s).1.Lasts t.params (events ++ more) := by
  have later : ∀ {more events : List Event}, (t.step s).1.Lasts t.params more →
      (t.step s).1.Lasts t.params (events ++ more) := by
    intro more events lasts f broken
    exact (lasts f broken).mono (by simp)
  have still : (t.step s) = (t, s) →
      ∃ more, s.Enters δ mode t.params more (t.step s).2 ∧ (t.step s).1.params = t.params ∧
        ∀ events, t.Lasts t.params events → (t.step s).1.Lasts t.params (events ++ more) := by
    intro same
    rw [same]
    exact ⟨[], .refl s, rfl, fun events lasts => by simpa using lasts⟩
  cases stage : t.stage with
  | starting =>
    simp only [step, stage, start] at later ⊢
    split
    · rename_i f large
      refine ⟨[], .refl s, rfl, ?_⟩
      intro events _ f' broken
      cases broken
      exact .size large
    · refine ⟨_, Shared.notice_enters s .fill _, rfl, ?_⟩
      intro events _ f broken
      cases broken
  | checking =>
    simp only [step, stage, check]
    split
    · refine ⟨_, Shared.notice_enters s .fill _, rfl, ?_⟩
      intro events _ f broken
      cases broken
    · refine ⟨[], .refl s, rfl, ?_⟩
      intro events _ f broken
      cases broken
  | filling =>
    obtain ⟨more, entered, params, lasts⟩ := fill_enters mode t s
    simp only [step, stage] at later ⊢
    exact ⟨more, entered, params, fun _ _ => later lasts⟩
  | writing =>
    obtain ⟨more, entered, lasts⟩ := write_enters t s threaded
    simp only [step, stage] at later ⊢
    exact ⟨more, entered, (write_spec t s).1.params, fun _ _ => later lasts⟩
  | finished => exact still (by simp only [step, stage])
  | broken f => exact still (by simp only [step, stage])

structure Works (t : Filler δ κ) (p : Params) (events : List Event) : Prop where
  params : t.params = p
  stop : t.stop = false
  unfinished : t.stage ≠ .finished
  lasts : t.Lasts p events

theorem step_unfinished {t : Filler δ κ} (s : Shared) (stop : t.stop = false)
    (unfinished : t.stage ≠ .finished) : (t.step s).1.stage ≠ .finished := by
  have resumed := (write_spec t s).1.stage
  cases stage : t.stage with
  | starting =>
    simp only [step, stage, start]
    split <;> simp [breakDown]
  | checking => simp [step, stage, check, stop]
  | filling =>
    simp only [step, stage, fill]
    split
    · split <;> simp [breakDown]
    · split
      · unfold fillFrom
        split
        · simp [breakDown]
        · dsimp only
          split <;> simp
      · simp
  | writing =>
    simp only [step, stage]
    rcases resumed with checking | ⟨f, broken⟩
    · simp [checking]
    · simp [broken]
  | finished => exact absurd stage unfinished
  | broken f => simp [step, stage]

variable {begun s : Shared} {events : List Event} {t : Filler δ κ}

theorem step_works (threaded : mode ≠ .queue) (t : Filler δ κ) (s : Shared)
    (h : ∃ more, begun.Enters δ mode p more s ∧ t.Works p (events ++ more)) :
    ∃ more, begun.Enters δ mode p more (t.step s).2 ∧ (t.step s).1.Works p (events ++ more) := by
  obtain ⟨more, entered, works⟩ := h
  obtain ⟨later, entered', params, lasts⟩ := step_enters t s threaded
  rw [works.params] at entered' params lasts
  refine ⟨_, entered.trans entered', params, ?_, ?_, ?_⟩
  · exact (step_stops t s).1.trans works.stop
  · exact step_unfinished s works.stop works.unfinished
  · rw [← List.append_assoc]
    exact lasts _ works.lasts

theorem release_enters (threaded : mode ≠ .queue) (t : Filler δ κ) (s : Shared) :
    ∃ more, s.Enters δ mode t.params more (t.release s) := by
  obtain ⟨params, more, entered⟩ : (t.finish s).1.params = t.params ∧
      ∃ more, s.Enters δ mode t.params more (t.finish s).2 := by
    apply finishFuel_keeps
      (P := fun t' s' => t'.params = t.params ∧ ∃ more, s.Enters δ mode t.params more s')
    · intro t' s' kept
      obtain ⟨params, more, entered⟩ := kept
      obtain ⟨later, entered', params', _⟩ := step_enters t' s' threaded
      rw [params] at entered' params'
      exact ⟨params', _, entered.trans entered'⟩
    · exact ⟨rfl, [], .refl s⟩
  unfold release
  dsimp only
  split
  · exact ⟨_, entered.trans (Shared.notice_enters _ .main .fillerBroken)⟩
  · have closed : (t.finish s).2.Enters δ mode t.params _
        { (t.finish s).2 with
          journal := Device.disconnectIn (t.finish s).1.device (t.finish s).2.journal } :=
      ⟨by simp [Device.disconnectIn],
        (Piece.closed (t.finish s).1.device (t.finish s).2.journal.now).alone,
        by simp [Metrics.heed]; rfl⟩
    exact ⟨_, entered.trans closed⟩

end Filler

end PcmStream
