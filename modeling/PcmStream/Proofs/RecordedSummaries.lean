import PcmStream.Device.Null
import PcmStream.Proofs.SessionOpening
import PcmStream.Proofs.SummaryLines

/- The summaries in a record, and who asks for them. A filler asks its log after each write, and an
   owner after each turn that has pushed what it rendered; both do so last of all. All else leaves
   the log as it is and enters no summary. -/
namespace PcmStream

structure Summary where
  thread : Thread
  time : Nat
  growth : Metrics
  deriving DecidableEq, Repr

def Notice.growth? : Notice → Option Metrics
  | .summary growth => some growth
  | _ => none

def Event.summary? (time : Nat) : Event → Option Summary
  | .notice thread n => n.growth?.map (Summary.mk thread time)
  | _ => none

def Entry.summary? (e : Entry) : Option Summary := e.event.summary? e.time

def Journal.summaries (j : Journal) : List Summary := j.entries.filterMap Entry.summary?

def SummaryLine.summary (thread : Thread) (l : SummaryLine) : Summary :=
  ⟨thread, l.poll.asked, l.growth⟩

structure Device.Discreet (δ : Type) [Device δ] : Prop where
  connect : ∀ (d : δ) now requested, ∀ n ∈ (connect d now requested).notices, n.growth? = none
  write : ∀ (d : δ) now bytes frames, ∀ n ∈ (write d now bytes frames).notices, n.growth? = none
  recover : ∀ (d : δ) now, ∀ n ∈ (recover d now).notices, n.growth? = none
  disconnect : ∀ (d : δ) now, ∀ n ∈ (disconnect d now).notices, n.growth? = none

theorem ScriptedDevice.discreet : Device.Discreet ScriptedDevice := by
  constructor
  · intro d now requested
    simp only [Device.connect, ScriptedDevice.connect]
    split <;> simp
  · intro d now bytes frames
    simp only [Device.write, ScriptedDevice.write]
    split <;> simp
  · intro d now
    simp [Device.recover, ScriptedDevice.recover]
  · intro d now
    simp [Device.disconnect]

theorem NullDevice.discreet : Device.Discreet NullDevice := by
  constructor
  · intro d now requested
    simp [Device.connect, NullDevice.connect, Notice.growth?]
  · intro d now bytes frames
    simp only [Device.write, NullDevice.write, NullDevice.writePaced]
    repeat' split
    all_goals simp
  · intro d now
    simp [Device.recover]
  · intro d now
    simp only [Device.disconnect, NullDevice.disconnect]
    split <;> simp [Notice.growth?]

/-- From `j` to `j'` time may go by, and what is entered is no summary unless the device made it. -/
structure Journal.Quiet (δ : Type) [Device δ] (j j' : Journal) : Prop where
  later : j.now ≤ j'.now
  entries : ∃ more, j'.entries = j.entries ++ more ∧
    (Device.Discreet δ → more.filterMap Entry.summary? = [])

namespace Journal

variable {δ : Type} [Device δ] {a b c j : Journal}

theorem Quiet.refl (j : Journal) : j.Quiet δ j := ⟨Nat.le_refl _, [], by simp, by simp⟩

theorem Quiet.trans (h : a.Quiet δ b) (h' : b.Quiet δ c) : a.Quiet δ c := by
  obtain ⟨more, entered, silent⟩ := h.entries
  obtain ⟨more', entered', silent'⟩ := h'.entries
  refine ⟨Nat.le_trans h.later h'.later, more ++ more', ?_, ?_⟩
  · rw [entered', entered, List.append_assoc]
  · intro discreet
    rw [List.filterMap_append, silent discreet, silent' discreet, List.append_nil]

theorem Quiet.events (h : a.Quiet δ b) : ∃ more, b.events = a.events ++ more := by
  obtain ⟨more, entered, _⟩ := h.entries
  exact ⟨more.map (·.event), by simp [Journal.events, entered]⟩

theorem Quiet.summaries (h : a.Quiet δ b) :
    ∃ more, b.summaries = a.summaries ++ more ∧ (Device.Discreet δ → more = []) := by
  obtain ⟨more, entered, silent⟩ := h.entries
  exact ⟨more.filterMap Entry.summary?, by simp [Journal.summaries, entered], silent⟩

theorem quiet_record {e : Event} (silent : Device.Discreet δ → e.summary? j.now = none) :
    j.Quiet δ (j.record e) := by
  refine ⟨Nat.le_refl _, _, rfl, ?_⟩
  intro discreet
  simp [Entry.summary?, silent discreet]

theorem quiet_call (c : Call) : j.Quiet δ (j.call c) := quiet_record fun _ => rfl

theorem quiet_fetch (f : Fetch) : j.Quiet δ (j.fetch f) := quiet_record fun _ => rfl

theorem quiet_notice (thread : Thread) {n : Notice} (silent : n.growth? = none) :
    j.Quiet δ (j.notice thread n) :=
  quiet_record fun _ => by simp [Event.summary?, silent]

theorem quiet_advance (nanos : Nat) : j.Quiet δ (j.advance nanos) :=
  ⟨Nat.le_add_right _ _, [], by simp [advance], by simp⟩

theorem quiet_sleep (nanos : Nat) : j.Quiet δ (j.sleep nanos) :=
  (quiet_record fun _ => rfl).trans (quiet_advance nanos)

end Journal

theorem Reply.enter_quiet {δ α : Type} [Device δ] (r : Reply δ α) (thread : Thread) (j : Journal)
    (silent : Device.Discreet δ → ∀ n ∈ r.notices, n.growth? = none) :
    j.Quiet δ (r.enter thread j) := by
  have noticed : ∀ (notices : List Notice) (j : Journal),
      (Device.Discreet δ → ∀ n ∈ notices, n.growth? = none) →
      j.Quiet δ (notices.foldl (fun j n => j.notice thread n) j) := by
    intro notices
    induction notices with
    | nil => exact fun j _ => .refl j
    | cons n notices ih =>
      intro j silent
      have first : j.Quiet δ (j.notice thread n) := Journal.quiet_record fun discreet => by
        simp [Event.summary?, silent discreet n]
      refine first.trans (ih _ ?_)
      intro discreet n' mem
      exact silent discreet n' (List.mem_cons_of_mem n mem)
  unfold Reply.enter
  cases r.slept with
  | none => exact noticed r.notices j silent
  | some nanos => exact (noticed r.notices j silent).trans (Journal.quiet_sleep nanos)

namespace Device

variable {δ : Type} [Device δ]

theorem connectIn_quiet (d : δ) (requested : Params) (j : Journal) :
    j.Quiet δ (connectIn d requested j).2.2 :=
  (Reply.enter_quiet _ .main j fun discreet => discreet.connect d _ _).trans (Journal.quiet_call _)

theorem writeIn_quiet (thread : Thread) (d : δ) (bytes : List UInt8) (frames : Nat) (j : Journal) :
    j.Quiet δ (writeIn thread d bytes frames j).2.2 :=
  (Reply.enter_quiet _ thread j fun discreet => discreet.write d _ _ _).trans (Journal.quiet_call _)

theorem recoverIn_quiet (thread : Thread) (d : δ) (j : Journal) :
    j.Quiet δ (recoverIn thread d j).2.2 :=
  (Reply.enter_quiet _ thread j fun discreet => discreet.recover d _).trans (Journal.quiet_call _)

theorem disconnectIn_quiet (d : δ) (j : Journal) : j.Quiet δ (disconnectIn d j) :=
  (Reply.enter_quiet _ .main j fun discreet => discreet.disconnect d _).trans (Journal.quiet_call _)

end Device

namespace Shared

def poll (s : Shared) : Poll := ⟨s.journal.now, s.journal.now, s.metrics⟩

/-- To `s'` a log gets no call, or one as the last thing. -/
inductive Polls (δ : Type) [Device δ] (thread : Thread) (s : Shared) (log : SummaryLog) :
    List Poll → Shared → SummaryLog → Prop where
  | still {s' : Shared} (quiet : s.journal.Quiet δ s'.journal) : Polls δ thread s log [] s' log
  | asked {settled : Shared} (quiet : s.journal.Quiet δ settled.journal) :
      Polls δ thread s log [settled.poll] (settled.summarize log thread).2
        (settled.summarize log thread).1

theorem summarize_cases (s : Shared) (log : SummaryLog) (thread : Thread) :
    (s.journal.now < log.time + nanosPerSecond ∧ s.summarize log thread = (log, s)) ∨
    (log.time + nanosPerSecond ≤ s.journal.now ∧
      s.summarize log thread = (⟨s.metrics, s.journal.now⟩,
        s.notice thread (.summary (s.metrics.growthFrom log.covered)))) := by
  rcases Nat.lt_or_ge s.journal.now (log.time + nanosPerSecond) with early | due
  · exact .inl ⟨early, by simp only [summarize, SummaryLog.poll_early early]⟩
  · exact .inr ⟨due, by simp only [summarize, SummaryLog.poll_due due]⟩

theorem summarize_poll (s : Shared) (log : SummaryLog) (thread : Thread) :
    (s.summarize log thread).2.poll = s.poll := by
  rcases summarize_cases s log thread with ⟨_, done⟩ | ⟨_, done⟩
  · rw [done]
  · rw [done]
    rfl

end Shared

namespace Filler

variable {δ κ : Type} [Device δ] {s₀ s : Shared}

theorem summarize_polls (t : Filler δ κ) (quiet : s₀.journal.Quiet δ s.journal) :
    s₀.Polls δ .fill t.log (if (t.summarize s).1.isAlive then [(t.summarize s).2.poll] else [])
      (t.summarize s).2 (t.summarize s).1.log := by
  rw [(summarize_calls t s).2]
  unfold summarize
  split
  · rw [Shared.summarize_poll]
    exact .asked quiet
  · exact .still quiet

theorem recover_quiet (t : Filler δ κ) (s : Shared) (e : DeviceError) :
    s.journal.Quiet δ (t.recover s e).2.journal ∧ (t.recover s e).1.log = t.log := by
  have warned : s.journal.Quiet δ (s.journal.notice .fill (.writeFailed e)) :=
    Journal.quiet_notice .fill rfl
  have tried := warned.trans (Device.recoverIn_quiet .fill t.device _)
  rcases reply : Device.recoverIn .fill t.device (s.journal.notice .fill (.writeFailed e)) with
    ⟨outcome, d, j⟩
  rw [reply] at tried
  cases outcome with
  | ok _ =>
    simp only [recover, reply]
    exact ⟨tried, trivial⟩
  | broken f =>
    simp only [recover, reply]
    exact ⟨tried, rfl⟩
  | failed e' =>
    have reported : s.journal.Quiet δ (j.notice .fill (.recoveryFailed e')) :=
      tried.trans (Journal.quiet_notice .fill rfl)
    cases time : t.params.bufferTime with
    | ok nanos =>
      simp only [recover, reply, time]
      exact ⟨reported.trans (Journal.quiet_sleep nanos), trivial⟩
    | error f =>
      simp only [recover, reply, time]
      exact ⟨reported, rfl⟩

theorem write_polls (t : Filler δ κ) (s : Shared) :
    s.Polls δ .fill t.log (if (t.write s).1.isAlive then [(t.write s).2.poll] else [])
      (t.write s).2 (t.write s).1.log := by
  have tried := Device.writeIn_quiet .fill t.device t.buffer t.params.bufferFrames s.journal
  rcases reply : Device.writeIn .fill t.device t.buffer t.params.bufferFrames s.journal with
    ⟨outcome, d, j⟩
  rw [reply] at tried
  let resumed : Filler δ κ := { t with device := d, stage := .checking }
  cases outcome with
  | ok frames =>
    simp only [write, reply]
    exact summarize_polls resumed tried
  | failed e =>
    obtain ⟨quiet, same⟩ := recover_quiet resumed { s with journal := j } e
    have polled := summarize_polls (resumed.recover { s with journal := j } e).1 (tried.trans quiet)
    rw [same] at polled
    simpa only [write, reply] using polled
  | broken f =>
    simp only [write, reply]
    exact .still tried

theorem fill_quiet [Callback κ] (t : Filler δ κ) (s : Shared) :
    s.journal.Quiet δ (t.fill s).2.journal ∧ (t.fill s).1.log = t.log ∧
      (t.fill s).1.stage ≠ .starting := by
  unfold fill
  split
  · split
    · exact ⟨.refl _, rfl, by simp [breakDown]⟩
    · exact ⟨.refl _, rfl, by simp⟩
  · split
    · unfold fillFrom
      split
      · exact ⟨Journal.quiet_fetch _, rfl, by simp [breakDown]⟩
      · dsimp only
        split
        · exact ⟨Journal.quiet_fetch _, rfl, by simp⟩
        · exact ⟨Journal.quiet_fetch _, rfl, by simp⟩
    · exact ⟨.refl _, rfl, by simp⟩

variable [Callback κ]

def asks (t : Filler δ κ) (s : Shared) : List Poll :=
  if t.stage = .writing ∧ (t.step s).1.isAlive = true then [(t.step s).2.poll] else []

def asksInRun : Nat → Filler δ κ → Shared → List Poll
  | 0, _, _ => []
  | n + 1, t, s =>
    if t.isAlive then
      (t.settle s).1.asks (t.settle s).2 ++ asksInRun n (t.turn s).1 (t.turn s).2
    else []

def asksInFinish : Nat → Filler δ κ → Shared → List Poll
  | 0, _, _ => []
  | fuel + 1, t, s =>
    if t.isAlive then t.asks s ++ asksInFinish fuel (t.step s).1 (t.step s).2 else []

theorem asks_unwritten {t : Filler δ κ} (s : Shared) (unwritten : t.stage ≠ .writing) :
    t.asks s = [] := if_neg fun writing => unwritten writing.1

omit [Callback κ] in
theorem start_quiet (t : Filler δ κ) (s : Shared) :
    s.journal.Quiet δ (t.start s).2.journal ∧ (t.start s).1.stage ≠ .starting ∧
      ((t.start s).1.log = t.log ∨ (t.start s).1.log = { time := s.journal.now }) := by
  unfold start
  split
  · exact ⟨.refl _, by simp [breakDown], .inl rfl⟩
  · exact ⟨Journal.quiet_notice .fill rfl, by simp, .inr rfl⟩

theorem step_polls (t : Filler δ κ) (s : Shared) (begun : t.stage ≠ .starting) :
    s.Polls δ .fill t.log (t.asks s) (t.step s).2 (t.step s).1.log ∧
      (t.step s).1.stage ≠ .starting := by
  by_cases writing : t.stage = .writing
  · have resumed := (write_spec t s).1.stage
    simp only [asks, step, writing, true_and]
    refine ⟨write_polls t s, ?_⟩
    rcases resumed with checking | ⟨f, broken⟩
    · simp [checking]
    · simp [broken]
  · rw [asks_unwritten s writing]
    cases stage : t.stage with
    | starting => exact absurd stage begun
    | checking =>
      simp only [step, stage, check]
      split
      · exact ⟨.still (Journal.quiet_notice .fill rfl), by simp⟩
      · exact ⟨.still (.refl _), by simp⟩
    | filling =>
      obtain ⟨quiet, same, begun⟩ := fill_quiet t s
      simp only [step, stage]
      rw [same]
      exact ⟨.still quiet, begun⟩
    | writing => exact absurd stage writing
    | finished => simpa [step, stage] using .still (.refl _)
    | broken f => simpa [step, stage] using .still (.refl _)

theorem release_quiet (t : Filler δ κ) (s : Shared) :
    (t.finish s).2.journal.Quiet δ (t.release s).journal := by
  unfold release
  dsimp only
  split
  · exact Journal.quiet_notice .main rfl
  · exact Device.disconnectIn_quiet _ _

end Filler

namespace Session

variable {δ κ : Type}

/-- Whoever has the device keeps this log, which has got these calls: none before a filler starts. -/
def Holds (s : Session δ κ) (polls : List Poll) (log : SummaryLog) : Prop :=
  match s.holder with
  | .filler t => t.log = log ∧ (t.stage = .starting → polls = [])
  | .owner _ => s.log = log
  | .nobody => True

variable {s s' s'' : Session δ κ}

theorem holds_congr {polls : List Poll} {log : SummaryLog} (h : s.Holds polls log)
    (holder : s'.holder = s.holder) (same : s'.log = s.log) : s'.Holds polls log := by
  unfold Holds at h ⊢
  rw [holder, same]
  exact h

theorem summarize_poll (s : Session δ κ) : s.summarize.shared.poll = s.shared.poll := by
  unfold summarize
  split
  · exact Shared.summarize_poll s.shared s.log .main
  · rfl

theorem summarize_unowned (unowned : ∀ d, s.holder ≠ .owner d) : s.summarize = s := by
  unfold summarize
  split
  · rename_i d holder
    exact absurd holder (unowned d)
  · rfl

def ofFiller (s : Session δ κ) (asks : Filler δ κ → List Poll) : List Poll :=
  match s.holder with
  | .filler t => asks t
  | _ => []

theorem ofFiller_eq {t : Filler δ κ} (holder : s.holder = .filler t)
    (asks : Filler δ κ → List Poll) : s.ofFiller asks = asks t := by
  rw [ofFiller, holder]

theorem ofFiller_unthreaded (unthreaded : ∀ t, s.holder ≠ .filler t)
    (asks : Filler δ κ → List Poll) : s.ofFiller asks = [] := by
  unfold ofFiller
  split
  · rename_i t holder
    exact absurd holder (unthreaded t)
  · rfl

variable [Device δ]

structure Quiet (s s' : Session δ κ) : Prop where
  journal : s.journal.Quiet δ s'.journal
  alike : s.holder.Alike s'.holder
  holds : ∀ polls log, s.Holds polls log → s'.Holds polls log

theorem Quiet.refl (s : Session δ κ) : s.Quiet s := ⟨.refl _, .refl _, fun _ _ held => held⟩

theorem Quiet.trans (h : s.Quiet s') (h' : s'.Quiet s'') : s.Quiet s'' := by
  refine ⟨h.journal.trans h'.journal, h.alike.trans h'.alike, ?_⟩
  intro polls log held
  exact h'.holds polls log (h.holds polls log held)

theorem quiet_beside (journal : s.journal.Quiet δ s'.journal) (holder : s'.holder = s.holder)
    (log : s'.log = s.log) : s.Quiet s' :=
  ⟨journal, holder ▸ .refl _, fun _ _ held => holds_congr held holder log⟩

theorem enqueue_quiet (s : Session δ κ) {d : δ} (holder : s.holder = .owner d) (bytes : List UInt8)
    (frames : Nat) : s.Quiet (s.enqueue d bytes frames).2 := by
  have owned : ∀ (d' : δ) (metrics : Metrics) (j : Journal), s.journal.Quiet δ j →
      s.Quiet
        { s with holder := .owner d', shared := { s.shared with metrics, journal := j } } := by
    intro d' metrics j quiet
    refine ⟨quiet, by simp [holder, Holder.Alike], ?_⟩
    intro polls log held
    simpa [Holds, holder] using held
  have tried := Device.writeIn_quiet .main d (bytes.take (frames * s.params.frameSize)) frames
    s.journal
  rcases reply : Device.writeIn .main d (bytes.take (frames * s.params.frameSize)) frames
    s.journal with ⟨outcome, d', j⟩
  rw [reply] at tried
  cases outcome with
  | ok n =>
    simp only [enqueue, reply]
    exact owned d' _ j tried
  | broken f =>
    simp only [enqueue, reply]
    exact owned d' _ j tried
  | failed e =>
    have warned : s.journal.Quiet δ (j.notice .main (.enqueueFailed e)) :=
      tried.trans (Journal.quiet_notice .main rfl)
    have tried' := warned.trans (Device.recoverIn_quiet .main d' _)
    rcases reply' : Device.recoverIn .main d' (j.notice .main (.enqueueFailed e)) with
      ⟨outcome', d'', j'⟩
    rw [reply'] at tried'
    cases outcome' with
    | ok _ =>
      simp only [enqueue, reply, reply']
      exact owned d'' _ j' tried'
    | broken f =>
      simp only [enqueue, reply, reply']
      exact owned d'' _ j' tried'
    | failed e' =>
      simp only [enqueue, reply, reply']
      exact owned d'' _ _ (tried'.trans (Journal.quiet_notice .main rfl))

theorem place_quiet (s : Session δ κ) (bytes : List UInt8) (frames : Nat) :
    s.Quiet (s.place bytes frames).2 := by
  unfold place
  split
  · split
    · exact .refl s
    · split
      · exact .refl s
      · exact quiet_beside (.refl _) rfl rfl
  · rename_i d holder
    dsimp only
    split
    · exact .refl s
    · exact enqueue_quiet s holder bytes _
  · exact .refl s

theorem push_quiet (s : Session δ κ) (bytes : List UInt8) : s.Quiet (s.push bytes).2 := by
  unfold push
  dsimp only
  split
  · exact .refl s
  · have placing := place_quiet s bytes (bytes.length / s.params.frameSize)
    rcases done : s.place bytes (bytes.length / s.params.frameSize) with ⟨f | accepted, s'⟩
    · rw [done] at placing
      exact placing
    · rw [done] at placing
      exact placing.trans (quiet_beside (.refl _) rfl rfl)

theorem pushStaged_quiet (s : Session δ κ) (bytes : List UInt8) :
    s.Quiet (s.pushStaged bytes).2 := by
  have emptied : s.Quiet { s with staging := [] } := quiet_beside (.refl _) rfl rfl
  have pushed := emptied.trans (push_quiet { s with staging := [] } bytes)
  unfold pushStaged
  rcases done : push { s with staging := [] } bytes with ⟨f | accepted, s'⟩
  · rw [done] at pushed
    exact pushed
  · rw [done] at pushed
    exact pushed.trans (quiet_beside (.refl _) rfl rfl)

theorem pushTyped_quiet (s : Session δ κ) {σ : Type} [Sample σ] (samples : List σ) :
    s.Quiet (s.pushTyped samples).2 := by
  unfold pushTyped
  dsimp only
  split
  · exact push_quiet s _
  · exact pushStaged_quiet s _

variable [Callback κ]

def asks (s : Session δ κ) : Deed δ → List Poll
  | .move (@Move.pushRendered _ _ r took) =>
    match s.holder, s.pushRendered r took with
    | .owner _, (.ok _, s', _) => if s.room = 0 then [] else [s'.shared.poll]
    | _, _ => []
  | .move (.run n) => s.ofFiller fun t => t.asksInRun n s.shared
  | .move .step => s.ofFiller fun t => t.asks s.shared
  | .move .close =>
    s.ofFiller fun t => Filler.asksInFinish 3 { t with stop := true }
      { s.shared with fifo := s.fifo.map Fifo.close }
  | _ => []

def asksBy : Session δ κ → List (Deed δ) → List Poll
  | _, [] => []
  | s, a :: rest => s.asks a ++ (s.deed a).asksBy rest

theorem pushRendered_polls (s : Session δ κ) {ρ : Type} [Renderer ρ] (r : ρ) (took : Nat) :
    ∃ settled, s.Quiet settled ∧
      ((s.asks (.move (.pushRendered r took)) = [] ∧ (s.pushRendered r took).2.1 = settled) ∨
        (∃ d, s.holder = .owner d) ∧
          s.asks (.move (.pushRendered r took)) = [settled.shared.poll] ∧
          (s.pushRendered r took).2.1 = settled.summarize) := by
  have beside : ∀ (metrics : Metrics) (staging : List UInt8),
      s.Quiet { s.withMetrics metrics with staging } :=
    fun _ _ => quiet_beside (.refl _) rfl rfl
  by_cases none_free : s.room = 0
  · have unasked : s.asks (.move (.pushRendered r took)) = [] := by
      simp only [asks, none_free, if_true]
      split <;> rfl
    by_cases counted : s.mode ≠ .callback ∧ s.isRunning = true
    · refine ⟨_, beside s.metrics.countSkip s.staging, .inl ⟨unasked, ?_⟩⟩
      simp only [pushRendered, none_free, if_true, if_pos counted]
      rfl
    · refine ⟨s, .refl s, .inl ⟨unasked, ?_⟩⟩
      simp only [pushRendered, none_free, if_true, if_neg counted]
  · cases measured : s.measure r with
    | error f =>
      have done : s.pushRendered r took = (.error f, { s with staging := [] }, r) := by
        simp only [pushRendered, none_free, if_false, measured]
      refine ⟨_, beside s.metrics [], .inl ⟨?_, congrArg (·.2.1) done⟩⟩
      simp only [asks, done]
      cases s.holder <;> rfl
    | ok size =>
      let made := Renderer.render r (resize 0 size s.staging) s.params
      have waited : s.Quiet (s.advance took) := quiet_beside (Journal.quiet_advance took) rfl rfl
      have pushed := waited.trans (pushStaged_quiet (s.advance took) made.out)
      rcases placed : (s.advance took).pushStaged made.out with ⟨f | n, s'⟩
      · have done : s.pushRendered r took = (.error f, s', made.renderer) := by
          simp only [pushRendered, none_free, if_false, measured, made, placed]
        rw [placed] at pushed
        refine ⟨s', pushed, .inl ⟨?_, congrArg (·.2.1) done⟩⟩
        simp only [asks, done]
        cases s.holder <;> rfl
      · have done : s.pushRendered r took = (.ok n, s'.summarize, made.renderer) := by
          simp only [pushRendered, none_free, if_false, measured, made, placed]
        rw [placed] at pushed
        change s.Quiet s' at pushed
        by_cases owned : ∃ d, s.holder = .owner d
        · refine ⟨s', pushed, .inr ⟨owned, ?_, congrArg (·.2.1) done⟩⟩
          obtain ⟨d, holder⟩ := owned
          simp only [asks, holder, done, none_free, if_false, summarize_poll]
        · have unowned : ∀ d, s'.holder ≠ .owner d :=
            fun d holder => owned (pushed.alike.symm.owner holder)
          refine ⟨s', pushed, .inl ⟨?_, ?_⟩⟩
          · simp only [asks, done]
            cases holder : s.holder with
            | owner d => exact absurd ⟨d, holder⟩ owned
            | _ => rfl
          · rw [done, summarize_unowned unowned]

end Session

end PcmStream
