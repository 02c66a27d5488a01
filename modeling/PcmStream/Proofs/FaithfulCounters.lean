import PcmStream.Proofs.RecordedCounters
import PcmStream.Proofs.SessionOpening

/- The counters of a session and its record tell the same, at any point of a run and between any two.
   A filler and an owner write to the device each in their own way, and so each is looked at; what is
   pushed and what is skipped is counted by the calls alone. -/
namespace PcmStream

def returned : Except Fault Nat → Nat
  | .ok frames => frames
  | .error _ => 0

namespace Session

variable {δ κ : Type}

/-- Who has the device goes by the mode, and a filler has not ended but by a fault that shows. -/
def Tended [Callback κ] (s : Session δ κ) (events : List Event) : Prop :=
  match s.holder with
  | .filler t => s.mode ≠ .queue ∧ t.Works s.params events
  | .owner _ => s.mode = .queue
  | .nobody => True

theorem works_of_tended [Callback κ] {s : Session δ κ} {events : List Event} (h : s.Tended events)
    {t : Filler δ κ} (holder : s.holder = .filler t) :
    s.mode ≠ .queue ∧ t.Works s.params events := by
  simpa only [Tended, holder] using h

theorem queue_of_tended [Callback κ] {s : Session δ κ} {events : List Event} (h : s.Tended events)
    {d : δ} (holder : s.holder = .owner d) : s.mode = .queue := by
  simpa only [Tended, holder] using h

theorem tended_congr [Callback κ] {s s' : Session δ κ} {events : List Event} (h : s.Tended events)
    (holder : s'.holder = s.holder)
    (terms : s'.terms = s.terms) : s'.Tended events := by
  unfold Tended at h ⊢
  rw [holder, mode_of_terms terms, params_of_terms terms]
  exact h

theorem tended_mono [Callback κ] {s : Session δ κ} {events more : List Event}
    (h : s.Tended events) (within : events ⊆ more) : s.Tended more := by
  unfold Tended at h ⊢
  split at h
  · obtain ⟨threaded, works⟩ := h
    refine ⟨threaded, works.params, works.stop, works.unfinished, ?_⟩
    intro f broken
    exact (works.lasts f broken).mono within
  · exact h
  · trivial

variable [Device δ]

theorem enqueue_enters (s : Session δ κ) (queue : s.mode = .queue) (d : δ) (bytes : List UInt8)
    (frames : Nat) :
    ∃ more, s.shared.Enters δ s.mode s.params more (s.enqueue d bytes frames).2.shared := by
  have thread : s.mode.thread = .main := by
    rw [queue]
    rfl
  generalize offered : bytes.take (frames * s.params.frameSize) = src
  generalize wrote : Device.write d s.journal.now src frames = reply
  cases outcome : reply.outcome with
  | ok n =>
    have attempt : Attempt δ s.mode s.params _ := .settled wrote (by simp [outcome])
    rw [outcome, thread] at attempt
    simp only [enqueue, Device.writeIn, offered, wrote, outcome]
    refine ⟨_, ⟨?_, (Piece.attempt attempt).alone, ?_⟩⟩
    · simp [journal]
    · simp [Metrics.heed]
      rfl
  | broken f =>
    have attempt : Attempt δ s.mode s.params _ := .settled wrote (by simp [outcome])
    rw [outcome, thread] at attempt
    simp only [enqueue, Device.writeIn, offered, wrote, outcome]
    refine ⟨_, ⟨?_, (Piece.attempt attempt).alone, ?_⟩⟩
    · simp [journal]
    · simp [Metrics.heed]
      rfl
  | failed e =>
    generalize asked : ((reply.enter .main s.journal).call
      (.wrote frames src (.failed e))).notice .main (.enqueueFailed e) = j
    generalize recovered : Device.recover reply.device j.now = recovery
    have attempt : Attempt δ s.mode s.params _ := .failed wrote outcome recovered
    have record : j.events = s.shared.journal.events ++ reply.asides .main ++
        [.call (.wrote frames src (.failed e)), .notice .main (.enqueueFailed e)] := by
      simp [← asked, journal]
    cases outcome' : recovery.outcome with
    | ok _ =>
      rw [outcome', thread] at attempt
      simp only [enqueue, Device.writeIn, Device.recoverIn, offered, wrote, outcome, asked,
        recovered, outcome']
      refine ⟨_, ⟨?_, (Piece.attempt attempt).alone, ?_⟩⟩
      · simp [record, Mode.aftermath, Thread.report]
      · simp [Metrics.heed, Mode.aftermath]
        rfl
    | broken f =>
      rw [outcome', thread] at attempt
      simp only [enqueue, Device.writeIn, Device.recoverIn, offered, wrote, outcome, asked,
        recovered, outcome']
      refine ⟨_, ⟨?_, (Piece.attempt attempt).alone, ?_⟩⟩
      · simp [record, Mode.aftermath, Thread.report]
      · simp [Metrics.heed, Mode.aftermath]
        rfl
    | failed e' =>
      rw [outcome', thread] at attempt
      simp only [enqueue, Device.writeIn, Device.recoverIn, offered, wrote, outcome, asked,
        recovered, outcome']
      refine ⟨_, ⟨?_, (Piece.attempt attempt).alone, ?_⟩⟩
      · simp [record, Mode.aftermath, Mode.rest, Mode.thread, queue, Thread.report]
      · simp [Metrics.heed, Mode.aftermath]
        rfl

/-- From `s` to `s'` the record grows by whole pieces, and the counters by what is due for them. -/
structure Reckons (s : Session δ κ) (more : List Event) (placed skipped : Nat)
    (s' : Session δ κ) : Prop where
  events : s'.journal.events = s.journal.events ++ more
  conduct : Conduct δ s.mode s.params more
  metrics : ∀ c : Metrics, s.metrics = c.wrapped →
    s'.metrics = (c.plus (.due more placed skipped)).wrapped
  terms : s'.terms = s.terms

theorem reckons_of_enters {s s' : Session δ κ} {more : List Event}
    (entered : s.shared.Enters δ s.mode s.params more s'.shared) (terms : s'.terms = s.terms) :
    s.Reckons more 0 0 s' := by
  constructor
  · exact entered.events
  · exact entered.conduct
  · intro c same
    have heeded : s'.metrics = more.foldl Metrics.heed s.metrics := entered.metrics
    rw [heeded, same, Metrics.foldl_heed]
  · exact terms

variable [Callback κ]

def Leads (s : Session δ κ) (events : List Event) (placed skipped : Nat) (s' : Session δ κ) : Prop :=
  ∃ more, s.Reckons more placed skipped s' ∧ s'.Tended (events ++ more)

variable {s s' s'' : Session δ κ} {events : List Event} {n n' k k' : Nat}

theorem Leads.trans (h : s.Leads events n k s')
    (next : ∀ events, s'.Tended events → s'.Leads events n' k' s'') :
    s.Leads events (n + n') (k + k') s'' := by
  obtain ⟨more, first, tended⟩ := h
  obtain ⟨later, second, tended'⟩ := next _ tended
  refine ⟨more ++ later, ?_, by rwa [← List.append_assoc]⟩
  have conduct := second.conduct
  rw [mode_of_terms first.terms, params_of_terms first.terms] at conduct
  constructor
  · rw [second.events, first.events, List.append_assoc]
  · exact first.conduct.append conduct
  · intro c same
    rw [second.metrics _ (first.metrics c same), Metrics.due_append, Metrics.plus_assoc]
  · exact second.terms.trans first.terms

theorem leads_quiet (h : s.Tended events) (record : s'.journal.events = s.journal.events)
    (metrics : s'.metrics = s.metrics) (terms : s'.terms = s.terms)
    (holder : s'.holder = s.holder) : s.Leads events 0 0 s' := by
  refine ⟨[], ⟨by simp [record], .nil, ?_, terms⟩, ?_⟩
  · intro c same
    rw [metrics, same, Metrics.due_nil]
  · rw [List.append_nil]
    exact tended_congr h holder terms

theorem leads_count (h : s.Tended events) (frames : Nat) :
    s.Leads events frames 0 (s.withMetrics (s.metrics.countPush frames)) := by
  refine ⟨[], ⟨by simp [withMetrics, journal], .nil, ?_, rfl⟩, ?_⟩
  · intro c same
    change s.metrics.countPush frames = _
    rw [same]
    simp [Metrics.countPush, Metrics.wrapped, Metrics.bump_mod, Metrics.plus, Metrics.due, misses]
  · rw [List.append_nil]
    exact h

theorem leads_skip (h : s.Tended events) :
    s.Leads events 0 1 (s.withMetrics s.metrics.countSkip) := by
  refine ⟨[], ⟨by simp [withMetrics, journal], .nil, ?_, rfl⟩, ?_⟩
  · intro c same
    change s.metrics.countSkip = _
    rw [same]
    simp [Metrics.countSkip, Metrics.wrapped, Metrics.bump_mod, Metrics.plus, Metrics.due, misses]
  · rw [List.append_nil]
    exact h

theorem leads_of_enters {more : List Event}
    (entered : s.shared.Enters δ s.mode s.params more s'.shared) (terms : s'.terms = s.terms)
    (tended : s'.Tended (events ++ more)) : s.Leads events 0 0 s' :=
  ⟨more, reckons_of_enters entered terms, tended⟩

theorem place_leads (h : s.Tended events) (bytes : List UInt8) (frames : Nat) :
    s.Leads events 0 0 (s.place bytes frames).2 := by
  have terms := place_terms s bytes frames
  have still : s.Leads events 0 0 s := leads_quiet h rfl rfl rfl rfl
  unfold place at terms ⊢
  split
  · split
    · exact still
    · split
      · exact still
      · exact leads_quiet h rfl rfl rfl rfl
  · rename_i d holder
    have queue := queue_of_tended h holder
    simp only [holder] at terms
    dsimp only at terms ⊢
    split
    · exact still
    · rename_i some_room
      rw [if_neg some_room] at terms
      obtain ⟨more, entered⟩ := enqueue_enters s queue d bytes (min frames _)
      have kept : ∃ d', (s.enqueue d bytes (min frames
          (Device.freeFrames d s.journal.now))).2.holder = .owner d' := by
        unfold enqueue
        dsimp only
        split
        · exact ⟨_, rfl⟩
        · exact ⟨_, rfl⟩
        · split <;> exact ⟨_, rfl⟩
      obtain ⟨d', holder'⟩ := kept
      refine leads_of_enters entered terms ?_
      unfold Tended
      rw [holder', mode_of_terms terms]
      exact queue
  · exact still

theorem push_leads (h : s.Tended events) (bytes : List UInt8) :
    s.Leads events (returned (s.push bytes).1) 0 (s.push bytes).2 := by
  unfold push
  dsimp only
  split
  · exact leads_quiet h rfl rfl rfl rfl
  · have placing := place_leads h bytes (bytes.length / s.params.frameSize)
    rcases done : s.place bytes (bytes.length / s.params.frameSize) with ⟨f | accepted, s'⟩
    · rw [done] at placing
      exact placing
    · rw [done] at placing
      have counted := placing.trans fun _ tended => leads_count tended accepted
      rwa [Nat.zero_add] at counted

theorem pushStaged_leads (h : s.Tended events) (bytes : List UInt8) :
    s.Leads events (returned (s.pushStaged bytes).1) 0 (s.pushStaged bytes).2 := by
  have emptied : s.Leads events 0 0 { s with staging := [] } := leads_quiet h rfl rfl rfl rfl
  have pushed := emptied.trans fun _ tended => push_leads tended bytes
  rw [Nat.zero_add] at pushed
  unfold pushStaged
  rcases done : push { s with staging := [] } bytes with ⟨f | accepted, s'⟩
  · rw [done] at pushed
    exact pushed
  · rw [done] at pushed
    have staged : ∀ events, s'.Tended events →
        s'.Leads events 0 0 { s' with staging := bytes } := by
      intro events tended
      exact leads_quiet tended rfl rfl rfl rfl
    exact pushed.trans staged

theorem pushTyped_leads (h : s.Tended events) {σ : Type} [Sample σ] (samples : List σ) :
    s.Leads events (returned (s.pushTyped samples).1) 0 (s.pushTyped samples).2 := by
  unfold pushTyped
  dsimp only
  split
  · exact push_leads h _
  · exact pushStaged_leads h _

theorem summarize_leads (h : s.Tended events) : s.Leads events 0 0 s.summarize := by
  have terms := summarize_terms s
  unfold summarize at terms ⊢
  split
  · rename_i d holder
    obtain ⟨more, entered⟩ := Shared.summarize_enters (δ := δ) s.shared s.log .main
    refine leads_of_enters entered rfl ?_
    have queue := queue_of_tended h holder
    simpa [Tended, holder] using queue
  · exact leads_quiet h rfl rfl rfl rfl

/-- A turn that finds no room, in a session that runs and is not in callback mode. -/
def skips (s : Session δ κ) : Prop := s.room = 0 ∧ s.mode ≠ .callback ∧ s.isRunning = true

instance (s : Session δ κ) : Decidable s.skips := inferInstanceAs (Decidable (_ ∧ _ ∧ _))

theorem pushRendered_leads (h : s.Tended events) {ρ : Type} [Renderer ρ] (r : ρ) (took : Nat) :
    s.Leads events (returned (s.pushRendered r took).1) (if s.skips then 1 else 0)
      (s.pushRendered r took).2.1 := by
  unfold pushRendered
  dsimp only
  split
  · rename_i none_free
    split
    · rename_i counted
      rw [if_pos ⟨none_free, counted⟩]
      exact leads_skip h
    · rename_i uncounted
      rw [if_neg fun skips => uncounted skips.2]
      exact leads_quiet h rfl rfl rfl rfl
  · rename_i some_room
    rw [if_neg fun skips => some_room skips.1]
    split
    · exact leads_quiet h rfl rfl rfl rfl
    · rename_i size _
      have passed : s.Leads events 0 0 (s.advance took) := leads_quiet h rfl rfl rfl rfl
      have pushed := passed.trans fun _ tended => pushStaged_leads tended
        (Renderer.render r (resize 0 size s.staging) s.params).out
      rw [Nat.zero_add] at pushed
      split
      · rename_i f s' done
        rw [done] at pushed
        exact pushed
      · rename_i accepted s' done
        rw [done] at pushed
        exact pushed.trans fun _ tended => summarize_leads tended

theorem run_leads (h : s.Tended events) (n : Nat) : s.Leads events 0 0 (s.run n).2 := by
  cases holder : s.holder with
  | filler t =>
    obtain ⟨threaded, works⟩ := works_of_tended h holder
    obtain ⟨t', shared, same, more, entered, works'⟩ :=
      run_keeps (P := fun t' shared => ∃ more,
          s.shared.Enters δ s.mode s.params more shared ∧ t'.Works s.params (events ++ more))
        (fun t' shared kept => Filler.step_works threaded t' shared kept) n holder
        ⟨[], .refl s.shared, by simpa using works⟩
    rw [same]
    exact leads_of_enters entered rfl ⟨threaded, works'⟩
  | owner d =>
    rw [run_unthreaded (by simp [holder])]
    exact leads_quiet h rfl rfl rfl rfl
  | nobody =>
    rw [run_unthreaded (by simp [holder])]
    exact leads_quiet h rfl rfl rfl rfl

theorem step_leads (h : s.Tended events) : s.Leads events 0 0 s.step := by
  unfold step
  split
  · rename_i t holder
    obtain ⟨threaded, works⟩ := works_of_tended h holder
    obtain ⟨more, entered, works'⟩ := Filler.step_works threaded t s.shared
      ⟨[], .refl s.shared, by simpa using works⟩
    exact leads_of_enters entered rfl ⟨threaded, works'⟩
  · exact leads_quiet h rfl rfl rfl rfl

theorem close_leads (h : s.Tended events) : s.Leads events 0 0 s.close := by
  have shut : s.shared.Enters δ s.mode s.params []
      { s.shared with fifo := s.fifo.map Fifo.close } := ⟨by simp, .nil, rfl⟩
  unfold close
  dsimp only
  split
  · rename_i t holder
    obtain ⟨threaded, works⟩ := works_of_tended h holder
    obtain ⟨more, released⟩ :=
      t.release_enters threaded { s.shared with fifo := s.fifo.map Fifo.close }
    rw [works.params] at released
    exact leads_of_enters
      ((shut.trans released).trans (Shared.notice_enters _ .main .sessionClosed)) rfl trivial
  · rename_i d holder
    have closed : s.shared.Enters δ s.mode s.params _
        { s.shared with
          fifo := s.fifo.map Fifo.close, journal := Device.disconnectIn d s.shared.journal } :=
      ⟨by simp [Device.disconnectIn], (Piece.closed d s.shared.journal.now).alone,
        by simp [Metrics.heed]; rfl⟩
    exact leads_of_enters (closed.trans (Shared.notice_enters _ .main .sessionClosed)) rfl trivial
  · rename_i holder
    exact leads_quiet h rfl rfl rfl rfl

def placed (s : Session δ κ) : Deed δ → Nat
  | .move m => returned (s.move m).1
  | _ => 0

def skipped (s : Session δ κ) : Deed δ → Nat
  | .move (@Move.pushRendered _ _ _ _) => if s.skips then 1 else 0
  | _ => 0

def placedBy : Session δ κ → List (Deed δ) → Nat
  | _, [] => 0
  | s, a :: rest => s.placed a + (s.deed a).placedBy rest

def skippedBy : Session δ κ → List (Deed δ) → Nat
  | _, [] => 0
  | s, a :: rest => s.skipped a + (s.deed a).skippedBy rest

theorem deed_leads (h : s.Tended events) (a : Deed δ) :
    s.Leads events (s.placed a) (s.skipped a) (s.deed a) := by
  cases a with
  | move m =>
    cases m with
    | push bytes => exact push_leads h bytes
    | pushTyped samples => exact pushTyped_leads h samples
    | pushRendered r took => exact pushRendered_leads h r took
    | run n => exact run_leads h n
    | step => exact step_leads h
    | wait nanos => exact leads_quiet h rfl rfl rfl rfl
    | close => exact close_leads h
  | request r =>
    unfold deed
    dsimp only
    split
    · exact leads_quiet h rfl rfl rfl rfl
    · exact leads_quiet h rfl rfl rfl rfl
  | change f =>
    have kept : ∀ s' : Session δ κ, s'.shared = s.shared → s'.terms = s.terms →
        s'.Tended events → s.Leads events 0 0 s' := by
      intro s' shared terms tended
      refine ⟨[], ⟨?_, .nil, ?_, terms⟩, by simpa using tended⟩
      · simp [journal, shared]
      · intro c same
        rw [Metrics.due_nil, ← same, metrics, metrics, shared]
    unfold deed
    dsimp only
    split
    · rename_i t holder
      obtain ⟨threaded, works⟩ := works_of_tended h holder
      have works' : Filler.Works { t with device := f t.device } s.params events :=
        ⟨works.params, works.stop, works.unfinished, works.lasts⟩
      exact kept { s with holder := .filler { t with device := f t.device } } rfl rfl
        ⟨threaded, works'⟩
    · rename_i d holder
      have queue := queue_of_tended h holder
      exact kept { s with holder := .owner (f d) } rfl rfl queue
    · exact leads_quiet h rfl rfl rfl rfl

theorem deeds_lead (all : List (Deed δ)) (h : s.Tended events) :
    s.Leads events (s.placedBy all) (s.skippedBy all) (s.deeds all) := by
  induction all generalizing s events with
  | nil => exact leads_quiet h rfl rfl rfl rfl
  | cons a rest ih => exact (deed_leads h a).trans fun _ tended => ih tended

section Queue

def framesTaken (s : Session δ κ) : Nat := (s.journal.calls.map Call.framesTaken).sum

omit [Callback κ] in
theorem enqueue_taken (s : Session δ κ) (d : δ) (bytes : List UInt8) (frames : Nat) :
    (s.enqueue d bytes frames).2.framesTaken =
      s.framesTaken + returned (s.enqueue d bytes frames).1 := by
  have tried := Device.writeIn_calls .main d (bytes.take (frames * s.params.frameSize)) frames
    s.journal
  rcases reply : Device.writeIn .main d (bytes.take (frames * s.params.frameSize)) frames
    s.journal with ⟨outcome, d', j⟩
  rw [reply] at tried
  have sums : ∀ (calls : List Call) (more : List Call) (taken : Nat),
      calls = s.journal.calls ++ more → (more.map Call.framesTaken).sum = taken →
      (calls.map Call.framesTaken).sum = s.framesTaken + taken := by
    rintro _ more taken rfl rfl
    rw [List.map_append, List.sum_append_nat, framesTaken]
  cases outcome with
  | ok n =>
    simp only [enqueue, reply]
    exact sums _ _ _ tried rfl
  | broken f =>
    simp only [enqueue, reply]
    exact sums _ _ _ tried rfl
  | failed e =>
    have tried' := Device.recoverIn_calls .main d' (j.notice .main (.enqueueFailed e))
    rcases reply' : Device.recoverIn .main d' (j.notice .main (.enqueueFailed e)) with
      ⟨outcome', d'', j'⟩
    rw [reply', Journal.calls_notice, tried, List.append_assoc] at tried'
    cases outcome' with
    | ok _ =>
      simp only [enqueue, reply, reply']
      exact sums _ _ _ tried' rfl
    | broken f =>
      simp only [enqueue, reply, reply']
      exact sums _ _ _ tried' rfl
    | failed e' =>
      simp only [enqueue, reply, reply']
      exact sums _ _ _ ((Journal.calls_notice _ _ _).trans tried') rfl

omit [Callback κ] in
theorem place_taken (unthreaded : ∀ t, s.holder ≠ .filler t) (bytes : List UInt8) (frames : Nat) :
    (s.place bytes frames).2.framesTaken = s.framesTaken + returned (s.place bytes frames).1 := by
  cases holder : s.holder with
  | filler t => exact absurd holder (unthreaded t)
  | nobody => simp [place, holder, returned]
  | owner d =>
    simp only [place, holder]
    split
    · rfl
    · exact enqueue_taken s d bytes _

omit [Callback κ] in
theorem push_taken (unthreaded : ∀ t, s.holder ≠ .filler t) (bytes : List UInt8) :
    (s.push bytes).2.framesTaken = s.framesTaken + returned (s.push bytes).1 := by
  have placing := place_taken unthreaded bytes (bytes.length / s.params.frameSize)
  unfold push
  dsimp only
  split
  · rfl
  · rcases done : s.place bytes (bytes.length / s.params.frameSize) with ⟨f | accepted, s'⟩
    · rwa [done] at placing
    · rwa [done] at placing

omit [Callback κ] in
theorem pushStaged_taken (unthreaded : ∀ t, s.holder ≠ .filler t) (bytes : List UInt8) :
    (s.pushStaged bytes).2.framesTaken = s.framesTaken + returned (s.pushStaged bytes).1 := by
  have pushed := push_taken (s := { s with staging := [] }) unthreaded bytes
  unfold pushStaged
  rcases done : push { s with staging := [] } bytes with ⟨f | accepted, s'⟩
  · rwa [done] at pushed
  · rwa [done] at pushed

omit [Device δ] [Callback κ] in
theorem summarize_taken (s : Session δ κ) : s.summarize.framesTaken = s.framesTaken := by
  unfold summarize
  split
  · have quiet := Shared.summarize_calls (s := s.shared) s.log .main
    simpa [framesTaken, journal] using congrArg (fun calls => (calls.map Call.framesTaken).sum)
      quiet.calls
  · rfl

omit [Callback κ] in
theorem pushRendered_taken (unthreaded : ∀ t, s.holder ≠ .filler t) {ρ : Type} [Renderer ρ] (r : ρ)
    (took : Nat) : (s.pushRendered r took).2.1.framesTaken =
      s.framesTaken + returned (s.pushRendered r took).1 := by
  unfold pushRendered
  split
  · split <;> rfl
  · split
    · rfl
    · rename_i size _
      have pushed := pushStaged_taken (s := s.advance took) unthreaded
        (Renderer.render r (resize 0 size s.staging) s.params).out
      dsimp only
      split
      · rename_i done
        rwa [done] at pushed
      · rename_i done
        rw [done] at pushed
        exact (summarize_taken _).trans pushed

theorem deed_taken (unthreaded : ∀ t, s.holder ≠ .filler t) (a : Deed δ) :
    (s.deed a).framesTaken = s.framesTaken + s.placed a := by
  cases a with
  | move m =>
    cases m with
    | push bytes => exact push_taken unthreaded bytes
    | pushTyped samples =>
      simp only [deed, placed, move, pushTyped]
      split
      · exact push_taken unthreaded _
      · exact pushStaged_taken (s := s) unthreaded _
    | pushRendered r took => exact pushRendered_taken unthreaded r took
    | run n => simp [deed, placed, move, run_unthreaded unthreaded, returned]
    | step => simp [deed, placed, move, step_unthreaded unthreaded, returned]
    | wait nanos => rfl
    | close =>
      cases holder : s.holder with
      | filler t => exact absurd holder (unthreaded t)
      | nobody => simp [deed, placed, move, close, holder, framesTaken, journal, returned]
      | owner d =>
        simp [deed, placed, move, close, closed, holder, framesTaken, journal, Shared.notice,
          Device.disconnectIn, Call.framesTaken, returned]
  | request r =>
    simp only [deed, placed]
    split <;> rfl
  | change f =>
    simp only [deed, placed]
    split <;> rfl

omit [Device δ] [Callback κ] in
theorem framesTaken_due {more : List Event} (entered : s'.journal.events = s.journal.events ++ more)
    (placed skipped : Nat) :
    s'.framesTaken = s.framesTaken + (Metrics.due more placed skipped).framesWritten := by
  simp only [framesTaken, Journal.calls_eq, entered, Metrics.due, List.filterMap_append, List.map_append,
    List.sum_append_nat]

theorem deeds_taken (all : List (Deed δ)) (queue : s.mode = .queue) (h : s.Tended events) :
    (s.deeds all).framesTaken = s.framesTaken + s.placedBy all := by
  induction all generalizing s events with
  | nil => rfl
  | cons a rest ih =>
    have unthreaded : ∀ t, s.holder ≠ .filler t :=
      fun t holder => (works_of_tended h holder).1 queue
    obtain ⟨more, reckoned, tended⟩ := deed_leads h a
    have later := ih ((mode_of_terms reckoned.terms).trans queue) tended
    rw [deed_taken unthreaded a, Nat.add_assoc] at later
    exact later

end Queue

variable {config : Config} {feed : Feed κ} {d : δ} {around : Surroundings} {s₀ : Session δ κ}

theorem start_tended (started : start config feed d around = .session s₀) :
    ∃ first, s₀.journal.events = around.journal.events ++
        ((Device.connect d around.journal.now config.params).asides .main ++
          [.call (.opened config.params)]) ++ first ∧
      Conduct δ s₀.mode s₀.params first ∧ s₀.metrics = (Metrics.due first 0 0).wrapped ∧
      (s₀.mode = .queue → (Metrics.due first 0 0).framesWritten = 0) ∧ s₀.Tended first := by
  obtain ⟨d', j, p, s, n, reply, _, prepared, rfl⟩ := start_prepared started
  have opened : j.events = around.journal.events ++
      ((Device.connect d around.journal.now config.params).asides .main ++
        [.call (.opened config.params)]) := by
    simp only [Device.connectIn, Prod.mk.injEq] at reply
    simp [← reply.2.2]
  obtain ⟨fifo, more, entered, unwritten, tended⟩ : ∃ fifo more,
      Shared.Enters δ s.mode s.params { fifo, journal := j } more s.shared ∧
        (s.mode = .queue → more = []) ∧ s.Tended more := by
    cases prepared with
    | @thread supply fifo supplied t began taken =>
      have threaded : feed.mode ≠ .queue := by
        cases supplied <;> simp [Feed.mode]
      have works : t.Works p [] := by
        subst began
        constructor
        · rfl
        · rfl
        · simp
        · intro f broken
          cases broken
      obtain ⟨more, entered, works'⟩ :=
        Filler.approach_keeps
          (P := fun t shared => ∃ more,
            Shared.Enters δ feed.mode p { fifo, journal := j } more shared ∧ t.Works p ([] ++ more))
          (Filler.step_works threaded) taken ⟨[], .refl _, works⟩
      exact ⟨fifo, more, entered, fun queue => absurd queue threaded, threaded, works'⟩
    | owner queue =>
      subst queue
      exact ⟨none, [], .refl _, fun _ => rfl, rfl⟩
  have announced := entered.trans (Shared.notice_enters s.shared .main n)
  refine ⟨_, ?_, announced.conduct, ?_, ?_, ?_⟩
  · rw [← opened]
    exact announced.events
  · have heeded := announced.metrics
    rw [show ({ fifo, journal := j } : Shared).metrics = Metrics.wrapped {} from rfl,
      Metrics.foldl_heed] at heeded
    have whole : Metrics.plus {} (.due (more ++ [.notice .main n]) 0 0) =
        .due (more ++ [.notice .main n]) 0 0 := by
      simp [Metrics.plus]
    rw [whole] at heeded
    exact heeded
  · intro queue
    rw [unwritten queue]
    rfl
  · exact tended_mono (tended_congr tended rfl rfl) (by simp)

theorem start_settles (started : start config feed d around = .session s₀) (deeds : List (Deed δ)) :
    (s₀.deeds deeds).terms = s₀.terms ∧ (s₀.deeds deeds).mode = feed.mode ∧
      (∀ t, (s₀.deeds deeds).holder = .filler t → feed.mode ≠ .queue) ∧
      ∀ d', (s₀.deeds deeds).holder = .owner d' → feed.mode = .queue := by
  have mode : s₀.mode = feed.mode := by
    obtain ⟨d', j, p, s, n, _, _, prepared, rfl⟩ := start_prepared started
    have settled := prepared_terms prepared
    simp only [terms, Prod.mk.injEq] at settled
    exact settled.2.2.2
  obtain ⟨first, _, _, _, _, tended⟩ := start_tended started
  obtain ⟨more, reckoned, tended'⟩ := deeds_lead deeds tended
  have mode' := (mode_of_terms reckoned.terms).trans mode
  rw [← mode']
  exact ⟨reckoned.terms, rfl, fun t holder => (works_of_tended tended' holder).1,
    fun d' holder => queue_of_tended tended' holder⟩

theorem start_unthreaded (started : start config .queue d around = .session s₀)
    (deeds : List (Deed δ)) :
    (s₀.deeds deeds).mode = .queue ∧ ∀ t, (s₀.deeds deeds).holder ≠ .filler t := by
  obtain ⟨_, queue, threaded, _⟩ := start_settles started deeds
  exact ⟨queue, fun t holder => threaded t holder rfl⟩

/-- In any mode, with any device and callback, after any deeds: the record since the device was opened
    is made of whole pieces, and so each failed write has its one recovery before the next write, and
    each recovery that failed its one rest in a filler and none in an owner. The counters are those
    of the record, of the frames that the calls said they placed and of the turns they skipped; and
    so is their growth between any two points. In queue mode the frames placed are those that the
    device said it took. Before its end a filler is alive, unless a fault has ended it. -/
theorem counters_are_faithful (started : start config feed d around = .session s₀)
    (earlier later : List (Deed δ)) :
    let s := s₀.deeds earlier
    let s' := s.deeds later
    let opened := (Device.connect d around.journal.now config.params).asides .main ++
      [.call (.opened config.params)]
    ∃ first more,
      s.journal.events = around.journal.events ++ opened ++ first ∧
      s'.journal.events = s.journal.events ++ more ∧
      Conduct δ s₀.mode s₀.params first ∧ Conduct δ s₀.mode s₀.params more ∧
      let counted := Metrics.due first (s₀.placedBy earlier) (s₀.skippedBy earlier)
      let growth := Metrics.due more (s.placedBy later) (s.skippedBy later)
      (first.filterMap Event.call?).countP Call.isRecovery = counted.deviceErrors ∧
      (more.filterMap Event.call?).countP Call.isRecovery = growth.deviceErrors ∧
      s.metrics = counted.wrapped ∧ s'.metrics = (counted.plus growth).wrapped ∧
      ((counted.plus growth).Fits → s.metrics = counted ∧ s'.metrics = counted.plus growth ∧
        s'.metrics.growthFrom s.metrics = growth) ∧
      (feed.mode = .queue → counted.framesPushed = counted.framesWritten ∧
        growth.framesPushed = growth.framesWritten) ∧
      ∀ t, s.holder = .filler t →
        t.isAlive = true ∨ ∃ f, t.stage = .broken f ∧ Faulted κ s₀.params first f := by
  intro s s' opened
  obtain ⟨begun, record, conduct, metrics, unwritten, tended⟩ := start_tended started
  obtain ⟨first, reckoned, tended'⟩ := deeds_lead earlier tended
  obtain ⟨more, reckoned', _⟩ := deeds_lead later tended'
  have terms := reckoned.terms
  have conduct' := reckoned'.conduct
  rw [mode_of_terms terms, params_of_terms terms] at conduct'
  let counted := Metrics.due (begun ++ first) (s₀.placedBy earlier) (s₀.skippedBy earlier)
  let growth := Metrics.due more (s.placedBy later) (s.skippedBy later)
  have both := Metrics.due_append begun first 0 (s₀.placedBy earlier) 0 (s₀.skippedBy earlier)
  rw [Nat.zero_add, Nat.zero_add] at both
  have shown : s.metrics = counted.wrapped := by
    rw [reckoned.metrics _ metrics, ← both]
  have shown' : s'.metrics = (counted.plus growth).wrapped := reckoned'.metrics counted shown
  refine ⟨begun ++ first, more, ?_, reckoned'.events, conduct.append reckoned.conduct, conduct',
    ?_, ?_, shown, shown', ?_, ?_, ?_⟩
  · rw [reckoned.events, record]
    simp only [opened, List.append_assoc]
  · exact recoveries_of_conduct (conduct.append reckoned.conduct)
  · exact recoveries_of_conduct conduct'
  · intro fits
    rw [Metrics.wrapped_of_fits fits] at shown'
    rw [Metrics.wrapped_of_fits (Metrics.fits_of_plus fits)] at shown
    refine ⟨shown, shown', ?_⟩
    rw [shown, shown']
    exact Metrics.growthFrom_plus counted growth
  -- The owner alone writes, so that what the device took is what the calls have placed.
  · intro queue
    have mode : s₀.mode = .queue := (start_settles started []).2.1.trans queue
    have taken := deeds_taken earlier mode tended
    have taken' := deeds_taken later ((mode_of_terms terms).trans mode) tended'
    rw [framesTaken_due reckoned.events (s₀.placedBy earlier) (s₀.skippedBy earlier),
      Nat.add_left_cancel_iff] at taken
    rw [framesTaken_due reckoned'.events (s.placedBy later) (s.skippedBy later),
      Nat.add_left_cancel_iff] at taken'
    have whole := congrArg Metrics.framesWritten both
    simp only [Metrics.plus, unwritten mode, Nat.zero_add, taken] at whole
    exact ⟨whole.symm, taken'.symm⟩
  · intro t holder
    obtain ⟨_, works⟩ := works_of_tended tended' holder
    rw [params_of_terms terms] at works
    cases stage : t.stage with
    | finished => exact absurd stage works.unfinished
    | broken f => exact .inr ⟨f, rfl, works.lasts f stage⟩
    | _ => exact .inl (by simp [Filler.isAlive, stage])

/-- In packet mode a short write and a skipped turn, then a write that fails and a recovery that fails
    too: the filler rests once. In queue mode the same two writes and the same recovery: what was
    placed is what the device took, and the owner does not rest. -/
theorem failures_are_counted :
    let config : Config :=
      { sampleRate := 8000, bufferFrames := 4, packetFrames := 2, packetCount := 4, format := .i16 }
    let device : ScriptedDevice :=
      { free := 6, writes := [.short 3, .failed .underrun], recoveries := [some .notOpen] }
    let voice : Voice := .int16 { producer := .clip { data := [1, 2, 3] } }
    let pushed : List (Deed ScriptedDevice) :=
      [.move (.push (silence 16)), .move (.pushRendered voice 0), .move (.run 1)]
    (∃ s₀ : Session ScriptedDevice StockCallback, start config .fifo device .ahead = .session s₀ ∧
      let s := s₀.deeds pushed
      let s' := s.deeds [.move (.run 1)]
      s.metrics = { buffersWritten := 1, framesWritten := 3, silenceBuffers := 1,
                    framesPushed := 8, pushesSkipped := 1 } ∧
      s'.metrics.growthFrom s.metrics = { deviceErrors := 1, recoveryFailures := 1 } ∧
      ∃ more, s'.journal.events = s.journal.events ++ more ∧
        Conduct ScriptedDevice .fifo s₀.params more ∧
        (more.filterMap Event.call?).countP Call.isRecovery = 1 ∧
        more.filter (· matches .sleep _) = [.sleep 500000]) ∧
    (∃ s₀ : Session ScriptedDevice StockCallback, start config .queue device {} = .session s₀ ∧
      let s := s₀.deeds [.move (.push (silence 16))]
      let s' := s.deeds [.move (.pushRendered voice 0)]
      s.metrics = { buffersWritten := 1, framesWritten := 3, framesPushed := 3 } ∧
      s.metrics.framesPushed = s.metrics.framesWritten ∧
      s'.metrics.growthFrom s.metrics = { deviceErrors := 1, recoveryFailures := 1 } ∧
      ∃ more, s'.journal.events = s.journal.events ++ more ∧
        Conduct ScriptedDevice .queue s₀.params more ∧
        (more.filterMap Event.call?).countP Call.isRecovery = 1 ∧
        more.filter (· matches .sleep _) = []) := by
  intro config device voice pushed
  have since : ∀ {j j' : Journal} {more : List Event}, j'.events = j.events ++ more →
      j'.events.drop j.events.length = more := fun record => by rw [record, List.drop_left]
  let growth : Metrics := { deviceErrors := 1, recoveryFailures := 1 }
  constructor
  · let counted : Metrics :=
      { buffersWritten := 1, framesWritten := 3, silenceBuffers := 1, framesPushed := 8,
        pushesSkipped := 1 }
    let opened : Opening ScriptedDevice StockCallback := start config .fifo device .ahead
    have evaluated : opened.session?.map (fun s₀ =>
        let s := s₀.deeds pushed
        let first := s.journal.events.drop 1
        let more := (s.deeds [.move (.run 1)]).journal.events.drop s.journal.events.length
        (s₀.mode, Metrics.due first (s₀.placedBy pushed) (s₀.skippedBy pushed),
          Metrics.due more (s.placedBy [.move (.run 1)]) (s.skippedBy [.move (.run 1)]),
          more.filter (· matches .sleep _))) =
        some (.fifo, counted, growth, [.sleep 500000]) := by decide +kernel
    obtain ⟨s₀, found, values⟩ := Option.map_eq_some_iff.mp evaluated
    simp only [Prod.mk.injEq] at values
    obtain ⟨mode, first_due, more_due, slept⟩ := values
    have started := Opening.eq_of_session? found
    obtain ⟨first, more, record, record', _, conduct, _, recoveries, _, _, exact_if, _⟩ :=
      counters_are_faithful started pushed [.move (.run 1)]
    have first_eq : (s₀.deeds pushed).journal.events.drop 1 = first := by
      rw [record]
      rfl
    rw [first_eq] at first_due
    rw [since record'] at more_due slept
    rw [first_due, more_due] at exact_if
    rw [more_due] at recoveries
    rw [mode] at conduct
    obtain ⟨metrics, _, grown⟩ := exact_if (by decide)
    exact ⟨s₀, started, metrics, grown, more, record', conduct, recoveries, slept⟩
  · let earlier : List (Deed ScriptedDevice) := [.move (.push (silence 16))]
    let later : List (Deed ScriptedDevice) := [.move (.pushRendered voice 0)]
    let counted : Metrics := { buffersWritten := 1, framesWritten := 3, framesPushed := 3 }
    let opened : Opening ScriptedDevice StockCallback := start config .queue device {}
    have evaluated : opened.session?.map (fun s₀ =>
        let s := s₀.deeds earlier
        let first := s.journal.events.drop 1
        let more := (s.deeds later).journal.events.drop s.journal.events.length
        (s₀.mode, Metrics.due first (s₀.placedBy earlier) (s₀.skippedBy earlier),
          Metrics.due more (s.placedBy later) (s.skippedBy later),
          more.filter (· matches .sleep _))) =
        some (.queue, counted, growth, []) := by decide +kernel
    obtain ⟨s₀, found, values⟩ := Option.map_eq_some_iff.mp evaluated
    simp only [Prod.mk.injEq] at values
    obtain ⟨mode, first_due, more_due, slept⟩ := values
    have started := Opening.eq_of_session? found
    obtain ⟨first, more, record, record', _, conduct, _, recoveries, _, _, exact_if, queued, _⟩ :=
      counters_are_faithful started earlier later
    have first_eq : (s₀.deeds earlier).journal.events.drop 1 = first := by
      rw [record]
      rfl
    rw [first_eq] at first_due
    rw [since record'] at more_due slept
    rw [first_due, more_due] at exact_if
    rw [first_due] at queued
    rw [more_due] at recoveries
    rw [mode] at conduct
    obtain ⟨metrics, _, grown⟩ := exact_if (by decide)
    obtain ⟨both, _⟩ := queued rfl
    rw [← metrics] at both
    exact ⟨s₀, started, metrics, both, grown, more, record', conduct, recoveries, slept⟩

end Session

end PcmStream
