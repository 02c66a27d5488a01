import PcmStream.Proofs.FaithfulCounters
import PcmStream.Proofs.RecordedSummaries

/- The summaries of a session against its record. Each of them ends a stretch of the run and gives
   what is due to the counters for that stretch alone, so that the stretches, joined, are the run up
   to the last summary; what came after it is still to be reported. -/
namespace PcmStream

/-- A stretch of a run: what it enters in the record, the frames placed in it and the turns
    skipped. -/
structure Stretch where
  record : List Event := []
  placed : Nat := 0
  skipped : Nat := 0

namespace Stretch

def growth (st : Stretch) : Metrics := .due st.record st.placed st.skipped

instance : Append Stretch where
  append a b := ⟨a.record ++ b.record, a.placed + b.placed, a.skipped + b.skipped⟩

def ended (thread : Thread) (st : Stretch) : Stretch :=
  st ++ { record := [.notice thread (.summary st.growth)] }

def chain (thread : Thread) (all : List Stretch) : Stretch :=
  all.foldr (fun st later => st.ended thread ++ later) {}

variable (thread : Thread)

theorem append_eq (a b : Stretch) :
    a ++ b = ⟨a.record ++ b.record, a.placed + b.placed, a.skipped + b.skipped⟩ := rfl

theorem append_assoc (a b c : Stretch) : a ++ b ++ c = a ++ (b ++ c) := by
  simp only [append_eq, List.append_assoc, Nat.add_assoc]

theorem append_nothing (a : Stretch) : a ++ ({} : Stretch) = a := by
  simp only [append_eq, List.append_nil, Nat.add_zero]

theorem nothing_append (a : Stretch) : ({} : Stretch) ++ a = a := by
  simp only [append_eq, List.nil_append, Nat.zero_add]

theorem growth_append (a b : Stretch) : (a ++ b).growth = a.growth.plus b.growth :=
  Metrics.due_append a.record b.record a.placed b.placed a.skipped b.skipped

theorem growth_notice (st : Stretch) (n : Notice) :
    (st ++ { record := [.notice thread n] }).growth = st.growth := by
  rw [growth_append]
  exact Metrics.plus_nothing _

theorem chain_append (earlier later : List Stretch) :
    chain thread (earlier ++ later) = chain thread earlier ++ chain thread later := by
  induction earlier with
  | nil => exact (nothing_append _).symm
  | cons st earlier ih =>
    change st.ended thread ++ chain thread (earlier ++ later) = _
    rw [ih, ← append_assoc]
    rfl

theorem chain_snoc (told : List Stretch) (last : Stretch) : chain thread (told ++ [last]) =
    chain thread told ++ last ++ { record := [.notice thread (.summary last.growth)] } := by
  have one : chain thread [last] = last.ended thread := append_nothing _
  rw [chain_append, one, append_assoc]
  rfl

theorem growth_chain (all : List Stretch) :
    (chain thread all).growth = .total (all.map growth) := by
  induction all with
  | nil => rfl
  | cons st all ih =>
    change (st.ended thread ++ chain thread all).growth = st.growth.plus (.total (all.map growth))
    rw [growth_append, ih, ended, growth_notice]

end Stretch

/-- What is settled about a run whose summaries are followed: who keeps the log, what had been
    recorded before, and which numbers of frames placed and turns skipped the run comes by. -/
structure Watch where
  thread : Thread
  before : Journal
  comes : Nat → Nat → Prop

/-- The calls so far of a log that was made at `time`, and the stretches that its summaries have
    ended. -/
structure Journal.Tells (δ : Type) [Device δ] (w : Watch) (time : Nat) (polls : List Poll)
    (told : List Stretch) (last : Stretch) (log : SummaryLog) (j : Journal) : Prop where
  steady : SummaryLog.Steady { time } polls
  since : time ≤ j.now
  past : ∀ p ∈ polls, p.stamped ≤ j.now ∧ p.metrics ≤ (Stretch.chain w.thread told ++ last).growth
  left : (SummaryLog.pollAll { time } polls).2 = log
  growths : (SummaryLog.pollAll { time } polls).1.map (·.growth) = told.map Stretch.growth
  comes : ∀ earlier later, told = earlier ++ later →
    w.comes (Stretch.chain w.thread earlier).placed (Stretch.chain w.thread earlier).skipped
  entered : ∃ own, j.summaries = w.before.summaries ++ own ∧
    ((SummaryLog.pollAll { time } polls).1.map (SummaryLine.summary w.thread)).Sublist own ∧
    (Device.Discreet δ →
      own = (SummaryLog.pollAll { time } polls).1.map (SummaryLine.summary w.thread))

/-- After a run the record and the counters are the run's, and as long as no counter has wrapped so
    are the summaries. -/
structure Shared.Sums (δ : Type) [Device δ] (w : Watch) (time : Nat) (run : Stretch)
    (polls : List Poll) (log : SummaryLog) (s : Shared) : Prop where
  events : s.journal.events = w.before.events ++ run.record
  metrics : s.metrics = run.growth.wrapped
  told : run.growth.Fits → ∃ told last, run = Stretch.chain w.thread told ++ last ∧
    s.journal.Tells δ w time polls told last log

section Sums

variable {δ : Type} [Device δ] {w : Watch} {time : Nat} {run more last : Stretch}
  {log log' : SummaryLog} {polls asks : List Poll} {p : Poll} {told : List Stretch}
  {j j' : Journal} {s s' : Shared}

theorem Journal.Tells.quiet (h : j.Tells δ w time polls told last log) (quiet : j.Quiet δ j') :
    j'.Tells δ w time polls told (last ++ more) log := by
  constructor
  · exact h.steady
  · exact Nat.le_trans h.since quiet.later
  · intro p mem
    obtain ⟨stamped, below⟩ := h.past p mem
    refine ⟨Nat.le_trans stamped quiet.later, ?_⟩
    rw [← Stretch.append_assoc, Stretch.growth_append]
    exact le_trans below (Metrics.le_plus _ _)
  · exact h.left
  · exact h.growths
  · exact h.comes
  · obtain ⟨own, summaries, within, same⟩ := h.entered
    obtain ⟨others, summaries', silent⟩ := quiet.summaries
    refine ⟨own ++ others, ?_, within.trans (List.sublist_append_left own others), ?_⟩
    · rw [summaries', summaries, List.append_assoc]
    · intro discreet
      rw [silent discreet, List.append_nil]
      exact same discreet

theorem Journal.Tells.renew (h : j.Tells δ w time [] told last log) :
    j.Tells δ w j.now [] told last { time := j.now } := by
  constructor
  · exact ⟨by simp, by simp, .nil⟩
  · exact Nat.le_refl _
  · simp
  · rfl
  · exact h.growths
  · exact h.comes
  · exact h.entered

theorem Journal.Tells.rest (h : j.Tells δ w time polls told last log) :
    (Stretch.chain w.thread told ++ last).growth.growthFrom log.covered = last.growth := by
  have sums := SummaryLog.sums_to_end h.steady
  rw [h.left, h.growths, ← Stretch.growth_chain w.thread] at sums
  -- The log covers just what its summaries have reported.
  have covered : log.covered = (Stretch.chain w.thread told).growth :=
    sums.symm.trans (Metrics.nothing_plus _)
  rw [covered, Stretch.growth_append, Metrics.growthFrom_plus]

theorem Journal.Tells.asked (h : j.Tells δ w time polls told last log)
    (now : p = ⟨j.now, j.now, (Stretch.chain w.thread told ++ last).growth⟩) :
    SummaryLog.Steady { time } (polls ++ [p]) ∧
      (∀ q ∈ polls ++ [p], q.stamped ≤ j.now ∧
        q.metrics ≤ (Stretch.chain w.thread told ++ last).growth) ∧
      SummaryLog.pollAll { time } (polls ++ [p]) =
        ((SummaryLog.pollAll { time } polls).1 ++ (log.pollAll [p]).1, (log.pollAll [p]).2) := by
  subst now
  refine ⟨h.steady.snoc ⟨h.since, Metrics.nothing_le _⟩ (Nat.le_refl _) h.past, ?_, ?_⟩
  · intro q mem
    rcases List.mem_append.mp mem with earlier | now
    · exact h.past q earlier
    · rw [List.mem_singleton.mp now]
      exact ⟨Nat.le_refl _, le_refl _⟩
  · rw [SummaryLog.pollAll_append, h.left]

theorem Journal.Tells.early (h : j.Tells δ w time polls told last log)
    (now : p = ⟨j.now, j.now, (Stretch.chain w.thread told ++ last).growth⟩)
    (early : j.now < log.time + nanosPerSecond) : j.Tells δ w time (polls ++ [p]) told last log := by
  obtain ⟨steady, past, asked⟩ := h.asked now
  rw [SummaryLog.pollAll_early (by rw [now]; exact early)] at asked
  have same : SummaryLog.pollAll { time } (polls ++ [p]) = SummaryLog.pollAll { time } polls := by
    rw [asked]
    simp [SummaryLog.pollAll, ← h.left]
  refine ⟨steady, h.since, past, ?_, ?_, h.comes, ?_⟩
  · rw [same]
    exact h.left
  · rw [same]
    exact h.growths
  · rw [same]
    exact h.entered

theorem Journal.Tells.line (h : j.Tells δ w time polls told last log)
    (now : p = ⟨j.now, j.now, (Stretch.chain w.thread told ++ last).growth⟩)
    (due : log.time + nanosPerSecond ≤ j.now)
    (comes : w.comes (Stretch.chain w.thread told ++ last).placed
      (Stretch.chain w.thread told ++ last).skipped) :
    (j.notice w.thread (.summary last.growth)).Tells δ w time (polls ++ [p]) (told ++ [last]) {}
      ⟨(Stretch.chain w.thread told ++ last).growth, j.now⟩ := by
  obtain ⟨steady, past, asked⟩ := h.asked now
  rw [SummaryLog.pollAll_due (by rw [now]; exact due)] at asked
  simp only [now, h.rest] at asked
  rw [← now] at asked
  refine ⟨steady, h.since, ?_, ?_, ?_, ?_, ?_⟩
  · rw [Stretch.append_nothing, Stretch.chain_snoc, Stretch.growth_notice]
    exact past
  · rw [asked]
    simp [SummaryLog.pollAll, SummaryLine.left, now]
  · rw [asked]
    simp [SummaryLog.pollAll, h.growths]
  · intro earlier later split
    rcases List.eq_nil_or_concat later with rfl | ⟨later, st, rfl⟩
    · rw [List.append_nil] at split
      rw [← split, Stretch.chain_snoc]
      exact comes
    · rw [List.concat_eq_append, ← List.append_assoc] at split
      exact h.comes earlier later (List.append_inj' split rfl).1
  · obtain ⟨own, summaries, within, same⟩ := h.entered
    let entered : Summary := ⟨w.thread, j.now, last.growth⟩
    refine ⟨own ++ [entered], ?_, ?_, ?_⟩
    · rw [← List.append_assoc, ← summaries]
      simp [Journal.summaries, Journal.notice, Journal.record, Entry.summary?, Event.summary?,
        Notice.growth?, entered]
    · rw [asked]
      simpa [SummaryLog.pollAll, SummaryLine.summary, now, entered] using within
    · intro discreet
      rw [asked, same discreet]
      simp [SummaryLog.pollAll, SummaryLine.summary, now, entered]

namespace Shared

theorem Sums.quiet (h : s.Sums δ w time run polls log) (quiet : s.journal.Quiet δ s'.journal)
    (events : s'.journal.events = s.journal.events ++ more.record)
    (metrics : s'.metrics = (run ++ more).growth.wrapped) :
    s'.Sums δ w time (run ++ more) polls log := by
  constructor
  · rw [events, h.events, List.append_assoc]
    rfl
  · exact metrics
  · intro fits
    rw [Stretch.growth_append] at fits
    obtain ⟨told, last, rfl, tells⟩ := h.told (Metrics.fits_of_plus fits)
    exact ⟨told, last ++ more, Stretch.append_assoc _ _ _, tells.quiet quiet⟩

theorem Sums.renew (h : s.Sums δ w time run [] log) :
    s.Sums δ w s.journal.now run [] { time := s.journal.now } := by
  refine ⟨h.events, h.metrics, ?_⟩
  intro fits
  obtain ⟨told, last, split, tells⟩ := h.told fits
  exact ⟨told, last, split, tells.renew⟩

theorem Sums.early (h : s.Sums δ w time run polls log)
    (early : s.journal.now < log.time + nanosPerSecond) :
    s.Sums δ w time run (polls ++ [s.poll]) log := by
  refine ⟨h.events, h.metrics, ?_⟩
  intro fits
  obtain ⟨told, last, rfl, tells⟩ := h.told fits
  have counted := h.metrics.trans (Metrics.wrapped_of_fits fits)
  exact ⟨told, last, rfl, tells.early (by rw [← counted]; rfl) early⟩

theorem Sums.line (h : s.Sums δ w time run polls log)
    (due : log.time + nanosPerSecond ≤ s.journal.now) (comes : w.comes run.placed run.skipped) :
    let n : Notice := .summary (s.metrics.growthFrom log.covered)
    (s.notice w.thread n).Sums δ w time (run ++ { record := [.notice w.thread n] })
      (polls ++ [s.poll]) ⟨s.metrics, s.journal.now⟩ := by
  intro n
  constructor
  · simp only [notice, Journal.events_notice, h.events, List.append_assoc]
    rfl
  · rw [Stretch.growth_notice]
    exact h.metrics
  · intro fits
    rw [Stretch.growth_notice] at fits
    obtain ⟨told, last, rfl, tells⟩ := h.told fits
    have counted := h.metrics.trans (Metrics.wrapped_of_fits fits)
    have reported : n = .summary last.growth := by
      simp only [n, counted, tells.rest]
    rw [reported, counted]
    refine ⟨told ++ [last], {}, ?_, tells.line (by rw [← counted]; rfl) due comes⟩
    rw [Stretch.append_nothing, Stretch.chain_snoc]

theorem Sums.polled (h : s.Sums δ w time run polls log) (asked : s.Polls δ w.thread log asks s' log')
    (events : s'.journal.events = s.journal.events ++ more.record)
    (metrics : s'.metrics = (run ++ more).growth.wrapped)
    (comes : w.comes (run ++ more).placed (run ++ more).skipped) :
    s'.Sums δ w time (run ++ more) (polls ++ asks) log' := by
  cases asked with
  | still quiet =>
    rw [List.append_nil]
    exact h.quiet quiet events metrics
  | @asked settled quiet =>
    rcases summarize_cases settled log w.thread with ⟨early, done⟩ | ⟨due, done⟩
    · rw [done] at events metrics ⊢
      exact (h.quiet quiet events metrics).early early
    · rw [done] at events metrics ⊢
      obtain ⟨entered, events'⟩ := quiet.events
      have record : more.record = entered ++
          [.notice w.thread (.summary (settled.metrics.growthFrom log.covered))] := by
        simp only [notice, Journal.events_notice, events', List.append_assoc] at events
        exact (List.append_cancel_left events).symm
      let unreported : Stretch := ⟨entered, more.placed, more.skipped⟩
      have parts : run ++ more = (run ++ unreported) ++
          { record := [.notice w.thread (.summary (settled.metrics.growthFrom log.covered))] } := by
        rw [Stretch.append_assoc]
        obtain ⟨entries, placed, skipped⟩ := more
        cases record
        rfl
      rw [parts, Stretch.growth_notice] at metrics
      rw [parts] at comes ⊢
      have reached : settled.Sums δ w time (run ++ unreported) polls log :=
        h.quiet quiet events' metrics
      exact reached.line due comes

end Shared

end Sums

namespace Filler

variable {δ κ : Type} [Device δ] {w : Watch} {run : Stretch} {polls : List Poll}

def Sums (t : Filler δ κ) (w : Watch) (run : Stretch) (polls : List Poll) (s : Shared) : Prop :=
  (t.stage = .starting → polls = []) ∧
    ∃ time more, s.Sums δ w time (run ++ { record := more }) polls t.log

variable [Callback κ] (fill : w.thread = .fill) (comes : w.comes run.placed run.skipped)
include fill comes

theorem step_sums (t : Filler δ κ) {s : Shared} (h : t.Sums w run polls s) :
    (t.step s).1.Sums w run (polls ++ t.asks s) (t.step s).2 := by
  have threaded : Mode.fifo ≠ .queue := by simp
  obtain ⟨unasked, time, more, sums⟩ := h
  obtain ⟨later, entered, _⟩ := step_enters t s threaded
  have metrics : (t.step s).2.metrics =
      (run ++ { record := more } ++ { record := later }).growth.wrapped := by
    rw [entered.metrics, sums.metrics, Metrics.foldl_heed,
      Stretch.growth_append (run ++ { record := more })]
    rfl
  have joined : run ++ { record := more } ++ ({ record := later } : Stretch) =
      run ++ { record := more ++ later } := Stretch.append_assoc _ _ _
  rw [joined] at metrics
  by_cases starting : t.stage = .starting
  · obtain rfl := unasked starting
    have started : t.step s = t.start s := by simp only [step, starting]
    obtain ⟨quiet, begun, log⟩ := start_quiet t s
    rw [started] at entered metrics ⊢
    rw [asks_unwritten s (by simp [starting])]
    rcases log with same | fresh
    · have sums' := sums.quiet quiet entered.events (joined ▸ metrics)
      rw [joined, ← same] at sums'
      exact ⟨fun again => absurd again begun, time, more ++ later, sums'⟩
    · have sums' := sums.renew.quiet quiet entered.events (joined ▸ metrics)
      rw [joined, ← fresh] at sums'
      exact ⟨fun again => absurd again begun, s.journal.now, more ++ later, sums'⟩
  · obtain ⟨asked, begun⟩ := step_polls t s starting
    rw [← fill] at asked
    have still : w.comes (run ++ { record := more } ++ ({ record := later } : Stretch)).placed
        (run ++ { record := more } ++ ({ record := later } : Stretch)).skipped := comes
    have sums' := sums.polled asked entered.events (joined ▸ metrics) still
    rw [joined] at sums'
    exact ⟨fun again => absurd again begun, time, more ++ later, sums'⟩

theorem approach_sums (n : Nat) (t : Filler δ κ) {s : Shared} (h : t.Sums w run polls s) :
    (approach n t s).1.Sums w run polls (approach n t s).2 := by
  induction n generalizing t s with
  | zero => exact h
  | succ n ih =>
    rw [approach]
    split
    · exact h
    · rename_i unwritten
      have stepped := step_sums fill comes t h
      rw [asks_unwritten s unwritten, List.append_nil] at stepped
      exact ih _ stepped

theorem finishFuel_sums (fuel : Nat) (t : Filler δ κ) {s : Shared} (h : t.Sums w run polls s) :
    (finishFuel fuel t s).1.Sums w run (polls ++ asksInFinish fuel t s)
      (finishFuel fuel t s).2 := by
  induction fuel generalizing t s polls with
  | zero => simpa [finishFuel, asksInFinish] using h
  | succ fuel ih =>
    rw [finishFuel, asksInFinish]
    split
    · rw [← List.append_assoc]
      exact ih _ (step_sums fill comes t h)
    · rwa [List.append_nil]

end Filler

namespace Session

variable {δ κ : Type} [Device δ]

def Sums (s : Session δ κ) (w : Watch) (run : Stretch) (polls : List Poll) : Prop :=
  ∃ time log, s.Holds polls log ∧ s.shared.Sums δ w time run polls log

variable {w : Watch} {time time' : Nat} {run : Stretch} {polls : List Poll}
  {s s' settled : Session δ κ} {more : List Event} {n k : Nat} {log log' : SummaryLog}
  {t : Filler δ κ} {shared : Shared}

theorem reckons_growth (reckoned : s.Reckons more n k s') (h : s.shared.Sums δ w time run polls log) :
    s'.shared.metrics = (run ++ ⟨more, n, k⟩).growth.wrapped := by
  rw [Stretch.growth_append]
  exact reckoned.metrics run.growth h.metrics

theorem quiet_sums (h : s.Sums w run polls) (quiet : s.Quiet s')
    (reckoned : s.Reckons more n k s') : s'.Sums w (run ++ ⟨more, n, k⟩) polls := by
  obtain ⟨time, log, held, sums⟩ := h
  have metrics := reckons_growth reckoned sums
  exact ⟨time, log, quiet.holds polls log held,
    sums.quiet quiet.journal reckoned.events metrics⟩

theorem asked_sums (h : s.Sums w run polls) (main : w.thread = .main)
    (owned : ∃ d, s.holder = .owner d) (quiet : s.Quiet settled) (asked : s' = settled.summarize)
    (reckoned : s.Reckons more n k s') (comes : w.comes (run.placed + n) (run.skipped + k)) :
    s'.Sums w (run ++ ⟨more, n, k⟩) (polls ++ [settled.shared.poll]) := by
  obtain ⟨time, log, held, sums⟩ := h
  have metrics := reckons_growth reckoned sums
  obtain ⟨d, before⟩ := owned
  obtain ⟨d', holder⟩ := quiet.alike.owner before
  have kept : settled.log = log := by
    simpa only [Holds, holder] using quiet.holds polls log held
  have polled : s.shared.Polls δ w.thread log [settled.shared.poll] s'.shared s'.log := by
    have last : s.shared.Polls δ .main settled.log [settled.shared.poll]
        (settled.shared.summarize settled.log .main).2
        (settled.shared.summarize settled.log .main).1 := .asked quiet.journal
    rw [asked, main, ← kept]
    simpa only [summarize, holder] using last
  refine ⟨time, _, ?_, sums.polled polled reckoned.events metrics comes⟩
  rw [asked]
  simp [summarize, holder, Holds]

theorem record_of_sums {polls' : List Poll} {later rest : List Event}
    (h : s.shared.Sums δ w time run polls log)
    (h' : shared.Sums δ w time' (run ++ { record := later }) polls' log')
    (events : s.journal.events ++ more = shared.journal.events ++ rest) : more = later ++ rest := by
  have before : s.journal.events = w.before.events ++ run.record := h.events
  have after : shared.journal.events = w.before.events ++ (run.record ++ later) := h'.events
  rw [before, after] at events
  simpa only [List.append_assoc, List.append_cancel_left_eq] using events

theorem filler_sums {polls' : List Poll} (h : s.Sums w run polls)
    (same : s' = { s with holder := .filler t, shared }) (sums : t.Sums w run polls' shared)
    (reckoned : s.Reckons more 0 0 s') : s'.Sums w (run ++ ⟨more, 0, 0⟩) polls' := by
  obtain ⟨_, log, _, before⟩ := h
  obtain ⟨unasked, time, later, after⟩ := sums
  subst same
  have same : more = later ++ [] := by
    apply record_of_sums before after
    rw [List.append_nil]
    exact reckoned.events.symm
  rw [same, List.append_nil]
  exact ⟨time, t.log, ⟨rfl, unasked⟩, after⟩

theorem sums_of_filler (h : s.Sums w run polls) (holder : s.holder = .filler t) :
    t.Sums w run polls s.shared := by
  obtain ⟨time, log, held, sums⟩ := h
  simp only [Holds, holder] at held
  obtain ⟨rfl, unasked⟩ := held
  exact ⟨unasked, time, [], by rwa [Stretch.append_nothing]⟩

variable [Callback κ]

theorem run_sums (fill : w.thread = .fill) (comes : w.comes run.placed run.skipped) (n : Nat)
    (holder : s.holder = .filler t) (h : t.Sums w run polls s.shared) :
    ∃ t' shared, (s.run n).2 = { s with holder := .filler t', shared } ∧
      t'.Sums w run (polls ++ t.asksInRun n s.shared) shared := by
  induction n generalizing s t polls with
  | zero =>
    refine ⟨t, s.shared, by simp [Session.run, ← holder], ?_⟩
    simpa [Filler.asksInRun] using h
  | succ n ih =>
    simp only [Session.run, holder, Filler.asksInRun]
    split
    · have settled := Filler.approach_sums fill comes 3 t h
      have turned := Filler.approach_sums fill comes 3 _ (Filler.step_sums fill comes _ settled)
      rw [← List.append_assoc]
      exact ih rfl turned
    · exact ⟨t, s.shared, by simp [← holder], by rwa [List.append_nil]⟩

theorem close_sums (h : s.Sums w run polls) (fill : ∀ t, s.holder = .filler t → w.thread = .fill)
    (comes : w.comes run.placed run.skipped) (reckoned : s.Reckons more 0 0 s.close) :
    s.close.Sums w (run ++ ⟨more, 0, 0⟩) (polls ++ s.asks (.move .close)) := by
  have ⟨time, log, held, before⟩ := h
  have metrics := reckons_growth reckoned before
  have events : s.close.shared.journal.events = s.shared.journal.events ++ more := reckoned.events
  unfold close at events metrics ⊢
  dsimp only [asks] at events metrics ⊢
  cases holder : s.holder with
  | filler t =>
    rw [ofFiller_eq holder]
    simp only [holder] at events metrics ⊢
    obtain ⟨unasked, since, start, sums⟩ := sums_of_filler h holder
    have shut : Filler.Sums { t with stop := true } w run polls
        { s.shared with fifo := s.fifo.map Fifo.close } :=
      ⟨unasked, since, start, sums.events, sums.metrics, sums.told⟩
    obtain ⟨_, last, later, finished⟩ := Filler.finishFuel_sums (fill t holder) comes 3 _ shut
    have released := (Filler.release_quiet t { s.shared with fifo := s.fifo.map Fifo.close }).trans
      (Journal.quiet_notice .main (n := .sessionClosed) rfl)
    obtain ⟨rest, ended⟩ := released.events
    obtain rfl := record_of_sums before finished (events.symm.trans ended)
    have parts : run ++ ⟨later ++ rest, 0, 0⟩ =
        run ++ ({ record := later } : Stretch) ++ { record := rest } := by
      rw [Stretch.append_assoc]
      rfl
    rw [parts] at metrics ⊢
    exact ⟨last, _, trivial, finished.quiet released ended metrics⟩
  | owner d =>
    rw [ofFiller_unthreaded (by simp [holder]), List.append_nil]
    simp only [holder] at events metrics ⊢
    have quiet := (Device.disconnectIn_quiet d s.shared.journal).trans
      (Journal.quiet_notice .main (n := .sessionClosed) rfl)
    exact ⟨time, log, trivial, before.quiet quiet events metrics⟩
  | nobody =>
    rw [ofFiller_unthreaded (by simp [holder]), List.append_nil]
    simp only [holder] at events metrics ⊢
    exact ⟨time, log, by simp [Holds], before.quiet (.refl _) events metrics⟩

variable {events : List Event}

theorem deed_sums (h : s.Sums w run polls) (tended : s.Tended events)
    (thread : w.thread = s.mode.thread) (a : Deed δ)
    (comes : w.comes (run.placed + s.placed a) (run.skipped + s.skipped a))
    (reckoned : s.Reckons more (s.placed a) (s.skipped a) (s.deed a)) :
    (s.deed a).Sums w (run ++ ⟨more, s.placed a, s.skipped a⟩) (polls ++ s.asks a) := by
  have fill : ∀ t, s.holder = .filler t → w.thread = .fill := by
    intro t holder
    rw [thread, Mode.thread_of_threaded (works_of_tended tended holder).1]
  have quietly : s.asks a = [] → s.Quiet (s.deed a) →
      (s.deed a).Sums w (run ++ ⟨more, s.placed a, s.skipped a⟩) (polls ++ s.asks a) := by
    intro unasked quiet
    rw [unasked, List.append_nil]
    exact quiet_sums h quiet reckoned
  cases a with
  | move m =>
    cases m with
    | push bytes => exact quietly rfl (push_quiet s bytes)
    | pushTyped samples => exact quietly rfl (pushTyped_quiet s samples)
    | pushRendered r took =>
      obtain ⟨settled, quiet, ⟨unasked, same⟩ | ⟨owned, asked, same⟩⟩ :=
        pushRendered_polls s r took
      · have still : s.deed (.move (.pushRendered r took)) = settled := same
        exact quietly unasked (by rwa [still])
      · obtain ⟨d, holder⟩ := owned
        have main : w.thread = .main := by
          rw [thread, queue_of_tended tended holder]
          rfl
        rw [asked]
        exact asked_sums h main ⟨d, holder⟩ quiet same reckoned comes
    | run n =>
      by_cases threaded : ∃ t, s.holder = .filler t
      · obtain ⟨t, holder⟩ := threaded
        obtain ⟨t', shared, same, sums⟩ := run_sums (fill t holder) comes n holder
          (sums_of_filler h holder)
        rw [asks, ofFiller_eq holder]
        exact filler_sums h same sums reckoned
      · have unthreaded : ∀ t, s.holder ≠ .filler t := fun t holder => threaded ⟨t, holder⟩
        have still : s.deed (.move (.run n)) = s :=
          congrArg Prod.snd (run_unthreaded unthreaded n)
        apply quietly (ofFiller_unthreaded unthreaded _)
        rw [still]
        exact .refl s
    | step =>
      by_cases threaded : ∃ t, s.holder = .filler t
      · obtain ⟨t, holder⟩ := threaded
        have sums := Filler.step_sums (fill t holder) comes t (sums_of_filler h holder)
        rw [asks, ofFiller_eq holder]
        exact filler_sums h (by simp only [deed, move, step, holder]) sums reckoned
      · have unthreaded : ∀ t, s.holder ≠ .filler t := fun t holder => threaded ⟨t, holder⟩
        have still : s.deed (.move .step) = s := step_unthreaded unthreaded
        apply quietly (ofFiller_unthreaded unthreaded _)
        rw [still]
        exact .refl s
    | wait nanos => exact quietly rfl (quiet_beside (Journal.quiet_advance nanos) rfl rfl)
    | close => exact close_sums h fill comes reckoned
  | request r =>
    apply quietly rfl
    unfold deed
    dsimp only
    split
    · exact quiet_beside (.refl _) rfl rfl
    · exact .refl s
  | change f =>
    apply quietly rfl
    unfold deed
    dsimp only
    split
    · rename_i t holder
      refine ⟨.refl _, by simp [holder, Holder.Alike], ?_⟩
      intro polls log held
      simpa [Holds, holder] using held
    · rename_i d holder
      refine ⟨.refl _, by simp [holder, Holder.Alike], ?_⟩
      intro polls log held
      simpa [Holds, holder] using held
    · exact .refl s

theorem deeds_sums (all : List (Deed δ)) (h : s.Sums w run polls) (tended : s.Tended events)
    (thread : w.thread = s.mode.thread)
    (comes : ∀ done rest, all = done ++ rest →
      w.comes (run.placed + s.placedBy done) (run.skipped + s.skippedBy done)) :
    ∃ more, (s.deeds all).Sums w (run ++ ⟨more, s.placedBy all, s.skippedBy all⟩)
      (polls ++ s.asksBy all) := by
  induction all generalizing s run polls events with
  | nil =>
    refine ⟨[], ?_⟩
    change s.Sums w (run ++ {}) (polls ++ [])
    rwa [Stretch.append_nothing, List.append_nil]
  | cons a rest ih =>
    obtain ⟨more, reckoned, tended'⟩ := deed_leads tended a
    have next := deed_sums h tended thread a (comes [a] rest rfl) reckoned
    have thread' : w.thread = (s.deed a).mode.thread := by
      rw [mode_of_terms reckoned.terms, thread]
    have comes' : ∀ done rest', rest = done ++ rest' →
        w.comes (run.placed + s.placed a + (s.deed a).placedBy done)
          (run.skipped + s.skipped a + (s.deed a).skippedBy done) := by
      intro done rest' split
      have through := comes (a :: done) rest' (by rw [split]; rfl)
      simpa only [placedBy, skippedBy, ← Nat.add_assoc] using through
    obtain ⟨later, sums⟩ := ih next tended' thread' comes'
    refine ⟨more ++ later, ?_⟩
    rw [Stretch.append_assoc, List.append_assoc] at sums
    exact sums

variable {config : Config} {feed : Feed κ} {d : δ} {around : Surroundings} {s₀ : Session δ κ}
  {comes : Nat → Nat → Prop}

theorem prepared_sums {settings : Config} {p : Params} {d' : δ} {j : Journal} {opened : List Event}
    (prepared : Prepared settings feed p d' j s) (none_before : comes 0 0)
    (quiet : around.journal.Quiet δ j) (events : j.events = around.journal.events ++ opened)
    (uncounted : opened.foldl Metrics.heed {} = {}) :
    ∃ more, s.Sums ⟨s.mode.thread, around.journal, comes⟩ { record := opened ++ more } [] := by
  let w : Watch := ⟨feed.mode.thread, around.journal, comes⟩
  have base : ∀ fifo, Shared.Sums δ w j.now { record := opened } [] { time := j.now }
      { fifo, journal := j } := by
    intro fifo
    have counted := Metrics.foldl_heed opened {}
    rw [Metrics.nothing_plus] at counted
    refine ⟨events, uncounted.symm.trans counted, ?_⟩
    intro _
    refine ⟨[], { record := opened }, (Stretch.nothing_append _).symm, ?_⟩
    obtain ⟨others, summaries, silent⟩ := quiet.summaries
    refine ⟨⟨by simp, by simp, .nil⟩, Nat.le_refl _, by simp, rfl, rfl, ?_, ?_⟩
    · intro earlier later split
      obtain ⟨rfl, _⟩ := List.append_eq_nil_iff.mp split.symm
      exact none_before
    · exact ⟨others, summaries, List.nil_sublist _, silent⟩
  cases prepared with
  | @thread supply fifo supplied t began taken =>
    have fill : w.thread = .fill := by
      cases supplied <;> rfl
    have waiting : t.Sums w { record := opened } [] { fifo, journal := j } := by
      subst began
      refine ⟨fun _ => rfl, j.now, [], ?_⟩
      rw [Stretch.append_nothing]
      exact base fifo
    obtain ⟨unasked, time, more, sums⟩ := Filler.approach_sums fill none_before taken t waiting
    exact ⟨more, time, _, ⟨rfl, unasked⟩, sums⟩
  | owner queue =>
    refine ⟨[], j.now, { time := j.now }, rfl, ?_⟩
    rw [List.append_nil]
    exact base none

theorem start_sums (started : start config feed d around = .session s₀) (none_before : comes 0 0) :
    ∃ record, s₀.Sums ⟨s₀.mode.thread, around.journal, comes⟩ { record } [] := by
  obtain ⟨d', j, p, s, reply, _, prepared, announced⟩ := start_announced started
  obtain rfl := announce_session announced
  let opened := (Device.connect d around.journal.now config.params).asides .main ++
    [.call (.opened config.params)]
  have quiet := Device.connectIn_quiet d config.params around.journal
  rw [reply] at quiet
  have events : j.events = around.journal.events ++ opened := by
    simp only [Device.connectIn, Prod.mk.injEq] at reply
    simp [← reply.2.2, opened]
  have uncounted : opened.foldl Metrics.heed {} = {} := by
    simp [opened, Metrics.heed, Metrics.follow]
  obtain ⟨more, time, log, held, sums⟩ :=
    prepared_sums prepared none_before quiet events uncounted
  let n : Notice := .sessionStarted s.mode s.params s.packetCount s.packetFrames
  let w : Watch := ⟨s.mode.thread, around.journal, comes⟩
  have noticed : (s.shared.notice .main n).Sums δ w time
      (({ record := opened ++ more } : Stretch) ++ { record := [.notice .main n] }) [] log := by
    apply sums.quiet (Journal.quiet_notice .main rfl) (Journal.events_notice _ _ _)
    rw [Stretch.growth_notice]
    exact sums.metrics
  exact ⟨opened ++ more ++ [.notice .main n], time, log, held, noticed⟩

def course (s₀ : Session δ κ) (before : Journal) (deeds : List (Deed δ)) : Stretch :=
  ⟨(s₀.deeds deeds).journal.events.drop before.events.length, s₀.placedBy deeds, s₀.skippedBy deeds⟩

def comesBy (s₀ : Session δ κ) (deeds : List (Deed δ)) (placed skipped : Nat) : Prop :=
  ∃ done rest, deeds = done ++ rest ∧ placed = s₀.placedBy done ∧ skipped = s₀.skippedBy done

/-- The summaries that the calls of a session's log make, and the log in the end. The course of the
    session is the stretches `told`, each with its summary after it, and then `last`. A summary
    gives what is due for its stretch, and all up to one of them add up to the counters that it
    found, which are those due for all that came before it. What the log has yet to report is due
    for `last`. -/
structure Telescopes (s₀ : Session δ κ) (before : Journal) (deeds : List (Deed δ)) (time : Nat)
    (lines : List SummaryLine) (log : SummaryLog) (told : List Stretch) (last : Stretch) :
    Prop where
  steady : SummaryLog.Steady { time } (s₀.asksBy deeds)
  asked : SummaryLog.pollAll { time } (s₀.asksBy deeds) = (lines, log)
  holds : (s₀.deeds deeds).Holds (s₀.asksBy deeds) log
  course : s₀.course before deeds = Stretch.chain s₀.mode.thread told ++ last
  counters : (s₀.deeds deeds).metrics = (s₀.course before deeds).growth
  comes : ∀ earlier later, told = earlier ++ later →
    s₀.comesBy deeds (Stretch.chain s₀.mode.thread earlier).placed
      (Stretch.chain s₀.mode.thread earlier).skipped
  growths : lines.map (·.growth) = told.map Stretch.growth
  sums : ∀ earlier l later, lines = earlier ++ l :: later →
    Metrics.total ((earlier ++ [l]).map (·.growth)) = l.poll.metrics ∧
      l.poll.metrics = (Stretch.chain s₀.mode.thread (told.take (earlier.length + 1))).growth
  apart : lines.Pairwise fun a b => a.poll.stamped + nanosPerSecond ≤ b.poll.asked
  pending : (s₀.deeds deeds).metrics.growthFrom log.covered = last.growth ∧
    (Metrics.total (lines.map (·.growth))).plus last.growth = (s₀.deeds deeds).metrics
  past : ∀ p ∈ s₀.asksBy deeds, p.stamped ≤ (s₀.deeds deeds).journal.now ∧
    p.metrics ≤ (s₀.deeds deeds).metrics
  entered : ∃ own, (s₀.deeds deeds).journal.summaries = before.summaries ++ own ∧
    (lines.map (SummaryLine.summary s₀.mode.thread)).Sublist own ∧
    (Device.Discreet δ → own = lines.map (SummaryLine.summary s₀.mode.thread))

theorem course_sums (started : start config feed d around = .session s₀) (deeds : List (Deed δ)) :
    (s₀.deeds deeds).Sums ⟨s₀.mode.thread, around.journal, s₀.comesBy deeds⟩
      (s₀.course around.journal deeds) (s₀.asksBy deeds) := by
  have none_before : s₀.comesBy deeds 0 0 := ⟨[], deeds, rfl, rfl, rfl⟩
  obtain ⟨record, begun⟩ := start_sums started none_before
  obtain ⟨_, _, _, _, _, tended⟩ := start_tended started
  obtain ⟨more, time, log, held, sums⟩ := deeds_sums deeds begun tended rfl (by
    intro done rest split
    exact ⟨done, rest, split, Nat.zero_add _, Nat.zero_add _⟩)
  have events : (s₀.deeds deeds).journal.events = around.journal.events ++ (record ++ more) :=
    sums.events
  have course : s₀.course around.journal deeds =
      { record } ++ ⟨more, s₀.placedBy deeds, s₀.skippedBy deeds⟩ := by
    simp [Session.course, Stretch.append_eq, events]
  rw [course]
  exact ⟨time, log, held, sums⟩

/-- In any mode, with any device and callback, after any deeds, as long as no counter has wrapped:
    each event is in just one summary or still to be reported. The calls of the log are steady; and
    whatever makes steady calls, the summaries come a second apart, no counter of a call is behind
    those of the log, and a call without a summary leaves the log as it was. -/
theorem summaries_telescope (started : start config feed d around = .session s₀)
    (deeds : List (Deed δ)) (fits : (s₀.course around.journal deeds).growth.Fits) :
    (∀ (log : SummaryLog) (polls : List Poll), log.Steady polls → log.Telescopes polls) ∧
    ∃ time lines log told last, s₀.Telescopes around.journal deeds time lines log told last := by
  refine ⟨fun log polls steady => SummaryLog.steady_telescopes steady, ?_⟩
  obtain ⟨time, log, held, sums⟩ := course_sums started deeds
  obtain ⟨told, last, split, tells⟩ := sums.told fits
  have steady : SummaryLog.Steady { time } (s₀.asksBy deeds) := tells.steady
  obtain ⟨lines, asked⟩ : ∃ lines, SummaryLog.pollAll { time } (s₀.asksBy deeds) = (lines, log) :=
    ⟨_, Prod.ext rfl tells.left⟩
  have growths : lines.map (·.growth) = told.map Stretch.growth := by
    rw [← tells.growths, asked]
  have counters : (s₀.deeds deeds).metrics = (s₀.course around.journal deeds).growth :=
    sums.metrics.trans (Metrics.wrapped_of_fits fits)
  obtain ⟨apart, upto, _, _, _⟩ := SummaryLog.steady_telescopes steady
  have entered := tells.entered
  rw [asked] at apart upto
  rw [asked] at entered
  refine ⟨time, lines, log, told, last, ?_⟩
  constructor
  · exact steady
  · exact asked
  · exact held
  · exact split
  · exact counters
  · exact tells.comes
  · exact growths
  · intro earlier l later split
    have total : Metrics.total ((earlier ++ [l]).map (·.growth)) = l.poll.metrics :=
      (Metrics.nothing_plus _).symm.trans (upto earlier l later split)
    have first : (told.map Stretch.growth).take (earlier.length + 1) =
        (earlier ++ [l]).map (·.growth) := by
      rw [← growths, split, List.append_cons, List.map_append, List.take_left' (by simp)]
    refine ⟨total, ?_⟩
    rw [Stretch.growth_chain, List.map_take, first]
    exact total.symm
  · exact apart
  · rw [growths, ← Stretch.growth_chain s₀.mode.thread, counters, split]
    exact ⟨tells.rest, (Stretch.growth_append _ _).symm⟩
  · rw [counters, split]
    exact tells.past
  · exact entered

/-- A write that fails half a second after a summary is in the next one, as is its recovery. The
    silence and the push after that one are still to be reported. -/
theorem failures_are_summed_up :
    let config : Config :=
      { sampleRate := 8000, bufferFrames := 4, packetFrames := 2, packetCount := 4, format := .i16 }
    let device : ScriptedDevice :=
      { writes := [.full, .failed .underrun], recoveries := [some .notOpen] }
    let voice : Voice := .int16 { producer := .clip { data := [1, 2, 3] } }
    let deeds : List (Deed ScriptedDevice) :=
      [.move (.push (silence 16)), .move (.pushRendered voice 0), .move (.wait 1000000000),
        .move (.run 1), .move (.push (silence 4)), .move (.wait 500000000), .move (.run 1),
        .move (.wait 600000000), .move (.run 1), .move (.push (silence 4))]
    ∃ s₀ : Session ScriptedDevice StockCallback, start config .fifo device .ahead = .session s₀ ∧
      ∃ time lines log told last, s₀.Telescopes {} deeds time lines log told last ∧
        lines.map (SummaryLine.summary .fill) =
          [⟨.fill, 1000000000,
            { buffersWritten := 1, framesWritten := 4, silenceBuffers := 1, framesPushed := 8,
              pushesSkipped := 1 }⟩,
          ⟨.fill, 2100500000,
            { buffersWritten := 1, framesWritten := 4, deviceErrors := 1, recoveryFailures := 1,
              framesPushed := 2 }⟩] ∧
        last.growth = { silenceBuffers := 1, framesPushed := 2 } := by
  intro config device voice deeds
  let summed : Metrics :=
    { buffersWritten := 2, framesWritten := 8, silenceBuffers := 1, deviceErrors := 1,
      recoveryFailures := 1, framesPushed := 10, pushesSkipped := 1 }
  let counted : Metrics := { summed with silenceBuffers := 2, framesPushed := 12 }
  let summaries : List Summary :=
    [⟨.fill, 1000000000,
      { buffersWritten := 1, framesWritten := 4, silenceBuffers := 1, framesPushed := 8,
        pushesSkipped := 1 }⟩,
    ⟨.fill, 2100500000,
      { buffersWritten := 1, framesWritten := 4, deviceErrors := 1, recoveryFailures := 1,
        framesPushed := 2 }⟩]
  let opened : Opening ScriptedDevice StockCallback := start config .fifo device .ahead
  have evaluated : opened.session?.map (fun s₀ =>
      (s₀.mode, (s₀.course {} deeds).growth, (s₀.deeds deeds).journal.summaries)) =
      some (.fifo, counted, summaries) := by decide +kernel
  obtain ⟨s₀, found, values⟩ := Option.map_eq_some_iff.mp evaluated
  simp only [Prod.mk.injEq] at values
  obtain ⟨mode, course, recorded⟩ := values
  have started := Opening.eq_of_session? found
  have fits : (s₀.course {} deeds).growth.Fits := by
    rw [course]
    decide
  obtain ⟨_, time, lines, log, told, last, telescopes⟩ := summaries_telescope started deeds fits
  obtain ⟨own, entered, _, same⟩ := telescopes.entered
  have listed : lines.map (SummaryLine.summary .fill) = summaries := by
    have all : own = lines.map (SummaryLine.summary .fill) := by
      rw [same ScriptedDevice.discreet, mode]
      rfl
    rw [← recorded, ← all]
    exact (entered.trans (List.nil_append own)).symm
  have growths : lines.map (·.growth) = summaries.map (·.growth) := by
    rw [← listed, List.map_map]
    rfl
  have pending := telescopes.pending.2
  rw [growths, telescopes.counters, Surroundings.ahead_journal, course] at pending
  have left : last.growth = counted.growthFrom summed := by
    rw [← pending]
    exact (Metrics.growthFrom_plus summed last.growth).symm
  exact ⟨s₀, started, time, lines, log, told, last, telescopes, listed, left⟩

end Session

end PcmStream
