import Mathlib.Order.Defs.PartialOrder
import PcmStream.Proofs.RecordedCounters

/- What the summaries of one log add up to. The log keeps the counters of its last summary, so as
   long as counters only grow, the growth from one summary to the next is exact, and all growths
   together are the counters of the last. The clock is read twice for a summary, and may go on in
   between. -/
namespace PcmStream

namespace Metrics

instance : Preorder Metrics where
  le m n :=
    m.buffersWritten ≤ n.buffersWritten ∧ m.framesWritten ≤ n.framesWritten ∧
      m.silenceBuffers ≤ n.silenceBuffers ∧ m.deviceErrors ≤ n.deviceErrors ∧
      m.recoveryFailures ≤ n.recoveryFailures ∧ m.framesPushed ≤ n.framesPushed ∧
      m.pushesSkipped ≤ n.pushesSkipped
  le_refl m := by simp
  le_trans a b c := by omega

def total (growths : List Metrics) : Metrics := growths.foldr plus {}

variable {m n : Metrics}

theorem le_plus (m n : Metrics) : m ≤ m.plus n := by
  refine ⟨?_, ?_, ?_, ?_, ?_, ?_, ?_⟩ <;> exact Nat.le_add_right _ _

theorem nothing_le (m : Metrics) : {} ≤ m := by
  refine ⟨?_, ?_, ?_, ?_, ?_, ?_, ?_⟩ <;> exact Nat.zero_le _

theorem plus_growthFrom (h : m ≤ n) : m.plus (n.growthFrom m) = n := by
  obtain ⟨written, frames, silence, errors, failures, pushed, skipped⟩ := h
  simp [plus, growthFrom, *]

theorem plus_nothing (m : Metrics) : m.plus {} = m := by
  simp [plus]

theorem nothing_plus (m : Metrics) : plus {} m = m := by
  simp [plus]

end Metrics

/-- One call of a log: the clock as it is read first, and again if a summary is made, and the
    counters that it finds. -/
structure Poll where
  asked : Nat
  stamped : Nat
  metrics : Metrics
  deriving DecidableEq, Repr

structure SummaryLine where
  poll : Poll
  growth : Metrics
  deriving DecidableEq, Repr

def SummaryLine.left (l : SummaryLine) : SummaryLog := ⟨l.poll.metrics, l.poll.stamped⟩

namespace SummaryLog

def pollAll : SummaryLog → List Poll → List SummaryLine × SummaryLog
  | log, [] => ([], log)
  | log, p :: polls =>
    let (growth, log) := log.poll p.asked p.stamped p.metrics
    let (lines, log) := log.pollAll polls
    ((growth.map (SummaryLine.mk p)).toList ++ lines, log)

/-- Calls under a clock that does not go back, on counters that only grow. -/
structure Steady (log : SummaryLog) (polls : List Poll) : Prop where
  since : ∀ p ∈ polls, log.time ≤ p.asked ∧ log.covered ≤ p.metrics
  within : ∀ p ∈ polls, p.asked ≤ p.stamped
  rising : polls.Pairwise fun p q => p.stamped ≤ q.asked ∧ p.metrics ≤ q.metrics

/-- The summaries come a second apart at least. Up to each of them they add up to the counters that
    it found. The log is as the last one left it; what has been counted since is still to come. A
    call finds no counter behind the log's; it makes a summary just if a second has passed since
    the last, and if it makes none it leaves the log as it was. -/
structure Telescopes (log : SummaryLog) (polls : List Poll) : Prop where
  apart : (log.pollAll polls).1.Pairwise fun a b =>
    a.poll.stamped + nanosPerSecond ≤ b.poll.asked
  sums : ∀ earlier l later, (log.pollAll polls).1 = earlier ++ l :: later →
    log.covered.plus (.total ((earlier ++ [l]).map (·.growth))) = l.poll.metrics
  left : (log.pollAll polls).2 = ((log.pollAll polls).1.getLast?.map SummaryLine.left).getD log
  pending : ∀ m : Metrics, log.covered ≤ m → (∀ p ∈ polls, p.metrics ≤ m) →
    (log.covered.plus (.total ((log.pollAll polls).1.map (·.growth)))).plus
      (m.growthFrom (log.pollAll polls).2.covered) = m
  calls : ∀ earlier p later, polls = earlier ++ p :: later →
    let held := (log.pollAll earlier).2
    let called := held.poll p.asked p.stamped p.metrics
    held.covered ≤ p.metrics ∧
      (called.1 = none ↔ p.asked < held.time + nanosPerSecond) ∧ (called.1 = none → called.2 = held)

variable {log : SummaryLog} {p : Poll} {polls : List Poll} {now : Nat}

theorem poll_early (early : now < log.time + nanosPerSecond) (later : Nat) (m : Metrics) :
    log.poll now later m = (none, log) := by
  have second : 0 < nanosPerSecond := by decide
  have short : now - log.time < nanosPerSecond := by omega
  rw [poll, if_pos short]

theorem poll_due (due : log.time + nanosPerSecond ≤ now) (later : Nat) (m : Metrics) :
    log.poll now later m = (some (m.growthFrom log.covered), ⟨m, later⟩) := by
  have long : ¬ now - log.time < nanosPerSecond := by omega
  rw [poll, if_neg long]

theorem pollAll_early (early : p.asked < log.time + nanosPerSecond) :
    log.pollAll (p :: polls) = log.pollAll polls := by
  simp [pollAll, poll_early early]

theorem pollAll_due (due : log.time + nanosPerSecond ≤ p.asked) :
    let l : SummaryLine := ⟨p, p.metrics.growthFrom log.covered⟩
    log.pollAll (p :: polls) = (l :: (l.left.pollAll polls).1, (l.left.pollAll polls).2) := by
  simp [pollAll, poll_due due, SummaryLine.left]

theorem pollAll_append (earlier later : List Poll) : log.pollAll (earlier ++ later) =
    ((log.pollAll earlier).1 ++ ((log.pollAll earlier).2.pollAll later).1,
      ((log.pollAll earlier).2.pollAll later).2) := by
  induction earlier generalizing log with
  | nil => simp [pollAll]
  | cons p earlier ih => simp [pollAll, ih]

theorem Steady.tail (h : log.Steady (p :: polls)) : log.Steady polls :=
  ⟨fun q mem => h.since q (List.mem_cons_of_mem p mem),
    fun q mem => h.within q (List.mem_cons_of_mem p mem), (List.pairwise_cons.mp h.rising).2⟩

theorem Steady.next (h : log.Steady (p :: polls)) (growth : Metrics) :
    (SummaryLine.left ⟨p, growth⟩).Steady polls :=
  ⟨(List.pairwise_cons.mp h.rising).1, h.tail.within, h.tail.rising⟩

theorem Steady.first (h : log.Steady (p :: polls)) : log.covered ≤ p.metrics :=
  (h.since p List.mem_cons_self).2

theorem Steady.snoc (h : log.Steady polls) (since : log.time ≤ p.asked ∧ log.covered ≤ p.metrics)
    (within : p.asked ≤ p.stamped)
    (after : ∀ q ∈ polls, q.stamped ≤ p.asked ∧ q.metrics ≤ p.metrics) :
    log.Steady (polls ++ [p]) := by
  constructor
  · intro q mem
    rcases List.mem_append.mp mem with earlier | last
    · exact h.since q earlier
    · rw [List.mem_singleton.mp last]
      exact since
  · intro q mem
    rcases List.mem_append.mp mem with earlier | last
    · exact h.within q earlier
    · rw [List.mem_singleton.mp last]
      exact within
  · rw [List.pairwise_append]
    refine ⟨h.rising, List.pairwise_singleton _ p, ?_⟩
    intro q mem r last
    rw [List.mem_singleton.mp last]
    exact after q mem

theorem covered_le {m : Metrics} (start : log.covered ≤ m) (all : ∀ p ∈ polls, p.metrics ≤ m) :
    (log.pollAll polls).2.covered ≤ m := by
  induction polls generalizing log with
  | nil => exact start
  | cons p polls ih =>
    have rest : ∀ q ∈ polls, q.metrics ≤ m := fun q mem => all q (List.mem_cons_of_mem p mem)
    rcases Nat.lt_or_ge p.asked (log.time + nanosPerSecond) with early | due
    · rw [pollAll_early early]
      exact ih start rest
    · rw [pollAll_due due]
      exact ih (all p List.mem_cons_self) rest

theorem line_late (h : log.Steady polls) :
    ∀ l ∈ (log.pollAll polls).1, log.time + nanosPerSecond ≤ l.poll.asked := by
  induction polls generalizing log with
  | nil => simp [pollAll]
  | cons p polls ih =>
    rcases Nat.lt_or_ge p.asked (log.time + nanosPerSecond) with early | due
    · rw [pollAll_early early]
      exact ih h.tail
    · rw [pollAll_due due]
      intro l mem
      rcases List.mem_cons.mp mem with rfl | later
      · exact due
      -- A later line is a second past the clock that this one leaves, which is not behind its own.
      · have late := ih (h.next _) l later
        have within := h.within p List.mem_cons_self
        simp only [SummaryLine.left] at late
        omega

theorem lines_apart (h : log.Steady polls) :
    (log.pollAll polls).1.Pairwise fun a b =>
      a.poll.stamped + nanosPerSecond ≤ b.poll.asked := by
  induction polls generalizing log with
  | nil => simp [pollAll]
  | cons p polls ih =>
    rcases Nat.lt_or_ge p.asked (log.time + nanosPerSecond) with early | due
    · rw [pollAll_early early]
      exact ih h.tail
    · rw [pollAll_due due, List.pairwise_cons]
      exact ⟨line_late (h.next _), ih (h.next _)⟩

theorem covered_growth (h : log.covered ≤ p.metrics) (growths : List Metrics) :
    log.covered.plus (.total (p.metrics.growthFrom log.covered :: growths)) =
      p.metrics.plus (.total growths) := by
  have one : Metrics.total (p.metrics.growthFrom log.covered :: growths) =
      (p.metrics.growthFrom log.covered).plus (.total growths) := rfl
  rw [one, ← Metrics.plus_assoc, Metrics.plus_growthFrom h]

theorem sums_to_line (h : log.Steady polls) {earlier later : List SummaryLine} {l : SummaryLine}
    (lines : (log.pollAll polls).1 = earlier ++ l :: later) :
    log.covered.plus (.total ((earlier ++ [l]).map (·.growth))) = l.poll.metrics := by
  induction polls generalizing log earlier with
  | nil => simp [pollAll] at lines
  | cons p polls ih =>
    rcases Nat.lt_or_ge p.asked (log.time + nanosPerSecond) with early | due
    · rw [pollAll_early early] at lines
      exact ih h.tail lines
    · rw [pollAll_due due] at lines
      cases earlier with
      | nil =>
        obtain ⟨rfl, _⟩ := List.cons.inj lines
        exact (covered_growth h.first []).trans (Metrics.plus_nothing _)
      | cons first earlier =>
        obtain ⟨rfl, rest⟩ := List.cons.inj lines
        exact (covered_growth h.first _).trans (ih (h.next _) rest)

theorem sums_to_end (h : log.Steady polls) :
    log.covered.plus (.total ((log.pollAll polls).1.map (·.growth))) =
      (log.pollAll polls).2.covered := by
  induction polls generalizing log with
  | nil => exact Metrics.plus_nothing _
  | cons p polls ih =>
    rcases Nat.lt_or_ge p.asked (log.time + nanosPerSecond) with early | due
    · rw [pollAll_early early]
      exact ih h.tail
    · rw [pollAll_due due]
      exact (covered_growth h.first _).trans (ih (h.next _))

theorem left_by_last (log : SummaryLog) (polls : List Poll) :
    (log.pollAll polls).2 = ((log.pollAll polls).1.getLast?.map SummaryLine.left).getD log := by
  induction polls generalizing log with
  | nil => rfl
  | cons p polls ih =>
    rcases Nat.lt_or_ge p.asked (log.time + nanosPerSecond) with early | due
    · rw [pollAll_early early]
      exact ih log
    · rw [pollAll_due due, List.getLast?_cons]
      have last := ih (SummaryLine.left ⟨p, p.metrics.growthFrom log.covered⟩)
      cases listed : (pollAll (SummaryLine.left ⟨p, p.metrics.growthFrom log.covered⟩)
          polls).1.getLast? with
      | none => simpa [listed] using last
      | some l => simpa [listed] using last

theorem poll_none_iff (held : SummaryLog) (p : Poll) :
    (held.poll p.asked p.stamped p.metrics).1 = none ↔ p.asked < held.time + nanosPerSecond := by
  rcases Nat.lt_or_ge p.asked (held.time + nanosPerSecond) with early | due
  · simp [poll_early early, early]
  · simp [poll_due due, due]

theorem steady_telescopes (h : log.Steady polls) : log.Telescopes polls := by
  constructor
  · exact lines_apart h
  · intro earlier l later lines
    exact sums_to_line h lines
  · exact left_by_last log polls
  · intro m start all
    rw [sums_to_end h]
    exact Metrics.plus_growthFrom (covered_le start all)
  · intro earlier p later split held called
    refine ⟨?_, poll_none_iff held p, ?_⟩
    · subst split
      have before := (List.pairwise_append.mp h.rising).2.2
      apply covered_le
      · exact (h.since p (by simp)).2
      · intro q mem
        exact (before q mem p List.mem_cons_self).2
    · intro none_made
      exact congrArg Prod.snd (poll_early ((poll_none_iff held p).mp none_made) p.stamped p.metrics)

end SummaryLog

end PcmStream
