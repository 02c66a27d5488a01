import PcmStream.Session.Filler

/- What the record of a session says about its stream: the fetches from the packet queue and the
   buffers handed to the device, whatever became of the write. All else that a device or a thread
   enters leaves these two as they are. -/
namespace PcmStream

def Journal.handed (j : Journal) : List (List UInt8) :=
  j.calls.filterMap fun | .wrote _ bytes _ => some bytes | _ => none

/-- From `j` to `j'` the device is handed the buffers `more`, and nothing is fetched. -/
structure Journal.Hands (j : Journal) (more : List (List UInt8)) (j' : Journal) : Prop where
  fetches : j'.fetches = j.fetches
  handed : j'.handed = j.handed ++ more

namespace Journal

variable {a b c j : Journal}

theorem Hands.refl (j : Journal) : j.Hands [] j := ⟨rfl, by simp⟩

theorem Hands.trans {more more' : List (List UInt8)} (h : a.Hands more b) (h' : b.Hands more' c) :
    a.Hands (more ++ more') c :=
  ⟨h'.fetches.trans h.fetches, by rw [h'.handed, h.handed, List.append_assoc]⟩

theorem hands_record {e : Event} (no_fetch : ∀ f, e ≠ .fetch f)
    (no_write : ∀ frames bytes outcome, e ≠ .call (.wrote frames bytes outcome)) :
    j.Hands [] (j.record e) := by
  constructor
  · cases e <;> simp_all [fetches, events, record]
  · cases e with
    | call c => cases c <;> simp_all [handed, calls, events, record]
    | _ => simp [handed, calls, events, record]

theorem hands_notice (thread : Thread) (n : Notice) : j.Hands [] (j.notice thread n) :=
  hands_record (by simp) (by simp)

theorem hands_sleep (nanos : Nat) : j.Hands [] (j.sleep nanos) := by
  have entered : j.Hands [] (j.record (.sleep nanos)) := hands_record (by simp) (by simp)
  exact ⟨entered.fetches, entered.handed⟩

theorem hands_write (frames : Nat) (bytes : List UInt8) (outcome : Outcome Nat) :
    j.Hands [bytes] (j.call (.wrote frames bytes outcome)) := by
  constructor
  · simp [fetches, events, call, record]
  · simp [handed, calls, events, call, record]

theorem fetches_fetch (f : Fetch) : (j.fetch f).fetches = j.fetches ++ [f] := by
  simp [fetches, events, fetch, record]

theorem handed_fetch (f : Fetch) : (j.fetch f).handed = j.handed := by
  simp [handed, calls, events, fetch, record]

end Journal

theorem Reply.enter_hands {δ α : Type} (r : Reply δ α) (thread : Thread) (j : Journal) :
    j.Hands [] (r.enter thread j) := by
  have noticed : ∀ (notices : List Notice) (j : Journal),
      j.Hands [] (notices.foldl (fun j n => j.notice thread n) j) := by
    intro notices
    induction notices with
    | nil => exact Journal.Hands.refl
    | cons n notices ih => exact fun j => (Journal.hands_notice thread n).trans (ih _)
  unfold Reply.enter
  cases r.slept with
  | none => exact noticed r.notices j
  | some nanos => exact (noticed r.notices j).trans (Journal.hands_sleep nanos)

namespace Device

variable {δ : Type} [Device δ]

theorem connectIn_hands (d : δ) (requested : Params) (j : Journal) :
    j.Hands [] (connectIn d requested j).2.2 :=
  (Reply.enter_hands _ .main j).trans (Journal.hands_record (by simp) (by simp))

theorem writeIn_hands (thread : Thread) (d : δ) (bytes : List UInt8) (frames : Nat) (j : Journal) :
    j.Hands [bytes] (writeIn thread d bytes frames j).2.2 :=
  (Reply.enter_hands _ thread j).trans (Journal.hands_write frames bytes _)

theorem recoverIn_hands (thread : Thread) (d : δ) (j : Journal) :
    j.Hands [] (recoverIn thread d j).2.2 :=
  (Reply.enter_hands _ thread j).trans (Journal.hands_record (by simp) (by simp))

theorem disconnectIn_hands (d : δ) (j : Journal) : j.Hands [] (disconnectIn d j) :=
  (Reply.enter_hands _ .main j).trans (Journal.hands_record (by simp) (by simp))

end Device

structure Shared.Hands (s : Shared) (more : List (List UInt8)) (s' : Shared) : Prop where
  fifo : s'.fifo = s.fifo
  silences : s'.metrics.silenceBuffers = s.metrics.silenceBuffers
  journal : s.journal.Hands more s'.journal

namespace Shared

variable {a b c s : Shared}

theorem Hands.refl (s : Shared) : s.Hands [] s := ⟨rfl, rfl, .refl _⟩

theorem Hands.trans {more more' : List (List UInt8)} (h : a.Hands more b) (h' : b.Hands more' c) :
    a.Hands (more ++ more') c :=
  ⟨h'.fifo.trans h.fifo, h'.silences.trans h.silences, h.journal.trans h'.journal⟩

theorem hands_notice (thread : Thread) (n : Notice) : s.Hands [] (s.notice thread n) :=
  ⟨rfl, rfl, Journal.hands_notice thread n⟩

theorem summarize_hands (log : SummaryLog) (thread : Thread) :
    s.Hands [] (s.summarize log thread).2 := by
  unfold summarize
  split
  · exact .refl s
  · exact hands_notice thread _

end Shared

namespace Filler

variable {δ κ : Type}

structure Resumes (t t' : Filler δ κ) : Prop where
  supply : t'.supply = t.supply
  params : t'.params = t.params
  buffer : t'.buffer = t.buffer
  stop : t'.stop = t.stop
  stage : t'.stage = t.stage ∨ ∃ f, t'.stage = .broken f

theorem Resumes.trans {a b c : Filler δ κ} (h : a.Resumes b) (h' : b.Resumes c) : a.Resumes c := by
  refine ⟨h'.supply.trans h.supply, h'.params.trans h.params, h'.buffer.trans h.buffer,
    h'.stop.trans h.stop, ?_⟩
  rcases h'.stage with same | broken
  · rw [same]
    exact h.stage
  · exact .inr broken

theorem resumes_device (t : Filler δ κ) (device : δ) : t.Resumes { t with device } :=
  ⟨rfl, rfl, rfl, rfl, .inl rfl⟩

theorem breakDown_resumes (t : Filler δ κ) (f : Fault) : t.Resumes (t.breakDown f) :=
  ⟨rfl, rfl, rfl, rfl, .inr ⟨f, rfl⟩⟩

theorem summarize_spec (t : Filler δ κ) (s : Shared) :
    t.Resumes (t.summarize s).1 ∧ s.Hands [] (t.summarize s).2 := by
  unfold summarize
  split
  · exact ⟨⟨rfl, rfl, rfl, rfl, .inl rfl⟩, Shared.summarize_hands t.log .fill⟩
  · exact ⟨⟨rfl, rfl, rfl, rfl, .inl rfl⟩, .refl s⟩

variable [Device δ]

theorem recover_spec (t : Filler δ κ) (s : Shared) (e : DeviceError) :
    t.Resumes (t.recover s e).1 ∧ s.Hands [] (t.recover s e).2 := by
  have warned := Journal.hands_notice (j := s.journal) .fill (.writeFailed e)
  have tried := warned.trans (Device.recoverIn_hands .fill t.device _)
  rcases reply : Device.recoverIn .fill t.device (s.journal.notice .fill (.writeFailed e)) with
    ⟨outcome, d, j⟩
  rw [reply] at tried
  have counted : s.Hands [] { s with metrics := s.metrics.countDeviceError, journal := j } :=
    ⟨rfl, rfl, tried⟩
  have kept := resumes_device t d
  cases outcome with
  | ok _ => simpa only [recover, reply] using And.intro kept counted
  | broken f =>
    simpa only [recover, reply] using And.intro (kept.trans (breakDown_resumes _ f)) counted
  | failed e' =>
    have reported : s.Hands [] (Shared.notice { s with
        metrics := s.metrics.countDeviceError.countRecoveryFailure, journal := j }
        .fill (.recoveryFailed e')) :=
      counted.trans ⟨rfl, rfl, Journal.hands_notice _ _⟩
    cases time : t.params.bufferTime with
    | ok nanos =>
      simp only [recover, reply, time]
      exact ⟨kept, reported.trans ⟨rfl, rfl, Journal.hands_sleep nanos⟩⟩
    | error f =>
      simp only [recover, reply, time]
      exact ⟨kept.trans (breakDown_resumes _ f), reported⟩

theorem write_spec (t : Filler δ κ) (s : Shared) :
    Resumes { t with stage := .checking } (t.write s).1 ∧ s.Hands [t.buffer] (t.write s).2 := by
  have tried := Device.writeIn_hands .fill t.device t.buffer t.params.bufferFrames s.journal
  rcases reply : Device.writeIn .fill t.device t.buffer t.params.bufferFrames s.journal with
    ⟨outcome, d, j⟩
  rw [reply] at tried
  have handed : s.Hands [t.buffer] { s with journal := j } := ⟨rfl, rfl, tried⟩
  have kept := resumes_device { t with stage := .checking } d
  cases outcome with
  | ok frames =>
    obtain ⟨resumed, quiet⟩ := summarize_spec { t with device := d, stage := .checking }
      { s with metrics := s.metrics.countWrite frames, journal := j }
    simp only [write, reply]
    exact ⟨kept.trans resumed, handed.trans ⟨quiet.fifo, quiet.silences, quiet.journal⟩⟩
  | failed e =>
    obtain ⟨resumed, quiet⟩ :=
      recover_spec { t with device := d, stage := .checking } { s with journal := j } e
    obtain ⟨resumed', quiet'⟩ := summarize_spec
      (recover { t with device := d, stage := .checking } { s with journal := j } e).1 _
    simp only [write, reply]
    exact ⟨(kept.trans resumed).trans resumed', (handed.trans quiet).trans quiet'⟩
  | broken f =>
    simp only [write, reply]
    exact ⟨kept.trans (breakDown_resumes _ f), handed⟩

end Filler

end PcmStream
