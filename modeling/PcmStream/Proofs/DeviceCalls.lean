import PcmStream.Proofs.SessionActs

/- The calls on the device that a session enters in its record, and the counters that follow them.
   Only a write and a recovery after it are ever made on a device that plays; the counters of
   both are moved where the calls are made. -/
namespace PcmStream

namespace Call

def works : Call → Bool
  | .wrote _ _ _ => true
  | .recovered _ => true
  | _ => false

def isTaken : Call → Bool
  | .wrote _ _ (.ok _) => true
  | _ => false

def isRefused : Call → Bool
  | .wrote _ _ (.failed _) => true
  | _ => false

def isBroken : Call → Bool
  | .wrote _ _ (.broken _) => true
  | .recovered (.broken _) => true
  | _ => false

end Call

/-- What a call on the device does to the counters. -/
def Metrics.follow (m : Metrics) : Call → Metrics
  | .wrote _ _ (.ok frames) => m.countWrite frames
  | .wrote _ _ (.failed _) => m.countDeviceError
  | .recovered (.failed _) => m.countRecoveryFailure
  | _ => m

def Journal.Uses (j j' : Journal) : Prop :=
  ∃ more, (∀ c ∈ more, c.works = true) ∧ j'.calls = j.calls ++ more

theorem Journal.Uses.of_eq {j j' : Journal} (same : j'.calls = j.calls) : j.Uses j' :=
  ⟨[], by simp, by simp [same]⟩

theorem Journal.Uses.trans {a b c : Journal} (h : a.Uses b) (h' : b.Uses c) : a.Uses c := by
  obtain ⟨more, works, called⟩ := h
  obtain ⟨more', works', called'⟩ := h'
  refine ⟨more ++ more', List.forall_mem_append.mpr ⟨works, works'⟩, ?_⟩
  rw [called', called, List.append_assoc]

namespace Journal

variable (j : Journal)

@[simp] theorem calls_call (c : Call) : (j.call c).calls = j.calls ++ [c] := by
  simp [calls, events, call, record]

@[simp] theorem calls_notice (thread : Thread) (n : Notice) :
    (j.notice thread n).calls = j.calls := by
  simp [calls, events, notice, record]

@[simp] theorem calls_fetch (f : Fetch) : (j.fetch f).calls = j.calls := by
  simp [calls, events, fetch, record]

@[simp] theorem calls_sleep (nanos : Nat) : (j.sleep nanos).calls = j.calls := by
  simp [calls, events, sleep, advance, record]

end Journal

@[simp] theorem Reply.calls_enter {δ α : Type} (r : Reply δ α) (thread : Thread) (j : Journal) :
    (r.enter thread j).calls = j.calls := by
  have noticed : ∀ (notices : List Notice) (j : Journal),
      (notices.foldl (fun j n => j.notice thread n) j).calls = j.calls := by
    intro notices
    induction notices with
    | nil => exact fun j => rfl
    | cons n notices ih => exact fun j => (ih _).trans (j.calls_notice thread n)
  unfold Reply.enter
  cases r.slept with
  | none => exact noticed r.notices j
  | some nanos => exact (Journal.calls_sleep _ nanos).trans (noticed r.notices j)

/-- From `s` to `s'` the device gets `more`, and the counters follow. -/
structure Shared.Calls (s : Shared) (more : List Call) (s' : Shared) : Prop where
  works : ∀ c ∈ more, c.works = true
  calls : s'.journal.calls = s.journal.calls ++ more
  metrics : s'.metrics = more.foldl Metrics.follow s.metrics

namespace Shared

variable {a b c s : Shared}

theorem Calls.refl (s : Shared) : s.Calls [] s := ⟨by simp, by simp, rfl⟩

theorem Calls.trans {more more' : List Call} (h : a.Calls more b) (h' : b.Calls more' c) :
    a.Calls (more ++ more') c := by
  constructor
  · exact List.forall_mem_append.mpr ⟨h.works, h'.works⟩
  · rw [h'.calls, h.calls, List.append_assoc]
  · rw [h'.metrics, h.metrics, List.foldl_append]

theorem calls_notice (thread : Thread) (n : Notice) : s.Calls [] (s.notice thread n) :=
  ⟨by simp, by simp [notice], rfl⟩

theorem summarize_calls (log : SummaryLog) (thread : Thread) :
    s.Calls [] (s.summarize log thread).2 := by
  unfold summarize
  split
  · exact .refl s
  · exact calls_notice thread _

end Shared

namespace Device

variable {δ : Type} [Device δ]

theorem writeIn_calls (thread : Thread) (d : δ) (bytes : List UInt8) (frames : Nat) (j : Journal) :
    (writeIn thread d bytes frames j).2.2.calls =
      j.calls ++ [.wrote frames bytes (writeIn thread d bytes frames j).1] := by
  simp [writeIn]

theorem recoverIn_calls (thread : Thread) (d : δ) (j : Journal) :
    (recoverIn thread d j).2.2.calls = j.calls ++ [.recovered (recoverIn thread d j).1] := by
  simp [recoverIn]

end Device

namespace Filler

variable {δ κ : Type}

theorem summarize_calls (t : Filler δ κ) (s : Shared) :
    s.Calls [] (t.summarize s).2 ∧ (t.summarize s).1.isAlive = t.isAlive := by
  unfold summarize
  split
  · exact ⟨Shared.summarize_calls t.log .fill, rfl⟩
  · exact ⟨.refl s, rfl⟩

theorem fill_calls [Callback κ] (t : Filler δ κ) (s : Shared) :
    (t.fill s).2.journal.calls = s.journal.calls := by
  unfold fill
  split
  · split <;> rfl
  · split
    · unfold fillFrom
      split
      · simp [Shared.fetch]
      · dsimp only
        split <;> simp [Shared.fetch]
    · rfl

variable [Device δ]

theorem recover_calls (t : Filler δ κ) (s : Shared) (e : DeviceError) :
    ∃ c, Shared.Calls { s with metrics := s.metrics.countDeviceError } [c] (t.recover s e).2 ∧
      ((t.recover s e).1.isAlive = true → c.isBroken = false) := by
  have tried := Device.recoverIn_calls .fill t.device (s.journal.notice .fill (.writeFailed e))
  rcases reply : Device.recoverIn .fill t.device (s.journal.notice .fill (.writeFailed e)) with
    ⟨outcome, d, j⟩
  rw [reply, Journal.calls_notice] at tried
  refine ⟨.recovered outcome, ?_⟩
  cases outcome with
  | ok _ =>
    simp only [recover, reply]
    exact ⟨⟨by simp [Call.works], tried, rfl⟩, fun _ => rfl⟩
  | broken f =>
    simp only [recover, reply]
    exact ⟨⟨by simp [Call.works], tried, rfl⟩, by simp [isAlive, breakDown]⟩
  | failed e' =>
    cases time : t.params.bufferTime with
    | ok nanos =>
      simp only [recover, reply, time]
      exact ⟨⟨by simp [Call.works], by simpa [Shared.notice] using tried, rfl⟩, fun _ => rfl⟩
    | error f =>
      simp only [recover, reply, time]
      exact ⟨⟨by simp [Call.works], by simpa [Shared.notice] using tried, rfl⟩, fun _ => rfl⟩

theorem write_calls (t : Filler δ κ) (s : Shared) :
    ∃ more, s.Calls more (t.write s).2 ∧
      ((t.write s).1.isAlive = true → ∀ c ∈ more, c.isBroken = false) := by
  have tried := Device.writeIn_calls .fill t.device t.buffer t.params.bufferFrames s.journal
  rcases reply : Device.writeIn .fill t.device t.buffer t.params.bufferFrames s.journal with
    ⟨outcome, d, j⟩
  rw [reply] at tried
  let written : Call := .wrote t.params.bufferFrames t.buffer outcome
  cases outcome with
  | ok frames =>
    obtain ⟨quiet, same⟩ := summarize_calls { t with device := d, stage := .checking }
      { s with metrics := s.metrics.countWrite frames, journal := j }
    have called : s.Calls [written]
        { s with metrics := s.metrics.countWrite frames, journal := j } :=
      ⟨by simp [written, Call.works], tried, rfl⟩
    simp only [write, reply]
    exact ⟨[written], called.trans quiet, by simp [written, Call.isBroken]⟩
  | failed e =>
    obtain ⟨c, recovered, sane⟩ :=
      recover_calls { t with device := d, stage := .checking } { s with journal := j } e
    obtain ⟨quiet, same⟩ := summarize_calls
      (recover { t with device := d, stage := .checking } { s with journal := j } e).1
      (recover { t with device := d, stage := .checking } { s with journal := j } e).2
    have called : s.Calls [written]
        { s with metrics := s.metrics.countDeviceError, journal := j } :=
      ⟨by simp [written, Call.works], tried, rfl⟩
    simp only [write, reply]
    refine ⟨[written] ++ [c] ++ [], (called.trans recovered).trans quiet, ?_⟩
    intro alive
    rw [same] at alive
    intro call mem
    simp only [List.append_nil, List.mem_append, List.mem_singleton] at mem
    rcases mem with rfl | rfl
    · rfl
    · exact sane alive
  | broken f =>
    have called : s.Calls [written] { s with journal := j } :=
      ⟨by simp [written, Call.works], tried, rfl⟩
    simp only [write, reply]
    exact ⟨[written], called, by simp [isAlive, breakDown]⟩

theorem step_uses [Callback κ] (t : Filler δ κ) (s : Shared) :
    s.journal.Uses (t.step s).2.journal := by
  cases stage : t.stage with
  | starting =>
    simp only [step, stage, start]
    split
    · exact .of_eq rfl
    · exact .of_eq (Journal.calls_notice _ _ _)
  | checking =>
    simp only [step, stage, check]
    split
    · exact .of_eq (Journal.calls_notice _ _ _)
    · exact .of_eq rfl
  | filling =>
    simp only [step, stage]
    exact .of_eq (fill_calls t s)
  | writing =>
    obtain ⟨more, called, _⟩ := write_calls t s
    simp only [step, stage]
    exact ⟨more, called.works, called.calls⟩
  | finished =>
    simp only [step, stage]
    exact .of_eq rfl
  | broken f =>
    simp only [step, stage]
    exact .of_eq rfl

theorem approach_uses [Callback κ] (n : Nat) (t : Filler δ κ) (s : Shared) :
    s.journal.Uses (t.approach n s).2.journal :=
  approach_keeps (P := fun _ s' => s.journal.Uses s'.journal)
    (fun t s' used => used.trans (step_uses t s')) n (.of_eq rfl)

theorem finish_uses [Callback κ] (t : Filler δ κ) (s : Shared) :
    s.journal.Uses (t.finish s).2.journal :=
  finishFuel_keeps (P := fun _ s' => s.journal.Uses s'.journal)
    (fun t s' used => used.trans (step_uses t s')) 3 (.of_eq rfl)

end Filler

namespace Session

variable {δ κ : Type} [Device δ]

theorem enqueue_calls (s : Session δ κ) (d : δ) (bytes : List UInt8) (frames : Nat) :
    ∃ more, s.shared.Calls more (s.enqueue d bytes frames).2.shared := by
  have tried := Device.writeIn_calls .main d (bytes.take (frames * s.params.frameSize)) frames
    s.journal
  rcases reply : Device.writeIn .main d (bytes.take (frames * s.params.frameSize)) frames
    s.journal with ⟨outcome, d', j⟩
  rw [reply] at tried
  let written : Call := .wrote frames (bytes.take (frames * s.params.frameSize)) outcome
  have works : ∀ c ∈ [written], c.works = true := by simp [written, Call.works]
  cases outcome with
  | ok n =>
    simp only [enqueue, reply]
    exact ⟨[written], works, tried, rfl⟩
  | broken f =>
    simp only [enqueue, reply]
    exact ⟨[written], works, tried, rfl⟩
  | failed e =>
    have tried' := Device.recoverIn_calls .main d' (j.notice .main (.enqueueFailed e))
    rcases reply' : Device.recoverIn .main d' (j.notice .main (.enqueueFailed e)) with
      ⟨outcome', d'', j'⟩
    rw [reply', Journal.calls_notice, tried, List.append_assoc] at tried'
    have works' : ∀ c ∈ [written] ++ [.recovered outcome'], c.works = true := by
      simp [written, Call.works]
    cases outcome' with
    | ok _ =>
      simp only [enqueue, reply, reply']
      exact ⟨_, works', tried', rfl⟩
    | broken f =>
      simp only [enqueue, reply, reply']
      exact ⟨_, works', tried', rfl⟩
    | failed e' =>
      simp only [enqueue, reply, reply']
      exact ⟨_, works', (Journal.calls_notice _ _ _).trans tried', rfl⟩

theorem place_calls (s : Session δ κ) (bytes : List UInt8) (frames : Nat) :
    ∃ more, s.shared.Calls more (s.place bytes frames).2.shared := by
  have none_made : ∃ more, s.shared.Calls more s.shared := ⟨[], .refl _⟩
  unfold place
  split
  · split
    · exact none_made
    · split
      · exact none_made
      · exact ⟨[], by simp, by simp [withFifo], rfl⟩
  · dsimp only
    split
    · exact none_made
    · exact enqueue_calls s _ bytes _
  · exact none_made

variable [Callback κ]

theorem act_uses {s s' : Session δ κ} {got : List UInt8} (act : Act s got s') :
    s.journal.Uses s'.journal := by
  cases act with
  | step =>
    unfold step
    split
    · exact Filler.step_uses _ s.shared
    · exact .of_eq rfl
  | @place _ bytes frames _ _ done =>
    obtain ⟨more, called⟩ := place_calls s bytes frames
    rw [done] at called
    exact ⟨more, called.works, called.calls⟩
  | @fault _ bytes frames _ _ done =>
    obtain ⟨more, called⟩ := place_calls s bytes frames
    rw [done] at called
    exact ⟨more, called.works, called.calls⟩
  | skip => exact .of_eq rfl
  | wait nanos => exact .of_eq rfl
  | stage staging => exact .of_eq rfl
  | summarize =>
    unfold summarize
    split
    · have quiet := Shared.summarize_calls (s := s.shared) s.log .main
      exact ⟨[], quiet.works, quiet.calls⟩
    · exact .of_eq rfl

theorem acts_uses {s s' : Session δ κ} {got : List UInt8} (acts : Acts s got s') :
    s.journal.Uses s'.journal := by
  induction acts with
  | refl => exact .of_eq rfl
  | tail _ act ih => exact ih.trans (act_uses act)

end Session

end PcmStream
