import PcmStream.Proofs.DeviceLife

/- What a session enters in its record, piece by piece. A write that failed is followed at once by one
   recovery of the device as the write left it. If that failed too, a filler rests for the time of
   one buffer, and an owner does not. -/
namespace PcmStream

def Reply.asides {δ α : Type} (r : Reply δ α) (thread : Thread) : List Event :=
  r.notices.map (.notice thread) ++ (r.slept.map .sleep).toList

namespace Journal

variable (j : Journal)

@[simp] theorem events_call (c : Call) : (j.call c).events = j.events ++ [.call c] := by
  simp [events, call, record]

@[simp] theorem events_fetch (f : Fetch) : (j.fetch f).events = j.events ++ [.fetch f] := by
  simp [events, fetch, record]

@[simp] theorem events_notice (thread : Thread) (n : Notice) :
    (j.notice thread n).events = j.events ++ [.notice thread n] := by
  simp [events, notice, record]

@[simp] theorem events_sleep (nanos : Nat) : (j.sleep nanos).events = j.events ++ [.sleep nanos] := by
  simp [events, sleep, advance, record]

end Journal

@[simp] theorem Reply.events_enter {δ α : Type} (r : Reply δ α) (thread : Thread) (j : Journal) :
    (r.enter thread j).events = j.events ++ r.asides thread := by
  have noticed : ∀ (notices : List Notice) (j : Journal),
      (notices.foldl (fun j n => j.notice thread n) j).events =
        j.events ++ notices.map (.notice thread) := by
    intro notices
    induction notices with
    | nil => simp
    | cons n notices ih => simp [ih]
  unfold enter asides
  cases r.slept with
  | none => simp [noticed]
  | some nanos => simp [noticed]

def Mode.thread : Mode → Thread
  | .queue => .main
  | _ => .fill

def Thread.report : Thread → DeviceError → Notice
  | .main => .enqueueFailed
  | .fill => .writeFailed

def Mode.rest (mode : Mode) (p : Params) : List Event :=
  if mode = .queue then []
  else match p.bufferTime with
    | .ok nanos => [.sleep nanos]
    | .error _ => []

def Mode.aftermath (mode : Mode) (p : Params) : Outcome Unit → List Event
  | .failed e => .notice mode.thread (.recoveryFailed e) :: mode.rest p
  | _ => []

theorem Mode.thread_of_threaded {mode : Mode} (threaded : mode ≠ .queue) : mode.thread = .fill := by
  cases mode with
  | queue => exact absurd rfl threaded
  | callback => rfl
  | fifo => rfl

section Pieces

variable (δ : Type) [Device δ] (mode : Mode) (p : Params)

/-- One use of a device that plays: a write that did not fail, or one that did and its recovery. -/
inductive Attempt : List Event → Prop where
  | settled {d : δ} {now : Nat} {bytes : List UInt8} {frames : Nat} {write : Reply δ Nat}
      (wrote : Device.write d now bytes frames = write)
      (unfailed : ∀ e, write.outcome ≠ .failed e) :
      Attempt (write.asides mode.thread ++ [.call (.wrote frames bytes write.outcome)])
  | failed {d : δ} {now later : Nat} {bytes : List UInt8} {frames : Nat} {write : Reply δ Nat}
      {recovery : Reply δ Unit} {e : DeviceError} (wrote : Device.write d now bytes frames = write)
      (failed : write.outcome = .failed e)
      (recovered : Device.recover write.device later = recovery) :
      Attempt (write.asides mode.thread ++
        [.call (.wrote frames bytes (.failed e)), .notice mode.thread (mode.thread.report e)] ++
        recovery.asides mode.thread ++
        [.call (.recovered recovery.outcome)] ++ mode.aftermath p recovery.outcome)

/-- The pieces that the record of a session is made of once the device has been opened. -/
inductive Piece : List Event → Prop where
  | message (thread : Thread) (n : Notice) : Piece [.notice thread n]
  | fetch (f : Fetch) : Piece [.fetch f]
  | attempt {events : List Event} (attempt : Attempt δ mode p events) : Piece events
  | closed (d : δ) (now : Nat) :
      Piece ((Device.disconnect d now).asides .main ++ [.call .closed])

/-- The events are pieces, one whole piece after the other. -/
def Conduct (events : List Event) : Prop :=
  ∃ pieces : List (List Event), (∀ piece ∈ pieces, Piece δ mode p piece) ∧ pieces.flatten = events

end Pieces

section Conduct

variable {δ : Type} [Device δ] {mode : Mode} {p : Params} {events more : List Event}

theorem Conduct.nil : Conduct δ mode p [] := ⟨[], by simp, rfl⟩

theorem Piece.alone (h : Piece δ mode p events) : Conduct δ mode p events :=
  ⟨[events], by simpa using h, by simp⟩

theorem Conduct.append (h : Conduct δ mode p events) (h' : Conduct δ mode p more) :
    Conduct δ mode p (events ++ more) := by
  obtain ⟨pieces, each, rfl⟩ := h
  obtain ⟨pieces', each', rfl⟩ := h'
  exact ⟨pieces ++ pieces', List.forall_mem_append.mpr ⟨each, each'⟩, List.flatten_append⟩

end Conduct

def Event.call? : Event → Option Call
  | .call c => some c
  | .fetch _ => none
  | .notice _ _ => none
  | .sleep _ => none

theorem Journal.calls_eq (j : Journal) : j.calls = j.events.filterMap Event.call? := by
  unfold Journal.calls
  congr 1
  funext e
  cases e <;> rfl

def Event.fetch? : Event → Option Fetch
  | .fetch f => some f
  | .call _ => none
  | .notice _ _ => none
  | .sleep _ => none

namespace Call

def isRecovery : Call → Bool
  | .recovered _ => true
  | _ => false

def isUnrecovered : Call → Bool
  | .recovered (.failed _) => true
  | _ => false

def framesTaken : Call → Nat
  | .wrote _ _ (.ok frames) => frames
  | _ => 0

end Call

@[simp] theorem Reply.calls_asides {δ α : Type} (r : Reply δ α) (thread : Thread) :
    (r.asides thread).filterMap Event.call? = [] := by
  unfold asides
  cases r.slept <;> simp [Event.call?]

section Counts

variable {δ : Type} [Device δ] {mode : Mode} {p : Params} {events : List Event}

@[simp] theorem calls_aftermath (outcome : Outcome Unit) :
    (mode.aftermath p outcome).filterMap Event.call? = [] := by
  have resting : (mode.rest p).filterMap Event.call? = [] := by
    unfold Mode.rest
    split
    · rfl
    · split <;> rfl
  cases outcome with
  | ok _ => rfl
  | broken f => rfl
  | failed e => simpa [Mode.aftermath, Event.call?] using resting

theorem calls_attempt (h : Attempt δ mode p events) :
    (∃ frames bytes outcome, (∀ e, outcome ≠ .failed e) ∧
      events.filterMap Event.call? = [.wrote frames bytes outcome]) ∨
    ∃ frames bytes e outcome,
      events.filterMap Event.call? = [.wrote frames bytes (.failed e), .recovered outcome] := by
  cases h with
  | @settled d now bytes frames write wrote unfailed =>
    left
    exact ⟨frames, bytes, write.outcome, unfailed, by simp [Event.call?]⟩
  | @failed d now later bytes frames write recovery e wrote failed recovered =>
    right
    exact ⟨frames, bytes, e, recovery.outcome, by simp [List.filterMap_cons, Event.call?]⟩

theorem recoveries_of_conduct (h : Conduct δ mode p events) :
    (events.filterMap Event.call?).countP Call.isRecovery =
      (events.filterMap Event.call?).countP Call.isRefused := by
  obtain ⟨pieces, each, rfl⟩ := h
  induction pieces with
  | nil => rfl
  | cons piece pieces ih =>
    have rest := ih fun other mem => each other (List.mem_cons_of_mem piece mem)
    have first : (piece.filterMap Event.call?).countP Call.isRecovery =
        (piece.filterMap Event.call?).countP Call.isRefused := by
      cases each piece List.mem_cons_self with
      | message thread n => rfl
      | fetch f => rfl
      | closed d now => simp [Event.call?, Call.isRecovery, Call.isRefused]
      | attempt attempt =>
        rcases calls_attempt attempt with ⟨frames, bytes, outcome, unfailed, called⟩ |
          ⟨frames, bytes, e, outcome, called⟩
        · rw [called]
          cases outcome with
          | ok n => rfl
          | broken f => rfl
          | failed e => exact absurd rfl (unfailed e)
        · rw [called]
          rfl
    simp only [List.flatten_cons, List.filterMap_append, List.countP_append, first, rest]

end Counts

end PcmStream
