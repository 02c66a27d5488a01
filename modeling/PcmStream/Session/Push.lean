import PcmStream.Session

/- Frames from the owner to the device: pushed as bytes or as samples, or rendered to measure. The
   staging bytes are kept between calls and made anew in each. -/
namespace PcmStream.Session

variable {δ κ : Type} [Device δ]

def enqueue (s : Session δ κ) (d : δ) (bytes : List UInt8) (frames : Nat) :
    Except Fault Nat × Session δ κ :=
  let held (d : δ) (metrics : Metrics) (journal : Journal) : Session δ κ :=
    { s with holder := .owner d, shared := { s.shared with metrics, journal } }
  let (outcome, d, j) :=
    Device.writeIn .main d (bytes.take (frames * s.params.frameSize)) frames s.journal
  match outcome with
  | .ok written => (.ok written, held d (s.metrics.countWrite written) j)
  | .broken f => (.error f, held d s.metrics j)
  | .failed e =>
    let metrics := s.metrics.countDeviceError
    let (outcome, d, j) := Device.recoverIn .main d (j.notice .main (.enqueueFailed e))
    match outcome with
    | .ok () => (.ok 0, held d metrics j)
    | .broken f => (.error f, held d metrics j)
    | .failed e => (.ok 0, held d metrics.countRecoveryFailure (j.notice .main (.recoveryFailed e)))

def place (s : Session δ κ) (bytes : List UInt8) (frames : Nat) :
    Except Fault Nat × Session δ κ :=
  match s.holder with
  | .filler _ =>
    match s.fifo with
    | none => (.ok 0, s)
    | some q =>
      match q.write (bytes.take (frames * s.params.frameSize)) with
      | .error f => (.error f, s)
      | .ok (accepted, q) => (.ok (accepted / s.params.frameSize), s.withFifo q)
  | .owner d =>
    let frames := min frames (Device.freeFrames d s.journal.now)
    if frames = 0 then (.ok 0, s) else s.enqueue d bytes frames
  | .nobody => (.ok 0, s)

def push (s : Session δ κ) (bytes : List UInt8) : Except Fault Nat × Session δ κ :=
  let frames := bytes.length / s.params.frameSize
  if frames = 0 then (.ok 0, s)
  else
    match s.place bytes frames with
    | (.error f, s) => (.error f, s)
    | (.ok accepted, s) => (.ok accepted, s.withMetrics (s.metrics.countPush accepted))

def pushStaged (s : Session δ κ) (bytes : List UInt8) : Except Fault Nat × Session δ κ :=
  match push { s with staging := [] } bytes with
  | (.ok accepted, s) => (.ok accepted, { s with staging := bytes })
  | (.error f, s) => (.error f, s)

/-- Pushes samples, converted where they are not in the format of the session. The caller's samples
    are in memory; it is taken to hold their conversion beside them, at most twice as many bytes. -/
def pushTyped {σ : Type} [Sample σ] (s : Session δ κ) (samples : List σ) :
    Except Fault Nat × Session δ κ :=
  let samples := samples.take (samples.length / s.params.channels * s.params.channels)
  if Sample.format σ = s.params.format then s.push (samples.flatMap Sample.bytes)
  else
    let staging := resize 0 (samples.length * s.params.format.width) s.staging
    s.pushStaged (convert samples s.params.format Single.one staging).2

def summarize (s : Session δ κ) : Session δ κ :=
  match s.holder with
  | .owner _ =>
    let (log, shared) := s.shared.summarize s.log .main
    { s with log, shared }
  | _ => s

def measure {ρ : Type} [Renderer ρ] (s : Session δ κ) (r : ρ) : Except Fault Nat := do
  let size ← bytesFor s.room s.params.frameSize
  Renderer.prepare r size s.params
  return size

def Affords {ρ : Type} [Renderer ρ] (s : Session δ κ) (r : ρ) : Prop :=
  s.room * s.params.frameSize < allocLimit ∧
    Renderer.prepare r (s.room * s.params.frameSize) s.params = .ok ()

theorem measure_eq_ok_iff {ρ : Type} [Renderer ρ] {s : Session δ κ} {r : ρ} {size : Nat} :
    s.measure r = .ok size ↔ size = s.room * s.params.frameSize ∧ s.Affords r := by
  unfold measure Affords
  constructor
  · intro measured
    cases sized : bytesFor s.room s.params.frameSize with
    | error f => simp [sized, bind, Except.bind] at measured
    | ok n =>
      obtain ⟨fits, rfl⟩ := bytesFor_eq_ok_iff.mp sized
      cases prepared : Renderer.prepare r (s.room * s.params.frameSize) s.params with
      | error f => simp [sized, prepared, bind, Except.bind] at measured
      | ok =>
        simp only [sized, prepared, bind, Except.bind, pure, Except.pure, Except.ok.injEq] at measured
        exact ⟨measured.symm, fits, rfl⟩
  · rintro ⟨rfl, fits, prepared⟩
    have sized := bytesFor_eq_ok_iff.mpr ⟨fits, rfl⟩
    simp only [sized, prepared, bind, Except.bind, pure, Except.pure]

/-- Renders and pushes as many frames as there is room for. Without room the turn is skipped.
    Rendering takes `took` nanoseconds, and the room is looked up again when the frames are placed:
    a device may have more by then, or less. -/
def pushRendered {ρ : Type} [Renderer ρ] (s : Session δ κ) (r : ρ) (took : Nat) :
    Except Fault Nat × Session δ κ × ρ :=
  if s.room = 0 then
    if s.mode ≠ .callback ∧ s.isRunning then (.ok 0, s.withMetrics s.metrics.countSkip, r)
    else (.ok 0, s, r)
  else
    match s.measure r with
    | .error f => (.error f, { s with staging := [] }, r)
    | .ok size =>
      let made := Renderer.render r (resize 0 size s.staging) s.params
      match (s.advance took).pushStaged made.out with
      | (.error f, s) => (.error f, s, made.renderer)
      | (.ok pushed, s) => (.ok pushed, s.summarize, made.renderer)

end PcmStream.Session
