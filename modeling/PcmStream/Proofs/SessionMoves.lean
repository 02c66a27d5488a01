import PcmStream.Proofs.SessionRecord
import PcmStream.Session.Push
import PcmStream.Session.Start

/- All that can happen to a session, as moves, and runs of them. What each step of the filler keeps
   holds after any stretch of its loop; what each move keeps holds after any run. -/
namespace PcmStream

def Stage.stepsLeft : Stage → Nat
  | starting => 2
  | checking => 1
  | filling => 3
  | writing => 2
  | finished => 0
  | broken _ => 0

namespace Filler

variable {δ κ : Type}

theorem isAlive_iff {t : Filler δ κ} : t.isAlive = true ↔ 0 < t.stage.stepsLeft := by
  cases stage : t.stage <;> simp [isAlive, stage, Stage.stepsLeft]

theorem start_stops {t : Filler δ κ} {s : Shared} :
    (t.start s).1.stop = t.stop ∧ (t.start s).1.stage.stepsLeft ≤ 1 := by
  unfold start
  split <;> simp [breakDown, Stage.stepsLeft]

theorem fill_stops [Callback κ] {t : Filler δ κ} {s : Shared} :
    (t.fill s).1.stop = t.stop ∧ (t.fill s).1.stage.stepsLeft ≤ 2 := by
  unfold fill
  split
  · split <;> simp [breakDown, Stage.stepsLeft]
  · split
    · unfold fillFrom
      split
      · simp [breakDown, Stage.stepsLeft]
      · dsimp only
        split <;> simp [Stage.stepsLeft]
    · simp [Stage.stepsLeft]

theorem write_stops [Device δ] {t : Filler δ κ} {s : Shared} :
    (t.write s).1.stop = t.stop ∧ (t.write s).1.stage.stepsLeft ≤ 1 := by
  have resumed := (write_spec t s).1
  refine ⟨resumed.stop, ?_⟩
  rcases resumed.stage with checking | ⟨f, broken⟩
  · simp [checking, Stage.stepsLeft]
  · simp [broken, Stage.stepsLeft]

variable [Device δ] [Callback κ]

theorem step_stops (t : Filler δ κ) (s : Shared) :
    (t.step s).1.stop = t.stop ∧
      (t.stop = true → t.isAlive = true →
        (t.step s).1.stage.stepsLeft < t.stage.stepsLeft) := by
  cases stage : t.stage with
  | starting =>
    simp only [step, stage]
    exact ⟨start_stops.1, fun _ _ => Nat.lt_succ_of_le start_stops.2⟩
  | checking =>
    simp only [step, stage, check]
    split
    · exact ⟨rfl, fun _ _ => Nat.zero_lt_one⟩
    · rename_i up
      exact ⟨rfl, fun stop => absurd stop up⟩
  | filling =>
    simp only [step, stage]
    exact ⟨fill_stops.1, fun _ _ => Nat.lt_succ_of_le fill_stops.2⟩
  | writing =>
    simp only [step, stage]
    exact ⟨write_stops.1, fun _ _ => Nat.lt_succ_of_le write_stops.2⟩
  | finished => simp [step, stage, isAlive]
  | broken f => simp [step, stage, isAlive]

theorem finishFuel_ends (fuel : Nat) {t : Filler δ κ} {s : Shared} (stop : t.stop = true)
    (enough : t.stage.stepsLeft ≤ fuel) : (finishFuel fuel t s).1.isAlive = false := by
  induction fuel generalizing t s with
  | zero =>
    have none_left : ¬ t.isAlive = true := by
      rw [isAlive_iff]
      omega
    simpa [finishFuel] using none_left
  | succ fuel ih =>
    rw [finishFuel]
    split
    · rename_i alive
      obtain ⟨same, nearer⟩ := step_stops t s
      have fewer : (t.step s).1.stage.stepsLeft ≤ fuel := by
        have := nearer stop alive
        omega
      exact ih (same.trans stop) fewer
    · rename_i dead
      simpa using dead

theorem finish_ends (t : Filler δ κ) (s : Shared) : (t.finish s).1.isAlive = false := by
  refine finishFuel_ends 3 rfl ?_
  cases t.stage <;> simp [Stage.stepsLeft]

section Keeps

variable {P : Filler δ κ → Shared → Prop} (step : ∀ t s, P t s → P (t.step s).1 (t.step s).2)
include step

theorem approach_keeps (n : Nat) {t : Filler δ κ} {s : Shared} (h : P t s) :
    P (approach n t s).1 (approach n t s).2 := by
  induction n generalizing t s with
  | zero => exact h
  | succ n ih =>
    rw [approach]
    split
    · exact h
    · exact ih (step t s h)

theorem turn_keeps {t : Filler δ κ} {s : Shared} (h : P t s) : P (t.turn s).1 (t.turn s).2 := by
  have settled : P (t.settle s).1 (t.settle s).2 := approach_keeps step 3 h
  exact approach_keeps step 3 (step _ _ settled)

theorem finishFuel_keeps (fuel : Nat) {t : Filler δ κ} {s : Shared} (h : P t s) :
    P (finishFuel fuel t s).1 (finishFuel fuel t s).2 := by
  induction fuel generalizing t s with
  | zero => exact h
  | succ fuel ih =>
    rw [finishFuel]
    split
    · exact ih (step t s h)
    · exact h

end Keeps

end Filler

/-- A call of the owner, a part of the filler's loop, or time going by. One step of the filler is a
    move too, so that the owner may come in between any two. -/
inductive Move : Type 1 where
  | push (bytes : List UInt8)
  | pushTyped {σ : Type} [Sample σ] (samples : List σ)
  | pushRendered {ρ : Type} [Renderer ρ] (r : ρ) (took : Nat)
  | run (n : Nat)
  | step
  | wait (nanos : Nat)
  | close

def Opening.session? {δ κ : Type} : Opening δ κ → Option (Session δ κ)
  | .session s => some s
  | _ => none

theorem Opening.eq_of_session? {δ κ : Type} {o : Opening δ κ} {s : Session δ κ}
    (h : o.session? = some s) : o = .session s := by
  cases o with
  | session s' => rw [Option.some.inj h]
  | refused e j => cases h
  | broken f j => cases h

def Holder.filler? {δ κ : Type} : Holder δ κ → Option (Filler δ κ)
  | .filler t => some t
  | _ => none

theorem Holder.eq_of_filler? {δ κ : Type} {holder : Holder δ κ} {t : Filler δ κ}
    (h : holder.filler? = some t) : holder = .filler t := by
  cases holder with
  | filler t' => rw [Option.some.inj h]
  | owner d => cases h
  | nobody => cases h

namespace Session

variable {δ κ : Type} [Device δ] [Callback κ]

def step (s : Session δ κ) : Session δ κ :=
  match s.holder with
  | .filler t =>
    let (t, shared) := t.step s.shared
    { s with holder := .filler t, shared }
  | _ => s

def move (s : Session δ κ) : Move → Except Fault Nat × Session δ κ
  | .push bytes => s.push bytes
  | @Move.pushTyped _ _ samples => s.pushTyped samples
  | @Move.pushRendered _ _ r took =>
    let (placed, s, _) := s.pushRendered r took
    (placed, s)
  | .run n => (.ok 0, (s.run n).2)
  | .step => (.ok 0, s.step)
  | .wait nanos => (.ok 0, s.advance nanos)
  | .close => (.ok 0, s.close)

def offered (s : Session δ κ) : Move → List UInt8
  | .push bytes => bytes
  | @Move.pushTyped σ _ samples =>
    if Sample.format σ = s.params.format then samples.flatMap Sample.bytes
    else samples.flatMap (convertSample s.params.format Single.one)
  | @Move.pushRendered _ _ r _ =>
    let size := s.room * s.params.frameSize
    (Renderer.render r (resize 0 size s.staging) s.params).out
  | _ => []

/-- The bytes that a move gets accepted: as many frames of the offered as it says it placed. -/
def accepted (s : Session δ κ) (m : Move) : List UInt8 :=
  match (s.move m).1 with
  | .ok frames => (s.offered m).take (frames * s.params.frameSize)
  | .error _ => []

def moves : Session δ κ → List Move → Session δ κ × List UInt8
  | s, [] => (s, [])
  | s, m :: rest =>
    let (last, later) := (s.move m).2.moves rest
    (last, s.accepted m ++ later)

theorem run_keeps {P : Filler δ κ → Shared → Prop}
    (step : ∀ t s, P t s → P (t.step s).1 (t.step s).2) (n : Nat) {s : Session δ κ}
    {t : Filler δ κ} (holder : s.holder = .filler t) (h : P t s.shared) :
    ∃ t' shared, (s.run n).2 = { s with holder := .filler t', shared } ∧ P t' shared := by
  induction n generalizing s t with
  | zero => exact ⟨t, s.shared, by simp [run, ← holder], h⟩
  | succ n ih =>
    simp only [run, holder]
    split
    · exact ih rfl (Filler.turn_keeps step h)
    · exact ⟨t, s.shared, by simp [← holder], h⟩

theorem run_unthreaded {s : Session δ κ} (unthreaded : ∀ t, s.holder ≠ .filler t) (n : Nat) :
    s.run n = (0, s) := by
  cases n with
  | zero => rfl
  | succ n =>
    unfold run
    split
    · rename_i t holder
      exact absurd holder (unthreaded t)
    · rfl

theorem step_unthreaded {s : Session δ κ} (unthreaded : ∀ t, s.holder ≠ .filler t) : s.step = s := by
  unfold step
  split
  · rename_i t holder
    exact absurd holder (unthreaded t)
  · rfl

theorem moves_keep {P : Session δ κ → List UInt8 → Prop}
    (each : ∀ s stream m, P s stream → P (s.move m).2 (stream ++ s.accepted m))
    (all : List Move) {s : Session δ κ} {stream : List UInt8} (h : P s stream) :
    P (s.moves all).1 (stream ++ (s.moves all).2) := by
  induction all generalizing s stream with
  | nil => simpa [moves] using h
  | cons m rest ih =>
    have next := ih (each s stream m h)
    rwa [List.append_assoc] at next

theorem take_flatMap_take {σ : Type} (f : σ → List UInt8) (samples : List σ) (k n : Nat)
    (fits : n ≤ ((samples.take k).flatMap f).length) :
    ((samples.take k).flatMap f).take n = (samples.flatMap f).take n := by
  conv => rhs; rw [← List.take_append_drop k samples, List.flatMap_append]
  rw [List.take_append_of_le_length fits]

theorem convert_all {σ : Type} [Sample σ] (samples : List σ) (format : SampleFormat)
    (gain : Single) {dst : List UInt8} (sized : dst.length = samples.length * format.width) :
    (convert samples format gain dst).2 = samples.flatMap (convertSample format gain) := by
  rw [convert_fitting (Nat.le_of_eq sized.symm), ← sized, List.drop_length, List.append_nil]

end Session

end PcmStream
