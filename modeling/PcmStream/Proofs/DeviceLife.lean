import PcmStream.Device.Scripted
import PcmStream.Proofs.ByteQueue
import PcmStream.Proofs.DeviceCalls

/- The life of a device in a session of any mode. It is opened once, then written to and recovered,
   and closed at most once; nothing follows the close. A filler that broke down has lost its device,
   so that nobody can close it. -/
namespace PcmStream

/-- The device is opened for `p`, works, and is closed in the end or not. -/
def Journal.Life (before after : Journal) (p : Params) (closed : Bool) : Prop :=
  ∃ work, (∀ c ∈ work, c.works = true) ∧
    after.calls = before.calls ++ .opened p :: (work ++ if closed then [.closed] else [])

theorem Journal.Life.extend {before j j' : Journal} {p : Params} (h : before.Life j p false)
    {more : List Call} {closed : Bool} (works : ∀ c ∈ more, c.works = true)
    (called : j'.calls = j.calls ++ (more ++ if closed then [.closed] else [])) :
    before.Life j' p closed := by
  obtain ⟨work, works', called'⟩ := h
  refine ⟨work ++ more, List.forall_mem_append.mpr ⟨works', works⟩, ?_⟩
  rw [called, called']
  simp

theorem Journal.Life.uses {before j j' : Journal} {p : Params} (h : before.Life j p false)
    (used : j.Uses j') : before.Life j' p false := by
  obtain ⟨more, works, called⟩ := used
  exact h.extend works (by simpa using called)

theorem Device.disconnectIn_calls {δ : Type} [Device δ] (d : δ) (j : Journal) :
    (disconnectIn d j).calls = j.calls ++ [.closed] := by
  simp [disconnectIn]

namespace Filler

variable {δ κ : Type}

def isBroken (t : Filler δ κ) : Bool :=
  match t.stage with
  | .broken _ => true
  | _ => false

theorem read_shut {q : Fifo} (shut : q.isOpen = false) (dst : List UInt8) :
    (∃ f, q.read dst = .error f) ∨ q.read dst = .ok (0, dst, q) := by
  by_cases aligned : dst.length % q.packetSize = 0
  · exact .inr (Fifo.read_closed shut aligned)
  · exact .inl ⟨_, Fifo.read_unaligned aligned⟩

theorem fill_shut [Callback κ] (t : Filler δ κ) {s : Shared}
    (shut : ∀ q, s.fifo = some q → q.isOpen = false) : (t.fill s).2.fifo = s.fifo := by
  unfold fill
  split
  · split <;> rfl
  · split
    · rename_i q fifo
      unfold fillFrom
      rcases read_shut (shut q fifo) t.buffer with ⟨f, failed⟩ | none_read
      · rw [failed]
        rfl
      · rw [none_read]
        rfl
    · rfl

variable [Device δ] [Callback κ]

theorem step_shut (t : Filler δ κ) {s : Shared}
    (shut : ∀ q, s.fifo = some q → q.isOpen = false) : (t.step s).2.fifo = s.fifo := by
  cases stage : t.stage with
  | starting =>
    simp only [step, stage, start]
    split <;> rfl
  | checking =>
    simp only [step, stage, check]
    split <;> rfl
  | filling => simpa only [step, stage] using fill_shut t shut
  | writing => simpa only [step, stage] using (write_spec t s).2.fifo
  | finished => simp only [step, stage]
  | broken f => simp only [step, stage]

theorem finish_shut (t : Filler δ κ) {s : Shared}
    (shut : ∀ q, s.fifo = some q → q.isOpen = false) : (t.finish s).2.fifo = s.fifo :=
  finishFuel_keeps (P := fun _ s' => s'.fifo = s.fifo)
    (fun t _ same => (step_shut t (same ▸ shut)).trans same) 3 rfl

theorem release_calls (t : Filler δ κ) (s : Shared) :
    ∃ more, (∀ c ∈ more, c.works = true) ∧ (t.release s).journal.calls =
      s.journal.calls ++ (more ++ if !(t.finish s).1.isBroken then [.closed] else []) := by
  obtain ⟨more, works, called⟩ := finish_uses t s
  refine ⟨more, works, ?_⟩
  unfold release
  dsimp only
  split
  · rename_i f broken
    simp [isBroken, broken, Shared.notice, called]
  · rename_i whole
    have sane : (t.finish s).1.isBroken = false := by
      unfold isBroken
      split
      · rename_i f broken
        exact absurd broken (whole f)
      · rfl
    rw [Device.disconnectIn_calls, called, sane]
    simp

theorem release_shut (t : Filler δ κ) {s : Shared}
    (shut : ∀ q, s.fifo = some q → q.isOpen = false) : (t.release s).fifo = s.fifo := by
  have same := finish_shut t shut
  unfold release
  dsimp only
  split
  · exact same
  · exact same

/-- The stages that a filler passes through. What it shares with the owner may change between any
    two of its steps. -/
def stages (t : Filler δ κ) : List Shared → List Stage
  | [] => []
  | s :: rest => t.stage :: (t.step s).1.stages rest

theorem stages_below (during : List Shared) {t : Filler δ κ} (stop : t.stop = true) :
    ∀ stage ∈ t.stages during, stage.stepsLeft ≤ t.stage.stepsLeft := by
  induction during generalizing t with
  | nil => simp [stages]
  | cons s rest ih =>
    intro stage mem
    obtain ⟨same, nearer⟩ := step_stops t s
    rcases List.mem_cons.mp mem with rfl | later
    · exact Nat.le_refl _
    · have below := ih (same.trans stop) stage later
      by_cases alive : t.isAlive = true
      · exact Nat.le_trans below (Nat.le_of_lt (nearer stop alive))
      · have still : (t.step s).1 = t := by
          cases at_end : t.stage <;> simp_all [isAlive, step]
        rwa [still] at below

theorem stages_once (during : List Shared) {t : Filler δ κ} (stop : t.stop = true) {stage : Stage}
    (live : 0 < stage.stepsLeft) : (t.stages during).count stage ≤ 1 := by
  induction during generalizing t with
  | nil => simp [stages]
  | cons s rest ih =>
    obtain ⟨same, nearer⟩ := step_stops t s
    have later := ih (same.trans stop)
    rw [stages, List.count_cons]
    by_cases here : t.stage = stage
    -- Each step comes nearer to the end, so that the stage is not met again.
    · have gone : stage ∉ (t.step s).1.stages rest := by
        intro mem
        have below := stages_below rest (same.trans stop) stage mem
        have nearer := nearer stop (isAlive_iff.mpr (here ▸ live))
        rw [here] at nearer
        omega
      simp [List.count_eq_zero.mpr gone, here]
    · simpa [here] using later

end Filler

/-- What can be done in a session: a call of it or a part of its filler's loop, a use of its packet
    queue past it, or a change of the device by itself. -/
inductive Deed (δ : Type) : Type 1 where
  | move (m : Move)
  | request (r : Request)
  | change (f : δ → δ)

def Deed.closes {δ : Type} : Deed δ → Bool
  | .move m => m.closes
  | _ => false

namespace Session

variable {δ κ : Type}

structure Shut (s : Session δ κ) : Prop where
  holder : s.holder = .nobody
  fifo : s.fifo.map Fifo.close = s.fifo

variable {s : Session δ κ}

theorem Shut.closed (h : s.Shut) {q : Fifo} (fifo : s.fifo = some q) : q.close = q := by
  have same := h.fifo
  rw [fifo] at same
  exact Option.some.inj same

theorem isOpen_of_closed {q : Fifo} (closed : q.close = q) : q.isOpen = false := by
  rw [← closed]
  rfl

theorem serve_shut {q : Fifo} (closed : q.close = q) (r : Request) : (q.serve r).2 = q := by
  have shut := isOpen_of_closed closed
  cases r with
  | write src => simp [Fifo.serve, Fifo.write_closed shut]
  | read dst =>
    rcases Filler.read_shut shut dst with ⟨f, failed⟩ | none_read
    · simp [Fifo.serve, failed]
    · simp [Fifo.serve, none_read]
  | close => exact closed

variable [Device δ]

theorem Shut.push (h : s.Shut) (bytes : List UInt8) :
    ∃ metrics, s.push bytes = (.ok 0, s.withMetrics metrics) := by
  unfold Session.push
  dsimp only
  split
  · exact ⟨s.metrics, rfl⟩
  · exact ⟨s.metrics.countPush 0, by simp [place, h.holder]⟩

theorem Shut.pushStaged (h : s.Shut) (bytes : List UInt8) :
    ∃ metrics, s.pushStaged bytes = (.ok 0, { s.withMetrics metrics with staging := bytes }) := by
  have emptied : Shut { s with staging := [] } := ⟨h.holder, h.fifo⟩
  obtain ⟨metrics, done⟩ := emptied.push bytes
  refine ⟨metrics, ?_⟩
  unfold Session.pushStaged
  rw [done]
  rfl

theorem Shut.pushTyped (h : s.Shut) {σ : Type} [Sample σ] (samples : List σ) :
    ∃ metrics staging, s.pushTyped samples = (.ok 0, { s.withMetrics metrics with staging }) := by
  unfold Session.pushTyped
  dsimp only
  split
  · obtain ⟨metrics, done⟩ := h.push (List.flatMap Sample.bytes
      (samples.take (samples.length / s.params.channels * s.params.channels)))
    exact ⟨metrics, s.staging, done⟩
  · obtain ⟨metrics, done⟩ := h.pushStaged _
    exact ⟨metrics, _, done⟩

theorem Shut.pushRendered (h : s.Shut) {ρ : Type} [Renderer ρ] (r : ρ) (took : Nat) :
    s.pushRendered r took = (.ok 0, s, r) := by
  simp [Session.pushRendered, room, isRunning, h.holder]

variable [Callback κ]

theorem Shut.close (h : s.Shut) : s.close = s := by
  simp only [Session.close, h.holder, h.fifo]
  rw [← h.holder]
  rfl

/-- A closed session takes nothing, asks nobody for anything, and stays closed. -/
structure Ended (s : Session δ κ) : Prop where
  isRunning : s.isRunning = false
  room : s.room = 0
  fifo : ∀ q, s.fifo = some q → q.isOpen = false
  push : ∀ bytes, (s.push bytes).1 = .ok 0 ∧ (s.push bytes).2.journal = s.journal
  pushTyped : ∀ {σ : Type} [Sample σ] (samples : List σ),
    (s.pushTyped samples).1 = .ok 0 ∧ (s.pushTyped samples).2.journal = s.journal
  pushRendered : ∀ {ρ : Type} [Renderer ρ] (r : ρ) (took : Nat),
    s.pushRendered r took = (.ok 0, s, r)
  close : s.close = s

theorem Shut.ended (h : s.Shut) : s.Ended := by
  constructor
  · simp [isRunning, h.holder]
  · simp [room, h.holder]
  · intro q fifo
    exact isOpen_of_closed (h.closed fifo)
  · intro bytes
    obtain ⟨metrics, done⟩ := h.push bytes
    rw [done]
    exact ⟨rfl, rfl⟩
  · intro σ _ samples
    obtain ⟨metrics, staging, done⟩ := h.pushTyped samples
    rw [done]
    exact ⟨rfl, rfl⟩
  · intro ρ _ r took
    exact h.pushRendered r took
  · exact h.close

def deed (s : Session δ κ) : Deed δ → Session δ κ
  | .move m => (s.move m).2
  | .request r =>
    match s.fifo with
    | some q => s.withFifo (q.serve r).2
    | none => s
  | .change f =>
    match s.holder with
    | .filler t => { s with holder := .filler { t with device := f t.device } }
    | .owner d => { s with holder := .owner (f d) }
    | .nobody => s

def deeds (s : Session δ κ) (all : List (Deed δ)) : Session δ κ := all.foldl deed s

theorem Shut.move (h : s.Shut) (m : Move) :
    (s.move m).2.Shut ∧ (s.move m).2.journal.calls = s.journal.calls := by
  have same : (s.move m).2 = s → (s.move m).2.Shut ∧ (s.move m).2.journal.calls = s.journal.calls := by
    intro same
    rw [same]
    exact ⟨h, rfl⟩
  cases m with
  | push bytes =>
    obtain ⟨metrics, done⟩ := h.push bytes
    simp only [Session.move, done]
    exact ⟨⟨h.holder, h.fifo⟩, rfl⟩
  | pushTyped samples =>
    obtain ⟨metrics, staging, done⟩ := h.pushTyped samples
    simp only [Session.move, done]
    exact ⟨⟨h.holder, h.fifo⟩, rfl⟩
  | pushRendered r took => exact same (by simp only [Session.move, h.pushRendered r took])
  | run n => exact same (by cases n <;> simp [Session.move, run, h.holder])
  | step => exact same (by simp only [Session.move, Session.step, h.holder])
  | wait nanos => exact ⟨⟨h.holder, h.fifo⟩, rfl⟩
  | close => exact same h.close

theorem Shut.deed (h : s.Shut) (a : Deed δ) :
    (s.deed a).Shut ∧ (s.deed a).journal.calls = s.journal.calls := by
  cases a with
  | move m => exact h.move m
  | request r =>
    unfold Session.deed
    dsimp only
    split
    · rename_i q fifo
      rw [serve_shut (h.closed fifo)]
      exact ⟨⟨h.holder, congrArg some (h.closed fifo)⟩, rfl⟩
    · exact ⟨h, rfl⟩
  | change f =>
    unfold Session.deed
    rw [h.holder]
    exact ⟨h, rfl⟩

theorem Shut.deeds (h : s.Shut) (all : List (Deed δ)) :
    (s.deeds all).Shut ∧ (s.deeds all).journal.calls = s.journal.calls := by
  induction all generalizing s with
  | nil => exact ⟨h, rfl⟩
  | cons a rest ih =>
    obtain ⟨shut, called⟩ := h.deed a
    obtain ⟨shut', called'⟩ := ih shut
    exact ⟨shut', called'.trans called⟩

def losesFiller (s : Session δ κ) : Bool :=
  match s.holder with
  | .filler t => (t.finish { s.shared with fifo := s.fifo.map Fifo.close }).1.isBroken
  | _ => false

theorem close_calls (held : s.holder ≠ .nobody) :
    ∃ more, (∀ c ∈ more, c.works = true) ∧ s.close.journal.calls =
      s.journal.calls ++ (more ++ if !s.losesFiller then [.closed] else []) := by
  cases holder : s.holder with
  | filler t =>
    obtain ⟨more, works, called⟩ :=
      t.release_calls { s.shared with fifo := s.fifo.map Fifo.close }
    refine ⟨more, works, ?_⟩
    simp only [close, losesFiller, holder]
    exact (Journal.calls_notice _ _ _).trans called
  | owner d =>
    refine ⟨[], by simp, ?_⟩
    simp only [close, losesFiller, holder]
    exact (Journal.calls_notice _ _ _).trans (Device.disconnectIn_calls d s.journal)
  | nobody => exact absurd holder held

theorem close_shut (held : s.holder ≠ .nobody) : s.close.Shut := by
  have twice : (s.fifo.map Fifo.close).map Fifo.close = s.fifo.map Fifo.close := by
    cases s.fifo <;> rfl
  cases holder : s.holder with
  | filler t =>
    let shared : Shared := { s.shared with fifo := s.fifo.map Fifo.close }
    have shut : ∀ q, shared.fifo = some q → q.isOpen = false := by
      intro q same
      obtain ⟨q', _, rfl⟩ := Option.map_eq_some_iff.mp same
      rfl
    have same : (t.release shared).fifo = s.fifo.map Fifo.close := t.release_shut shut
    simp only [close, holder]
    refine ⟨rfl, ?_⟩
    change (t.release shared).fifo.map Fifo.close = (t.release shared).fifo
    rw [same]
    exact twice
  | owner d =>
    simp only [close, holder]
    exact ⟨rfl, twice⟩
  | nobody => exact absurd holder held

structure Plays (s : Session δ κ) (before : Journal) (p : Params) : Prop where
  life : before.Life s.journal p false
  held : s.holder ≠ .nobody

variable {before : Journal} {p : Params}

theorem move_plays (h : s.Plays before p) {m : Move} (goes_on : m.closes = false) :
    (s.move m).2.Plays before p := by
  obtain ⟨got, acts, _⟩ := move_acts s goes_on
  constructor
  · exact h.life.uses (acts_uses acts)
  · exact (acts_alike acts).held h.held

theorem deed_plays (h : s.Plays before p) {a : Deed δ} (goes_on : a.closes = false) :
    (s.deed a).Plays before p := by
  cases a with
  | move m => exact move_plays h goes_on
  | request r =>
    unfold deed
    dsimp only
    split
    · exact ⟨h.life, h.held⟩
    · exact h
  | change f =>
    unfold deed
    dsimp only
    split
    · exact ⟨h.life, by simp⟩
    · exact ⟨h.life, by simp⟩
    · exact h

theorem deeds_play (all : List (Deed δ)) (h : s.Plays before p)
    (go_on : ∀ a ∈ all, a.closes = false) : (s.deeds all).Plays before p := by
  induction all generalizing s with
  | nil => exact h
  | cons a rest ih =>
    have next := deed_plays h (go_on a List.mem_cons_self)
    exact ih next (fun a' mem => go_on a' (List.mem_cons_of_mem a mem))

def Opening.Lives (o : Opening δ κ) (before : Journal) (p : Params) : Prop :=
  match o with
  | .refused _ j => ∃ closed, before.Life j p closed
  | .broken _ j => ∃ closed, before.Life j p closed
  | .session s => s.Plays before p

theorem abandon_life (h : s.Plays before p) : ∃ closed, before.Life s.abandon p closed := by
  unfold abandon
  split
  · rename_i t holder
    obtain ⟨more, works, called⟩ := t.release_calls s.shared
    exact ⟨_, h.life.extend works called⟩
  · exact ⟨false, h.life⟩

theorem announce_lives (h : s.Plays before p) (around : Surroundings) :
    Opening.Lives (s.announce around) before p := by
  have announced : ∀ n, Plays { s with shared := s.shared.notice .main n } before p := by
    intro n
    exact ⟨h.life.uses (.of_eq (Journal.calls_notice _ _ _)), h.held⟩
  unfold announce
  dsimp only
  split
  · split
    · exact abandon_life (announced _)
    · exact announced _
  · exact announced _

theorem launch_lives (life : before.Life s.journal p false) (d : δ) (supply : Supply κ)
    (around : Surroundings) : Opening.Lives (s.launch d supply around) before p := by
  unfold launch
  split
  · exact ⟨false, life⟩
  · let t : Filler δ κ := { device := d, supply, params := s.params, log := s.log }
    let began := t.approach around.headStart s.shared
    have plays : Plays { s with holder := .filler began.1, shared := began.2 } before p :=
      ⟨life.uses (Filler.approach_uses around.headStart t s.shared), by simp⟩
    exact announce_lives plays around

theorem start_lives (config : Config) (feed : Feed κ) (d : δ) (around : Surroundings) :
    Opening.Lives (start config feed d around) around.journal config.params := by
  have opened : (Device.connectIn d config.params around.journal).2.2.calls =
      around.journal.calls ++ [.opened config.params] := by simp [Device.connectIn]
  rcases reply : Device.connectIn d config.params around.journal with ⟨outcome, d', j⟩
  rw [reply] at opened
  have life : around.journal.Life j config.params false := ⟨[], by simp, by simpa using opened⟩
  unfold start
  rw [reply]
  dsimp only
  split
  · exact ⟨false, life⟩
  · exact ⟨false, life⟩
  · split
    · have ended : (Device.disconnectIn d' j).calls =
          j.calls ++ ([] ++ if true then [.closed] else []) := Device.disconnectIn_calls d' j
      exact ⟨true, life.extend (by simp) ended⟩
    · split
      · exact launch_lives life _ _ around
      · split
        · exact ⟨false, life⟩
        · exact launch_lives life _ _ around
      · exact announce_lives ⟨life, by simp⟩ around

/-- In any mode, with any device and callback, the device is opened once and first, and no call
    follows its close. A start that fails leaves at most one close; a session that was started
    leaves none before it is closed and one then, unless its filler broke down. From then on the
    session is at an end, whatever is still called. Once its stop flag is up, a filler fills at most
    one more buffer, writes at most one more, and ends. -/
theorem device_has_one_life (config : Config) (feed : Feed κ) (d : δ) (around : Surroundings) :
    match start config feed d around with
    | .refused _ j => ∃ closed, around.journal.Life j config.params closed
    | .broken _ j => ∃ closed, around.journal.Life j config.params closed
    | .session s₀ => ∀ before after : List (Deed δ), (∀ a ∈ before, a.closes = false) →
        let s := s₀.deeds before
        let e := s.close.deeds after
        around.journal.Life s.journal config.params false ∧
        around.journal.Life e.journal config.params (!s.losesFiller) ∧
        e.Ended ∧
        ∀ t, s.holder = .filler t → ∀ during : List Shared,
          let stages := Filler.stages { t with stop := true } during
          stages.count .filling ≤ 1 ∧ stages.count .writing ≤ 1 ∧
          ∀ shared, (t.finish shared).1.isAlive = false := by
  have lives := start_lives config feed d around
  cases opening : start config feed d around with
  | refused e j => simpa only [opening, Opening.Lives] using lives
  | broken f j => simpa only [opening, Opening.Lives] using lives
  | session s₀ =>
    rw [opening] at lives
    intro before after go_on s e
    have plays : s.Plays around.journal config.params := deeds_play before lives go_on
    obtain ⟨more, works, called⟩ := close_calls plays.held
    obtain ⟨shut, still⟩ := (close_shut plays.held).deeds after
    refine ⟨plays.life, plays.life.extend works (still.trans called), shut.ended, ?_⟩
    intro t _ during stages
    refine ⟨?_, ?_, Filler.finish_ends t⟩
    · exact Filler.stages_once during rfl (by simp [Stage.stepsLeft])
    · exact Filler.stages_once during rfl (by simp [Stage.stepsLeft])

/-- A callback that breaks down at its second buffer takes the device with it. A session whose
    packets were closed past it closes the device all the same. -/
theorem lives_with_and_without_close :
    let config : Config := { bufferFrames := 2, packetFrames := 2, format := .i16 }
    let fragile : Feed StockCallback :=
      .callback (.pattern { counting := true, next := 1, breaksAt := some 1 })
    let before : List (Deed ScriptedDevice) :=
      [.move (.push [1, 2, 3, 4]), .request .close, .move (.run 2)]
    let after : List (Deed ScriptedDevice) := [.move .close, .move (.push [5, 6, 7, 8])]
    (∀ a ∈ before, a.closes = false) ∧
    (∃ s₀, start config fragile ({} : ScriptedDevice) {} = .session s₀ ∧
      (s₀.deeds before).losesFiller = true ∧
      ((s₀.deeds before).close.deeds after).journal.calls =
        [.opened config.params, .wrote 2 [1, 2, 3, 4] (.ok 2)] ∧
      Journal.Life {} ((s₀.deeds before).close.deeds after).journal config.params false) ∧
    ∃ s₀, start config (.fifo : Feed StockCallback) ({} : ScriptedDevice) {} = .session s₀ ∧
      (s₀.deeds before).losesFiller = false ∧
      ((s₀.deeds before).close.deeds after).journal.calls =
        [.opened config.params, .wrote 2 (silence 4) (.ok 2), .wrote 2 (silence 4) (.ok 2),
          .wrote 2 (silence 4) (.ok 2), .closed] ∧
      Journal.Life {} ((s₀.deeds before).close.deeds after).journal config.params true := by
  intro config fragile before after
  have go_on : ∀ a ∈ before, a.closes = false := by simp [before, Deed.closes, Move.closes]
  let seen (o : Opening ScriptedDevice StockCallback) := o.session?.map fun s₀ =>
    ((s₀.deeds before).losesFiller, ((s₀.deeds before).close.deeds after).journal.calls)
  have broke : seen (start config fragile {} {}) =
      some (true, [.opened config.params, .wrote 2 [1, 2, 3, 4] (.ok 2)]) := by decide +kernel
  have lasted : seen (start config .fifo {} {}) =
      some (false, [.opened config.params, .wrote 2 (silence 4) (.ok 2),
        .wrote 2 (silence 4) (.ok 2), .wrote 2 (silence 4) (.ok 2), .closed]) := by decide +kernel
  refine ⟨go_on, ?_, ?_⟩
  · obtain ⟨s₀, found, values⟩ := Option.map_eq_some_iff.mp broke
    simp only [Prod.mk.injEq] at values
    have started := Opening.eq_of_session? found
    have life := device_has_one_life config fragile ({} : ScriptedDevice) {}
    rw [started] at life
    obtain ⟨_, ended, _⟩ := life before after go_on
    rw [values.1] at ended
    exact ⟨s₀, started, values.1, values.2, ended⟩
  · obtain ⟨s₀, found, values⟩ := Option.map_eq_some_iff.mp lasted
    simp only [Prod.mk.injEq] at values
    have started := Opening.eq_of_session? found
    have life := device_has_one_life config (.fifo : Feed StockCallback) ({} : ScriptedDevice) {}
    rw [started] at life
    obtain ⟨_, ended, _⟩ := life before after go_on
    rw [values.1] at ended
    exact ⟨s₀, started, values.1, values.2, ended⟩

end Session

end PcmStream
