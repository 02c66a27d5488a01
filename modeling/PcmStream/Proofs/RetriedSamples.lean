import PcmStream.Proofs.TypedPushes

/- Samples that are pushed again and again until all are accepted. However they are cut up and
   however little is accepted at a time, the calls return the frames that came into the packets, or
   that the device took, and these are the beginning of all samples. -/
namespace PcmStream

def Write.Within (frameSize : Nat) (w : Write) : Prop := w.frames * frameSize ≤ w.buffer.length

instance (frameSize : Nat) (w : Write) : Decidable (w.Within frameSize) :=
  inferInstanceAs (Decidable (_ ≤ _))

theorem audible_all {size : Nat} {fetches : List Fetch} {stream : List UInt8}
    (fits : hits fetches * size ≤ stream.length) :
    audible fetches (delivery size fetches stream) ++ stream.drop (hits fetches * size) =
      stream := by
  induction fetches generalizing stream with
  | nil => simp [audible, hits]
  | cons f fetches ih =>
    cases missed : f.missed with
    | true =>
      rw [hits_cons_of_miss missed] at fits ⊢
      simpa [delivery, audible, missed] using ih fits
    | false =>
      rw [hits_cons_of_hit missed, Nat.succ_mul] at fits ⊢
      have left : hits fetches * size ≤ (stream.drop size).length := by
        rw [List.length_drop]
        omega
      have rest := ih left
      rw [List.drop_drop, Nat.add_comm] at rest
      simp [delivery, audible, missed, List.append_assoc, rest]

/-- What happens while samples are pushed: the next `n` that are not accepted yet are offered, the
    filler is let through, time goes by, or the device changes by itself. -/
inductive Turn (δ : Type) where
  | offer (n : Nat)
  | run (n : Nat)
  | step
  | wait (nanos : Nat)
  | change (f : δ → δ)

def Deed.Own {δ : Type} : Deed δ → Prop
  | .move m => m.closes = false
  | .request _ => False
  | .change _ => True

namespace Session

theorem Sent.frames {outcome : Outcome Nat} {after : List Call} {result : Except Fault Nat}
    (sent : Sent outcome after result) (buffer : List UInt8) :
    (⟨buffer, outcome⟩ : Write).frames = returned result := by
  cases sent <;> rfl

theorem Sent.writes {outcome : Outcome Nat} {after : List Call} {result : Except Fault Nat}
    (sent : Sent outcome after result) {j j' : Journal} {n : Nat} {bytes : List UInt8}
    (called : j'.calls = j.calls ++ .wrote n bytes outcome :: after) :
    j'.writes = j.writes ++ [⟨bytes, outcome⟩] := by
  rw [Journal.writes, called, List.filterMap_append]
  cases sent <;> rfl

variable {δ κ σ : Type} [Device δ] [Callback κ] [Sample σ]

def turn (samples : List σ) (s : Session δ κ) (accepted : Nat) : Turn δ → Session δ κ × Nat
  | .offer n =>
    let (pushed, s') := s.pushTyped ((samples.drop (accepted * s.params.channels)).take n)
    (s', accepted + returned pushed)
  | .run n => ((s.run n).2, accepted)
  | .step => (s.step, accepted)
  | .wait nanos => (s.advance nanos, accepted)
  | .change f => (s.deed (.change f), accepted)

def turns (samples : List σ) : Session δ κ → Nat → List (Turn δ) → Session δ κ × Nat
  | s, accepted, [] => (s, accepted)
  | s, accepted, t :: rest =>
    let next := s.turn samples accepted t
    next.1.turns samples next.2 rest

variable {s s' : Session δ κ} {samples : List σ}

theorem turns_keep {P : Session δ κ → Nat → Prop}
    (each : ∀ s n t, P s n → P (s.turn samples n t).1 (s.turn samples n t).2)
    (all : List (Turn δ)) {n : Nat} (h : P s n) :
    P (s.turns samples n all).1 (s.turns samples n all).2 := by
  induction all generalizing s n with
  | nil => exact h
  | cons t rest ih => exact ih (each s n t h)

section Packets

variable {l : Layout} {before : Journal} {stream got : List UInt8}

/-- From `s` to `s'` the bytes `got` have come into the packets: what has been fetched since, without
    the silences, and what is there now are what was there before and `got` behind it. -/
def Gains (s s' : Session δ κ) (got : List UInt8) : Prop :=
  ∃ q q' fetches buffers, s.fifo = some q ∧ s'.fifo = some q' ∧
    s'.journal.fetches = s.journal.fetches ++ fetches ∧
    s'.journal.handed ++ s'.parked = s.journal.handed ++ s.parked ++ buffers ∧
    audible fetches buffers ++ q'.toList = q.toList ++ got

omit [Device δ] [Callback κ] in
theorem gains_of_flows (h : s.Flows l before stream) (h' : s'.Flows l before (stream ++ got))
    {more : List Fetch} (fetched : s'.journal.fetches = s.journal.fetches ++ more) :
    s.Gains s' got := by
  obtain ⟨q, fifo, _⟩ := h.isOpen
  obtain ⟨q', fifo', _⟩ := h'.isOpen
  obtain ⟨fetches, level⟩ := level_of_flows h fifo
  obtain ⟨fetches', level'⟩ := level_of_flows h' fifo'
  obtain rfl : fetches' = fetches ++ more :=
    Journal.later_fetches level.fetched level'.fetched fetched
  -- What was fetched up to `s` drops out of both, so that only the packets of `s` and `got` are left.
  have within := level'.within
  have rest := level'.bytes
  rw [hits_append, Nat.add_mul] at within rest
  rw [← List.drop_drop, List.drop_append_of_le_length level.within, ← level.bytes] at rest
  have fits : hits more * l.buffer ≤ (q.toList ++ got).length := by
    have drained := level.within
    rw [level.bytes, List.length_append, List.length_drop]
    rw [List.length_append] at within
    omega
  refine ⟨q, q', more, delivery l.buffer more (q.toList ++ got), fifo, fifo', fetched, ?_, ?_⟩
  · rw [level'.handed, level.handed, delivery_fetches, delivery_append got level.within,
      List.drop_append_of_le_length level.within, ← level.bytes, List.append_assoc]
  · rw [rest]
    exact audible_all fits

theorem move_flows (h : s.Flows l before stream) {m : Move} (goes_on : m.closes = false) :
    (s.move m).2.Flows l before (stream ++ s.accepted m) ∧
      ∃ more, (s.move m).2.journal.fetches = s.journal.fetches ++ more := by
  obtain ⟨t, holder⟩ := h.filler
  obtain ⟨got, acts, same⟩ := move_acts s goes_on
  rw [same (by simp [holder])] at acts
  exact ⟨acts_flows acts h, acts_fetches acts h⟩

theorem change_flows (h : s.Flows l before stream) (f : δ → δ) :
    (s.deed (.change f)).Flows l before stream := by
  obtain ⟨t, holder⟩ := h.filler
  rcases change_received (.inl h) f with flows | ⟨nobody, _⟩
  · exact flows
  · simp [deed, holder] at nobody

theorem deed_flows (h : s.Flows l before stream) {a : Deed δ} (own : a.Own) :
    ∃ got, (s.deed a).Flows l before (stream ++ got) := by
  cases a with
  | move m => exact ⟨_, (move_flows h own).1⟩
  | request r => exact own.elim
  | change f => exact ⟨[], by simpa using change_flows h f⟩

theorem deeds_flow {all : List (Deed δ)} (own : ∀ a ∈ all, a.Own) (h : s.Flows l before stream) :
    ∃ got, (s.deeds all).Flows l before (stream ++ got) := by
  induction all generalizing s stream with
  | nil => exact ⟨[], by simpa [deeds] using h⟩
  | cons a rest ih =>
    obtain ⟨got, flows⟩ := deed_flows h (own a List.mem_cons_self)
    obtain ⟨more, flows'⟩ := ih (fun a mem => own a (List.mem_cons_of_mem _ mem)) flows
    exact ⟨got ++ more, by rwa [← List.append_assoc]⟩

theorem change_journal (s : Session δ κ) (f : δ → δ) :
    (s.deed (.change f)).journal = s.journal ∧ (s.deed (.change f)).params = s.params := by
  unfold deed
  dsimp only
  split <;> exact ⟨rfl, rfl⟩

theorem accepted_eq (s : Session δ κ) (m : Move) :
    s.accepted m = (s.offered m).take (returned (s.move m).1 * s.params.frameSize) := by
  unfold accepted
  cases (s.move m).1 with
  | ok n => rfl
  | error f => simp [returned]

theorem accepted_typed (s : Session δ κ) (samples : List σ) :
    s.accepted (.pushTyped samples) = s.params.encoding
      (samples.take (returned (s.pushTyped samples).1 * s.params.channels)) := by
  have offered : s.offered (.pushTyped samples) = s.params.encoding samples := by
    rw [Params.encoding, Params.converted_eq]
    rfl
  rw [accepted_eq, offered, Params.frameSize, ← Nat.mul_assoc, Params.take_encoding]
  rfl

theorem returned_le (unowned : ∀ d, s.holder ≠ .owner d) (samples : List σ) :
    returned (s.pushTyped samples).1 * s.params.channels ≤ samples.length := by
  let bytes := s.params.encoding (s.params.whole samples)
  refine (Params.take_whole ?_).1
  rw [(pushTyped_pushes s samples).result]
  have offer := push_offer s bytes
  generalize s.push bytes = result at offer
  cases offer with
  | placed _ fits => exact fits unowned
  | fault _ => simp [returned]

structure Stowed (s₀ : Session δ κ) (samples : List σ) (l : Layout) (before : Journal)
    (stream : List UInt8) (s : Session δ κ) (n : Nat) : Prop where
  params : s₀.params = s.params
  within : n * s.params.channels ≤ samples.length
  flows : s.Flows l before (stream ++ s.params.encoding (samples.take (n * s.params.channels)))
  fetched : ∃ more, s.journal.fetches = s₀.journal.fetches ++ more

variable {s₀ : Session δ κ} {n : Nat}

theorem quiet_stows (h : s₀.Stowed samples l before stream s n) {m : Move}
    (goes_on : m.closes = false) (none : s.accepted m = []) :
    s₀.Stowed samples l before stream (s.move m).2 n := by
  have params := params_of_terms (move_terms s m)
  obtain ⟨flows, more, fetched⟩ := move_flows h.flows goes_on
  obtain ⟨earlier, fetched'⟩ := h.fetched
  rw [none, List.append_nil] at flows
  constructor
  · exact h.params.trans params.symm
  · rw [params]
    exact h.within
  · rw [params]
    exact flows
  · exact ⟨earlier ++ more, by rw [fetched, fetched', List.append_assoc]⟩

theorem offer_stows (h : s₀.Stowed samples l before stream s n) (k : Nat) :
    s₀.Stowed samples l before stream (s.turn samples n (.offer k)).1
      (s.turn samples n (.offer k)).2 := by
  let next := (samples.drop (n * s.params.channels)).take k
  have turned : s.turn samples n (.offer k) =
      ((s.pushTyped next).2, n + returned (s.pushTyped next).1) := rfl
  have params : (s.pushTyped next).2.params = s.params :=
    params_of_terms (move_terms s (.pushTyped next))
  obtain ⟨filler, holder⟩ := h.flows.filler
  obtain ⟨flows, more, fetched⟩ := move_flows h.flows (m := .pushTyped next) rfl
  obtain ⟨earlier, fetched'⟩ := h.fetched
  have fits : returned (s.pushTyped next).1 * s.params.channels ≤ next.length :=
    returned_le (by simp [holder]) next
  obtain ⟨within, joined⟩ := s.params.encoding_next fits h.within
  rw [accepted_typed, List.append_assoc, joined] at flows
  constructor
  · exact h.params.trans params.symm
  · rw [turned, params]
    exact within
  · rw [turned, params]
    exact flows
  · exact ⟨earlier ++ more, fetched.trans (by rw [fetched', List.append_assoc])⟩

theorem turn_stows (h : s₀.Stowed samples l before stream s n) (t : Turn δ) :
    s₀.Stowed samples l before stream (s.turn samples n t).1 (s.turn samples n t).2 := by
  cases t with
  | offer k => exact offer_stows h k
  | run k => exact quiet_stows h (m := .run k) rfl (by simp [accepted, move, offered])
  | step => exact quiet_stows h (m := .step) rfl (by simp [accepted, move, offered])
  | wait nanos => exact quiet_stows h (m := .wait nanos) rfl (by simp [accepted, move, offered])
  | change f =>
    obtain ⟨journal, params⟩ := change_journal s f
    obtain ⟨earlier, fetched⟩ := h.fetched
    have flows := change_flows h.flows f
    rw [← params] at flows
    exact ⟨h.params.trans params.symm, params ▸ h.within, flows, earlier,
      (congrArg Journal.fetches journal).trans fetched⟩

theorem turns_gain (h : s.Flows l before stream) (samples : List σ) (all : List (Turn δ)) :
    let s' := (s.turns samples 0 all).1
    let n := (s.turns samples 0 all).2
    n * s.params.channels ≤ samples.length ∧
      s.Gains s' (s.params.encoding (samples.take (n * s.params.channels))) := by
  intro s' n
  have begun : s.Stowed samples l before stream s 0 := by
    constructor
    · rfl
    · rw [Nat.zero_mul]
      exact Nat.zero_le _
    · simpa using h
    · exact ⟨[], (List.append_nil _).symm⟩
  have stowed : s.Stowed samples l before stream s' n :=
    turns_keep (P := fun s' n => s.Stowed samples l before stream s' n)
      (fun _ _ t h => turn_stows h t) all begun
  obtain ⟨more, fetched⟩ := stowed.fetched
  rw [stowed.params]
  exact ⟨stowed.within, gains_of_flows h stowed.flows fetched⟩

end Packets

section Owner

def Settles (s : Session δ κ) (bytes : List UInt8) (pushed : Except Fault Nat × Session δ κ) :
    Prop :=
  let n := returned pushed.1
  ∃ writes, pushed.2.journal.writes = s.journal.writes ++ writes ∧
    ((∀ w ∈ writes, w.Within s.params.frameSize) →
      n * s.params.frameSize ≤ bytes.length ∧
        writes.flatMap (Write.taken s.params.frameSize) = bytes.take (n * s.params.frameSize))

omit [Device δ] [Callback κ] in
theorem settles_none {bytes : List UInt8} {pushed : Except Fault Nat × Session δ κ}
    (result : pushed.1 = .ok 0) (journal : pushed.2.journal = s.journal) :
    s.Settles bytes pushed := by
  refine ⟨[], ?_, ?_⟩
  · rw [journal, List.append_nil]
  · intro _
    simp [result, returned]

omit [Callback κ] in
theorem enqueue_settles (s : Session δ κ) (d : δ) (bytes : List UInt8) (frames : Nat) :
    s.Settles bytes (s.enqueue d bytes frames) := by
  obtain ⟨outcome, after, called, sent⟩ := enqueue_sends s d bytes frames
  have taken := sent.frames (bytes.take (frames * s.params.frameSize))
  refine ⟨_, sent.writes called, ?_⟩
  intro within
  have fits := within _ List.mem_cons_self
  rw [Write.Within, taken, List.length_take] at fits
  constructor
  · omega
  · rw [List.flatMap_singleton, Write.taken, taken, List.take_take, Nat.min_eq_left (by omega)]

omit [Callback κ] in
theorem push_settles (unthreaded : ∀ t, s.holder ≠ .filler t) (bytes : List UInt8) :
    s.Settles bytes (s.push bytes) := by
  by_cases no_frame : bytes.length / s.params.frameSize = 0
  · have unasked : s.push bytes = (.ok 0, s) := by simp [push, no_frame]
    rw [unasked]
    exact settles_none rfl rfl
  obtain ⟨result, _, journal⟩ := push_places s no_frame rfl
  unfold Settles
  rw [result, journal]
  change s.Settles bytes (s.place bytes _)
  unfold place
  split
  · rename_i t holder
    exact absurd holder (unthreaded t)
  · dsimp only
    split
    · exact settles_none rfl rfl
    · exact enqueue_settles s _ bytes _
  · exact settles_none rfl rfl

/-- From `s` to `s'` the device has taken the first `n` frames of the samples, unless it claims to
    have taken more than it was given. -/
def Takes (s s' : Session δ κ) (samples : List σ) (n : Nat) : Prop :=
  ∃ writes, s'.journal.writes = s.journal.writes ++ writes ∧
    ((∀ w ∈ writes, w.Within s.params.frameSize) →
      n * s.params.channels ≤ samples.length ∧
        writes.flatMap (Write.taken s.params.frameSize) =
          s.params.encoding (samples.take (n * s.params.channels)))

omit [Callback κ] in
theorem pushTyped_takes (unthreaded : ∀ t, s.holder ≠ .filler t) (samples : List σ) :
    s.Takes (s.pushTyped samples).2 samples (returned (s.pushTyped samples).1) := by
  let bytes := s.params.encoding (s.params.whole samples)
  have pushes := pushTyped_pushes s samples
  have journal : (s.pushTyped samples).2.journal = (s.push bytes).2.journal :=
    congrArg (fun s => s.journal) pushes.after
  obtain ⟨writes, written, took⟩ := push_settles unthreaded bytes
  rw [← journal] at written
  rw [← pushes.result] at took
  refine ⟨writes, written, ?_⟩
  intro within
  obtain ⟨fits, taken⟩ := took within
  rw [taken]
  exact Params.take_whole fits

theorem pushTyped_unthreaded (unthreaded : ∀ t, s.holder ≠ .filler t) (samples : List σ)
    (t : Filler δ κ) : (s.pushTyped samples).2.holder ≠ .filler t := by
  obtain ⟨got, acts, _⟩ := move_acts s (m := .pushTyped samples) rfl
  have alike : s.holder.Alike (s.pushTyped samples).2.holder := acts_alike acts
  intro holder
  rw [holder] at alike
  cases before : s.holder with
  | filler t' => exact unthreaded t' before
  | owner d => simp [before, Holder.Alike] at alike
  | nobody => simp [before, Holder.Alike] at alike

structure Taken (s₀ : Session δ κ) (samples : List σ) (s : Session δ κ) (n : Nat) : Prop where
  params : s.params = s₀.params
  unthreaded : ∀ t, s.holder ≠ .filler t
  takes : s₀.Takes s samples n

variable {s₀ : Session δ κ} {n : Nat}

theorem offer_takes (h : s₀.Taken samples s n) (k : Nat) :
    s₀.Taken samples (s.turn samples n (.offer k)).1 (s.turn samples n (.offer k)).2 := by
  let next := (samples.drop (n * s.params.channels)).take k
  have params : (s.pushTyped next).2.params = s.params :=
    params_of_terms (move_terms s (.pushTyped next))
  obtain ⟨earlier, written, took⟩ := h.takes
  obtain ⟨more, written', took'⟩ := pushTyped_takes h.unthreaded next
  refine ⟨params.trans h.params, pushTyped_unthreaded h.unthreaded next, earlier ++ more, ?_, ?_⟩
  · exact written'.trans (by rw [written, List.append_assoc])
  · rw [← h.params] at took ⊢
    rw [List.forall_mem_append, List.flatMap_append]
    rintro ⟨honest, honest'⟩
    obtain ⟨within, taken⟩ := took honest
    obtain ⟨fits, taken'⟩ := took' honest'
    rw [taken, taken']
    exact s.params.encoding_next fits within

theorem turn_takes (h : s₀.Taken samples s n) (t : Turn δ) :
    s₀.Taken samples (s.turn samples n t).1 (s.turn samples n t).2 := by
  cases t with
  | offer k => exact offer_takes h k
  | run k => simpa only [turn, run_unthreaded h.unthreaded] using h
  | step => simpa only [turn, step_unthreaded h.unthreaded] using h
  | wait nanos => exact ⟨h.params, h.unthreaded, h.takes⟩
  | change f =>
    obtain ⟨journal, params⟩ := change_journal s f
    have unthreaded : ∀ t, (s.deed (.change f)).holder ≠ .filler t := by
      cases holder : s.holder with
      | filler t => exact absurd holder (h.unthreaded t)
      | owner d => simp [deed, holder]
      | nobody => simp [deed, holder]
    obtain ⟨writes, written, took⟩ := h.takes
    exact ⟨params.trans h.params, unthreaded, writes,
      (congrArg Journal.writes journal).trans written, took⟩

theorem turns_take (unthreaded : ∀ t, s.holder ≠ .filler t) (samples : List σ)
    (all : List (Turn δ)) :
    s.Takes (s.turns samples 0 all).1 samples (s.turns samples 0 all).2 := by
  have begun : s.Taken samples s 0 := by
    refine ⟨rfl, unthreaded, [], (List.append_nil _).symm, ?_⟩
    intro _
    simp
  have taken : s.Taken samples (s.turns samples 0 all).1 (s.turns samples 0 all).2 :=
    turns_keep (P := fun s' n => s.Taken samples s' n) (fun _ _ t h => turn_takes h t) all begun
  exact taken.takes

end Owner

section Staging

omit [Device δ] [Callback κ] in
theorem eq_staged (same : s'.unstaged = s.unstaged) :
    s' = { s with staging := s'.staging } := by
  cases s
  cases s'
  simp only [unstaged, mk.injEq] at same ⊢
  simp [same]

theorem run_staged (s : Session δ κ) (staging : List UInt8) (n : Nat) :
    run n { s with staging } = ((run n s).1, { (run n s).2 with staging }) := by
  induction n generalizing s with
  | zero => rfl
  | succ n ih =>
    unfold run
    dsimp only
    split
    · rename_i t holder
      split
      · exact congrArg (fun r => (r.1 + 1, r.2))
          (ih { s with holder := .filler (t.turn s.shared).1, shared := (t.turn s.shared).2 })
      · rfl
    · rfl

theorem turn_unstaged (same : s'.unstaged = s.unstaged) (samples : List σ) (n : Nat) (t : Turn δ) :
    (s'.turn samples n t).1.unstaged = (s.turn samples n t).1.unstaged ∧
      (s'.turn samples n t).2 = (s.turn samples n t).2 := by
  rw [eq_staged same]
  generalize s'.staging = staging
  cases t with
  | offer k =>
    let next := (samples.drop (n * s.params.channels)).take k
    have pushes := pushTyped_pushes s next
    have pushes' := pushTyped_pushes { s with staging } next
    have result := pushes'.result
    have after := pushes'.after
    rw [push_staged] at result after
    exact ⟨after.trans pushes.after.symm,
      congrArg (n + returned ·) (result.trans pushes.result.symm)⟩
  | run k =>
    refine ⟨?_, rfl⟩
    simp only [turn, run_staged]
    rfl
  | step =>
    refine ⟨?_, rfl⟩
    simp only [turn, step]
    split <;> rfl
  | wait nanos => exact ⟨rfl, rfl⟩
  | change f =>
    refine ⟨?_, rfl⟩
    simp only [turn, deed]
    split <;> rfl

theorem turns_unstaged (same : s'.unstaged = s.unstaged) (samples : List σ) (n : Nat)
    (all : List (Turn δ)) :
    (s'.turns samples n all).1.unstaged = (s.turns samples n all).1.unstaged ∧
      (s'.turns samples n all).2 = (s.turns samples n all).2 := by
  induction all generalizing s s' n with
  | nil => exact ⟨same, rfl⟩
  | cons t rest ih =>
    obtain ⟨same', count⟩ := turn_unstaged same samples n t
    rw [turns, turns, count]
    exact ih same' _

end Staging

/-- Samples are pushed in turns: as many as the caller likes of those that are not accepted yet,
    while the filler works and the device changes. In packet mode what comes into the packets is the
    encoding of the first samples, as many frames as the calls returned; in queue mode that is what
    the device takes, if it never claims more than it was given. However the samples are cut up, it
    is the front of the encoding of them all, and what is staged makes no difference. -/
theorem retried_samples_are_not_lost {config : Config} {d : δ} {around : Surroundings}
    (samples : List σ) (all : List (Turn δ)) :
    (∀ s₀ : Session δ κ, start config .fifo d around = .session s₀ →
      ∀ earlier : List (Deed δ), (∀ a ∈ earlier, a.Own) →
        let s := s₀.deeds earlier
        let s' := (s.turns samples 0 all).1
        let n := (s.turns samples 0 all).2
        n * s.params.channels ≤ samples.length ∧
          s.Gains s' (s.params.encoding (samples.take (n * s.params.channels)))) ∧
    (∀ s₀ : Session δ κ, start config .queue d around = .session s₀ →
      ∀ earlier : List (Deed δ),
        let s := s₀.deeds earlier
        s.Takes (s.turns samples 0 all).1 samples (s.turns samples 0 all).2) ∧
    (∀ (p : Params) (n : Nat), p.encoding (samples.take (n * p.channels)) =
      (p.encoding samples).take (n * p.frameSize)) ∧
    ∀ (s : Session δ κ) (staging : List UInt8),
      let restaged : Session δ κ := { s with staging }
      (restaged.turns samples 0 all).1.unstaged = (s.turns samples 0 all).1.unstaged ∧
        (restaged.turns samples 0 all).2 = (s.turns samples 0 all).2 := by
  refine ⟨?_, ?_, ?_, ?_⟩
  · intro s₀ started earlier own
    obtain ⟨l, begun⟩ := start_flows started
    obtain ⟨stream, flows⟩ := deeds_flow own begun
    exact turns_gain flows samples all
  · intro s₀ started earlier
    exact turns_take (start_unthreaded started earlier).2 samples all
  · intro p n
    rw [Params.frameSize, ← Nat.mul_assoc, Params.take_encoding]
  · intro s staging
    have same : Session.unstaged { s with staging } = s.unstaged := rfl
    exact turns_unstaged same samples 0 all

/-- Three frames of singles for a session of shorts. The packets take two of them and, once they are
    fetched, the third. The device takes one, fails, and takes two. -/
theorem three_frames_in_three_turns :
    let config : Config :=
      { channels := 2, bufferFrames := 2, packetFrames := 1, packetCount := 2, format := .i16 }
    let samples : List Single := [Single.one, Single.minusOne, Single.zero, Single.half,
      Single.half, Single.one]
    let bytes : List UInt8 := [255, 127, 1, 128, 0, 0, 255, 63, 255, 63, 255, 127]
    let device : ScriptedDevice := { free := 2, writes := [.short 1, .failed .underrun] }
    (∃ s₀ : Session ScriptedDevice StockCallback, start config .fifo {} {} = .session s₀ ∧
      let ended := s₀.turns samples 0 [.offer 5, .offer 2, .run 2, .offer 2]
      ended.2 = 3 ∧ s₀.Gains ended.1 bytes) ∧
    ∃ s₀ : Session ScriptedDevice StockCallback, start config .queue device {} = .session s₀ ∧
      let ended := s₀.turns samples 0
        [.offer 5, .offer 4, .change fun d => { d with free := 5 }, .offer 4]
      ended.2 = 3 ∧ (∀ w ∈ ended.1.journal.writes, w.Within s₀.params.frameSize) ∧
        ended.1.journal.writes.flatMap (Write.taken s₀.params.frameSize) = bytes := by
  intro config samples bytes device
  refine ⟨?_, ?_⟩
  · let all : List (Turn ScriptedDevice) := [.offer 5, .offer 2, .run 2, .offer 2]
    let opened : Opening ScriptedDevice StockCallback := start config .fifo {} {}
    have evaluated : opened.session?.map (fun s₀ => ((s₀.turns samples 0 all).2, s₀.params.channels,
        s₀.params.encoding samples)) = some (3, 2, bytes) := by decide +kernel
    obtain ⟨s₀, found, values⟩ := Option.map_eq_some_iff.mp evaluated
    simp only [Prod.mk.injEq] at values
    obtain ⟨count, channels, encoding⟩ := values
    have started := Opening.eq_of_session? found
    obtain ⟨in_packets, _⟩ := @retried_samples_are_not_lost _ StockCallback Single _ _ _ config
      ({} : ScriptedDevice) {} samples all
    have gained := (in_packets s₀ started [] (by simp)).2
    change s₀.Gains (s₀.turns samples 0 all).1 (s₀.params.encoding
      (samples.take ((s₀.turns samples 0 all).2 * s₀.params.channels))) at gained
    rw [count, channels] at gained
    exact ⟨s₀, started, count, encoding ▸ gained⟩
  · let all : List (Turn ScriptedDevice) :=
      [.offer 5, .offer 4, .change fun d => { d with free := 5 }, .offer 4]
    let opened : Opening ScriptedDevice StockCallback := start config .queue device {}
    have evaluated : opened.session?.map (fun s₀ => ((s₀.turns samples 0 all).2, s₀.params.channels,
        s₀.params.encoding samples, s₀.journal.writes,
        decide (∀ w ∈ (s₀.turns samples 0 all).1.journal.writes, w.Within s₀.params.frameSize))) =
        some (3, 2, bytes, [], true) := by decide +kernel
    obtain ⟨s₀, found, values⟩ := Option.map_eq_some_iff.mp evaluated
    simp only [Prod.mk.injEq, decide_eq_true_eq] at values
    obtain ⟨count, channels, encoding, unwritten, within⟩ := values
    have started := Opening.eq_of_session? found
    obtain ⟨_, by_device, _⟩ := @retried_samples_are_not_lost _ StockCallback Single _ _ _ config
      device {} samples all
    obtain ⟨writes, written, took⟩ := by_device s₀ started []
    change (s₀.turns samples 0 all).1.journal.writes = s₀.journal.writes ++ writes at written
    rw [unwritten, List.nil_append] at written
    subst written
    have taken := (took within).2
    change _ = s₀.params.encoding (samples.take ((s₀.turns samples 0 all).2 * s₀.params.channels))
      at taken
    rw [count, channels] at taken
    exact ⟨s₀, started, count, within, taken.trans encoding⟩

end Session

end PcmStream
