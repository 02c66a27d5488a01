import PcmStream.Proofs.FaithfulCounters

/- Where the fault comes from that has ended a filler. If the size and the time of a buffer can be
   computed, it comes from the callback, from the device, or from a fetch out of the packets; and no
   session has packets out of which a fetch breaks down. -/
namespace PcmStream

structure Params.Computed (p : Params) : Prop where
  size : ∃ size, bytesFor p.bufferFrames p.frameSize = .ok size
  time : ∃ nanos, p.bufferTime = .ok nanos

namespace Journal

def Fetches (j before : Journal) : Prop :=
  ∃ fetches, j.fetches = before.fetches ++ fetches ∧ ∀ f ∈ fetches, ∀ e, f.outcome ≠ .broken e

variable {j before : Journal} {events : List Event}

theorem fetches_events (record : j.events = before.events ++ events) (h : j.Fetches before)
    (ready : Nat) (f : Fault) : .fetch ⟨ready, .broken f⟩ ∉ events := by
  intro mem
  obtain ⟨fetches, fetched, whole⟩ := h
  simp only [Journal.fetches, record, List.filterMap_append] at fetched
  have found : (⟨ready, .broken f⟩ : Fetch) ∈ fetches := by
    rw [← List.append_cancel_left fetched, List.mem_filterMap]
    exact ⟨_, mem, rfl⟩
  exact whole _ found f rfl

theorem call_mem_events {calls : List Call} {c : Call}
    (record : j.events = before.events ++ events) (called : j.calls = before.calls ++ calls)
    (mem : c ∈ calls) : .call c ∈ events := by
  simp only [Journal.calls_eq, record, List.filterMap_append] at called
  rw [← List.append_cancel_left called, List.mem_filterMap] at mem
  obtain ⟨e, listed, same⟩ := mem
  cases e with
  | call c' => exact Option.some.inj same ▸ listed
  | _ => cases same

end Journal

namespace Filler

variable {δ κ : Type} [Callback κ] {t : Filler δ κ} {s : Shared} {f : Fault}

/-- A fault that came upon the filler: its callback breaks down over the buffer, or the device broke
    down in a call. -/
inductive Imposed (t : Filler δ κ) (events : List Event) (f : Fault) : Prop where
  | callback (c : κ) (supply : t.supply = .callback c)
      (broke : Callback.fill c (silence t.buffer.length) t.params = .error f)
  | write (frames : Nat) (bytes : List UInt8)
      (mem : .call (.wrote frames bytes (.broken f)) ∈ events)
  | recovery (mem : .call (.recovered (.broken f)) ∈ events)

theorem Imposed.mono {events more : List Event} (h : t.Imposed events f)
    (within : events ⊆ more) : t.Imposed more f := by
  cases h with
  | callback c supply broke => exact .callback c supply broke
  | write frames bytes mem => exact .write frames bytes (within mem)
  | recovery mem => exact .recovery (within mem)

/-- The filler goes on, or the fault that ended it came upon it or shows as a fetch. -/
def Explained (t : Filler δ κ) (events : List Event) : Prop :=
  ∀ f, t.stage = .broken f → t.Imposed events f ∨ ∃ ready, .fetch ⟨ready, .broken f⟩ ∈ events

theorem Explained.mono {events more : List Event} (h : t.Explained events)
    (within : events ⊆ more) : t.Explained more := by
  intro f broken
  rcases h f broken with imposed | ⟨ready, mem⟩
  · exact .inl (imposed.mono within)
  · exact .inr ⟨ready, within mem⟩

variable [Device δ]

omit [Callback κ] in
theorem recover_breaks (time : ∃ nanos, t.params.bufferTime = .ok nanos)
    (whole : ∀ f, t.stage ≠ .broken f) {e : DeviceError}
    (broken : (t.recover s e).1.stage = .broken f) :
    (t.recover s e).2.journal.calls = s.journal.calls ++ [.recovered (.broken f)] := by
  have tried := Device.recoverIn_calls .fill t.device (s.journal.notice .fill (.writeFailed e))
  rcases reply : Device.recoverIn .fill t.device (s.journal.notice .fill (.writeFailed e)) with
    ⟨outcome, d, j⟩
  rw [reply, Journal.calls_notice] at tried
  cases outcome with
  | ok _ =>
    simp only [recover, reply] at broken
    exact absurd broken (whole f)
  | broken f' =>
    simp only [recover, reply] at broken ⊢
    cases broken
    exact tried
  | failed e' =>
    obtain ⟨nanos, made⟩ := time
    simp only [recover, reply, made] at broken
    exact absurd broken (whole f)

omit [Callback κ] in
theorem write_breaks (time : ∃ nanos, t.params.bufferTime = .ok nanos)
    (broken : (t.write s).1.stage = .broken f) :
    ∃ calls, (t.write s).2.journal.calls = s.journal.calls ++ calls ∧
      (.wrote t.params.bufferFrames t.buffer (.broken f) ∈ calls ∨
        .recovered (.broken f) ∈ calls) := by
  have tried := Device.writeIn_calls .fill t.device t.buffer t.params.bufferFrames s.journal
  rcases reply : Device.writeIn .fill t.device t.buffer t.params.bufferFrames s.journal with
    ⟨outcome, d, j⟩
  rw [reply] at tried
  let resumed : Filler δ κ := { t with device := d, stage := .checking }
  have whole : ∀ f, resumed.stage ≠ .broken f := by simp [resumed]
  -- The summary that may follow a write ends no filler and calls no device.
  have quiet (t : Filler δ κ) (s : Shared) : (t.summarize s).1.stage = t.stage ∧
      (t.summarize s).2.journal.calls = s.journal.calls := by
    obtain ⟨_, _, same⟩ := @summarize_enters δ κ .fifo t.params _ t s
    have silent := (summarize_calls t s).1.calls
    rw [List.append_nil] at silent
    exact ⟨same, silent⟩
  cases outcome with
  | ok frames =>
    simp only [write, reply] at broken
    rw [(quiet resumed _).1] at broken
    exact absurd broken (whole f)
  | broken f' =>
    simp only [write, reply] at broken ⊢
    cases broken
    exact ⟨_, tried, .inl List.mem_cons_self⟩
  | failed e =>
    simp only [write, reply] at broken ⊢
    obtain ⟨same, silent⟩ := quiet (resumed.recover { s with journal := j } e).1
      (resumed.recover { s with journal := j } e).2
    have recovered := recover_breaks (t := resumed) time whole (same.symm.trans broken)
    rw [recovered] at silent
    let wrote : Call := .wrote t.params.bufferFrames t.buffer (.failed e)
    refine ⟨[wrote, .recovered (.broken f)], silent.trans ?_, .inr (by simp)⟩
    exact (congrArg (· ++ _) tried).trans (List.append_assoc _ _ _)

omit [Device δ] in
theorem fill_explained (t : Filler δ κ) (s : Shared) {events : List Event}
    (record : (t.fill s).2.journal.events = s.journal.events ++ events) :
    (t.fill s).1.Explained events := by
  intro f broken
  cases supply : t.supply with
  | callback c =>
    cases filled : Callback.fill c (silence t.buffer.length) t.params with
    | error f' =>
      simp only [fill, supply, filled] at broken ⊢
      cases broken
      exact .inl (.callback c supply filled)
    | ok made =>
      simp only [fill, supply, filled] at broken
      cases broken
  | fifo =>
    cases fifo : s.fifo with
    | none =>
      simp only [fill, supply, fifo] at broken
      cases broken
    | some q =>
      cases read : q.read t.buffer with
      | error f' =>
        simp only [fill, supply, fifo, fillFrom, read] at broken record
        cases broken
        have fetched := (Journal.events_fetch s.journal _).symm.trans record
        refine .inr ⟨q.available, ?_⟩
        rw [← List.append_cancel_left fetched]
        exact List.mem_cons_self
      | ok got =>
        simp only [fill, supply, fifo, fillFrom, read] at broken
        split at broken <;> cases broken

theorem write_explained (time : ∃ nanos, t.params.bufferTime = .ok nanos) (s : Shared)
    {events : List Event}
    (record : (t.write s).2.journal.events = s.journal.events ++ events) :
    (t.write s).1.Explained events := by
  intro f broken
  obtain ⟨calls, called, wrote | recovered⟩ := write_breaks time broken
  · exact .inl (.write _ _ (Journal.call_mem_events record called wrote))
  · exact .inl (.recovery (Journal.call_mem_events record called recovered))

theorem step_explained (computed : t.params.Computed) (s : Shared) :
    ∃ more, (t.step s).2.journal.events = s.journal.events ++ more ∧
      (t.step s).1.params = t.params ∧
      ∀ events, t.Explained events → (t.step s).1.Explained (events ++ more) := by
  obtain ⟨more, entered, params, _⟩ := @step_enters δ κ .fifo _ _ t s (by simp)
  have record := entered.events
  refine ⟨more, record, params, ?_⟩
  intro events explained
  have of_old := List.subset_append_left events more
  have of_new := List.subset_append_right events more
  cases stage : t.stage with
  | starting =>
    obtain ⟨size, made⟩ := computed.size
    intro f broken
    simp [step, stage, start, made] at broken
  | checking =>
    intro f broken
    simp only [step, stage, check] at broken
    split at broken <;> cases broken
  | filling =>
    simp only [step, stage] at record ⊢
    exact (fill_explained t s record).mono of_new
  | writing =>
    simp only [step, stage] at record ⊢
    exact (write_explained computed.time s record).mono of_new
  | finished =>
    simp only [step, stage]
    exact explained.mono of_old
  | broken f =>
    simp only [step, stage]
    exact explained.mono of_old

structure Answers (t : Filler δ κ) (s : Shared) (before : Journal) (p : Params) : Prop where
  params : t.params = p
  explained : ∃ more, s.journal.events = before.events ++ more ∧ t.Explained more

variable {before : Journal} {p : Params}

omit [Device δ] in
theorem Answers.grow (h : t.Answers s before p) {s' : Shared} {later : List Event}
    (record : s'.journal.events = s.journal.events ++ later) : t.Answers s' before p := by
  obtain ⟨params, more, events, explained⟩ := h
  exact ⟨params, more ++ later, by rw [record, events, List.append_assoc],
    explained.mono (List.subset_append_left _ _)⟩

theorem step_answers (computed : p.Computed) (t : Filler δ κ) (s : Shared)
    (h : t.Answers s before p) : (t.step s).1.Answers (t.step s).2 before p := by
  obtain ⟨rfl, more, events, explained⟩ := h
  obtain ⟨later, record, params, explains⟩ := t.step_explained computed s
  exact ⟨params, more ++ later, by rw [record, events, List.append_assoc], explains more explained⟩

theorem finish_answers (computed : p.Computed) (h : t.Answers s before p) :
    (t.finish s).1.Answers (t.finish s).2 before p := by
  obtain ⟨params, more, record, explained⟩ := h
  have told : ({ t with stop := true } : Filler δ κ).Answers s before p := by
    refine ⟨params, more, record, ?_⟩
    intro f broken
    rcases explained f broken with imposed | fetched
    · cases imposed with
      | callback c supply broke => exact .inl (.callback c supply broke)
      | write frames bytes mem => exact .inl (.write frames bytes mem)
      | recovery mem => exact .inl (.recovery mem)
    · exact .inr fetched
  exact finishFuel_keeps (P := fun t s => t.Answers s before p) (step_answers computed) 3 told

omit [Device δ] in
theorem Answers.imposed (h : t.Answers s before p) (fetches : s.journal.Fetches before)
    (broken : t.stage = .broken f) :
    ∃ more, s.journal.events = before.events ++ more ∧ t.Imposed more f := by
  obtain ⟨_, more, record, explained⟩ := h
  rcases explained f broken with imposed | ⟨ready, mem⟩
  · exact ⟨more, record, imposed⟩
  · exact absurd mem (Journal.fetches_events record fetches ready f)

theorem step_unpacked (t : Filler δ κ) {s : Shared} (unpacked : s.fifo = none) :
    ∃ more, s.Hands more (t.step s).2 := by
  cases stage : t.stage with
  | starting =>
    simp only [step, stage, start]
    split
    · exact ⟨[], .refl s⟩
    · exact ⟨[], Shared.hands_notice _ _⟩
  | checking =>
    simp only [step, stage, check]
    split
    · exact ⟨[], Shared.hands_notice _ _⟩
    · exact ⟨[], .refl s⟩
  | filling =>
    simp only [step, stage, fill]
    split
    · split <;> exact ⟨[], .refl s⟩
    · rw [unpacked]
      exact ⟨[], .refl s⟩
  | writing =>
    simp only [step, stage]
    exact ⟨_, (write_spec t s).2⟩
  | finished =>
    simp only [step, stage]
    exact ⟨[], .refl s⟩
  | broken f =>
    simp only [step, stage]
    exact ⟨[], .refl s⟩

theorem unpacked_keeps {begun s : Shared} (unpacked : begun.fifo = none) (t : Filler δ κ)
    (kept : ∃ more, begun.Hands more s) : ∃ more, begun.Hands more (t.step s).2 := by
  obtain ⟨more, hands⟩ := kept
  obtain ⟨later, hands'⟩ := t.step_unpacked (hands.fifo.trans unpacked)
  exact ⟨_, hands.trans hands'⟩

theorem finish_unpacked (t : Filler δ κ) {s : Shared} (unpacked : s.fifo = none) :
    ∃ more, s.Hands more (t.finish s).2 :=
  finishFuel_keeps (P := fun _ s' => ∃ more, s.Hands more s')
    (fun t _ => unpacked_keeps unpacked t) 3 ⟨[], .refl s⟩

theorem release_unpacked (t : Filler δ κ) {s : Shared} (unpacked : s.fifo = none) :
    ∃ more, s.Hands more (t.release s) := by
  obtain ⟨more, hands⟩ := t.finish_unpacked unpacked
  unfold release
  dsimp only
  split
  · exact ⟨_, hands.trans (Shared.hands_notice _ _)⟩
  · exact ⟨_, hands.trans ⟨rfl, rfl, Device.disconnectIn_hands _ _⟩⟩

end Filler

namespace Session

variable {δ κ : Type} [Callback κ] {s s' : Session δ κ} {before : Journal} {p : Params}

def Answers (s : Session δ κ) (before : Journal) (p : Params) : Prop :=
  ∀ t, s.holder = .filler t → t.Answers s.shared before p

theorem Answers.same (h : s.Answers before p)
    (same : ∀ t, s'.holder = .filler t →
      s.holder = .filler t ∧ s'.journal.events = s.journal.events) : s'.Answers before p := by
  intro t holder
  obtain ⟨held, events⟩ := same t holder
  exact (h t held).grow (events.trans (List.append_nil _).symm)

variable [Device δ]

omit [Callback κ] in
theorem place_keeps {bytes : List UInt8} {frames : Nat} {t : Filler δ κ}
    (holder : (s.place bytes frames).2.holder = .filler t) :
    s.holder = .filler t ∧ (s.place bytes frames).2.journal = s.journal := by
  have alike := place_alike s bytes frames
  rw [holder] at alike
  cases held : s.holder with
  | filler t' =>
    simp only [place, held] at holder ⊢
    split at holder
    · exact ⟨held.symm.trans holder, rfl⟩
    · split at holder
      · exact ⟨held.symm.trans holder, rfl⟩
      · exact ⟨held.symm.trans holder, rfl⟩
  | owner d =>
    rw [held] at alike
    exact alike.elim
  | nobody =>
    rw [held] at alike
    exact alike.elim

theorem place_answers (h : s.Answers before p) (bytes : List UInt8) (frames : Nat) :
    (s.place bytes frames).2.Answers before p := by
  apply h.same
  intro t holder
  obtain ⟨held, journal⟩ := place_keeps holder
  exact ⟨held, congrArg Journal.events journal⟩

theorem act_answers (computed : p.Computed) {got : List UInt8} (act : Act s got s')
    (h : s.Answers before p) : s'.Answers before p := by
  cases act with
  | step =>
    unfold step
    split
    · rename_i t held
      intro t' holder
      obtain rfl := Holder.filler.inj holder
      exact t.step_answers computed s.shared (h t held)
    · exact h
  | @place _ bytes frames placed _ done =>
    have placing := place_answers h bytes frames
    rw [done] at placing
    exact placing.same fun t holder => ⟨holder, rfl⟩
  | @fault _ bytes frames f _ done =>
    have placing := place_answers h bytes frames
    rw [done] at placing
    exact placing
  | skip => exact h.same fun t holder => ⟨holder, rfl⟩
  | wait nanos => exact h.same fun t holder => ⟨holder, rfl⟩
  | stage staging => exact h.same fun t holder => ⟨holder, rfl⟩
  | summarize =>
    unfold summarize
    split
    · rename_i d held
      intro t holder
      cases held.symm.trans holder
    · exact h

theorem move_answers (computed : p.Computed) (h : s.Answers before p) (m : Move) :
    (s.move m).2.Answers before p := by
  cases closes : m.closes with
  | false =>
    obtain ⟨got, acts, _⟩ := move_acts s closes
    exact @Acts.keeps _ _ _ _ _ _ _ (fun s _ => s.Answers before p)
      (fun _ _ _ _ act h => act_answers computed act h) acts [] h
  | true =>
    cases m with
    | close =>
      intro t holder
      cases held : s.holder <;> simp [move, close, closed, held] at holder
    | _ => simp [Move.closes] at closes

variable {config : Config} {feed : Feed κ} {d : δ} {around : Surroundings} {s₀ : Session δ κ}

theorem start_answers (started : start config feed d around = .session s₀)
    (computed : s₀.params.Computed) : s₀.Answers around.journal s₀.params := by
  obtain ⟨d', j, p, s, n, reply, _, prepared, rfl⟩ := start_prepared started
  obtain ⟨opened, record⟩ : ∃ opened, j.events = around.journal.events ++ opened := by
    simp only [Device.connectIn, Prod.mk.injEq] at reply
    obtain ⟨_, _, rfl⟩ := reply
    exact ⟨_, by simp [List.append_assoc]; rfl⟩
  cases prepared with
  | owner => exact fun t holder => by cases holder
  | @thread supply fifo _ t began taken =>
    have begins : t.Answers { fifo, journal := j } around.journal p := by
      subst began
      exact ⟨rfl, opened, record, fun f broken => by cases broken⟩
    have answers := Filler.approach_keeps
      (P := fun t s => t.Answers s around.journal p) (Filler.step_answers computed) taken begins
    intro t' holder
    obtain rfl := Holder.filler.inj holder
    exact answers.grow (Journal.events_notice _ _ _)

theorem moves_answers (started : start config feed d around = .session s₀)
    (computed : s₀.params.Computed) (all : List Move) :
    (s₀.moves all).1.Answers around.journal s₀.params :=
  @moves_keep _ _ _ _ (fun s _ => s.Answers around.journal s₀.params)
    (fun _ _ m h => move_answers computed h m) all s₀ [] (start_answers started computed)

structure Unpacked (s : Session δ κ) (before : Journal) : Prop where
  unowned : ∀ d, s.holder ≠ .owner d
  fifo : s.fifo = none
  fetches : s.journal.fetches = before.fetches

omit [Callback κ] [Device δ] in
theorem Unpacked.hands (h : s.Unpacked before) (unowned : ∀ d, s'.holder ≠ .owner d)
    {more : List (List UInt8)} (hands : s.shared.Hands more s'.shared) : s'.Unpacked before :=
  ⟨unowned, hands.fifo.trans h.fifo, hands.journal.fetches.trans h.fetches⟩

omit [Callback κ] in
theorem place_unpacked (h : s.Unpacked before) (bytes : List UInt8) (frames : Nat) :
    s.place bytes frames = (.ok 0, s) := by
  unfold place
  split
  · rw [h.fifo]
  · rename_i d holder
    exact absurd holder (h.unowned d)
  · rfl

theorem act_unpacked {got : List UInt8} (act : Act s got s') (h : s.Unpacked before) :
    s'.Unpacked before := by
  cases act with
  | step =>
    unfold step
    split
    · rename_i t holder
      obtain ⟨more, hands⟩ := t.step_unpacked h.fifo
      exact h.hands (by simp) hands
    · exact h
  | @place _ bytes frames placed _ done =>
    rw [place_unpacked h] at done
    obtain ⟨-, rfl⟩ := Prod.mk.inj done
    exact ⟨h.unowned, h.fifo, h.fetches⟩
  | @fault _ bytes frames f _ done =>
    rw [place_unpacked h] at done
    cases done
  | skip => exact ⟨h.unowned, h.fifo, h.fetches⟩
  | wait nanos => exact ⟨h.unowned, h.fifo, h.fetches⟩
  | stage staging => exact ⟨h.unowned, h.fifo, h.fetches⟩
  | summarize =>
    unfold summarize
    split
    · rename_i d holder
      exact absurd holder (h.unowned d)
    · exact h

theorem close_unpacked (h : s.Unpacked before) : s.close.Unpacked before := by
  have no_packets : s.fifo.map Fifo.close = none := by rw [h.fifo]; rfl
  unfold close
  dsimp only
  split
  · rename_i t holder
    obtain ⟨more, hands⟩ :=
      t.release_unpacked (s := { s.shared with fifo := s.fifo.map Fifo.close }) no_packets
    refine ⟨by simp [closed], hands.fifo.trans no_packets, ?_⟩
    exact (Journal.hands_notice _ _).fetches.trans (hands.journal.fetches.trans h.fetches)
  · rename_i d holder
    exact absurd holder (h.unowned d)
  · exact ⟨h.unowned, no_packets, h.fetches⟩

theorem move_unpacked (h : s.Unpacked before) (m : Move) : (s.move m).2.Unpacked before := by
  cases closes : m.closes with
  | false =>
    obtain ⟨got, acts, _⟩ := move_acts s closes
    exact @Acts.keeps _ _ _ _ _ _ _ (fun s _ => s.Unpacked before)
      (fun _ _ _ _ act h => act_unpacked act h) acts [] h
  | true =>
    cases m with
    | close => exact close_unpacked h
    | _ => simp [Move.closes] at closes

theorem start_unpacked {c : κ} (started : start config (.callback c) d around = .session s₀) :
    s₀.Unpacked around.journal := by
  have connected := Device.connectIn_hands d config.params around.journal
  obtain ⟨d', j, p, s, n, reply, _, prepared, rfl⟩ := start_prepared started
  rw [reply] at connected
  cases prepared with
  | @thread supply fifo supplied t began taken =>
    cases supplied
    let begun : Shared := { fifo := none, journal := j }
    obtain ⟨more, hands⟩ : ∃ more, begun.Hands more (t.approach taken begun).2 :=
      Filler.approach_keeps (P := fun _ s' => ∃ more, begun.Hands more s')
        (fun t _ => Filler.unpacked_keeps rfl t) taken ⟨[], .refl begun⟩
    have announced := hands.trans (Shared.hands_notice .main n)
    exact ⟨by simp, announced.fifo, announced.journal.fetches.trans connected.fetches⟩
  | owner queue => cases queue

theorem moves_unpacked {c : κ} (started : start config (.callback c) d around = .session s₀)
    (all : List Move) : (s₀.moves all).1.Unpacked around.journal :=
  @moves_keep _ _ _ _ (fun s _ => s.Unpacked around.journal)
    (fun _ _ m h => move_unpacked h m) all s₀ [] (start_unpacked started)

omit [Device δ] [Callback κ] in
theorem fetches_of_fed {l : Layout} {stream : List UInt8} {parked : List (List UInt8)}
    {shared : Shared} (fed : shared.Fed l before stream parked) :
    shared.journal.Fetches before := by
  obtain ⟨fetches, _, fetched, _, _, account⟩ := fed
  refine ⟨fetches, fetched, ?_⟩
  intro f mem e broken
  rcases account.fair f mem with ⟨miss, _⟩ | ⟨hit, _⟩
  · rw [miss] at broken
    cases broken
  · rw [hit] at broken
    cases broken

theorem moves_fetch (started : start config feed d around = .session s₀)
    (threaded : feed.mode ≠ .queue) (all : List Move) :
    let s := (s₀.moves all).1
    s.journal.Fetches around.journal ∧ ∀ t, s.holder = .filler t →
      (t.finish { s.shared with fifo := s.fifo.map Fifo.close }).2.journal.Fetches
        around.journal := by
  intro s
  cases feed with
  | callback c =>
    have unpacked : s.Unpacked around.journal := moves_unpacked started all
    have no_packets : s.fifo.map Fifo.close = none := by rw [unpacked.fifo]; rfl
    refine ⟨⟨[], ?_, by simp⟩, ?_⟩
    · rw [List.append_nil]
      exact unpacked.fetches
    · intro t _
      obtain ⟨more, hands⟩ :=
        t.finish_unpacked (s := { s.shared with fifo := s.fifo.map Fifo.close }) no_packets
      refine ⟨[], ?_, by simp⟩
      rw [List.append_nil]
      exact hands.journal.fetches.trans unpacked.fetches
  | fifo =>
    obtain ⟨l, _, begun⟩ := start_feeds started
    have feeds := moves_keep (P := fun s stream => s.Feeds l around.journal stream)
      (fun _ _ m h => move_feeds h m) all begun
    refine ⟨fetches_of_fed (fed_of_feeds feeds), ?_⟩
    intro t holder
    cases feeds with
    | closed nobody => simp [s, nobody] at holder
    | running t' holder' frame feeds =>
      obtain rfl := Holder.filler.inj (holder'.symm.trans holder)
      have shut : t'.Feeds { s.shared with fifo := s.fifo.map Fifo.close } l around.journal _ :=
        ⟨feeds.supply, feeds.buffer_size, feeds.buffer, Shared.fed_close feeds.fed⟩
      exact fetches_of_fed (Filler.finish_feeds shut)
  | queue => exact absurd rfl threaded

theorem moves_deeds (s : Session δ κ) (all : List Move) :
    (s.moves all).1 = s.deeds (all.map .move) := by
  induction all generalizing s with
  | nil => rfl
  | cons m rest ih => exact ih (s.move m).2

theorem moves_threaded (started : start config feed d around = .session s₀) (all : List Move)
    {t : Filler δ κ} (holder : (s₀.moves all).1.holder = .filler t) : feed.mode ≠ .queue := by
  intro queue
  cases feed with
  | queue =>
    rw [moves_deeds] at holder
    exact absurd holder ((start_unthreaded started _).2 t)
  | _ => cases queue

theorem moves_imposed (started : start config feed d around = .session s₀)
    (computed : s₀.params.Computed) (all : List Move) {t : Filler δ κ} {f : Fault}
    (holder : (s₀.moves all).1.holder = .filler t) :
    let s := (s₀.moves all).1
    let last := t.finish { s.shared with fifo := s.fifo.map Fifo.close }
    (t.stage = .broken f →
      ∃ more, s.journal.events = around.journal.events ++ more ∧ t.Imposed more f) ∧
    (last.1.stage = .broken f →
      ∃ more, last.2.journal.events = around.journal.events ++ more ∧
        last.1.Imposed more f) := by
  intro s last
  obtain ⟨fetches, fetches'⟩ := moves_fetch started (moves_threaded started all holder) all
  have answers : t.Answers s.shared around.journal s₀.params :=
    moves_answers started computed all t holder
  have shut : t.Answers { s.shared with fifo := s.fifo.map Fifo.close } around.journal s₀.params :=
    answers.grow (List.append_nil _).symm
  exact ⟨answers.imposed fetches,
    (Filler.finish_answers computed shut).imposed (fetches' t holder)⟩

end Session

end PcmStream
