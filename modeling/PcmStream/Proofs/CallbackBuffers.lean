import PcmStream.Proofs.RenderedChunks
import PcmStream.Proofs.SessionOpening

/- A session in callback mode whose callback is a renderer: the device is handed what it renders, one
   buffer after the other, whatever the owner calls and however the writes end. -/
namespace PcmStream

/-- Since `before` the device was handed what `r₀` renders, but for the buffers `parked`. -/
def Journal.Rendered {ρ : Type} [Renderer ρ] (j before : Journal) (p : Params) (good : ρ → Prop)
    (r₀ r : ρ) (parked : List (List UInt8)) : Prop :=
  ∃ buffers, j.handed = before.handed ++ buffers ∧ Renderer.Fills p good r₀ r (buffers ++ parked)

theorem Journal.rendered_hands {ρ : Type} [Renderer ρ] {j j' before : Journal} {p : Params}
    {good : ρ → Prop} {r₀ r : ρ} {more parked : List (List UInt8)}
    (h : j.Rendered before p good r₀ r (more ++ parked)) (hands : j.Hands more j') :
    j'.Rendered before p good r₀ r parked := by
  obtain ⟨buffers, handed, fills⟩ := h
  refine ⟨buffers ++ more, ?_, ?_⟩
  · rw [hands.handed, handed, List.append_assoc]
  · rwa [List.append_assoc]

namespace Filler

variable {δ ρ : Type} [Renderer ρ] {p : Params} {good : ρ → Prop} {before : Journal} {r₀ : ρ}

structure Renders (t : Filler δ ρ) (s : Shared) (before : Journal) (p : Params) (good : ρ → Prop)
    (r₀ : ρ) : Prop where
  params : t.params = p
  fifo : s.fifo = none
  buffer : t.isAlive = true → t.stage ≠ .starting → t.buffer.length = p.bufferFrames * p.frameSize
  rendered : ∃ r, t.supply = .callback r ∧ s.journal.Rendered before p good r₀ r t.parked

variable {t t' : Filler δ ρ} {s s' : Shared}

theorem renders_quiet (h : t.Renders s before p good r₀) (supply : t'.supply = t.supply)
    (params : t'.params = t.params)
    (buffer : t'.isAlive = true → t'.stage ≠ .starting →
      t'.buffer.length = p.bufferFrames * p.frameSize)
    (idle : t'.stage ≠ .writing) (hands : s.Hands t.parked s') :
    t'.Renders s' before p good r₀ := by
  obtain ⟨r, callback, rendered⟩ := h.rendered
  constructor
  · exact params.trans h.params
  · exact hands.fifo.trans h.fifo
  · exact buffer
  · refine ⟨r, supply.trans callback, ?_⟩
    rw [parked, if_neg idle]
    rw [← List.append_nil t.parked] at rendered
    exact Journal.rendered_hands rendered hands.journal

theorem start_renders (h : t.Renders s before p good r₀) (starting : t.stage = .starting) :
    (t.start s).1.Renders (t.start s).2 before p good r₀ := by
  have none_parked : t.parked = [] := by simp [parked, starting]
  unfold start
  cases size : bytesFor t.params.bufferFrames t.params.frameSize with
  | error f =>
    refine renders_quiet h rfl rfl ?_ ?_ ?_
    · simp [isAlive, breakDown]
    · simp [breakDown]
    · rw [none_parked]
      exact .refl s
  | ok size =>
    obtain ⟨_, rfl⟩ := bytesFor_eq_ok_iff.mp size
    refine renders_quiet h rfl rfl ?_ ?_ ?_
    · intro _ _
      simp [silence, h.params]
    · simp
    · rw [none_parked]
      exact Shared.hands_notice _ _

theorem check_renders (h : t.Renders s before p good r₀) (checking : t.stage = .checking) :
    (t.check s).1.Renders (t.check s).2 before p good r₀ := by
  have none_parked : t.parked = [] := by simp [parked, checking]
  have sized := h.buffer (by simp [isAlive, checking]) (by simp [checking])
  unfold check
  split
  · exact renders_quiet h rfl rfl (fun _ _ => sized) (by simp)
      (none_parked ▸ Shared.hands_notice _ _)
  · exact renders_quiet h rfl rfl (fun _ _ => sized) (by simp) (none_parked ▸ .refl s)

variable (seamless : Seamless p good)
include seamless

theorem fill_renders (h : t.Renders s before p good r₀) (filling : t.stage = .filling) :
    (t.fill s).1.Renders (t.fill s).2 before p good r₀ := by
  have sized := h.buffer (by simp [isAlive, filling]) (by simp [filling])
  obtain ⟨r, callback, buffers, handed, fills⟩ := h.rendered
  rw [parked, if_neg (by simp [filling]), List.append_nil] at fills
  have silent : (silence t.buffer.length).length = p.bufferFrames * p.frameSize := by
    simp [silence, sized]
  simp only [fill, callback, Callback.fill, Renderer.fill, h.params]
  cases Renderer.prepare r (silence t.buffer.length).length p with
  | error f =>
    have none_parked : t.parked = [] := by simp [parked, filling]
    refine renders_quiet h rfl rfl ?_ ?_ (none_parked ▸ .refl s)
    · simp [isAlive, breakDown]
    · simp [breakDown]
  | ok =>
    constructor
    · rfl
    · exact h.fifo
    · intro _ _
      rw [Renderer.length_render, silent]
    · refine ⟨_, rfl, buffers, handed, ?_⟩
      rw [parked, if_pos rfl]
      exact fills.snoc seamless silent

variable [Device δ]

omit seamless in
theorem write_renders (h : t.Renders s before p good r₀) (writing : t.stage = .writing) :
    (t.write s).1.Renders (t.write s).2 before p good r₀ := by
  obtain ⟨resumed, hands⟩ := write_spec t s
  have sized := h.buffer (by simp [isAlive, writing]) (by simp [writing])
  apply renders_quiet h resumed.supply resumed.params
  · intro _ _
    rw [resumed.buffer]
    exact sized
  · rcases resumed.stage with checking | ⟨f, broken⟩
    · simp [checking]
    · simp [broken]
  · rw [parked, if_pos writing]
    exact hands

theorem step_renders (h : t.Renders s before p good r₀) :
    (t.step s).1.Renders (t.step s).2 before p good r₀ := by
  cases stage : t.stage with
  | starting => simpa only [step, stage] using start_renders h stage
  | checking => simpa only [step, stage] using check_renders h stage
  | filling => simpa only [step, stage] using fill_renders seamless h stage
  | writing => simpa only [step, stage] using write_renders h stage
  | finished => simpa only [step, stage] using h
  | broken f => simpa only [step, stage] using h

theorem release_renders (h : t.Renders s before p good r₀) :
    (t.release s).fifo = none ∧ ∃ r, (t.release s).journal.Rendered before p good r₀ r [] := by
  have raised : Renders { t with stop := true } s before p good r₀ :=
    ⟨h.params, h.fifo, h.buffer, h.rendered⟩
  have kept : (t.finish s).1.Renders (t.finish s).2 before p good r₀ :=
    finishFuel_keeps (P := fun t s => t.Renders s before p good r₀)
      (fun _ _ => step_renders seamless) 3 raised
  have dead := finish_ends t s
  have idle : (t.finish s).1.stage ≠ .writing := by
    intro writing
    simp [isAlive, writing] at dead
  obtain ⟨r, _, rendered⟩ := kept.rendered
  rw [parked, if_neg idle] at rendered
  simp only [release]
  split
  · exact ⟨kept.fifo, r, Journal.rendered_hands rendered (Journal.hands_notice _ _)⟩
  · exact ⟨kept.fifo, r, Journal.rendered_hands rendered (Device.disconnectIn_hands _ _)⟩

end Filler

namespace Session

variable {δ ρ : Type} [Renderer ρ] {p : Params} {good : ρ → Prop} {before : Journal} {r₀ : ρ}

inductive Renders (s : Session δ ρ) (before : Journal) (p : Params) (good : ρ → Prop) (r₀ : ρ) :
    Prop where
  | running (t : Filler δ ρ) (holder : s.holder = .filler t)
      (renders : t.Renders s.shared before p good r₀)
  | closed (holder : s.holder = .nobody) (fifo : s.fifo = none) (r : ρ)
      (rendered : s.journal.Rendered before p good r₀ r [])

variable {s s' : Session δ ρ} {got : List UInt8}

theorem renders_quiet (h : s.Renders before p good r₀) (holder : s'.holder = s.holder)
    (hands : s.shared.Hands [] s'.shared) : s'.Renders before p good r₀ := by
  cases h with
  | running t filler renders =>
    obtain ⟨r, callback, rendered⟩ := renders.rendered
    refine .running t (holder.trans filler) ⟨renders.params, hands.fifo.trans renders.fifo,
      renders.buffer, r, callback, Journal.rendered_hands rendered hands.journal⟩
  | closed nobody fifo r rendered =>
    exact .closed (holder.trans nobody) (hands.fifo.trans fifo) r
      (Journal.rendered_hands rendered hands.journal)

theorem fifo_of_renders (h : s.Renders before p good r₀) : s.fifo = none := by
  cases h with
  | running t holder renders => exact renders.fifo
  | closed holder fifo r rendered => exact fifo

theorem rendered_of_renders (h : s.Renders before p good r₀) :
    ∃ r, s.journal.Rendered before p good r₀ r s.parked := by
  cases h with
  | running t holder renders =>
    obtain ⟨r, _, rendered⟩ := renders.rendered
    exact ⟨r, by simpa only [parked, holder, journal] using rendered⟩
  | closed holder fifo r rendered =>
    exact ⟨r, by simpa only [parked, holder, journal] using rendered⟩

theorem summarize_renders (h : s.Renders before p good r₀) : s.summarize = s := by
  cases h with
  | running t holder renders => simp [summarize, holder]
  | closed holder fifo r rendered => simp [summarize, holder]

variable [Device δ]

theorem place_renders (h : s.Renders before p good r₀) (bytes : List UInt8) (frames : Nat) :
    s.place bytes frames = (.ok 0, s) := by
  have none_made := fifo_of_renders h
  cases h with
  | running t holder renders => simp [place, holder, none_made]
  | closed holder fifo r rendered => simp [place, holder]

variable (seamless : Seamless p good)
include seamless

theorem act_renders (h : s.Renders before p good r₀) (act : Act s got s') :
    s'.Renders before p good r₀ := by
  cases act with
  | step =>
    cases h with
    | running t holder renders =>
      simp only [step, holder]
      exact .running _ rfl (Filler.step_renders seamless renders)
    | closed holder fifo r rendered =>
      simpa [step, holder] using Renders.closed holder fifo r rendered
  | @place _ bytes frames _ _ done =>
    rw [place_renders h, Prod.mk.injEq] at done
    obtain ⟨_, rfl⟩ := done
    exact renders_quiet h rfl ⟨rfl, rfl, .refl _⟩
  | @fault _ bytes frames _ _ done =>
    rw [place_renders h, Prod.mk.injEq] at done
    cases done.1
  | skip => exact renders_quiet h rfl ⟨rfl, rfl, .refl _⟩
  | wait nanos => exact renders_quiet h rfl ⟨rfl, rfl, rfl, by simp [advance, Journal.advance]; rfl⟩
  | stage staging => exact renders_quiet h rfl (.refl _)
  | summarize =>
    rw [summarize_renders h]
    exact h

theorem acts_render (h : s.Renders before p good r₀) (acts : Acts s got s') :
    s'.Renders before p good r₀ := by
  induction acts with
  | refl => exact h
  | tail _ act ih => exact act_renders seamless ih act

theorem close_renders (h : s.Renders before p good r₀) : s.close.Renders before p good r₀ := by
  have none_made := fifo_of_renders h
  cases h with
  | running t holder renders =>
    have same : ({ s.shared with fifo := s.fifo.map Fifo.close } : Shared) = s.shared := by
      rw [none_made, Option.map_none, ← none_made]
      rfl
    obtain ⟨fifo, r, rendered⟩ := Filler.release_renders seamless renders
    simp only [close, holder, same]
    exact .closed rfl fifo r (Journal.rendered_hands rendered (Journal.hands_notice _ _))
  | closed holder fifo r rendered =>
    simp only [close, holder, none_made]
    exact .closed rfl rfl r rendered

theorem deed_renders (h : s.Renders before p good r₀) (a : Deed δ) :
    (s.deed a).Renders before p good r₀ := by
  cases a with
  | move m =>
    cases closes : m.closes with
    | false =>
      obtain ⟨got, acts, _⟩ := move_acts s closes
      exact acts_render seamless h acts
    | true =>
      cases m with
      | close => exact close_renders seamless h
      | _ => simp [Move.closes] at closes
  | request r =>
    simp only [deed, fifo_of_renders h]
    exact h
  | change f =>
    cases h with
    | running t holder renders =>
      simp only [deed, holder]
      exact .running _ rfl ⟨renders.params, renders.fifo, renders.buffer, renders.rendered⟩
    | closed holder fifo r rendered =>
      simpa [deed, holder] using Renders.closed holder fifo r rendered

theorem deeds_render (all : List (Deed δ)) (h : s.Renders before p good r₀) :
    (s.deeds all).Renders before p good r₀ := by
  induction all generalizing s with
  | nil => exact h
  | cons a rest ih => exact ih (deed_renders seamless h a)

omit seamless in
theorem start_renders {config : Config} {d : δ} {around : Surroundings} {s₀ : Session δ ρ}
    (started : start config (.callback r₀) d around = .session s₀)
    (seamless : Seamless s₀.params good) (h : good r₀) :
    s₀.Renders around.journal s₀.params good r₀ := by
  obtain ⟨d', j, p, s, n, reply, _, prepared, rfl⟩ := start_prepared started
  have connected := Device.connectIn_hands d config.params around.journal
  rw [reply] at connected
  cases prepared with
  | @thread supply fifo supplied t began taken =>
    cases supplied with
    | callback c =>
      have waiting : t.Renders { fifo := none, journal := j } around.journal p good r₀ := by
        subst began
        constructor
        · rfl
        · rfl
        · intro _ started
          exact absurd rfl started
        · refine ⟨r₀, rfl, [], ?_, ?_⟩
          · simpa using connected.handed
          · exact Renderer.Fills.nil h
      have renders := Filler.approach_keeps
        (P := fun t shared => t.Renders shared around.journal p good r₀)
        (fun _ _ => Filler.step_renders seamless) taken waiting
      obtain ⟨r, callback, rendered⟩ := renders.rendered
      exact .running _ rfl ⟨renders.params, renders.fifo, renders.buffer, r, callback,
        Journal.rendered_hands rendered (Journal.hands_notice _ _)⟩
  | owner queue => cases queue

omit seamless in
theorem handed_of_callback {config : Config} {d : δ} {around : Surroundings} {s₀ : Session δ ρ}
    (started : start config (.callback r₀) d around = .session s₀)
    (seamless : Seamless s₀.params good) (h : good r₀) (all : List (Deed δ)) :
    ∃ buffers, (s₀.deeds all).journal.handed = around.journal.handed ++ buffers ∧
      ∀ k ≤ buffers.length, (buffers.take k).flatten =
        Renderer.chunk r₀ s₀.params (k * s₀.params.bufferFrames) := by
  have renders := deeds_render seamless all (start_renders started seamless h)
  obtain ⟨r, buffers, handed, fills⟩ := rendered_of_renders renders
  refine ⟨buffers, handed, ?_⟩
  intro k some_of
  rw [← fills.take seamless h (by rw [List.length_append]; omega),
    List.take_append_of_le_length some_of]

end Session

end PcmStream
