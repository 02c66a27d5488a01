import Mathlib.Data.Nat.ModEq
import PcmStream.Proofs.RenderedChunks

/- One render in pieces. Rendered into one buffer after the other, a stock producer gives the same
   bytes and counts the same frames as in one buffer that is as long as all of them, across the ends
   of a loop and past the end of a clip; and what it renders after that is the same as well. -/
namespace PcmStream

namespace Renderer

variable {ρ : Type} [Renderer ρ]

def renderAll (p : Params) : List (List UInt8) → ρ → List (Nat × List UInt8) × ρ
  | [], r => ([], r)
  | out :: outs, r =>
    let made := render r out p
    let (later, last) := renderAll p outs made.renderer
    ((made.frames, made.out) :: later, last)

/-- The pieces are rendered as one render of the whole is, and all that is rendered later is the
    same after both. -/
structure AsOne (p : Params) (r : ρ) (pieces : List (List UInt8)) (whole : List UInt8) : Prop where
  bytes : ((renderAll p pieces r).1.map Prod.snd).flatten = (render r whole p).out
  frames : ((renderAll p pieces r).1.map Prod.fst).sum = (render r whole p).frames
  later : ∀ outs : List (List UInt8), (renderAll p outs (renderAll p pieces r).2).1 =
    (renderAll p outs (render r whole p).renderer).1

section Embedding

variable {ρ' : Type} [Renderer ρ'] {p : Params} {f : ρ → ρ'}

theorem renderAll_map (embeds : ∀ r out, render (f r) out p = f <$> render r out p)
    (outs : List (List UInt8)) (r : ρ) :
    renderAll p outs (f r) = ((renderAll p outs r).1, f (renderAll p outs r).2) := by
  induction outs generalizing r with
  | nil => rfl
  | cons out outs ih =>
    have next : (render (f r) out p).renderer = f (render r out p).renderer := by rw [embeds]; rfl
    rw [renderAll, renderAll]
    dsimp only
    rw [next, ih, embeds]
    rfl

theorem AsOne.map (embeds : ∀ r out, render (f r) out p = f <$> render r out p) {r : ρ}
    {pieces : List (List UInt8)} {whole : List UInt8} (h : AsOne p r pieces whole) :
    AsOne p (f r) pieces whole := by
  have after : (render (f r) whole p).renderer = f (render r whole p).renderer := by
    rw [embeds]
    rfl
  constructor
  · rw [renderAll_map embeds, embeds]
    exact h.bytes
  · rw [renderAll_map embeds, embeds]
    exact h.frames
  · intro outs
    rw [renderAll_map embeds, after, renderAll_map embeds, renderAll_map embeds]
    exact h.later outs

end Embedding

end Renderer

namespace Adapter

variable {π σ : Type} [Sample σ] [Producer π σ] {p : Params} {good : π → Prop}
  {play : Nat → π → List σ × π}

theorem renderAll_congr (steady : Steady p.channels good play) (some_channel : 0 < p.channels)
    (outs : List (List UInt8)) {a b : Adapter π σ} (h : good a.producer)
    (producer : b.producer = a.producer) (gain : b.gain = a.gain) :
    (Renderer.renderAll p outs b).1 = (Renderer.renderAll p outs a).1 := by
  induction outs generalizing a b with
  | nil => rfl
  | cons out outs ih =>
    obtain ⟨frames, bytes, next, kept⟩ := render_played steady some_channel h out
    obtain ⟨frames', bytes', next', kept'⟩ :=
      render_played steady some_channel (producer ▸ h : good b.producer) out
    rw [producer] at frames' bytes' next'
    rw [gain] at bytes' kept'
    have stays : good (a.render out p).renderer.producer := by
      rw [next]
      exact steady.stays h _
    have rest := ih stays (next'.trans next.symm) (kept'.trans kept.symm)
    simp only [Renderer.renderAll, List.cons.injEq, Prod.mk.injEq]
    exact ⟨⟨frames'.trans frames.symm, bytes'.trans bytes.symm⟩, rest⟩

theorem renderAll_played (steady : Steady p.channels good play) (some_channel : 0 < p.channels)
    (idle : ∀ q, play 0 q = ([], q)) {counts : List Nat} {pieces : List (List UInt8)}
    (sizes : pieces.map List.length = counts.map (· * p.frameSize)) {a : Adapter π σ}
    (h : good a.producer) :
    let all := Renderer.renderAll p pieces a
    (all.1.map Prod.snd).flatten = a.sound play p counts.sum ∧
      (all.1.map Prod.fst).sum = (play counts.sum a.producer).1.length / p.channels ∧
      all.2.producer = (play counts.sum a.producer).2 ∧ all.2.gain = a.gain := by
  induction pieces generalizing counts a with
  | nil =>
    obtain rfl : counts = [] := List.map_eq_nil_iff.mp sizes.symm
    simp [Renderer.renderAll, sound, idle, silence]
  | cons out pieces ih =>
    cases counts with
    | nil => cases sizes
    | cons n counts =>
      obtain ⟨size, sizes⟩ := List.cons.inj sizes
      have some_frame : 0 < p.frameSize := Nat.mul_pos some_channel p.format.width_pos
      have held : out.length / p.frameSize = n := by rw [size, Nat.mul_div_cancel _ some_frame]
      obtain ⟨frames, _, producer, gain⟩ := render_played steady some_channel h out
      rw [held] at frames producer
      have stays : good (a.render out p).renderer.producer := producer ▸ steady.stays h n
      obtain ⟨rest, rest_frames, last, last_gain⟩ := ih sizes stays
      rw [producer] at rest_frames last
      have run := steady.add h n counts.sum
      have bytes := (render_steady steady some_channel h size).1
      have joined := sound_add steady h producer gain counts.sum
      have counted := Nat.add_div_of_dvd_right (b := (play counts.sum
        (play n a.producer).2).1.length) (steady.whole h n)
      simp only [Renderer.renderAll, List.map_cons, List.flatten_cons, List.sum_cons]
      refine ⟨?_, ?_, ?_, last_gain.trans gain⟩
      · rw [joined, ← bytes, ← rest]
        rfl
      · rw [run, List.length_append, counted, ← rest_frames, ← frames]
        rfl
      · rw [run]
        exact last

theorem asOne (steady : Steady p.channels good play) (some_channel : 0 < p.channels)
    (idle : ∀ q, play 0 q = ([], q)) {counts : List Nat} {pieces : List (List UInt8)}
    (sizes : pieces.map List.length = counts.map (· * p.frameSize)) {whole : List UInt8}
    (size : whole.length = counts.sum * p.frameSize) {a : Adapter π σ} (h : good a.producer) :
    Renderer.AsOne p a pieces whole := by
  have some_frame : 0 < p.frameSize := Nat.mul_pos some_channel p.format.width_pos
  have held : whole.length / p.frameSize = counts.sum := by
    rw [size, Nat.mul_div_cancel _ some_frame]
  obtain ⟨bytes, frames, producer, gain⟩ := renderAll_played steady some_channel idle sizes h
  obtain ⟨frames', _, producer', gain'⟩ := render_played steady some_channel h whole
  rw [held] at frames' producer'
  have stays : good (a.render whole p).renderer.producer := producer' ▸ steady.stays h _
  constructor
  · exact bytes.trans (render_steady steady some_channel h size).1.symm
  · exact frames.trans frames'.symm
  · intro outs
    exact renderAll_congr steady some_channel outs stays (producer.trans producer'.symm)
      (gain.trans gain'.symm)

end Adapter

theorem Stock.run_zero {σ : Type} (channels : Nat) (s : Stock σ) :
    s.run channels 0 = ([], s) := by
  cases s with
  | clip c => simp [Stock.run, Clip.run, Clip.play_zero]
  | cues c => rfl

namespace Voice

variable {p : Params}

/-- However a number of frames is cut up, a stock producer that stands at the start of a frame
    renders the pieces as it renders the whole, whatever its gain and whatever its scratch and the
    buffers held before: the same bytes, as many frames, and after that the same, buffer by
    buffer. -/
theorem pieces_make_one_render (some_channel : 1 ≤ p.channels) {v : Voice}
    (aligned : v.Whole p.channels) {counts : List Nat} {pieces : List (List UInt8)}
    (sizes : pieces.map List.length = counts.map (· * p.frameSize)) {whole : List UInt8}
    (size : whole.length = counts.sum * p.frameSize) : Renderer.AsOne p v pieces whole := by
  cases v with
  | tone a =>
    have one := Adapter.asOne (Tone.steady some_channel) some_channel (fun _ => rfl) sizes size
      (a := a) trivial
    exact one.map (f := tone) fun _ _ => rfl
  | single a =>
    have one := Adapter.asOne (Stock.steady some_channel) some_channel (Stock.run_zero _) sizes
      size aligned
    exact one.map (f := single) fun _ _ => rfl
  | int16 a =>
    have one := Adapter.asOne (Stock.steady some_channel) some_channel (Stock.run_zero _) sizes
      size aligned
    exact one.map (f := int16) fun _ _ => rfl
  | int32 a =>
    have one := Adapter.asOne (Stock.steady some_channel) some_channel (Stock.run_zero _) sizes
      size aligned
    exact one.map (f := int32) fun _ _ => rfl

/-- A loop of two stereo frames, asked for two frames, none and three, plays on over its end and
    comes out as it does in one buffer of five frames. -/
theorem five_frames_in_three_pieces :
    let p : Params := { sampleRate := 8000, channels := 2, format := .i16, bufferFrames := 4 }
    let v : Voice := .int16
      { producer := .clip { data := [1, 2, 3, 4, 5], position := 2, looping := true }
        scratch := [9] }
    let pieces : List (List UInt8) := [List.replicate 8 7, [], List.replicate 12 7]
    let whole : List UInt8 := List.replicate 20 1
    1 ≤ p.channels ∧ v.Whole p.channels ∧
      pieces.map List.length = [2, 0, 3].map (· * p.frameSize) ∧
      whole.length = [2, 0, 3].sum * p.frameSize ∧
      (Renderer.renderAll p pieces v).1 = [(2, [3, 0, 4, 0, 1, 0, 2, 0]), (0, []),
        (3, [3, 0, 4, 0, 1, 0, 2, 0, 3, 0, 4, 0])] ∧
      Renderer.AsOne p v pieces whole := by
  intro p v pieces whole
  have aligned : v.Whole p.channels := by
    change 2 ∣ 2
    decide
  have one : Renderer.AsOne p v pieces whole :=
    pieces_make_one_render (by decide) aligned
      (by decide : pieces.map List.length = [2, 0, 3].map (· * p.frameSize)) (by decide)
  exact ⟨by decide, aligned, by decide, by decide, by decide +kernel, one⟩

end Voice

end PcmStream
