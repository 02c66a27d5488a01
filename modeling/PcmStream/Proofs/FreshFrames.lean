import PcmStream.Producer.Adapter
import PcmStream.Producer.Cues

/- One render, whoever produces. The buffer gets the frames that the producer has just made, and
   zeros behind them. Neither what the buffer held before nor what the scratch held comes out again,
   also where the producer claims more than it was asked for. -/
namespace PcmStream

section Producers

variable {π σ : Type} [Sample σ] [Producer π σ]

/-- Given a slice of `n` samples, the producer claims as many frames, goes on in the same way and
    writes the same into the frames it claims, as far as the slice reaches, whatever the slice
    holds. -/
def Producer.WritesAnew (channels n : Nat) (p : π) : Prop :=
  ∀ slice slice' : List σ, slice.length = n → slice'.length = n →
    let made := Producer.produce p slice channels
    let made' := Producer.produce p slice' channels
    made'.frames = made.frames ∧ made'.producer = made.producer ∧
      made'.out.take (made.frames * channels) = made.out.take (made.frames * channels)

/-- A producer with a list of what it was asked for: the length of each slice, and the channels. -/
structure Overheard (π : Type) where
  producer : π
  requests : List (Nat × Nat)

instance : Producer (Overheard π) σ where
  produce p out channels :=
    let made := Producer.produce p.producer out channels
    ⟨made.frames, made.out, ⟨made.producer, p.requests ++ [(out.length, channels)]⟩⟩
  length_produce p out channels := Producer.length_produce p.producer out channels

end Producers

theorem Cues.writesAnew {σ : Type} [Sample σ] {cue : Cue σ} {pending : List (Cue σ)}
    {channels n : Nat} (enough : min (cue.claim * channels) n ≤ cue.samples.length) :
    Producer.WritesAnew channels n (⟨cue :: pending⟩ : Cues σ) := by
  have written : ∀ slice : List σ, slice.length = n →
      (overwrite cue.samples slice).take (cue.claim * channels) =
        (cue.samples.take n).take (cue.claim * channels) := by
    intro slice length
    have none_left : (slice.drop cue.samples.length).take
        (cue.claim * channels - (cue.samples.take n).length) = [] := by
      rw [List.length_take]
      rcases Nat.lt_or_ge cue.samples.length n with short | all
      · rw [Nat.sub_eq_zero_of_le (by omega), List.take_zero]
      · rw [List.drop_of_length_le (length ▸ all), List.take_nil]
    rw [overwrite, length, List.take_append, none_left, List.append_nil]
  intro slice slice' length length'
  exact ⟨rfl, rfl, (written slice' length').trans (written slice length).symm⟩

namespace Adapter

variable {π σ : Type} [Sample σ]

def overheard (a : Adapter π σ) (requests : List (Nat × Nat)) : Adapter (Overheard π) σ :=
  { producer := ⟨a.producer, requests⟩, scratch := a.scratch, gain := a.gain }

def slice (a : Adapter π σ) (samples : Nat) : List σ :=
  (resize Sample.silence (max samples a.scratch.length) a.scratch).take samples

@[simp] theorem length_slice (a : Adapter π σ) (samples : Nat) :
    (a.slice samples).length = samples := by
  rw [slice, List.length_take, length_resize]
  omega

variable [Producer π σ] {p : Params}

theorem render_made (some_channel : 1 ≤ p.channels) (a : Adapter π σ) (out : List UInt8) :
    let frames := out.length / p.frameSize
    let made := Producer.produce a.producer (a.slice (frames * p.channels)) p.channels
    let n := min made.frames frames
    (a.render out p).frames = n ∧
      (a.render out p).out = (made.out.take (n * p.channels)).flatMap
        (convertSample p.format a.gain) ++ silence (out.length - n * p.frameSize) ∧
      (a.render out p).renderer.producer = made.producer ∧
      (a.render out p).renderer.gain = a.gain := by
  intro frames made n
  let fresh := made.out.take (n * p.channels)
  have some_frame : 0 < p.frameSize := Nat.mul_pos some_channel p.format.width_pos
  have within : n * p.channels ≤ frames * p.channels :=
    Nat.mul_le_mul_right _ (Nat.min_le_right _ _)
  have taken : fresh.length = n * p.channels := by
    rw [List.length_take, Producer.length_produce, length_slice, Nat.min_eq_left within]
  have bytes : fresh.length * p.format.width = n * p.frameSize := by
    rw [taken, Nat.mul_assoc]
    rfl
  have fits : fresh.length * p.format.width ≤ out.length :=
    calc fresh.length * p.format.width = n * p.frameSize := bytes
      _ ≤ frames * p.frameSize := Nat.mul_le_mul_right _ (Nat.min_le_right _ _)
      _ ≤ out.length := Nat.div_mul_le_self _ _
  have rendered : a.render out p =
      { frames := n
        out := (convert fresh p.format a.gain out).2.take
            ((convert fresh p.format a.gain out).1 * p.format.width) ++
          silence (out.length - (convert fresh p.format a.gain out).1 * p.format.width)
        renderer := (a.render out p).renderer } := by
    simp only [render, if_neg (Nat.ne_of_gt some_frame)]
    rfl
  have audible : (fresh.flatMap (convertSample p.format a.gain)).length =
      fresh.length * p.format.width := length_flatMap_convertSample _ _ _
  refine ⟨by rw [rendered], ?_, ?_, ?_⟩
  · rw [rendered, convert_fitting fits]
    dsimp only
    rw [List.take_left' audible, bytes]
  · simp only [render, if_neg (Nat.ne_of_gt some_frame)]
    rfl
  · simp only [render, if_neg (Nat.ne_of_gt some_frame)]

theorem render_overheard (some_channel : 1 ≤ p.channels) (a : Adapter π σ) (out : List UInt8)
    (requests : List (Nat × Nat)) :
    let asked := (out.length / p.frameSize * p.channels, p.channels)
    (a.overheard requests).render out p =
      ⟨(a.render out p).frames, (a.render out p).out,
        (a.render out p).renderer.overheard (requests ++ [asked])⟩ := by
  intro asked
  have some_frame : 0 < p.frameSize := Nat.mul_pos some_channel p.format.width_pos
  have length := length_slice a asked.1
  rw [slice] at length
  simp only [render, if_neg (Nat.ne_of_gt some_frame), overheard, Producer.produce]
  rw [length]

theorem render_anew (some_channel : 1 ≤ p.channels) {a : Adapter π σ} {out : List UInt8}
    (anew : Producer.WritesAnew p.channels (out.length / p.frameSize * p.channels) a.producer) :
    let frames := out.length / p.frameSize
    let made := Producer.produce a.producer
      (List.replicate (frames * p.channels) Sample.silence) p.channels
    let n := min made.frames frames
    (a.render out p).frames = n ∧
      (a.render out p).out = (made.out.take (n * p.channels)).flatMap
        (convertSample p.format a.gain) ++ silence (out.length - n * p.frameSize) ∧
      (a.render out p).renderer.producer = made.producer := by
  intro frames made n
  obtain ⟨claimed, producer, written⟩ := anew (List.replicate (frames * p.channels) Sample.silence)
    (a.slice (frames * p.channels)) List.length_replicate (length_slice _ _)
  obtain ⟨rendered, bytes, after, _⟩ := render_made some_channel a out
  have claims : n * p.channels ≤ made.frames * p.channels :=
    Nat.mul_le_mul_right _ (Nat.min_le_left _ _)
  -- No more is converted than was claimed, and all that was claimed is written anew.
  have fresh := congrArg (List.take (n * p.channels)) written
  rw [List.take_take, List.take_take, Nat.min_eq_left claims] at fresh
  rw [claimed] at rendered bytes
  refine ⟨rendered, ?_, after.trans producer⟩
  rw [bytes, ← fresh]

/-- A render asks its producer once, for as many frames as the buffer holds whole ones, and says
    how many it got, no more than that. Where the producer writes anew what it claims, the bytes of
    the buffer are the conversion of the frames it has just made and zeros behind them. So neither
    what the buffer held nor the scratch makes any difference. -/
theorem render_is_fresh_frames_and_silence (some_channel : 1 ≤ p.channels) (a : Adapter π σ)
    (out : List UInt8)
    (anew : Producer.WritesAnew p.channels (out.length / p.frameSize * p.channels) a.producer) :
    let frames := out.length / p.frameSize
    let made := Producer.produce a.producer
      (List.replicate (frames * p.channels) Sample.silence) p.channels
    let n := min made.frames frames
    let fresh := made.out.take (n * p.channels)
    let converted := convert fresh p.format a.gain (silence (n * p.frameSize))
    (a.render out p).frames = n ∧
    (a.render out p).out = converted.2 ++ silence (out.length - n * p.frameSize) ∧
    fresh.length = n * p.channels ∧ converted.1 = n * p.channels ∧
    (a.render out p).renderer.producer = made.producer ∧
    (∀ requests, (a.overheard requests).render out p =
      ⟨(a.render out p).frames, (a.render out p).out, (a.render out p).renderer.overheard
        (requests ++ [(frames * p.channels, p.channels)])⟩) ∧
    ∀ (scratch : List σ) (out' : List UInt8), out'.length = out.length →
      let again := render { a with scratch } out' p
      again.frames = (a.render out p).frames ∧ again.out = (a.render out p).out ∧
        again.renderer.producer = (a.render out p).renderer.producer := by
  intro frames made n fresh converted
  obtain ⟨rendered, bytes, after⟩ := render_anew some_channel anew
  have length : fresh.length = n * p.channels := by
    rw [List.length_take, Producer.length_produce, List.length_replicate]
    exact Nat.min_eq_left (Nat.mul_le_mul_right _ (Nat.min_le_right _ _))
  have sized : fresh.length * p.format.width = (silence (n * p.frameSize)).length := by
    rw [length, silence, List.length_replicate, Nat.mul_assoc]
    rfl
  have whole : converted =
      (n * p.channels, fresh.flatMap (convertSample p.format a.gain)) := by
    have all := convert_fitting (Nat.le_of_eq sized) a.gain
    rwa [sized, List.drop_length, List.append_nil, length] at all
  refine ⟨rendered, ?_, length, by rw [whole], after, ?_, ?_⟩
  · rw [bytes, whole]
  · exact render_overheard some_channel a out
  · intro scratch out' same again
    have anew' : Producer.WritesAnew p.channels (out'.length / p.frameSize * p.channels)
        a.producer := same ▸ anew
    obtain ⟨rendered', bytes', after'⟩ := render_anew some_channel (a := { a with scratch }) anew'
    rw [same] at rendered' bytes' after'
    exact ⟨rendered'.trans rendered.symm, bytes'.trans bytes.symm, after'.trans after.symm⟩

/-- Two frames are asked for and seven claimed. The buffer has both frames and three zeros, though
    it was full of ones and the scratch of nines. -/
theorem two_of_seven_claimed_frames :
    let p : Params := { sampleRate := 8000, channels := 2, format := .i16, bufferFrames := 4 }
    let cue : Cue Int16 := { samples := [1, 2, 3, 4, 5], claim := 7 }
    let a : Adapter (Cues Int16) Int16 :=
      { producer := ⟨[cue]⟩, scratch := [9, 9, 9, 9, 9, 9] }
    let out : List UInt8 := List.replicate 11 1
    1 ≤ p.channels ∧
      Producer.WritesAnew p.channels (out.length / p.frameSize * p.channels) a.producer ∧
      (a.render out p).frames = 2 ∧
      (a.render out p).out = [1, 0, 2, 0, 3, 0, 4, 0, 0, 0, 0] ∧
      (a.render out p).renderer.producer = ⟨[]⟩ := by
  intro p cue a out
  have anew : Producer.WritesAnew p.channels (out.length / p.frameSize * p.channels) a.producer :=
    Cues.writesAnew (by decide)
  obtain ⟨frames, bytes, _, _, producer, _⟩ :=
    render_is_fresh_frames_and_silence (p := p) (by decide) a out anew
  exact ⟨by decide, anew, frames.trans (by decide), bytes.trans (by decide +kernel), producer⟩

end Adapter

end PcmStream
