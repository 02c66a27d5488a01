import PcmStream.Callback
import PcmStream.Proofs.FreshFrames
import PcmStream.Proofs.ProducerRuns

/- Rendering does not depend on how a stream is cut up: neither on the number of frames that are asked for
   at a time, nor on what the buffer or the scratch held before. -/
namespace PcmStream

def Renderer.chunk {ρ : Type} [Renderer ρ] (r : ρ) (p : Params) (n : Nat) : List UInt8 :=
  (Renderer.render r (silence (n * p.frameSize)) p).out

/-- A good renderer stays good, and what it renders after `n` frames goes on from there. -/
structure Seamless {ρ : Type} [Renderer ρ] (p : Params) (good : ρ → Prop) : Prop where
  plain : ∀ {r}, good r → ∀ {n out}, out.length = n * p.frameSize →
    (Renderer.render r out p).out = Renderer.chunk r p n
  stays : ∀ {r}, good r → ∀ {n out}, out.length = n * p.frameSize →
    good (Renderer.render r out p).renderer
  add : ∀ {r}, good r → ∀ {n out}, out.length = n * p.frameSize → ∀ m,
    Renderer.chunk r p (n + m) =
      Renderer.chunk r p n ++ Renderer.chunk (Renderer.render r out p).renderer p m

structure Renderer.After {ρ : Type} [Renderer ρ] (p : Params) (good : ρ → Prop) (r₀ : ρ) (n : Nat)
    (r : ρ) : Prop where
  good : good r
  rest : ∀ m, Renderer.chunk r₀ p (n + m) = Renderer.chunk r₀ p n ++ Renderer.chunk r p m

namespace Renderer

variable {ρ : Type} [Renderer ρ] {p : Params} {good : ρ → Prop} {r₀ r : ρ} {n m : Nat}

@[simp] theorem length_chunk (r : ρ) (p : Params) (n : Nat) :
    (chunk r p n).length = n * p.frameSize := by
  rw [chunk, length_render, silence, List.length_replicate]

theorem chunk_zero (r : ρ) (p : Params) : chunk r p 0 = [] := by
  apply List.eq_nil_of_length_eq_zero
  rw [length_chunk, Nat.zero_mul]

theorem After.start (h : good r) : After p good r 0 r := by
  constructor
  · exact h
  · intro m
    rw [chunk_zero, Nat.zero_add, List.nil_append]

theorem After.next (seamless : Seamless p good) (h : After p good r₀ n r) {out : List UInt8}
    (sized : out.length = m * p.frameSize) :
    After p good r₀ (n + m) (render r out p).renderer ∧
      chunk r₀ p (n + m) = chunk r₀ p n ++ (render r out p).out := by
  have joined : chunk r₀ p (n + m) = chunk r₀ p n ++ (render r out p).out := by
    rw [h.rest, seamless.plain h.good sized]
  refine ⟨⟨seamless.stays h.good sized, ?_⟩, joined⟩
  intro k
  rw [Nat.add_assoc, h.rest, seamless.add h.good sized, joined, seamless.plain h.good sized,
    List.append_assoc]

theorem chunk_leads (seamless : Seamless p good) (h : good r) (le : n ≤ m) :
    chunk r p n <+: chunk r p m := by
  obtain ⟨k, rfl⟩ := Nat.exists_eq_add_of_le le
  have sized : (silence (n * p.frameSize)).length = n * p.frameSize := by simp [silence]
  rw [seamless.add h sized]
  exact List.prefix_append _ _

/-- The device buffers `all` are what `r₀` renders, one after the other up to where `r` is. -/
structure Fills (p : Params) (good : ρ → Prop) (r₀ r : ρ) (all : List (List UInt8)) : Prop where
  whole : ∀ b ∈ all, b.length = p.bufferFrames * p.frameSize
  joined : all.flatten = chunk r₀ p (all.length * p.bufferFrames)
  after : After p good r₀ (all.length * p.bufferFrames) r

variable {all : List (List UInt8)}

theorem Fills.nil (h : good r) : Fills p good r r [] := by
  constructor
  · simp
  · simp [chunk_zero]
  · simpa using After.start h

theorem Fills.snoc (seamless : Seamless p good) (h : Fills p good r₀ r all) {out : List UInt8}
    (sized : out.length = p.bufferFrames * p.frameSize) :
    Fills p good r₀ (render r out p).renderer (all ++ [(render r out p).out]) := by
  obtain ⟨after, joined⟩ := h.after.next seamless sized
  have frames : (all ++ [(render r out p).out]).length * p.bufferFrames =
      all.length * p.bufferFrames + p.bufferFrames := by
    rw [List.length_append, List.length_singleton, Nat.add_mul, Nat.one_mul]
  constructor
  · intro b mem
    rcases List.mem_append.mp mem with earlier | last
    · exact h.whole b earlier
    · rw [List.mem_singleton.mp last, length_render, sized]
  · rw [frames, joined, List.flatten_append, h.joined, List.flatten_singleton]
  · rw [frames]
    exact after

theorem Fills.take (seamless : Seamless p good) (h₀ : good r₀) (h : Fills p good r₀ r all) {k : Nat}
    (some_of : k ≤ all.length) : (all.take k).flatten = chunk r₀ p (k * p.bufferFrames) := by
  have leads := chunk_leads seamless h₀ (Nat.mul_le_mul_right p.bufferFrames some_of)
  have begins : (all.take k).flatten <+: all.flatten := by
    conv => rhs; rw [← List.take_append_drop k all, List.flatten_append]
    exact List.prefix_append _ _
  have sizes : (all.take k).map List.length = List.replicate k (p.bufferFrames * p.frameSize) := by
    apply List.eq_replicate_iff.mpr
    constructor
    · rw [List.length_map, List.length_take, Nat.min_eq_left some_of]
    · intro size mem
      obtain ⟨b, taken, rfl⟩ := List.mem_map.mp mem
      exact h.whole b (List.mem_of_mem_take taken)
  have same : (all.take k).flatten.length = (chunk r₀ p (k * p.bufferFrames)).length := by
    rw [List.length_flatten, sizes, List.sum_replicate_nat, length_chunk, Nat.mul_assoc]
  rw [h.joined] at begins
  exact (List.prefix_of_prefix_length_le begins leads (Nat.le_of_eq same)).eq_of_length same

end Renderer

namespace Adapter

variable {π σ : Type} [Sample σ] [Producer π σ] {p : Params} {good : π → Prop}
  {play : Nat → π → List σ × π} {n : Nat}

def sound (play : Nat → π → List σ × π) (p : Params) (n : Nat) (a : Adapter π σ) : List UInt8 :=
  let played := (play n a.producer).1
  played.flatMap (convertSample p.format a.gain) ++
    silence (n * p.frameSize - played.length * p.format.width)

theorem render_played (steady : Steady p.channels good play) (some_channel : 0 < p.channels)
    {a : Adapter π σ} (h : good a.producer) (out : List UInt8) :
    let ran := play (out.length / p.frameSize) a.producer
    (a.render out p).frames = ran.1.length / p.channels ∧
      (a.render out p).out = ran.1.flatMap (convertSample p.format a.gain) ++
        silence (out.length - ran.1.length * p.format.width) ∧
      (a.render out p).renderer.producer = ran.2 ∧ (a.render out p).renderer.gain = a.gain := by
  intro ran
  have within := steady.within h (out.length / p.frameSize)
  have claimed : ran.1.length / p.channels ≤ out.length / p.frameSize :=
    Nat.div_le_of_le_mul (by rwa [Nat.mul_comm])
  have back : ran.1.length / p.channels * p.channels = ran.1.length :=
    Nat.div_mul_cancel (steady.whole h _)
  have bytes : ran.1.length / p.channels * p.frameSize = ran.1.length * p.format.width := by
    rw [Params.frameSize, ← Nat.mul_assoc, back]
  have written : (overwrite ran.1 (a.slice (out.length / p.frameSize * p.channels))).take
      ran.1.length = ran.1 := by
    rw [overwrite, length_slice, List.take_of_length_le within, List.take_left']
    rfl
  obtain ⟨frames, rendered, producer, gain⟩ := render_made some_channel a out
  have produced : Producer.produce a.producer (a.slice (out.length / p.frameSize * p.channels))
      p.channels = ⟨ran.1.length / p.channels, overwrite ran.1 (a.slice _), ran.2⟩ :=
    steady.produce h (length_slice a _)
  rw [produced] at frames rendered producer
  refine ⟨frames.trans (Nat.min_eq_left claimed), ?_, producer, gain⟩
  rw [rendered]
  dsimp only
  rw [Nat.min_eq_left claimed, back, bytes, written]

theorem render_steady (steady : Steady p.channels good play) (some_channel : 0 < p.channels)
    {a : Adapter π σ} (h : good a.producer) {out : List UInt8}
    (sized : out.length = n * p.frameSize) :
    (a.render out p).out = a.sound play p n ∧
      (a.render out p).renderer.producer = (play n a.producer).2 ∧
      (a.render out p).renderer.gain = a.gain := by
  have some_frame : 0 < p.frameSize := Nat.mul_pos some_channel p.format.width_pos
  have frames : out.length / p.frameSize = n := by rw [sized, Nat.mul_div_cancel _ some_frame]
  obtain ⟨_, rendered, producer, gain⟩ := render_played steady some_channel h out
  rw [frames] at rendered producer
  rw [sized] at rendered
  exact ⟨rendered, producer, gain⟩

theorem chunk_eq (steady : Steady p.channels good play) (some_channel : 0 < p.channels)
    {a : Adapter π σ} (h : good a.producer) (n : Nat) : Renderer.chunk a p n = a.sound play p n :=
  (render_steady steady some_channel h (by simp [silence])).1

theorem chunk_congr (steady : Steady p.channels good play) (some_channel : 0 < p.channels)
    {a b : Adapter π σ} (h : good a.producer) (producer : b.producer = a.producer)
    (gain : b.gain = a.gain) (n : Nat) : Renderer.chunk b p n = Renderer.chunk a p n := by
  rw [chunk_eq steady some_channel h, chunk_eq steady some_channel (producer ▸ h), sound, sound,
    producer, gain]

theorem sound_add (steady : Steady p.channels good play) {a b : Adapter π σ} (h : good a.producer)
    (producer : b.producer = (play n a.producer).2) (gain : b.gain = a.gain) (m : Nat) :
    a.sound play p (n + m) = a.sound play p n ++ b.sound play p m := by
  have parts := steady.add h n m
  have bytes : n * p.channels * p.format.width = n * p.frameSize := Nat.mul_assoc _ _ _
  have within := Nat.mul_le_mul_right p.format.width (steady.within h n)
  unfold sound
  simp only [parts, producer, gain, List.flatMap_append, List.length_append, Nat.add_mul]
  by_cases short : (play n a.producer).1.length < n * p.channels
  · -- Nothing is played any more, and the silence goes on from the first chunk into the second.
    have joined : n * p.frameSize + m * p.frameSize - (play n a.producer).1.length * p.format.width =
        (n * p.frameSize - (play n a.producer).1.length * p.format.width) + m * p.frameSize := by
      omega
    simp only [steady.ends h short m, List.flatMap_nil, List.append_nil, List.length_nil,
      Nat.zero_mul, Nat.add_zero, Nat.sub_zero, List.nil_append, joined, silence,
      List.append_assoc, List.replicate_append_replicate]
  · have full : (play n a.producer).1.length * p.format.width = n * p.frameSize := by
      rw [← bytes, Nat.le_antisymm (steady.within h n) (Nat.le_of_not_lt short)]
    simp only [full, Nat.sub_self, Nat.add_sub_add_left, silence, List.replicate_zero,
      List.append_nil, List.append_assoc]

theorem seamless (steady : Steady p.channels good play) (some_channel : 0 < p.channels) :
    Seamless p (fun a : Adapter π σ => good a.producer) := by
  constructor
  · intro a h n out sized
    rw [chunk_eq steady some_channel h]
    exact (render_steady steady some_channel h sized).1
  · intro a h n out sized
    have next := (render_steady steady some_channel h sized).2.1
    change good (a.render out p).renderer.producer
    rw [next]
    exact steady.stays h n
  · intro a h n out sized m
    obtain ⟨_, producer, gain⟩ := render_steady steady some_channel h sized
    have good' : good (a.render out p).renderer.producer := by
      rw [producer]
      exact steady.stays h n
    rw [chunk_eq steady some_channel h, chunk_eq steady some_channel h]
    exact (sound_add steady h producer gain m).trans
      (congrArg _ (chunk_eq steady some_channel good' m).symm)

end Adapter

namespace Voice

def Whole (channels : Nat) : Voice → Prop
  | tone _ => True
  | single a => a.producer.Whole channels
  | int16 a => a.producer.Whole channels
  | int32 a => a.producer.Whole channels

def fresh (v : Voice) : Voice := v.renew.setGain v.gain

/-- What a fresh copy of the voice makes of `n` frames at once. -/
def audio (v : Voice) (p : Params) (n : Nat) : List UInt8 := Renderer.chunk v.fresh p n

variable {p : Params}

theorem seamless (some_channel : 0 < p.channels) : Seamless p (Whole p.channels) := by
  have tones := Adapter.seamless (p := p) (Tone.steady some_channel) some_channel
  have singles := Adapter.seamless (p := p) (Stock.steady (σ := Single) some_channel) some_channel
  have shorts := Adapter.seamless (p := p) (Stock.steady (σ := Int16) some_channel) some_channel
  have longs := Adapter.seamless (p := p) (Stock.steady (σ := Int32) some_channel) some_channel
  constructor
  · intro v whole n out sized
    cases v with
    | tone a => exact tones.plain trivial sized
    | single a => exact singles.plain whole sized
    | int16 a => exact shorts.plain whole sized
    | int32 a => exact longs.plain whole sized
  · intro v whole n out sized
    cases v with
    | tone a => trivial
    | single a => exact singles.stays whole sized
    | int16 a => exact shorts.stays whole sized
    | int32 a => exact longs.stays whole sized
  · intro v whole n out sized m
    cases v with
    | tone a => exact tones.add trivial sized m
    | single a => exact singles.add whole sized m
    | int16 a => exact shorts.add whole sized m
    | int32 a => exact longs.add whole sized m

theorem audio_eq (some_channel : 0 < p.channels) {v : Voice} (whole : v.Whole p.channels) (n : Nat) :
    v.audio p n = Renderer.chunk v p n := by
  have same : ∀ {π σ : Type} [Sample σ] [Producer π σ] {good : π → Prop} {play},
      Steady p.channels good play → ∀ {a : Adapter π σ}, good a.producer →
      Renderer.chunk ({ producer := a.producer, gain := a.gain } : Adapter π σ) p n =
        Renderer.chunk a p n := by
    intro π σ _ _ good play steady a h
    apply Adapter.chunk_congr steady some_channel h
    · rfl
    · rfl
  cases v with
  | tone a => exact same (Tone.steady some_channel) (a := a) trivial
  | single a => exact same (Stock.steady some_channel) whole
  | int16 a => exact same (Stock.steady some_channel) whole
  | int32 a => exact same (Stock.steady some_channel) whole

end Voice

end PcmStream
