import PcmStream.Proofs.ClipSamples
import PcmStream.Proofs.FullScale
import PcmStream.Proofs.RenderedFrames

/- What a push of samples brings to a session. It is a push of bytes, and what was staged before has
   no part in it. The bytes are those of a conversion at unit gain, as a renderer makes them, but for
   singles in a session of singles: these are pushed as they are, also beyond full scale. -/
namespace PcmStream

theorem take_flatMap_sized {σ : Type} {f : σ → List UInt8} {width : Nat}
    (sized : ∀ x, (f x).length = width) (xs : List σ) (n : Nat) :
    (xs.flatMap f).take (n * width) = (xs.take n).flatMap f := by
  induction xs generalizing n with
  | nil => simp
  | cons x xs ih =>
    cases n with
    | zero => simp
    | succ n =>
      have first : (n + 1) * width = (f x).length + n * width := by
        rw [sized, Nat.succ_mul, Nat.add_comm]
      rw [List.flatMap_cons, first, List.take_length_add_append, ih, List.take_succ_cons,
        List.flatMap_cons]

namespace Params

variable {σ : Type} [Sample σ]

def whole (p : Params) (samples : List σ) : List σ :=
  samples.take (samples.length / p.channels * p.channels)

def converted (p : Params) (samples : List σ) : List UInt8 :=
  (convert samples p.format Single.one (silence (samples.length * p.format.width))).2

def encoding (p : Params) (samples : List σ) : List UInt8 :=
  if Sample.format σ = p.format then samples.flatMap Sample.bytes else p.converted samples

theorem converted_eq (p : Params) (samples : List σ) :
    p.converted samples = samples.flatMap (convertSample p.format Single.one) :=
  Session.convert_all samples p.format Single.one (List.length_replicate ..)

theorem encoding_raw {p : Params} (same : Sample.format σ = p.format) (samples : List σ) :
    p.encoding samples = samples.flatMap Sample.bytes := if_pos same

theorem encoding_other {p : Params} (other : Sample.format σ ≠ p.format) (samples : List σ) :
    p.encoding samples = p.converted samples := if_neg other

theorem length_converted (p : Params) (samples : List σ) :
    (p.converted samples).length = samples.length * p.format.width := by
  rw [converted_eq, length_flatMap_convertSample]

theorem length_encoding (p : Params) (samples : List σ) :
    (p.encoding samples).length = samples.length * p.format.width := by
  by_cases same : Sample.format σ = p.format
  · rw [encoding_raw same, List.length_flatMap]
    simp [Sample.length_bytes, same]
  · rw [encoding_other same, length_converted]

@[simp] theorem encoding_nil (p : Params) : p.encoding ([] : List σ) = [] :=
  List.eq_nil_of_length_eq_zero (by rw [length_encoding, List.length_nil, Nat.zero_mul])

theorem encoding_append (p : Params) (xs ys : List σ) :
    p.encoding (xs ++ ys) = p.encoding xs ++ p.encoding ys := by
  by_cases same : Sample.format σ = p.format
  · simp only [encoding_raw same, List.flatMap_append]
  · simp only [encoding_other same, converted_eq, List.flatMap_append]

theorem take_converted (p : Params) (samples : List σ) (n : Nat) :
    (p.converted samples).take (n * p.format.width) = p.converted (samples.take n) := by
  rw [converted_eq, converted_eq, take_flatMap_sized (length_convertSample _ _)]

theorem take_encoding (p : Params) (samples : List σ) (n : Nat) :
    (p.encoding samples).take (n * p.format.width) = p.encoding (samples.take n) := by
  by_cases same : Sample.format σ = p.format
  · rw [encoding_raw same, encoding_raw same, ← same, take_flatMap_sized Sample.length_bytes]
  · rw [encoding_other same, encoding_other same, take_converted]

theorem take_whole {p : Params} {samples : List σ} {n : Nat}
    (fits : n * p.frameSize ≤ (p.encoding (p.whole samples)).length) :
    n * p.channels ≤ samples.length ∧
      (p.encoding (p.whole samples)).take (n * p.frameSize) =
        p.encoding (samples.take (n * p.channels)) := by
  rw [length_encoding, frameSize, ← Nat.mul_assoc] at fits
  have within : n * p.channels ≤ (p.whole samples).length :=
    Nat.le_of_mul_le_mul_right fits p.format.width_pos
  rw [whole, List.length_take] at within
  constructor
  · omega
  · rw [frameSize, ← Nat.mul_assoc, take_encoding, whole, List.take_take,
      Nat.min_eq_left (by omega)]

theorem encoding_next (p : Params) {samples : List σ} {n m more : Nat}
    (fits : more * p.channels ≤ ((samples.drop (m * p.channels)).take n).length)
    (within : m * p.channels ≤ samples.length) :
    (m + more) * p.channels ≤ samples.length ∧
      p.encoding (samples.take (m * p.channels)) ++
        p.encoding (((samples.drop (m * p.channels)).take n).take (more * p.channels)) =
        p.encoding (samples.take ((m + more) * p.channels)) := by
  rw [List.length_take, List.length_drop] at fits
  rw [Nat.add_mul]
  constructor
  · omega
  · rw [List.take_take, Nat.min_eq_left (by omega), ← encoding_append, List.take_add]

theorem encoding_eq_converted (p : Params) (integers : Sample.format σ ≠ .f32 ∨ p.format ≠ .f32)
    (samples : List σ) : p.encoding samples = p.converted samples := by
  by_cases same : Sample.format σ = p.format
  · have kept : p.format ≠ .f32 := integers.elim (fun other => same ▸ other) id
    rw [encoding_raw same, converted_eq, convertSample_integers same kept]
  · exact encoding_other same samples

theorem encoding_singles_iff {p : Params} (singles : p.format = .f32) (samples : List Single) :
    p.encoding samples = p.converted samples ↔ ∀ x ∈ samples, x.Kept := by
  have same : Sample.format Single = p.format := singles.symm
  rw [encoding_raw same, converted_eq, singles, eq_comm]
  exact convert_singles_iff

end Params

theorem Clip.run_once {σ : Type} (samples : List σ) (channels n : Nat) :
    (({ data := samples } : Clip σ).run channels n).1 =
      (samples.take (samples.length / channels * channels)).take (n * channels) := by
  let c : Clip σ := { data := samples }
  change (c.run channels n).1 = (c.data.take (c.playable channels)).take (n * channels)
  by_cases silent : c.playable channels = 0
  · simp [run, silent]
  · rw [run_sounding silent, play_once (Nat.pos_of_ne_zero silent) rfl (Nat.zero_le _)]
    dsimp only
    rw [List.drop_zero, Nat.sub_zero, List.take_take]

theorem Adapter.chunk_once {σ : Type} [Sample σ] {p : Params} (some_channel : 0 < p.channels)
    {a : Adapter (Clip σ) σ} {samples : List σ} (clip : a.producer = { data := samples })
    (unit : a.gain = Single.one) (n : Nat) :
    Renderer.chunk a p n = resize 0 (n * p.frameSize) (p.converted (p.whole samples)) := by
  have aligned : p.channels ∣ a.producer.position := clip ▸ Nat.dvd_zero _
  have played : (a.producer.run p.channels n).1 = (p.whole samples).take (n * p.channels) := by
    rw [clip, Clip.run_once]
    rfl
  have bytes : n * p.channels * p.format.width = n * p.frameSize := Nat.mul_assoc _ _ _
  have front : ((p.whole samples).take (n * p.channels)).flatMap
      (convertSample p.format Single.one) =
        (p.converted (p.whole samples)).take (n * p.frameSize) := by
    rw [← bytes, Params.take_converted, Params.converted_eq]
  rw [chunk_eq (Clip.steady some_channel) some_channel aligned, sound, played, unit, front, resize,
    silence, List.length_take, Params.length_converted, ← bytes, Nat.min_def]
  split
  · rename_i less
    rw [Nat.sub_self, Nat.sub_eq_zero_of_le (Nat.mul_le_mul_right _ less)]
  · rfl

namespace Session

variable {δ κ : Type} [Device δ]

def unstaged (s : Session δ κ) : Session δ κ := { s with staging := [] }

/-- The outcome of a call is that of a push of `bytes`, but for what is staged after it. -/
structure Pushes (s : Session δ κ) (bytes : List UInt8) (pushed : Except Fault Nat × Session δ κ) :
    Prop where
  result : pushed.1 = (s.push bytes).1
  after : pushed.2.unstaged = (s.push bytes).2.unstaged

theorem enqueue_staged (s : Session δ κ) (staging : List UInt8) (d : δ) (bytes : List UInt8)
    (frames : Nat) : enqueue { s with staging } d bytes frames =
      ((s.enqueue d bytes frames).1, { (s.enqueue d bytes frames).2 with staging }) := by
  unfold enqueue
  dsimp only [journal, metrics]
  split
  · rfl
  · rfl
  · split <;> rfl

theorem place_staged (s : Session δ κ) (staging bytes : List UInt8) (frames : Nat) :
    place { s with staging } bytes frames =
      ((s.place bytes frames).1, { (s.place bytes frames).2 with staging }) := by
  unfold place
  dsimp only [fifo, journal]
  split
  · split
    · rfl
    · split <;> rfl
  · split
    · rfl
    · exact enqueue_staged s staging _ bytes _
  · rfl

theorem push_staged (s : Session δ κ) (staging bytes : List UInt8) :
    push { s with staging } bytes = ((s.push bytes).1, { (s.push bytes).2 with staging }) := by
  unfold push
  dsimp only
  split
  · rfl
  · rw [place_staged]
    rcases s.place bytes (bytes.length / s.params.frameSize) with ⟨f | n, s'⟩
    · rfl
    · rfl

theorem pushStaged_pushes (s : Session δ κ) (bytes : List UInt8) :
    s.Pushes bytes (s.pushStaged bytes) := by
  unfold pushStaged
  rw [push_staged]
  rcases pushed : s.push bytes with ⟨f | n, s'⟩
  · exact ⟨by rw [pushed], by rw [pushed]; rfl⟩
  · exact ⟨by rw [pushed], by rw [pushed]; rfl⟩

theorem pushTyped_pushes {σ : Type} [Sample σ] (s : Session δ κ) (samples : List σ) :
    s.Pushes (s.params.encoding (s.params.whole samples)) (s.pushTyped samples) := by
  let whole := s.params.whole samples
  by_cases same : Sample.format σ = s.params.format
  · have raw : s.pushTyped samples = s.push (whole.flatMap Sample.bytes) := if_pos same
    rw [raw, Params.encoding_raw same]
    exact ⟨rfl, rfl⟩
  · have staged : s.pushTyped samples = s.pushStaged (whole.flatMap
        (convertSample s.params.format Single.one)) := by
      simp only [pushTyped, if_neg same]
      rw [convert_all _ _ _ (length_resize 0 _ s.staging)]
      rfl
    rw [staged, Params.encoding_other same, Params.converted_eq]
    exact pushStaged_pushes s _

theorem push_places (s : Session δ κ) {bytes : List UInt8} {frames : Nat} (some_frames : frames ≠ 0)
    (counted : bytes.length / s.params.frameSize = frames) :
    (s.push bytes).1 = (s.place bytes frames).1 ∧
      (s.push bytes).2.fifo = (s.place bytes frames).2.fifo ∧
      (s.push bytes).2.journal = (s.place bytes frames).2.journal := by
  simp only [push, counted, if_neg some_frames]
  rcases s.place bytes frames with ⟨f | n, s'⟩
  · exact ⟨rfl, rfl, rfl⟩
  · exact ⟨rfl, rfl, rfl⟩

theorem pushRendered_pushes {ρ : Type} [Renderer ρ] {s : Session δ κ} {r : ρ} (busy : ¬ s.Idle r)
    (some_frame : 0 < s.params.frameSize) (took : Nat) :
    let pushed := (s.advance took).push (s.made r).out
    (s.pushRendered r took).1 = pushed.1 ∧
      (s.pushRendered r took).2.1.fifo = pushed.2.fifo ∧
      (s.pushRendered r took).2.1.journal.calls = pushed.2.journal.calls := by
  obtain ⟨result, _, fifo', calls⟩ := pushRendered_places busy some_frame took
  have frames : (s.made r).out.length / (s.advance took).params.frameSize = s.room := by
    rw [length_made, advance_params, Nat.mul_div_cancel _ some_frame]
  obtain ⟨result', fifo'', journal'⟩ := push_places (s.advance took) (not_or.mp busy).1 frames
  rw [place_staged] at result fifo' calls
  exact ⟨result.trans result'.symm, fifo'.trans fifo''.symm,
    calls.trans (congrArg Journal.calls journal').symm⟩

theorem made_once {σ : Type} [Sample σ] {s : Session δ κ} (some_channel : 0 < s.params.channels)
    {a : Adapter (Clip σ) σ} {samples : List σ} (clip : a.producer = { data := samples })
    (unit : a.gain = Single.one) :
    (s.made a).out = resize 0 (s.room * s.params.frameSize)
      (s.params.converted (s.params.whole samples)) := by
  have aligned : s.params.channels ∣ a.producer.position := clip ▸ Nat.dvd_zero _
  have seamless := Adapter.seamless (p := s.params) (Clip.steady (σ := σ) some_channel) some_channel
  rw [made, seamless.plain aligned (length_resize ..)]
  exact Adapter.chunk_once some_channel clip unit _

/-- Unless singles are pushed to a session of singles, a push of samples is a push of the bytes that
    a conversion at unit gain writes for their whole frames. Such singles are pushed as they are,
    and these are the bytes of the conversion just if each of them is kept by it. What is rendered
    from a clip of the samples at unit gain is the conversion in any case. That it keeps a quiet NaN,
    and quiets any other, rests on the rule of `Binary.combine`, which a platform may not follow. -/
theorem typed_pushes_are_conversions {σ : Type} [Sample σ] (s : Session δ κ)
    (some_channel : 1 ≤ s.params.channels) (samples : List σ) :
    let p := s.params
    (Sample.format σ ≠ .f32 ∨ p.format ≠ .f32 →
      s.Pushes (p.converted (p.whole samples)) (s.pushTyped samples)) ∧
    (p.format = .f32 → ∀ singles : List Single,
      let raw := (p.whole singles).flatMap Sample.bytes
      s.Pushes raw (s.pushTyped singles) ∧
        (raw = p.converted (p.whole singles) ↔ ∀ x ∈ p.whole singles, x.Kept)) ∧
    ∀ a : Adapter (Clip σ) σ, a.producer = { data := samples } → a.gain = Single.one →
      ¬ s.Idle a → ∀ took : Nat,
      let out := resize 0 (s.room * p.frameSize) (p.converted (p.whole samples))
      let pushed := (s.advance took).push out
      (s.pushRendered a took).1 = pushed.1 ∧
        (s.pushRendered a took).2.1.fifo = pushed.2.fifo ∧
        (s.pushRendered a took).2.1.journal.calls = pushed.2.journal.calls := by
  intro p
  refine ⟨?_, ?_, ?_⟩
  · intro integers
    rw [← p.encoding_eq_converted integers]
    exact pushTyped_pushes s samples
  · intro singles xs raw
    have same : Sample.format Single = p.format := singles.symm
    have encoded : raw = p.encoding (p.whole xs) := (Params.encoding_raw same _).symm
    rw [encoded]
    exact ⟨pushTyped_pushes s xs, Params.encoding_singles_iff singles _⟩
  · intro a clip unit busy took out
    have some_frame : 0 < p.frameSize := Nat.mul_pos some_channel p.format.width_pos
    have made : (s.made a).out = out := made_once some_channel clip unit
    rw [← made]
    exact pushRendered_pushes busy some_frame took

/-- A frame of shorts and half a frame come as singles; two singles within full scale come as they
    are. A clip of the shorts comes with silence behind its frame. -/
theorem shorts_come_as_singles :
    let config : Config := { channels := 2, bufferFrames := 4, packetFrames := 2, format := .f32 }
    let shorts : List Int16 := [32767, -32767, 5]
    let singles : List Single := [Single.half, Single.minusOne]
    let a : Adapter (Clip Int16) Int16 := { producer := { data := shorts } }
    ∃ s₀ : Session ScriptedDevice StockCallback,
      start config .queue { free := 2 } {} = .session s₀ ∧ 1 ≤ s₀.params.channels ∧
      s₀.Pushes [0, 0, 128, 63, 0, 0, 128, 191] (s₀.pushTyped shorts) ∧
      s₀.Pushes [0, 0, 0, 63, 0, 0, 128, 191] (s₀.pushTyped singles) ∧
      (s₀.pushRendered a 0).2.1.journal.calls =
        (s₀.push [0, 0, 128, 63, 0, 0, 128, 191, 0, 0, 0, 0, 0, 0, 0, 0]).2.journal.calls := by
  intro config shorts singles a
  let opened : Opening ScriptedDevice StockCallback := start config .queue { free := 2 } {}
  have evaluated : opened.session?.map (fun s₀ => (s₀.params.channels, s₀.params.format,
      s₀.params.converted (s₀.params.whole shorts),
      (s₀.params.whole singles).flatMap Sample.bytes, s₀.room, s₀.params.frameSize)) =
      some (2, .f32, [0, 0, 128, 63, 0, 0, 128, 191], [0, 0, 0, 63, 0, 0, 128, 191], 2, 8) := by
    decide +kernel
  have measured : opened.session?.map (·.measure a) = some (.ok 16) := by decide +kernel
  obtain ⟨s₀, found, values⟩ := Option.map_eq_some_iff.mp evaluated
  simp only [Prod.mk.injEq] at values
  obtain ⟨channels, format, converted, raw, room, frame⟩ := values
  rw [found, Option.map_some, Option.some.injEq] at measured
  have some_channel : 1 ≤ s₀.params.channels := by
    rw [channels]
    decide
  have busy : ¬ s₀.Idle a := busy_of_measured (by simp [room]) measured
  obtain ⟨of_shorts, of_singles, rendered⟩ := typed_pushes_are_conversions s₀ some_channel shorts
  obtain ⟨_, _, calls⟩ := rendered a rfl rfl busy 0
  have pushed := of_shorts (.inl (by decide))
  have pushed' := (of_singles format singles).1
  rw [converted] at pushed
  rw [raw] at pushed'
  rw [converted, room, frame, advance_zero] at calls
  exact ⟨s₀, Opening.eq_of_session? found, some_channel, pushed, pushed', calls⟩

/-- A single of two comes to the device as it is, where the conversion makes it one. -/
theorem loud_single_is_not_cut :
    let config : Config := { bufferFrames := 4, packetFrames := 2, format := .f32 }
    let loud : Single := ⟨0x40000000⟩
    ∃ s₀ : Session ScriptedDevice StockCallback,
      start config .queue { free := 4 } {} = .session s₀ ∧
      (s₀.pushTyped [loud]).2.journal.calls =
        [.opened config.params, .wrote 1 [0, 0, 0, 64] (.ok 1)] ∧
      s₀.params.converted (s₀.params.whole [loud]) = [0, 0, 128, 63] ∧
      ¬ s₀.Pushes (s₀.params.converted (s₀.params.whole [loud])) (s₀.pushTyped [loud]) := by
  intro config loud
  let opened : Opening ScriptedDevice StockCallback := start config .queue { free := 4 } {}
  have evaluated : opened.session?.map (fun s₀ => ((s₀.pushTyped [loud]).2.journal.calls,
      s₀.params.converted (s₀.params.whole [loud]),
      (s₀.push [0, 0, 128, 63]).2.journal.calls)) =
      some ([.opened config.params, .wrote 1 [0, 0, 0, 64] (.ok 1)], [0, 0, 128, 63],
        [.opened config.params, .wrote 1 [0, 0, 128, 63] (.ok 1)]) := by decide +kernel
  obtain ⟨s₀, found, values⟩ := Option.map_eq_some_iff.mp evaluated
  simp only [Prod.mk.injEq] at values
  obtain ⟨typed, converted, cut⟩ := values
  refine ⟨s₀, Opening.eq_of_session? found, typed, converted, ?_⟩
  intro pushes
  have same : (s₀.pushTyped [loud]).2.journal.calls =
      (s₀.push [0, 0, 128, 63]).2.journal.calls := by
    rw [converted] at pushes
    exact congrArg (fun s => s.journal.calls) pushes.after
  rw [typed, cut] at same
  exact absurd same (by decide)

end Session

end PcmStream
