import PcmStream.Config
import PcmStream.Producer
import PcmStream.Sample.Convert

/- Renders a producer into the bytes of a stream: gain, conversion, and silence for what the
   producer did not deliver. The scratch samples only grow and keep what was last written. -/
namespace PcmStream

structure Adapter (π σ : Type) where
  producer : π
  scratch : List σ := []
  gain : Single := Single.one
  deriving Repr, DecidableEq

structure Rendered (ρ : Type) where
  frames : Nat
  out : List UInt8
  renderer : ρ

instance : Functor Rendered where
  map f r := ⟨r.frames, r.out, f r.renderer⟩

/-- What fills a byte buffer of a stream with frames. It is told the length of the buffer before, and
    takes the memory that it needs. -/
class Renderer (ρ : Type) where
  prepare : ρ → Nat → Params → Except Fault Unit
  render : ρ → List UInt8 → Params → Rendered ρ
  length_render : ∀ r out params, (render r out params).out.length = out.length

def resize {α : Type} (fill : α) (n : Nat) (xs : List α) : List α :=
  xs.take n ++ List.replicate (n - xs.length) fill

@[simp] theorem length_resize {α : Type} (fill : α) (n : Nat) (xs : List α) :
    (resize fill n xs).length = n := by
  simp [resize]
  omega

namespace Adapter

variable {π σ : Type} [Sample σ] [Producer π σ]

def reserved (producer : π) (frames channels : Nat) : Except Fault (Adapter π σ) := do
  let size ← mulWord frames channels
  allocate size (Sample.format σ).width
  return { producer, scratch := List.replicate size Sample.silence }

def renew (a : Adapter π σ) : Adapter π σ := { producer := a.producer }

/-- Scratch has to hold all samples of the buffer at once. -/
def prepare (a : Adapter π σ) (length : Nat) (params : Params) : Except Fault Unit :=
  let samples := length / params.frameSize * params.channels
  if a.scratch.length < samples then allocate samples (Sample.format σ).width else .ok ()

def render (a : Adapter π σ) (out : List UInt8) (params : Params) :
    Rendered (Adapter π σ) :=
  if params.frameSize = 0 then ⟨0, out, a⟩
  else
    let frames := out.length / params.frameSize
    let samples := frames * params.channels
    let scratch := resize Sample.silence (max samples a.scratch.length) a.scratch
    let made := Producer.produce a.producer (scratch.take samples) params.channels
    let produced := min made.frames frames
    let (converted, bytes) :=
      convert (made.out.take (produced * params.channels)) params.format a.gain out
    let audible := converted * params.format.width
    { frames := produced
      out := bytes.take audible ++ silence (out.length - audible)
      renderer :=
        { a with producer := made.producer, scratch := made.out ++ scratch.drop samples } }

theorem length_render (a : Adapter π σ) (out : List UInt8) (params : Params) :
    (a.render out params).out.length = out.length := by
  unfold render
  split
  · rfl
  · simp only [List.length_append, List.length_take, length_convert, silence,
      List.length_replicate]
    omega

instance : Renderer (Adapter π σ) where
  prepare := prepare
  render := render
  length_render := length_render

end Adapter

end PcmStream
