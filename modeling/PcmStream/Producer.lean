import PcmStream.Sample

/- A producer is asked to fill a list with interleaved samples and claims a number of frames. The
   claim is its own word: it may exceed what was asked for or what was written. -/
namespace PcmStream

structure Produced (π σ : Type) where
  frames : Nat
  out : List σ
  producer : π

class Producer (π : Type) (σ : outParam Type) [Sample σ] where
  produce : π → List σ → Nat → Produced π σ
  length_produce : ∀ p out channels, (produce p out channels).out.length = out.length

def overwrite {σ : Type} (written out : List σ) : List σ :=
  written.take out.length ++ out.drop written.length

@[simp] theorem length_overwrite {σ : Type} (written out : List σ) :
    (overwrite written out).length = out.length := by
  simp [overwrite]
  omega

end PcmStream
