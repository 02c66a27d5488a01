import PcmStream.Producer

/- A producer that follows a list of cues: samples to write and frames to claim, whatever is asked
   for. Past the last cue it writes nothing and claims nothing. -/
namespace PcmStream

structure Cue (σ : Type) where
  samples : List σ
  claim : Nat
  deriving Repr, DecidableEq

structure Cues (σ : Type) where
  pending : List (Cue σ)
  deriving Repr, DecidableEq

namespace Cues

variable {σ : Type}

def produce (p : Cues σ) (out : List σ) : Produced (Cues σ) σ :=
  match p.pending with
  | [] => ⟨0, out, p⟩
  | cue :: pending => ⟨cue.claim, overwrite cue.samples out, ⟨pending⟩⟩

instance [Sample σ] : Producer (Cues σ) σ where
  produce p out _ := produce p out
  length_produce p out _ := by
    simp only [produce]
    split <;> simp

end Cues

end PcmStream
