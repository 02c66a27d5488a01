import PcmStream.Producer
import PcmStream.Single.Sine

/- A sine tone. The phase counts turns and keeps only their fraction. -/
namespace PcmStream

structure Tone where
  frequency : Single
  sampleRate : Nat
  amplitude : Single := Single.half
  phase : Single := Single.zero
  deriving DecidableEq, Repr

namespace Tone

def fullTurn : Single := ⟨0x40c90fdb⟩

def step (t : Tone) : Single := t.frequency.div (Single.ofInt (max t.sampleRate 1))

def level (t : Tone) : Single := (t.phase.mul fullTurn).sin.mul t.amplitude

def advance (t : Tone) : Tone := { t with phase := (t.phase.add t.step).fract }

def play (channels : Nat) : Nat → Tone → List Single × Tone
  | 0, t => ([], t)
  | frames + 1, t =>
      let (rest, last) := play channels frames t.advance
      (List.replicate channels t.level ++ rest, last)

def produce (t : Tone) (out : List Single) (channels : Nat) : Produced Tone Single :=
  if channels = 0 then ⟨0, out, t⟩
  else
    let frames := out.length / channels
    let (written, t) := play channels frames t
    ⟨frames, overwrite written out, t⟩

instance : Producer Tone Single where
  produce := produce
  length_produce t out channels := by
    simp only [produce]
    split <;> simp

end Tone

end PcmStream
